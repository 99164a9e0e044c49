import ProtectedRegions.Configuration
import ProtectedRegions.Yaml.Document

/-
  Configuration files — where the configuration is, and what it says

  The path that is given explicitly comes first, then the one that the
  environment names, then the file of the usual name in the current directory.
  A file that is asked for has to be there; without one in the usual place the
  standard parsers are used. The file is a YAML mapping with a list under
  `parsers`; other names in it say nothing.
-/

namespace ProtectedRegions
namespace Configuration

def usualName : Text := "regionkeeper.yaml".toList

/-- The path of the configuration file, whether or not it exists. -/
def path (w : Workspace) (given : Option Text) : Path :=
  match given.getD [], w.configVariable.getD [] with
  | [], [] => ⟨['/'], w.current ++ [usualName]⟩
  | [], named => w.expand (Path.ofText named)
  | given, _ => w.expand (Path.ofText given)

/-- The text with a line feed for every line terminator. -/
def unifyBreaks : Text → Text
  | [] => []
  | '\r' :: '\n' :: rest => '\n' :: unifyBreaks rest
  | c :: rest => (if c = '\r' then '\n' else c) :: unifyBreaks rest

def settings (w : Workspace) (file : Text) : Except Failure Settings := do
  let bytes ← (w.readBytes file).mapError .disk
  let t ← (Text.decode bytes).mapError .undecodable
  match Yaml.load (unifyBreaks t) with
  | .ok (.mapping settings) => return settings
  | .ok _ => throw (.config (.notMapping file))
  | .error .malformed => throw (.config (.notYaml file))
  | .error (.unfit message) => throw (.unfitScalar message)
  | .error (.defect d) => throw (.defect d)

def load (w : Workspace) (given : Option Text) : Except Failure (List ParserEntry) :=
  let file := path w given
  if w.isFile file then do
    let s ← settings w file.text
    match Value.lookup "parsers" s with
    | .list items => parsers .standard (.list items)
    | _ => throw (.config (.noParserList file.text))
  else if given.getD [] = [] then .ok standard
  else .error (.noConfiguration file.text)

end Configuration
end ProtectedRegions
