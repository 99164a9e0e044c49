import ProtectedRegions.Pool
import ProtectedRegions.Parser
import ProtectedRegions.Workspace

/-
  Failures — everything that can end a run, by its cause

  Each part of the library has its own type of causes; `Failure` brings them
  together. The wording of every cause is here or beside the cause, and nothing
  else depends on wordings. A failure is reported when it is about the files,
  the configuration or the way an operation was called; a setting of the wrong
  shape, found in use, is a defect and ends the program instead.
-/

namespace ProtectedRegions

/-- How far a builder has come. -/
inductive Stage where
  | configuring
  | reading
  | built
  deriving DecidableEq, Repr

def Stage.name : Stage → String
  | .configuring => "CONFIGURING"
  | .reading => "READING"
  | .built => "BUILT"

inductive Operation where
  | addParser
  | read
  | build
  deriving DecidableEq, Repr

def Operation.name : Operation → String
  | .addParser => "add_parser"
  | .read => "read"
  | .build => "build"

/-- Why a builder refuses what it is asked. -/
inductive BuilderError where
  | noParser
  | notAllowed (operation : Operation) (stage : Stage)
  | noParsersYet
  | rootNotDirectory (path : Text)
  deriving DecidableEq, Repr

def BuilderError.message : BuilderError → String
  | .noParser => "Parser cannot be None"
  | .notAllowed operation stage => s!"'{operation.name}' is not allowed in state {stage.name}"
  | .noParsersYet => "Parsers have to be added before reading"
  | .rootNotDirectory path => s!"Not a directory: {path.str}"

/-- What is wrong with one entry of a configuration. -/
inductive EntryFault where
  | presetAndComments
  | unknownPreset (name : Text)
  | tooLong (limit : Nat)
  | noComments
  | commentNotMapping
  | comment (fault : CommentFault)
  | unknownOracle (name : Text)
  | noExpression
  | noIdGroup
  | oracleShape
  | extensionsAndGlobs
  deriving DecidableEq, Repr

def EntryFault.message : EntryFault → String
  | .presetAndComments => "use either 'preset' or 'comments', not both"
  | .unknownPreset name => Preset.unknownMessage name
  | .tooLong limit => s!"Exceeds the limit ({limit} digits) for integer string conversion; "
    ++ "use sys.set_int_max_str_digits() to increase the limit"
  | .noComments => "needs a 'preset' or a non-empty 'comments' list"
  | .commentNotMapping => "comment entries must be mappings"
  | .comment fault => fault.message
  | .unknownOracle name => s!"unknown oracle '{name.str}'. Valid: {BuiltInOracle.names}"
  | .noExpression => "invalid oracle pattern: not a regular expression"
  | .noIdGroup => s!"invalid oracle pattern: {noIdGroupMessage}"
  | .oracleShape => "oracle must be a name or a \x7bstart, end\x7d mapping"
  | .extensionsAndGlobs => "use either 'extensions' or 'globs', not both"

/-- What is wrong with a configuration. -/
inductive ConfigError where
  | noEntries
  | entryNotMapping (index : Nat)
  | inEntry (parser : Text) (fault : EntryFault)
  | notYaml (path : Text)
  | notMapping (path : Text)
  | noParserList (path : Text)
  deriving DecidableEq, Repr

def ConfigError.message : ConfigError → String
  | .noEntries => "'parsers' must be a non-empty list"
  | .entryNotMapping index => s!"parsers[{index}] is not a mapping"
  | .inEntry parser fault => s!"parser '{parser.str}': {fault.message}"
  | .notYaml path => s!"{path.str}: not a YAML document"
  | .notMapping path => s!"{path.str} is not a YAML mapping"
  | .noParserList path => s!"{path.str}: missing 'parsers' list"

/-- Why a run ends without a result. -/
inductive Failure where
  | malformed (cause : Malformed) (line : Nat)
  | pool (e : PoolError)
  | builder (e : BuilderError)
  | config (e : ConfigError)
  | filter (fault : FilterFault)
  | disk (e : DiskError)
  | noConfiguration (path : Text)
  | generatedNotDirectory (path : Text)
  | unreadable (path : Text) (fault : Utf8Fault)
  | undecodable (fault : Utf8Fault)
  | unfitScalar (message : String)
  | defect (d : Defect)
  deriving DecidableEq, Repr

namespace Failure

def ofParse : ParseError → Failure
  | .malformed cause line => .malformed cause line
  | .defect d => .defect d

def message : Failure → String
  | .malformed cause line => located (some line) cause.message
  | .pool e => e.message
  | .builder e => e.message
  | .config e => e.message
  | .filter fault => fault.message
  | .disk e => e.message
  | .noConfiguration path => s!"Configuration file not found: {path.str}"
  | .generatedNotDirectory path => s!"Generated tree is not a directory: {path.str}"
  | .unreadable path fault => s!"Cannot read {path.str} as text: {fault.message}"
  | .undecodable fault => fault.message
  | .unfitScalar message => message
  | .defect _ => "a setting has the wrong type"

/-- Whether a failure is reported to the one who started the run. -/
def reported : Failure → Bool
  | .pool (.untraced _) => false
  | .builder .noParser => false
  | .filter _ => false
  | .undecodable _ => false
  | .unfitScalar _ => false
  | .defect _ => false
  | _ => true

end Failure

/-- The text of a file that is read as text. -/
def Workspace.readText (w : Workspace) (path : Text) : Except Failure Text :=
  match w.readBytes path with
  | .error e => .error (.disk e)
  | .ok bytes => (Text.decode bytes).mapError (.unreadable path)

end ProtectedRegions
