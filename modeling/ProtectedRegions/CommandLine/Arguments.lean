import ProtectedRegions.Text.Word

/-
  Arguments — what a command line asks for

  The program has options of its own, then a command, then the options and the
  one argument of the command; `--config` and `--verbose` may stand on either
  side. A long option may be cut short where no other begins like it, may carry
  its value behind an equals sign, and short options may share a dash. What
  follows two dashes is no option.

  The words of a line are told apart once by the program's options and once
  more, behind the command, by the command's. A word that is nothing known is
  remembered, and refused when everything else has been read; help and version
  are answered as soon as they are met.
-/

namespace ProtectedRegions
namespace CommandLine

/-- The options. -/
inductive Switch where
  | help
  | version
  | config
  | verbose
  | target
  | read
  | dryRun
  deriving DecidableEq, Repr

def Switch.hasValue : Switch → Bool
  | .config => true
  | .target => true
  | .read => true
  | _ => false

abbrev Spellings := List (Text × Switch)

/-- The commands. -/
inductive CommandName where
  | sync
  | regions
  | check
  deriving DecidableEq, Repr

namespace CommandName

def ofText? (t : Text) : Option CommandName :=
  if t = "sync".toList then some .sync
  else if t = "regions".toList then some .regions
  else if t = "check".toList then some .check
  else none

/-- The options of a command. -/
def spellings (c : CommandName) : Spellings :=
  let common := [("-h".toList, Switch.help), ("--help".toList, .help), ("--config".toList, .config),
    ("-v".toList, .verbose), ("--verbose".toList, .verbose)]
  match c with
  | .sync => common ++ [("--target".toList, .target), ("--read".toList, .read),
      ("--dry-run".toList, .dryRun)]
  | _ => common

end CommandName

/-- The options of the program itself. -/
def programSpellings : Spellings :=
  [("-h".toList, .help), ("--help".toList, .help), ("--version".toList, .version),
    ("--config".toList, .config), ("-v".toList, .verbose), ("--verbose".toList, .verbose)]

/-- A word of a command line: the two dashes, an argument, or an option as it is
spelled, with what is attached to it. An option may be unknown. -/
inductive Word where
  | dashes
  | argument (t : Text)
  | option (written : Text) (switch : Option Switch) (spelled : Text) (attached : Option Text)
  deriving DecidableEq, Repr

def Word.written : Word → Text
  | .dashes => ['-', '-']
  | .argument t => t
  | .option written _ _ _ => written

/-- What ends the reading of a command line at once. -/
inductive Halt where
  | help
  | version
  | refused (message : String)
  deriving DecidableEq, Repr

def splitEquals (t : Text) : Option (Text × Text) := Text.breakOn ['='] t

def isNegativeNumber (t : Text) : Bool :=
  match t with
  | '-' :: rest =>
    let whole := rest.takeWhile Text.isDecimal
    match rest.drop whole.length with
    | [] => whole ≠ []
    | '.' :: fraction => fraction ≠ [] && fraction.all Text.isDecimal
    | _ => false
  | _ => false

/-- The options that a word with one or two dashes may be short for. -/
def candidates (known : Spellings) (t : Text) : List (Switch × Text × Option Text) :=
  match t with
  | '-' :: '-' :: _ =>
    let (start, attached) := match splitEquals t with
      | some (start, value) => (start, some value)
      | none => (t, none)
    (known.filter fun k => k.1.startsWith start).map fun k => (k.2, k.1, attached)
  | _ =>
    known.filterMap fun k =>
      if k.1 = t.take 2 then some (k.2, k.1, some (t.drop 2))
      else if k.1.startsWith t then some (k.2, k.1, none)
      else none

/-- What kind of word a text is. -/
def classify (known : Spellings) (t : Text) : Except Halt Word :=
  if t.head? ≠ some '-' then .ok (.argument t)
  else match known.lookup t with
    | some s => .ok (.option t (some s) t none)
    | none =>
      if t.length = 1 then .ok (.argument t)
      else match (splitEquals t).bind fun cut => (known.lookup cut.1).map fun s => (s, cut) with
        | some (s, spelled, value) => .ok (.option t (some s) spelled (some value))
        | none =>
          match candidates known t with
          | [(s, spelled, attached)] => .ok (.option t (some s) spelled attached)
          | [] =>
            if isNegativeNumber t || t.contains ' ' then .ok (.argument t)
            else .ok (.option t none t none)
          | _ => .error (.refused s!"ambiguous option: {t.str}")

/-- The words of texts. Behind two dashes there are only arguments. -/
def classifyAll (known : Spellings) : List Text → Except Halt (List Word)
  | [] => .ok []
  | t :: rest =>
    if t = ['-', '-'] then .ok (.dashes :: rest.map .argument)
    else do
      let w ← classify known t
      let ws ← classifyAll known rest
      return w :: ws

/-- The options read so far. -/
structure Settings where
  config : Option Text
  verbose : Bool
  target : Option Text
  reads : List Text
  dryRun : Bool
  deriving DecidableEq, Repr

def Settings.none : Settings := ⟨Option.none, false, Option.none, [], false⟩

def Settings.apply (s : Settings) (o : Switch) (value : Text) : Except Halt Settings :=
  match o with
  | .help => .error .help
  | .version => .error .version
  | .config => .ok { s with config := some value }
  | .verbose => .ok { s with verbose := true }
  | .target => .ok { s with target := some value }
  | .read => .ok { s with reads := s.reads ++ [value] }
  | .dryRun => .ok { s with dryRun := true }

/-- The options behind one dash: those without a value, and the last with what
is left as its value. -/
def cluster (known : Spellings) (o : Switch) : Text → Except Halt (List (Switch × Text))
  | [] => .ok [(o, [])]
  | c :: rest =>
    if o.hasValue then .ok [(o, c :: rest)]
    else match known.lookup ['-', c] with
      | none => .error (.refused "ignored explicit argument")
      | some next => (cluster known next rest).map ((o, []) :: ·)

/-- An option with what is attached to it, or with the word behind it; the
settings, and the words behind. -/
def option (known : Spellings) (s : Settings) (o : Switch) (spelled : Text) (attached : Option Text)
    (rest : List Word) : Except Halt (Settings × List Word) :=
  match attached with
  | some value =>
    if o.hasValue then do return (← s.apply o value, rest)
    else if value ≠ [] ∧ !spelled.startsWith ['-', '-'] then do
      let all ← cluster known o value
      let s ← all.foldlM (fun s o => Settings.apply s o.1 o.2) s
      return (s, rest)
    else .error (.refused "ignored explicit argument")
  | none =>
    if o.hasValue then
      match rest with
      | .argument value :: rest => do return (← s.apply o value, rest)
      | _ => .error (.refused "expected one argument")
    else do return (← s.apply o [], rest)

/-- What a command takes: its argument, the settings, and whether a word was
left over. -/
structure Taken where
  argument : Option Text
  settings : Settings
  surplus : Bool
  deriving DecidableEq, Repr

/-- The argument at the front of words: two dashes may stand before it or behind
it. -/
def argumentAt : List Word → Option (Text × List Word)
  | .dashes :: .argument t :: rest => some (t, rest)
  | .argument t :: .dashes :: rest => some (t, rest)
  | .argument t :: rest => some (t, rest)
  | _ => none

def takeWords (known : Spellings) : Nat → Taken → List Word → Except Halt Taken
  | 0, taken, _ => .ok taken
  | _, taken, [] => .ok taken
  | n + 1, taken, w :: rest =>
    match w with
    | .option _ none _ _ => takeWords known n { taken with surplus := true } rest
    | .option _ (some o) spelled attached =>
      match option known taken.settings o spelled attached rest with
      | .error h => .error h
      | .ok (s, rest) => takeWords known n { taken with settings := s } rest
    | _ =>
      match taken.argument, argumentAt (w :: rest) with
      | none, some (t, rest) => takeWords known n { taken with argument := some t } rest
      | _, _ => takeWords known n { taken with surplus := true } rest

inductive Command where
  | sync (generated : Text) (target : Option Text) (reads : List Text) (dryRun : Bool)
  | regions (file : Text)
  | check (root : Text)
  deriving DecidableEq, Repr

/-- What a command line asks for. -/
inductive Invocation where
  | halted (h : Halt)
  | run (config : Option Text) (verbose : Bool) (c : Command)
  deriving DecidableEq, Repr

/-- The command of a name, with its argument and its settings. -/
def CommandName.command (c : CommandName) (argument : Text) (s : Settings) : Command :=
  match c with
  | .sync => .sync argument s.target s.reads s.dryRun
  | .regions => .regions argument
  | .check => .check argument

/-- Reads what stands behind the program's own options. -/
def behindCommand (s : Settings) (surplus : Bool) : List Text → Except Halt Invocation
  | [] => .error .help
  | name :: rest =>
    match CommandName.ofText? name with
    | none => .error (.refused s!"invalid choice: {name.str}")
    | some c => do
      let words ← classifyAll c.spellings rest
      let taken ← takeWords c.spellings (words.length + 1) ⟨none, { s with config := none }, false⟩ words
      match taken.argument with
      | none => throw (.refused "the following arguments are required")
      | some argument =>
        if surplus || taken.surplus then throw (.refused "unrecognized arguments")
        let config := match taken.settings.config with
          | some value => some value
          | none => s.config
        return .run config taken.settings.verbose (c.command argument taken.settings)

/-- Reads the program's own options up to the command, and then the command. -/
def fromWords : Nat → Settings → Bool → List Word → Except Halt Invocation
  | 0, _, _, _ => .error .help
  | _, _, surplus, [] =>
    if surplus then .error (.refused "unrecognized arguments") else .error .help
  | n + 1, s, surplus, w :: rest =>
    match w with
    | .option _ none _ _ => fromWords n s true rest
    | .option _ (some o) spelled attached =>
      match option programSpellings s o spelled attached rest with
      | .error h => .error h
      | .ok (s, rest) => fromWords n s surplus rest
    | .dashes =>
      match rest with
      | [] => .error (.refused "unrecognized arguments")
      | _ => .error (.refused "invalid choice: --")
    | .argument _ => behindCommand s surplus ((w :: rest).map Word.written)

/-- What a command line asks for. -/
def Invocation.ofArguments (arguments : List Text) : Invocation :=
  let read := do
    let words ← classifyAll programSpellings arguments
    fromWords (words.length + 1) .none false words
  match read with
  | .ok invocation => invocation
  | .error h => .halted h

end CommandLine
end ProtectedRegions
