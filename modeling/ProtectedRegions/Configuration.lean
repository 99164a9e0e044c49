import ProtectedRegions.Failure
import ProtectedRegions.Value.Written

/-
  Configurations — the parsers that a list of settings describes

  Each entry describes one parser: its comments, by a preset's name or one by
  one, its oracle, its direction, and the files it is for. Entries are read in
  order, and within an entry its name, the comments, the oracle and the files,
  so the first fault in that order is the one that is reported. A setting that
  counts as absent (null, false, zero, empty) is treated as not given.

  Some settings are written as texts, whatever they are, and some texts are read
  as expressions. What does that is a `Runtime`; it may give up on a value or an
  expression that is too large for it. `Runtime.standard` has the usual bound on
  the digits of a number and the usual bounds of expressions; how deep a value or
  an expression may be nested is a matter of the machine, and it has no bound
  for that.

  A list or a mapping that stands inside of itself is not gone into again
  (`Value.enclosing`): as a setting it has no items and no names here.
-/

namespace ProtectedRegions

/-- A configured parser and the files it is for; all files if none are chosen. -/
structure ParserEntry where
  parser : Parser
  filter : Option Filter

/-! ## Writing values and reading expressions -/

inductive WriteFault where
  | tooLong (limit : Nat)
  | tooDeep
  deriving DecidableEq, Repr

def WriteFault.defect : WriteFault → Defect
  | .tooLong _ => .longNumber
  | .tooDeep => .deepValue

/-- What is wrong with an expression that is given up on. A text that is no expression is not
given up on, but refused. -/
def Expression.ReadFault.defect? : Expression.ReadFault → Option Defect
  | .refused | .unfit => none
  | .outOfBounds => some .repetition
  | .tooDeep => some .deepExpression

/-- What writes the values of a configuration and reads its expressions. A text is written as
it is. -/
structure Runtime where
  write : Value → Except WriteFault Text
  read : Text → Expression.Read Expression
  write_text : ∀ t, write (.text t) = .ok t

/-- The runtime that bounds the digits of a number and the counts of an expression. -/
def Runtime.standard : Runtime where
  write v := if v.fits then .ok v.written else .error (.tooLong Text.digitBound)
  read := Expression.read
  write_text _ := rfl

namespace Configuration

abbrev Settings := List (Value × Value)

/-- Why a setting of an entry is not taken. -/
inductive SettingFault where
  | entry (fault : EntryFault)
  | defect (d : Defect)
  | filter (fault : FilterFault)

/-- The failure that a setting leads to in the entry of a name. -/
def SettingFault.failure (name : Text) : SettingFault → Failure
  | .entry fault => .config (.inEntry name fault)
  | .defect d => .defect d
  | .filter fault => .filter fault

/-- The first value that counts as given, or the last one. -/
def firstGiven (a b : Value) : Value := if a.truthy then a else b

/-- The value that names the entry at an index. -/
def nameValue (settings : Settings) (index : Nat) : Value :=
  firstGiven (Value.lookup "name" settings)
    (firstGiven (Value.lookup "preset" settings) (.text s!"parser-{index}".toList))

/-! ## Comments -/

/-- The text of a value in a place where a number with too many digits is looked out for. -/
def guarded (rt : Runtime) (v : Value) : Except SettingFault Text :=
  (rt.write v).mapError fun fault => match fault with
    | .tooLong limit => .entry (.tooLong limit)
    | .tooDeep => .defect .deepValue

/-- The value of the opening token of a comment. -/
def openingValue (settings : Settings) : Value :=
  firstGiven (Value.lookup "start" settings) (.text [])

/-- The comment syntax that a value describes: its opening token, or a mapping
with the opening and the closing token. -/
def comment (rt : Runtime) (v : Value) : Except SettingFault Comment :=
  match v with
  | .text opening => (Comment.configured opening .null).mapError (.entry ∘ .comment)
  | .mapping settings => do
    let opening ← guarded rt (openingValue settings)
    (Comment.configured opening (Value.lookup "end" settings)).mapError (.entry ∘ .comment)
  | _ => .error (.entry .commentNotMapping)

/-- A lexicon that has a comment syntax. -/
abbrev NonemptyLexicon := { lexicon : Lexicon // lexicon ≠ [] }

def presetLexicon (rt : Runtime) (v : Value) : Except SettingFault NonemptyLexicon := do
  let name ← guarded rt v
  match Preset.ofName? name with
  | some p => .ok ⟨p.lexicon, p.lexicon_ne_nil⟩
  | none => .error (.entry (.unknownPreset name))

def listedLexicon (rt : Runtime) (items : List Value) : Except SettingFault NonemptyLexicon := do
  let cs ← items.mapM (comment rt)
  if h : cs = [] then .error (.entry .noComments) else .ok ⟨cs, h⟩

def lexicon (rt : Runtime) (settings : Settings) : Except SettingFault NonemptyLexicon :=
  let preset := Value.lookup "preset" settings
  let described := Value.lookup "comments" settings
  if preset.truthy && described.truthy then .error (.entry .presetAndComments)
  else if preset.truthy then presetLexicon rt preset
  else
    match described with
    | .list items => listedLexicon rt items
    | _ => .error (.entry .noComments)

/-! ## Oracles -/

def patternFault : PatternFault → SettingFault
  | .unread fault =>
    match fault.defect? with
    | some d => .defect d
    | none => .entry .noExpression
  | .noIdGroup => .entry .noIdGroup
  | .noText => .defect .startPattern

/-- The oracle of an entry: a name, or a mapping with two expressions. -/
def oracle (rt : Runtime) (v : Value) : Except SettingFault PatternOracle :=
  match v with
  | .null => .ok BuiltInOracle.bracket.patterns
  | .text name =>
    match BuiltInOracle.ofName? name with
    | some o => .ok o.patterns
    | none => .error (.entry (.unknownOracle name))
  | .mapping settings =>
    match Value.lookup? "start" settings, Value.lookup? "end" settings with
    | some start, some finish =>
      (PatternOracle.configured rt.read start finish).mapError patternFault
    | _, _ => .error (.entry .oracleShape)
  | _ => .error (.entry .oracleShape)

/-! ## Filters -/

/-- The values that a value is made of: the items of a list, a pair or a set, the
characters of a text, the numbers of bytes, the keys of a mapping. -/
def parts? : Value → Option (List Value)
  | .list items => some items
  | .pair a b => some [a, b]
  | .set items => some items
  | .bytes b => some (b.map fun x => .int (Int.ofNat x.toNat))
  | .text t => some (t.map fun c => .text [c])
  | .mapping settings => some (settings.map (·.1))
  | _ => none

/-- The filter of a given setting. -/
def chosen (rt : Runtime) (make : List Text → Except FilterFault Filter) (d : Defect)
    (v : Value) : Except SettingFault (Option Filter) :=
  match parts? v with
  | none => .error (.defect d)
  | some items => do
    let texts ← (items.mapM rt.write).mapError fun fault => .defect fault.defect
    let f ← (make texts).mapError .filter
    return some f

/-- The files that an entry is for. -/
def filter (rt : Runtime) (settings : Settings) : Except SettingFault (Option Filter) :=
  let extensions := Value.lookup "extensions" settings
  let globs := Value.lookup "globs" settings
  if extensions.truthy && globs.truthy then .error (.entry .extensionsAndGlobs)
  else if extensions.truthy then chosen rt Filter.ofExtensions .endings extensions
  else if globs.truthy then chosen rt Filter.ofGlobs .globs globs
  else .ok none

/-! ## Entries -/

/-- The parser of a name that settings describe, and the files it is for. -/
def described (rt : Runtime) (name : Text) (settings : Settings) :
    Except SettingFault ParserEntry := do
  let lexicon ← lexicon rt settings
  let oracle ← oracle rt (Value.lookup "oracle" settings)
  let inverse := (Value.lookup "inverse" settings).truthy
  let filter ← filter rt settings
  return ⟨⟨lexicon.1, .patterns oracle, inverse, name, lexicon.2⟩, filter⟩

/-- The parser that the entry at an index describes. -/
def entry (rt : Runtime) (index : Nat) (v : Value) : Except Failure ParserEntry :=
  match v with
  | .mapping settings => do
    let name ← (rt.write (nameValue settings index)).mapError fun fault => .defect fault.defect
    (described rt name settings).mapError (SettingFault.failure name)
  | _ => .error (.config (.entryNotMapping index))

/-- The parsers that a list of entries describes, in order. -/
def parsers (rt : Runtime) (v : Value) : Except Failure (List ParserEntry) :=
  if v.truthy then
    match parts? v with
    | some items => items.zipIdx.mapM fun (item, index) => entry rt index item
    | none => .error (.defect .entries)
  else .error (.config .noEntries)

/-- The parsers that are used where nothing is configured: one for slashes and
stars, with markers in brackets, for every file. -/
def standard : List ParserEntry :=
  [⟨⟨Preset.cLike.lexicon, .default, false, "default".toList, Preset.cLike.lexicon_ne_nil⟩, none⟩]

end Configuration
end ProtectedRegions
