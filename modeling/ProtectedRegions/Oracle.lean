import ProtectedRegions.Comment
import ProtectedRegions.Pattern.Expression
import ProtectedRegions.Text.Quoted

/-
  Oracles — which comments are region markers

  An oracle looks at the body of a comment and says whether it starts a
  region, ends one, or is an ordinary comment. Any function can be an oracle;
  those of this module are pairs of expressions, each matched against the whole
  body without the white space around it. The start expression names the group
  `id`; the end expression may.
-/

namespace ProtectedRegions

/-- What a marker does. -/
inductive MarkerKind where
  | start
  | finish
  | other (name : Text)
  deriving DecidableEq, Repr

/-- A comment recognised as a marker, with the id it names. -/
structure Marker where
  kind : MarkerKind
  id : Option Text
  deriving DecidableEq, Repr

/-- The group that holds a region's id. -/
def idGroup : Text := ['i', 'd']

/-- The second expression of a pair: an expression, or a configured value that
is no text. -/
inductive FinishPattern where
  | expression (e : Expression)
  | unusable (configured : Value)

/-- Two expressions, for the start and for the end of a region. -/
structure PatternOracle where
  start : Expression
  finish : FinishPattern
  named : start.hasGroup idGroup = true

/-- Why two values are no pair of expressions. -/
inductive PatternFault where
  | unread (fault : Expression.ReadFault)
  | noIdGroup
  | noText
  deriving DecidableEq, Repr

/-- The refusal of a start expression without an id. -/
def noIdGroupMessage : String := "Start marker pattern needs a named group 'id'"

namespace PatternOracle

def pair (start : Expression) (finish : FinishPattern) : Except PatternFault PatternOracle :=
  if h : start.hasGroup idGroup = true then .ok ⟨start, finish, h⟩ else .error .noIdGroup

/-- The first expression of a pair, if the value that it is given by is a text. -/
def startOf (read : Text → Expression.Read Expression) (v : Value) :
    Except PatternFault (Option Expression) :=
  match v with
  | .text source => ((read source).mapError .unread).map some
  | _ => .ok none

/-- The second expression of a pair. -/
def finishOf (read : Text → Expression.Read Expression) (v : Value) :
    Except PatternFault FinishPattern :=
  match v with
  | .text source => ((read source).mapError .unread).map .expression
  | v => .ok (.unusable v)

/-- The pair that two configured values stand for, where texts are read in a certain
way. Both texts are read before the first value has to be one. -/
def configured (read : Text → Expression.Read Expression) (start finish : Value) :
    Except PatternFault PatternOracle := do
  let start ← startOf read start
  let finish ← finishOf read finish
  match start with
  | some start => pair start finish
  | none => .error .noText

def make (start finish : Text) : Except PatternFault PatternOracle :=
  configured Expression.read (.text start) (.text finish)

/-- The marker that the body of a comment is. -/
def classify (o : PatternOracle) (body : Text) : Except Defect (Option Marker) :=
  let t := body.trim
  match o.start.fullMatch t with
  | some spot => .ok (some ⟨.start, o.start.group? idGroup spot⟩)
  | none =>
    match o.finish with
    | .unusable _ => .error .finishPattern
    | .expression e =>
      match e.fullMatch t with
      | some spot => .ok (some ⟨.finish, e.group? idGroup spot⟩)
      | none => .ok none

/-- The texts of the two expressions, if both are texts. -/
def sources? (o : PatternOracle) : Option (Text × Text) :=
  match o.finish with
  | .expression e => some (o.start.source, e.source)
  | .unusable _ => none

def shown? (o : PatternOracle) : Option String :=
  o.sources?.map fun (start, finish) => s!"PatternOracle({start.quoted.str}, {finish.quoted.str})"

end PatternOracle

/-- Decides which comments are markers. -/
inductive Oracle where
  | patterns (o : PatternOracle)
  | function (f : Text → Option Marker)

namespace Oracle

/-- The marker that the body of a comment is. -/
def classify : Oracle → Text → Except Defect (Option Marker)
  | .patterns o, body => o.classify body
  | .function f, body => .ok (f body)

end Oracle

/-! ## The built-in oracles -/

/-- The oracles that a configuration can name. -/
inductive BuiltInOracle where
  | bracket
  | words
  deriving DecidableEq, Repr

namespace BuiltInOracle

def all : List BuiltInOracle := [.bracket, .words]

def name : BuiltInOracle → String
  | .bracket => "bracket"
  | .words => "protected"

def ofName? (t : Text) : Option BuiltInOracle := all.find? fun o => o.name.toList = t

def names : String := String.intercalate ", " (all.map name)

def unknownMessage (t : Text) : String := s!"Unknown oracle: {t.str}. Valid: {names}"

def letters (t : String) : List Pattern :=
  t.toList.map fun c => .char (.single c false)

def sequence (ps : List Pattern) : Pattern := ps.foldr .seq .empty

def blanks : Pattern := .repeated 0 none .most (.char ⟨[.kind .space false false], false, false⟩)

/-- The characters of an id. -/
def idSet : CharSet :=
  ⟨[.range 'A' 'Z', .range 'a' 'z', .range '0' '9', .one '_', .one '.', .one ':', .one '/', .one '-'],
    false, false⟩

/-- An id: one character at least. -/
def identifier : Pattern := .group 1 (sequence [.repeated 1 none .most (.char idSet)])

/-- The written form of an id. -/
def idSource : String := "(?P<id>[A-Za-z0-9_.:/\\-]+)"

/-- `[[region:ID]]`, with white space around the id. -/
def bracketStart : Expression :=
  ⟨("\\[\\[region:\\s*" ++ idSource ++ "\\s*\\]\\]").toList,
    sequence (letters "[[region:" ++ [blanks, identifier, blanks] ++ letters "]]"), [(idGroup, 1)]⟩

/-- `[[end]]` or `[[end:ID]]`, with white space around the id. -/
def bracketFinish : Expression :=
  ⟨("\\[\\[end(?::\\s*" ++ idSource ++ ")?\\s*\\]\\]").toList,
    sequence (letters "[[end"
      ++ [.repeated 0 (some 1) .most (sequence (letters ":" ++ [blanks, identifier])), blanks]
      ++ letters "]]"), [(idGroup, 1)]⟩

/-- `PROTECTED REGION ID(ID) START`, with white space around the id. -/
def wordsStart : Expression :=
  ⟨("PROTECTED REGION ID\\(\\s*" ++ idSource ++ "\\s*\\) START").toList,
    sequence (letters "PROTECTED REGION ID(" ++ [blanks, identifier, blanks] ++ letters ") START"),
    [(idGroup, 1)]⟩

/-- `PROTECTED REGION END`. -/
def wordsFinish : Expression :=
  ⟨"PROTECTED REGION END".toList, sequence (letters "PROTECTED REGION END"), []⟩

/-- The two expressions of a built-in oracle. -/
def patterns : BuiltInOracle → PatternOracle
  | .bracket => ⟨bracketStart, .expression bracketFinish, by decide⟩
  | .words => ⟨wordsStart, .expression wordsFinish, by decide⟩

/-- Each built-in expression is what its written form reads as. -/
theorem read_source :
    Expression.read bracketStart.source = .ok bracketStart
      ∧ Expression.read bracketFinish.source = .ok bracketFinish
      ∧ Expression.read wordsStart.source = .ok wordsStart
      ∧ Expression.read wordsFinish.source = .ok wordsFinish := by
  refine ⟨?_, ?_, ?_, ?_⟩ <;> rfl

end BuiltInOracle

/-- The oracle that is used where none is given. -/
def Oracle.default : Oracle := .patterns BuiltInOracle.bracket.patterns

end ProtectedRegions
