import ProtectedRegions.Yaml.Scalar

/-
  Tokens — a YAML text cut into its indicators and scalars

  Indentation opens and closes block structures; inside of brackets it means
  nothing. A mapping key is not announced: when a colon comes, whatever began
  last at this depth and could be a key turns out to be one, and its token is
  put in behind. Such a key lies on one line and has at most 1024 characters. A
  candidate at the indentation of a block mapping has to turn out to be a key.

  `Token.ofText` bounds its loop by the number of characters: each turn uses up
  one at least, or finds the end.
-/

namespace ProtectedRegions
namespace Yaml

inductive Token where
  | version (major : Nat)
  | tagHandle (handle start : Text)
  | otherDirective
  | documentStart
  | documentEnd
  | blockSequence
  | blockMapping
  | blockEnd
  | openSequence
  | closeSequence
  | openMapping
  | closeMapping
  | blockEntry
  | flowEntry
  | key
  | value
  | alias (name : Text)
  | anchor (name : Text)
  | tag (handle : Option Text) (suffix : Text)
  | scalar (t : Text) (plain : Bool)
  deriving DecidableEq, Repr

/-- What may turn out to be a mapping key: the number of tokens before it,
whether it has to be one, and where it began. -/
structure Candidate where
  before : Nat
  required : Bool
  index : Nat
  line : Nat
  column : Nat

/-- A text in the middle of being cut: the place, the tokens so far, the open
indentations and brackets, whether a key may begin here, and for each depth of
brackets the candidate for a key. -/
structure Lexer where
  cursor : Cursor
  tokens : Array Token
  indent : Int
  indents : List Int
  depth : Nat
  keyAllowed : Bool
  candidates : List (Nat × Candidate)

namespace Lexer

def start (t : Text) : Lexer := ⟨.start t, #[], -1, [], 0, true, []⟩

def emit (l : Lexer) (t : Token) : Lexer := { l with tokens := l.tokens.push t }

def moveTo (l : Lexer) (c : Cursor) : Lexer := { l with cursor := c }

/-! ## Candidates for keys -/

/-- Forgets the candidate at the present depth, which must not be required. -/
def dropCandidate (l : Lexer) : Except Fault Lexer :=
  match l.candidates.lookup l.depth with
  | some k =>
    if k.required then .error .malformed
    else .ok { l with candidates := l.candidates.filter (·.1 != l.depth) }
  | none => .ok l

/-- Forgets the candidates that lie on another line or too far behind. -/
def dropStale (l : Lexer) : Except Fault Lexer :=
  let stale := fun (k : Candidate) => k.line != l.cursor.line || 1024 < l.cursor.index - k.index
  if l.candidates.any fun k => stale k.2 && k.2.required then .error .malformed
  else .ok { l with candidates := l.candidates.filter fun k => !stale k.2 }

/-- Remembers that a key may begin here. -/
def offerCandidate (l : Lexer) : Except Fault Lexer :=
  if l.keyAllowed then do
    let l ← l.dropCandidate
    let required := l.depth = 0 && l.indent = Int.ofNat l.cursor.column
    let k : Candidate :=
      ⟨l.tokens.size, required, l.cursor.index, l.cursor.line, l.cursor.column⟩
    return { l with candidates := (l.depth, k) :: l.candidates }
  else .ok l

/-! ## Indentation -/

/-- Closes the block structures that are indented more than a column. -/
def unwind (column : Int) (l : Lexer) : Lexer :=
  if l.depth ≠ 0 then l
  else
    let rec close : Int → List Int → Array Token → Int × List Int × Array Token
      | indent, [], tokens => (indent, [], tokens)
      | indent, outer :: rest, tokens =>
        if column < indent then close outer rest (tokens.push .blockEnd)
        else (indent, outer :: rest, tokens)
    let (indent, indents, tokens) := close l.indent l.indents l.tokens
    { l with indent := indent, indents := indents, tokens := tokens }

/-- Opens a block structure at a column that is indented more than the present
one, with its token at a given place. -/
def deepen (column : Nat) (t : Token) (place : Nat) (l : Lexer) : Lexer :=
  if l.indent < Int.ofNat column then
    { l with
      indent := Int.ofNat column
      indents := l.indent :: l.indents
      tokens := l.tokens.insertIdxIfInBounds place t }
  else l

/-! ## White space, comments, directives -/

/-- Passes over white space, comments and line breaks. A new line allows a key
outside of brackets. -/
def skipBlank : Nat → Lexer → Lexer
  | 0, l => l
  | n + 1, l =>
    let c := l.cursor.skipSpaces
    let c := if c.sees '#' then c.skipLine else c
    match c.lineBreak with
    | ([], c) => l.moveTo c
    | (_, c) => skipBlank n { l with cursor := c, keyAllowed := l.keyAllowed || l.depth = 0 }

def number (c : Cursor) : Except Fault (Nat × Cursor) :=
  match c.takeWhile Expression.isDigit with
  | ([], _) => .error .malformed
  | (digits, c) => .ok (Expression.decimalValue digits, c)

/-- Whether a character may stand in the name of an anchor or a tag handle. -/
def isNameChar (c : Char) : Bool :=
  Expression.isDigit c || Expression.isLetter c || c = '-' || c = '_'

/-- A tag handle: an exclamation mark, or a name between two. -/
def handle (c : Cursor) : Except Fault (Text × Cursor) :=
  if c.sees '!' then
    let (name, behind) := c.step.takeWhile isNameChar
    if behind.sees '!' then .ok ('!' :: name ++ ['!'], behind.step)
    else if name = [] ∧ c.ahead 1 = some ' ' then .ok (['!'], c.step)
    else .error .malformed
  else .error .malformed

/-- Whether a character may stand in a tag. -/
def isTagChar (c : Char) : Bool :=
  Expression.isDigit c || Expression.isLetter c || "-;/?:@&=+$,_.!~*'()[]%".toList.contains c

/-- The bytes of escapes of a percent sign and two hexadecimal digits. -/
def percentBytes : Text → Except Fault (List UInt8)
  | [] => .ok []
  | '%' :: a :: b :: rest => do
    let n ← match Expression.hexValue? [a, b] with
      | some n => pure n
      | none => throw .malformed
    return UInt8.ofNat n :: (← percentBytes rest)
  | _ => .error .malformed

/-- The characters of a tag with escapes of bytes replaced by what they encode. -/
def unescapeTag : Nat → Text → Except Fault Text
  | 0, t => .ok t
  | _, [] => .ok []
  | n + 1, c :: rest =>
    if c = '%' then do
      let rec run : Nat → Text → Nat
        | 0, _ => 0
        | m + 1, '%' :: rest => 3 + run m (rest.drop 2)
        | _ + 1, _ => 0
      let length := run (rest.length + 1) (c :: rest)
      let bytes ← percentBytes ((c :: rest).take length)
      match String.fromUTF8? ⟨bytes.toArray⟩ with
      | some s => return s.toList ++ (← unescapeTag n ((c :: rest).drop length))
      | none => throw .malformed
    else return c :: (← unescapeTag n rest)

/-- The rest of a tag. -/
def tagSuffix (c : Cursor) : Except Fault (Text × Cursor) :=
  match c.takeWhile isTagChar with
  | ([], _) => .error .malformed
  | (t, c) => (unescapeTag t.length t).map fun t => (t, c)

/-- A directive behind its percent sign. -/
def directive (c : Cursor) : Except Fault (Token × Cursor) := do
  let (name, c) := c.takeWhile isNameChar
  if name = [] || !c.atSpace then throw .malformed
  if name = "YAML".toList then
    let (major, c) ← number c.skipSpaces
    if !c.sees '.' then throw .malformed
    let (_, c) ← number c.step
    if !c.atSpace then throw .malformed
    return (.version major, ← c.skipComment)
  else if name = "TAG".toList then
    let (h, c) ← handle c.skipSpaces
    if !c.sees ' ' then throw .malformed
    let (start, c) ← tagSuffix c.skipSpaces
    if !c.atSpace then throw .malformed
    return (.tagHandle h start, ← c.skipComment)
  else return (.otherDirective, ← c.skipLine.skipComment)

/-- The name of an anchor or an alias, behind its sign. -/
def anchorName (c : Cursor) : Except Fault (Text × Cursor) :=
  let (name, c) := c.takeWhile isNameChar
  let ended := c.separated 0 || c.peek.any ("?:,]\x7d%@\x60".toList.contains ·)
  if name ≠ [] && ended then .ok (name, c) else .error .malformed

/-- A tag at its exclamation mark. -/
def tag (c : Cursor) : Except Fault (Token × Cursor) := do
  let (t, c) ←
    if c.ahead 1 = some '<' then do
      let (suffix, c) ← tagSuffix (c.advance 2)
      if !c.sees '>' then throw .malformed
      pure (Token.tag none suffix, c.step)
    else if c.separated 1 then pure (Token.tag none ['!'], c.step)
    else
      let word := c.step.rest.takeWhile fun d => !(d = ' ' || isBreak d)
      if word.contains '!' then do
        let (h, c) ← handle c
        let (suffix, c) ← tagSuffix c
        pure (Token.tag (some h) suffix, c)
      else do
        let (suffix, c) ← tagSuffix c.step
        pure (Token.tag (some ['!']) suffix, c)
  if c.atSpace then return (t, c) else throw .malformed

/-! ## One token after the other -/

/-- Adds a token of one character that no key can be. -/
def indicator (l : Lexer) (t : Token) : Lexer := (l.emit t).moveTo l.cursor.step

def openBracket (l : Lexer) (t : Token) : Except Fault Lexer := do
  let l ← l.offerCandidate
  return { l.indicator t with depth := l.depth + 1, keyAllowed := true }

def closeBracket (l : Lexer) (t : Token) : Except Fault Lexer := do
  let l ← l.dropCandidate
  if l.depth = 0 then throw .malformed
  return { l.indicator t with depth := l.depth - 1, keyAllowed := false }

def entry (l : Lexer) (t structureStart : Token) (keyAllowed : Bool) : Except Fault Lexer := do
  if l.depth = 0 && !l.keyAllowed then throw .malformed
  let l := if l.depth = 0 then l.deepen l.cursor.column structureStart l.tokens.size else l
  let l ← ({ l with keyAllowed := keyAllowed } : Lexer).dropCandidate
  return l.indicator t

/-- A colon: the candidate at this depth is a key, or the key was announced. -/
def colon (l : Lexer) : Except Fault Lexer :=
  match l.candidates.lookup l.depth with
  | some k =>
    let l := { l with candidates := l.candidates.filter (·.1 != l.depth) }
    let l := { l with tokens := l.tokens.insertIdxIfInBounds k.before .key }
    let l := if l.depth = 0 then l.deepen k.column .blockMapping k.before else l
    .ok (({ l with keyAllowed := false } : Lexer).indicator .value)
  | none => l.entry .value .blockMapping (l.depth = 0)

/-- A token that a key may begin with. -/
def keyStart (l : Lexer) (read : Cursor → Except Fault (Token × Cursor)) : Except Fault Lexer := do
  let l ← l.offerCandidate
  let (t, c) ← read l.cursor
  return ({ l with keyAllowed := false }.emit t).moveTo c

/-- A mark between documents, or a directive. -/
def betweenDocuments (l : Lexer) (read : Cursor → Except Fault (Token × Cursor)) :
    Except Fault Lexer := do
  let l ← (l.unwind (-1)).dropCandidate
  let (t, c) ← read l.cursor
  return ({ l with keyAllowed := false }.emit t).moveTo c

def block (l : Lexer) (folded : Bool) : Except Fault Lexer := do
  let l ← ({ l with keyAllowed := true } : Lexer).dropCandidate
  let (t, c) ← blockScalar folded l.indent l.cursor.step
  return (l.emit (.scalar t false)).moveTo c

def plain (l : Lexer) : Except Fault Lexer := do
  let l ← l.offerCandidate
  let bound := l.cursor.rest.length + 1
  let (t, c, broke) :=
    plainScalar (l.depth ≠ 0) (l.indent + 1).toNat bound [] [] false l.cursor
  return ({ l with keyAllowed := broke }.emit (.scalar t true)).moveTo c

/-- Whether a plain scalar can begin here. -/
def startsPlain (l : Lexer) : Bool :=
  let c := l.cursor
  match c.peek with
  | none => false
  | some d =>
    let indicators := "-?:,[]\x7b\x7d#&*!|>'\x22%@\x60".toList
    (!c.separated 0 && !indicators.contains d)
      || (!c.separated 1 && (d = '-' || (l.depth = 0 && (d = '?' || d = ':'))))

def more (l : Lexer) : Lexer × Bool := (l, true)

def ended (l : Lexer) : Lexer × Bool := (l, false)

/-- Reads the next token, or finds the end of the text, which closes all blocks. -/
def next (l : Lexer) : Except Fault (Lexer × Bool) := do
  let l ← (l.skipBlank (l.cursor.rest.length + 1)).dropStale
  let l := l.unwind (Int.ofNat l.cursor.column)
  let c := l.cursor
  match c.peek with
  | none => ended <$> (l.unwind (-1)).dropCandidate
  | some d =>
    let mark := c.column = 0 && c.atDocumentMark
    if d = '%' && c.column = 0 then more <$> l.betweenDocuments fun c => directive c.step
    else if mark && d = '-' then
      more <$> l.betweenDocuments fun c => .ok (.documentStart, c.advance 3)
    else if mark && d = '.' then
      more <$> l.betweenDocuments fun c => .ok (.documentEnd, c.advance 3)
    else if d = '[' then more <$> l.openBracket .openSequence
    else if d.toNat = 123 then more <$> l.openBracket .openMapping
    else if d = ']' then more <$> l.closeBracket .closeSequence
    else if d.toNat = 125 then more <$> l.closeBracket .closeMapping
    else if d = ',' then do
      let l ← ({ l with keyAllowed := true } : Lexer).dropCandidate
      return more (l.indicator .flowEntry)
    else if d = '-' && c.separated 1 then more <$> l.entry .blockEntry .blockSequence true
    else if d = '?' && (l.depth ≠ 0 || c.separated 1) then
      more <$> l.entry .key .blockMapping (l.depth = 0)
    else if d = ':' && (l.depth ≠ 0 || c.separated 1) then more <$> l.colon
    else if d = '*' then
      more <$> l.keyStart fun c => (anchorName c.step).map fun (t, c) => (.alias t, c)
    else if d = '&' then
      more <$> l.keyStart fun c => (anchorName c.step).map fun (t, c) => (.anchor t, c)
    else if d = '!' then more <$> l.keyStart tag
    else if d = '|' && l.depth = 0 then more <$> l.block false
    else if d = '>' && l.depth = 0 then more <$> l.block true
    else if d.toNat = 39 || d.toNat = 34 then
      more <$> l.keyStart fun c =>
        (quotedScalar d (c.rest.length + 1) [] c.step).map fun (t, c) => (.scalar t false, c)
    else if l.startsPlain then more <$> l.plain
    else throw .malformed

/-- Reads all tokens, in at most so many steps. -/
def all (l : Lexer) : Nat → Except Fault (Array Token)
  | 0 => .error .malformed
  | n + 1 =>
    match l.next with
    | .error e => .error e
    | .ok (l, true) => all l n
    | .ok (l, false) => .ok l.tokens

end Lexer

def Token.ofText (t : Text) : Except Fault (Array Token) :=
  (Lexer.start t).all (t.length + 2)
end Yaml
end ProtectedRegions
