import ProtectedRegions.Pattern.Expression
import ProtectedRegions.Yaml.Cursor

/-
  Scalars — the texts between the structure of a YAML document

  A scalar is plain, quoted, or a block. In each, a single line break inside
  becomes a space and further ones are kept, but how a break is recognised and
  where the scalar ends differs. The readers of this module start at the first
  character of a scalar and return its text and the place behind it. Loops are
  bounded by the number of characters ahead.
-/

namespace ProtectedRegions
namespace Yaml

/-- A line break with the empty lines behind it, as it counts inside a scalar. -/
def foldBreak (lineBreak : Text) (empties : Text) : Text :=
  if lineBreak ≠ ['\n'] then lineBreak ++ empties
  else if empties = [] then [' ']
  else empties

/-! ## Plain scalars -/

/-- The characters of a plain scalar up to white space or an indicator. -/
def plainRun (flow : Bool) : Text → Text
  | [] => []
  | c :: rest =>
    let blank := fun (d : Char) => d = ' ' || d = '\t' || isBreak d
    let ends := blank c
      || (c = ':' && rest.head?.all fun d => blank d || (flow && [',', '[', ']', '{', '}'].contains d))
      || (flow && [',', '?', '[', ']', '{', '}'].contains c)
    if ends then [] else c :: plainRun flow rest

/-- The empty lines ahead inside a plain scalar: their breaks and the place
behind them, or nothing where a document ends. -/
def plainEmpties : Nat → Text → Cursor → Option (Text × Cursor)
  | 0, breaks, c => some (breaks, c)
  | n + 1, breaks, c =>
    if c.sees ' ' then plainEmpties n breaks c.step
    else
      match c.lineBreak with
      | ([], c) => some (breaks, c)
      | (b, c) => if c.atDocumentMark then none else plainEmpties n (breaks ++ b) c

/-- The white space inside a plain scalar: what it counts as (nothing where the
scalar ends), the place behind it, and whether it had a line break. -/
def plainSpace (c : Cursor) : Text × Cursor × Bool :=
  let (spaces, c) := c.takeWhile (· = ' ')
  match c.lineBreak with
  | ([], c) => (spaces, c, false)
  | (b, c) =>
    if c.atDocumentMark then ([], c, true)
    else match plainEmpties (c.rest.length + 1) [] c with
      | none => ([], (c.takeWhile fun d => d = ' ' || isBreak d).2, true)
      | some (empties, c) => (foldBreak b empties, c, true)

/-- A plain scalar whose lines have to be indented by `indent` at least outside
of brackets: its text, the place behind it, and whether it ended behind a line
break. -/
def plainScalar (flow : Bool) (indent : Nat) : Nat → Text → Text → Bool → Cursor →
    Text × Cursor × Bool
  | 0, done, _, broke, c => (done, c, broke)
  | n + 1, done, space, broke, c =>
    if c.sees '#' then (done, c, broke)
    else match plainRun flow c.rest with
      | [] => (done, c, broke)
      | run =>
        let done := done ++ space ++ run
        let (space, c, broke) := plainSpace (c.advance run.length)
        if space = [] ∨ c.sees '#' ∨ (!flow && c.column < indent) then (done, c, broke)
        else plainScalar flow indent n done space broke c

/-! ## Quoted scalars -/

/-- The character that a letter behind a backslash stands for. -/
def escaped? (c : Char) : Option Char :=
  match c with
  | '0' => some (Char.ofNat 0)
  | 'a' => some (Char.ofNat 7)
  | 'b' => some (Char.ofNat 8)
  | 't' => some '\t'
  | '\t' => some '\t'
  | 'n' => some '\n'
  | 'v' => some (Char.ofNat 11)
  | 'f' => some (Char.ofNat 12)
  | 'r' => some '\r'
  | 'e' => some (Char.ofNat 27)
  | ' ' => some ' '
  | '/' => some '/'
  | 'N' => some nextLine
  | '_' => some (Char.ofNat 0xA0)
  | 'L' => some lineSeparator
  | 'P' => some paragraphSeparator
  | c => if c.toNat = 34 ∨ c.toNat = 92 then some c else none

/-- The number of hexadecimal digits behind a letter. -/
def escapeWidth? : Char → Option Nat
  | 'x' => some 2
  | 'u' => some 4
  | 'U' => some 8
  | _ => none

/-- The character of a code point given by digits. -/
def codePoint (width : Nat) (c : Cursor) : Except Fault (Char × Cursor) :=
  let digits := c.rest.take width
  match Expression.hexValue? digits with
  | some n =>
    if digits.length < width then .error .malformed
    else if n < 0x110000 then .ok (Char.ofNat n, c.advance width)
    else .error (.unfit "chr() arg not in range(0x110000)")
  | none => .error .malformed

/-- The empty lines ahead inside a quoted scalar. -/
def quotedEmpties : Nat → Text → Cursor → Except Fault (Text × Cursor)
  | 0, breaks, c => .ok (breaks, c)
  | n + 1, breaks, c =>
    if c.atDocumentMark then .error .malformed
    else
      let c := (c.takeWhile fun d => d = ' ' || d = '\t').2
      match c.lineBreak with
      | ([], c) => .ok (breaks, c)
      | (b, c) => quotedEmpties n (breaks ++ b) c

/-- The white space inside a quoted scalar: what it counts as, and the place
behind it. -/
def quotedSpace (c : Cursor) : Except Fault (Text × Cursor) := do
  let (spaces, c) := c.takeWhile fun d => d = ' ' || d = '\t'
  if c.peek = none then throw .malformed
  match c.lineBreak with
  | ([], c) => return (spaces, c)
  | (b, c) =>
    let (empties, c) ← quotedEmpties (c.rest.length + 1) [] c
    return (foldBreak b empties, c)

def escape (c : Cursor) : Except Fault (Text × Cursor) :=
  match c.peek with
  | none => .error .malformed
  | some d =>
    match escaped? d, escapeWidth? d with
    | some e, _ => .ok ([e], c.step)
    | none, some width => (codePoint width c.step).map fun (e, c) => ([e], c)
    | none, none =>
      if isBreak d then quotedEmpties (c.rest.length + 1) [] c.lineBreak.2
      else .error .malformed

/-- A quoted scalar behind its opening quote: its text and the place behind the
closing quote. -/
def quotedScalar (quote : Char) : Nat → Text → Cursor → Except Fault (Text × Cursor)
  | 0, _, _ => .error .malformed
  | n + 1, done, c =>
    match c.peek with
    | none => .error .malformed
    | some d =>
      let double := quote.toNat = 34
      if d = quote then
        if !double && c.ahead 1 = some quote then quotedScalar quote n (done ++ [quote]) (c.advance 2)
        else .ok (done, c.step)
      else if double && d.toNat = 92 then
        match escape c.step with
        | .error e => .error e
        | .ok (t, c) => quotedScalar quote n (done ++ t) c
      else if d = ' ' || d = '\t' || isBreak d then
        match quotedSpace c with
        | .error e => .error e
        | .ok (t, c) => quotedScalar quote n (done ++ t) c
      else quotedScalar quote n (done ++ [d]) c.step

/-! ## Block scalars -/

/-- What happens to the line breaks at the end of a block. -/
inductive Chomping where
  | strip
  | clip
  | keep
  deriving DecidableEq, Repr

def chomping? : Option Char → Option Chomping
  | some '+' => some .keep
  | some '-' => some .strip
  | _ => none

/-- The digit of an indentation, which is not zero. -/
def increment? (c : Option Char) : Except Fault (Option Nat) :=
  match c with
  | none => .ok none
  | some d =>
    if d = '0' then .error .malformed
    else if d.isDigit then .ok (some (d.toNat - 48))
    else .ok none

/-- The chomping and the indentation behind the sign of a block, in either
order, and the place behind them. -/
def blockHeader (c : Cursor) : Except Fault (Chomping × Option Nat × Cursor) := do
  let (chomping, increment, c) ← match chomping? c.peek with
    | some chomping => do
      let c := c.step
      match ← increment? c.peek with
      | some n => pure (chomping, some n, c.step)
      | none => pure (chomping, none, c)
    | none => do
      match ← increment? c.peek with
      | some n =>
        let c := c.step
        match chomping? c.peek with
        | some chomping => pure (chomping, some n, c.step)
        | none => pure (.clip, some n, c)
      | none => pure (.clip, none, c)
  if c.atSpace then return (chomping, increment, c) else throw .malformed

/-- The empty lines ahead of a block whose indentation is not known: their
breaks, the widest of them, and the place behind them. -/
def blockIndentation : Nat → Text → Nat → Cursor → Text × Nat × Cursor
  | 0, breaks, widest, c => (breaks, widest, c)
  | n + 1, breaks, widest, c =>
    if c.sees ' ' then
      let c := c.step
      blockIndentation n breaks (max widest c.column) c
    else
      match c.lineBreak with
      | ([], c) => (breaks, widest, c)
      | (b, c) => blockIndentation n (breaks ++ b) widest c

def skipIndent (indent : Nat) (c : Cursor) : Cursor :=
  c.advance (min (indent - c.column) (c.rest.takeWhile (· = ' ')).length)

/-- The empty lines ahead inside a block: their breaks, and the place behind
them and the indentation that follows. -/
def blockEmpties (indent : Nat) : Nat → Text → Cursor → Text × Cursor
  | 0, breaks, c => (breaks, c)
  | n + 1, breaks, c =>
    match c.lineBreak with
    | ([], c) => (breaks, c)
    | (b, c) => blockEmpties indent n (breaks ++ b) (skipIndent indent c)

/-- The lines of a block: the text so far, the break behind it, the breaks of
the empty lines behind that, and the place where the block ends. -/
def blockLines (folded : Bool) (indent : Nat) :
    Nat → Text → Text → Text → Cursor → Text × Text × Text × Cursor
  | 0, done, last, empties, c => (done, last, empties, c)
  | n + 1, done, _, empties, c =>
    let indented := fun (c : Cursor) => c.peek = some ' ' || c.peek = some '\t'
    let leading := !indented c
    let (line, next) := c.takeWhile fun d => !isBreak d
    let (b, next) := next.lineBreak
    let (more, next) := blockEmpties indent (next.rest.length + 1) [] (skipIndent indent next)
    let done := done ++ empties ++ line
    if next.column = indent && next.peek.isSome then
      let joined :=
        if folded && b = ['\n'] && leading && !indented next then
          if more = [] then [' '] else []
        else b
      blockLines folded indent n (done ++ joined) b more next
    else (done, b, more, next)

/-- A block scalar behind its sign, inside a structure indented by `indent`
(-1 at the top): its text and the place behind it. -/
def blockScalar (folded : Bool) (indent : Int) (c : Cursor) : Except Fault (Text × Cursor) := do
  let (chomping, increment, c) ← blockHeader c
  let c ← c.skipComment
  let least := max (indent + 1).toNat 1
  let bound := c.rest.length + 1
  let (empties, indent, c) :=
    match increment with
    | none =>
      let (empties, widest, c) := blockIndentation bound [] 0 c
      (empties, max least widest, c)
    | some n =>
      let indent := least + n - 1
      let (empties, c) := blockEmpties indent bound [] (skipIndent indent c)
      (empties, indent, c)
  let (done, last, empties, c) :=
    if c.column = indent && c.peek.isSome then blockLines folded indent bound [] [] empties c
    else ([], [], empties, c)
  let tail := match chomping with
    | .strip => []
    | .clip => last
    | .keep => last ++ empties
  return (done ++ tail, c)

end Yaml
end ProtectedRegions
