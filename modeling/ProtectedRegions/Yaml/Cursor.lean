import ProtectedRegions.Value
import ProtectedRegions.Text

/-
  Cursors — a place in a YAML text, with its line and its column

  YAML counts columns from zero and ends a line at a line feed, a carriage
  return (with a line feed behind it or not), the next-line control and the two
  Unicode separators. A byte order mark has no width. Everything here moves
  forward: `advance` and `takeWhile` never go back.
-/

namespace ProtectedRegions
namespace Yaml

/-- Why a text is no YAML document that can be read: its form, a scalar whose
value does not exist, or one that is not of the kind it claims. -/
inductive Fault where
  | malformed
  | unfit (message : String)
  | defect (d : Defect)
  deriving DecidableEq, Repr

def nextLine : Char := Char.ofNat 0x85

def lineSeparator : Char := Char.ofNat 0x2028

def paragraphSeparator : Char := Char.ofNat 0x2029

def byteOrderMark : Char := Char.ofNat 0xFEFF

def isBreak (c : Char) : Bool :=
  c = '\n' || c = '\r' || c = nextLine || c = lineSeparator || c = paragraphSeparator

/-- Whether a character may stand in a YAML text. -/
def isAllowed (c : Char) : Bool :=
  let n := c.toNat
  n == 9 || n == 10 || n == 13 || (0x20 ≤ n && n ≤ 0x7E) || n == 0x85
    || (0xA0 ≤ n && n ≤ 0xD7FF) || (0xE000 ≤ n && n ≤ 0xFFFD) || 0x10000 ≤ n

/-- A place in a text: what lies ahead, how many characters lie behind, and the
line and the column. -/
structure Cursor where
  rest : Text
  index : Nat
  line : Nat
  column : Nat
  deriving Repr

namespace Cursor

def start (t : Text) : Cursor := ⟨t, 0, 0, 0⟩

def peek (c : Cursor) : Option Char := c.rest.head?

def ahead (c : Cursor) (n : Nat) : Option Char := c.rest[n]?

def sees (c : Cursor) (d : Char) : Bool := c.peek = some d

def step (c : Cursor) : Cursor :=
  match c.rest with
  | [] => c
  | d :: rest =>
    if isBreak d && !(d = '\r' && rest.head? = some '\n') then ⟨rest, c.index + 1, c.line + 1, 0⟩
    else if d = byteOrderMark then ⟨rest, c.index + 1, c.line, c.column⟩
    else ⟨rest, c.index + 1, c.line, c.column + 1⟩

def advance : Nat → Cursor → Cursor
  | 0, c => c
  | n + 1, c => advance n c.step

/-- The characters ahead up to the first that is not wanted, and the place
there. -/
def takeWhile (wanted : Char → Bool) (c : Cursor) : Text × Cursor :=
  let run := c.rest.takeWhile wanted
  (run, advance run.length c)

def skipSpaces (c : Cursor) : Cursor := (c.takeWhile (· = ' ')).2

/-- The place at the end of the line. -/
def skipLine (c : Cursor) : Cursor := (c.takeWhile fun d => !isBreak d).2

/-- Whether the text or the line ends here. -/
def atBreak (c : Cursor) : Bool := c.peek.all isBreak

/-- Whether what is `n` places ahead separates tokens: white space or an end. -/
def separated (c : Cursor) (n : Nat) : Bool :=
  (c.ahead n).all fun d => d = ' ' || d = '\t' || isBreak d

/-- Whether a space, a line end or the end of the text comes next. -/
def atSpace (c : Cursor) : Bool := c.peek.all fun d => d = ' ' || isBreak d

/-- The line break ahead, as it counts in a scalar, and the place behind it;
nothing where there is none. -/
def lineBreak (c : Cursor) : Text × Cursor :=
  match c.rest with
  | '\r' :: '\n' :: _ => (['\n'], advance 2 c)
  | d :: _ =>
    if d = '\r' ∨ d = '\n' ∨ d = nextLine then (['\n'], c.step)
    else if d = lineSeparator ∨ d = paragraphSeparator then ([d], c.step)
    else ([], c)
  | [] => ([], c)

/-- Whether a separator of documents comes next, at the beginning of a line. -/
def atDocumentMark (c : Cursor) : Bool :=
  (c.rest.take 3 = ['-', '-', '-'] || c.rest.take 3 = ['.', '.', '.']) && c.separated 3

/-- The place behind the comment ahead and the spaces before it. The line has to
end there. -/
def skipComment (c : Cursor) : Except Fault Cursor :=
  let c := c.skipSpaces
  let c := if c.sees '#' then c.skipLine else c
  if c.atBreak then .ok c.lineBreak.2 else .error .malformed

end Cursor
end Yaml
end ProtectedRegions
