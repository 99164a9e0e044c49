import ProtectedRegions.Text

/-
  Globs — shell patterns for paths

  A star stands for any characters, slashes included, a question mark for one,
  and a bracket for one character of a set. A set begins behind the bracket, or
  behind an exclamation mark that turns it round; a closing bracket in the
  first place belongs to the set, and a bracket that is never closed is an
  ordinary character. Hyphens make ranges. A range that runs downwards is
  empty, and its two ends are no members either.
-/

namespace ProtectedRegions

/-- One piece of a glob. -/
inductive GlobPiece where
  | any
  | one
  | char (c : Char)
  | set (negated : Bool) (ranges : List (Char × Char))
  deriving DecidableEq, Repr

abbrev Glob := List GlobPiece

namespace Glob

/-- The members of a set as they are written, without the brackets, as pieces
between the hyphens that make ranges. The character before such a hyphen is not
looked at again, nor is the one behind it, so of three hyphens in a row the one
in the middle makes the range. `skip` characters are passed before the next
hyphen counts. -/
def chunks (skip : Nat) : Text → Text → List Text
  | piece, [] => [piece]
  | piece, c :: rest =>
    match skip with
    | 0 => if c = '-' then piece :: chunks 2 [] rest else chunks 0 (piece ++ [c]) rest
    | n + 1 => chunks n (piece ++ [c]) rest

/-- The pieces with a hyphen that ends the set made a member of it. -/
def closeChunks : List Text → List Text
  | [] => []
  | [piece] => [piece]
  | [piece, []] => [piece ++ ['-']]
  | piece :: rest => piece :: closeChunks rest

/-- The pieces without the ranges that run downwards: the pieces on both sides
become one, without the ends of the range. -/
def dropEmptyRanges : List Text → List Text
  | [] => []
  | piece :: rest =>
    match dropEmptyRanges rest with
    | [] => [piece]
    | next :: others =>
      match piece.getLast?, next.head? with
      | some low, some high =>
        if high.toNat < low.toNat then (piece.dropLast ++ next.drop 1) :: others
        else piece :: next :: others
      | _, _ => piece :: next :: others

/-- The characters and ranges of pieces: a range from the end of each piece to
the beginning of the next. `used` characters of the first piece belong to the
range before it. -/
def ranges (used : Nat) : List Text → List (Char × Char)
  | [] => []
  | piece :: rest =>
    let own := piece.drop used
    match piece.getLast?, rest.head?.bind (·.head?) with
    | some low, some high =>
      own.dropLast.map (fun c => (c, c)) ++ (low, high) :: ranges 1 rest
    | _, _ => own.map (fun c => (c, c)) ++ ranges 0 rest

/-- The piece that a set is, as it is written between its brackets. Whether it
is turned round is decided when the empty ranges are gone: an exclamation mark
in front turns it round, alone it leaves every character, and a hyphen right
behind it is an ordinary member. -/
def ofSet (t : Text) : GlobPiece :=
  let lead := if t.head? = some '!' then 2 else 1
  let pieces := if t.contains '-' then dropEmptyRanges (closeChunks (chunks lead [] t)) else [t]
  match pieces with
  | [['!']] => .one
  | ['!'] :: next :: others => .set true (ranges 0 (('-' :: next) :: others))
  | ('!' :: piece) :: others => .set true (ranges 0 (piece :: others))
  | _ => .set false (ranges 0 pieces)

/-- The set behind an opening bracket, and the text behind its closing one. -/
def setBody? (t : Text) : Option (Text × Text) :=
  let mark := if t.head? = some '!' then 1 else 0
  let first := if (t.drop mark).head? = some ']' then 1 else 0
  let lead := mark + first
  (Text.breakOn [']'] (t.drop lead)).map fun (body, rest) => (t.take lead ++ body, rest)

/-- The glob that a text is, with a bound on the number of its pieces. -/
def read : Nat → Text → Glob
  | 0, _ => []
  | _, [] => []
  | n + 1, c :: rest =>
    if c = '*' then .any :: read n rest
    else if c = '?' then .one :: read n rest
    else if c = '[' then
      match setBody? rest with
      | none => .char '[' :: read n rest
      | some (body, rest) => ofSet body :: read n rest
    else .char c :: read n rest

def ofText (t : Text) : Glob := read t.length t

/-- Whether a character matches a piece that stands for one character. -/
def holds (c : Char) : GlobPiece → Bool
  | .any => false
  | .one => true
  | .char d => c == d
  | .set negated ranges =>
    (ranges.any fun (low, high) => low.toNat ≤ c.toNat && c.toNat ≤ high.toNat) != negated

/-- Whether a glob matches the whole of a text. -/
def accepts : Glob → Text → Bool
  | [], t => t.isEmpty
  | .any :: rest, t => (Text.suffixes t).any fun suffix => accepts rest suffix
  | piece :: rest, t =>
    match t with
    | [] => false
    | c :: t => holds c piece && accepts rest t

end Glob
end ProtectedRegions
