/-
  Texts — lists of characters, and the cuts that the rest of the library makes

  A text is the list of its characters, so a position is a number of
  characters and every function below is structural.

  The blank characters are those of Unicode's bidirectional classes for white
  space and separators together with the space separators: the tab and line
  controls, the four information separators, the space, the next-line control
  and the wider spaces.

  A line ends with a carriage return, a line feed, or the two together, which
  count once. `lineOf` counts the terminators that end at or before a position,
  on the text cut off there, so a pair that the cut divides counts for its
  first half.

  Properties of characters are ascending tables of code points (Unicode 14.0),
  pairs of a first and a last one, so a search can stop at the first pair that
  begins behind the character.

  The cuts lose nothing:

    1. `breakOn_append` — what `breakOn` returns, with the token between, is
       the text it was given.
    2. `breakLine_append` — a line, its terminator and the rest make up the
       text again.
-/

namespace ProtectedRegions

/-- A text is the list of its characters. -/
abbrev Text := List Char

namespace Text

/-- The greatest number of digits that a number is read from or written with. -/
def digitBound : Nat := 4300

def str (t : Text) : String := String.ofList t

def startsWith (t token : Text) : Bool := token.isPrefixOf t

def endsWith (t token : Text) : Bool := token.isSuffixOf t

/-- The text before the first occurrence of `token`, and the text after it. -/
def breakOn (token : Text) : Text → Option (Text × Text)
  | [] => if token = [] then some ([], []) else none
  | c :: rest =>
    if token.isPrefixOf (c :: rest) then some ([], (c :: rest).drop token.length)
    else (breakOn token rest).map fun cut => (c :: cut.1, cut.2)

/-- The text and every text left after taking characters off its front. -/
def suffixes : Text → List Text
  | [] => [[]]
  | c :: rest => (c :: rest) :: suffixes rest

/-- The pieces of a text between the occurrences of one character. -/
def splitOn (sep : Char) : Text → List Text
  | [] => [[]]
  | c :: rest =>
    if c = sep then [] :: splitOn sep rest
    else match splitOn sep rest with
      | [] => [[c]]
      | piece :: pieces => (c :: piece) :: pieces

/-- The texts with `sep` between each two. -/
def join (sep : Text) : List Text → Text
  | [] => []
  | [t] => t
  | t :: rest => t ++ sep ++ join sep rest

def padRight (width : Nat) (fill : Char) (t : Text) : Text :=
  t ++ List.replicate (width - t.length) fill

/-! ## Blank characters -/

def isBlank (c : Char) : Bool :=
  let n := c.toNat
  (9 ≤ n && n ≤ 13) || (28 ≤ n && n ≤ 32) || n == 0x85 || n == 0xA0 || n == 0x1680
    || (0x2000 ≤ n && n ≤ 0x200A) || n == 0x2028 || n == 0x2029 || n == 0x202F
    || n == 0x205F || n == 0x3000

/-- The text without the white space at either end. -/
def trim (t : Text) : Text :=
  (((t.dropWhile isBlank).reverse).dropWhile isBlank).reverse

/-! ## Tables of characters -/

/-- Whether a code point lies in one of the ranges of an ascending table. -/
def inRanges (n : Nat) : List (Nat × Nat) → Bool
  | [] => false
  | (first, last) :: rest => if n < first then false else n ≤ last || inRanges n rest

/-! ## Lines -/

/-- The number of line terminators of a text. -/
def terminators : Text → Nat
  | [] => 0
  | '\r' :: '\n' :: rest => terminators rest + 1
  | c :: rest => terminators rest + if c = '\r' ∨ c = '\n' then 1 else 0

/-- A character that does not begin a pair counts for itself. -/
theorem terminators_of_not_pair {c : Char} {rest : Text}
    (h : ∀ u, c = '\r' → rest = '\n' :: u → False) :
    terminators (c :: rest) = terminators rest + if c = '\r' ∨ c = '\n' then 1 else 0 :=
  terminators.eq_3 c rest h

/-- The number, from one, of the line that position `pos` is on. -/
def lineOf (t : Text) (pos : Nat) : Nat := terminators (t.take pos) + 1

/-- The first line of a text: its characters, its terminator (empty at the end
of the text) and what follows. -/
def breakLine : Text → Text × Text × Text
  | [] => ([], [], [])
  | '\r' :: '\n' :: rest => ([], ['\r', '\n'], rest)
  | c :: rest =>
    if c = '\r' ∨ c = '\n' then ([], [c], rest)
    else match breakLine rest with
      | (line, tail) => (c :: line, tail)

/-! ## Nothing is lost by a cut -/

theorem breakOn_append {token t before after : Text}
    (h : breakOn token t = some (before, after)) : before ++ token ++ after = t := by
  induction t generalizing before with
  | nil =>
    by_cases ht : token = []
    · simp [breakOn, ht] at h
      obtain ⟨rfl, rfl⟩ := h
      simp [ht]
    · simp [breakOn, ht] at h
  | cons c rest ih =>
    by_cases hp : token.isPrefixOf (c :: rest) = true
    · simp only [breakOn, hp, if_true, Option.some.injEq, Prod.mk.injEq] at h
      obtain ⟨rfl, rfl⟩ := h
      simpa using List.prefix_iff_eq_append.mp (List.isPrefixOf_iff_prefix.mp hp)
    · simp only [breakOn, hp, Bool.false_eq_true, if_false, Option.map_eq_some_iff] at h
      obtain ⟨cut, hcut, heq⟩ := h
      obtain ⟨rfl, rfl⟩ := Prod.mk.inj heq
      simpa using ih hcut

theorem breakLine_append (t : Text) :
    (breakLine t).1 ++ (breakLine t).2.1 ++ (breakLine t).2.2 = t := by
  fun_induction breakLine t with
  | case1 => rfl
  | case2 => rfl
  | case3 => rfl
  | case4 c rest _ _ line tail h ih => simpa [h] using ih

end Text
end ProtectedRegions
