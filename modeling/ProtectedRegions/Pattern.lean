import ProtectedRegions.Text
import ProtectedRegions.Text.Case
import ProtectedRegions.Text.Word

/-
  Patterns — regular expressions with groups, and when one matches a text

  `Pattern.run` tries the ways to match in their order of preference: it is
  given the spot in the text and what has to happen afterwards, and answers
  with the first way on which that succeeds. So a choice is an "or else", a
  sequence is composition, and a repetition unfolds into either. Recursion is on
  the pattern; a repetition goes on only where its last round used up
  characters, so the length of what is left bounds it.

  `run_seq`, `run_group` and `run_char_cons` are the equations by which a proof
  takes a match apart without opening the definition.
-/

namespace ProtectedRegions

/-- The named classes of characters. -/
inductive CharKind where
  | word
  | digit
  | space
  deriving DecidableEq, Repr

/-- One member of a set of characters. -/
inductive SetItem where
  | one (c : Char)
  | range (first last : Char)
  | kind (k : CharKind) (ascii : Bool) (negated : Bool)
  deriving DecidableEq, Repr

structure CharSet where
  items : List SetItem
  negated : Bool
  anyCase : Bool
  deriving DecidableEq, Repr

inductive Anchor where
  | textStart
  | textEnd
  | lastLineEnd
  | lineStart
  | lineEnd
  | wordEdge (ascii : Bool)
  | noWordEdge (ascii : Bool)
  deriving DecidableEq, Repr

/-- How a repetition chooses its count: as many rounds as the rest allows, as
few, or as many as possible whatever follows. -/
inductive Greed where
  | most
  | fewest
  | all
  deriving DecidableEq, Repr

inductive Pattern where
  | empty
  | never
  | char (s : CharSet)
  | at (a : Anchor)
  | seq (p q : Pattern)
  | either (p q : Pattern)
  | group (number : Nat) (p : Pattern)
  | sameAs (number : Nat) (anyCase : Bool)
  | repeated (least : Nat) (most : Option Nat) (greed : Greed) (p : Pattern)
  | ahead (wanted : Bool) (p : Pattern)
  | behind (wanted : Bool) (width : Nat) (p : Pattern)
  | ifClosed (number : Nat) (yes no : Pattern)
  | atomic (p : Pattern)
  deriving DecidableEq, Repr

/-- A place reached in a text: what lies behind it, nearest first, what lies
ahead, and the texts of the groups closed so far, latest first. -/
structure Spot where
  behind : Text
  ahead : Text
  groups : List (Nat × Text)
  deriving DecidableEq, Repr

namespace CharKind

def holds (k : CharKind) (ascii : Bool) (c : Char) : Bool :=
  (!ascii || c.toNat < 128) &&
    match k with
    | .word => Text.isWord c
    | .digit => Text.isDecimal c
    | .space => Text.isBlank c && !(ascii && 28 ≤ c.toNat && c.toNat < 32)

end CharKind

namespace SetItem

def holds (c : Char) : SetItem → Bool
  | .one d => c == d
  | .range first last => first.toNat ≤ c.toNat && c.toNat ≤ last.toNat
  | .kind k ascii negated => k.holds ascii c != negated

/-- The characters that differ from `c` in case only. -/
def caseClass (c : Char) : List Char :=
  (Text.caseVariants (Text.lower c)).flatMap fun d =>
    d :: Text.lowerRuns.filterMap fun (first, last, step, shift) =>
      let n := (Int.ofNat d.toNat - shift).toNat
      if first ≤ n ∧ n ≤ last ∧ (n - first) % step = 0 then some (Char.ofNat n) else none

/-- Whether a character is the member when case does not count. -/
def holdsAnyCase (c : Char) : SetItem → Bool
  | .one d => Text.sameIgnoringCase c d
  | .range first last => (caseClass c).any fun d => (SetItem.range first last).holds d
  | .kind k ascii negated => k.holds ascii (Text.lower c) != negated

end SetItem

namespace CharSet

def single (c : Char) (anyCase : Bool) : CharSet := ⟨[.one c], false, anyCase⟩

def holds (s : CharSet) (c : Char) : Bool :=
  (s.items.any fun item => if s.anyCase then item.holdsAnyCase c else item.holds c) != s.negated

end CharSet

namespace Spot

def start (t : Text) : Spot := ⟨[], t, []⟩

/-- The text of a group, if it was closed. -/
def group? (s : Spot) (number : Nat) : Option Text := s.groups.lookup number

def step (s : Spot) (c : Char) (rest : Text) : Spot := { s with behind := c :: s.behind, ahead := rest }

def skip (s : Spot) (n : Nat) : Spot :=
  { s with behind := (s.ahead.take n).reverse ++ s.behind, ahead := s.ahead.drop n }

def back (s : Spot) (n : Nat) : Spot :=
  { s with behind := s.behind.drop n, ahead := (s.behind.take n).reverse ++ s.ahead }

/-- The characters between this spot and a later one. -/
def upTo (s later : Spot) : Text := s.ahead.take (s.ahead.length - later.ahead.length)

/-- Whether a word begins or ends at the spot. -/
def onWordEdge (s : Spot) (ascii : Bool) : Bool :=
  let inWord := fun (c : Option Char) => c.any (CharKind.word.holds ascii)
  inWord s.behind.head? != inWord s.ahead.head?

def holds (s : Spot) : Anchor → Bool
  | .textStart => s.behind.isEmpty
  | .textEnd => s.ahead.isEmpty
  | .lastLineEnd => s.ahead.isEmpty || s.ahead == ['\n']
  | .lineStart => s.behind.isEmpty || s.behind.head? == some '\n'
  | .lineEnd => s.ahead.isEmpty || s.ahead.head? == some '\n'
  | .wordEdge ascii => s.onWordEdge ascii
  | .noWordEdge ascii => !(s.behind.isEmpty && s.ahead.isEmpty) && !s.onWordEdge ascii

end Spot

namespace Pattern

/-- What has to happen after a match: a way on, or none. -/
abbrev Next := Spot → Option Spot

/-- Exactly so many rounds of a step. -/
def times (round : Spot → Next → Option Spot) : Nat → Spot → Next → Option Spot
  | 0, s, next => next s
  | n + 1, s, next => round s fun s' => times round n s' next

/-- At most `most` rounds of a step, more of them first or fewer of them first.
A round that uses up no character is the last. -/
def several (round : Spot → Next → Option Spot) (moreFirst : Bool) :
    Nat → Option Nat → Spot → Next → Option Spot
  | 0, _, s, next => next s
  | bound + 1, most, s, next =>
    if most = some 0 then next s
    else
      let again := fun (_ : Unit) => round s fun s' =>
        if s'.ahead.length = s.ahead.length then next s'
        else several round moreFirst bound (most.map (· - 1)) s' next
      if moreFirst then (again ()).orElse fun _ => next s
      else (next s).orElse again

/-- The first way, in the order of preference, to match the pattern from a spot
so that what follows succeeds. -/
def run : Pattern → Spot → Next → Option Spot
  | .empty, s, next => next s
  | .never, _, _ => none
  | .char set, s, next =>
    match s.ahead with
    | [] => none
    | c :: rest => if set.holds c then next (s.step c rest) else none
  | .at a, s, next => if s.holds a then next s else none
  | .seq p q, s, next => run p s fun s' => run q s' next
  | .either p q, s, next => (run p s next).orElse fun _ => run q s next
  | .group number p, s, next =>
    run p s fun s' => next { s' with groups := (number, s.upTo s') :: s'.groups }
  | .sameAs number anyCase, s, next =>
    match s.group? number with
    | none => none
    | some t =>
      let here := s.ahead.take t.length
      let same := if anyCase then here.length == t.length
          && (here.zip t).all fun (a, b) => Text.lower a == Text.lower b
        else here == t
      if same then next (s.skip t.length) else none
  | .repeated least most greed p, s, next =>
    let extra := most.map (· - least)
    let bound := s.ahead.length + 1
    match greed with
    | .most => times (run p) least s fun s' => several (run p) true bound extra s' next
    | .fewest => times (run p) least s fun s' => several (run p) false bound extra s' next
    | .all =>
      match times (run p) least s fun s' => several (run p) true bound extra s' some with
      | none => none
      | some s' => next s'
  | .ahead wanted p, s, next =>
    match run p s some with
    | none => if wanted then none else next s
    | some s' => if wanted then next { s with groups := s'.groups } else none
  | .behind wanted width p, s, next =>
    -- a text that is too short is one that has something else behind the spot
    match if width ≤ s.behind.length then run p (s.back width) some else none with
    | none => if wanted then none else next s
    | some s' => if wanted then next { s with groups := s'.groups } else none
  | .ifClosed number yes no, s, next =>
    if (s.group? number).isSome then run yes s next else run no s next
  | .atomic p, s, next =>
    match run p s some with
    | none => none
    | some s' => next s'

/-- The spot at the end of a text that the whole pattern matches. -/
def fullMatch (p : Pattern) (t : Text) : Option Spot :=
  p.run (Spot.start t) fun s => if s.ahead.isEmpty then some s else none

def literal (t : Text) (anyCase : Bool) : Pattern :=
  t.foldr (fun c p => .seq (.char (CharSet.single c anyCase)) p) .empty

/-! ## One step of a match at a time -/

theorem run_empty (s : Spot) (next : Next) : run .empty s next = next s := by
  rw [run]

theorem run_seq (p q : Pattern) (s : Spot) (next : Next) :
    run (.seq p q) s next = run p s fun s' => run q s' next := by
  rw [run]

theorem run_group (number : Nat) (p : Pattern) (s : Spot) (next : Next) :
    run (.group number p) s next
      = run p s fun s' => next { s' with groups := (number, s.upTo s') :: s'.groups } := by
  rw [run]

theorem run_char_nil (set : CharSet) (s : Spot) (next : Next) (h : s.ahead = []) :
    run (.char set) s next = none := by
  rw [run, h]

theorem run_char_cons (set : CharSet) (s : Spot) (next : Next) (c : Char) (rest : Text)
    (h : s.ahead = c :: rest) :
    run (.char set) s next = if set.holds c then next (s.step c rest) else none := by
  rw [run, h]

end Pattern
end ProtectedRegions
