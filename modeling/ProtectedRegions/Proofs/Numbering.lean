import Mathlib.Data.Nat.Count
import ProtectedRegions.Text

/-
  Numbering — the line of a position, counted character by character

  The number of a line is found by cutting the text off at the position and counting
  the terminators of what is left, pairs as one. The cut may go through a pair, and the
  first half counts for the whole then. So a character decides for itself, with the one
  in front of it, whether a line ends there: a carriage return always, a line feed
  unless it follows a carriage return, which has ended the line already.

  What is proved:
    1. `terminators_concat` — what one more character at the end of a text adds.
    2. `lineOf_succ` — what one more position adds to the number of the line.
    3. `lineOf_counts` — the number of the line is one more than the number of the
       characters before the position that end a line.
-/

namespace ProtectedRegions
namespace Text

/-- A line ends with the character at an index: it is a carriage return, or a line feed that
does not follow one. -/
def EndsLineAt (t : Text) (i : Nat) : Prop :=
  t[i]? = some '\r' ∨ t[i]? = some '\n' ∧ (i = 0 ∨ t[i - 1]? ≠ some '\r')

instance (t : Text) : DecidablePred t.EndsLineAt :=
  fun i => inferInstanceAs (Decidable (t[i]? = some '\r' ∨ t[i]? = some '\n' ∧ _))

variable {t : Text} {i pos : Nat}

/-! ## One more character -/

/-- A character at the end of a text adds a terminator, unless it is the second half of a pair. -/
theorem terminators_concat (s : Text) (c : Char) :
    terminators (s ++ [c]) =
      terminators s + if c = '\r' ∨ c = '\n' ∧ s.getLast? ≠ some '\r' then 1 else 0 := by
  fun_induction terminators s with
  | case1 => simp [terminators]
  | case2 rest ih =>
    have hpair : terminators ('\r' :: '\n' :: rest ++ [c]) = terminators (rest ++ [c]) + 1 := rfl
    cases rest with
    | nil => simp [terminators, Nat.add_comm]
    | cons d rest =>
      rw [hpair, ih, List.getLast?_cons_cons, List.getLast?_cons_cons]
      omega
  | case3 d rest hpair ih =>
    cases rest with
    | nil =>
      -- the two characters are the whole text: they may be a pair now
      by_cases hd : d = '\r'
      · by_cases hc : c = '\n'
        · simp [hd, hc, terminators]
        · simp [hd, hc, terminators, Nat.add_comm]
      · have hnot : ∀ u, d = '\r' → [c] = '\n' :: u → False := fun _ hr _ => hd hr
        rw [List.singleton_append, terminators_of_not_pair hnot]
        simp [hd, terminators, Nat.add_comm]
    | cons e rest =>
      have hnot : ∀ u, d = '\r' → e :: rest ++ [c] = '\n' :: u → False := by
        intro u hr hu
        obtain ⟨rfl, -⟩ := List.cons.inj hu
        exact hpair rest hr rfl
      rw [List.cons_append, terminators_of_not_pair hnot, ih, List.getLast?_cons_cons]
      omega

/-! ## One more position -/

theorem not_endsLineAt (h : t.length ≤ i) : ¬ t.EndsLineAt i := by
  simp [EndsLineAt, List.getElem?_eq_none h]

/-- What is asked of the index behind a text is asked of the text and its last character. -/
theorem endsLineAt_iff {c : Char} (h : t[pos]? = some c) :
    t.EndsLineAt pos ↔ c = '\r' ∨ c = '\n' ∧ (t.take pos).getLast? ≠ some '\r' := by
  cases pos with
  | zero => simp [EndsLineAt, h]
  | succ pos =>
    have hpos : pos < t.length := by
      obtain ⟨hlast, -⟩ := List.getElem?_eq_some_iff.mp h
      omega
    have hlast : (t.take (pos + 1)).getLast? = t[pos]? := by
      simp [List.getLast?_take, List.getElem?_eq_getElem hpos]
    simp [EndsLineAt, h, hlast]

/-- One more position is on the same line, or on the next one if a line ends between the two. -/
theorem lineOf_succ (t : Text) (pos : Nat) :
    t.lineOf (pos + 1) = t.lineOf pos + if t.EndsLineAt pos then 1 else 0 := by
  unfold lineOf
  cases hc : t[pos]? with
  | none =>
    have hend : t.length ≤ pos := List.getElem?_eq_none_iff.mp hc
    rw [if_neg (not_endsLineAt hend), List.take_of_length_le hend,
      List.take_of_length_le (Nat.le_succ_of_le hend), Nat.add_zero]
  | some c =>
    rw [List.take_add_one, hc, Option.toList_some, terminators_concat,
      if_congr (endsLineAt_iff hc) rfl rfl, Nat.add_right_comm]

/-! ## All positions -/

theorem lineOf_min_length (t : Text) (pos : Nat) : t.lineOf (min pos t.length) = t.lineOf pos := by
  rw [lineOf, lineOf, ← List.take_eq_take_min]

theorem lineOf_eq_count (t : Text) (pos : Nat) : t.lineOf pos = 1 + Nat.count t.EndsLineAt pos := by
  induction pos with
  | zero => rfl
  | succ pos ih => rw [lineOf_succ, ih, Nat.count_succ, Nat.add_assoc]

theorem lineOf_monotone (t : Text) : Monotone t.lineOf := by
  apply monotone_nat_of_le_succ
  intro pos
  rw [lineOf_succ]
  exact Nat.le_add_right _ _

/-- The two characters of a pair end one line: the first does, for every position behind it. -/
theorem lineOf_pair (hr : t[i]? = some '\r') (hn : t[i + 1]? = some '\n') (hpos : i < pos) :
    t.lineOf pos = t.lineOf i + 1 +
      Nat.count (fun k => t.EndsLineAt (i + 2 + k)) (min pos t.length - (i + 2)) := by
  have hfirst : t.EndsLineAt i := .inl hr
  have hsecond : ¬ t.EndsLineAt (i + 1) := by simp [EndsLineAt, hr, hn]
  have hone : t.lineOf (i + 1) = t.lineOf i + 1 := by rw [lineOf_succ, if_pos hfirst]
  obtain ⟨hlength, -⟩ := List.getElem?_eq_some_iff.mp hn
  rcases Nat.lt_or_ge pos (i + 2) with hbetween | hbehind
  · -- the position between the two
    obtain rfl : pos = i + 1 := by omega
    have hnone : min (i + 1) t.length - (i + 2) = 0 := by omega
    rw [hone, hnone, Nat.count_zero, Nat.add_zero]
  · obtain ⟨n, hn⟩ := Nat.exists_eq_add_of_le (Nat.le_min_of_le_of_le hbehind hlength)
    have htwo : t.lineOf (i + 2) = t.lineOf i + 1 := by
      rw [lineOf_succ, if_neg hsecond, hone]
    rw [← lineOf_min_length, hn, lineOf_eq_count, Nat.count_add, ← Nat.add_assoc, ← lineOf_eq_count,
      htwo, Nat.add_sub_cancel_left]

/-- The number of a line is one more than the number of the characters before the position that
end a line. So it never falls, grows by one at most with each character, and counts a pair once
for every position behind its first half. -/
theorem lineOf_counts (t : Text) :
    (∀ pos, t.lineOf pos = 1 + Nat.count t.EndsLineAt (min pos t.length)) ∧
      Monotone t.lineOf ∧ (∀ pos, t.lineOf (pos + 1) ≤ t.lineOf pos + 1) ∧
      ∀ i pos, t[i]? = some '\r' → t[i + 1]? = some '\n' → i < pos →
        t.lineOf pos = t.lineOf i + 1 +
          Nat.count (fun k => t.EndsLineAt (i + 2 + k)) (min pos t.length - (i + 2)) := by
  refine ⟨?_, lineOf_monotone t, ?_, ?_⟩
  · intro pos
    rw [← lineOf_min_length, lineOf_eq_count]
  · intro pos
    rw [lineOf_succ]
    split <;> omega
  · intro i pos hr hn hpos
    exact lineOf_pair hr hn hpos

/-- A pair behind a carriage return and in front of a line feed: the place between its halves and
the place behind it are on one line, and a place behind the end of the text is on the last. -/
theorem lineOf_counts_pair :
    lineOf "a\r\r\n\nb".toList 2 = 2 ∧ lineOf "a\r\r\n\nb".toList 3 = 3 ∧
      lineOf "a\r\r\n\nb".toList 4 = 3 ∧ lineOf "a\r\r\n\nb".toList 9 = 4 := by
  obtain ⟨hcount, -, -, hpair⟩ := lineOf_counts "a\r\r\n\nb".toList
  have htwo : lineOf "a\r\r\n\nb".toList 2 = 2 := hcount 2
  refine ⟨htwo, ?_, ?_, ?_⟩
  · rw [hpair 2 3 rfl rfl (by decide), htwo]
    decide
  · rw [hpair 2 4 rfl rfl (by decide), htwo]
    decide
  · rw [hpair 2 9 rfl rfl (by decide), htwo]
    decide

end Text
end ProtectedRegions
