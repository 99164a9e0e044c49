import Mathlib.Data.List.TakeWhile
import ProtectedRegions.Oracle

/-
  Markers — what the built-in expressions match

  A built-in expression is matched without ever going back: white space, an id and the
  last token of a marker begin with characters of different kinds, so that each part
  takes all the characters it can, and the next one would fail on fewer. The match is
  then a walk over the text, and what it accepts can be said without the expression.

  What is proved:
    1. `run_star`, `run_plus` — a repetition whose way on fails in front of one more of
       its characters takes all of them.
    2. `answer_framed_iff` — a start expression matches its first token, an id and its
       last token, with white space around the id, and answers with that id.
    3. `answer_bracketFinish_iff`, `answer_wordsFinish_iff` — the same for the two ends.
    4. `classify_eq_answers` — an oracle goes by these answers for the trimmed body.
-/

namespace ProtectedRegions

/-! ## Spots further on -/

namespace Spot

@[simp] theorem start_ahead (t : Text) : (start t).ahead = t := rfl

@[simp] theorem skip_ahead (s : Spot) (n : Nat) : (s.skip n).ahead = s.ahead.drop n := rfl

@[simp] theorem skip_groups (s : Spot) (n : Nat) : (s.skip n).groups = s.groups := rfl

@[simp] theorem skip_zero (s : Spot) : s.skip 0 = s := rfl

theorem step_eq_skip {s : Spot} {c : Char} {rest : Text} (h : s.ahead = c :: rest) :
    s.step c rest = s.skip 1 := by
  simp [step, skip, h]

theorem skip_skip (s : Spot) (m n : Nat) : (s.skip m).skip n = s.skip (m + n) := by
  simp [skip, List.take_add, List.reverse_append]

theorem upTo_skip (s : Spot) {n : Nat} (h : n ≤ s.ahead.length) :
    s.upTo (s.skip n) = s.ahead.take n := by
  have : s.ahead.length - (s.ahead.length - n) = n := by omega
  simp [upTo, this]

/-- The spot behind an id, which is now the text of the first group. -/
def named (s : Spot) (id : Text) : Spot :=
  { s.skip id.length with groups := (1, id) :: s.groups }

@[simp] theorem named_ahead (s : Spot) (id : Text) :
    (s.named id).ahead = s.ahead.drop id.length := rfl

@[simp] theorem named_group (s : Spot) (id : Text) (n : Nat) :
    ((s.named id).skip n).group? 1 = some id := by
  simp [named, group?, skip]

end Spot

/-- What begins with neither a part of an id nor white space. -/
def BuiltInOracle.Delimits (token : Text) : Prop :=
  ∃ c rest, token = c :: rest ∧ Text.isBlank c = false ∧ BuiltInOracle.idSet.holds c = false

/-! ## One part of a marker at a time -/

namespace Pattern
open BuiltInOracle

variable {s : Spot} {next : Next} {set : CharSet} {ps : List Pattern}

def spelled (token : Text) : List Pattern := token.map fun c => .char (.single c false)

theorem run_sequence_nil : run (sequence []) s next = next s := run_empty s next

theorem run_sequence_append (ps qs : List Pattern) :
    run (sequence (ps ++ qs)) s next = run (sequence ps) s fun s' => run (sequence qs) s' next := by
  induction ps generalizing s with
  | nil =>
    show _ = run .empty s _
    rw [run_empty, List.nil_append]
  | cons p ps ih =>
    show run (.seq p (sequence (ps ++ qs))) s next = run (.seq p (sequence ps)) s _
    simp only [run_seq, ih]

theorem run_sequence_cons (p : Pattern) :
    run (sequence (p :: ps)) s next = run p s fun s' => run (sequence ps) s' next :=
  run_seq p (sequence ps) s next

theorem run_letters (token : Text) :
    run (sequence (spelled token ++ ps)) s next =
      if token.isPrefixOf s.ahead then run (sequence ps) (s.skip token.length) next else none := by
  induction token generalizing s with
  | nil => simp [spelled]
  | cons c token ih =>
    show run (sequence (.char (.single c false) :: (spelled token ++ ps))) s next = _
    rw [run_sequence_cons]
    cases hs : s.ahead with
    | nil => simp [run_char_nil _ _ _ hs]
    | cons d rest =>
      rw [run_char_cons _ _ _ _ _ hs, Spot.step_eq_skip hs, ih, Spot.skip_skip]
      by_cases hd : c = d
      · simp [CharSet.single, CharSet.holds, SetItem.holds, hd, hs, Nat.add_comm]
      · simp [CharSet.single, CharSet.holds, SetItem.holds, hd, Ne.symm hd]

/-- A way on that fails in front of every character of a set. -/
def Next.StopsAt (next : Next) (set : CharSet) : Prop :=
  ∀ s c rest, s.ahead = c :: rest → set.holds c = true → next s = none

theorem several_char (stops : next.StopsAt set) {bound : Nat} (h : s.ahead.length < bound) :
    several (run (.char set)) true bound none s next =
      next (s.skip (s.ahead.takeWhile set.holds).length) := by
  induction bound generalizing s with
  | zero => omega
  | succ bound ih =>
    rw [several]
    cases hs : s.ahead with
    | nil => simp [run_char_nil _ _ _ hs]
    | cons c rest =>
      rw [hs] at h
      by_cases hc : set.holds c = true
      · have hrest : (s.skip 1).ahead = rest := by simp [hs]
        have hmore := ih (s := s.skip 1) (by rw [hrest]; simpa using h)
        rw [hrest, Spot.skip_skip] at hmore
        have hused : (s.skip 1).ahead.length ≠ (c :: rest).length := by simp [hs]
        -- to stop here would leave a character that the way on fails in front of
        simp only [run_char_cons _ _ _ _ _ hs, hc, Spot.step_eq_skip hs, hused, reduceCtorEq,
          if_true, if_false, Option.map_none, hmore, stops s c rest hs hc]
        simp [hc, Nat.add_comm]
      · simp [run_char_cons _ _ _ _ _ hs, hc]

/-- Any amount of characters of a set, where the way on fails in front of one more, is all that
stand there. -/
theorem run_star (stops : next.StopsAt set) :
    run (.repeated 0 none .most (.char set)) s next =
      next (s.skip (s.ahead.takeWhile set.holds).length) := by
  rw [run]
  exact several_char stops (Nat.lt_succ_self _)

theorem run_plus (stops : next.StopsAt set) :
    run (.repeated 1 none .most (.char set)) s next =
      if s.ahead.takeWhile set.holds = [] then none
      else next (s.skip (s.ahead.takeWhile set.holds).length) := by
  rw [run]
  simp only [times]
  cases hs : s.ahead with
  | nil => simp [run_char_nil _ _ _ hs]
  | cons c rest =>
    by_cases hc : set.holds c = true
    · have hrest : (s.skip 1).ahead = rest := by simp [hs]
      have hbound : (s.skip 1).ahead.length < (c :: rest).length + 1 := by
        rw [hrest, List.length_cons]
        omega
      have hmore := several_char stops hbound
      rw [hrest, Spot.skip_skip] at hmore
      simp only [run_char_cons _ _ _ _ _ hs, hc, Spot.step_eq_skip hs, if_true]
      rw [Option.map_none, hmore]
      simp [hc, Nat.add_comm]
    · simp [run_char_cons _ _ _ _ _ hs, hc]

/-- A pattern that may be left out is tried first. -/
theorem run_optional (p : Pattern) :
    run (.repeated 0 (some 1) .most p) s next = (run p s next).orElse fun _ => next s := by
  have hlast : ∀ bound s', several (run p) true bound (some 0) s' next = next s' := by
    intro bound s'
    cases bound <;> rw [several]
    simp
  rw [run]
  simp [times, several, hlast]

theorem run_identifier
    (stops : ∀ groups, Next.StopsAt (fun s => next { s with groups := groups }) idSet) :
    run identifier s next =
      if s.ahead.takeWhile idSet.holds = [] then none
      else next (s.named (s.ahead.takeWhile idSet.holds)) := by
  have hstops :
      Next.StopsAt (fun s' => next { s' with groups := (1, s.upTo s') :: s'.groups }) idSet :=
    fun s' c rest hs hc => stops _ s' c rest hs hc
  have hlength : (s.ahead.takeWhile idSet.holds).length ≤ s.ahead.length :=
    (List.takeWhile_sublist _).length_le
  have htake : s.ahead.take (s.ahead.takeWhile idSet.holds).length =
      s.ahead.takeWhile idSet.holds :=
    (List.prefix_iff_eq_take.mp (List.takeWhile_prefix _)).symm
  rw [identifier, run_group, run_sequence_cons]
  simp only [run_sequence_nil]
  rw [run_plus hstops]
  simp [Spot.upTo_skip s hlength, htake, Spot.named]

/-! ## The parts that end a marker -/

@[simp] theorem blankSet_holds (c : Char) :
    CharSet.holds ⟨[.kind .space false false], false, false⟩ c = Text.isBlank c := by
  simp [CharSet.holds, SetItem.holds, CharKind.holds]

def final (s : Spot) : Option Spot := if s.ahead.isEmpty then some s else none

theorem fullMatch_eq (p : Pattern) (t : Text) : p.fullMatch t = p.run (Spot.start t) final := rfl

theorem run_closing (token : Text) :
    run (sequence (spelled token)) s final =
      if s.ahead = token then some (s.skip token.length) else none := by
  rw [← List.append_nil (spelled token), run_letters, run_sequence_nil]
  by_cases hfront : token <+: s.ahead
  · obtain ⟨rest, hrest⟩ := hfront
    cases rest with
    | nil => simp [final, ← hrest]
    | cons c rest => simp [final, ← hrest]
  · have hne : s.ahead ≠ token := fun heq => hfront (heq ▸ List.prefix_refl _)
    simp [hfront, hne]

theorem isBlank_of_idSet {c : Char} (h : idSet.holds c = true) : Text.isBlank c = false := by
  simp [idSet, CharSet.holds, SetItem.holds] at h
  rcases h with h | h | h | rfl | rfl | rfl | rfl | rfl
  · simp [Text.isBlank]
    omega
  · simp [Text.isBlank]
    omega
  · simp [Text.isBlank]
    omega
  all_goals rfl

theorem idSet_of_isBlank {c : Char} (h : Text.isBlank c = true) : idSet.holds c = false :=
  Bool.eq_false_iff.mpr fun hid => by simp [isBlank_of_idSet hid] at h

theorem drop_takeWhile {α : Type} (p : α → Bool) (l : List α) :
    l.drop (l.takeWhile p).length = l.dropWhile p := by
  have h := congrArg (List.drop (l.takeWhile p).length)
    (List.takeWhile_append_dropWhile (p := p) (l := l))
  rw [← h, List.drop_left]

theorem run_blanks (stops : ∀ s' c rest, s'.ahead = c :: rest → Text.isBlank c = true →
      run (sequence ps) s' next = none) :
    run (sequence (blanks :: ps)) s next =
      run (sequence ps) (s.skip (s.ahead.takeWhile Text.isBlank).length) next := by
  have hset : (CharSet.holds ⟨[.kind .space false false], false, false⟩) = Text.isBlank :=
    funext blankSet_holds
  have hstops : Next.StopsAt (fun s' => run (sequence ps) s' next)
      ⟨[.kind .space false false], false, false⟩ :=
    fun s' c rest hs hc => stops s' c rest hs (by simpa using hc)
  rw [run_sequence_cons, blanks, run_star hstops, hset]

theorem run_identifier_eq_none {c : Char} {rest : Text} (hs : s.ahead = c :: rest)
    (hc : idSet.holds c = false) : run (sequence (identifier :: ps)) s next = none := by
  rw [run_sequence_cons, identifier, run_group, run_sequence_cons, run]
  simp [times, run_char_cons _ _ _ _ _ hs, hc]

theorem run_ending {token : Text} (delimits : Delimits token) :
    run (sequence (blanks :: spelled token)) s final =
      if s.ahead.dropWhile Text.isBlank = token then
        some (s.skip ((s.ahead.takeWhile Text.isBlank).length + token.length)) else none := by
  obtain ⟨c, rest, rfl, blankNot, -⟩ := delimits
  have stops : ∀ s' d more, s'.ahead = d :: more → Text.isBlank d = true →
      run (sequence (spelled (c :: rest))) s' final = none := by
    intro s' d more hs hd
    rw [run_closing, if_neg]
    intro heq
    obtain rfl := (List.cons.inj (hs.symm.trans heq)).1
    simp [blankNot] at hd
  rw [run_blanks stops, run_closing, Spot.skip_ahead, drop_takeWhile, Spot.skip_skip]

theorem run_named {token : Text} (delimits : Delimits token) :
    (run (sequence (identifier :: blanks :: spelled token)) s final).map (·.group? 1) =
      if s.ahead.takeWhile idSet.holds ≠ [] ∧
          (s.ahead.dropWhile idSet.holds).dropWhile Text.isBlank = token then
        some (some (s.ahead.takeWhile idSet.holds))
      else none := by
  have stops : ∀ groups, Next.StopsAt (fun s' => run (sequence (blanks :: spelled token))
      { s' with groups := groups } final) idSet := by
    -- in front of one more character of the id there is neither white space nor the token
    intro groups s' d more hs hd
    show run (sequence (blanks :: spelled token)) { s' with groups := groups } final = none
    rw [run_ending delimits, if_neg]
    show s'.ahead.dropWhile Text.isBlank ≠ token
    obtain ⟨c, rest, rfl, -, idNot⟩ := delimits
    rw [hs, List.dropWhile_cons_of_neg (by simp [isBlank_of_idSet hd])]
    intro heq
    obtain rfl := (List.cons.inj heq).1
    simp [hd] at idNot
  rw [run_sequence_cons, run_identifier stops, run_ending delimits]
  by_cases hid : s.ahead.takeWhile idSet.holds = []
  · simp [hid]
  · rw [if_neg hid, Spot.named_ahead, drop_takeWhile]
    by_cases hend : (s.ahead.dropWhile idSet.holds).dropWhile Text.isBlank = token
    · simp [hid, hend]
    · simp [hend]

theorem run_blanks_named {token : Text} (delimits : Delimits token) :
    (run (sequence (blanks :: identifier :: blanks :: spelled token)) s final).map (·.group? 1) =
      let r := s.ahead.dropWhile Text.isBlank
      if r.takeWhile idSet.holds ≠ [] ∧
          (r.dropWhile idSet.holds).dropWhile Text.isBlank = token then
        some (some (r.takeWhile idSet.holds))
      else none := by
  have stops : ∀ s' c rest, s'.ahead = c :: rest → Text.isBlank c = true →
      run (sequence (identifier :: blanks :: spelled token)) s' final = none := by
    intro s' c rest hs hc
    exact run_identifier_eq_none hs (idSet_of_isBlank hc)
  rw [run_blanks stops, run_named delimits, Spot.skip_ahead, drop_takeWhile]

end Pattern

/-- White space only. -/
def Text.Blanks (t : Text) : Prop := ∀ c ∈ t, Text.isBlank c = true

/-- The text of the id that an expression finds in a text, where it matches. -/
def Expression.answer (e : Expression) (t : Text) : Option (Option Text) :=
  (e.fullMatch t).map (e.group? idGroup)

/-! ## What the built-in expressions match -/

namespace BuiltInOracle
open Pattern

/-- An id: one character at least. -/
def IsId (id : Text) : Prop := id ≠ [] ∧ ∀ c ∈ id, idSet.holds c = true

/-- An id in front of a token, with white space around it. -/
def Named (id token t : Text) : Prop :=
  ∃ b b', Text.Blanks b ∧ Text.Blanks b' ∧ IsId id ∧ t = b ++ (id ++ (b' ++ token))

theorem dropWhile_blanks {b rest : Text} (h : Text.Blanks b) :
    (b ++ rest).dropWhile Text.isBlank = rest.dropWhile Text.isBlank :=
  List.dropWhile_append_of_pos h

theorem blanks_append_iff {token t : Text} (delimits : Delimits token) :
    (∃ b, Text.Blanks b ∧ t = b ++ token) ↔ t.dropWhile Text.isBlank = token := by
  constructor
  · intro ⟨b, hb, ht⟩
    obtain ⟨c, rest, rfl, blankNot, -⟩ := delimits
    rw [ht, dropWhile_blanks hb, List.dropWhile_cons_of_neg (by simp [blankNot])]
  · intro h
    refine ⟨t.takeWhile Text.isBlank, fun c hc => List.mem_takeWhile_imp hc, ?_⟩
    rw [← h, List.takeWhile_append_dropWhile]

theorem named_iff {id token t : Text} (delimits : Delimits token) :
    Named id token t ↔ id = (t.dropWhile Text.isBlank).takeWhile idSet.holds ∧ id ≠ [] ∧
      ((t.dropWhile Text.isBlank).dropWhile idSet.holds).dropWhile Text.isBlank = token := by
  constructor
  · intro ⟨b, b', hb, hb', ⟨hne, hid⟩, ht⟩
    -- behind the id stands a character that no id has
    obtain ⟨c, rest, hrest, hc⟩ : ∃ c rest, b' ++ token = c :: rest ∧ idSet.holds c = false := by
      cases b' with
      | nil =>
        obtain ⟨c, rest, rfl, -, hc⟩ := delimits
        exact ⟨c, rest, rfl, hc⟩
      | cons c b' => exact ⟨c, b' ++ token, rfl, idSet_of_isBlank (hb' c List.mem_cons_self)⟩
    have hdrop : t.dropWhile Text.isBlank = id ++ (b' ++ token) := by
      rw [ht, dropWhile_blanks hb]
      cases id with
      | nil => exact absurd rfl hne
      | cons d id =>
        rw [List.cons_append, List.dropWhile_cons_of_neg]
        simp [isBlank_of_idSet (hid d List.mem_cons_self)]
    rw [hdrop, List.takeWhile_append_of_pos hid, List.dropWhile_append_of_pos hid, hrest,
      List.takeWhile_cons_of_neg (by simp [hc]), List.dropWhile_cons_of_neg (by simp [hc]),
      ← hrest, ← blanks_append_iff delimits]
    exact ⟨by simp, hne, b', hb', rfl⟩
  · intro ⟨hid, hne, hend⟩
    obtain ⟨b', hb', hrest⟩ := (blanks_append_iff delimits).mpr hend
    refine ⟨t.takeWhile Text.isBlank, b', fun c hc => List.mem_takeWhile_imp hc, hb', ⟨hne, ?_⟩, ?_⟩
    · intro c hc
      rw [hid] at hc
      exact List.mem_takeWhile_imp hc
    · rw [← hrest, hid, List.takeWhile_append_dropWhile, List.takeWhile_append_dropWhile]

theorem run_blanks_named_iff {s : Spot} {token : Text} {x : Option Text}
    (delimits : Delimits token) :
    (run (sequence (blanks :: identifier :: blanks :: spelled token)) s final).map (·.group? 1) =
      some x ↔ ∃ id, x = some id ∧ Named id token s.ahead := by
  rw [run_blanks_named delimits]
  simp only [named_iff delimits]
  constructor
  · intro h
    split at h
    · next hnamed => exact ⟨_, (Option.some.inj h).symm, rfl, hnamed⟩
    · cases h
  · rintro ⟨id, rfl, rfl, hnamed⟩
    exact if_pos hnamed

theorem answer_of_names {e : Expression} (names : e.names = [(idGroup, 1)]) (t : Text) :
    e.answer t = (e.pattern.run (Spot.start t) final).map (·.group? 1) := by
  have hgroup : e.group? idGroup = (·.group? 1) := by
    funext s
    simp [Expression.group?, names]
  rw [Expression.answer, hgroup]
  rfl

/-- A start expression matches its first token with an id and its last token behind. -/
theorem answer_framed_iff {e : Expression} {front back t : Text} {x : Option Text}
    (delimits : Delimits back) (names : e.names = [(idGroup, 1)])
    (pattern : e.pattern =
      sequence (spelled front ++ blanks :: identifier :: blanks :: spelled back)) :
    e.answer t = some x ↔ ∃ rest, t = front ++ rest ∧ ∃ id, x = some id ∧ Named id back rest := by
  rw [answer_of_names names, pattern, run_letters]
  by_cases hfront : front <+: t
  · obtain ⟨rest, rfl⟩ := hfront
    have hahead : ((Spot.start (front ++ rest)).skip front.length).ahead = rest := by
      simp [Spot.start]
    rw [if_pos (by simp), run_blanks_named_iff delimits, hahead]
    constructor
    · intro hnamed
      exact ⟨rest, rfl, hnamed⟩
    · intro ⟨rest', hrest, hnamed⟩
      rwa [List.append_cancel_left hrest]
  · rw [if_neg (by simpa [Spot.start] using hfront)]
    constructor
    · intro h
      cases h
    · rintro ⟨rest, rfl, -⟩
      exact absurd (List.prefix_append _ _) hfront

theorem delimits_brackets : Delimits "]]".toList := ⟨']', [']'], rfl, rfl, rfl⟩

theorem delimits_start : Delimits ") START".toList := ⟨')', " START".toList, rfl, rfl, rfl⟩

theorem bracketStart_pattern : bracketStart.pattern =
    sequence (spelled "[[region:".toList ++
      blanks :: identifier :: blanks :: spelled "]]".toList) := rfl

theorem wordsStart_pattern : wordsStart.pattern =
    sequence (spelled "PROTECTED REGION ID(".toList ++
      blanks :: identifier :: blanks :: spelled ") START".toList) := rfl

/-- What may follow the first token of an end marker: a colon and an id or nothing, and the last
token. -/
theorem run_maybe_named {s : Spot} {token : Text} {x : Option Text} (delimits : Delimits token)
    (hgroups : s.groups = []) :
    (run (sequence (.repeated 0 (some 1) .most (sequence (spelled [':'] ++ [blanks, identifier])) ::
        blanks :: spelled token)) s final).map (·.group? 1) = some x ↔
      (∃ rest, s.ahead = ':' :: rest ∧ ∃ id, x = some id ∧ Named id token rest) ∨
        (x = none ∧ ∃ b, Text.Blanks b ∧ s.ahead = b ++ token) := by
  rw [run_sequence_cons, run_optional, ← run_sequence_append, List.append_assoc, run_letters]
  by_cases hcolon : [':'] <+: s.ahead
  · obtain ⟨rest, hrest⟩ := hcolon
    have hahead : s.ahead = ':' :: rest := hrest.symm
    -- without the colon it would have to be white space
    have hnot : s.ahead.dropWhile Text.isBlank ≠ token := by
      obtain ⟨c, more, rfl, -, idNot⟩ := delimits
      rw [hahead, List.dropWhile_cons_of_neg (by decide)]
      intro heq
      obtain rfl := (List.cons.inj heq).1
      exact absurd idNot (by decide)
    have hbehind : (s.skip [':'].length).ahead = rest := by simp [hahead]
    have hnone : ¬ ∃ b, Text.Blanks b ∧ s.ahead = b ++ token := fun h =>
      hnot ((blanks_append_iff delimits).mp h)
    have hnamed := run_blanks_named_iff (s := s.skip [':'].length) (x := x) delimits
    rw [hbehind] at hnamed
    simp only [hnone, and_false, or_false]
    rw [if_pos (by simp [hahead]), run_ending delimits, if_neg hnot]
    have hfirst : ∀ found : Option Spot, (found.orElse fun _ => none) = found := by
      intro found
      cases found <;> rfl
    rw [hfirst]
    refine hnamed.trans ?_
    constructor
    · intro h
      exact ⟨rest, hahead, h⟩
    · intro ⟨rest', hrest', h⟩
      rwa [(List.cons.inj (hahead.symm.trans hrest')).2]
  · rw [if_neg (by simpa using hcolon), run_ending delimits]
    have hnamed : ¬ ∃ rest, s.ahead = ':' :: rest ∧ ∃ id, x = some id ∧ Named id token rest := by
      intro ⟨rest, hahead, _⟩
      exact hcolon ⟨rest, hahead.symm⟩
    simp only [hnamed, false_or, blanks_append_iff delimits, Option.orElse]
    by_cases hend : s.ahead.dropWhile Text.isBlank = token
    · have hgroup : ∀ n, (s.skip n).group? 1 = none := fun n => by simp [Spot.group?, hgroups]
      rw [if_pos hend, Option.map_some, hgroup]
      simp only [hend, Option.some.injEq, and_true]
      exact eq_comm
    · rw [if_neg hend]
      simp only [hend, Option.map_none, reduceCtorEq, and_false]

theorem answer_bracketFinish_iff {t : Text} {x : Option Text} :
    bracketFinish.answer t = some x ↔ ∃ rest, t = "[[end".toList ++ rest ∧
      ((∃ rest', rest = ':' :: rest' ∧ ∃ id, x = some id ∧ Named id "]]".toList rest') ∨
        (x = none ∧ ∃ b, Text.Blanks b ∧ rest = b ++ "]]".toList)) := by
  have hpattern : bracketFinish.pattern = sequence (spelled "[[end".toList ++
      .repeated 0 (some 1) .most (sequence (spelled [':'] ++ [blanks, identifier])) ::
        blanks :: spelled "]]".toList) := rfl
  rw [answer_of_names rfl, hpattern, run_letters]
  by_cases hfront : "[[end".toList <+: t
  · obtain ⟨rest, rfl⟩ := hfront
    have hahead :
        ((Spot.start ("[[end".toList ++ rest)).skip "[[end".toList.length).ahead = rest := by
      simp [Spot.start]
    rw [if_pos (by simp [Spot.start]), run_maybe_named delimits_brackets rfl, hahead]
    constructor
    · intro h
      exact ⟨rest, rfl, h⟩
    · intro ⟨rest', hrest, h⟩
      rwa [List.append_cancel_left hrest]
  · rw [if_neg (by simpa [Spot.start] using hfront)]
    constructor
    · intro h
      cases h
    · rintro ⟨rest, rfl, -⟩
      exact absurd (List.prefix_append _ _) hfront

theorem answer_wordsFinish_iff {t : Text} {x : Option Text} :
    wordsFinish.answer t = some x ↔ x = none ∧ t = "PROTECTED REGION END".toList := by
  have hpattern : wordsFinish.pattern = sequence (spelled "PROTECTED REGION END".toList) := rfl
  have hgroup : wordsFinish.group? idGroup = fun _ => none := rfl
  rw [Expression.answer, hgroup, Expression.fullMatch, hpattern, fullMatch_eq, run_closing,
    Spot.start_ahead]
  by_cases ht : t = "PROTECTED REGION END".toList
  · rw [if_pos ht]
    simp only [ht, Option.map_some, Option.some.injEq, and_true]
    exact eq_comm
  · rw [if_neg ht]
    simp only [ht, Option.map_none, reduceCtorEq, and_false]

end BuiltInOracle

/-- An oracle goes by the answer of its start expression, and by the one of its end expression
where there is none. -/
theorem PatternOracle.classify_eq_answers {o : PatternOracle} {e : Expression}
    (finish : o.finish = .expression e) (body : Text) :
    o.classify body = .ok (match o.start.answer body.trim with
      | some id => some ⟨.start, id⟩
      | none => (e.answer body.trim).map fun id => ⟨.finish, id⟩) := by
  unfold PatternOracle.classify Expression.answer
  rw [finish]
  cases hstart : o.start.fullMatch body.trim with
  | some spot => simp [hstart]
  | none => cases hend : e.fullMatch body.trim <;> simp [hstart, hend]

theorem PatternOracle.classify_congr {o : PatternOracle} {e : Expression}
    (finish : o.finish = .expression e) {body body' : Text}
    (starts : o.start.answer body.trim = o.start.answer body'.trim)
    (ends : e.answer body.trim = e.answer body'.trim) : o.classify body = o.classify body' := by
  rw [classify_eq_answers finish, classify_eq_answers finish, starts, ends]

end ProtectedRegions
