import ProtectedRegions.Proofs.Markers

/-
  Grammar — the texts that the built-in oracles take for markers

  A marker has a few tokens, an id or none, and any amount of white space in certain
  places; the comment around it may have more at either end. What such a text can be
  is said here by one rule for each form of marker (`Spells`), without expressions and
  without a match. The letters of an id are among those of the tokens, the colon
  being both a letter and the sign that an id follows, so that it is not plain that a
  text is at most one marker. It is: an oracle answers by the rules.

  What is proved:
    1. `trim_padded` — white space around a text that neither begins nor ends with any
       is what trimming takes away.
    2. `start_answer_iff` and `finish_answer_iff` — an expression matches what the rules
       of its kind allow.
    3. `classify_iff_spells` — an oracle answers a body with a marker exactly when the
       trimmed body spells it, and no text spells two.
-/

namespace ProtectedRegions

namespace Text

/-- A text with no white space at either end. -/
def Trimmed (t : Text) : Prop :=
  (∀ c ∈ t.head?, isBlank c = false) ∧ ∀ c ∈ t.getLast?, isBlank c = false

instance (t : Text) : Decidable t.Blanks := List.decidableBAll (fun c => isBlank c = true) t

variable {left t right : Text}

theorem trim_padded (hleft : Blanks left) (hright : Blanks right) (ht : Trimmed t) :
    (left ++ (t ++ right)).trim = t := by
  obtain ⟨hhead, hlast⟩ := ht
  have hback : Blanks right.reverse := fun c hc => hright c (List.mem_reverse.mp hc)
  rw [trim, BuiltInOracle.dropWhile_blanks hleft]
  cases t with
  | nil =>
    rw [List.nil_append, List.dropWhile_eq_nil_iff.mpr hright]
    rfl
  | cons c t =>
    have hc : ¬ isBlank c = true := by simp [hhead c rfl]
    rw [List.cons_append, List.dropWhile_cons_of_neg hc, ← List.cons_append, List.reverse_append,
      BuiltInOracle.dropWhile_blanks hback]
    have hkept : ∀ d ∈ (c :: t).reverse.head?, ¬ isBlank d = true := by
      intro d hd
      rw [List.head?_reverse] at hd
      simp [hlast d hd]
    cases hreverse : (c :: t).reverse with
    | nil => simp at hreverse
    | cons d rest =>
      rw [hreverse] at hkept
      rw [List.dropWhile_cons_of_neg (hkept d rfl), ← hreverse, List.reverse_reverse]

theorem trimmed_framed {front middle back : Text} {c d : Char} (hfront : front.head? = some c)
    (hc : isBlank c = false) (hback : back.getLast? = some d) (hd : isBlank d = false) :
    (front ++ middle ++ back).Trimmed := by
  constructor
  · simpa [List.head?_append, hfront] using hc
  · simpa [List.getLast?_append, hback] using hd

theorem trim_of_trimmed (ht : Trimmed t) : t.trim = t := by
  have h : trim ([] ++ (t ++ [])) = t := trim_padded nofun nofun ht
  rwa [List.nil_append, List.append_nil] at h

end Text

namespace BuiltInOracle

/-- A letter of an id: a Latin letter or a digit, or one of five signs. -/
def IdLetter (c : Char) : Prop := c.isAlphanum = true ∨ c ∈ ['_', '.', ':', '/', '-']

instance (c : Char) : Decidable (IdLetter c) := inferInstanceAs (Decidable (_ ∨ _))

theorem isAlphanum_iff (c : Char) : c.isAlphanum = true ↔
    (65 ≤ c.toNat ∧ c.toNat ≤ 90 ∨ 97 ≤ c.toNat ∧ c.toNat ≤ 122) ∨
      48 ≤ c.toNat ∧ c.toNat ≤ 57 := by
  change ((decide (_ ∧ _) || (decide _ && decide _)) || (decide _ && decide _)) = true ↔ _
  simp only [Bool.or_eq_true, Bool.and_eq_true, decide_eq_true_eq, ge_iff_le,
    UInt32.le_iff_toNat_le]
  exact Iff.rfl

theorem idSet_holds_iff (c : Char) : idSet.holds c = true ↔ IdLetter c := by
  simp [idSet, CharSet.holds, SetItem.holds, IdLetter, isAlphanum_iff, or_assoc]

/-- The id of a region: one letter or more. -/
def Identifies (id : Text) : Prop := id ≠ [] ∧ ∀ c ∈ id, IdLetter c

instance (id : Text) : Decidable (Identifies id) :=
  @instDecidableAnd _ _ _ (List.decidableBAll IdLetter id)

theorem isId_iff {id : Text} : IsId id ↔ Identifies id := by
  simp only [IsId, Identifies, idSet_holds_iff]

/-- The markers of the built-in oracles, and how each of them is written. -/
inductive Spells : BuiltInOracle → Marker → Text → Prop where
  /-- `[[region:ID]]` -/
  | bracketStart {id b b' : Text} (name : Identifies id) (before : Text.Blanks b)
      (behind : Text.Blanks b') : Spells .bracket ⟨.start, some id⟩
        ("[[region:".toList ++ (b ++ id ++ b') ++ "]]".toList)
  /-- `[[end:ID]]` -/
  | bracketFinishOf {id b b' : Text} (name : Identifies id) (before : Text.Blanks b)
      (behind : Text.Blanks b') : Spells .bracket ⟨.finish, some id⟩
        ("[[end:".toList ++ (b ++ id ++ b') ++ "]]".toList)
  /-- `[[end]]` -/
  | bracketFinish {b : Text} (before : Text.Blanks b) : Spells .bracket ⟨.finish, none⟩
      ("[[end".toList ++ b ++ "]]".toList)
  /-- `PROTECTED REGION ID(ID) START` -/
  | wordsStart {id b b' : Text} (name : Identifies id) (before : Text.Blanks b)
      (behind : Text.Blanks b') : Spells .words ⟨.start, some id⟩
        ("PROTECTED REGION ID(".toList ++ (b ++ id ++ b') ++ ") START".toList)
  /-- `PROTECTED REGION END` -/
  | wordsFinish : Spells .words ⟨.finish, none⟩ "PROTECTED REGION END".toList

variable {o : BuiltInOracle} {m : Marker} {t : Text} {x : Option Text}

theorem Spells.trimmed (h : o.Spells m t) : t.Trimmed := by
  cases h with
  | bracketStart | bracketFinishOf | bracketFinish =>
    exact Text.trimmed_framed (c := '[') (d := ']') rfl rfl rfl rfl
  | wordsStart => exact Text.trimmed_framed (c := 'P') (d := 'T') rfl rfl rfl rfl
  | wordsFinish =>
    show Text.Trimmed ("PROTECTED".toList ++ " REGION ".toList ++ "END".toList)
    exact Text.trimmed_framed (c := 'P') (d := 'D') rfl rfl rfl rfl

/-- What stands between two tokens: an id with white space around it. -/
theorem named_between_iff {front back : Text} :
    (∃ rest, t = front ++ rest ∧ ∃ id, x = some id ∧ Named id back rest) ↔
      ∃ id b b', x = some id ∧ Identifies id ∧ Text.Blanks b ∧ Text.Blanks b' ∧
        t = front ++ (b ++ id ++ b') ++ back := by
  constructor
  · rintro ⟨_, rfl, id, rfl, b, b', hb, hb', hid, rfl⟩
    exact ⟨id, b, b', rfl, isId_iff.mp hid, hb, hb', by simp⟩
  · rintro ⟨id, b, b', rfl, hid, hb, hb', rfl⟩
    exact ⟨b ++ (id ++ (b' ++ back)), by simp, id, rfl, b, b', hb, hb', isId_iff.mpr hid, rfl⟩

/-- The start expression of an oracle matches what the rules for a start allow. -/
theorem start_answer_iff : o.patterns.start.answer t = some x ↔ o.Spells ⟨.start, x⟩ t := by
  cases o with
  | bracket =>
    refine (answer_framed_iff delimits_brackets rfl bracketStart_pattern).trans
      (named_between_iff.trans ⟨?_, fun h => ?_⟩)
    · rintro ⟨id, b, b', rfl, hid, hb, hb', rfl⟩
      exact .bracketStart hid hb hb'
    · cases h with
      | bracketStart hid hb hb' => exact ⟨_, _, _, rfl, hid, hb, hb', rfl⟩
  | words =>
    refine (answer_framed_iff delimits_start rfl wordsStart_pattern).trans
      (named_between_iff.trans ⟨?_, fun h => ?_⟩)
    · rintro ⟨id, b, b', rfl, hid, hb, hb', rfl⟩
      exact .wordsStart hid hb hb'
    · cases h with
      | wordsStart hid hb hb' => exact ⟨_, _, _, rfl, hid, hb, hb', rfl⟩

/-- The end expression of an oracle. -/
def finish : BuiltInOracle → Expression
  | .bracket => bracketFinish
  | .words => wordsFinish

theorem patterns_finish (o : BuiltInOracle) : o.patterns.finish = .expression o.finish := by
  cases o <;> rfl

/-- The end expression of an oracle matches what the rules for an end allow. -/
theorem finish_answer_iff : o.finish.answer t = some x ↔ o.Spells ⟨.finish, x⟩ t := by
  cases o with
  | bracket =>
    refine answer_bracketFinish_iff.trans ⟨?_, fun h => ?_⟩
    · rintro ⟨_, rfl, ⟨rest, rfl, hnamed⟩ | ⟨rfl, b, hb, rfl⟩⟩
      · have hbetween : ∃ rest', "[[end".toList ++ ':' :: rest = "[[end:".toList ++ rest' ∧
            ∃ id, x = some id ∧ Named id "]]".toList rest' := ⟨rest, rfl, hnamed⟩
        obtain ⟨id, b, b', rfl, hid, hb, hb', htext⟩ := named_between_iff.mp hbetween
        rw [htext]
        exact .bracketFinishOf hid hb hb'
      · rw [← List.append_assoc]
        exact .bracketFinish hb
    · cases h with
      | bracketFinishOf hid hb hb' =>
        obtain ⟨rest, htext, hnamed⟩ := named_between_iff.mpr ⟨_, _, _, rfl, hid, hb, hb', rfl⟩
        exact ⟨':' :: rest, htext, .inl ⟨rest, rfl, hnamed⟩⟩
      | bracketFinish hb => exact ⟨_, List.append_assoc _ _ _, .inr ⟨rfl, _, hb, rfl⟩⟩
  | words =>
    refine answer_wordsFinish_iff.trans ⟨?_, fun h => ?_⟩
    · rintro ⟨rfl, rfl⟩
      exact .wordsFinish
    · cases h
      exact ⟨rfl, rfl⟩

theorem Spells.kind (h : o.Spells m t) : m.kind = .start ∨ m.kind = .finish := by
  cases h <;> simp

/-- No text both starts a region and ends one: the first letters tell. -/
theorem Spells.not_finish {y : Option Text} (h : o.Spells ⟨.start, x⟩ t) :
    ¬ o.Spells ⟨.finish, y⟩ t := by
  intro h'
  cases o with
  | bracket =>
    have hstart : "[[r".toList <+: t := by cases h; exact ⟨_, rfl⟩
    have hfinish : "[[e".toList <+: t := by cases h' <;> exact ⟨_, rfl⟩
    exact absurd (List.prefix_of_prefix_length_le hstart hfinish (by decide)) (by decide)
  | words =>
    have hstart : "PROTECTED REGION I".toList <+: t := by cases h; exact ⟨_, rfl⟩
    have hfinish : "PROTECTED REGION E".toList <+: t := by cases h'; exact ⟨_, rfl⟩
    exact absurd (List.prefix_of_prefix_length_le hstart hfinish (by decide)) (by decide)

theorem classify_eq_some_iff {body : Text} :
    o.patterns.classify body = .ok (some m) ↔ o.Spells m body.trim := by
  rw [PatternOracle.classify_eq_answers (patterns_finish o)]
  constructor
  · intro h
    have hmarker := Except.ok.inj h
    split at hmarker
    · next id hstart =>
      obtain rfl := Option.some.inj hmarker
      exact start_answer_iff.mp hstart
    · obtain ⟨id, hfinish, rfl⟩ := Option.map_eq_some_iff.mp hmarker
      exact finish_answer_iff.mp hfinish
  · intro h
    obtain ⟨kind, id⟩ := m
    rcases h.kind with rfl | rfl
    · rw [start_answer_iff.mpr h]
    · have hnone : o.patterns.start.answer body.trim = none := by
        rw [Option.eq_none_iff_forall_ne_some]
        intro y hy
        exact (start_answer_iff.mp hy).not_finish h
      rw [hnone, finish_answer_iff.mpr h]
      rfl

theorem classify_ok (o : BuiltInOracle) (body : Text) :
    ∃ answer, o.patterns.classify body = .ok answer :=
  ⟨_, PatternOracle.classify_eq_answers (patterns_finish o) body⟩

theorem classify_eq_none_iff {body : Text} :
    o.patterns.classify body = .ok none ↔ ∀ m, ¬ o.Spells m body.trim := by
  simp only [← classify_eq_some_iff]
  obtain ⟨answer, hanswer⟩ := o.classify_ok body
  rw [hanswer]
  cases answer with
  | none => simp
  | some m => simp

/-- White space around a marker does not count. -/
theorem Spells.classify_padded (h : o.Spells m t) {left right : Text}
    (hleft : Text.Blanks left) (hright : Text.Blanks right) :
    o.patterns.classify (left ++ (t ++ right)) = .ok (some m) := by
  rw [classify_eq_some_iff, Text.trim_padded hleft hright h.trimmed]
  exact h

theorem Spells.unique {n : Marker} (h : o.Spells m t) (h' : o.Spells n t) : m = n := by
  have hm : o.patterns.classify t = .ok (some m) := by
    rwa [classify_eq_some_iff, Text.trim_of_trimmed h.trimmed]
  have hn : o.patterns.classify t = .ok (some n) := by
    rwa [classify_eq_some_iff, Text.trim_of_trimmed h.trimmed]
  rw [hm] at hn
  exact Option.some.inj (Except.ok.inj hn)

/-- A built-in oracle takes the body of a comment for a marker exactly when the body,
without the white space around it, is a text of that marker, and for no marker when it is
a text of none. The text determines the marker, and with it the id. -/
theorem classify_iff_spells (o : BuiltInOracle) (body : Text) :
    (∀ m, o.patterns.classify body = .ok (some m) ↔ o.Spells m body.trim) ∧
    (o.patterns.classify body = .ok none ↔ ∀ m, ¬ o.Spells m body.trim) ∧
    ∀ t m n, o.Spells m t → o.Spells n t → m = n :=
  ⟨fun _ => classify_eq_some_iff, classify_eq_none_iff, fun _ _ _ => Spells.unique⟩

/-- An end marker with an id that begins and ends with a colon, and white space of more than
one kind inside and outside. -/
def colons : Text := " [[end: \t:a/b:\u3000]]\r\n".toList

/-- The id of the marker is all between the first colon and the brackets, without the white
space. With white space in front of the first colon there is no marker. -/
theorem classify_iff_spells_colons :
    (BuiltInOracle.bracket.Spells ⟨.finish, some ":a/b:".toList⟩ colons.trim ∧
      BuiltInOracle.bracket.patterns.classify colons =
        .ok (some ⟨.finish, some ":a/b:".toList⟩)) ∧
    (∀ m, BuiltInOracle.bracket.Spells m colons.trim → m.id = some ":a/b:".toList) ∧
    ∀ m, ¬ BuiltInOracle.bracket.Spells m "[[end :a]]".toList := by
  obtain ⟨hmarker, -, hunique⟩ := classify_iff_spells .bracket colons
  obtain ⟨-, hnone, -⟩ := classify_iff_spells .bracket "[[end :a]]".toList
  have hspells : BuiltInOracle.bracket.Spells ⟨.finish, some ":a/b:".toList⟩
      ("[[end:".toList ++ (" \t".toList ++ ":a/b:".toList ++ "\u3000".toList) ++ "]]".toList) :=
    .bracketFinishOf (by decide) (by decide) (by decide)
  refine ⟨⟨hspells, (hmarker _).mpr hspells⟩, fun m hm => ?_, hnone.mp (by decide +kernel)⟩
  rw [hunique _ _ _ hm hspells]

end BuiltInOracle
end ProtectedRegions
