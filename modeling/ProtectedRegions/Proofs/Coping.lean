import ProtectedRegions.Proofs.Cutting

/-
  Coping — parsers that make something of every text

  A parser is made with settings that are mostly checked beforehand. Two are kept as they
  are: the closing token of a comment, and the end expression of an oracle. When one of
  them is no text, that is found out at a comment that needs it, and only there.

  What is proved:
    1. `Hides.exists_text` — a comment that leads to such a setting does so in a text of
       its own, to the end of which it runs.
    2. `total_iff` — a parser makes a document of every text, or says what is wrong with
       its markers, exactly when no comment can lead it to such a setting.
    3. `total_of_builtIn` — a built-in oracle has no such setting.
-/

namespace ProtectedRegions

/-- A body that ends in front of something has no terminator inside, so that it would run to
the end of the text if it ended there. -/
theorem Closing.Ends.unterminated {closing : Closing} {body ending rest : Text}
    (h : closing.Ends body ending rest) : closing.Ends body [] [] := by
  cases h with
  | line within _ => exact .line within (.inr (.inr (.inr ⟨rfl, rfl⟩)))
  | unended absent => exact .unended absent
  | @token _ _ _ nonempty first =>
    refine .unended fun hinside => ?_
    obtain ⟨front, back, hbody⟩ := hinside
    refine first front.length ?_ ⟨back ++ ending, ?_⟩
    · have hpos := List.length_pos_iff.mpr nonempty
      rw [← hbody, List.length_append, List.length_append]
      omega
    · rw [← hbody]
      simp

namespace Parser

variable {p : Parser} {t : Text} {d : Defect}

/-- Every text is a document, or its markers are malformed. -/
def Total (p : Parser) : Prop :=
  ∀ t, (∃ d, p.parse t = .ok d) ∨ ∃ cause line, p.parse t = .error (.malformed cause line)

/-- A setting that is no text, and the comment that leads to it: one that is to end with
that setting, or one that is no start marker and has to be matched against it. -/
inductive Hides (p : Parser) : Defect → Prop where
  | closing {c : Comment} {v : Value} (begins : p.lexicon.Begins c.opening c)
      (unusable : c.closing = .unusable v) : Hides p .closingToken
  | asked {c : Comment} {body : Text} {d : Defect} (begins : p.lexicon.Begins (c.opening ++ body) c)
      (ends : c.closing.Ends body [] []) (unanswered : p.oracle.classify body = .error d) :
      Hides p d

/-! ## Parsers that cope with every text -/

theorem parse_of_seek_error (h : p.seek [] t = .error d) : p.parse t = .error (.defect d) := by
  rw [parse, split_of_seek_error h]
  rfl

theorem Hides.exists_text (h : p.Hides d) : ∃ t, p.parse t = .error (.defect d) := by
  cases h with
  | @closing c v begins unusable =>
    refine ⟨c.opening, parse_of_seek_error ?_⟩
    have hmatch := Lexicon.match_eq_some_iff.mpr begins
    obtain ⟨x, rest, hopening⟩ := List.exists_cons_of_ne_nil c.nonempty
    rw [hopening] at hmatch ⊢
    rw [seek]
    split
    · next hnone => simp [hmatch] at hnone
    · next k hk =>
      obtain rfl : k = c := Option.some.inj (hk.symm.trans hmatch)
      have hcut : k.cut (x :: rest) = .error .closingToken := by
        simp [Comment.cut, unusable, Closing.split, Except.map]
      split
      · next e he =>
        obtain rfl := Except.error.inj (he.symm.trans hcut)
        rfl
      · next cut he => simp [hcut] at he
  | @asked c body d begins ends unanswered =>
    refine ⟨c.opening ++ body, parse_of_seek_error ?_⟩
    have hcuts : p.lexicon.Cuts (c.opening ++ body) ⟨c.opening, body, [], []⟩ := by
      have := Lexicon.Begins.cuts (by simpa using begins) ends
      simpa using this
    rw [seek_cuts hcuts, unanswered]

/-- What a search for a marker fails at is hidden in the settings. -/
theorem hides_of_seek {passed : Text} (h : p.seek passed t = .error d) : p.Hides d := by
  fun_induction Parser.seek p passed t with
  | case1 => simp at h
  | case2 passed c rest hm ih => exact ih h
  | case3 passed x rest c hm e hc =>
    obtain rfl := Except.error.inj h
    have begins := Lexicon.match_eq_some_iff.mp hm
    have hfront : p.lexicon.Begins c.opening c := by
      obtain ⟨after, hafter⟩ := begins.1
      rw [← hafter] at begins
      exact begins.front (List.prefix_refl _)
    cases hclosing : c.closing with
    | line => simp [Comment.cut, hclosing, Closing.split, Except.map] at hc
    | token token hne =>
      have husable : ∀ v, Closing.token token hne ≠ .unusable v := by simp
      obtain ⟨body, ending, after, hsplit⟩ :=
        Closing.split_ok husable ((x :: rest).drop c.opening.length)
      simp [Comment.cut, hclosing, hsplit, Except.map] at hc
    | unusable v =>
      have he : e = .closingToken := by
        simpa [Comment.cut, hclosing, Closing.split, Except.map] using hc.symm
      exact he ▸ .closing hfront hclosing
  | case4 passed x rest c hm cut hc e he =>
    obtain rfl := Except.error.inj h
    obtain ⟨k, begins, hopening, ends, htext⟩ := Lexicon.cuts_iff.mp ⟨c, hm, hc⟩
    rw [htext, ← hopening, ← List.append_assoc] at begins
    exact .asked (begins.front ⟨cut.body, rfl⟩) ends.unterminated he
  | case5 => simp at h
  | case6 passed c rest k hm cut hc hquiet ih => exact ih h

theorem hides_of_split {whole : Text} {opened : Option OpenRegion} {position : Nat}
    (h : p.split whole opened position t = .error (.defect d)) : p.Hides d := by
  fun_induction Parser.split p whole opened position t with
  | case1 _ _ _ e hs =>
    obtain rfl : e = d := by simpa using h
    exact hides_of_seek hs
  | case2 => simp at h
  | case3 => simp at h
  | case4 => simp at h
  | case5 _ _ _ _ _ _ _ _ _ e hsplit ih =>
    obtain rfl := Except.error.inj h
    exact ih hsplit
  | case6 => simp at h

theorem split_of_parse_error (h : p.parse t = .error (.defect d)) :
    p.split t none 0 t = .error (.defect d) := by
  unfold parse at h
  cases hs : p.split t none 0 t with
  | ok segments => simp [hs, Except.map] at h
  | error e => simpa [hs, Except.map] using h

/-- A parser copes with every text exactly when no comment can lead it to a setting that is no
text. -/
theorem total_iff : p.Total ↔ ∀ d, ¬ p.Hides d := by
  constructor
  · intro total d hides
    obtain ⟨t, ht⟩ := hides.exists_text
    rcases total t with ⟨document, hok⟩ | ⟨cause, line, herror⟩
    · simp [ht] at hok
    · simp [ht] at herror
  · intro none t
    cases ht : p.parse t with
    | ok document => exact .inl ⟨document, rfl⟩
    | error e =>
      cases e with
      | malformed cause line => exact .inr ⟨cause, line, rfl⟩
      | defect d =>
        exact absurd (hides_of_split (split_of_parse_error ht)) (none d)

end Parser

/-- What a pair of expressions fails at is an end expression that is no text, where the start
expression does not match. -/
theorem PatternOracle.classify_eq_error_iff {o : PatternOracle} {body : Text} {d : Defect} :
    o.classify body = .error d ↔ d = .finishPattern ∧ o.start.fullMatch body.trim = none ∧
      ∃ v, o.finish = .unusable v := by
  unfold PatternOracle.classify
  cases hstart : o.start.fullMatch body.trim with
  | some spot => simp [hstart]
  | none =>
    cases hfinish : o.finish with
    | unusable v => simp [hstart, eq_comm]
    | expression e => cases hend : e.fullMatch body.trim <;> simp [hstart, hend]

theorem BuiltInOracle.finish_ne_unusable (b : BuiltInOracle) (v : Value) :
    b.patterns.finish ≠ .unusable v := by
  cases b <;> simp [patterns]

/-- With comments that end and a built-in oracle, a parser copes with every text. -/
theorem Parser.total_of_builtIn {p : Parser} {b : BuiltInOracle} (usable : p.lexicon.Usable)
    (builtIn : p.oracle = .patterns b.patterns) : p.Total := by
  refine total_iff.mpr fun d hides => ?_
  cases hides with
  | closing begins unusable => exact usable _ begins.mem _ unusable
  | asked _ _ unanswered =>
    rw [builtIn] at unanswered
    obtain ⟨-, -, v, hfinish⟩ := PatternOracle.classify_eq_error_iff.mp unanswered
    exact b.finish_ne_unusable v hfinish

end ProtectedRegions
