import ProtectedRegions.Proofs.Validating

/-
  Scanning — where a comment of a text ends, said by positions of the text

  A scan is given the position that the body of a comment begins at. It looks for what
  ends the comment: the closing token, or one of the three line terminators, of which a
  carriage return with a line feed behind it is one. The first that stands in the rest
  of the text counts, at its place the longest; where none does, the comment goes on to
  the end of the text. No token is empty, whichever way the syntax came about, so that
  a scan always gets on.

  What is proved:
    1. `Made.sound` — no lexicon that can be made has an empty token.
    2. `Ends.body_free`, `Ends.first` and `Ends.ending_eq_nil_iff` — what ends a comment
       is the first terminator, or nothing where there is none.
    3. `scanned` — the same of the two positions that a scan returns.
-/

namespace ProtectedRegions

/-! ## How lexicons come about -/

/-- Neither token of the syntax is empty. -/
def Comment.Sound (c : Comment) : Prop := c.opening ≠ [] ∧ c.closing.toValue ≠ .text []

/-- The end that is made of a value stands for that value, which is not the empty text. -/
theorem Closing.toValue_of_ofValue {v : Value} {closing : Closing}
    (h : Closing.ofValue v = .ok closing) : closing.toValue = v ∧ closing.toValue ≠ .text [] := by
  unfold Closing.ofValue at h
  split at h
  · obtain rfl := Except.ok.inj h
    exact ⟨rfl, nofun⟩
  · next t =>
    split at h
    · cases h
    · next ht =>
      obtain rfl := Except.ok.inj h
      exact ⟨rfl, fun heq => ht (Value.text.inj heq)⟩
  · next hnull htext =>
    obtain rfl := Except.ok.inj h
    exact ⟨rfl, fun heq => htext [] heq⟩

theorem Comment.configured_eq_ok {opening : Text} {closing : Value} {c : Comment}
    (h : Comment.configured opening closing = .ok c) :
    c.opening = opening ∧ c.closing.toValue = closing ∧ c.Sound := by
  unfold Comment.configured at h
  split at h
  · cases h
  · next hopening =>
    cases hclosing : Closing.ofValue closing with
    | error fault => simp [hclosing, Except.map] at h
    | ok k =>
      obtain rfl := by simpa [hclosing, Except.map] using h
      obtain ⟨hvalue, hsound⟩ := Closing.toValue_of_ofValue hclosing
      exact ⟨rfl, hvalue, hopening, hsound⟩

namespace Lexicon

/-- A lexicon can be made: it is a preset, or that of a configured parser, or syntaxes were
added to it one by one. -/
inductive Made : Lexicon → Prop where
  | empty : Made []
  | preset (p : Preset) : Made p.lexicon
  | add {lexicon : Lexicon} {opening : Text} {closing : Value} {c : Comment} (made : Made lexicon)
      (syntaxes : Comment.configured opening closing = .ok c) : Made (lexicon ++ [c])
  | configured {rt : Runtime} {v : Value} {entries : List ParserEntry} {e : ParserEntry}
      (parsers : Configuration.parsers rt v = .ok entries) (mem : e ∈ entries) :
      Made e.parser.lexicon

end Lexicon

theorem Configuration.exists_lexicon {rt : Runtime} {v : Value} {entries : List ParserEntry}
    {e : ParserEntry} (h : Configuration.parsers rt v = .ok entries) (he : e ∈ entries) :
    ∃ settings l, Configuration.lexicon rt settings = .ok l ∧ e.parser.lexicon = l.1 := by
  unfold Configuration.parsers at h
  split at h
  · split at h
    · obtain ⟨⟨item, index⟩, -, hentry⟩ := Configuration.mem_of_mapM h he
      obtain ⟨settings, l, _, _, _, hlexicon, _, hparser, _⟩ := Configuration.entry_eq_ok hentry
      exact ⟨settings, l, hlexicon, hparser⟩
    · cases h
  · cases h

namespace Lexicon

theorem sound_of_preset (p : Preset) : ∀ c ∈ p.lexicon, c.Sound := by
  intro c hc
  refine ⟨c.nonempty, ?_⟩
  cases hclosing : c.closing with
  | line => nofun
  | token token hne => exact fun heq => hne (Value.text.inj heq)
  | unusable v => exact absurd hclosing (p.usable c hc v)

/-- No token of a lexicon that can be made is empty. -/
theorem Made.sound {lexicon : Lexicon} (made : lexicon.Made) : ∀ c ∈ lexicon, c.Sound := by
  induction made with
  | empty => nofun
  | preset p => exact sound_of_preset p
  | add _ hconfigured ih =>
    intro c hc
    rcases List.mem_append.mp hc with hc | hc
    · exact ih c hc
    · obtain rfl := List.mem_singleton.mp hc
      exact (Comment.configured_eq_ok hconfigured).2.2
  | configured hparsers he =>
    intro c hc
    obtain ⟨settings, l, hlexicon, heq⟩ := Configuration.exists_lexicon hparsers he
    rw [heq] at hc
    rcases Configuration.lexicon_eq_ok hlexicon with ⟨p, hpreset⟩ | ⟨described, _, hcomments⟩
    · exact sound_of_preset p c (hpreset ▸ hc)
    · obtain ⟨v, _, hcomment⟩ := Configuration.mem_of_mapM hcomments hc
      obtain ⟨opening, closing, hconfigured, _⟩ := Configuration.comment_eq_ok hcomment
      exact (Comment.configured_eq_ok hconfigured).2.2

end Lexicon

/-! ## What ends a comment -/

namespace Closing

variable {closing : Closing} {body ending rest x : Text}

/-- The texts that end a comment. -/
def Terminator : Closing → Text → Prop
  | .line, x => x = ['\r', '\n'] ∨ x = ['\r'] ∨ x = ['\n']
  | .token closing _, x => x = closing
  | .unusable _, _ => False

theorem Terminator.ne_nil (h : closing.Terminator x) : x ≠ [] := by
  cases closing with
  | line => rcases h with rfl | rfl | rfl <;> exact List.cons_ne_nil _ _
  | token token hne => exact h ▸ hne
  | unusable v => exact h.elim

theorem Terminator.exists_cons (h : Closing.line.Terminator x) :
    ∃ c u, x = c :: u ∧ (c = '\r' ∨ c = '\n') := by
  rcases h with rfl | rfl | rfl
  · exact ⟨_, _, rfl, .inl rfl⟩
  · exact ⟨_, _, rfl, .inl rfl⟩
  · exact ⟨_, _, rfl, .inr rfl⟩

theorem Ends.body_free (h : closing.Ends body ending rest) (hx : closing.Terminator x) :
    ¬ x <:+: body := by
  intro hinside
  cases h.unterminated with
  | line within _ =>
    obtain ⟨c, u, rfl, hc⟩ := hx.exists_cons
    have hmem : c ∈ body := hinside.subset List.mem_cons_self
    rcases hc with rfl | rfl
    · exact (within _ hmem).1 rfl
    · exact (within _ hmem).2 rfl
  | @token _ _ _ nonempty _ => exact nonempty rfl
  | unended absent =>
    obtain rfl : x = _ := hx
    exact absent hinside

/-- No terminator begins inside the body, even if it goes on behind it. -/
theorem Ends.not_inside (h : closing.Ends body ending rest) (hx : closing.Terminator x) {i : Nat}
    (hi : i < body.length) : ¬ x <+: (body ++ (ending ++ rest)).drop i := by
  intro hpre
  cases h with
  | line within _ =>
    obtain ⟨c, u, rfl, hc⟩ := hx.exists_cons
    rw [List.drop_append_of_le_length (Nat.le_of_lt hi), List.drop_eq_getElem_cons hi,
      List.cons_append] at hpre
    obtain ⟨rfl, -⟩ := List.cons_prefix_cons.mp hpre
    have hmem : body[i] ∈ body := List.getElem_mem hi
    rcases hc with hc | hc
    · exact (within _ hmem).1 hc
    · exact (within _ hmem).2 hc
  | token first =>
    obtain rfl : x = _ := hx
    rw [← List.append_assoc, List.drop_append_of_le_length (by simp; omega)] at hpre
    refine first i hi (List.prefix_of_prefix_length_le hpre (List.prefix_append _ _) ?_)
    simp
    omega
  | unended absent =>
    obtain rfl : x = _ := hx
    rw [List.append_nil, List.append_nil] at hpre
    exact absent (hpre.isInfix.trans (List.drop_suffix i body).isInfix)

/-- A terminator that begins before a comment ends begins behind its body and is no longer than
what ends it. -/
theorem Ends.first (h : closing.Ends body ending rest) (hx : closing.Terminator x) {i : Nat}
    (hi : x <+: (body ++ (ending ++ rest)).drop i) :
    body.length ≤ i ∧ (i = body.length → x.length ≤ ending.length) := by
  have hbehind : body.length ≤ i := Nat.le_of_not_lt fun hinside => h.not_inside hx hinside hi
  refine ⟨hbehind, ?_⟩
  rintro rfl
  rw [List.drop_left] at hi
  cases h with
  | line _ ends =>
    rcases ends with rfl | rfl | ⟨rfl, hhead⟩ | ⟨rfl, rfl⟩
    · rcases hx with rfl | rfl | rfl <;> simp
    · rcases hx with rfl | rfl | rfl <;> simp at hi ⊢
    · rcases hx with rfl | rfl | rfl
      · -- the line feed would stand behind the carriage return
        obtain ⟨u, hu⟩ := hi
        obtain rfl : '\n' :: u = rest := by simpa using hu
        exact absurd rfl hhead
      · exact Nat.le_refl _
      · exact Nat.le_refl _
    · exact absurd (List.prefix_nil.mp hi) hx.ne_nil
  | token _ =>
    obtain rfl : x = _ := hx
    exact Nat.le_refl _
  | unended _ => exact absurd (List.prefix_nil.mp hi) hx.ne_nil

theorem Ends.terminator (h : closing.Ends body ending rest) :
    ending = [] ∧ rest = [] ∨ closing.Terminator ending := by
  cases h with
  | line _ ends =>
    rcases ends with rfl | rfl | ⟨rfl, -⟩ | ⟨rfl, rfl⟩
    · exact .inr (.inl rfl)
    · exact .inr (.inr (.inr rfl))
    · exact .inr (.inr (.inl rfl))
    · exact .inl ⟨rfl, rfl⟩
  | token _ => exact .inr rfl
  | unended _ => exact .inl ⟨rfl, rfl⟩

/-- Nothing ends a comment exactly where no terminator follows. -/
theorem Ends.ending_eq_nil_iff (h : closing.Ends body ending rest) :
    ending = [] ↔ ∀ x, closing.Terminator x → ¬ x <:+: body ++ (ending ++ rest) := by
  constructor
  · intro hnil x hx
    rcases h.terminator with ⟨-, hrest⟩ | hending
    · rw [hnil, hrest, List.append_nil, List.append_nil]
      exact h.body_free hx
    · exact absurd hnil hending.ne_nil
  · intro hnone
    rcases h.terminator with ⟨hnil, -⟩ | hending
    · exact hnil
    · exact absurd ⟨body, rest, by simp⟩ (hnone ending hending)

end Closing

namespace Comment

variable {c : Comment} {t : Text} {bodyStart bodyEnd stop : Nat}

/-- What a scan returns for the body that begins at a position: where it ends, and where the
comment ends. -/
structure Scanned (c : Comment) (t : Text) (bodyStart bodyEnd stop : Nat) : Prop where
  bodyStart_le : bodyStart ≤ bodyEnd
  bodyEnd_le : bodyEnd ≤ stop
  stop_le : stop ≤ t.length
  /-- Nothing in the body ends the comment. -/
  body : ∀ x, c.closing.Terminator x → ¬ x <:+: t.slice bodyStart bodyEnd
  /-- What stands behind the body ends the comment, or the text is at its end. -/
  ending : t.slice bodyEnd stop = [] ∧ bodyEnd = t.length ∨
    c.closing.Terminator (t.slice bodyEnd stop)
  /-- No terminator begins earlier, and none that begins there is longer. -/
  first : ∀ x i, c.closing.Terminator x → bodyStart ≤ i → x <+: t.drop i →
    bodyEnd ≤ i ∧ (i = bodyEnd → x.length ≤ stop - bodyEnd)
  /-- Nothing stands behind the body exactly where no terminator follows. -/
  ending_eq_nil_iff : t.slice bodyEnd stop = [] ↔
    ∀ x, c.closing.Terminator x → ¬ x <:+: t.drop bodyStart

/-- A scan by a syntax whose end is a text finds where the comment ends. -/
theorem scanned (usable : ∀ v, c.closing ≠ .unusable v) (h : bodyStart ≤ t.length) :
    ∃ bodyEnd stop, c.scan t bodyStart = .ok (bodyEnd, stop) ∧
      c.Scanned t bodyStart bodyEnd stop := by
  obtain ⟨body, ending, rest, hsplit⟩ := Closing.split_ok usable (t.drop bodyStart)
  obtain ⟨hdrop, ends⟩ := Closing.split_eq_ok_iff.mp hsplit
  obtain ⟨front, hfront⟩ : ∃ front, front = t.take bodyStart := ⟨_, rfl⟩
  have hlength : front.length = bodyStart := by rw [hfront, List.length_take, Nat.min_eq_left h]
  have htext : t = front ++ (body ++ (ending ++ rest)) := by
    rw [hfront, ← hdrop, List.take_append_drop]
  have hbody : t.slice bodyStart (bodyStart + body.length) = body := by
    rw [htext, ← hlength]
    exact Text.slice_append front body _
  have hending : t.slice (bodyStart + body.length) (bodyStart + body.length + ending.length) =
      ending := by
    rw [htext, ← hlength, ← List.length_append, ← List.append_assoc]
    exact Text.slice_append (front ++ body) ending rest
  have htotal : t.length = bodyStart + body.length + ending.length + rest.length := by
    rw [htext]
    simp [hlength, Nat.add_assoc]
  refine ⟨bodyStart + body.length, bodyStart + body.length + ending.length, ?_, ?_⟩
  · simp [scan, hsplit, Except.map, Nat.min_eq_left h]
  · constructor
    case bodyStart_le => exact Nat.le_add_right _ _
    case bodyEnd_le => exact Nat.le_add_right _ _
    case stop_le => omega
    case body =>
      intro x hx
      rw [hbody]
      exact ends.body_free hx
    case ending =>
      rw [hending]
      rcases ends.terminator with ⟨hnil, hrest⟩ | hterminator
      · refine .inl ⟨hnil, ?_⟩
        rw [htotal, hnil, hrest]
        rfl
      · exact .inr hterminator
    case first =>
      intro x i hx hi hpre
      obtain ⟨j, rfl⟩ := Nat.exists_eq_add_of_le hi
      rw [← List.drop_drop, hdrop] at hpre
      obtain ⟨hbehind, hlongest⟩ := ends.first hx hpre
      refine ⟨Nat.add_le_add_left hbehind _, fun hj => ?_⟩
      rw [Nat.add_sub_cancel_left]
      exact hlongest (Nat.add_left_cancel hj)
    case ending_eq_nil_iff =>
      rw [hending, hdrop]
      exact ends.ending_eq_nil_iff

theorem opening_of_cut {cut : Cut} (h : c.cut t = .ok cut) : cut.opening = c.opening := by
  unfold Comment.cut at h
  cases hsplit : c.closing.split (t.drop c.opening.length) with
  | error d => simp [hsplit, Except.map] at h
  | ok parts =>
    obtain rfl := by simpa [hsplit, Except.map] using h
    rfl

/-- Behind some text, a scan finds the places of what is cut off there, and fails where no comment
can be cut off. -/
theorem scan_append {front u : Text} (hu : c.opening <+: u) :
    c.scan (front ++ u) (front.length + c.opening.length) = (c.cut u).map fun cut =>
      (front.length + c.opening.length + cut.body.length, front.length + cut.comment.length) := by
  obtain ⟨rest, rfl⟩ := hu
  have hdrop : (front ++ (c.opening ++ rest)).drop (front.length + c.opening.length) = rest := by
    rw [← List.drop_drop, List.drop_left, List.drop_left]
  have hmin : min (front.length + c.opening.length) (front ++ (c.opening ++ rest)).length =
      front.length + c.opening.length := by
    simp
  rw [scan, hdrop, hmin, Comment.cut, List.drop_left]
  cases c.closing.split rest with
  | error d => rfl
  | ok parts => simp [Except.map, Cut.comment, Nat.add_assoc]

end Comment
end ProtectedRegions
