import ProtectedRegions.Proofs.Reading

/-
  Comments of a text — which they are, said without the scan that finds them

  A comment begins where an opening token of the lexicon stands: the longest
  one that does, the first registered of equally long ones. It goes on to its
  terminator, which is the first occurrence of its closing token or the end of
  its line, or to the end of the text where there is none.

  What is proved:
    1. `match_eq_some_iff` — the syntax that the lexicon finds at a place is
       the one that begins there.
    2. `split_eq_ok_iff` — a comment is cut at its first terminator, and the
       pieces of the cut are the text.
    3. `cuts_iff` — both together: what is cut off the front of a text.
    4. `exists_comments` — a text has comments under every lexicon whose
       closing tokens are texts.
-/

namespace ProtectedRegions

/-! ## Where a comment begins -/

namespace Lexicon

variable {lexicon : Lexicon} {t : Text} {c : Comment}

/-- The syntax whose comment begins at the front of the text: its opening token
stands there, one registered before it only if it is shorter, and none that is
longer. -/
def Begins (lexicon : Lexicon) (t : Text) (c : Comment) : Prop :=
  c.opening <+: t ∧ ∃ before after, lexicon = before ++ c :: after ∧
    (∀ b ∈ before, b.opening <+: t → b.opening.length < c.opening.length) ∧
    ∀ a ∈ after, a.opening <+: t → a.opening.length ≤ c.opening.length

def Bare (lexicon : Lexicon) (t : Text) : Prop := ∀ c ∈ lexicon, ¬ c.opening <+: t

/-- What the search through a lexicon has found: nothing where nothing begins,
otherwise the syntax that does. -/
def Found (lexicon : Lexicon) (t : Text) : Option Comment → Prop
  | none => lexicon.Bare t
  | some c => lexicon.Begins t c

theorem startsWith_iff {t token : Text} : t.startsWith token = true ↔ token <+: t :=
  List.isPrefixOf_iff_prefix

theorem Found.better {best : Option Comment} (h : Found lexicon t best) (c : Comment) :
    Found (lexicon ++ [c]) t (Lexicon.better t best c) := by
  by_cases hc : c.opening <+: t
  · have hc' := startsWith_iff.mpr hc
    cases best with
    | none =>
      simp only [Lexicon.better, hc', if_true]
      refine ⟨hc, lexicon, [], rfl, fun b hb hpre => absurd hpre (h b hb), by simp⟩
    | some b =>
      obtain ⟨hb, before, after, rfl, hbefore, hafter⟩ := h
      by_cases hlt : b.opening.length < c.opening.length
      · simp only [Lexicon.better, hc', hlt, if_true]
        refine ⟨hc, before ++ b :: after, [], rfl, ?_, by simp⟩
        intro x hx hpre
        rcases List.mem_append.mp hx with hx | hx
        · exact Nat.lt_trans (hbefore x hx hpre) hlt
        · rcases List.mem_cons.mp hx with rfl | hx
          · exact hlt
          · exact Nat.lt_of_le_of_lt (hafter x hx hpre) hlt
      · simp only [Lexicon.better, hc', hlt, if_true, if_false]
        refine ⟨hb, before, after ++ [c], by simp, hbefore, ?_⟩
        intro x hx hpre
        rcases List.mem_append.mp hx with hx | hx
        · exact hafter x hx hpre
        · obtain rfl := List.mem_singleton.mp hx
          exact Nat.le_of_not_lt hlt
  · have hc' : t.startsWith c.opening = false := by
      rw [← Bool.not_eq_true, startsWith_iff]
      exact hc
    simp only [Lexicon.better, hc', Bool.false_eq_true, if_false]
    cases best with
    | none =>
      intro x hx
      rcases List.mem_append.mp hx with hx | hx
      · exact h x hx
      · obtain rfl := List.mem_singleton.mp hx
        exact hc
    | some b =>
      obtain ⟨hb, before, after, rfl, hbefore, hafter⟩ := h
      refine ⟨hb, before, after ++ [c], by simp, hbefore, ?_⟩
      intro x hx hpre
      rcases List.mem_append.mp hx with hx | hx
      · exact hafter x hx hpre
      · obtain rfl := List.mem_singleton.mp hx
        exact absurd hpre hc

theorem Found.foldl {best : Option Comment} (h : Found lexicon t best) (more : Lexicon) :
    Found (lexicon ++ more) t (more.foldl (Lexicon.better t) best) := by
  induction more generalizing lexicon best with
  | nil => simpa using h
  | cons c more ih =>
    have := ih (h.better c)
    rwa [List.append_assoc] at this

theorem found_match (lexicon : Lexicon) (t : Text) : Found lexicon t (lexicon.match? t) := by
  have hnone : Found [] t none := by simp [Found, Bare]
  exact hnone.foldl lexicon

theorem Begins.mem (h : lexicon.Begins t c) : c ∈ lexicon := by
  obtain ⟨_, before, after, rfl, _⟩ := h
  simp

/-- At most one syntax begins at a place: of two, neither could have been
registered before the other. -/
theorem Begins.unique {d : Comment} (hc : lexicon.Begins t c) (hd : lexicon.Begins t d) :
    c = d := by
  obtain ⟨hc, before, after, hsplit, hbefore, hafter⟩ := hc
  obtain ⟨hd, before', after', hsplit', hbefore', hafter'⟩ := hd
  rw [hsplit] at hsplit'
  -- one of the two is registered first, and then one of its bounds is broken
  rcases List.append_eq_append_iff.mp hsplit' with ⟨gap, hgap, htail⟩ | ⟨gap, hgap, htail⟩
  · cases gap with
    | nil => exact (List.cons.inj htail).1
    | cons x gap =>
      obtain ⟨rfl, rfl⟩ := List.cons.inj htail
      have hlt := hbefore' c (by simp [hgap]) hc
      have hle := hafter d (by simp) hd
      omega
  · cases gap with
    | nil => exact (List.cons.inj htail).1.symm
    | cons x gap =>
      obtain ⟨rfl, rfl⟩ := List.cons.inj htail
      have hlt := hbefore d (by simp [hgap]) hd
      have hle := hafter' c (by simp) hc
      omega

theorem match_eq_none_iff : lexicon.match? t = none ↔ lexicon.Bare t := by
  have hfound := found_match lexicon t
  constructor
  · intro h
    rwa [h] at hfound
  · intro h
    cases hm : lexicon.match? t with
    | none => rfl
    | some c =>
      rw [hm] at hfound
      exact absurd hfound.1 (h c hfound.mem)

theorem match_eq_some_iff : lexicon.match? t = some c ↔ lexicon.Begins t c := by
  have hfound := found_match lexicon t
  constructor
  · intro h
    rwa [h] at hfound
  · intro h
    cases hm : lexicon.match? t with
    | none =>
      rw [hm] at hfound
      exact absurd h.1 (hfound c h.mem)
    | some d =>
      rw [hm] at hfound
      rw [Begins.unique hfound h]

end Lexicon

/-! ## Where a comment ends -/

namespace Text

/-- The text ends a line in front of `rest`: it is a terminator, taken whole, or
nothing at the end of the text. -/
def EndsLine (ending rest : Text) : Prop :=
  ending = ['\r', '\n'] ∨ ending = ['\n'] ∨ (ending = ['\r'] ∧ rest.head? ≠ some '\n') ∨
    (ending = [] ∧ rest = [])

theorem breakLine_cons {c : Char} (hr : c ≠ '\r') (hn : c ≠ '\n') (t : Text) :
    breakLine (c :: t) = (c :: (breakLine t).1, (breakLine t).2) := by
  rw [breakLine.eq_3 _ _ (by rintro _ rfl; exact absurd rfl hr)]
  simp [hr, hn]

theorem breakLine_eq_iff {t line ending rest : Text} :
    breakLine t = (line, ending, rest) ↔
      t = line ++ (ending ++ rest) ∧ (∀ c ∈ line, c ≠ '\r' ∧ c ≠ '\n') ∧ EndsLine ending rest := by
  constructor
  · intro h
    refine ⟨?_, ?_⟩
    · have := breakLine_append t
      rw [h, List.append_assoc] at this
      exact this.symm
    · fun_induction breakLine t generalizing line with
      | case1 => simp_all [EndsLine]
      | case2 => simp_all [EndsLine]
      | case3 c rest' hcr hc =>
        obtain ⟨rfl, rfl, rfl⟩ : line = [] ∧ ending = [c] ∧ rest = rest' := by simp_all
        refine ⟨by simp, ?_⟩
        rcases hc with rfl | rfl
        · refine .inr (.inr (.inl ⟨rfl, ?_⟩))
          cases rest with
          | nil => simp
          | cons d rest =>
            intro hd
            obtain rfl := Option.some.inj hd
            exact hcr rest rfl rfl
        · exact .inr (.inl rfl)
      | case4 c rest' _ hc line' tail htail ih =>
        obtain ⟨rfl, rfl⟩ := Prod.mk.inj h
        obtain ⟨hline, hends⟩ := ih htail
        refine ⟨?_, hends⟩
        intro x hx
        rcases List.mem_cons.mp hx with rfl | hx
        · exact not_or.mp hc
        · exact hline x hx
  · intro h
    obtain ⟨rfl, hline, hends⟩ := h
    induction line with
    | nil =>
      rcases hends with rfl | rfl | ⟨rfl, hrest⟩ | ⟨rfl, rfl⟩
      · rfl
      · rfl
      · cases rest with
        | nil => rfl
        | cons d rest =>
          have hd : d ≠ '\n' := by simpa using hrest
          simp [breakLine, hd]
      · rfl
    | cons c line ih =>
      obtain ⟨hr, hn⟩ := hline c (by simp)
      rw [List.cons_append, breakLine_cons hr hn, ih fun x hx => hline x (by simp [hx])]

/-- A token stands in a text for the first time behind `before`. -/
def First (token before : Text) : Prop := ∀ i < before.length, ¬ token <+: (before ++ token).drop i

theorem first_cons {token before : Text} {c : Char} :
    First token (c :: before) ↔ ¬ token <+: c :: (before ++ token) ∧ First token before := by
  constructor
  · intro h
    exact ⟨h 0 (by simp), fun i hi => h (i + 1) (by simpa using hi)⟩
  · intro h i hi
    obtain ⟨hhead, htail⟩ := h
    cases i with
    | zero => exact hhead
    | succ i => exact htail i (by simpa using hi)

theorem breakOn_eq_some_iff {token t before after : Text} (hne : token ≠ []) :
    breakOn token t = some (before, after) ↔
      t = before ++ (token ++ after) ∧ First token before := by
  induction t generalizing before with
  | nil => simp [breakOn, hne]
  | cons c t ih =>
    by_cases hp : token <+: c :: t
    · simp only [breakOn, List.isPrefixOf_iff_prefix.mpr hp, if_true]
      obtain ⟨rest, hrest⟩ := hp
      constructor
      · intro h
        simp only [Option.some.injEq, Prod.mk.injEq] at h
        obtain ⟨rfl, rfl⟩ := h
        refine ⟨?_, by simp [First]⟩
        rw [← hrest, List.drop_left]
        rfl
      · intro h
        obtain ⟨heq, hfirst⟩ := h
        cases before with
        | nil => simp [heq]
        | cons d before =>
          -- the token stands here already, so it is not the first time behind `before`
          obtain ⟨rfl, htail⟩ := List.cons.inj heq
          refine absurd ?_ (first_cons.mp hfirst).1
          refine List.prefix_of_prefix_length_le ⟨rest, hrest⟩ ⟨after, ?_⟩ (by simp; omega)
          rw [htail]
          simp
    · have hp' : token.isPrefixOf (c :: t) = false := by
        rw [← Bool.not_eq_true, List.isPrefixOf_iff_prefix]
        exact hp
      simp only [breakOn, hp', Bool.false_eq_true, if_false, Option.map_eq_some_iff]
      constructor
      · intro h
        obtain ⟨⟨b, a⟩, hcut, heq⟩ := h
        obtain ⟨rfl, rfl⟩ := Prod.mk.inj heq
        obtain ⟨rfl, hfirst⟩ := ih.mp hcut
        refine ⟨rfl, first_cons.mpr ⟨fun hpre => hp (hpre.trans ⟨a, by simp⟩), hfirst⟩⟩
      · intro h
        obtain ⟨heq, hfirst⟩ := h
        cases before with
        | nil => exact absurd ⟨after, heq.symm⟩ hp
        | cons d before =>
          obtain ⟨rfl, rfl⟩ := List.cons.inj heq
          exact ⟨(before, after), ih.mpr ⟨rfl, (first_cons.mp hfirst).2⟩, rfl⟩

theorem breakOn_eq_none_iff {token t : Text} (hne : token ≠ []) :
    breakOn token t = none ↔ ¬ token <:+: t := by
  induction t with
  | nil => simp [breakOn, hne]
  | cons c t ih =>
    rw [List.infix_cons_iff, not_or, ← ih, ← List.isPrefixOf_iff_prefix]
    cases hp : token.isPrefixOf (c :: t) <;> simp [breakOn, hp]

end Text

namespace Closing

/-- How a comment ends whose body and terminator stand in front of `rest`: with
its line, with the first occurrence of its token, or with the text where that
does not occur. -/
inductive Ends : Closing → Text → Text → Text → Prop where
  | line {body ending rest : Text} (within : ∀ c ∈ body, c ≠ '\r' ∧ c ≠ '\n')
      (ends : Text.EndsLine ending rest) : Ends .line body ending rest
  | token {token body rest : Text} {nonempty : token ≠ []} (first : Text.First token body) :
      Ends (.token token nonempty) body token rest
  | unended {token body : Text} {nonempty : token ≠ []} (absent : ¬ token <:+: body) :
      Ends (.token token nonempty) body [] []

theorem split_eq_ok_iff {closing : Closing} {t body ending rest : Text} :
    closing.split t = .ok (body, ending, rest) ↔
      t = body ++ (ending ++ rest) ∧ closing.Ends body ending rest := by
  cases closing with
  | line =>
    simp only [Closing.split, Except.ok.injEq, Text.breakLine_eq_iff]
    constructor
    · intro h
      obtain ⟨htext, hbody, hends⟩ := h
      exact ⟨htext, .line hbody hends⟩
    · intro h
      obtain ⟨htext, hends⟩ := h
      cases hends with
      | line within ends => exact ⟨htext, within, ends⟩
  | token token hne =>
    constructor
    · intro h
      cases hb : Text.breakOn token t with
      | none =>
        simp only [Closing.split, hb, Except.ok.injEq, Prod.mk.injEq] at h
        obtain ⟨rfl, rfl, rfl⟩ := h
        exact ⟨by simp, .unended ((Text.breakOn_eq_none_iff hne).mp hb)⟩
      | some cut =>
        simp only [Closing.split, hb, Except.ok.injEq, Prod.mk.injEq] at h
        obtain ⟨rfl, rfl, rfl⟩ := h
        obtain ⟨htext, hfirst⟩ := (Text.breakOn_eq_some_iff hne).mp hb
        exact ⟨htext, .token hfirst⟩
    · intro h
      obtain ⟨rfl, hends⟩ := h
      cases hends with
      | token first =>
        simp [Closing.split, (Text.breakOn_eq_some_iff hne).mpr ⟨rfl, first⟩]
      | unended absent =>
        have hb := (Text.breakOn_eq_none_iff hne).mpr absent
        simp [Closing.split, hb]
  | unusable v =>
    constructor
    · intro h
      simp [Closing.split] at h
    · intro h
      obtain ⟨_, hends⟩ := h
      cases hends

end Closing

namespace Closing

theorem split_ok {closing : Closing} (h : ∀ v, closing ≠ .unusable v) (t : Text) :
    ∃ body ending rest, closing.split t = .ok (body, ending, rest) := by
  cases closing with
  | line => exact ⟨_, _, _, rfl⟩
  | token token hne =>
    cases hb : Text.breakOn token t with
    | none => exact ⟨t, [], [], by simp [Closing.split, hb]⟩
    | some cut => exact ⟨cut.1, token, cut.2, by simp [Closing.split, hb]⟩
  | unusable v => exact absurd rfl (h v)

end Closing

/-! ## The comments of a text -/

/-- A comment in a text: the position that it begins at, its opening token, its
body and what ends it. -/
structure Occurrence where
  position : Nat
  opening : Text
  body : Text
  ending : Text
  deriving DecidableEq, Repr

namespace Occurrence

def comment (o : Occurrence) : Text := o.opening ++ o.body ++ o.ending

def stop (o : Occurrence) : Nat := o.position + o.comment.length

end Occurrence

namespace Lexicon

variable {lexicon : Lexicon} {t : Text}

/-- Every closing token of the lexicon is a text. -/
def Usable (lexicon : Lexicon) : Prop := ∀ c ∈ lexicon, ∀ v, c.closing ≠ .unusable v

/-- The comments of a text whose first character is at `position`, from the left
to the right: where none begins the search goes on behind one character, and
where one begins it goes on behind the terminator of that. -/
inductive Comments (lexicon : Lexicon) : Nat → Text → List Occurrence → Prop where
  | nil (position : Nat) : Comments lexicon position [] []
  | char {position : Nat} {c : Char} {t : Text} {os : List Occurrence}
      (bare : lexicon.Bare (c :: t)) (tail : Comments lexicon (position + 1) t os) :
      Comments lexicon position (c :: t) os
  | comment {position : Nat} {c : Comment} {body ending rest : Text} {os : List Occurrence}
      (begins : lexicon.Begins (c.opening ++ (body ++ (ending ++ rest))) c)
      (ends : c.closing.Ends body ending rest)
      (tail : Comments lexicon (position + (c.opening ++ body ++ ending).length) rest os) :
      Comments lexicon position (c.opening ++ (body ++ (ending ++ rest)))
        (⟨position, c.opening, body, ending⟩ :: os)

/-- What stands at the front of a text and is cut off is the comment that begins
there, up to its end. -/
theorem cuts_iff {cut : Cut} :
    lexicon.Cuts t cut ↔ ∃ c, lexicon.Begins t c ∧ c.opening = cut.opening ∧
      c.closing.Ends cut.body cut.ending cut.rest ∧
      t = cut.opening ++ (cut.body ++ (cut.ending ++ cut.rest)) := by
  constructor
  · intro h
    obtain ⟨c, hm, hc⟩ := h
    have hbegins := match_eq_some_iff.mp hm
    have htext := Comment.cut_text (match_startsWith hm) hc
    unfold Comment.cut at hc
    cases hs : c.closing.split (t.drop c.opening.length) with
    | error d => simp [hs, Except.map] at hc
    | ok parts =>
      simp only [hs, Except.map, Except.ok.injEq] at hc
      subst hc
      refine ⟨c, hbegins, rfl, (Closing.split_eq_ok_iff.mp hs).2, ?_⟩
      rw [← htext]
      simp [Cut.comment]
  · intro h
    obtain ⟨c, hbegins, hopening, hends, rfl⟩ := h
    refine ⟨c, match_eq_some_iff.mpr hbegins, ?_⟩
    have hsplit := Closing.split_eq_ok_iff.mpr ⟨rfl, hends⟩
    unfold Comment.cut
    rw [hopening, List.drop_left, hsplit]
    rfl

theorem Begins.cuts {c : Comment} {body ending rest : Text}
    (begins : lexicon.Begins (c.opening ++ (body ++ (ending ++ rest))) c)
    (ends : c.closing.Ends body ending rest) :
    lexicon.Cuts (c.opening ++ (body ++ (ending ++ rest))) ⟨c.opening, body, ending, rest⟩ :=
  cuts_iff.mpr ⟨c, begins, rfl, ends, rfl⟩

theorem exists_comments (h : lexicon.Usable) (position : Nat) (t : Text) :
    ∃ os, lexicon.Comments position t os := by
  -- the search goes on behind a whole comment, so the induction is on the length
  induction hn : t.length using Nat.strongRecOn generalizing t position with
  | ind n ih =>
    cases t with
    | nil => exact ⟨[], .nil position⟩
    | cons x t =>
      cases hm : lexicon.match? (x :: t) with
      | none =>
        obtain ⟨os, hos⟩ := ih t.length (by simp at hn; omega) (position + 1) t rfl
        exact ⟨os, .char (match_eq_none_iff.mp hm) hos⟩
      | some c =>
        have hbegins := match_eq_some_iff.mp hm
        obtain ⟨after, hafter⟩ := hbegins.1
        obtain ⟨body, ending, rest, hsplit⟩ := Closing.split_ok (h c hbegins.mem) after
        obtain ⟨rfl, hends⟩ := Closing.split_eq_ok_iff.mp hsplit
        have hpos : 0 < c.opening.length := List.length_pos_iff.mpr c.nonempty
        have hlen := congrArg List.length hafter
        simp only [List.length_append] at hlen
        obtain ⟨os, hos⟩ := ih rest.length (by omega)
          (position + (c.opening ++ body ++ ending).length) rest rfl
        rw [← hafter] at hbegins ⊢
        exact ⟨_, .comment hbegins hends hos⟩

end Lexicon

/-- The closing tokens of the presets are texts. -/
theorem Preset.usable (p : Preset) : p.lexicon.Usable := by
  intro c hc v
  cases p <;> simp only [Preset.lexicon, List.mem_cons, List.not_mem_nil, or_false] at hc <;>
    rcases hc with rfl | rfl | rfl <;> simp [slashes, slashStar, hashSign, dashes, dashBrackets,
      angle]

end ProtectedRegions
