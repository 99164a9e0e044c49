import Mathlib.Data.List.Basic
import ProtectedRegions.Proofs.Halting

/-
  Seams — what a text reads as when the text behind it changes

  Merging puts a body in front of an end marker that it was not written for. A
  comment that is complete does not notice what stands behind it, with one
  exception: a line that ends in a carriage return ends in two characters when a
  line feed follows. Outside of comments the reading is less stable, because an
  opening token can begin in the body and end in the marker.

  `Lexicon.Tidy` collects what the tokens of a lexicon have to satisfy for the
  first, `Lexicon.Seamless` what excludes the second.

  What is proved:
    1. `Cuts.follow` and `Marks.follow` — a comment stays the comment it is in
       front of another text.
    2. `Passes.follow` — so does a piece of text, if no comment begins in it
       that did not begin there before.
    3. `Marks.passes_iff` — in front of a marker the marker alone decides.
    4. `Marks.passes_of_seamless` — in a seamless lexicon one marker is as good
       as another.
    5. `Marks.passes_iff_joins` — in any tidy lexicon the body and the marker
       decide it, character by character.
-/

namespace ProtectedRegions

namespace Text

/-- A token that does not contain a piece cannot reach behind it. -/
theorem prefix_append_iff {token piece : Text} (h : ¬ piece <:+: token) (before after : Text) :
    token <+: before ++ (piece ++ after) ↔ token <+: before ++ piece := by
  have hbehind : before ++ piece <+: before ++ (piece ++ after) := ⟨after, by simp⟩
  constructor
  · intro htoken
    rcases List.prefix_or_prefix_of_prefix htoken hbehind with hshort | hlong
    · exact hshort
    · exact absurd ((List.suffix_append before piece).isInfix.trans hlong.isInfix) h
  · intro htoken
    exact htoken.trans hbehind

end Text

/-! ## Tidy lexicons -/

namespace Lexicon

variable {lexicon : Lexicon} {t : Text} {cut : Cut}

/-- No token has a line terminator in it, and no closing token is a part of an
opening token. -/
structure Tidy (lexicon : Lexicon) : Prop where
  opening : ∀ c ∈ lexicon, '\r' ∉ c.opening ∧ '\n' ∉ c.opening
  closing : ∀ c ∈ lexicon, ∀ token nonempty, c.closing = .token token nonempty →
    '\r' ∉ token ∧ ∀ k ∈ lexicon, ¬ token <:+: k.opening

/-- No opening token is cut in two by the place where a body ends and a marker
begins: if its first part can be the end of a body and its last part the front
of a marker, then in front of every marker a comment begins in that body. -/
def Seamless (lexicon : Lexicon) : Prop :=
  ∀ k ∈ lexicon, ∀ a ∈ lexicon, ∀ b ∈ lexicon, ∀ i < k.opening.length, 0 < i →
    (k.opening.drop i <+: b.opening ∨ b.opening <+: k.opening.drop i) →
    ∃ c ∈ lexicon, c.opening <+: k.opening.take i ++ a.opening

theorem Tidy.not_inside (tidy : lexicon.Tidy) {c : Comment} (hc : c ∈ lexicon)
    {body ending rest : Text} (ends : c.closing.Ends body ending rest) (hne : ending ≠ []) :
    ∀ k ∈ lexicon, ¬ ending <:+: k.opening := by
  intro k hk hinside
  generalize hclosing : c.closing = closing at ends
  cases ends with
  | line within ends =>
    rcases ends with rfl | rfl | ⟨rfl, _⟩ | ⟨rfl, _⟩
    · exact (tidy.opening k hk).1 (hinside.mem (by simp))
    · exact (tidy.opening k hk).2 (hinside.mem (by simp))
    · exact (tidy.opening k hk).1 (hinside.mem (by simp))
    · exact hne rfl
  | token first => exact (tidy.closing c hc _ _ hclosing).2 k hk hinside
  | unended absent => exact hne rfl

theorem Cuts.rest_eq_nil (h : lexicon.Cuts t cut) (hending : cut.ending = []) : cut.rest = [] := by
  obtain ⟨c, _, _, ends, _⟩ := cuts_iff.mp h
  rw [hending] at ends
  generalize c.closing = closing at ends
  generalize hrest : cut.rest = rest at ends
  cases ends with
  | line within ends =>
    rcases ends with h | h | ⟨h, _⟩ | ⟨_, h⟩
    · cases h
    · cases h
    · cases h
    · exact h
  | @token _ _ _ nonempty => exact absurd rfl nonempty
  | unended => rfl

/-- A terminator that ends in a carriage return is the end of a line, and no line
feed follows. -/
theorem Tidy.carriage (tidy : lexicon.Tidy) {c : Comment} (hc : c ∈ lexicon)
    {body ending rest : Text} (ends : c.closing.Ends body ending rest)
    (hlast : ending.getLast? = some '\r') :
    ending = ['\r'] ∧ c.closing.Ends body ['\r', '\n'] rest ∧ rest.head? ≠ some '\n' := by
  have hclosings := tidy.closing c hc
  generalize c.closing = closing at ends hclosings
  cases ends with
  | line within ends =>
    rcases ends with rfl | rfl | ⟨rfl, hhead⟩ | ⟨rfl, _⟩
    · simp at hlast
    · simp at hlast
    · exact ⟨rfl, .line within (.inl rfl), hhead⟩
    · simp at hlast
  | token first => exact absurd (List.mem_of_getLast? hlast) (hclosings _ _ rfl).1
  | unended => simp at hlast

theorem Cuts.head_ne (tidy : lexicon.Tidy) (h : lexicon.Cuts t cut)
    (hlast : cut.comment.getLast? = some '\r') : cut.rest.head? ≠ some '\n' := by
  by_cases hending : cut.ending = []
  · rw [h.rest_eq_nil hending]
    simp
  · rw [Cut.comment, List.getLast?_append_of_ne_nil _ hending] at hlast
    obtain ⟨c, begins, _, ends, _⟩ := cuts_iff.mp h
    exact (tidy.carriage begins.mem ends hlast).2.2

theorem Cuts.not_inside (tidy : lexicon.Tidy) (h : lexicon.Cuts t cut) (hending : cut.ending ≠ []) :
    ∀ k ∈ lexicon, ¬ cut.comment <:+: k.opening := by
  obtain ⟨c, begins, _, ends, _⟩ := cuts_iff.mp h
  intro k hk hinside
  have hsuffix : cut.ending <:+ cut.comment := List.suffix_append _ _
  exact tidy.not_inside begins.mem ends hending k hk (hsuffix.isInfix.trans hinside)

/-- What begins at the front of a piece begins there whatever follows the piece,
if no opening token is so long as to contain it. -/
theorem Begins.follow {piece rest : Text} {c : Comment} (h : lexicon.Begins (piece ++ rest) c)
    (hinside : ∀ k ∈ lexicon, ¬ piece <:+: k.opening) (rest' : Text) :
    lexicon.Begins (piece ++ rest') c := by
  have hsame : ∀ k ∈ lexicon, k.opening <+: piece ++ rest ↔ k.opening <+: piece ++ rest' := by
    intro k hk
    have := Text.prefix_append_iff (hinside k hk) []
    exact (this rest).trans (this rest').symm
  have hmem := h.mem
  obtain ⟨hc, before, after, rfl, hbefore, hafter⟩ := h
  refine ⟨(hsame c hmem).mp hc, before, after, rfl, ?_, ?_⟩
  · intro b hb hpre
    exact hbefore b hb ((hsame b (by simp [hb])).mpr hpre)
  · intro a ha hpre
    exact hafter a ha ((hsame a (by simp [ha])).mpr hpre)

end Lexicon

/-! ## Comments in front of another text -/

/-- What ends a comment ends it in front of another text too, if it is not the
end of the text, and no carriage return that a line feed now follows. -/
theorem Closing.Ends.follow {closing : Closing} {body ending rest : Text}
    (h : closing.Ends body ending rest) {rest' : Text} (hne : ending ≠ [])
    (hcr : ending = ['\r'] → rest'.head? ≠ some '\n') : closing.Ends body ending rest' := by
  cases h with
  | line within ends =>
    refine .line within ?_
    rcases ends with h | h | ⟨h, _⟩ | ⟨h, _⟩
    · exact .inl h
    · exact .inr (.inl h)
    · exact .inr (.inr (.inl ⟨h, hcr h⟩))
    · exact absurd h hne
  | token first => exact .token first
  | unended => exact absurd rfl hne

namespace Lexicon

variable {lexicon : Lexicon} {cut : Cut}

/-- A comment is the same in front of another text: one without a terminator
needs the end of the text, and a carriage return must not meet a line feed. -/
theorem Cuts.follow (tidy : lexicon.Tidy) {rest rest' : Text}
    (h : lexicon.Cuts (cut.comment ++ rest) cut) (hnil : rest = [] → rest' = [])
    (hcr : cut.comment.getLast? = some '\r' → rest'.head? ≠ some '\n') :
    lexicon.Cuts (cut.comment ++ rest') { cut with rest := rest' } := by
  by_cases hending : cut.ending = []
  · -- then both texts end with the comment
    obtain rfl : rest = [] := by rw [← h.rest_eq, h.rest_eq_nil hending]
    have hcut : { cut with rest := [] } = cut := by rw [← h.rest_eq_nil hending]
    rw [hnil rfl, hcut]
    exact h
  · have hinside := h.not_inside tidy hending
    obtain ⟨c, begins, hopening, ends, _⟩ := cuts_iff.mp h
    refine cuts_iff.mpr ⟨c, begins.follow hinside rest', hopening, ends.follow hending ?_, ?_⟩
    · intro hlast
      exact hcr (by simp [Cut.comment, hlast])
    · simp [Cut.comment]

/-- A line that a carriage return ends takes in a line feed that follows. -/
theorem Cuts.extend (tidy : lexicon.Tidy) {rest : Text}
    (h : lexicon.Cuts (cut.comment ++ rest) cut) (hne : rest ≠ [])
    (hlast : cut.comment.getLast? = some '\r') (rest' : Text) :
    lexicon.Cuts (cut.comment ++ '\n' :: rest')
      { cut with ending := ['\r', '\n'], rest := rest' } ∧ cut.ending = ['\r'] := by
  have hending : cut.ending ≠ [] := by
    intro hnil
    exact hne (by rw [← h.rest_eq, h.rest_eq_nil hnil])
  have hinside := h.not_inside tidy hending
  have hlast' : cut.ending.getLast? = some '\r' := by
    rwa [Cut.comment, List.getLast?_append_of_ne_nil _ hending] at hlast
  obtain ⟨c, begins, hopening, ends, _⟩ := cuts_iff.mp h
  obtain ⟨hcr, ends, _⟩ := tidy.carriage begins.mem ends hlast'
  refine ⟨cuts_iff.mpr ⟨c, begins.follow hinside _, hopening, ends.follow (by simp) (by simp), ?_⟩,
    hcr⟩
  simp [Cut.comment, hcr]

end Lexicon

namespace Parser

variable {p : Parser}

theorem Marks.head_ne (tidy : p.lexicon.Tidy) {comment rest : Text} {m : Marker}
    (h : p.Marks comment m rest) (hlast : comment.getLast? = some '\r') :
    rest.head? ≠ some '\n' := by
  obtain ⟨cut, hcut, rfl, _⟩ := h
  rw [← hcut.rest_eq]
  exact hcut.head_ne tidy hlast

theorem Marks.follow (tidy : p.lexicon.Tidy) {comment rest rest' : Text} {m : Marker}
    (h : p.Marks comment m rest) (hnil : rest = [] → rest' = [])
    (hcr : comment.getLast? = some '\r' → rest'.head? ≠ some '\n') :
    p.Marks comment m rest' := by
  obtain ⟨cut, hcut, rfl, hm⟩ := h
  exact ⟨_, hcut.follow tidy hnil hcr, rfl, hm⟩

theorem Marks.extend (tidy : p.lexicon.Tidy) {comment rest : Text} {m : Marker}
    (h : p.Marks comment m rest) (hne : rest ≠ []) (hlast : comment.getLast? = some '\r')
    (rest' : Text) : p.Marks (comment ++ ['\n']) m rest' := by
  obtain ⟨cut, hcut, rfl, hm⟩ := h
  obtain ⟨hcut', hcr⟩ := hcut.extend tidy hne hlast rest'
  refine ⟨{ cut with ending := ['\r', '\n'], rest := rest' }, ?_, ?_, hm⟩
  · rwa [List.append_assoc]
  · simp [Cut.comment, hcr]

theorem Marks.opening {comment rest : Text} {m : Marker} (h : p.Marks comment m rest) :
    ∃ c ∈ p.lexicon, c.opening <+: comment := by
  obtain ⟨cut, hcut, rfl, _⟩ := h
  exact hcut.opening

theorem Marks.comment_head_ne (tidy : p.lexicon.Tidy) {comment rest : Text} {m : Marker}
    (h : p.Marks comment m rest) : comment.head? ≠ some '\n' := by
  obtain ⟨c, hc, after, rfl⟩ := h.opening
  intro hhead
  rw [List.head?_append_of_ne_nil _ c.nonempty] at hhead
  exact (tidy.opening c hc).2 (List.mem_of_head? hhead)

/-- Whether a comment begins in front of a marker does not depend on what stands
behind the marker, unless the marker has no terminator. -/
theorem Marks.match_eq_none_iff (tidy : p.lexicon.Tidy) {comment rest rest' : Text} {m : Marker}
    (h : p.Marks comment m rest) (hnil : rest = [] → rest' = []) (before : Text) :
    p.lexicon.match? (before ++ (comment ++ rest')) = none ↔
      p.lexicon.match? (before ++ comment) = none := by
  obtain ⟨cut, hcut, rfl, _⟩ := h
  by_cases hending : cut.ending = []
  · obtain rfl : rest = [] := by rw [← hcut.rest_eq, hcut.rest_eq_nil hending]
    rw [hnil rfl, List.append_nil]
  · have hinside := hcut.not_inside tidy hending
    rw [Lexicon.match_eq_none_iff, Lexicon.match_eq_none_iff]
    constructor
    · intro bare k hk hpre
      exact bare k hk ((Text.prefix_append_iff (hinside k hk) _ _).mpr hpre)
    · intro bare k hk hpre
      exact bare k hk ((Text.prefix_append_iff (hinside k hk) _ _).mp hpre)

/-! ## Pieces in front of another text -/

/-- A piece is read without a marker in front of another text too, if no comment
begins in it that did not begin there before. -/
theorem Passes.follow (tidy : p.lexicon.Tidy) {piece t t' : Text} (h : p.Passes piece t)
    (hnil : t = [] → t' = []) (hhead : t'.head? = some '\n' → t.head? = some '\n')
    (hbare : ∀ before c after, piece = before ++ c :: after → p.Passes before (c :: (after ++ t)) →
      p.lexicon.match? (c :: (after ++ t)) = none → p.lexicon.match? (c :: (after ++ t')) = none) :
    p.Passes piece t' := by
  -- on the steps over the piece: what was passed already is put in front of `before`
  induction h with
  | nil => exact .nil _
  | @char x piece t bare _ ih =>
    refine .char (hbare [] x piece rfl (.nil _) bare) (ih hnil hhead ?_)
    intro before c after heq hpass hc
    subst heq
    refine hbare (x :: before) c after rfl (.char ?_ hpass) hc
    simpa using bare
  | @comment cut piece t cuts quiet _ ih =>
    have hcuts : p.lexicon.Cuts (cut.comment ++ (piece ++ t'))
        { cut with rest := piece ++ t' } := by
      refine cuts.follow tidy ?_ ?_
      · intro hempty
        obtain ⟨rfl, ht⟩ := List.append_eq_nil_iff.mp hempty
        simp [hnil ht]
      · intro hlast
        have hne := cuts.head_ne tidy hlast
        rw [cuts.rest_eq] at hne
        cases piece with
        | nil => exact fun hnew => hne (hhead hnew)
        | cons x piece => simpa using hne
    refine @Passes.comment p { cut with rest := piece ++ t' } piece t' hcuts quiet
      (ih hnil hhead ?_)
    intro before c after heq hpass hc
    subst heq
    refine hbare (cut.comment ++ before) c after (by simp) (.comment ?_ quiet hpass) hc
    simpa using cuts

/-- In front of a marker the marker alone decides whether a piece is read. -/
theorem Marks.passes_iff (tidy : p.lexicon.Tidy) {comment rest rest' : Text} {m : Marker}
    (h : p.Marks comment m rest) (hnil : rest = [] → rest' = []) (piece : Text) :
    p.Passes piece (comment ++ rest') ↔ p.Passes piece comment := by
  have hne := h.comment_ne_nil
  have hhead : (comment ++ rest').head? = comment.head? := List.head?_append_of_ne_nil _ hne
  constructor
  · intro hpass
    refine hpass.follow tidy (by simp [hne]) (by simp [hhead]) ?_
    intro before c after _ _ hc
    exact (h.match_eq_none_iff tidy hnil (c :: after)).mp hc
  · intro hpass
    refine hpass.follow tidy (by simp [hne]) (by simp [hhead]) ?_
    intro before c after _ _ hc
    exact (h.match_eq_none_iff tidy hnil (c :: after)).mpr hc

theorem match_lineFeed (tidy : p.lexicon.Tidy) (t : Text) :
    p.lexicon.match? ('\n' :: t) = none := by
  rw [Lexicon.match_eq_none_iff]
  intro k hk hpre
  have hhead : k.opening.head k.nonempty = '\n' := hpre.head k.nonempty
  exact (tidy.opening k hk).2 (hhead ▸ List.head_mem k.nonempty)

theorem passes_lineFeed_iff (tidy : p.lexicon.Tidy) {piece t : Text} :
    p.Passes ('\n' :: piece) t ↔ p.Passes piece t := by
  constructor
  · exact fun h => (h.of_bare (match_lineFeed tidy piece)).2
  · exact fun h => .char (match_lineFeed tidy _) h

/-! ## Seams between a body and a marker -/

/-- In a seamless lexicon a body is read in front of every marker if it is read
in front of one. -/
theorem Marks.passes_of_seamless (tidy : p.lexicon.Tidy) (seamless : p.lexicon.Seamless)
    {old new rest rest' body : Text} {m n : Marker} (hold : p.Marks old m rest)
    (hnew : p.Marks new n rest') (hpass : p.Passes body old) : p.Passes body new := by
  refine hpass.follow tidy (by simp [hold.comment_ne_nil]) ?_ ?_
  · intro hhead
    exact absurd hhead (hnew.comment_head_ne tidy)
  · intro before c after _ _ hbare
    rw [Lexicon.match_eq_none_iff] at hbare ⊢
    intro k hk hpre
    -- the opening token ends in the new marker: otherwise it begins in front of the old one too
    have hbody : ¬ k.opening <+: c :: after :=
      fun h => hbare k hk (h.trans (List.prefix_append (c :: after) old))
    have hcross : c :: after <+: k.opening := by
      rcases List.prefix_or_prefix_of_prefix hpre (List.prefix_append (c :: after) new) with h | h
      · exact absurd h hbody
      · exact h
    obtain ⟨token, htoken⟩ := hcross
    have hne : token ≠ [] := by
      intro h
      subst h
      rw [List.append_nil] at htoken
      exact hbody (htoken ▸ List.prefix_refl _)
    have htoken' : token <+: new := by
      rw [← htoken] at hpre
      exact (List.prefix_append_right_inj (c :: after)).mp hpre
    obtain ⟨a, ha, hopening⟩ := hold.opening
    obtain ⟨b, hb, hopening'⟩ := hnew.opening
    obtain ⟨k', hk', hbegins⟩ := seamless k hk a ha b hb (c :: after).length
      (by rw [← htoken, List.length_append]; have := List.length_pos_iff.mpr hne; omega) (by simp)
      (by rw [← htoken, List.drop_left]; exact List.prefix_or_prefix_of_prefix htoken' hopening')
    rw [← htoken, List.take_left] at hbegins
    exact hbare k' hk' (hbegins.trans ((List.prefix_append_right_inj (c :: after)).mpr hopening))

/-- The body and the marker behind it keep apart: where no comment begins in the
body alone, none begins because of the marker. -/
def Joins (p : Parser) (body marker : Text) : Prop :=
  ∀ before c after, body = before ++ c :: after → p.Passes before (c :: after) →
    p.lexicon.match? (c :: after) = none → p.lexicon.match? (c :: (after ++ marker)) = none

/-- In front of a new marker a body is read to its end exactly when the two keep
apart. -/
theorem Marks.passes_iff_joins (tidy : p.lexicon.Tidy) {old new rest rest' body : Text}
    {m n : Marker} (hold : p.Marks old m rest) (hnew : p.Marks new n rest')
    (hpass : p.Passes body old) : p.Passes body new ↔ p.Joins body new := by
  constructor
  · intro hnew before c after heq hbefore hbare
    subst heq
    have hbehind := hnew.of_append (hbefore.halts.of_alone hnew.halts)
    exact (hbehind.of_bare hbare).1
  · intro hjoins
    refine hpass.follow tidy (by simp [hold.comment_ne_nil]) ?_ ?_
    · intro hhead
      exact absurd hhead (hnew.comment_head_ne tidy)
    · intro before c after hbody hbefore hbare
      refine hjoins before c after hbody ?_ (Lexicon.match_eq_none_of_append hbare)
      -- what was read in front of body and marker is read in front of the body alone
      rw [← List.cons_append] at hbefore
      exact hbefore.front

end Parser

/-! ## The presets -/

namespace Preset

theorem tidy (p : Preset) : p.lexicon.Tidy where
  opening := by cases p <;> decide
  closing := by
    intro c hc token hne htoken
    have hfinds : '\r' ∉ token ∧ ∀ k ∈ p.lexicon, Text.breakOn token k.opening = none := by
      cases p <;> simp only [lexicon, List.mem_cons, List.not_mem_nil, or_false] at hc <;>
        rcases hc with rfl | rfl | rfl <;> simp only [slashes, slashStar, hashSign, dashes,
          dashBrackets, angle, Closing.token.injEq, reduceCtorEq] at htoken <;> subst htoken <;>
        decide
    exact ⟨hfinds.1, fun k hk => (Text.breakOn_eq_none_iff hne).mp (hfinds.2 k hk)⟩

/-- In two of the presets an opening token can be cut in two: a dash stands in
front of two dashes, and a slash in front of a slash. -/
theorem seamless_iff (p : Preset) : p.lexicon.Seamless ↔ p ≠ .sql ∧ p ≠ .php := by
  unfold Lexicon.Seamless
  cases p <;> decide

end Preset
end ProtectedRegions
