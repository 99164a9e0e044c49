import ProtectedRegions.Proofs.Comments

/-
  Choosing — a lexicon is the table of its opening tokens

  A lexicon is written as a list, and the search through it keeps the best syntax
  that it has met. Which syntax is chosen at a place can be said without the list:
  it is the one that the lexicon has for the longest token that stands there, where
  of several syntaxes with one token the first registered is the one it has. So
  syntaxes with different tokens may be registered in any order, a token that is
  registered again is not looked at, and a token that does not stand in a text
  might as well not be there.

  What is proved:
    1. `begins_iff` — the syntax that begins at a place, said by the table.
    2. `match_congr` — at a place only the entries of tokens that stand there count.
    3. `seek_congr` and `split_congr` — what two parsers choose alike, they read alike.
    4. `parse_table` — what a parser makes of a text, refusals included, depends on
       nothing of its lexicon but the table, and there on the tokens of the text alone.
-/

namespace ProtectedRegions

namespace Lexicon

variable {lexicon other : Lexicon} {t token : Text} {c : Comment}

/-- The syntax that a lexicon has for an opening token: the first one registered. -/
def entryOf? (lexicon : Lexicon) (token : Text) : Option Comment :=
  lexicon.find? fun c => c.opening = token

/-! ## The table -/

theorem entryOf?_append (first second : Lexicon) (token : Text) :
    entryOf? (first ++ second) token = (entryOf? first token).or (entryOf? second token) :=
  List.find?_append

theorem entryOf?_cons_of_eq (h : c.opening = token) (rest : Lexicon) :
    entryOf? (c :: rest) token = some c := by
  simp [entryOf?, h]

theorem entryOf?_cons_of_ne (h : c.opening ≠ token) (rest : Lexicon) :
    entryOf? (c :: rest) token = entryOf? rest token := by
  simp [entryOf?, h]

theorem opening_of_entryOf? (h : lexicon.entryOf? token = some c) : c.opening = token := by
  simpa using List.find?_some h

theorem entryOf?_eq_none_iff :
    lexicon.entryOf? token = none ↔ ∀ c ∈ lexicon, c.opening ≠ token := by
  simp [entryOf?]

theorem entryOf?_eq_some_iff : lexicon.entryOf? token = some c ↔
    c.opening = token ∧ ∃ before after, lexicon = before ++ c :: after ∧
      ∀ b ∈ before, b.opening ≠ token := by
  simp [entryOf?, List.find?_eq_some_iff_append]

/-- Two syntaxes with different tokens can change places. -/
theorem entryOf?_swap {d : Comment} (h : c.opening ≠ d.opening) (before after : Lexicon)
    (token : Text) :
    entryOf? (before ++ d :: c :: after) token = entryOf? (before ++ c :: d :: after) token := by
  rw [entryOf?_append, entryOf?_append]
  congr 1
  by_cases hc : c.opening = token
  · have hd : d.opening ≠ token := fun hd => h (hc.trans hd.symm)
    rw [entryOf?_cons_of_ne hd, entryOf?_cons_of_eq hc, entryOf?_cons_of_eq hc]
  · rw [entryOf?_cons_of_ne hc]
    by_cases hd : d.opening = token
    · rw [entryOf?_cons_of_eq hd, entryOf?_cons_of_eq hd]
    · rw [entryOf?_cons_of_ne hd, entryOf?_cons_of_ne hd, entryOf?_cons_of_ne hc]

/-- A syntax whose token was registered before changes nothing. -/
theorem entryOf?_of_known_before {before : Lexicon} {b : Comment} (hb : b ∈ before)
    (h : b.opening = c.opening) (after : Lexicon) (token : Text) :
    entryOf? (before ++ c :: after) token = entryOf? (before ++ after) token := by
  rw [entryOf?_append, entryOf?_append]
  by_cases hc : c.opening = token
  · cases hbefore : entryOf? before token with
    | some k => rw [Option.some_or, Option.some_or]
    | none => exact absurd (h.trans hc) (entryOf?_eq_none_iff.mp hbefore b hb)
  · rw [entryOf?_cons_of_ne hc]

/-! ## The choice at a place -/

/-- The syntax that begins at the front of a text is the entry of the longest token that
stands there. -/
theorem begins_iff : lexicon.Begins t c ↔
    c.opening <+: t ∧ lexicon.entryOf? c.opening = some c ∧
      ∀ token, lexicon.entryOf? token ≠ none → token <+: t → token.length ≤ c.opening.length := by
  refine ⟨?_, ?_⟩
  · intro h
    obtain ⟨hpre, before, after, rfl, hbefore, hafter⟩ := h
    refine ⟨hpre, ?_, ?_⟩
    · apply entryOf?_eq_some_iff.mpr
      refine ⟨rfl, before, after, rfl, ?_⟩
      intro b hb heq
      -- a syntax with this token before it would stand there too, and is no shorter
      have hlt := hbefore b hb (heq ▸ hpre)
      rw [heq] at hlt
      omega
    · intro token hentry htoken
      obtain ⟨k, hk⟩ := Option.ne_none_iff_exists'.mp hentry
      have hmem : k ∈ before ++ c :: after := List.mem_of_find?_eq_some hk
      obtain rfl := opening_of_entryOf? hk
      rcases List.mem_append.mp hmem with hmem | hmem
      · exact Nat.le_of_lt (hbefore k hmem htoken)
      · rcases List.mem_cons.mp hmem with rfl | hmem
        · exact Nat.le_refl _
        · exact hafter k hmem htoken
  · intro h
    obtain ⟨hpre, hentry, hlongest⟩ := h
    obtain ⟨-, before, after, rfl, hfirst⟩ := entryOf?_eq_some_iff.mp hentry
    have hbound : ∀ k ∈ before ++ c :: after, k.opening <+: t →
        k.opening.length ≤ c.opening.length := by
      intro k hk hkpre
      apply hlongest k.opening _ hkpre
      intro hnone
      exact entryOf?_eq_none_iff.mp hnone k hk rfl
    refine ⟨hpre, before, after, rfl, ?_, ?_⟩
    · intro b hb hbpre
      have hle := hbound b (List.mem_append_left _ hb) hbpre
      have hne : b.opening.length ≠ c.opening.length := by
        -- of one length at one place there is one token
        intro hlen
        apply hfirst b hb
        exact (List.prefix_of_prefix_length_le hbpre hpre hle).eq_of_length hlen
      omega
    · intro a ha hapre
      exact hbound a (List.mem_append_right _ (List.mem_cons_of_mem _ ha)) hapre

/-- Lexicons that have the same for the tokens at the front of a text agree about the syntax
that begins there. -/
theorem Begins.of_entries (h : lexicon.Begins t c)
    (same : ∀ token, token <+: t → lexicon.entryOf? token = other.entryOf? token) :
    other.Begins t c := by
  obtain ⟨hpre, hentry, hlongest⟩ := begins_iff.mp h
  refine begins_iff.mpr ⟨hpre, ?_, ?_⟩
  · rw [← same _ hpre]
    exact hentry
  · intro token hother htoken
    apply hlongest token _ htoken
    rw [same token htoken]
    exact hother

theorem match_congr (same : ∀ token, token <+: t → lexicon.entryOf? token = other.entryOf? token) :
    lexicon.match? t = other.match? t := by
  apply Option.ext
  intro c
  rw [match_eq_some_iff, match_eq_some_iff]
  refine ⟨?_, ?_⟩
  · intro h
    exact h.of_entries same
  · intro h
    exact h.of_entries fun token htoken => (same token htoken).symm

end Lexicon

/-! ## Two parsers that choose alike -/

namespace Parser

variable {p q : Parser} {t : Text}

/-- Every comment that begins somewhere in the text is the same for both parsers. -/
def ChooseAlike (p q : Parser) (t : Text) : Prop :=
  ∀ u, u <:+ t → p.lexicon.match? u = q.lexicon.match? u

theorem ChooseAlike.suffix {u : Text} (h : ChooseAlike p q t) (hu : u <:+ t) :
    ChooseAlike p q u :=
  fun v hv => h v (hv.trans hu)

theorem ChooseAlike.cuts {cut : Cut} (h : ChooseAlike p q t) (hcuts : p.lexicon.Cuts t cut) :
    q.lexicon.Cuts t cut := by
  obtain ⟨c, hm, hc⟩ := hcuts
  exact ⟨c, (h t (List.suffix_refl t)).symm.trans hm, hc⟩

theorem seek_of_cut_error {passed : Text} {c : Comment} {d : Defect}
    (hm : p.lexicon.match? t = some c) (hc : c.cut t = .error d) : p.seek passed t = .error d := by
  cases t with
  | nil =>
    -- no token stands in front of nothing
    have hpre := (Lexicon.match_eq_some_iff.mp hm).1
    exact absurd (List.prefix_nil.mp hpre) c.nonempty
  | cons x t =>
    rw [seek]
    split
    · next hnone => simp [hm] at hnone
    · next k hk =>
      obtain rfl : k = c := Option.some.inj (hk.symm.trans hm)
      split
      · next e he =>
        obtain rfl := Except.error.inj (he.symm.trans hc)
        rfl
      · next cut he => simp [hc] at he

theorem seek_congr (oracle : p.oracle = q.oracle) (alike : ChooseAlike p q t) (passed : Text) :
    p.seek passed t = q.seek passed t := by
  -- on the steps of the search: what is left behind a step is a suffix of the text
  fun_induction Parser.seek p passed t with
  | case1 passed => rw [seek_nil]
  | case2 passed c rest hm ih =>
    have hother := (alike _ (List.suffix_refl _)).symm.trans hm
    rw [seek_bare hother, ih (alike.suffix (List.suffix_cons c rest))]
  | case3 passed c rest k hm d hc =>
    have hother := (alike _ (List.suffix_refl _)).symm.trans hm
    rw [seek_of_cut_error hother hc]
  | case4 passed c rest k hm cut hc d hd =>
    have hcuts := alike.cuts ⟨k, hm, hc⟩
    rw [seek_cuts hcuts, ← oracle, hd]
  | case5 passed c rest k hm cut hc m hmarker =>
    have hcuts := alike.cuts ⟨k, hm, hc⟩
    rw [seek_cuts hcuts, ← oracle, hmarker]
  | case6 passed c rest k hm cut hc hquiet ih =>
    have hcuts := alike.cuts ⟨k, hm, hc⟩
    have hrest : cut.rest <:+ c :: rest := ⟨cut.comment, hcuts.text⟩
    rw [seek_cuts hcuts, ← oracle, hquiet]
    exact ih (alike.suffix hrest)

theorem rest_suffix {passed : Text} {find : Find} (h : p.seek passed t = .ok (some find)) :
    find.rest <:+ t := by
  obtain ⟨piece, -, ht, -⟩ := seek_eq_some h
  rw [ht]
  exact (List.suffix_append find.comment find.rest).trans (List.suffix_append piece _)

theorem split_congr (oracle : p.oracle = q.oracle) (alike : ChooseAlike p q t) (whole : Text)
    (opened : Option OpenRegion) (position : Nat) :
    p.split whole opened position t = q.split whole opened position t := by
  fun_induction Parser.split p whole opened position t with
  | case1 opened position t d hs =>
    rw [seek_congr oracle alike] at hs
    rw [split_of_seek_error hs]
  | case2 position t hs r =>
    rw [seek_congr oracle alike] at hs
    rw [split_of_seek_none hs]
  | case3 position t hs =>
    rw [seek_congr oracle alike] at hs
    rw [split_of_seek_none hs]
  | case4 opened position t find hs markerPosition cause hpair =>
    rw [seek_congr oracle alike] at hs
    rw [split_of_seek_some hs, hpair]
  | case5 opened position t find hs markerPosition next new hpair e hsplit ih =>
    have hrest := rest_suffix hs
    rw [seek_congr oracle alike] at hs
    rw [split_of_seek_some hs, hpair]
    simp only
    rw [← ih (alike.suffix hrest), hsplit]
  | case6 opened position t find hs markerPosition next new hpair tail hsplit ih =>
    have hrest := rest_suffix hs
    rw [seek_congr oracle alike] at hs
    rw [split_of_seek_some hs, hpair]
    simp only
    rw [← ih (alike.suffix hrest), hsplit]

theorem parse_congr (oracle : p.oracle = q.oracle) (alike : ChooseAlike p q t) :
    p.parse t = q.parse t := by
  rw [parse, parse, split_congr oracle alike]

/-- Where two lexicons have the same for every token that occurs in a text, the same comments
begin everywhere in it. -/
theorem chooseAlike_of_entries
    (same : ∀ token, token <:+: t → p.lexicon.entryOf? token = q.lexicon.entryOf? token) :
    ChooseAlike p q t := by
  intro u hu
  apply Lexicon.match_congr
  intro token htoken
  exact same token (htoken.isInfix.trans hu.isInfix)

/-- Only the table of its tokens matters of a lexicon: with the same oracle and the same
entry for every token, two parsers make the same of every text, be it a document or a
refusal. A syntax whose token does not occur in a text may be there or not. -/
theorem parse_table (oracle : p.oracle = q.oracle) :
    ((∀ token, p.lexicon.entryOf? token = q.lexicon.entryOf? token) →
      ∀ t, p.parse t = q.parse t) ∧
    ∀ before c after, p.lexicon = before ++ after → q.lexicon = before ++ c :: after →
      ∀ t, ¬ c.opening <:+: t → p.parse t = q.parse t := by
  refine ⟨?_, ?_⟩
  · intro same t
    exact parse_congr oracle (chooseAlike_of_entries fun token _ => same token)
  · intro before c after hp hq t habsent
    apply parse_congr oracle
    apply chooseAlike_of_entries
    intro token htoken
    -- a token that does occur is another one
    have hne : c.opening ≠ token := fun h => habsent (h ▸ htoken)
    rw [hp, hq, Lexicon.entryOf?_append, Lexicon.entryOf?_append, Lexicon.entryOf?_cons_of_ne hne]

/-- A parser for samples that registers two dashes before two dashes with brackets, and the
latter a second time, as comments that end with their line. -/
def reordered : Parser where
  lexicon := [Preset.dashes, Preset.dashBrackets,
    ⟨['-', '-', '[', '['], .line, List.cons_ne_nil _ _⟩]
  oracle := .default
  inverse := false
  name := []
  nonempty := List.cons_ne_nil _ _

/-- The same parser with slashes, which come first. -/
def slashed : Parser := { reordered with
  lexicon := [] ++ Preset.slashes :: reordered.lexicon
  nonempty := List.cons_ne_nil _ _ }

theorem entryOf?_reordered (token : Text) :
    (ofPreset .lua .default false).lexicon.entryOf? token = reordered.lexicon.entryOf? token := by
  have hmem : Preset.dashBrackets ∈ [Preset.dashes, Preset.dashBrackets] := by simp
  have hagain : reordered.lexicon.entryOf? token =
      Lexicon.entryOf? [Preset.dashes, Preset.dashBrackets] token :=
    Lexicon.entryOf?_of_known_before (c := ⟨['-', '-', '[', '['], .line, List.cons_ne_nil _ _⟩)
      hmem rfl [] token
  have hne : Preset.dashes.opening ≠ Preset.dashBrackets.opening := by decide
  rw [hagain]
  exact Lexicon.entryOf?_swap hne [] [] token

/-- The comment with brackets still ends with its brackets, so the region behind it is found. -/
theorem parse_table_reordered :
    reordered.parse "--[[x]]-- [[region:A]]\ny\n-- [[end]]".toList =
      .ok ⟨[⟨.plain "--[[x]]".toList, 0, 7⟩,
        ⟨.region ['A'] "-- [[region:A]]\n".toList "y\n".toList "-- [[end]]".toList, 7, 35⟩]⟩ ∧
    slashed.parse "--[[x]]-- [[region:A]]\ny\n-- [[end]]".toList =
      reordered.parse "--[[x]]-- [[region:A]]\ny\n-- [[end]]".toList := by
  have hlua : (ofPreset .lua .default false).parse
      "--[[x]]-- [[region:A]]\ny\n-- [[end]]".toList =
        .ok ⟨[⟨.plain "--[[x]]".toList, 0, 7⟩,
          ⟨.region ['A'] "-- [[region:A]]\n".toList "y\n".toList "-- [[end]]".toList, 7, 35⟩]⟩ := by
    decide +kernel
  have habsent : ¬ Preset.slashes.opening <:+:
      "--[[x]]-- [[region:A]]\ny\n-- [[end]]".toList := by
    decide +kernel
  have horacle : (ofPreset .lua .default false).oracle = reordered.oracle := rfl
  refine ⟨?_, ?_⟩
  · exact ((parse_table horacle).1 entryOf?_reordered _).symm.trans hlua
  · exact ((parse_table (p := reordered) (q := slashed) rfl).2 [] _ _ rfl rfl _ habsent).symm

end Parser
end ProtectedRegions
