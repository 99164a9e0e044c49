import ProtectedRegions.Proofs.Cutting
import ProtectedRegions.Proofs.Grammar
import ProtectedRegions.Proofs.Seam

/-
  Enclosing — which comments can carry which markers

  Whoever writes a protected region puts a marker into a comment: the opening token, the
  text of the marker, and the closing token or the end of the line. The marker is only
  found again if the comment ends where it was meant to. A comment between tokens ends at
  the first closing token that follows, and that may stand in the marker. What is left of
  the marker is none then, and nobody is told.

  A closing token with a sign that no marker has is safe (`Closing.Apart`). Of the presets'
  comments all have one for either oracle, but for the comments between two dashes with
  brackets: they end with the signs that the markers in brackets end with.

  What is proved:
    1. `passes_lines` — whole lines without an opening token are read as they are.
    2. `marks_around` — a comment with a closing that is apart carries a marker.
    3. `passes_cut_short` — a marker in brackets between brackets is read as plain text.
    4. `parse_framed` — what a body between two markers parses to, for every comment of
       every preset and either oracle.
-/

namespace ProtectedRegions

namespace Text

/-- A token that stands nowhere in a text does not begin there and reach behind it either, if
it has not the text's last character. -/
theorem not_prefix_drop {token before : Text} (absent : ¬ token <:+: before)
    (hlast : ∀ c ∈ before.getLast?, c ∉ token) (after : Text) {i : Nat} (hi : i < before.length) :
    ¬ token <+: (before ++ after).drop i := by
  intro hpre
  rw [List.drop_append_of_le_length hi.le] at hpre
  rcases List.prefix_or_prefix_of_prefix hpre (List.prefix_append _ _) with hshort | hlong
  · exact absent (hshort.isInfix.trans (List.drop_suffix i before).isInfix)
  · have hne : before.drop i ≠ [] := by simpa using hi
    have hend : (before.take i ++ before.drop i).getLast? = some ((before.drop i).getLast hne) := by
      rw [List.getLast?_append_of_ne_nil _ hne, List.getLast?_eq_getLast_of_ne_nil hne]
    rw [List.take_append_drop] at hend
    exact hlast _ hend (hlong.subset (List.getLast_mem hne))

theorem trim_subset (t : Text) : t.trim ⊆ t := by
  intro c hc
  have hback := (List.dropWhile_suffix isBlank).subset (List.mem_reverse.mp hc)
  exact (List.dropWhile_suffix isBlank).subset (List.mem_reverse.mp hback)

/-- Whole lines, each with its line feed. -/
def Lines (t : Text) : Prop := t = [] ∨ t.getLast? = some '\n'

instance (t : Text) : Decidable t.Lines := inferInstanceAs (Decidable (_ ∨ _))

end Text

/-! ## Markers as they are written -/

namespace BuiltInOracle

/-- The brackets in the markers of an oracle. -/
def brackets : BuiltInOracle → List Char
  | .bracket => ['[', ']']
  | .words => ['(', ')']

/-- What the markers of an oracle are written with. -/
def Sign (o : BuiltInOracle) (c : Char) : Prop := IdLetter c ∨ c = ' ' ∨ c ∈ o.brackets

instance (o : BuiltInOracle) (c : Char) : Decidable (o.Sign c) :=
  inferInstanceAs (Decidable (_ ∨ _ ∨ _))

/-- The text has no other signs. -/
def Signs (o : BuiltInOracle) (t : Text) : Prop := ∀ c ∈ t, o.Sign c

instance (o : BuiltInOracle) (t : Text) : Decidable (o.Signs t) := List.decidableBAll o.Sign t

/-- The marker in front of a region. -/
def startText : BuiltInOracle → Text → Text
  | .bracket, id => "[[region:".toList ++ id ++ "]]".toList
  | .words, id => "PROTECTED REGION ID(".toList ++ id ++ ") START".toList

/-- The markers behind a region: without its id, and with it where there is such a form. -/
def finishTexts : BuiltInOracle → Text → List Text
  | .bracket, id => ["[[end".toList ++ "]]".toList, "[[end:".toList ++ id ++ "]]".toList]
  | .words, _ => ["PROTECTED REGION END".toList]

/-- A text spells a marker with the signs for it. -/
structure Writes (o : BuiltInOracle) (m : Marker) (s : Text) : Prop where
  spells : o.Spells m s
  signs : o.Signs s

variable {o : BuiltInOracle} {m : Marker} {id s : Text}

theorem signs_framed {front back : Text} (name : Identifies id) (hfront : o.Signs front)
    (hback : o.Signs back) : o.Signs (front ++ id ++ back) := by
  intro c hc
  rcases List.mem_append.mp hc with hc | hc
  · rcases List.mem_append.mp hc with hc | hc
    · exact hfront c hc
    · exact .inl (name.2 c hc)
  · exact hback c hc

theorem writes_startText (o : BuiltInOracle) (name : Identifies id) :
    o.Writes ⟨.start, some id⟩ (o.startText id) := by
  cases o with
  | bracket =>
    have hspells : Spells .bracket ⟨.start, some id⟩
        ("[[region:".toList ++ ([] ++ id ++ []) ++ "]]".toList) := .bracketStart name nofun nofun
    rw [List.nil_append, List.append_nil] at hspells
    exact ⟨hspells, signs_framed name (by decide) (by decide)⟩
  | words =>
    have hspells : Spells .words ⟨.start, some id⟩
        ("PROTECTED REGION ID(".toList ++ ([] ++ id ++ []) ++ ") START".toList) :=
      .wordsStart name nofun nofun
    rw [List.nil_append, List.append_nil] at hspells
    exact ⟨hspells, signs_framed name (by decide) (by decide)⟩

theorem writes_finishTexts (name : Identifies id) (hs : s ∈ o.finishTexts id) :
    ∃ x, (x = none ∨ x = some id) ∧ o.Writes ⟨.finish, x⟩ s := by
  cases o with
  | bracket =>
    rcases List.mem_cons.mp hs with rfl | hs
    · have hspells : Spells .bracket ⟨.finish, none⟩
          ("[[end".toList ++ [] ++ "]]".toList) := .bracketFinish nofun
      exact ⟨none, .inl rfl, hspells, by decide⟩
    · obtain rfl := List.mem_singleton.mp hs
      have hspells : Spells .bracket ⟨.finish, some id⟩
          ("[[end:".toList ++ ([] ++ id ++ []) ++ "]]".toList) := .bracketFinishOf name nofun nofun
      rw [List.nil_append, List.append_nil] at hspells
      exact ⟨some id, .inr rfl, hspells, signs_framed name (by decide) (by decide)⟩
  | words =>
    obtain rfl := List.mem_singleton.mp hs
    exact ⟨none, .inl rfl, .wordsFinish, by decide⟩

theorem Spells.closing_bracket (h : BuiltInOracle.bracket.Spells m s) : ']' ∈ s := by
  cases h <;> exact List.mem_append_right _ List.mem_cons_self

theorem classify_of_unbracketed {body : Text} (h : ']' ∉ body) :
    BuiltInOracle.bracket.patterns.classify body = .ok none := by
  rw [classify_eq_none_iff]
  exact fun m hspells => h (Text.trim_subset body hspells.closing_bracket)

theorem unbracketed {front : Text} (name : Identifies id) (h : ']' ∉ front) : ']' ∉ front ++ id := by
  intro hbracket
  rcases List.mem_append.mp hbracket with hbracket | hbracket
  · exact h hbracket
  · exact absurd (name.2 _ hbracket) (by decide)

/-- The markers in brackets end with two closing brackets, and have no others. -/
theorem exists_unbracketed (name : Identifies id)
    (hs : s = BuiltInOracle.bracket.startText id ∨ s ∈ BuiltInOracle.bracket.finishTexts id) :
    ∃ front, ']' ∉ front ∧ s = front ++ "]]".toList := by
  rcases hs with rfl | hs
  · exact ⟨_, unbracketed name (by decide), rfl⟩
  · rcases List.mem_cons.mp hs with rfl | hs
    · exact ⟨"[[end".toList, by decide, rfl⟩
    · obtain rfl := List.mem_singleton.mp hs
      exact ⟨_, unbracketed name (by decide), rfl⟩

end BuiltInOracle

/-! ## Comments around markers -/

namespace Closing

/-- What is written behind a comment: its closing token, or a line feed. -/
def written : Closing → Text
  | .line => ['\n']
  | .token t _ => t
  | .unusable _ => []

/-- No marker of the oracle closes a comment: the closing token has a sign that none of them
has, and no space. -/
def Apart (o : BuiltInOracle) : Closing → Prop
  | .line => True
  | .token t _ => ' ' ∉ t ∧ ∃ c ∈ t, ¬ o.Sign c
  | .unusable _ => False

instance (o : BuiltInOracle) : (closing : Closing) → Decidable (closing.Apart o)
  | .line => inferInstanceAs (Decidable True)
  | .token t _ => @instDecidableAnd _ _ _ (List.decidableBEx (fun c => ¬ o.Sign c) t)
  | .unusable _ => inferInstanceAs (Decidable False)

theorem Apart.ends {o : BuiltInOracle} {closing : Closing} (apart : closing.Apart o) {s : Text}
    (signs : o.Signs s) (rest : Text) :
    closing.Ends (' ' :: (s ++ [' '])) closing.written rest := by
  have hsigns : o.Signs (' ' :: (s ++ [' '])) := by
    intro c hc
    rcases List.mem_cons.mp hc with rfl | hc
    · exact .inr (.inl rfl)
    · rcases List.mem_append.mp hc with hc | hc
      · exact signs c hc
      · exact .inr (.inl (List.mem_singleton.mp hc))
  cases closing with
  | line =>
    refine .line (fun c hc => ⟨?_, ?_⟩) (.inr (.inl rfl))
    · rintro rfl
      exact absurd (hsigns _ hc) (by cases o <;> decide)
    · rintro rfl
      exact absurd (hsigns _ hc) (by cases o <;> decide)
  | token t hne =>
    obtain ⟨hspace, c, hc, hother⟩ := apart
    refine .token fun i hi => Text.not_prefix_drop (fun hinside => ?_) (fun d hd => ?_) t hi
    · exact hother (hsigns c (hinside.subset hc))
    · rw [← List.cons_append, List.getLast?_concat] at hd
      obtain rfl := Option.some.inj hd
      exact hspace
  | unusable => exact apart.elim

end Closing

/-- The comment around a text, with a space at either side. -/
def Comment.around (c : Comment) (s : Text) : Text :=
  c.opening ++ (' ' :: (s ++ [' '])) ++ c.closing.written

namespace Parser

variable {p : Parser} {o : BuiltInOracle} {c : Comment} {m : Marker} {s t body : Text}

theorem Passes.append {a b t : Text} (h : p.Passes a (b ++ t)) (h' : p.Passes b t) :
    p.Passes (a ++ b) t := by
  generalize hrest : b ++ t = rest at h
  induction h with
  | nil => exact h'
  | @char c piece _ bare tail ih =>
    subst hrest
    rw [← List.append_assoc] at bare
    exact .char bare (ih rfl)
  | @comment cut piece _ cuts quiet tail ih =>
    subst hrest
    rw [List.append_assoc]
    exact .comment (by rwa [List.append_assoc]) quiet (ih rfl)

/-- Whole lines in which no opening token stands are read as they are, whatever follows. -/
theorem passes_lines (tidy : p.lexicon.Tidy) (lines : body.Lines)
    (free : ∀ k ∈ p.lexicon, ¬ k.opening <:+: body) (t : Text) : p.Passes body t := by
  have hlast : ∀ k ∈ p.lexicon, ∀ c ∈ body.getLast?, c ∉ k.opening := by
    intro k hk c hc
    rcases lines with rfl | hfeed
    · cases hc
    · obtain rfl := Option.some.inj (hfeed.symm.trans hc)
      exact (tidy.opening k hk).2
  have hbare : ∀ k ∈ p.lexicon, ∀ i < body.length, ¬ k.opening <+: (body ++ t).drop i :=
    fun k hk i hi => Text.not_prefix_drop (free k hk) (hlast k hk) t hi
  -- the induction is on the places: what is left of the body need not end in a line feed
  clear lines free hlast
  induction body with
  | nil => exact .nil t
  | cons c body ih =>
    refine .char ?_ (ih fun k hk i hi => hbare k hk (i + 1) (by simpa using hi))
    exact Lexicon.match_eq_none_iff.mpr fun k hk => hbare k hk 0 (by simp)

/-- A comment whose closing is apart carries the markers of an oracle. -/
theorem marks_around (begins : ∀ t, p.lexicon.Begins (c.opening ++ ' ' :: t) c)
    (horacle : p.oracle = .patterns o.patterns) (apart : c.closing.Apart o) (writes : o.Writes m s)
    (rest : Text) : p.Marks (c.around s) m rest := by
  refine ⟨⟨c.opening, ' ' :: (s ++ [' ']), c.closing.written, rest⟩, ?_, rfl, ?_⟩
  · have hcuts := (begins _).cuts (apart.ends writes.signs rest)
    rwa [← List.append_assoc, ← List.append_assoc] at hcuts
  · rw [horacle]
    have hblank : Text.Blanks [' '] := by decide
    exact writes.spells.classify_padded hblank hblank

theorem reads_framed (tidy : p.lexicon.Tidy) (begins : ∀ t, p.lexicon.Begins (c.opening ++ ' ' :: t) c)
    (horacle : p.oracle = .patterns o.patterns) (apart : c.closing.Apart o) {id finish : Text}
    (name : BuiltInOracle.Identifies id) (hfinish : finish ∈ o.finishTexts id) (lines : body.Lines)
    (free : ∀ k ∈ p.lexicon, ¬ k.opening <:+: body) :
    p.Reads (c.around (o.startText id) ++ (body ++ c.around finish))
      [.region id (c.around (o.startText id)) body (c.around finish)] := by
  obtain ⟨x, hx, writes⟩ := BuiltInOracle.writes_finishTexts name hfinish
  have starts := marks_around begins horacle apart (o.writes_startText name)
    (body ++ (c.around finish ++ []))
  have ends := marks_around begins horacle apart writes []
  have reads := Reads.region (.nil _) starts ⟨rfl, rfl, name.1⟩ (passes_lines tidy lines free _) ends
    ⟨rfl, hx⟩ reads_nil
  rwa [List.nil_append, List.append_nil] at reads

end Parser

namespace Preset

variable {p : Preset} {c : Comment} {o : BuiltInOracle}

theorem begins_spaced (hc : c ∈ p.lexicon) (t : Text) :
    p.lexicon.Begins (c.opening ++ ' ' :: t) c := by
  rw [← Lexicon.match_eq_some_iff]
  cases p <;> simp only [lexicon, List.mem_cons, List.not_mem_nil, or_false] at hc <;>
    rcases hc with rfl | rfl | rfl <;> rfl

/-- A marker in brackets, in a comment between dashes with brackets, cut off in front of its own
closing brackets. -/
def cutShort (front rest : Text) : Cut :=
  ⟨dashBrackets.opening, ' ' :: front, "]]".toList, " ]]".toList ++ rest⟩

theorem cuts_short {front : Text} (h : ']' ∉ ' ' :: front) (rest : Text) :
    lua.lexicon.Cuts ((cutShort front rest).comment ++ (" ]]".toList ++ rest))
      (cutShort front rest) := by
  have hclose : Text.First "]]".toList (' ' :: front) := by
    intro i hi
    refine Text.not_prefix_drop (fun hinside => h ?_) (fun c hc hmem => h ?_) _ hi
    · exact hinside.subset List.mem_cons_self
    · obtain rfl : c = ']' := by simpa using hmem
      exact List.mem_of_getLast? hc
  have begins : lua.lexicon.Begins (dashBrackets.opening ++ (' ' :: front ++
      ("]]".toList ++ (" ]]".toList ++ rest)))) dashBrackets :=
    begins_spaced List.mem_cons_self _
  have cuts := begins.cuts (.token hclose)
  rwa [← List.append_assoc, ← List.append_assoc] at cuts

/-- What is left of the marker is none, and the comment and the brackets behind it are read
as plain text. -/
theorem passes_cut_short (inverse : Bool) {front : Text} (h : ']' ∉ front) (rest : Text) :
    (Parser.ofPreset .lua (.patterns BuiltInOracle.bracket.patterns) inverse).Passes
      (dashBrackets.around (front ++ "]]".toList)) rest := by
  have hfront : ']' ∉ ' ' :: front := by simpa using h
  have behind : (Parser.ofPreset .lua (.patterns BuiltInOracle.bracket.patterns) inverse).Passes
      " ]]".toList rest := .char rfl (.char rfl (.char rfl (.nil _)))
  have htext : dashBrackets.around (front ++ "]]".toList) =
      (cutShort front rest).comment ++ " ]]".toList := by
    simp [Comment.around, Cut.comment, cutShort, dashBrackets, Closing.written]
  rw [htext]
  exact .comment (cuts_short hfront rest) (BuiltInOracle.classify_of_unbracketed hfront) behind

/-- The presets' comments are closed by no marker, but for those between dashes with brackets,
which markers in brackets close. -/
theorem apart_of_mem (hc : c ∈ p.lexicon) (h : ¬ (c = dashBrackets ∧ o = .bracket)) :
    c.closing.Apart o := by
  cases p <;> simp only [lexicon, List.mem_cons, List.not_mem_nil, or_false] at hc <;>
    rcases hc with rfl | rfl | rfl <;> cases o <;> first | decide | exact absurd ⟨rfl, rfl⟩ h

/-- A body of whole lines, in which no comment of the preset begins, is put between the markers
of an oracle, each in a comment. With every comment of every preset and either oracle this
parses to the region and nothing else, but for the comments between dashes with brackets and
the markers in brackets. There it parses, without a failure, to a plain text. -/
theorem parse_framed (hc : c ∈ p.lexicon) (o : BuiltInOracle) (inverse : Bool)
    {id body finish : Text} (name : BuiltInOracle.Identifies id)
    (hfinish : finish ∈ o.finishTexts id) (lines : body.Lines)
    (free : ∀ k ∈ p.lexicon, ¬ k.opening <:+: body) :
    (¬ (c = dashBrackets ∧ o = .bracket) →
      (Parser.ofPreset p (.patterns o.patterns) inverse).parse
          (c.around (o.startText id) ++ (body ++ c.around finish)) =
        .ok (.ofSegments [.region id (c.around (o.startText id)) body (c.around finish)])) ∧
    (c = dashBrackets ∧ o = .bracket →
      (Parser.ofPreset p (.patterns o.patterns) inverse).parse
          (c.around (o.startText id) ++ (body ++ c.around finish)) =
        .ok (.ofSegments [.plain (c.around (o.startText id) ++ (body ++ c.around finish))])) := by
  constructor
  · intro hsafe
    have reads := Parser.reads_framed (p := .ofPreset p (.patterns o.patterns) inverse) p.tidy
      (begins_spaced hc) rfl (apart_of_mem hc hsafe) name hfinish lines free
    exact Parser.parse_eq_ok_iff.mpr ⟨_, reads, rfl⟩
  · rintro ⟨rfl, rfl⟩
    have hlua : p = .lua := by
      cases p <;> simp [lexicon, slashes, slashStar, hashSign, dashes, dashBrackets, angle] at hc ⊢
    subst hlua
    obtain ⟨front, hfront, hstart⟩ := BuiltInOracle.exists_unbracketed name (.inl rfl)
    obtain ⟨back, hback, hend⟩ := BuiltInOracle.exists_unbracketed name (.inr hfinish)
    have passes := Parser.Passes.append (passes_cut_short inverse hfront _)
      (Parser.Passes.append (Parser.passes_lines lua.tidy lines free _)
        (passes_cut_short inverse hback []))
    rw [← hstart, ← hend] at passes
    have hne : dashBrackets.around (BuiltInOracle.bracket.startText id) ++
        (body ++ dashBrackets.around finish) ≠ [] := by simp [Comment.around, dashBrackets]
    have reads := Parser.Reads.plain passes
    rw [Parser.plainTail, if_neg hne] at reads
    exact Parser.parse_eq_ok_iff.mpr ⟨_, reads, rfl⟩

/-- Of the two oracles' markers, one line between them, only those in words are found again in
comments between dashes with brackets. -/
theorem parse_framed_lua :
    (Parser.ofPreset .lua (.patterns BuiltInOracle.words.patterns) false).parse
        "--[[ PROTECTED REGION ID(A) START ]]x\n--[[ PROTECTED REGION END ]]".toList =
      .ok (.ofSegments [.region ['A'] "--[[ PROTECTED REGION ID(A) START ]]".toList ['x', '\n']
        "--[[ PROTECTED REGION END ]]".toList]) ∧
    (Parser.ofPreset .lua (.patterns BuiltInOracle.bracket.patterns) false).parse
        "--[[ [[region:A]] ]]x\n--[[ [[end]] ]]".toList =
      .ok (.ofSegments [.plain "--[[ [[region:A]] ]]x\n--[[ [[end]] ]]".toList]) := by
  have name : BuiltInOracle.Identifies ['A'] := by decide
  have free : ∀ k ∈ lua.lexicon, ¬ k.opening <:+: ['x', '\n'] := by decide
  have hc : dashBrackets ∈ lua.lexicon := List.mem_cons_self
  have hwords := (parse_framed hc .words false name List.mem_cons_self (.inr rfl) free).1 (by simp)
  have hbrackets :=
    (parse_framed hc .bracket false name List.mem_cons_self (.inr rfl) free).2 ⟨rfl, rfl⟩
  have hwordsText : dashBrackets.around (BuiltInOracle.words.startText ['A']) ++
      (['x', '\n'] ++ dashBrackets.around "PROTECTED REGION END".toList) =
      "--[[ PROTECTED REGION ID(A) START ]]x\n--[[ PROTECTED REGION END ]]".toList := by
    decide +kernel
  have hbracketsText : dashBrackets.around (BuiltInOracle.bracket.startText ['A']) ++
      (['x', '\n'] ++ dashBrackets.around ("[[end".toList ++ "]]".toList)) =
      "--[[ [[region:A]] ]]x\n--[[ [[end]] ]]".toList := by
    decide +kernel
  rw [hwordsText] at hwords
  rw [hbracketsText] at hbrackets
  exact ⟨hwords, hbrackets⟩

/-- Not every comment of every preset carries the markers of both oracles. -/
theorem not_forall_parse_framed :
    ¬ ∀ (p : Preset) (c : Comment) (o : BuiltInOracle) (id body finish : Text), c ∈ p.lexicon →
      BuiltInOracle.Identifies id → body.Lines → (∀ k ∈ p.lexicon, ¬ k.opening <:+: body) →
      finish ∈ o.finishTexts id →
      (Parser.ofPreset p (.patterns o.patterns) false).parse
          (c.around (o.startText id) ++ (body ++ c.around finish)) =
        .ok (.ofSegments [.region id (c.around (o.startText id)) body (c.around finish)]) := by
  intro hall
  have hregion := hall .lua dashBrackets .bracket ['A'] ['x', '\n'] "[[end]]".toList
    List.mem_cons_self (by decide) (.inr rfl) (by decide) List.mem_cons_self
  revert hregion
  decide +kernel

end Preset
end ProtectedRegions
