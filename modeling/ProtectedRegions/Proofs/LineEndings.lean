import Mathlib.Data.List.DropRight
import ProtectedRegions.Proofs.Coping
import ProtectedRegions.Proofs.Markers

/-
  Line endings — a text whose lines end in another way

  The same text can be kept with line feeds, with carriage returns in front of them, or
  with carriage returns alone. Each step of a parse looks at line endings in its own way:
  a comment may end with its line, a token must not be found across one, the body of a
  comment is trimmed and may go over several lines, and a fault is reported with its
  line. Positions are not the same in the two texts, and are compared by what stands in
  front of them.

  What is proved:
    1. `breakOn_relined`, `breakLine_relined`, `trim_relined`, `lineOf_relined` — each cut
       of a text comes to the same place in the relined text.
    2. `classify_relined` — a built-in oracle answers the relined body alike.
    3. `Cuts.relined`, `seek_relined`, `split_relined` — so do comments, the search for a
       marker, and the pairing of markers.
    4. `parse_relined` — a text parses alike, whatever ends its lines.

  A text with carriage returns of its own is left out: the line feed of a pair would be
  replaced too, which makes two line endings of one.
-/

namespace ProtectedRegions

/-- How lines end where they do not end with a line feed: with a carriage return in front of
it, or with a carriage return alone. -/
inductive LineEnding where
  | both
  | carriage
  deriving DecidableEq, Repr

def LineEnding.text : LineEnding → Text
  | .both => ['\r', '\n']
  | .carriage => ['\r']

namespace Text

/-- The text with another line ending in the place of each line feed. -/
def relined (e : LineEnding) (t : Text) : Text :=
  t.flatMap fun c => if c = '\n' then e.text else [c]

/-- No line ends inside the text. -/
def Unbroken (t : Text) : Prop := '\r' ∉ t ∧ '\n' ∉ t

instance (t : Text) : Decidable t.Unbroken := inferInstanceAs (Decidable (_ ∧ _))

variable {e : LineEnding} {t token : Text}

@[simp] theorem relined_nil (e : LineEnding) : relined e [] = [] := rfl

@[simp] theorem relined_append (e : LineEnding) (s t : Text) :
    relined e (s ++ t) = relined e s ++ relined e t := List.flatMap_append

theorem relined_feed (e : LineEnding) (t : Text) :
    relined e ('\n' :: t) = e.text ++ relined e t := by
  simp [relined]

theorem relined_cons {c : Char} (h : c ≠ '\n') (e : LineEnding) (t : Text) :
    relined e (c :: t) = c :: relined e t := by
  simp [relined, h]

theorem relined_of_feedless (h : '\n' ∉ t) : relined e t = t := by
  induction t with
  | nil => rfl
  | cons c t ih =>
    rw [List.mem_cons, not_or] at h
    rw [relined_cons (Ne.symm h.1), ih h.2]

@[simp] theorem relined_eq_nil_iff : relined e t = [] ↔ t = [] := by
  cases t with
  | nil => simp
  | cons c t =>
    by_cases hc : c = '\n'
    · rw [hc, relined_feed]
      cases e <;> simp [LineEnding.text]
    · simp [relined_cons hc]

theorem mem_ending {c : Char} (h : c ∈ e.text) : c = '\r' ∨ c = '\n' := by
  cases e <;> simp [LineEnding.text] at h
  · exact h
  · exact .inl h

/-- A token that no line ends in does not begin where a line ends. -/
theorem Unbroken.not_begins (h : token.Unbroken) (hne : token ≠ []) {c : Char}
    (hc : c = '\r' ∨ c = '\n') : ¬ token <+: c :: t := by
  cases token with
  | nil => exact absurd rfl hne
  | cons d token =>
    intro hfront
    obtain ⟨rfl, -⟩ := List.cons_prefix_cons.mp hfront
    rcases hc with rfl | rfl
    · exact h.1 List.mem_cons_self
    · exact h.2 List.mem_cons_self

theorem Unbroken.tail {c : Char} (h : Unbroken (c :: token)) : token.Unbroken :=
  ⟨fun hr => h.1 (List.mem_cons_of_mem c hr), fun hn => h.2 (List.mem_cons_of_mem c hn)⟩

/-- What follows a token is relined apart from it. -/
theorem relined_eq_append_iff (h : token.Unbroken) {rest : Text} :
    relined e t = token ++ rest ↔ ∃ rest', t = token ++ rest' ∧ relined e rest' = rest := by
  constructor
  · intro heq
    induction token generalizing t with
    | nil => exact ⟨t, rfl, heq⟩
    | cons c token ih =>
      cases t with
      | nil => simp at heq
      | cons d t =>
        by_cases hd : d = '\n'
        · have hfront : c :: token <+: relined e (d :: t) := ⟨rest, heq.symm⟩
          rw [hd, relined_feed] at hfront
          cases e <;> exact absurd hfront (h.not_begins (by simp) (.inl rfl))
        · rw [relined_cons hd, List.cons_append] at heq
          obtain ⟨rfl, htail⟩ := List.cons.inj heq
          obtain ⟨rest', rfl, hrest⟩ := ih h.tail htail
          exact ⟨rest', rfl, hrest⟩
  · rintro ⟨rest', rfl, rfl⟩
    rw [relined_append, relined_of_feedless h.2]

theorem prefix_relined_iff (h : token.Unbroken) : token <+: relined e t ↔ token <+: t := by
  constructor
  · intro ⟨rest, hrest⟩
    obtain ⟨rest', rfl, -⟩ := (relined_eq_append_iff h).mp hrest.symm
    exact List.prefix_append _ _
  · rintro ⟨rest, rfl⟩
    rw [relined_append, relined_of_feedless h.2]
    exact List.prefix_append _ _

theorem relined_eq_iff (h : token.Unbroken) : relined e t = token ↔ t = token := by
  have hiff : relined e t = token ++ [] ↔ ∃ rest', t = token ++ rest' ∧ relined e rest' = [] :=
    relined_eq_append_iff h
  simpa using hiff

/-! ## Cuts of a relined text -/

theorem breakOn_ending (h : token.Unbroken) (hne : token ≠ []) {front : Text}
    (hfront : ∀ c ∈ front, c = '\r' ∨ c = '\n') (t : Text) :
    breakOn token (front ++ t) = (breakOn token t).map fun cut => (front ++ cut.1, cut.2) := by
  induction front with
  | nil => simp
  | cons c front ih =>
    have hnot : ¬ token.isPrefixOf (c :: (front ++ t)) = true := fun hp =>
      h.not_begins hne (hfront c List.mem_cons_self) (List.isPrefixOf_iff_prefix.mp hp)
    rw [List.cons_append, breakOn, if_neg hnot,
      ih fun d hd => hfront d (List.mem_cons_of_mem c hd), Option.map_map]
    rfl

theorem breakOn_relined (h : token.Unbroken) (hne : token ≠ []) (t : Text) :
    breakOn token (relined e t) =
      (breakOn token t).map fun cut => (relined e cut.1, relined e cut.2) := by
  induction t with
  | nil => simp [breakOn, hne]
  | cons c t ih =>
    by_cases hc : c = '\n'
    · have hnot : ¬ token.isPrefixOf (c :: t) = true := fun hp =>
        h.not_begins hne (.inr hc) (List.isPrefixOf_iff_prefix.mp hp)
      -- the token is found at neither character of the new ending
      rw [breakOn, if_neg hnot, hc, relined_feed,
        breakOn_ending h hne fun d hd => mem_ending hd, ih]
      simp [Function.comp_def, relined_feed]
    · have hsame : token.isPrefixOf (c :: relined e t) = token.isPrefixOf (c :: t) := by
        rw [Bool.eq_iff_iff, List.isPrefixOf_iff_prefix, List.isPrefixOf_iff_prefix,
          ← relined_cons hc, prefix_relined_iff h]
      rw [relined_cons hc, breakOn, breakOn, hsame]
      by_cases hp : token.isPrefixOf (c :: t) = true
      · obtain ⟨rest, hrest⟩ := List.isPrefixOf_iff_prefix.mp hp
        have hrelined : c :: relined e t = token ++ relined e rest := by
          rw [← relined_cons hc, ← hrest, relined_append, relined_of_feedless h.2]
        rw [if_pos hp, if_pos hp, hrelined, ← hrest]
        simp
      · rw [if_neg hp, if_neg hp, ih]
        simp [Function.comp_def, relined_cons hc]

theorem breakLine_feed (t : Text) : breakLine ('\n' :: t) = ([], ['\n'], t) := by
  simp [breakLine]

theorem feed_not_mem_relined (t : Text) : '\n' ∉ relined .carriage t := by
  intro h
  obtain ⟨c, -, hc⟩ := List.mem_flatMap.mp h
  by_cases hfeed : c = '\n'
  · simp [hfeed, LineEnding.text] at hc
  · simp [hfeed, Ne.symm hfeed] at hc

/-- What follows a line ending in a relined text adds nothing to it. -/
theorem endsLine_ending (e : LineEnding) (t : Text) : EndsLine e.text (relined e t) := by
  cases e with
  | both => exact .inl rfl
  | carriage =>
    refine .inr (.inr (.inl ⟨rfl, fun hhead => ?_⟩))
    exact feed_not_mem_relined t (List.mem_of_mem_head? (by rw [hhead]; rfl))

theorem breakLine_relined (h : '\r' ∉ t) :
    breakLine (relined e t) =
      (relined e (breakLine t).1, relined e (breakLine t).2.1, relined e (breakLine t).2.2) := by
  induction t with
  | nil => rfl
  | cons c t ih =>
    rw [List.mem_cons, not_or] at h
    by_cases hc : c = '\n'
    · have hending : breakLine (e.text ++ relined e t) = ([], e.text, relined e t) :=
        breakLine_eq_iff.mpr ⟨rfl, by simp, endsLine_ending e t⟩
      rw [hc, relined_feed, breakLine_feed, hending]
      simp [relined_feed]
    · rw [relined_cons hc, breakLine_cons (Ne.symm h.1) hc, breakLine_cons (Ne.symm h.1) hc, ih h.2]
      simp [relined_cons hc]

theorem dropWhile_relined {p : Char → Bool} (h : p '\r' = p '\n') (t : Text) :
    (relined e t).dropWhile p = relined e (t.dropWhile p) := by
  induction t with
  | nil => rfl
  | cons c t ih =>
    by_cases hc : c = '\n'
    · by_cases hp : p '\n' = true
      · have hall : ∀ d ∈ e.text, p d = true := by
          intro d hd
          rcases mem_ending hd with rfl | rfl
          · exact h.trans hp
          · exact hp
        rw [hc, relined_feed, List.dropWhile_append_of_pos hall, ih, List.dropWhile_cons_of_pos hp]
      · obtain ⟨rest, hrest⟩ : ∃ rest, e.text = '\r' :: rest := by
          cases e
          · exact ⟨['\n'], rfl⟩
          · exact ⟨[], rfl⟩
        rw [hc, List.dropWhile_cons_of_neg hp, relined_feed, hrest, List.cons_append,
          List.dropWhile_cons_of_neg (by rwa [h])]
    · rw [relined_cons hc]
      by_cases hp : p c = true
      · rw [List.dropWhile_cons_of_pos hp, List.dropWhile_cons_of_pos hp, ih]
      · rw [List.dropWhile_cons_of_neg hp, List.dropWhile_cons_of_neg hp, relined_cons hc]

theorem takeWhile_relined {p : Char → Bool} (hr : p '\r' = false) (hn : p '\n' = false) (t : Text) :
    (relined e t).takeWhile p = t.takeWhile p := by
  induction t with
  | nil => rfl
  | cons c t ih =>
    by_cases hc : c = '\n'
    · rw [hc, relined_feed, List.takeWhile_cons_of_neg (by simp [hn])]
      cases e <;> rw [LineEnding.text, List.cons_append, List.takeWhile_cons_of_neg (by simp [hr])]
    · rw [relined_cons hc]
      by_cases hp : p c = true
      · rw [List.takeWhile_cons_of_pos hp, List.takeWhile_cons_of_pos hp, ih]
      · rw [List.takeWhile_cons_of_neg hp, List.takeWhile_cons_of_neg hp]

theorem rdropWhile_append {p : Char → Bool} {back : Text} (h : ∀ c ∈ back, p c = true) (t : Text) :
    (t ++ back).rdropWhile p = t.rdropWhile p := by
  have hback : ∀ c ∈ back.reverse, p c = true := fun c hc => h c (List.mem_reverse.mp hc)
  rw [List.rdropWhile, List.reverse_append, List.dropWhile_append_of_pos hback]
  rfl

theorem rdropWhile_relined (t : Text) :
    (relined e t).rdropWhile isBlank = relined e (t.rdropWhile isBlank) := by
  induction t using List.reverseRecOn with
  | nil => rfl
  | append_singleton t c ih =>
    rw [relined_append]
    by_cases hblank : isBlank c = true
    · have hall : ∀ d ∈ relined e [c], isBlank d = true := by
        intro d hd
        by_cases hc : c = '\n'
        · rw [hc, relined_feed] at hd
          rcases mem_ending (by simpa using hd) with rfl | rfl <;> rfl
        · rw [relined_cons hc] at hd
          obtain rfl := List.mem_singleton.mp hd
          exact hblank
      rw [rdropWhile_append hall, ih, List.rdropWhile_concat_pos _ _ _ hblank]
    · have hc : c ≠ '\n' := by
        rintro rfl
        exact hblank rfl
      rw [relined_cons hc, relined_nil, List.rdropWhile_concat_neg _ _ _ hblank,
        List.rdropWhile_concat_neg _ _ _ hblank, relined_append, relined_cons hc, relined_nil]

theorem trim_relined (e : LineEnding) (t : Text) : (relined e t).trim = relined e t.trim := by
  show ((relined e t).dropWhile isBlank).rdropWhile isBlank =
    relined e ((t.dropWhile isBlank).rdropWhile isBlank)
  rw [dropWhile_relined rfl, rdropWhile_relined]

theorem terminators_cons {c : Char} (hr : c ≠ '\r') (t : Text) :
    terminators (c :: t) = terminators t + if c = '\n' then 1 else 0 := by
  rw [terminators_of_not_pair (by rintro _ rfl; exact absurd rfl hr)]
  simp [hr]

theorem terminators_ending (e : LineEnding) (t : Text) :
    terminators (e.text ++ relined e t) = terminators (relined e t) + 1 := by
  cases e with
  | both => rw [LineEnding.text, List.cons_append, List.cons_append, List.nil_append, terminators]
  | carriage =>
    have hhead : ∀ rest, '\r' = '\r' → relined .carriage t = '\n' :: rest → False := by
      intro rest _ hrest
      exact feed_not_mem_relined t (by rw [hrest]; exact List.mem_cons_self)
    rw [LineEnding.text, List.cons_append, List.nil_append, terminators_of_not_pair hhead]
    rfl

/-- A line ending of either kind counts once. -/
theorem terminators_relined (h : '\r' ∉ t) : terminators (relined e t) = terminators t := by
  induction t with
  | nil => rfl
  | cons c t ih =>
    rw [List.mem_cons, not_or] at h
    by_cases hc : c = '\n'
    · rw [hc, relined_feed, terminators_ending, ih h.2, terminators_cons (by decide)]
      rfl
    · rw [relined_cons hc, terminators_cons (Ne.symm h.1), terminators_cons (Ne.symm h.1), ih h.2]

theorem lineOf_relined (h : '\r' ∉ t) (position : Nat) :
    (relined e t).lineOf (relined e (t.take position)).length = t.lineOf position := by
  have hcut : relined e t = relined e (t.take position) ++ relined e (t.drop position) := by
    rw [← relined_append, List.take_append_drop]
  have htake : (relined e t).take (relined e (t.take position)).length =
      relined e (t.take position) := by
    rw [hcut, List.take_left]
  have hfront : '\r' ∉ t.take position := fun hr => h (List.mem_of_mem_take hr)
  rw [lineOf, lineOf, htake, terminators_relined hfront]

end Text

/-! ## The built-in oracles on a relined body -/

namespace BuiltInOracle
open Text

variable {e : LineEnding} {front id token t : Text} {x : Option Text}

theorem exists_relined_iff {P : Text → Prop} (unbroken : front.Unbroken)
    (hP : ∀ rest, P (relined e rest) ↔ P rest) :
    (∃ rest, relined e t = front ++ rest ∧ P rest) ↔ ∃ rest, t = front ++ rest ∧ P rest := by
  constructor
  · intro ⟨rest, hrest, h⟩
    obtain ⟨rest', rfl, rfl⟩ := (relined_eq_append_iff unbroken).mp hrest
    exact ⟨rest', rfl, (hP rest').mp h⟩
  · intro ⟨rest, hrest, h⟩
    exact ⟨relined e rest, (relined_eq_append_iff unbroken).mpr ⟨rest, hrest, rfl⟩, (hP rest).mpr h⟩

theorem named_relined_iff (delimits : Delimits token) (unbroken : token.Unbroken) :
    Named id token (relined e t) ↔ Named id token t := by
  have hblank : isBlank '\r' = isBlank '\n' := rfl
  have hr : idSet.holds '\r' = false := rfl
  have hn : idSet.holds '\n' = false := rfl
  rw [named_iff delimits, named_iff delimits, dropWhile_relined hblank, takeWhile_relined hr hn,
    dropWhile_relined (hr.trans hn.symm), dropWhile_relined hblank, relined_eq_iff unbroken]

theorem blanks_relined_iff (delimits : Delimits token) (unbroken : token.Unbroken) :
    (∃ b, Blanks b ∧ relined e t = b ++ token) ↔ ∃ b, Blanks b ∧ t = b ++ token := by
  have hblank : isBlank '\r' = isBlank '\n' := rfl
  rw [blanks_append_iff delimits, blanks_append_iff delimits, dropWhile_relined hblank,
    relined_eq_iff unbroken]

theorem exists_named_relined_iff (delimits : Delimits token) (unbroken : token.Unbroken)
    (t : Text) :
    (∃ id, x = some id ∧ Named id token (relined e t)) ↔ ∃ id, x = some id ∧ Named id token t := by
  simp only [named_relined_iff delimits unbroken]

theorem answer_framed_relined {start : Expression} {back : Text} (delimits : Delimits back)
    (names : start.names = [(idGroup, 1)])
    (pattern : start.pattern = sequence (Pattern.spelled front ++
      blanks :: identifier :: blanks :: Pattern.spelled back))
    (unbroken : front.Unbroken ∧ back.Unbroken) (e : LineEnding) (t : Text) :
    start.answer (relined e t) = start.answer t := by
  refine Option.ext fun answer => ?_
  rw [answer_framed_iff delimits names pattern, answer_framed_iff delimits names pattern]
  exact exists_relined_iff unbroken.1 (exists_named_relined_iff delimits unbroken.2)

theorem bracketFinish_relined (e : LineEnding) (t : Text) :
    bracketFinish.answer (relined e t) = bracketFinish.answer t := by
  refine Option.ext fun x => ?_
  rw [answer_bracketFinish_iff, answer_bracketFinish_iff]
  refine exists_relined_iff (by decide) fun rest => or_congr ?_ (and_congr_right fun _ => ?_)
  · have hcolon : Unbroken [':'] := by decide
    exact exists_relined_iff hcolon (exists_named_relined_iff delimits_brackets (by decide))
  · exact blanks_relined_iff delimits_brackets (by decide)

theorem wordsFinish_relined (e : LineEnding) (t : Text) :
    wordsFinish.answer (relined e t) = wordsFinish.answer t := by
  refine Option.ext fun x => ?_
  rw [answer_wordsFinish_iff, answer_wordsFinish_iff, relined_eq_iff (by decide)]

theorem classify_relined (b : BuiltInOracle) (e : LineEnding) (body : Text) :
    b.patterns.classify (relined e body) = b.patterns.classify body := by
  have htrim : (relined e body).trim = relined e body.trim := trim_relined e body
  cases b with
  | bracket =>
    refine PatternOracle.classify_congr rfl ?_ ?_
    · rw [htrim]
      exact answer_framed_relined delimits_brackets rfl bracketStart_pattern (by decide) e body.trim
    · rw [htrim]
      exact bracketFinish_relined e body.trim
  | words =>
    refine PatternOracle.classify_congr rfl ?_ ?_
    · rw [htrim]
      exact answer_framed_relined delimits_start rfl wordsStart_pattern (by decide) e body.trim
    · rw [htrim]
      exact wordsFinish_relined e body.trim

end BuiltInOracle

/-! ## Comments of a relined text -/

def Cut.relined (e : LineEnding) (c : Cut) : Cut :=
  ⟨c.opening.relined e, c.body.relined e, c.ending.relined e, c.rest.relined e⟩

theorem Cut.comment_relined (e : LineEnding) (c : Cut) :
    (c.relined e).comment = c.comment.relined e := by
  simp [Cut.comment, Cut.relined]

/-- A comment that ends with its line or with a token in which no line ends. -/
def Closing.Unbroken (closing : Closing) : Prop :=
  closing = .line ∨ ∃ token nonempty, closing = .token token nonempty ∧ token.Unbroken

theorem Closing.split_relined {closing : Closing} {e : LineEnding} {t : Text}
    (hclosing : closing.Unbroken) (ht : '\r' ∉ t) :
    closing.split (t.relined e) = (closing.split t).map fun parts =>
      (parts.1.relined e, parts.2.1.relined e, parts.2.2.relined e) := by
  rcases hclosing with rfl | ⟨token, nonempty, rfl, unbroken⟩
  · rw [Closing.split, Closing.split, Text.breakLine_relined ht]
    rfl
  · rw [Closing.split, Closing.split, Text.breakOn_relined unbroken nonempty]
    cases Text.breakOn token t with
    | none => rfl
    | some cut =>
      show Except.ok _ = Except.ok (_, token.relined e, _)
      rw [Text.relined_of_feedless unbroken.2]

namespace Lexicon
open Text

variable {lexicon : Lexicon} {e : LineEnding} {t : Text}

/-- No line ends inside of a token of the lexicon. -/
def Unbroken (lexicon : Lexicon) : Prop := ∀ c ∈ lexicon, c.opening.Unbroken ∧ c.closing.Unbroken

theorem Unbroken.usable (unbroken : lexicon.Unbroken) : lexicon.Usable := by
  intro c hc v hv
  rcases (unbroken c hc).2 with hline | ⟨token, nonempty, htoken, -⟩
  · simp [hv] at hline
  · simp [hv] at htoken

theorem Unbroken.bare (unbroken : lexicon.Unbroken) {c : Char} (hc : c = '\r' ∨ c = '\n')
    (t : Text) :
    lexicon.match? (c :: t) = none :=
  match_eq_none_iff.mpr fun k hk => (unbroken k hk).1.not_begins k.nonempty hc

theorem match_relined (unbroken : lexicon.Unbroken) (t : Text) :
    lexicon.match? (relined e t) = lexicon.match? t := by
  have hsame : ∀ c ∈ lexicon, (relined e t).startsWith c.opening = t.startsWith c.opening := by
    intro c hc
    rw [Bool.eq_iff_iff, startsWith_iff, startsWith_iff, prefix_relined_iff (unbroken c hc).1]
  refine List.foldl_ext _ _ none fun best c hc => ?_
  unfold better
  rw [hsame c hc]

/-- A comment is cut off a relined text with its lines ended in the other way. -/
theorem Cuts.relined {cut : Cut} (unbroken : lexicon.Unbroken) (h : lexicon.Cuts t cut)
    (ht : '\r' ∉ t) :
    lexicon.Cuts (relined e t) (cut.relined e) := by
  obtain ⟨c, hmatch, hcut⟩ := h
  obtain ⟨hopening, hclosing⟩ := unbroken c (match_eq_some_iff.mp hmatch).mem
  refine ⟨c, (match_relined unbroken t).trans hmatch, ?_⟩
  obtain ⟨rest, rfl⟩ := startsWith_iff.mp (match_startsWith hmatch)
  have hrest : '\r' ∉ rest := fun hr => ht (List.mem_append_right _ hr)
  rw [Comment.cut, List.drop_left] at hcut
  rw [Comment.cut, relined_append, relined_of_feedless hopening.2, List.drop_left,
    Closing.split_relined hclosing hrest]
  cases hsplit : c.closing.split rest with
  | error d => simp [hsplit, Except.map] at hcut
  | ok parts =>
    rw [hsplit] at hcut
    obtain rfl := Except.ok.inj hcut
    simp [Except.map, Cut.relined, relined_of_feedless hopening.2]

end Lexicon

theorem Preset.unbroken (p : Preset) : p.lexicon.Unbroken := by
  have hslashes : slashes.opening.Unbroken ∧ slashes.closing.Unbroken := ⟨by decide, .inl rfl⟩
  have hhash : hashSign.opening.Unbroken ∧ hashSign.closing.Unbroken := ⟨by decide, .inl rfl⟩
  have hdashes : dashes.opening.Unbroken ∧ dashes.closing.Unbroken := ⟨by decide, .inl rfl⟩
  have hstar : slashStar.opening.Unbroken ∧ slashStar.closing.Unbroken :=
    ⟨by decide, .inr ⟨_, _, rfl, by decide⟩⟩
  have hbrackets : dashBrackets.opening.Unbroken ∧ dashBrackets.closing.Unbroken :=
    ⟨by decide, .inr ⟨_, _, rfl, by decide⟩⟩
  have hangle : angle.opening.Unbroken ∧ angle.closing.Unbroken :=
    ⟨by decide, .inr ⟨_, _, rfl, by decide⟩⟩
  cases p <;> simp [lexicon, Lexicon.Unbroken, hslashes, hhash, hdashes, hstar, hbrackets, hangle]

/-! ## Parsing a relined text -/

def Find.relined (e : LineEnding) (f : Find) : Find :=
  ⟨f.before.relined e, f.marker, f.comment.relined e, f.rest.relined e⟩

def Segment.relined (e : LineEnding) (s : Segment) : Segment :=
  ⟨s.content.relined e, s.id, s.startMarker.relined e, s.endMarker.relined e⟩

def Document.relined (e : LineEnding) (d : Document) : Document :=
  .ofSegments (d.segments.map (Segment.relined e))

theorem Document.ids_relined (e : LineEnding) (d : Document) : (d.relined e).ids = d.ids := by
  simp [Document.relined, Document.ids, List.filterMap_map, Function.comp_def, Segment.relined]

/-- The open region in a text whose lines end in another way: its marker, and the place that the
marker has there. -/
def OpenRegion.relined (e : LineEnding) (whole : Text) (r : OpenRegion) : OpenRegion :=
  ⟨r.id, r.marker.relined e, (Text.relined e (whole.take r.position)).length⟩

namespace Parser
open Text

variable {p : Parser} {e : LineEnding} {t : Text}

theorem seek_ending (unbroken : p.lexicon.Unbroken) {front : Text}
    (hfront : ∀ c ∈ front, c = '\r' ∨ c = '\n') (passed t : Text) :
    p.seek passed (front ++ t) = p.seek (front.reverse ++ passed) t := by
  induction front generalizing passed with
  | nil => rfl
  | cons c front ih =>
    have hbare := unbroken.bare (hfront c List.mem_cons_self) (front ++ t)
    rw [List.cons_append, seek_bare hbare, ih fun d hd => hfront d (List.mem_cons_of_mem c hd)]
    simp

theorem seek_relined (unbroken : p.lexicon.Unbroken)
    (alike : ∀ body, p.oracle.classify (relined e body) = p.oracle.classify body) (passed : Text)
    (ht : '\r' ∉ t) :
    p.seek (relined e passed.reverse).reverse (relined e t) =
      (p.seek passed t).map (Option.map (Find.relined e)) := by
  fun_induction Parser.seek p passed t with
  | case1 => exact seek_nil _
  | case2 passed c rest hm ih =>
    rw [List.mem_cons, not_or] at ht
    rw [← ih ht.2, List.reverse_cons, relined_append]
    by_cases hc : c = '\n'
    · -- one step over the line feed is a step over each character of the new ending
      rw [hc, relined_feed, seek_ending unbroken fun d hd => mem_ending hd, relined_feed]
      simp
    · have hbare : p.lexicon.match? (c :: relined e rest) = none := by
        rw [← relined_cons hc, Lexicon.match_relined unbroken, hm]
      rw [relined_cons hc, seek_bare hbare, relined_cons hc]
      simp
  | case3 passed x rest c hm d hc =>
    have husable := unbroken.usable c (Lexicon.match_eq_some_iff.mp hm).mem
    obtain ⟨body, ending, after, hsplit⟩ :=
      Closing.split_ok husable ((x :: rest).drop c.opening.length)
    simp [Comment.cut, hsplit, Except.map] at hc
  | case4 passed x rest c hm cut hc d hd =>
    have hcuts := Lexicon.Cuts.relined (e := e) unbroken ⟨c, hm, hc⟩ ht
    have hbody : p.oracle.classify (cut.relined e).body = .error d := (alike cut.body).trans hd
    rw [seek_cuts hcuts, hbody]
    rfl
  | case5 passed x rest c hm cut hc m hmarker =>
    have hcuts := Lexicon.Cuts.relined (e := e) unbroken ⟨c, hm, hc⟩ ht
    have hbody : p.oracle.classify (cut.relined e).body = .ok (some m) :=
      (alike cut.body).trans hmarker
    rw [seek_cuts hcuts, hbody, Cut.comment_relined, List.reverse_reverse]
    rfl
  | case6 passed x rest c hm cut hc hquiet ih =>
    have hcuts := Lexicon.Cuts.relined (e := e) unbroken ⟨c, hm, hc⟩ ht
    have hbody : p.oracle.classify (cut.relined e).body = .ok none := (alike cut.body).trans hquiet
    have hrest : '\r' ∉ cut.rest := by
      rw [← Lexicon.Cuts.text ⟨c, hm, hc⟩] at ht
      exact fun hr => ht (List.mem_append_right _ hr)
    rw [seek_cuts hcuts, hbody, Cut.comment_relined, ← ih hrest, List.reverse_append,
      List.reverse_reverse, relined_append, List.reverse_append, List.reverse_reverse]
    rfl

theorem plainTail_relined (e : LineEnding) (t : Text) :
    plainTail (relined e t) = (plainTail t).map (Segment.relined e) := by
  by_cases h : t = []
  · rw [h]
    rfl
  · have hne : relined e t ≠ [] := fun hnil => h (relined_eq_nil_iff.mp hnil)
    rw [plainTail, plainTail, if_neg h, if_neg hne]
    rfl

/-- A marker has the same effect, at the place that it has in the relined text. -/
theorem pair_relined (whole : Text) (opened : Option OpenRegion) (find : Find) (position : Nat) :
    pair (opened.map (OpenRegion.relined e whole)) (find.relined e)
        (relined e (whole.take position)).length =
      (pair opened find position).map fun r =>
        (r.1.map (OpenRegion.relined e whole), r.2.map (Segment.relined e)) := by
  obtain ⟨before, ⟨kind, id⟩, comment, rest⟩ := find
  cases kind with
  | start =>
    rcases id with _ | _ | ⟨c, id⟩ <;> cases opened <;>
      simp [pair, Find.relined, OpenRegion.relined, plainTail_relined, Except.map]
  | finish =>
    cases opened with
    | none => rfl
    | some r =>
      cases id with
      | none => rfl
      | some id =>
        by_cases hid : id = r.id <;>
          simp [pair, Find.relined, OpenRegion.relined, Except.map, hid, Segment.region,
            Segment.relined]
  | other name => rfl

theorem length_relined_take {whole piece rest : Text} {position : Nat}
    (h : whole.drop position = piece ++ rest) :
    (relined e (whole.take position)).length + (relined e piece).length =
      (relined e (whole.take (position + piece.length))).length := by
  rw [List.take_add, h, List.take_left, relined_append, List.length_append]

theorem drop_find {whole t : Text} {position : Nat} {find : Find} (ht : whole.drop position = t)
    (hs : p.seek [] t = .ok (some find)) :
    whole.drop (position + find.before.length) = find.comment ++ find.rest ∧
      whole.drop (position + find.before.length + find.comment.length) = find.rest := by
  have htext : whole.drop position = find.before ++ (find.comment ++ find.rest) := by
    simpa using ht.trans (seek_text hs).symm
  have hcomment : whole.drop (position + find.before.length) = find.comment ++ find.rest := by
    rw [← List.drop_drop, htext, List.drop_left]
  refine ⟨hcomment, ?_⟩
  rw [← List.drop_drop, hcomment, List.drop_left]

theorem split_relined_of_find {whole t : Text} {opened : Option OpenRegion} {position : Nat}
    {find : Find} (hwhole : '\r' ∉ whole) (ht : whole.drop position = t)
    (hs : p.seek [] t = .ok (some find))
    (hfound : p.seek [] (relined e t) = .ok (some (find.relined e))) :
    p.split (relined e whole) (opened.map (OpenRegion.relined e whole))
        (relined e (whole.take position)).length (relined e t) =
      match pair opened find (position + find.before.length) with
      | .error cause => .error (.malformed cause (whole.lineOf (position + find.before.length)))
      | .ok (opened', segments) =>
        match p.split (relined e whole) (opened'.map (OpenRegion.relined e whole))
            (relined e (whole.take (position + find.before.length + find.comment.length))).length
            (relined e find.rest) with
        | .error error => .error error
        | .ok rest => .ok (segments.map (Segment.relined e) ++ rest) := by
  obtain ⟨hcomment, -⟩ := drop_find ht hs
  have htext : whole.drop position = find.before ++ (find.comment ++ find.rest) := by
    simpa using ht.trans (seek_text hs).symm
  have hplace : (relined e (whole.take position)).length + (find.relined e).before.length =
      (relined e (whole.take (position + find.before.length))).length := length_relined_take htext
  have hbehind : (relined e (whole.take (position + find.before.length))).length +
      (find.relined e).comment.length =
        (relined e (whole.take (position + find.before.length + find.comment.length))).length :=
    length_relined_take hcomment
  rw [split_of_seek_some hfound, hplace, pair_relined, hbehind, lineOf_relined hwhole]
  cases pair opened find (position + find.before.length) <;> rfl

theorem split_relined (unbroken : p.lexicon.Unbroken)
    (alike : ∀ body, p.oracle.classify (relined e body) = p.oracle.classify body) {whole t : Text}
    (opened : Option OpenRegion) {position : Nat} (hwhole : '\r' ∉ whole)
    (ht : whole.drop position = t) :
    p.split (relined e whole) (opened.map (OpenRegion.relined e whole))
        (relined e (whole.take position)).length (relined e t) =
      (p.split whole opened position t).map (List.map (Segment.relined e)) := by
  have hseek : ∀ {t : Text} {position : Nat} {found : Except Defect (Option Find)},
      whole.drop position = t → p.seek [] t = found →
        p.seek [] (relined e t) = found.map (Option.map (Find.relined e)) := by
    rintro t position found rfl rfl
    exact seek_relined unbroken alike [] fun hr => hwhole (List.mem_of_mem_drop hr)
  fun_induction Parser.split p whole opened position t with
  | case1 opened position t d hs =>
    rw [split_of_seek_error (hseek ht hs)]
    rfl
  | case2 position t hs r =>
    rw [split_of_seek_none (hseek ht hs)]
    show Except.error (ParseError.malformed (.unterminated r.id) _) = _
    rw [OpenRegion.relined, lineOf_relined hwhole]
    rfl
  | case3 position t hs =>
    rw [split_of_seek_none (hseek ht hs)]
    show Except.ok (plainTail _) = Except.ok _
    rw [plainTail_relined]
  | case4 opened position t find hs markerPosition cause hpair =>
    rw [split_relined_of_find hwhole ht hs (hseek ht hs), hpair]
    rfl
  | case5 opened position t find hs markerPosition opened' segments hpair error hrest ih =>
    rw [split_relined_of_find hwhole ht hs (hseek ht hs), hpair]
    simp only
    rw [ih (drop_find ht hs).2, hrest]
    rfl
  | case6 opened position t find hs markerPosition opened' segments hpair rest hrest ih =>
    rw [split_relined_of_find hwhole ht hs (hseek ht hs), hpair]
    simp only
    rw [ih (drop_find ht hs).2, hrest]
    simp [Except.map]

theorem parse_relined_eq (unbroken : p.lexicon.Unbroken)
    (alike : ∀ body, p.oracle.classify (relined e body) = p.oracle.classify body) (ht : '\r' ∉ t) :
    p.parse (relined e t) = (p.parse t).map (Document.relined e) := by
  have hsplit : p.split (relined e t) none 0 (relined e t) =
      (p.split t none 0 t).map (List.map (Segment.relined e)) :=
    split_relined unbroken alike none ht List.drop_zero
  rw [parse, parse, hsplit]
  cases p.split t none 0 t with
  | error error => rfl
  | ok segments =>
    show Except.ok (Document.ofSegments _) = Except.ok (Document.relined e _)
    rw [Document.relined, Document.segments_ofSegments]

/-- Whatever ends the lines of a text, it parses alike with a built-in oracle and tokens in
which no line ends: into the same segments, with the lines ended in that way, or with the same
fault on the same line. -/
theorem parse_relined {b : BuiltInOracle} (unbroken : p.lexicon.Unbroken)
    (builtIn : p.oracle = .patterns b.patterns) (ht : '\r' ∉ t) (e : LineEnding) :
    (∀ d, p.parse t = .ok d → p.parse (relined e t) = .ok (d.relined e) ∧
      (d.relined e).segments = d.segments.map (Segment.relined e) ∧ (d.relined e).ids = d.ids) ∧
    ∀ error, p.parse t = .error error → ∃ cause line, error = .malformed cause line ∧
      p.parse (relined e t) = .error (.malformed cause line) := by
  have alike : ∀ body, p.oracle.classify (relined e body) = p.oracle.classify body := by
    intro body
    rw [builtIn]
    exact b.classify_relined e body
  have hparse := parse_relined_eq unbroken alike ht
  refine ⟨fun d hd => ⟨?_, Document.segments_ofSegments _, d.ids_relined e⟩, fun error herror => ?_⟩
  · rw [hparse, hd]
    rfl
  · rcases total_of_builtIn unbroken.usable builtIn t with ⟨d, hd⟩ | ⟨cause, line, hmalformed⟩
    · simp [hd] at herror
    · refine ⟨cause, line, Except.error.inj (herror.symm.trans hmalformed), ?_⟩
      rw [hparse, hmalformed]
      rfl

/-- A region whose start marker goes over two lines. -/
def brokenMarker : Text := "/*[[region:\nA ]]*/x\n//[[end]]\n".toList

theorem parse_relined_brokenMarker :
    '\r' ∉ brokenMarker ∧
      (ofPreset .cLike .default false).parse (relined .both brokenMarker) =
        .ok (.ofSegments [.region ['A'] "/*[[region:\r\nA ]]*/".toList "x\r\n".toList
          "//[[end]]\r\n".toList]) := by
  have hparse : (ofPreset .cLike .default false).parse brokenMarker =
      .ok (.ofSegments [.region ['A'] "/*[[region:\nA ]]*/".toList "x\n".toList
        "//[[end]]\n".toList]) := by
    decide +kernel
  have hfree : '\r' ∉ brokenMarker := by decide
  have builtIn : (ofPreset .cLike .default false).oracle =
      .patterns BuiltInOracle.bracket.patterns := rfl
  obtain ⟨hok, -⟩ := parse_relined (Preset.unbroken .cLike) builtIn hfree .both
  exact ⟨hfree, (hok _ hparse).1⟩

end Parser
end ProtectedRegions
