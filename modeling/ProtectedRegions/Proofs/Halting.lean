import ProtectedRegions.Proofs.Cutting

/-
  Halting — the places at which the walk over a text comes to stand

  A parser goes through a text in steps. Where no comment begins a step is one
  character, and where one begins it is the whole comment, so the walk comes to
  stand at most places of a text but not within a comment. Where it stands depends
  on what follows: a token can begin in front of a place and end behind it.

  `Lexicon.Halts` says that the walk stands between a piece and what follows. If it
  does, then the piece is read in front of that as it is read alone, and nothing else
  has to be known of what follows.

  What is proved:
    1. `Halts.append`, `Halts.front` and `Halts.behind` — the places of a text, of
       its front and of its rest.
    2. `Halts.of_alone` — a place within a piece stays one when more text follows.
    3. `Passes.of_halts` and `Marks.of_halts` — what is read alone is read in front of
       every text before which the walk comes to stand.
    4. `Reads.mem_of_frames` — a region that stands at such a place is a segment of
       every reading of the text.
-/

namespace ProtectedRegions

namespace Lexicon

variable {lexicon : Lexicon} {cut : Cut} {c : Char} {piece a b t : Text}

/-- The walk over the piece comes to stand in front of `t`: the last comment that begins
in the piece ends there at the latest. -/
inductive Halts (lexicon : Lexicon) : Text → Text → Prop where
  | nil (t : Text) : Halts lexicon [] t
  | char {c : Char} {piece t : Text} (bare : lexicon.match? (c :: (piece ++ t)) = none)
      (tail : Halts lexicon piece t) : Halts lexicon (c :: piece) t
  | comment {cut : Cut} {piece t : Text} (cuts : lexicon.Cuts (cut.comment ++ (piece ++ t)) cut)
      (tail : Halts lexicon piece t) : Halts lexicon (cut.comment ++ piece) t

/-! ## One step -/

theorem Halts.of_bare (h : lexicon.Halts (c :: piece) t)
    (bare : lexicon.match? (c :: piece) = none) :
    lexicon.match? (c :: (piece ++ t)) = none ∧ lexicon.Halts piece t := by
  generalize hwhole : c :: piece = whole at h bare
  cases h with
  | nil => cases hwhole
  | char bare' tail =>
    obtain ⟨rfl, rfl⟩ := List.cons.inj hwhole
    exact ⟨bare', tail⟩
  | comment cuts => exact absurd bare (cuts.match_ne_none _)

theorem Halts.of_cuts (h : lexicon.Halts (cut.comment ++ piece) t)
    (cuts : lexicon.Cuts (cut.comment ++ piece) cut) :
    lexicon.Cuts (cut.comment ++ (piece ++ t)) { cut with rest := piece ++ t } ∧
      lexicon.Halts piece t := by
  generalize hwhole : cut.comment ++ piece = whole at h
  cases h with
  | nil => exact absurd (List.append_eq_nil_iff.mp hwhole).1 cuts.comment_ne_nil
  | @char c rest _ bare tail =>
    have hbare : lexicon.match? (cut.comment ++ (piece ++ t)) = none := by
      rw [← List.append_assoc, hwhole]
      exact bare
    exact absurd hbare (cuts.match_ne_none _)
  | @comment other rest _ cuts' tail =>
    -- the walk over the piece alone cuts the same comment off its front
    have hfront := cuts'.front
    rw [← hwhole] at hfront
    obtain rfl := hfront.unique cuts
    obtain rfl := List.append_cancel_left hwhole
    obtain ⟨opening, body, ending, behind⟩ := other
    obtain rfl : behind = piece ++ t := cuts'.rest_eq
    exact ⟨cuts', tail⟩

/-- A comment at the front of a text lies in front of the place where the walk stands. -/
theorem Halts.step (h : lexicon.Halts piece t) (hne : piece ≠ [])
    (cuts : lexicon.Cuts (piece ++ t) cut) :
    ∃ rest, piece = cut.comment ++ rest ∧ lexicon.Halts rest t := by
  cases h with
  | nil => exact absurd rfl hne
  | char bare tail =>
    obtain ⟨k, hk, -⟩ := cuts
    cases bare.symm.trans hk
  | comment cuts' tail =>
    rw [List.append_assoc] at cuts
    obtain rfl := cuts'.unique cuts
    exact ⟨_, rfl, tail⟩

/-! ## Places of a text -/

theorem Halts.append (ha : lexicon.Halts a (b ++ t)) (hb : lexicon.Halts b t) :
    lexicon.Halts (a ++ b) t := by
  generalize hwhole : b ++ t = whole at ha
  induction ha with
  | nil => exact hb
  | char bare _ ih =>
    subst hwhole
    rw [← List.append_assoc] at bare
    exact .char bare (ih rfl)
  | comment cuts _ ih =>
    subst hwhole
    rw [← List.append_assoc _ b] at cuts
    rw [List.append_assoc]
    exact .comment cuts (ih rfl)

theorem Halts.front {after : Text} (h : lexicon.Halts a (t ++ after)) : lexicon.Halts a t := by
  generalize hwhole : t ++ after = whole at h
  induction h with
  | nil => exact .nil t
  | char bare _ ih =>
    subst hwhole
    rw [← List.append_assoc, ← List.cons_append] at bare
    exact .char (match_eq_none_of_append bare) (ih rfl)
  | @comment cut piece _ cuts _ ih =>
    subst hwhole
    rw [← List.append_assoc piece] at cuts
    exact @Halts.comment lexicon { cut with rest := piece ++ t } piece t cuts.front (ih rfl)

/-- Of two places the walk comes to the one in front first. -/
theorem Halts.behind (ha : lexicon.Halts a (b ++ t)) (hab : lexicon.Halts (a ++ b) t) :
    lexicon.Halts b t := by
  generalize hwhole : b ++ t = whole at ha
  induction ha with
  | nil => exact hab
  | @char c piece _ bare _ ih =>
    subst hwhole
    rw [← List.append_assoc, ← List.cons_append] at bare
    exact ih (hab.of_bare (match_eq_none_of_append bare)).2 rfl
  | @comment cut piece _ cuts _ ih =>
    subst hwhole
    rw [← List.append_assoc piece] at cuts
    rw [List.append_assoc] at hab
    exact ih (@Halts.of_cuts lexicon { cut with rest := piece ++ b } _ _ hab cuts.front).2 rfl

/-- A place within a piece stays one in front of a text, if the end of the piece is one
there. -/
theorem Halts.of_alone (ha : lexicon.Halts a b) (hab : lexicon.Halts (a ++ b) t) :
    lexicon.Halts a (b ++ t) := by
  induction ha with
  | nil => exact .nil _
  | char bare _ ih =>
    rw [List.cons_append] at hab
    obtain ⟨bare', hrest⟩ := hab.of_bare bare
    rw [List.append_assoc] at bare'
    exact .char bare' (ih hrest)
  | @comment cut piece b cuts _ ih =>
    rw [List.append_assoc] at hab
    obtain ⟨cuts', hrest⟩ := hab.of_cuts cuts
    rw [List.append_assoc] at cuts'
    exact @Halts.comment lexicon { cut with rest := piece ++ (b ++ t) } piece _ cuts' (ih hrest)

/-- At the front of a piece the walk makes a step, if it comes to stand behind it. -/
theorem Halts.bare_or_cuts (h : lexicon.Halts piece t) (hne : piece ≠ []) :
    lexicon.match? (piece ++ t) = none ∨ ∃ cut, lexicon.Cuts (piece ++ t) cut := by
  cases h with
  | nil => exact absurd rfl hne
  | char bare => exact .inl bare
  | comment cuts =>
    rw [← List.append_assoc] at cuts
    exact .inr ⟨_, cuts⟩

theorem halts_iff_of_cuts (hne : piece ≠ []) (cuts : lexicon.Cuts (piece ++ t) cut) :
    lexicon.Halts piece t ↔
      cut.comment <+: piece ∧ lexicon.Halts (piece.drop cut.comment.length) t := by
  constructor
  · intro h
    obtain ⟨rest, rfl, hrest⟩ := h.step hne cuts
    rw [List.drop_left]
    exact ⟨List.prefix_append _ _, hrest⟩
  · rintro ⟨⟨rest, rfl⟩, hrest⟩
    rw [List.drop_left] at hrest
    rw [List.append_assoc] at cuts
    exact .comment cuts hrest

/-- Whether the walk comes to stand is found out by walking. -/
instance decidableHalts (lexicon : Lexicon) (t : Text) :
    (piece : Text) → Decidable (lexicon.Halts piece t)
  | [] => isTrue (.nil t)
  | c :: piece =>
    match hm : lexicon.match? (c :: piece ++ t) with
    | none =>
      have := decidableHalts lexicon t piece
      decidable_of_iff (lexicon.Halts piece t)
        ⟨.char hm, fun h => (h.of_bare (match_eq_none_of_append hm)).2⟩
    | some k =>
      match hc : k.cut (c :: piece ++ t) with
      | .error d => isFalse fun h => by
        rcases h.bare_or_cuts (List.cons_ne_nil c piece) with hbare | ⟨cut, k', hk', hcut⟩
        · cases hbare.symm.trans hm
        · obtain rfl := Option.some.inj (hm.symm.trans hk')
          cases hc.symm.trans hcut
      | .ok cut =>
        have hcuts : lexicon.Cuts (c :: piece ++ t) cut := ⟨k, hm, hc⟩
        have hpos : 0 < cut.comment.length := List.length_pos_iff.mpr hcuts.comment_ne_nil
        have := decidableHalts lexicon t ((c :: piece).drop cut.comment.length)
        decidable_of_iff _ (halts_iff_of_cuts (List.cons_ne_nil c piece) hcuts).symm
termination_by piece => piece.length
decreasing_by
  · simp
  · simp only [List.length_drop, List.length_cons]
    omega

theorem Cuts.halts (h : lexicon.Cuts (cut.comment ++ t) cut) : lexicon.Halts cut.comment t := by
  have halts : lexicon.Halts (cut.comment ++ []) t := .comment h (.nil t)
  rwa [List.append_nil] at halts

/-- The walk comes to stand between any two of the pieces of a text. -/
def Divides (lexicon : Lexicon) : List Text → Prop
  | [] => True
  | piece :: pieces => lexicon.Halts piece pieces.flatten ∧ Divides lexicon pieces

instance decidableDivides (lexicon : Lexicon) :
    (pieces : List Text) → Decidable (lexicon.Divides pieces)
  | [] => isTrue trivial
  | _ :: pieces =>
    have := decidableDivides lexicon pieces
    inferInstanceAs (Decidable (_ ∧ _))

theorem Divides.halts {first second : List Text} (h : lexicon.Divides (first ++ second)) :
    lexicon.Halts first.flatten second.flatten ∧ lexicon.Divides second := by
  induction first with
  | nil => exact ⟨.nil _, h⟩
  | cons piece first ih =>
    rw [List.cons_append] at h
    obtain ⟨hpiece, hrest⟩ := h
    obtain ⟨hfirst, hsecond⟩ := ih hrest
    rw [List.flatten_append] at hpiece
    exact ⟨hpiece.append hfirst, hsecond⟩

end Lexicon

namespace Parser

variable {p : Parser} {piece comment x t : Text} {m : Marker}

/-! ## What is read at such a place -/

theorem Passes.halts (h : p.Passes piece t) : p.lexicon.Halts piece t := by
  induction h with
  | nil t => exact .nil t
  | char bare _ ih => exact .char bare ih
  | comment cuts _ _ ih => exact .comment cuts ih

theorem Marks.halts (h : p.Marks comment m t) : p.lexicon.Halts comment t := by
  obtain ⟨cut, hcut, rfl, -⟩ := h
  exact hcut.halts

theorem Marks.alone (h : p.Marks comment m t) : p.Marks comment m [] := Marks.front h

theorem Passes.alone (h : p.Passes piece t) : p.Passes piece [] := Passes.front h

theorem passes_iff_seek : p.Passes t [] ↔ p.seek [] t = .ok none := by
  constructor
  · intro h
    have hseek := h.seek []
    rwa [List.append_nil, seek_nil] at hseek
  · exact seek_eq_none

instance (p : Parser) (t : Text) : Decidable (p.Passes t []) :=
  decidable_of_iff _ passes_iff_seek.symm

/-- A piece without a marker has none in front of a text before which the walk stands. -/
theorem Passes.of_halts (h : p.Passes piece []) (halts : p.lexicon.Halts piece t) :
    p.Passes piece t := by
  generalize hnil : ([] : Text) = nothing at h
  induction h with
  | nil => exact .nil t
  | char bare _ ih =>
    subst hnil
    rw [List.append_nil] at bare
    obtain ⟨bare', hrest⟩ := halts.of_bare bare
    exact .char bare' (ih hrest rfl)
  | @comment cut piece _ cuts quiet _ ih =>
    subst hnil
    rw [List.append_nil] at cuts
    obtain ⟨cuts', hrest⟩ := halts.of_cuts cuts
    exact @Passes.comment p { cut with rest := piece ++ t } piece t cuts' quiet (ih hrest rfl)

theorem Marks.of_halts (h : p.Marks comment m []) (halts : p.lexicon.Halts comment t) :
    p.Marks comment m t := by
  obtain ⟨cut, hcut, rfl, hm⟩ := h
  rw [← List.append_nil cut.comment] at halts
  exact ⟨_, (halts.of_cuts hcut).1, rfl, hm⟩

theorem Passes.of_append {behind : Text} (halts : p.lexicon.Halts x (piece ++ behind))
    (h : p.Passes (x ++ piece) behind) : p.Passes piece behind := by
  generalize hwhole : piece ++ behind = whole at halts
  induction halts with
  | nil => exact h
  | @char c x _ bare _ ih =>
    subst hwhole
    rw [← List.append_assoc, ← List.cons_append] at bare
    exact ih (h.of_bare (Lexicon.match_eq_none_of_append bare)).2 rfl
  | @comment cut x _ cuts _ ih =>
    subst hwhole
    generalize hfront : cut.comment ++ x ++ piece = front at h
    cases h with
    | nil => simp [cuts.comment_ne_nil] at hfront
    | @char c front _ bare =>
      rw [← List.cons_append, ← hfront, List.append_assoc, List.append_assoc] at bare
      exact absurd bare (cuts.match_ne_none _)
    | @comment other front _ cuts' _ tail =>
      rw [← List.append_assoc, ← hfront, List.append_assoc, List.append_assoc] at cuts'
      obtain rfl := cuts.unique cuts'
      rw [List.append_assoc] at hfront
      exact ih (List.append_cancel_left hfront ▸ tail) rfl

theorem Marks.not_passes (h : p.Marks comment m t) (hne : piece ≠ []) {behind : Text}
    (heq : piece ++ behind = comment ++ t) : ¬ p.Passes piece behind := by
  intro hpass
  obtain ⟨cut, hcut, rfl, hm⟩ := h
  rw [← heq] at hcut
  cases hpass with
  | nil => exact hne rfl
  | char bare =>
    obtain ⟨k, hk, -⟩ := hcut
    cases bare.symm.trans hk
  | comment cuts quiet =>
    rw [List.append_assoc] at hcut
    obtain rfl := cuts.unique hcut
    cases quiet.symm.trans hm

/-- Where the walk stands in front of a marker, everything that it passes over without
one lies before that. -/
theorem Passes.before_marker {after rest : Text} (h : p.Passes piece after)
    (heq : piece ++ after = x ++ (comment ++ rest)) (halts : p.lexicon.Halts x (comment ++ rest))
    (marks : p.Marks comment m rest) :
    ∃ gap, x = piece ++ gap ∧ after = gap ++ (comment ++ rest) ∧
      p.lexicon.Halts gap (comment ++ rest) := by
  rcases List.append_eq_append_iff.mp heq with ⟨gap, rfl, hafter⟩ | ⟨gap, rfl, hmarker⟩
  · rw [hafter] at h
    exact ⟨gap, rfl, hafter, Lexicon.Halts.behind h.halts halts⟩
  · cases gap with
    | nil =>
      exact ⟨[], by simp, by simpa using hmarker.symm, .nil _⟩
    | cons c gap =>
      -- the marker would begin within the piece
      rw [hmarker] at halts
      exact absurd (h.of_append halts) (marks.not_passes (List.cons_ne_nil c gap) hmarker.symm)

/-! ## Regions -/

/-- In front of `rest`, the segment is a region: it goes from a start marker over a body
without markers to the end marker that closes it. -/
def Frames (p : Parser) (s : Segment) (rest : Text) : Prop :=
  ∃ id m e, s.id = some id ∧ m.Opens id ∧ e.Closes id ∧
    p.Marks s.startMarker m (s.content ++ (s.endMarker ++ rest)) ∧
    p.Passes s.content (s.endMarker ++ rest) ∧ p.Marks s.endMarker e rest

variable {s : Segment} {rest : Text}

theorem Frames.halts (h : p.Frames s rest) : p.lexicon.Halts s.text rest := by
  obtain ⟨id, m, e, -, -, -, starts, body, ends⟩ := h
  unfold Segment.text
  rw [List.append_assoc]
  rw [← List.append_assoc] at starts
  refine Lexicon.Halts.append ?_ (body.halts.append ends.halts)
  exact starts.halts

theorem Frames.text_ne_nil (h : p.Frames s rest) : s.text ≠ [] := by
  obtain ⟨id, m, e, -, -, -, starts, -, -⟩ := h
  simp [Segment.text, starts.comment_ne_nil]

theorem Frames.alone (h : p.Frames s rest) : p.Frames s [] := by
  obtain ⟨id, m, e, hid, opens, closes, starts, body, ends⟩ := h
  rw [← List.append_assoc] at starts
  rw [← List.append_nil s.endMarker] at starts body
  exact ⟨id, m, e, hid, opens, closes, starts.front, body.front, ends.alone⟩

theorem Frames.of_halts (h : p.Frames s []) (halts : p.lexicon.Halts s.text rest) :
    p.Frames s rest := by
  obtain ⟨id, m, e, hid, opens, closes, starts, body, ends⟩ := h
  rw [List.append_nil] at starts body
  unfold Segment.text at halts
  rw [List.append_assoc] at halts
  -- the three pieces end where they end in the segment alone
  have hstart := starts.halts.of_alone halts
  have hbehind := hstart.behind halts
  have hbody := body.halts.of_alone hbehind
  have hends := hbody.behind hbehind
  rw [List.append_assoc] at hstart
  exact ⟨id, m, e, hid, opens, closes, starts.alone.of_halts hstart,
    body.alone.of_halts hbody, ends.of_halts hends⟩

/-- Every region that is read is one by itself. -/
theorem Reads.frames {segments : List Segment} (h : p.Reads t segments) {s : Segment}
    (hs : s ∈ segments) (hregion : s.isRegion) : p.Frames s [] := by
  have hplain : ∀ t, s ∉ plainTail t := by
    intro t ht
    unfold plainTail at ht
    split at ht
    · cases ht
    · rw [List.mem_singleton.mp ht] at hregion
      cases hregion
  induction h with
  | plain => exact absurd hs (hplain _)
  | @region before opening content ending rest _ _ _ _ _ starts opens body ends closes _ ih =>
    rcases List.mem_append.mp hs with hs | hs
    · exact absurd hs (hplain _)
    · rcases List.mem_cons.mp hs with rfl | hs
      · rw [← List.append_assoc] at starts
        rw [← List.append_nil ending] at starts body
        exact ⟨_, _, _, rfl, opens, closes, starts.front, body.front, ends.alone⟩
      · exact ih hs

/-- In one text no two markers begin at the same place, and between one and the next there
is one text. -/
theorem Passes.unique {after : Text} {n : Marker} {other otherComment otherAfter : Text}
    (h : p.Passes piece (comment ++ after)) (marks : p.Marks comment m after)
    (h' : p.Passes other (otherComment ++ otherAfter))
    (marks' : p.Marks otherComment n otherAfter)
    (heq : piece ++ (comment ++ after) = other ++ (otherComment ++ otherAfter)) :
    piece = other ∧ m = n ∧ comment = otherComment ∧ after = otherAfter := by
  have hseek := h.seek []
  rw [marks.seek, heq, h'.seek, marks'.seek] at hseek
  simpa [eq_comm] using hseek

/-- A region at a place where the walk stands is a segment of what the text reads as. -/
theorem Reads.mem_of_frames {segments : List Segment} (h : p.Reads t segments)
    (heq : t = x ++ (s.text ++ rest)) (halts : p.lexicon.Halts x (s.text ++ rest))
    (frames : p.Frames s rest) : s ∈ segments := by
  obtain ⟨id, m, e, hid, opens, closes, starts, body, ends⟩ := frames
  have hs : s.text ++ rest = s.startMarker ++ (s.content ++ (s.endMarker ++ rest)) := by
    simp [Segment.text]
  rw [hs] at heq halts
  -- on the regions of the text: each is the one sought, or lies in front of it
  induction h generalizing x with
  | plain passes =>
    obtain ⟨gap, -, hnil, -⟩ := passes.before_marker (by rw [List.append_nil, heq]) halts starts
    simp [starts.comment_ne_nil] at hnil
  | @region before opening content ending behind id' m' e' segments passes starts' opens' body'
      ends' closes' _ ih =>
    obtain ⟨gap, rfl, hopening, hgap⟩ := passes.before_marker heq halts starts
    refine List.mem_append_right _ ?_
    by_cases hnil : gap = []
    · subst hnil
      -- the two start at the same place, and so their bodies end at the same
      obtain ⟨-, rfl, hstart, hcontent⟩ := (Passes.nil _).unique starts' (.nil _) starts hopening
      obtain ⟨hbody, rfl, hend, -⟩ := body'.unique ends' body ends hcontent
      obtain rfl : id' = id := Option.some.inj (opens'.2.1.symm.trans opens.2.1)
      refine List.mem_cons.mpr (.inl ?_)
      rw [hstart, hbody, hend, Segment.region, ← hid]
    · obtain ⟨cut, hcut, rfl, -⟩ := starts'
      rw [hopening] at hcut
      obtain ⟨gap, rfl, hbody⟩ := hgap.step hnil hcut
      rw [List.append_assoc] at hopening
      obtain ⟨gap, rfl, hending, hgap⟩ :=
        body'.before_marker (List.append_cancel_left hopening) hbody starts
      by_cases hnil : gap = []
      · subst hnil
        -- a marker that ends a region starts none
        obtain ⟨-, rfl, -⟩ := (Passes.nil _).unique ends' (.nil _) starts hending
        cases closes'.1.symm.trans opens.1
      · obtain ⟨cut, hcut, rfl, -⟩ := ends'
        rw [hending] at hcut
        obtain ⟨gap, rfl, htail⟩ := hgap.step hnil hcut
        rw [List.append_assoc] at hending
        exact List.mem_cons_of_mem _ (ih (List.append_cancel_left hending) htail)

end Parser
end ProtectedRegions
