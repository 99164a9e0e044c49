import ProtectedRegions.Proofs.Pairing

/-
  Cutting — a text divided where one of its segments ends

  A parser looks ahead: the longest opening token decides which comment begins,
  a comment goes on to the first token that closes it, and a carriage return
  waits for a line feed. A cut takes from the text what all three look at. It
  changes nothing all the same when it is made between two segments, because
  a comment in front of the cut has come to its end there. Nothing is asked of
  the lexicon: one opening token may begin another, and tokens may have line
  breaks in them.

  What is proved:
    1. `Cuts.front`, `Marks.front`, `Passes.front` — what is read in front of a
       text is read in front of the beginning of that text too.
    2. `Reads.divide` — a reading falls into two readings between any two of its
       segments.
    3. `exists_division` — every boundary of a document is such a place.
    4. `parse_divides` — the parts of a text that is cut at a boundary parse to
       the segments before it and the segments behind it.
-/

namespace ProtectedRegions

/-! ## A comment in front of less text -/

namespace Lexicon

variable {lexicon : Lexicon}

/-- The syntax that begins a text begins the front of it, if its token lies in
there: what is cut off can only have let longer tokens match. -/
theorem Begins.front {t after : Text} {c : Comment} (h : lexicon.Begins (t ++ after) c)
    (hc : c.opening <+: t) : lexicon.Begins t c := by
  obtain ⟨-, before, later, rfl, hbefore, hlater⟩ := h
  have hlonger : ∀ k : Comment, k.opening <+: t → k.opening <+: t ++ after :=
    fun k hk => hk.trans (List.prefix_append t after)
  refine ⟨hc, before, later, rfl, ?_, ?_⟩
  · intro b hb hpre
    exact hbefore b hb (hlonger b hpre)
  · intro a ha hpre
    exact hlater a ha (hlonger a hpre)

end Lexicon

theorem Closing.Ends.front {closing : Closing} {body ending rest after : Text}
    (h : closing.Ends body ending (rest ++ after)) : closing.Ends body ending rest := by
  generalize hwhole : rest ++ after = whole at h
  cases h with
  | line within ends =>
    apply Closing.Ends.line within
    rcases ends with hpair | hfeed | ⟨hreturn, hhead⟩ | ⟨hnone, hend⟩
    · exact .inl hpair
    · exact .inr (.inl hfeed)
    · -- no line feed follows in the whole text, so none does in the front of it
      refine .inr (.inr (.inl ⟨hreturn, ?_⟩))
      cases rest with
      | nil => simp
      | cons c rest =>
        rw [← hwhole] at hhead
        simpa using hhead
    · rw [hend] at hwhole
      exact .inr (.inr (.inr ⟨hnone, (List.append_eq_nil_iff.mp hwhole).1⟩))
  | token first => exact .token first
  | unended absent =>
    obtain ⟨rfl, -⟩ := List.append_eq_nil_iff.mp hwhole
    exact .unended absent

namespace Lexicon

variable {lexicon : Lexicon} {t : Text} {cut : Cut}

theorem match_eq_none_of_append {after : Text}
    (h : lexicon.match? (t ++ after) = none) : lexicon.match? t = none := by
  rw [match_eq_none_iff] at h ⊢
  intro k hk hpre
  exact h k hk (hpre.trans (List.prefix_append t after))

theorem Cuts.opening (h : lexicon.Cuts t cut) : ∃ c ∈ lexicon, c.opening <+: cut.comment := by
  obtain ⟨c, begins, hopening, _⟩ := cuts_iff.mp h
  exact ⟨c, begins.mem, hopening ▸ ⟨_, by rw [Cut.comment, List.append_assoc]⟩⟩

theorem Cuts.match_ne_none (h : lexicon.Cuts t cut) (after : Text) :
    lexicon.match? (cut.comment ++ after) ≠ none := by
  intro hnone
  obtain ⟨k, hk, hopening⟩ := h.opening
  exact match_eq_none_iff.mp hnone k hk (hopening.trans (List.prefix_append _ _))

theorem Cuts.front {cut : Cut} {rest after : Text}
    (h : lexicon.Cuts (cut.comment ++ (rest ++ after)) cut) :
    lexicon.Cuts (cut.comment ++ rest) { cut with rest := rest } := by
  have hrest := h.rest_eq
  obtain ⟨c, begins, hopening, ends, -⟩ := cuts_iff.mp h
  rw [hrest] at ends
  rw [← List.append_assoc] at begins
  have hfront : c.opening <+: cut.comment ++ rest := by
    refine ⟨cut.body ++ cut.ending ++ rest, ?_⟩
    simp [Cut.comment, hopening]
  refine cuts_iff.mpr ⟨c, begins.front hfront, hopening, ends.front, ?_⟩
  simp [Cut.comment]

end Lexicon

namespace Parser

variable {p : Parser}

theorem Marks.front {comment rest after : Text} {m : Marker}
    (h : p.Marks comment m (rest ++ after)) : p.Marks comment m rest := by
  obtain ⟨cut, hcut, rfl, hm⟩ := h
  exact ⟨{ cut with rest := rest }, hcut.front, rfl, hm⟩

theorem Passes.of_bare {c : Char} {piece t : Text} (h : p.Passes (c :: piece) t)
    (bare : p.lexicon.match? (c :: piece) = none) :
    p.lexicon.match? (c :: (piece ++ t)) = none ∧ p.Passes piece t := by
  generalize hwhole : c :: piece = whole at h
  cases h with
  | nil => simp at hwhole
  | char bare' tail =>
    obtain ⟨rfl, rfl⟩ := List.cons.inj hwhole
    exact ⟨bare', tail⟩
  | comment cuts =>
    rw [hwhole] at bare
    exact absurd bare (cuts.match_ne_none _)

theorem Passes.front {piece t after : Text} (h : p.Passes piece (t ++ after)) :
    p.Passes piece t := by
  generalize hwhole : t ++ after = whole at h
  induction h with
  | nil => exact .nil t
  | char bare _ ih =>
    subst hwhole
    refine .char (@Lexicon.match_eq_none_of_append _ _ after ?_) (ih rfl)
    simpa using bare
  | @comment cut piece _ cuts quiet _ ih =>
    subst hwhole
    rw [← List.append_assoc piece] at cuts
    exact @Passes.comment p { cut with rest := piece ++ t } piece t cuts.front quiet (ih rfl)

/-! ## Readings divided -/

theorem reads_nil : p.Reads [] [] := .plain (.nil [])

theorem Reads.of_text {t : Text} {segments : List Segment} (h : p.Reads t segments) :
    p.Reads (segments.flatMap Segment.text) segments := by
  rw [h.text]
  exact h

/-- A plain piece is one segment or none, so a division leaves it whole. -/
theorem plainTail_eq_append {t : Text} {first second : List Segment}
    (h : plainTail t = first ++ second) :
    first = [] ∧ second = plainTail t ∨ first = plainTail t ∧ second = [] := by
  by_cases ht : t = []
  · have hnil : plainTail t = [] := if_pos ht
    rw [hnil] at h ⊢
    obtain ⟨rfl, rfl⟩ := List.append_eq_nil_iff.mp h.symm
    exact .inl ⟨rfl, rfl⟩
  · have hone : plainTail t = [.plain t] := if_neg ht
    rw [hone] at h ⊢
    exact List.append_eq_singleton_iff.mp h.symm

/-- A region is read in front of the beginning of what follows it. -/
theorem Reads.region_front {before opening content ending front after id : Text} {m e : Marker}
    {segments : List Segment}
    (passes : p.Passes before (opening ++ (content ++ (ending ++ (front ++ after)))))
    (starts : p.Marks opening m (content ++ (ending ++ (front ++ after)))) (opens : m.Opens id)
    (body : p.Passes content (ending ++ (front ++ after)))
    (ends : p.Marks ending e (front ++ after)) (closes : e.Closes id)
    (tail : p.Reads front segments) :
    p.Reads (before ++ (opening ++ (content ++ (ending ++ front))))
      (plainTail before ++ .region id opening content ending :: segments) := by
  -- in each of the four texts `after` comes last, behind what the piece has to be read in front of
  simp only [← List.append_assoc ending, ← List.append_assoc content,
    ← List.append_assoc opening] at passes starts body ends
  refine .region ?_ ?_ opens body.front ends.front closes tail
  · simpa using passes.front
  · simpa using starts.front

/-- A reading divides between any two of its segments, and at both ends. -/
theorem Reads.divide {t : Text} {first second : List Segment}
    (h : p.Reads t (first ++ second)) :
    p.Reads (first.flatMap Segment.text) first ∧
      p.Reads (second.flatMap Segment.text) second := by
  generalize hsegments : first ++ second = segments at h
  -- on the regions of the text: the division may fall into what follows the first of them
  induction h generalizing first second with
  | @plain t passes =>
    have reads : p.Reads t (plainTail t) := .plain passes
    rcases plainTail_eq_append hsegments.symm with ⟨rfl, rfl⟩ | ⟨rfl, rfl⟩
    · exact ⟨reads_nil, reads.of_text⟩
    · exact ⟨reads.of_text, reads_nil⟩
  | @region before opening content ending rest id m e segments passes starts opens body ends closes
      reads ih =>
    have hbefore : p.Reads before (plainTail before) := .plain (passes.front (t := []))
    have hregion : p.Reads _ (.region id opening content ending :: segments) :=
      .region (.nil _) starts opens body ends closes reads
    rcases List.append_eq_append_iff.mp hsegments with ⟨gap, hplain, hsecond⟩ | ⟨gap, hplain, htail⟩
    · subst hsecond
      rcases plainTail_eq_append hplain with ⟨rfl, rfl⟩ | ⟨rfl, rfl⟩
      · exact ⟨reads_nil, (Reads.region passes starts opens body ends closes reads).of_text⟩
      · exact ⟨hbefore.of_text, hregion.of_text⟩
    · subst hplain
      cases gap with
      | nil =>
        subst htail
        rw [List.append_nil]
        exact ⟨hbefore.of_text, hregion.of_text⟩
      | cons s gap =>
        obtain ⟨rfl, rfl⟩ := List.cons.inj htail
        obtain ⟨hgap, hsecond⟩ := ih rfl
        have hrest : gap.flatMap Segment.text ++ second.flatMap Segment.text = rest := by
          rw [← List.flatMap_append]
          exact reads.text
        rw [← hrest] at passes starts body ends
        exact ⟨(Reads.region_front passes starts opens body ends closes hgap).of_text, hsecond⟩

end Parser

/-! ## Boundaries -/

/-- The same segment, further back in a text. -/
def Placed.shift (offset : Nat) (q : Placed) : Placed :=
  ⟨q.segment, q.start + offset, q.stop + offset⟩

namespace Document

/-- A position of a text where a document of it can be divided: the beginning,
the end, and where a segment begins or ends. -/
def Boundary (t : Text) (d : Document) (b : Nat) : Prop :=
  b = 0 ∨ b = t.length ∨ ∃ q ∈ d.placed, b = q.start ∨ b = q.stop

theorem place_shift (offset gap : Nat) (segments : List Segment) :
    place (offset + gap) segments = (place offset segments).map (Placed.shift gap) := by
  induction segments generalizing offset with
  | nil => rfl
  | cons s rest ih =>
    have hstop : offset + gap + s.text.length = offset + s.text.length + gap := by omega
    rw [place, place, List.map_cons, hstop, ih]
    rfl

theorem exists_append_of_mem_place {offset : Nat} {segments : List Segment} {q : Placed}
    (h : q ∈ place offset segments) :
    ∃ first second, segments = first ++ q.segment :: second ∧
      q.start = offset + (first.flatMap Segment.text).length ∧
      q.stop = q.start + q.segment.text.length := by
  induction segments generalizing offset with
  | nil => cases h
  | cons s rest ih =>
    rw [place] at h
    rcases List.mem_cons.mp h with rfl | h
    · exact ⟨[], rest, rfl, rfl, rfl⟩
    · obtain ⟨first, second, rfl, hstart, hstop⟩ := ih h
      refine ⟨s :: first, second, rfl, ?_, hstop⟩
      rw [hstart, List.flatMap_cons, List.length_append]
      omega

/-- Every boundary lies between two segments or at an end. -/
theorem exists_division {segments : List Segment} {b : Nat}
    (h : Boundary (segments.flatMap Segment.text) (ofSegments segments) b) :
    ∃ first second, segments = first ++ second ∧ b = (first.flatMap Segment.text).length := by
  rcases h with rfl | rfl | ⟨q, hq, hb⟩
  · exact ⟨[], segments, rfl, rfl⟩
  · exact ⟨segments, [], by simp, rfl⟩
  · obtain ⟨first, second, hsegments, hstart, hstop⟩ := exists_append_of_mem_place hq
    rw [Nat.zero_add] at hstart
    rcases hb with rfl | rfl
    · exact ⟨first, q.segment :: second, hsegments, hstart⟩
    · refine ⟨first ++ [q.segment], second, by simp [hsegments], ?_⟩
      rw [hstop, hstart, List.flatMap_append, List.length_append, List.flatMap_singleton]

end Document

namespace Parser

variable {p : Parser}

/-- A text that is cut at a boundary of its document parses part by part, to the
segments before the boundary and those behind it; so the text of a segment alone
parses to this segment. -/
theorem parse_divides {t : Text} {d : Document} (h : p.parse t = .ok d) :
    (∀ b, d.Boundary t b → ∃ first second, p.parse (t.take b) = .ok first ∧
      p.parse (t.drop b) = .ok second ∧
      d.placed = first.placed ++ second.placed.map (Placed.shift b)) ∧
    ∀ q ∈ d.placed, p.parse q.segment.text = .ok (.ofSegments [q.segment]) := by
  obtain ⟨segments, reads, rfl⟩ := parse_eq_ok_iff.mp h
  have htext := reads.text
  constructor
  · intro b hb
    rw [← htext] at hb
    obtain ⟨first, second, rfl, rfl⟩ := Document.exists_division hb
    obtain ⟨hfirst, hsecond⟩ := reads.divide
    rw [← htext, List.flatMap_append, List.take_left, List.drop_left]
    refine ⟨_, _, parse_eq_ok_iff.mpr ⟨first, hfirst, rfl⟩,
      parse_eq_ok_iff.mpr ⟨second, hsecond, rfl⟩, ?_⟩
    show Document.place 0 (first ++ second) = _
    rw [Document.place_append, Document.place_shift]
    rfl
  · intro q hq
    obtain ⟨first, second, rfl, -, -⟩ := Document.exists_append_of_mem_place hq
    -- the segment is divided from those before it, and then from those behind it
    obtain ⟨-, hbehind⟩ := reads.divide
    obtain ⟨hone, -⟩ := @Reads.divide p _ [q.segment] second hbehind
    rw [List.flatMap_singleton] at hone
    exact parse_eq_ok_iff.mpr ⟨_, hone, rfl⟩

/-- A parser for samples whose opening tokens begin alike, and one of whose
closing tokens breaks a line. -/
def nested : Parser where
  lexicon := [⟨['/'], .line, List.cons_ne_nil _ _⟩,
    ⟨['/', '/'], .token ['\n', '/'] (List.cons_ne_nil _ _), List.cons_ne_nil _ _⟩]
  oracle := .function letterMarks
  inverse := false
  name := []
  nonempty := List.cons_ne_nil _ _

/-- What the sample parser makes of a text with two regions: the second starts with
the longer token. -/
def nestedDocument : Document :=
  ⟨[⟨.plain "a".toList, 0, 1⟩,
    ⟨.region "A".toList "/A\r\n".toList "x".toList "/e\r\n".toList, 1, 10⟩,
    ⟨.plain "b".toList, 10, 11⟩,
    ⟨.region "B".toList "//B\n/".toList "y".toList "/e".toList, 11, 19⟩]⟩

/-- The text is cut behind the line break that ends the first region. -/
theorem parse_divides_nested :
    nested.parse "a/A\r\nx/e\r\nb//B\n/y/e".toList = .ok nestedDocument ∧
      ∃ first second, nested.parse "a/A\r\nx/e\r\n".toList = .ok first ∧
        nested.parse "b//B\n/y/e".toList = .ok second ∧
        nestedDocument.placed = first.placed ++ second.placed.map (Placed.shift 10) := by
  have h : nested.parse "a/A\r\nx/e\r\nb//B\n/y/e".toList = .ok nestedDocument := by
    decide +kernel
  have hboundary : ∃ q ∈ nestedDocument.placed, 10 = q.start ∨ 10 = q.stop := by decide
  exact ⟨h, (parse_divides h).1 10 (.inr (.inr hboundary))⟩

end Parser
end ProtectedRegions
