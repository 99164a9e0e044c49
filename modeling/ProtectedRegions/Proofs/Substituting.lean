import ProtectedRegions.Merge
import ProtectedRegions.Proofs.Pairing

/-
  Substituting — what a merge does to a text, character by character

  A merge works on segments: it gives regions other bodies and places all segments
  anew. Said of the text that was parsed, it puts other texts in the place of some
  spans, those between the markers of the regions whose ids are known, and leaves
  every other character where it is in the order. The spans are spans of the text as
  it was: that a body may be longer or shorter than the one before it moves what comes
  behind, and is taken account of nowhere but in the places of the new segments.

  What is proved:
    1. `substitute_place` — restored segments are the text of the segments, with the
       spans of the known regions replaced.
    2. `within_place` — these spans lie in the text, in order and apart.
    3. `slice_body` — each is the body of a region.
    4. `merge_substitutes` — the merge of a parsed text.
-/

namespace ProtectedRegions

structure Substitution where
  start : Nat
  stop : Nat
  text : Text
  deriving DecidableEq, Repr

namespace Text

/-- The text from a position on with other texts in the place of some spans: what stands before
a span, what is put in its place, and so on behind it. All positions are positions of the text
that is given. -/
def substitute (t : Text) : Nat → List Substitution → Text
  | position, [] => t.drop position
  | position, r :: rest => t.slice position r.start ++ (r.text ++ t.substitute r.stop rest)

/-- The spans lie between two positions, in order, and none reaches into the next. -/
def Within (stop : Nat) : Nat → List Substitution → Prop
  | position, [] => position ≤ stop
  | position, r :: rest => position ≤ r.start ∧ r.start ≤ r.stop ∧ Within stop r.stop rest

theorem slice_to_second {first : Text} {position : Nat} (h : position ≤ first.length)
    (second rest : Text) :
    slice (first ++ (second ++ rest)) position (first.length + second.length) =
      first.drop position ++ second := by
  unfold slice
  rw [← List.append_assoc, ← List.length_append, List.take_left,
    List.drop_append_of_le_length h]

end Text

/-- What is put between the markers of a segment, where its id is known. -/
def Placed.substitution? (known : Bodies) (q : Placed) : Option Substitution :=
  (q.segment.id.bind known).map fun body =>
    ⟨q.start + q.segment.startMarker.length, q.stop - q.segment.endMarker.length, body⟩

namespace Segment

variable {known : Bodies} {s : Segment}

theorem restore_of_unknown (h : s.id.bind known = none) : s.restore known = s := by
  rw [restore, h]

theorem restore_of_known {body : Text} (h : s.id.bind known = some body) :
    s.restore known = s.withContent body := by
  rw [restore, h]

theorem restore_content (known : Bodies) (s : Segment) :
    (s.restore known).content = (s.id.bind known).getD s.content := by
  unfold restore
  cases s.id.bind known <;> rfl

theorem length_text (s : Segment) :
    s.text.length = s.startMarker.length + s.content.length + s.endMarker.length := by
  simp [text, Nat.add_assoc]

end Segment

namespace Document

variable {known : Bodies}

/-- The spans of a document that a merge replaces: one for each region with a known body. -/
def substitutions (d : Document) (known : Bodies) : List Substitution :=
  d.regions.filterMap (·.substitution? known)

theorem substitutions_eq (d : Document) (known : Bodies) :
    d.substitutions known = d.placed.filterMap (·.substitution? known) := by
  unfold substitutions regions
  rw [List.filterMap_filter]
  congr 1
  funext q
  cases hid : q.segment.id <;> simp [Segment.isRegion, Placed.substitution?, hid]

/-- The same for segments that are placed from an offset on. -/
def substitutionsFrom (known : Bodies) (offset : Nat) (segments : List Segment) :
    List Substitution :=
  (place offset segments).filterMap (·.substitution? known)

theorem substitutionsFrom_unknown {s : Segment} (h : s.id.bind known = none) (offset : Nat)
    (rest : List Segment) : substitutionsFrom known offset (s :: rest) =
      substitutionsFrom known (offset + s.text.length) rest := by
  unfold substitutionsFrom
  rw [place, List.filterMap_cons_none]
  rw [Placed.substitution?, h, Option.map_none]

theorem substitutionsFrom_known {s : Segment} {body : Text} (h : s.id.bind known = some body)
    (offset : Nat) (rest : List Segment) : substitutionsFrom known offset (s :: rest) =
      ⟨offset + s.startMarker.length, offset + s.text.length - s.endMarker.length, body⟩ ::
        substitutionsFrom known (offset + s.text.length) rest := by
  unfold substitutionsFrom
  rw [place, List.filterMap_cons_some]
  rw [Placed.substitution?, h, Option.map_some]

/-- Behind a text as long as the offset, and from a position in it on, restored segments are the
text of the segments with the spans of the known regions replaced. -/
theorem substitute_place (segments : List Segment) (before : Text) {position : Nat}
    (hposition : position ≤ before.length) :
    (before ++ segments.flatMap Segment.text).substitute position
        (substitutionsFrom known before.length segments) =
      before.drop position ++ (segments.map (·.restore known)).flatMap Segment.text := by
  -- on the segments: one that is passed belongs to what stands before the others
  induction segments generalizing before position with
  | nil => simp [substitutionsFrom, place, Text.substitute]
  | cons s rest ih =>
    have hlength : (before ++ s.text).length = before.length + s.text.length :=
      List.length_append
    have hsegment := s.length_text
    rw [List.flatMap_cons, ← List.append_assoc, List.map_cons, List.flatMap_cons]
    cases hbody : s.id.bind known with
    | none =>
      rw [substitutionsFrom_unknown hbody, ← hlength, ih _ (by omega),
        Segment.restore_of_unknown hbody, List.drop_append_of_le_length hposition,
        List.append_assoc]
    | some body =>
      -- the start marker stands before the span, and the end marker is left behind it
      have hfront : Text.slice (before ++ s.text ++ rest.flatMap Segment.text) position
          (before.length + s.startMarker.length) = before.drop position ++ s.startMarker := by
        have := Text.slice_to_second hposition (s.startMarker)
          (s.content ++ s.endMarker ++ rest.flatMap Segment.text)
        simpa [Segment.text] using this
      have hbehind : (before ++ s.text).drop (before.length + s.text.length - s.endMarker.length) =
          s.endMarker := by
        have hsplit : before ++ s.text = before ++ (s.startMarker ++ s.content) ++ s.endMarker := by
          simp [Segment.text]
        rw [← hlength, hsplit, List.length_append, Nat.add_sub_cancel, List.drop_left]
      have hrest := @ih (before ++ s.text)
        (before.length + s.text.length - s.endMarker.length) (by omega)
      rw [hlength, hbehind] at hrest
      rw [substitutionsFrom_known hbody, Text.substitute, hfront, hrest,
        Segment.restore_of_known hbody]
      simp [Segment.text, Segment.withContent]

/-- The spans of the known regions lie among the segments, in order and apart. -/
theorem within_place (segments : List Segment) {offset position : Nat}
    (hposition : position ≤ offset) :
    Text.Within (offset + (segments.flatMap Segment.text).length) position
      (substitutionsFrom known offset segments) := by
  induction segments generalizing offset position with
  | nil => exact Nat.le_trans hposition (Nat.le_add_right _ _)
  | cons s rest ih =>
    have hsegment := s.length_text
    rw [List.flatMap_cons, List.length_append, ← Nat.add_assoc]
    cases hbody : s.id.bind known with
    | none =>
      rw [substitutionsFrom_unknown hbody]
      apply ih
      omega
    | some body =>
      rw [substitutionsFrom_known hbody]
      refine ⟨?_, ?_, ?_⟩
      · show position ≤ offset + s.startMarker.length
        omega
      · show offset + s.startMarker.length ≤ offset + s.text.length - s.endMarker.length
        omega
      · apply ih
        show offset + s.text.length - s.endMarker.length ≤ offset + s.text.length
        omega

theorem slice_body {segments : List Segment} {q : Placed} (before after : Text)
    (hq : q ∈ place before.length segments) :
    (before ++ (segments.flatMap Segment.text ++ after)).slice
        (q.start + q.segment.startMarker.length) (q.stop - q.segment.endMarker.length) =
      q.segment.content := by
  induction segments generalizing before with
  | nil => cases hq
  | cons s rest ih =>
    rw [List.flatMap_cons, List.append_assoc]
    rw [place] at hq
    rcases List.mem_cons.mp hq with rfl | hq
    · have := Text.slice_append (before ++ s.startMarker) s.content
        (s.endMarker ++ (rest.flatMap Segment.text ++ after))
      have hstop : before.length + s.text.length - s.endMarker.length =
          (before ++ s.startMarker).length + s.content.length := by
        rw [s.length_text, List.length_append]
        omega
      rw [hstop, ← List.length_append]
      simpa [Segment.text] using this
    · rw [← List.length_append] at hq
      have := ih (before ++ s.text) hq
      rwa [List.append_assoc] at this

theorem tiles_ofSegments (segments : List Segment) :
    Tiles 0 (segments.flatMap Segment.text).length (ofSegments segments).placed := by
  have htiles := tiles_place 0 segments
  rwa [Nat.zero_add] at htiles

theorem slice_ofSegments {segments : List Segment} {q : Placed}
    (hq : q ∈ (ofSegments segments).placed) :
    Text.slice (segments.flatMap Segment.text) q.start q.stop = q.segment.text := by
  have hslice := slice_place [] [] hq
  rwa [List.nil_append, List.append_nil] at hslice

end Document

namespace Parser

variable {p : Parser}

/-- A merge puts the known bodies in the place of the bodies of their regions, all at once, and
touches nothing else of the text. The segments are as many as before, with the same ids and
markers, and are placed one behind the other in the new text. -/
theorem merge_substitutes {fresh : Text} {d : Document} (h : p.parse fresh = .ok d)
    (known : Bodies) :
    (d.merge known).text = fresh.substitute 0 (d.substitutions known) ∧
      Text.Within fresh.length 0 (d.substitutions known) ∧
      (∀ q ∈ d.regions, fresh.slice (q.start + q.segment.startMarker.length)
        (q.stop - q.segment.endMarker.length) = q.segment.content) ∧
      (d.merge known).segments.length = d.segments.length ∧
      (∀ (i : Nat) (s : Segment), d.segments[i]? = some s →
        ∃ s', (d.merge known).segments[i]? = some s' ∧ s'.id = s.id ∧
          s'.startMarker = s.startMarker ∧ s'.endMarker = s.endMarker ∧
          s'.content = (s.id.bind known).getD s.content) ∧
      Document.Tiles 0 (d.merge known).text.length (d.merge known).placed ∧
      ∀ q ∈ (d.merge known).placed, (d.merge known).text.slice q.start q.stop = q.segment.text := by
  obtain ⟨segments, reads, rfl⟩ := parse_eq_ok_iff.mp h
  have hfresh := reads.text
  have hmerge : (Document.ofSegments segments).merge known =
      .ofSegments (segments.map (·.restore known)) := by
    rw [Document.merge, Document.segments_ofSegments]
  have hspans : (Document.ofSegments segments).substitutions known =
      Document.substitutionsFrom known 0 segments := Document.substitutions_eq _ _
  rw [hmerge, hspans, Document.text_ofSegments, Document.segments_ofSegments,
    Document.segments_ofSegments]
  refine ⟨?_, ?_, ?_, ?_, ?_, Document.tiles_ofSegments _, ?_⟩
  · rw [← hfresh]
    exact (Document.substitute_place segments [] (Nat.le_refl 0)).symm
  · have hwithin := @Document.within_place known segments 0 0 (Nat.le_refl 0)
    rwa [hfresh, Nat.zero_add] at hwithin
  · intro q hq
    have hbody := Document.slice_body [] [] (List.mem_filter.mp hq).1
    rwa [hfresh, List.nil_append, List.append_nil] at hbody
  · exact List.length_map _
  · intro i s hs
    refine ⟨s.restore known, ?_, s.restore_id known, s.restore_startMarker known,
      s.restore_endMarker known, s.restore_content known⟩
    rw [List.getElem?_map, hs, Option.map_some]
  · intro q hq
    exact Document.slice_ofSegments hq

/-- Three regions of a text, two of them with one id: the known body is put in twice, once in the
place of nothing, and the region between them stays. -/
theorem merge_substitutes_twice :
    ∃ d, (ofPreset .cLike (.function letterMarks) false).parse
        "/*A*//*e*/+//B\ny//e\n/*A*/old/*e*/".toList = .ok d ∧
      (d.merge fun id => if id = ['A'] then some "new".toList else none).text =
        "/*A*/new/*e*/+//B\ny//e\n/*A*/new/*e*/".toList := by
  have h : (ofPreset .cLike (.function letterMarks) false).parse
      "/*A*//*e*/+//B\ny//e\n/*A*/old/*e*/".toList =
    .ok ⟨[⟨.region ['A'] "/*A*/".toList [] "/*e*/".toList, 0, 10⟩,
      ⟨.plain "+".toList, 10, 11⟩,
      ⟨.region ['B'] "//B\n".toList "y".toList "//e\n".toList, 11, 20⟩,
      ⟨.region ['A'] "/*A*/".toList "old".toList "/*e*/".toList, 20, 33⟩]⟩ := by
    decide +kernel
  refine ⟨_, h, ?_⟩
  rw [(merge_substitutes h _).1]
  decide +kernel

end Parser
end ProtectedRegions
