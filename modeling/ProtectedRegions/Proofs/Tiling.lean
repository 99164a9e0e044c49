import ProtectedRegions.Proofs.Reading

/-
  Tilings — the segments of a document cover its text without gap or overlap

  Placing segments records where each begins and ends. That these places are
  places of the parsed text, and not only of the text put together again, takes
  the losslessness of parsing.

  What is proved:
    1. `tiles_place` — placed segments follow one another without a gap.
    2. `slice_place` — the text between the places of a segment is its own.
    3. `regions_place_reading` — where the one region of a reading comes to stand.
    4. `parse_lossless` — a parsed document is its text, cut at the places it
       names, and a region begins where its start marker was found.
-/

namespace ProtectedRegions

namespace Text

/-- The part of a text from one position to another. -/
def slice (t : Text) (start stop : Nat) : Text := (t.take stop).drop start

theorem slice_append (before piece after : Text) :
    slice (before ++ (piece ++ after)) before.length (before.length + piece.length) = piece := by
  unfold slice
  rw [← List.append_assoc, ← List.length_append, List.take_left, List.drop_left]

end Text

namespace Document

/-- Placed segments that cover the positions from `start` to `stop`: the first
begins at `start`, each next one where the one before it ends, the last ends at
`stop`. -/
def Tiles : Nat → Nat → List Placed → Prop
  | start, stop, [] => start = stop
  | start, stop, q :: rest => q.start = start ∧ q.start ≤ q.stop ∧ Tiles q.stop stop rest

theorem tiles_place (offset : Nat) (segments : List Segment) :
    Tiles offset (offset + (segments.flatMap Segment.text).length) (place offset segments) := by
  induction segments generalizing offset with
  | nil => simp [place, Tiles]
  | cons s rest ih =>
    refine ⟨rfl, Nat.le_add_right _ _, ?_⟩
    rw [List.flatMap_cons, List.length_append, ← Nat.add_assoc]
    exact ih (offset + s.text.length)

theorem place_append (offset : Nat) (first last : List Segment) :
    place offset (first ++ last) =
      place offset first ++ place (offset + (first.flatMap Segment.text).length) last := by
  induction first generalizing offset with
  | nil => simp [place]
  | cons s rest ih =>
    rw [List.cons_append, place, ih, place, List.flatMap_cons, List.length_append, Nat.add_assoc]
    rfl

theorem slice_place {segments : List Segment} {q : Placed} (before after : Text)
    (hq : q ∈ place before.length segments) :
    (before ++ (segments.flatMap Segment.text ++ after)).slice q.start q.stop
      = q.segment.text := by
  induction segments generalizing before with
  | nil => simp [place] at hq
  | cons s rest ih =>
    rw [List.flatMap_cons, List.append_assoc]
    rw [place] at hq
    rcases List.mem_cons.mp hq with rfl | hq
    · exact Text.slice_append before s.text _
    · rw [← List.length_append] at hq
      have := ih (before ++ s.text) hq
      rwa [List.append_assoc] at this

theorem regions_place_plainTail (offset : Nat) (t : Text) :
    (place offset (Parser.plainTail t)).filter (·.segment.isRegion) = [] := by
  unfold Parser.plainTail
  split <;> simp [place, Segment.plain, Segment.isRegion]

/-- The regions of a plain piece, a region and what follows, when they are
placed: the region stands behind the plain piece. -/
theorem regions_place_reading (offset : Nat) (before id opening content ending : Text)
    (segments : List Segment) :
    (place offset (Parser.plainTail before ++ .region id opening content ending :: segments)).filter
        (·.segment.isRegion) =
      ⟨.region id opening content ending, offset + before.length,
          offset + before.length + opening.length + content.length + ending.length⟩ ::
        (place (offset + before.length + opening.length + content.length + ending.length)
          segments).filter (·.segment.isRegion) := by
  have hlen : (Segment.region id opening content ending).text.length =
      opening.length + content.length + ending.length := by
    simp [Segment.region, Segment.text, Nat.add_assoc]
  rw [place_append, List.filter_append, regions_place_plainTail, Parser.flatMap_plainTail, place,
    hlen, List.nil_append, List.filter_cons_of_pos (by rfl)]
  simp only [Nat.add_assoc]

end Document

namespace Parser

variable {p : Parser}

theorem Reads.marks_start {t : Text} {segments : List Segment} (h : p.Reads t segments)
    (before : Text) {q : Placed}
    (hq : q ∈ (Document.place before.length segments).filter (·.segment.isRegion)) :
    ∃ m rest, (before ++ t).drop q.start = q.segment.startMarker ++ rest ∧
      p.Marks q.segment.startMarker m rest ∧ m.kind = .start ∧ m.id = q.segment.id := by
  -- `before` is what has been read already, so its length is the offset of the rest
  induction h generalizing before with
  | plain => simp [Document.regions_place_plainTail] at hq
  | @region plain opening content ending rest id m e segments _ starts opens _ _ _ _ ih =>
    rw [Document.regions_place_reading] at hq
    rcases List.mem_cons.mp hq with rfl | hq
    · refine ⟨m, content ++ (ending ++ rest), ?_, starts, opens.1, opens.2.1⟩
      rw [← List.append_assoc, ← List.length_append, List.drop_left]
      rfl
    · simp only [← List.length_append] at hq
      have := ih (before ++ plain ++ opening ++ content ++ ending) hq
      simpa only [List.append_assoc] using this

/-- A parsed document is the text it was parsed from: its segments, one behind
the other, are that text, their places cover it without gap or overlap, each
segment is the text between its places, and a region begins at its start
marker. -/
theorem parse_lossless {t : Text} {d : Document} (h : p.parse t = .ok d) :
    (d.segments.flatMap fun s => s.startMarker ++ s.content ++ s.endMarker) = t ∧
      Document.Tiles 0 t.length d.placed ∧
      (∀ q ∈ d.placed, t.slice q.start q.stop = q.segment.text) ∧
      ∀ q ∈ d.regions, ∃ m rest, t.drop q.start = q.segment.startMarker ++ rest ∧
        p.Marks q.segment.startMarker m rest ∧ m.kind = .start ∧ m.id = q.segment.id := by
  obtain ⟨segments, reads, rfl⟩ := parse_eq_ok_iff.mp h
  have htext : segments.flatMap Segment.text = t := reads.text
  refine ⟨?_, ?_, ?_, ?_⟩
  · rw [Document.segments_ofSegments]
    exact htext
  · have htiles := Document.tiles_place 0 segments
    rwa [htext, Nat.zero_add] at htiles
  · intro q hq
    have hslice := Document.slice_place [] [] hq
    rwa [htext, List.nil_append, List.append_nil] at hslice
  · intro q hq
    exact reads.marks_start [] hq

/-- A region between a line comment and a block comment, with plain text on
both sides. -/
theorem parse_lossless_mixed_markers :
    ∃ d, (ofPreset .cLike .default false).parse "a//[[region:A]]\nx/*[[end]]*/b".toList = .ok d ∧
      (d.segments.flatMap fun s => s.startMarker ++ s.content ++ s.endMarker) =
        "a//[[region:A]]\nx/*[[end]]*/b".toList ∧
      Document.Tiles 0 29 d.placed ∧ ∀ q ∈ d.regions, q.start = 1 := by
  have h : (ofPreset .cLike .default false).parse "a//[[region:A]]\nx/*[[end]]*/b".toList =
      .ok ⟨[⟨.plain "a".toList, 0, 1⟩,
        ⟨.region "A".toList "//[[region:A]]\n".toList "x".toList "/*[[end]]*/".toList, 1, 28⟩,
        ⟨.plain "b".toList, 28, 29⟩]⟩ := by decide +kernel
  obtain ⟨htext, htiles, _, _⟩ := parse_lossless h
  exact ⟨_, h, htext, htiles, by decide⟩

end Parser
end ProtectedRegions
