import Mathlib.Data.List.Chain
import ProtectedRegions.Proofs.Cutting

/-
  Shaping — what the segments of a parsed document are like

  A parser cuts a text where markers are, and nowhere else. So a plain segment is
  all that stands between two regions, and is left out where nothing does. A region
  has a comment on either side: the oracle takes the one for the start of its id and
  the other for an end that names no other id. In between there may be comments, but
  none that is a marker. Each of these comments is one for itself as well, and so is
  the body a text for itself: what is cut off behind them is not needed to see where
  they end.

  What is proved:
    1. `Reads.plain_nonempty` and `Reads.alternates` — plain segments are not empty,
       and no two of them follow one another.
    2. `Reads.head_region` — the region that a reading begins with, with its markers.
    3. `Marks.isComment` — a marker is a comment of the lexicon, with whatever part
       of the text behind it.
    4. `parse_shape` — the shape of the document that a text is.
-/

namespace ProtectedRegions

namespace Lexicon

variable {lexicon : Lexicon}

/-- In front of `rest` the text is one comment of the lexicon: a syntax begins with it, and
behind the body it ends. -/
def IsComment (lexicon : Lexicon) (text body rest : Text) : Prop :=
  ∃ c ∈ lexicon, ∃ ending, text = c.opening ++ (body ++ ending) ∧
    lexicon.Begins (text ++ rest) c ∧ c.closing.Ends body ending rest

theorem Cuts.isComment {cut : Cut} {rest : Text} (h : lexicon.Cuts (cut.comment ++ rest) cut) :
    lexicon.IsComment cut.comment cut.body rest := by
  have hrest := h.rest_eq
  obtain ⟨c, begins, hopening, ends, -⟩ := cuts_iff.mp h
  rw [hrest] at ends
  refine ⟨c, begins.mem, cut.ending, ?_, begins, ends⟩
  rw [Cut.comment, hopening, List.append_assoc]

end Lexicon

namespace Parser

variable {p : Parser} {t : Text} {segments : List Segment}

/-- A marker is a comment of the lexicon, in front of all that follows it or of a part of that. -/
theorem Marks.isComment {comment rest : Text} {m : Marker} (h : p.Marks comment m rest) :
    ∃ body, p.oracle.classify body = .ok (some m) ∧
      ∀ front, front <+: rest → p.lexicon.IsComment comment body front := by
  obtain ⟨cut, hcut, rfl, hm⟩ := h
  refine ⟨cut.body, hm, ?_⟩
  intro front hfront
  obtain ⟨after, rfl⟩ := hfront
  exact @Lexicon.Cuts.isComment _ { cut with rest := front } front hcut.front

/-! ## Plain segments -/

theorem mem_plainTail {s : Segment} (h : s ∈ plainTail t) : s = .plain t ∧ t ≠ [] := by
  unfold plainTail at h
  split at h
  · cases h
  · next hne => exact ⟨List.mem_singleton.mp h, hne⟩

theorem Reads.plain_nonempty (h : p.Reads t segments) :
    ∀ s ∈ segments, s.id = none → s = .plain s.content ∧ s.content ≠ [] := by
  have hplain : ∀ (u : Text) (s : Segment), s ∈ plainTail u →
      s = .plain s.content ∧ s.content ≠ [] := by
    intro u s hs
    obtain ⟨rfl, hne⟩ := mem_plainTail hs
    exact ⟨rfl, hne⟩
  induction h with
  | plain => exact fun s hs _ => hplain _ s hs
  | region _ _ _ _ _ _ _ ih =>
    intro s hs hid
    rcases List.mem_append.mp hs with hs | hs
    · exact hplain _ s hs
    · rcases List.mem_cons.mp hs with rfl | hs
      · cases hid
      · exact ih s hs hid

theorem isChain_plainTail (R : Segment → Segment → Prop) (t : Text) :
    (plainTail t).IsChain R := by
  unfold plainTail
  split
  · exact .nil
  · exact .singleton _

theorem Reads.alternates (h : p.Reads t segments) :
    segments.IsChain fun s next => s.isRegion ∨ next.isRegion := by
  induction h with
  | plain => exact isChain_plainTail _ _
  | region _ _ _ _ _ _ _ ih =>
    -- the region stands between what comes before it and what comes behind it
    apply List.IsChain.append (isChain_plainTail _ _)
    · exact ih.cons fun next _ => .inl rfl
    · intro s _ next hnext
      obtain rfl := Option.some.inj hnext
      exact .inr rfl

/-! ## Regions -/

/-- The region that a reading begins with, and the way of the parser through it. -/
theorem Reads.head_region {s : Segment} {id : Text} (h : p.Reads t (s :: segments))
    (hid : s.id = some id) :
    ∃ opening content ending rest m e, s = .region id opening content ending ∧
      t = opening ++ (content ++ (ending ++ rest)) ∧
      p.Marks opening m (content ++ (ending ++ rest)) ∧ m.Opens id ∧
      p.Passes content (ending ++ rest) ∧ p.Marks ending e rest ∧ e.Closes id := by
  have hplain : ∀ u, s ∉ plainTail u := by
    intro u hs
    obtain ⟨rfl, -⟩ := mem_plainTail hs
    cases hid
  generalize hwhole : s :: segments = whole at h
  cases h with
  | plain => exact absurd (hwhole ▸ List.mem_cons_self) (hplain _)
  | @region before opening content ending rest own m e tail _ starts opens body ends closes _ =>
    cases hbefore : plainTail before with
    | nil =>
      -- nothing stands before the region
      have hnil : before = [] := by
        rw [← flatMap_plainTail before, hbefore]
        rfl
      rw [hbefore, List.nil_append] at hwhole
      obtain ⟨rfl, -⟩ := List.cons.inj hwhole
      obtain rfl : own = id := Option.some.inj hid
      subst hnil
      exact ⟨opening, content, ending, rest, m, e, rfl, rfl, starts, opens, body, ends, closes⟩
    | cons head more =>
      rw [hbefore] at hwhole
      obtain ⟨rfl, -⟩ := List.cons.inj hwhole
      exact absurd (hbefore ▸ List.mem_cons_self) (hplain before)

theorem Passes.no_regions {content rest : Text} (h : p.Passes content rest) :
    ∃ d, p.parse content = .ok d ∧ d.regions = [] := by
  have hreads : p.Reads content (plainTail content) := .plain (Passes.front (t := []) h)
  exact ⟨_, parse_eq_ok_iff.mpr ⟨_, hreads, rfl⟩, Document.regions_place_plainTail 0 content⟩

/-- What a region of a text with an id is like. -/
structure Delimits (p : Parser) (t : Text) (q : Placed) (id : Text) : Prop where
  named : id ≠ []
  /-- Its start marker is a comment, with the text behind it or less of that, and the oracle
  takes it for the start of this id. -/
  start : ∃ body, p.oracle.classify body = .ok (some ⟨.start, some id⟩) ∧
    ∀ rest, rest <+: t.drop (q.start + q.segment.startMarker.length) →
      p.lexicon.IsComment q.segment.startMarker body rest
  /-- Its end marker is one too, and the oracle takes it for an end, with this id or with none. -/
  finish : ∃ body name, p.oracle.classify body = .ok (some ⟨.finish, name⟩) ∧
    (name = none ∨ name = some id) ∧
    ∀ rest, rest <+: t.drop q.stop → p.lexicon.IsComment q.segment.endMarker body rest
  /-- Its content is a text of its own, without a region. -/
  content : ∃ own, p.parse q.segment.content = .ok own ∧ own.regions = []

theorem Reads.delimits {before id : Text} {q : Placed} (h : p.Reads t (q.segment :: segments))
    (hid : q.segment.id = some id) (hstart : q.start = before.length)
    (hstop : q.stop = q.start + q.segment.text.length) : p.Delimits (before ++ t) q id := by
  obtain ⟨opening, content, ending, rest, m, e, hs, rfl, starts, opens, body, ends, closes⟩ :=
    h.head_region hid
  have hopening : (before ++ (opening ++ (content ++ (ending ++ rest)))).drop
      (q.start + opening.length) = content ++ (ending ++ rest) := by
    rw [hstart, ← List.append_assoc, ← List.length_append, List.drop_left]
  have hbehind : (before ++ (opening ++ (content ++ (ending ++ rest)))).drop q.stop = rest := by
    have hwhole : before ++ (opening ++ (content ++ (ending ++ rest))) =
        before ++ (opening ++ content ++ ending) ++ rest := by simp
    have hlength : q.stop = (before ++ (opening ++ content ++ ending)).length := by
      rw [hstop, hstart, hs, List.length_append]
      rfl
    rw [hwhole, hlength, List.drop_left]
  obtain ⟨kind, own⟩ := m
  obtain ⟨rfl, rfl, hne⟩ := opens
  obtain ⟨kind, name⟩ := e
  obtain ⟨rfl, hname⟩ := closes
  refine ⟨hne, ?_, ?_, ?_⟩
  · rw [hs]
    simp only [Segment.region]
    rw [hopening]
    exact starts.isComment
  · rw [hbehind, hs]
    obtain ⟨text, hanswer, hcomment⟩ := ends.isComment
    exact ⟨text, name, hanswer, hname, hcomment⟩
  · rw [hs]
    exact body.no_regions

/-- The shape of the document that a text is: its plain segments have no markers, are not empty
and do not follow one another, and its regions are delimited by their markers. -/
theorem parse_shape {d : Document} (h : p.parse t = .ok d) :
    (∀ s ∈ d.segments, s.id = none → s = .plain s.content ∧ s.content ≠ []) ∧
      (d.segments.IsChain fun s next => s.isRegion ∨ next.isRegion) ∧
      ∀ q ∈ d.placed, ∀ id, q.segment.id = some id → p.Delimits t q id := by
  obtain ⟨segments, reads, rfl⟩ := parse_eq_ok_iff.mp h
  rw [Document.segments_ofSegments]
  refine ⟨reads.plain_nonempty, reads.alternates, ?_⟩
  intro q hq id hid
  obtain ⟨first, second, rfl, hstart, hstop⟩ := Document.exists_append_of_mem_place hq
  -- the region is divided from what stands before it, and begins a reading of its own
  obtain ⟨-, hbehind⟩ := reads.divide
  rw [Nat.zero_add] at hstart
  rw [← reads.text, List.flatMap_append]
  exact hbehind.delimits hid hstart hstop

/-- The content of the region has a comment, which the longer of two tokens begins and a token
with a line break in it ends. -/
theorem parse_shape_comment :
    ∃ d q, nested.parse "a/A\nx//c\n/y/e\nb".toList = .ok d ∧ q ∈ d.placed ∧
      q.segment = .region ['A'] "/A\n".toList "x//c\n/y".toList "/e\n".toList ∧
      nested.Delimits "a/A\nx//c\n/y/e\nb".toList q ['A'] := by
  have h : nested.parse "a/A\nx//c\n/y/e\nb".toList =
      .ok ⟨[⟨.plain "a".toList, 0, 1⟩,
        ⟨.region ['A'] "/A\n".toList "x//c\n/y".toList "/e\n".toList, 1, 14⟩,
        ⟨.plain "b".toList, 14, 15⟩]⟩ := by
    decide +kernel
  obtain ⟨-, -, hregions⟩ := parse_shape h
  exact ⟨_, _, h, .tail _ (.head _), rfl, hregions _ (.tail _ (.head _)) _ rfl⟩

end Parser
end ProtectedRegions
