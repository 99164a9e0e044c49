import ProtectedRegions.Proofs.Tables
import ProtectedRegions.Proofs.Seam

/-
  Reading a merged document again

  A merged document has the markers of the fresh text and bodies that were read
  elsewhere. Written out and parsed, it is the same document again, with one
  harmless exception: a start marker that a carriage return ends takes in a line
  feed that the new body begins with. `Segment.reread` is what a segment comes
  back as.

  The walk over the written text follows the walk over the fresh one. What
  stands before a region, its start marker and its end marker are the fresh
  text's own; the only new question is whether a body is read to its end in
  front of its new end marker. In a seamless lexicon it always is. In a lexicon
  that is not, it is exactly when body and marker keep apart.

  What is proved:
    1. `Reads.merge` — the walk over a merged text.
    2. `parse_merge_cLike` — a merged document of the default lexicon is read
       again segment by segment.
    3. `FilledBy.captured` — the bodies of a pool were read in parsed texts.
    4. `parse_merge_iff` — the presets under which a merged document is always
       accepted again, and for all of them when it is read as it was written.
-/

namespace ProtectedRegions

/-! ## What a segment comes back as -/

namespace Segment

/-- The start marker ends in a carriage return and the body begins with a line
feed. -/
def Divided (s : Segment) : Prop :=
  s.startMarker.getLast? = some '\r' ∧ s.content.head? = some '\n'

instance (s : Segment) : Decidable s.Divided := inferInstanceAs (Decidable (_ ∧ _))

/-- The segment as it is read again: two characters that end one line stay
together. -/
def reread (s : Segment) : Segment :=
  if s.Divided then
    { s with startMarker := s.startMarker ++ ['\n'], content := s.content.tail }
  else s

theorem reread_of_divided {s : Segment} {content : Text} (h : s.startMarker.getLast? = some '\r')
    (hcontent : s.content = '\n' :: content) :
    s.reread = { s with startMarker := s.startMarker ++ ['\n'], content := content } := by
  have hdivided : s.Divided := ⟨h, by rw [hcontent]; rfl⟩
  rw [reread, if_pos hdivided, hcontent, List.tail_cons]

@[simp] theorem reread_id (s : Segment) : s.reread.id = s.id := by
  unfold reread
  split <;> rfl

@[simp] theorem reread_endMarker (s : Segment) : s.reread.endMarker = s.endMarker := by
  unfold reread
  split <;> rfl

@[simp] theorem reread_plain (content : Text) : (plain content).reread = plain content :=
  if_neg fun h => by simp [Divided, plain] at h

/-- How a segment that is read again agrees with the one that was written. -/
structure Rereads (written read : Segment) : Prop where
  id : read.id = written.id
  plain : written.id = none → read.content = written.content
  endMarker : read.endMarker = written.endMarker
  joined : read.startMarker ++ read.content = written.startMarker ++ written.content
  whole : ¬ written.Divided →
    read.startMarker = written.startMarker ∧ read.content = written.content
  divided : written.Divided →
    read.startMarker = written.startMarker ++ ['\n'] ∧ written.content = '\n' :: read.content

theorem rereads_reread {s : Segment} (hplain : s.id = none → s.startMarker = []) :
    s.Rereads s.reread := by
  by_cases h : s.Divided
  · have ⟨hlast, hhead⟩ := h
    obtain ⟨content, hcontent⟩ := List.head?_eq_some_iff.mp hhead
    rw [reread_of_divided hlast hcontent]
    refine ⟨rfl, ?_, rfl, by simp [hcontent], fun hnot => absurd h hnot, fun _ => ⟨rfl, hcontent⟩⟩
    intro hid
    simp [hplain hid] at hlast
  · rw [reread, if_neg h]
    exact ⟨rfl, fun _ => rfl, rfl, rfl, fun _ => ⟨rfl, rfl⟩, fun hdivided => absurd hdivided h⟩

@[simp] theorem restore_plain (known : Bodies) (content : Text) :
    (plain content).restore known = plain content := rfl

@[simp] theorem restore_region (known : Bodies) (id opening content ending : Text) :
    (region id opening content ending).restore known =
      region id opening ((known id).getD content) ending := by
  unfold restore
  cases h : known id <;> simp [region, h, withContent]

end Segment

namespace Parser

variable {p : Parser}

theorem map_plainTail {f : Segment → Segment} (h : ∀ t, f (.plain t) = .plain t) (t : Text) :
    (plainTail t).map f = plainTail t := by
  unfold plainTail
  split <;> simp [h]

/-! ## The walk over a merged text -/

/-- One region with a new body, in front of a text that begins as the old one
did: the walk passes over what stands before it and over the body, and stops at
the same two markers. -/
theorem Reads.region_reread (tidy : p.lexicon.Tidy) {before opening content new ending rest behind
    id : Text} {m e : Marker} {segments : List Segment}
    (passes : p.Passes before (opening ++ (content ++ (ending ++ rest))))
    (starts : p.Marks opening m (content ++ (ending ++ rest))) (opens : m.Opens id)
    (body : p.Passes new ending) (ends : p.Marks ending e rest) (closes : e.Closes id)
    (hhead : behind.head? = rest.head?) (tail : p.Reads behind segments) :
    p.Reads (before ++ (opening ++ (new ++ (ending ++ behind))))
      (plainTail before ++ (Segment.region id opening new ending).reread :: segments) := by
  have hending := ends.comment_ne_nil
  have hold : content ++ (ending ++ rest) ≠ [] := by simp [hending]
  have hnil : rest = [] → behind = [] := by
    intro h
    subst h
    exact List.head?_eq_none_iff.mp hhead
  have hends : p.Marks ending e behind := by
    refine ends.follow tidy hnil ?_
    rw [hhead]
    exact ends.head_ne tidy
  have hpasses : ∀ t, p.Passes before (opening ++ t) := by
    intro t
    rw [starts.passes_iff tidy (fun h => absurd h hold)]
    exact (starts.passes_iff tidy (fun h => h) before).mp passes
  by_cases h : (Segment.region id opening new ending).Divided
  · -- the line feed becomes a part of the start marker
    have ⟨hlast, hfeed⟩ := h
    obtain ⟨new', rfl⟩ := List.head?_eq_some_iff.mp hfeed
    have hbody := (passes_lineFeed_iff tidy).mp body
    have hstarts := starts.extend tidy hold hlast (new' ++ (ending ++ behind))
    have hreads := Reads.region (by simpa using hpasses _) hstarts opens
      ((hends.passes_iff tidy (fun h => h) new').mpr hbody) hends closes tail
    rw [Segment.reread_of_divided hlast rfl]
    simpa [Segment.region] using hreads
  · have hstarts : p.Marks opening m (new ++ (ending ++ behind)) := by
      refine starts.follow tidy (fun h => absurd h hold) ?_
      intro hlast
      -- an empty body leaves the end marker behind the start marker
      cases new with
      | nil =>
        rw [List.nil_append, List.head?_append_of_ne_nil _ hending]
        exact ends.comment_head_ne tidy
      | cons c new => exact fun hfeed => h ⟨hlast, hfeed⟩
    rw [Segment.reread, if_neg h]
    have hbody := (hends.passes_iff tidy (fun h => h) new).mpr body
    exact .region (hpasses _) hstarts opens hbody hends closes tail

/-- The walk over a merged text: where each body that a region now has is read to
its end in front of the region's end marker, the segments are the merged ones as
they are read again. The text begins as the fresh one did. -/
theorem Reads.merge (tidy : p.lexicon.Tidy) {known : Bodies} {t : Text} {segments : List Segment}
    (h : p.Reads t segments)
    (hbody : ∀ s ∈ segments, ∀ id, s.id = some id →
      p.Passes ((known id).getD s.content) s.endMarker) :
    p.Reads ((segments.map (·.restore known)).flatMap Segment.text)
        ((segments.map (·.restore known)).map .reread) ∧
      ((segments.map (·.restore known)).flatMap Segment.text).head? = t.head? := by
  induction h with
  | @plain t passes =>
    rw [map_plainTail (Segment.restore_plain known), map_plainTail Segment.reread_plain,
      flatMap_plainTail]
    exact ⟨.plain passes, rfl⟩
  | @region before opening content ending rest id m e segments passes starts opens body ends closes
      _ ih =>
    obtain ⟨tail, hhead⟩ := ih fun s hs => hbody s (by simp [hs])
    have hnew := hbody (.region id opening content ending) (by simp) id rfl
    simp only [Segment.region] at hnew
    rw [List.map_append, map_plainTail (Segment.restore_plain known), List.map_cons,
      Segment.restore_region, List.flatMap_append, flatMap_plainTail, List.flatMap_cons,
      List.map_append, map_plainTail Segment.reread_plain, List.map_cons]
    generalize (known id).getD content = new at hnew ⊢
    generalize (segments.map (·.restore known)).flatMap Segment.text = behind at tail hhead ⊢
    -- `behind` is the merged text of the later segments, which begins as `rest` does
    have hreads := Reads.region_reread tidy passes starts opens hnew ends closes hhead tail
    have hopening := starts.comment_ne_nil
    refine ⟨by simpa [Segment.text, Segment.region] using hreads, ?_⟩
    cases before with
    | nil =>
      simp only [Segment.region, Segment.text, List.nil_append, List.append_assoc]
      rw [List.head?_append_of_ne_nil _ hopening, List.head?_append_of_ne_nil _ hopening]
    | cons c before => rfl

theorem Reads.mem (tidy : p.lexicon.Tidy) {t : Text} {segments : List Segment}
    (h : p.Reads t segments) {s : Segment} (hs : s ∈ segments) :
    (∃ content, s = .plain content) ∨ s.isRegion ∧
      ∃ m rest, p.Marks s.endMarker m rest ∧ p.Passes s.content s.endMarker := by
  have hplain : ∀ t, s ∈ plainTail t → ∃ content, s = .plain content := by
    intro t ht
    unfold plainTail at ht
    split at ht
    · simp at ht
    · exact ⟨t, List.mem_singleton.mp ht⟩
  induction h with
  | plain => exact .inl (hplain _ hs)
  | region _ _ _ body ends _ _ ih =>
    rcases List.mem_append.mp hs with hs | hs
    · exact .inl (hplain _ hs)
    · rcases List.mem_cons.mp hs with rfl | hs
      · exact .inr ⟨rfl, _, _, ends, (ends.passes_iff tidy (fun h => h) _).mp body⟩
      · exact ih hs

/-! ## Documents -/

/-- The body was captured: it is the body of a region of some text that the
parser accepts. -/
def Captured (p : Parser) (body : Text) : Prop :=
  ∃ t d, p.parse t = .ok d ∧ ∃ q ∈ d.regions, q.segment.content = body

theorem Captured.passes (tidy : p.lexicon.Tidy) {body : Text} (h : p.Captured body) :
    ∃ ending m rest, p.Marks ending m rest ∧ p.Passes body ending := by
  obtain ⟨t, d, hd, q, hq, rfl⟩ := h
  obtain ⟨segments, reads, rfl⟩ := parse_eq_ok_iff.mp hd
  obtain ⟨hmem, hregion⟩ := List.mem_filter.mp hq
  have hs : q.segment ∈ segments := by
    rw [← Document.segments_place 0 segments]
    exact List.mem_map_of_mem hmem
  rcases reads.mem tidy hs with ⟨content, hplain⟩ | ⟨_, m, rest, marks, passes⟩
  · rw [hplain] at hregion
    cases hregion
  · exact ⟨_, m, rest, marks, passes⟩

/-- Where each known body is read to its end in front of its end marker, the
merged document is read again. -/
theorem parse_merge (tidy : p.lexicon.Tidy) {known : Bodies} {fresh : Text} {d : Document}
    (hd : p.parse fresh = .ok d)
    (hbody : ∀ s ∈ d.segments, ∀ id, s.id = some id → ∀ body, known id = some body →
      p.Passes body s.endMarker) :
    p.parse (d.merge known).text =
      .ok (.ofSegments ((d.merge known).segments.map .reread)) := by
  obtain ⟨segments, reads, rfl⟩ := parse_eq_ok_iff.mp hd
  rw [Document.segments_ofSegments] at hbody
  have hnew : ∀ s ∈ segments, ∀ id, s.id = some id →
      p.Passes ((known id).getD s.content) s.endMarker := by
    intro s hs id hid
    cases hknown : known id with
    | some body => exact hbody s hs id hid body hknown
    | none =>
      rcases reads.mem tidy hs with ⟨content, rfl⟩ | ⟨_, _, _, _, passes⟩
      · cases hid
      · exact passes
  refine parse_eq_ok_iff.mpr ⟨_, ?_, rfl⟩
  simpa [Document.merge, Document.text] using (reads.merge tidy hnew).1

/-- In a seamless lexicon every captured body is read to its end in front of every
region's end marker. -/
theorem Captured.passes_of_seamless (tidy : p.lexicon.Tidy) (seamless : p.lexicon.Seamless)
    {body : Text} (h : p.Captured body) {fresh : Text} {d : Document} (hd : p.parse fresh = .ok d)
    {s : Segment} (hs : s ∈ d.segments) (hregion : s.isRegion) : p.Passes body s.endMarker := by
  obtain ⟨segments, reads, rfl⟩ := parse_eq_ok_iff.mp hd
  rw [Document.segments_ofSegments] at hs
  obtain ⟨ending, _, _, hold, passes⟩ := h.passes tidy
  rcases reads.mem tidy hs with ⟨content, rfl⟩ | ⟨_, _, _, hnew, _⟩
  · cases hregion
  · exact hold.passes_of_seamless tidy seamless hnew passes

theorem rereads_merge (tidy : p.lexicon.Tidy) (known : Bodies) {fresh : Text} {d : Document}
    (hd : p.parse fresh = .ok d) : ∀ s ∈ (d.merge known).segments, s.Rereads s.reread := by
  obtain ⟨segments, reads, rfl⟩ := parse_eq_ok_iff.mp hd
  intro s hs
  rw [Document.merge, Document.segments_ofSegments, Document.segments_ofSegments] at hs
  obtain ⟨own, hown, rfl⟩ := List.mem_map.mp hs
  refine Segment.rereads_reread ?_
  intro hid
  rcases reads.mem tidy hown with ⟨content, rfl⟩ | ⟨hregion, _⟩
  · rfl
  · rw [Segment.restore_id] at hid
    simp [Segment.isRegion, hid] at hregion

theorem ids_reread (segments : List Segment) :
    (Document.ofSegments (segments.map .reread)).ids = segments.filterMap (·.id) := by
  simp [Document.ids, List.filterMap_map]

/-- What is merged under the default lexicon from captured bodies is accepted
again, and segment by segment it is what was written. -/
theorem parse_merge_cLike (hp : p.lexicon = Preset.cLike.lexicon) {known : Bodies} {fresh : Text}
    {d : Document} (hd : p.parse fresh = .ok d)
    (hknown : ∀ id body, known id = some body → p.Captured body) :
    ∃ again : Document, p.parse (d.merge known).text = .ok again ∧
      again.segments.length = (d.merge known).segments.length ∧
      again.ids = (d.merge known).ids ∧
      ∀ (i : Nat) (s : Segment), (d.merge known).segments[i]? = some s →
        ∃ s', again.segments[i]? = some s' ∧ s.Rereads s' := by
  have tidy : p.lexicon.Tidy := hp ▸ Preset.cLike.tidy
  have seamless : p.lexicon.Seamless := hp ▸ (Preset.seamless_iff .cLike).mpr (by decide)
  refine ⟨_, parse_merge tidy hd ?_, by simp, ids_reread _, ?_⟩
  · intro s hs id hid body hbody
    exact (hknown id body hbody).passes_of_seamless tidy seamless hd hs
      (by simp [Segment.isRegion, hid])
  · intro i s hs
    refine ⟨s.reread, by simp [hs], rereads_merge tidy known hd s (List.mem_of_getElem? hs)⟩

/-- A body that was captured in front of a block comment, put behind a start
marker that a carriage return ends: the body's line feed moves into the marker. -/
theorem parse_merge_cLike_lineFeed :
    ∃ d again,
      (ofPreset .cLike .default false).parse "//[[region:A]]\rx\n//[[end]]".toList = .ok d ∧
      (ofPreset .cLike .default false).parse
        (d.merge fun id => if id = ['A'] then some "\n/*y*/".toList else none).text = .ok again ∧
      again.ids = [['A']] ∧ ∀ s, again.segments[0]? = some s →
        s.startMarker = "//[[region:A]]\r\n".toList ∧ s.content = "/*y*/".toList := by
  have hold : (ofPreset .cLike .default false).parse "/*[[region:B]]*/\n/*y*//*[[end]]*/".toList =
      .ok ⟨[⟨.region ['B'] "/*[[region:B]]*/".toList "\n/*y*/".toList "/*[[end]]*/".toList,
        0, 33⟩]⟩ := by
    decide +kernel
  have hfresh : (ofPreset .cLike .default false).parse "//[[region:A]]\rx\n//[[end]]".toList =
      .ok ⟨[⟨.region ['A'] "//[[region:A]]\r".toList "x\n".toList "//[[end]]".toList, 0, 26⟩]⟩ := by
    decide +kernel
  have hknown : ∀ id body, (if id = ['A'] then some "\n/*y*/".toList else none) = some body →
      (ofPreset .cLike .default false).Captured body := by
    intro id body h
    split at h
    · obtain rfl := Option.some.inj h
      exact ⟨_, _, hold, _, List.mem_singleton_self _, rfl⟩
    · cases h
  obtain ⟨again, hagain, _, hids, hall⟩ := parse_merge_cLike rfl hfresh hknown
  obtain ⟨s', hs', hrereads⟩ := hall 0 _ rfl
  refine ⟨_, again, hfresh, hagain, hids, ?_⟩
  intro s hs
  obtain rfl : s' = s := Option.some.inj (hs'.symm.trans hs)
  obtain ⟨hstart, hcontent⟩ := hrereads.divided (by decide)
  exact ⟨hstart, (List.cons.inj hcontent).2.symm⟩

end Parser

/-! ## Pools -/

namespace Pool

variable {p : Parser} {pool : Pool}

/-- A pool that was filled with documents this parser parsed. -/
inductive FilledBy (p : Parser) : Pool → Prop where
  | empty : FilledBy p .empty
  | ingest {pool next : Pool} {t : Text} {d : Document} {n : Nat} (filled : FilledBy p pool)
      (source : Option Text) (parsed : p.parse t = .ok d)
      (taken : pool.ingest d source = .ok n next) : FilledBy p next
  | freeze {pool : Pool} (filled : FilledBy p pool) : FilledBy p pool.freeze

theorem mem_of_collect {source : Option Text} {segments : List Segment} {q : Pool}
    {added next : Table Segment} (h : (collect source added segments).run pool = .ok next q)
    {x : Text × Segment} (hx : x ∈ next) : x ∈ added ∨ x.2 ∈ segments ∧ x.2.isRegion := by
  induction segments generalizing added with
  | nil =>
    cases h
    exact .inl hx
  | cons s segments ih =>
    rw [run_collect_cons] at h
    have checks := checks_check pool source added s
    cases hs : (check source added s).run pool with
    | error e q' =>
      rw [hs] at h
      cases h
    | ok more q' =>
      rw [hs] at h checks
      cases checks with
      | plain | again | sameFile =>
        rcases ih h with hold | ⟨hmem, hregion⟩
        · exact .inl hold
        · exact .inr ⟨List.mem_cons_of_mem s hmem, hregion⟩
      | new own =>
        rcases ih h with hold | ⟨hmem, hregion⟩
        · rcases List.mem_append.mp hold with hold | hnew
          · exact .inl hold
          · rw [List.mem_singleton.mp hnew]
            exact .inr ⟨List.mem_cons_self, by simp [Segment.isRegion, own]⟩
        · exact .inr ⟨List.mem_cons_of_mem s hmem, hregion⟩

theorem FilledBy.captured (h : pool.FilledBy p) :
    ∀ x ∈ pool.regions, p.Captured x.2.content := by
  induction h with
  | empty => simp [Pool.empty]
  | freeze _ ih => exact ih
  | @ingest pool next t d n _ source parsed taken ih =>
    obtain ⟨-, added, hadded, -, rfl⟩ := ingest_eq_ok taken
    intro x hx
    rcases mem_regions_extend hx with hx | hx
    · exact ih x hx
    · rcases mem_of_collect hadded hx with hx | ⟨hs, hregion⟩
      · cases hx
      · obtain ⟨q, hq, hsegment⟩ := List.mem_map.mp hs
        exact ⟨t, d, parsed, q, List.mem_filter.mpr ⟨hq, by rwa [hsegment]⟩, by rw [hsegment]⟩

theorem FilledBy.captured_body (h : pool.FilledBy p) {id body : Text}
    (hbody : pool.body? id = some body) : p.Captured body := by
  obtain ⟨s, hs, rfl⟩ := Option.map_eq_some_iff.mp hbody
  exact h.captured (id, s) (Table.mem_of_lookup hs)

end Pool

namespace Parser

variable {p : Parser}

/-- Each body that is known of a region keeps apart from the region's end marker. -/
def KeepsApart (p : Parser) (d : Document) (known : Bodies) : Prop :=
  ∀ s ∈ d.segments, ∀ id, s.id = some id → ∀ body, known id = some body → p.Joins body s.endMarker

theorem passes_of_reread (tidy : p.lexicon.Tidy) {s : Segment}
    (h : p.Passes s.reread.content s.endMarker) : p.Passes s.content s.endMarker := by
  by_cases hdivided : s.Divided
  · obtain ⟨hlast, hhead⟩ := hdivided
    obtain ⟨content, hcontent⟩ := List.head?_eq_some_iff.mp hhead
    rw [Segment.reread_of_divided hlast hcontent] at h
    rw [hcontent]
    exact (passes_lineFeed_iff tidy).mpr h
  · rwa [Segment.reread, if_neg hdivided] at h

/-- Only where bodies and end markers keep apart can a merged document be read
again as it was written. -/
theorem keepsApart_of_parse_merge (tidy : p.lexicon.Tidy) {known : Bodies} {d : Document}
    (hknown : ∀ id body, known id = some body → p.Captured body)
    (h : p.parse (d.merge known).text =
      .ok (.ofSegments ((d.merge known).segments.map .reread))) : p.KeepsApart d known := by
  intro s hs id hid body hbody
  obtain ⟨segments, reads, heq⟩ := parse_eq_ok_iff.mp h
  have hsegments := congrArg Document.segments heq
  rw [Document.segments_ofSegments, Document.segments_ofSegments] at hsegments
  have hcontent : (s.restore known).content = body := by
    simp [Segment.restore, hid, hbody, Segment.withContent]
  have hmem : (s.restore known).reread ∈ segments := by
    rw [← hsegments, Document.merge, Document.segments_ofSegments]
    exact List.mem_map_of_mem (List.mem_map_of_mem hs)
  obtain ⟨ending, _, _, hold, passes⟩ := (hknown id body hbody).passes tidy
  rcases reads.mem tidy hmem with ⟨content, hplain⟩ | ⟨_, _, _, hnew, hpass⟩
  · have hplainId := congrArg Segment.id hplain
    simp [hid, Segment.plain] at hplainId
  · rw [Segment.reread_endMarker] at hpass
    have := passes_of_reread tidy hpass
    rw [Segment.reread_endMarker, Segment.restore_endMarker] at hnew
    rw [Segment.restore_endMarker, hcontent] at this
    exact (hold.passes_iff_joins tidy hnew passes).mp this

theorem parse_merge_of_keepsApart (tidy : p.lexicon.Tidy) {known : Bodies} {fresh : Text}
    {d : Document} (hd : p.parse fresh = .ok d)
    (hknown : ∀ id body, known id = some body → p.Captured body) (h : p.KeepsApart d known) :
    p.parse (d.merge known).text =
      .ok (.ofSegments ((d.merge known).segments.map .reread)) := by
  refine parse_merge tidy hd ?_
  intro s hs id hid body hbody
  obtain ⟨segments, reads, rfl⟩ := parse_eq_ok_iff.mp hd
  rw [Document.segments_ofSegments] at hs
  obtain ⟨ending, _, _, hold, passes⟩ := (hknown id body hbody).passes tidy
  rcases reads.mem tidy hs with ⟨content, rfl⟩ | ⟨_, _, _, hnew, _⟩
  · cases hid
  · exact (hold.passes_iff_joins tidy hnew passes).mpr (h s (by simpa using hs) id hid body hbody)

theorem exists_parse_merge (tidy : p.lexicon.Tidy) {known : Bodies} {fresh : Text} {d : Document}
    (hd : p.parse fresh = .ok d) (hknown : ∀ id body, known id = some body → p.Captured body)
    (h : p.KeepsApart d known) :
    ∃ again, p.parse (d.merge known).text = .ok again ∧ again.ids = d.ids := by
  refine ⟨_, parse_merge_of_keepsApart tidy hd hknown h, ?_⟩
  rw [ids_reread]
  exact Document.ids_merge d known

end Parser

/-! ## The presets -/

namespace Preset

/-- Under the preset's lexicon, whatever is merged from a pool of parsed documents
is accepted again, and with the ids of the fresh document. -/
def Stable (preset : Preset) : Prop :=
  ∀ (p : Parser) (fresh : Text) (d : Document) (pool : Pool), p.lexicon = preset.lexicon →
    p.parse fresh = .ok d → pool.FilledBy p →
    ∃ again, p.parse (d.merge pool.body?).text = .ok again ∧ again.ids = d.ids

theorem stable_of_seamless {preset : Preset} (seamless : preset.lexicon.Seamless) :
    preset.Stable := by
  intro p fresh d pool hp hd hpool
  have tidy : p.lexicon.Tidy := hp ▸ preset.tidy
  have hknown : ∀ id body, pool.body? id = some body → p.Captured body :=
    fun _ _ hbody => hpool.captured_body hbody
  refine Parser.exists_parse_merge tidy hd hknown (Parser.keepsApart_of_parse_merge tidy hknown ?_)
  refine Parser.parse_merge tidy hd ?_
  intro s hs id hid body hbody
  exact (hknown id body hbody).passes_of_seamless tidy (hp ▸ seamless) hd hs
    (by simp [Segment.isRegion, hid])

theorem not_stable_of_refused {preset : Preset} {p : Parser} (hp : p.lexicon = preset.lexicon)
    {old fresh : Text} {captured d : Document} {pool : Pool} {n : Nat} {e : ParseError}
    (hold : p.parse old = .ok captured) (hpool : Pool.empty.ingest captured none = .ok n pool)
    (hd : p.parse fresh = .ok d) (hrefused : p.parse (d.merge pool.body?).text = .error e) :
    ¬ preset.Stable := by
  intro h
  obtain ⟨again, hagain, _⟩ := h p fresh d pool hp hd (.ingest .empty none hold hpool)
  cases hrefused.symm.trans hagain

/-- A body that ends in a dash, captured in front of a block comment and put in
front of a line comment: the comment begins at that dash, and the end marker is
lost in it. -/
theorem not_stable_sql : ¬ sql.Stable := by
  have hold : (Parser.ofPreset .sql .default false).parse "--[[region:A]]\nx-/*[[end]]*/".toList =
      .ok ⟨[⟨.region ['A'] "--[[region:A]]\n".toList ['x', '-'] "/*[[end]]*/".toList, 0, 28⟩]⟩ := by
    decide +kernel
  have hfresh : (Parser.ofPreset .sql .default false).parse "--[[region:A]]\ny\n--[[end]]".toList =
      .ok ⟨[⟨.region ['A'] "--[[region:A]]\n".toList ['y', '\n'] "--[[end]]".toList, 0, 26⟩]⟩ := by
    decide +kernel
  have hrefused : (Parser.ofPreset .sql .default false).parse "--[[region:A]]\nx---[[end]]".toList =
      .error (.malformed (.unterminated ['A']) 1) := by
    decide +kernel
  exact not_stable_of_refused rfl hold rfl hfresh hrefused

/-- The same with a slash, captured in front of a comment after a hash sign and put
in front of one after two slashes. -/
theorem not_stable_php : ¬ php.Stable := by
  have hold : (Parser.ofPreset .php .default false).parse "#[[region:A]]\nx/#[[end]]".toList =
      .ok ⟨[⟨.region ['A'] "#[[region:A]]\n".toList ['x', '/'] "#[[end]]".toList, 0, 24⟩]⟩ := by
    decide +kernel
  have hfresh : (Parser.ofPreset .php .default false).parse "#[[region:A]]\ny\n//[[end]]".toList =
      .ok ⟨[⟨.region ['A'] "#[[region:A]]\n".toList ['y', '\n'] "//[[end]]".toList, 0, 25⟩]⟩ := by
    decide +kernel
  have hrefused : (Parser.ofPreset .php .default false).parse "#[[region:A]]\nx///[[end]]".toList =
      .error (.malformed (.unterminated ['A']) 1) := by
    decide +kernel
  exact not_stable_of_refused rfl hold rfl hfresh hrefused

/-- A merge can produce a text that the parser refuses. -/
theorem not_forall_stable : ¬ ∀ preset : Preset, preset.Stable := fun h => not_stable_sql (h .sql)

end Preset

namespace Parser

/-- Merged documents are always accepted again, with the ids of the fresh
document, under five of the presets and not under the other two. Under every
preset, what is merged is read again as it was written exactly when bodies and
end markers keep apart, and it then has these ids. -/
theorem parse_merge_iff (preset : Preset) :
    (preset.Stable ↔ preset ≠ .sql ∧ preset ≠ .php) ∧
    ∀ (p : Parser) (fresh : Text) (d : Document) (pool : Pool), p.lexicon = preset.lexicon →
      p.parse fresh = .ok d → pool.FilledBy p →
      (p.parse (d.merge pool.body?).text =
          .ok (.ofSegments ((d.merge pool.body?).segments.map .reread)) ↔
        p.KeepsApart d pool.body?) ∧
      (p.KeepsApart d pool.body? →
        ∃ again, p.parse (d.merge pool.body?).text = .ok again ∧ again.ids = d.ids) := by
  refine ⟨⟨?_, ?_⟩, ?_⟩
  · intro hstable
    refine ⟨?_, ?_⟩
    · intro h
      subst h
      exact Preset.not_stable_sql hstable
    · intro h
      subst h
      exact Preset.not_stable_php hstable
  · intro hpreset
    exact Preset.stable_of_seamless ((Preset.seamless_iff preset).mpr hpreset)
  · intro p fresh d pool hp hd hpool
    have tidy : p.lexicon.Tidy := hp ▸ preset.tidy
    have hknown : ∀ id body, pool.body? id = some body → p.Captured body :=
      fun _ _ hbody => hpool.captured_body hbody
    exact ⟨⟨keepsApart_of_parse_merge tidy hknown, parse_merge_of_keepsApart tidy hd hknown⟩,
      exists_parse_merge tidy hd hknown⟩

/-- A body from between block comments, put between line comments. -/
theorem parse_merge_iff_lua :
    ∃ d pool again, (ofPreset .lua (.patterns BuiltInOracle.words.patterns) false).parse
        "--PROTECTED REGION ID(A) START\ny\n--PROTECTED REGION END".toList = .ok d ∧
      Pool.FilledBy (ofPreset .lua (.patterns BuiltInOracle.words.patterns) false) pool ∧
      pool.body? ['A'] = some ['x'] ∧
      (ofPreset .lua (.patterns BuiltInOracle.words.patterns) false).parse
        (d.merge pool.body?).text = .ok again ∧ again.ids = [['A']] := by
  have hold : (ofPreset .lua (.patterns BuiltInOracle.words.patterns) false).parse
      "--[[PROTECTED REGION ID(A) START]]x--[[PROTECTED REGION END]]".toList =
      .ok ⟨[⟨.region ['A'] "--[[PROTECTED REGION ID(A) START]]".toList ['x']
        "--[[PROTECTED REGION END]]".toList, 0, 61⟩]⟩ := by
    decide +kernel
  have hfresh : (ofPreset .lua (.patterns BuiltInOracle.words.patterns) false).parse
      "--PROTECTED REGION ID(A) START\ny\n--PROTECTED REGION END".toList =
      .ok ⟨[⟨.region ['A'] "--PROTECTED REGION ID(A) START\n".toList ['y', '\n']
        "--PROTECTED REGION END".toList, 0, 55⟩]⟩ := by
    decide +kernel
  have hpool := Pool.FilledBy.empty.ingest none hold rfl
  have hstable := (parse_merge_iff .lua).1.mpr (by decide)
  obtain ⟨again, hparse, hids⟩ := hstable _ _ _ _ rfl hfresh hpool
  exact ⟨_, _, again, hfresh, hpool, rfl, hparse, hids⟩

end Parser
end ProtectedRegions
