import ProtectedRegions.Proofs.Restoring

/-
  Filling — bodies from a pool of one document, and from the document itself

  A merge takes the bodies from a pool, a fill-in from the document that is in the
  place of the fresh one. Both keep the first region of each id: the pool looks a
  region up among the entries it is about to add, the document among the regions it
  has met. An id that is met again with another body stops the pool, and is passed
  over by the document; met again with the same body it is passed over by both.

  What is proved:
    1. `collect_meet` — what segments add to a new pool are their first regions.
    2. `regions_of_ingest` — so are the regions of a pool with one document.
    3. `ingest_refuses_iff` — a new pool refuses a document in which one id has two
       bodies, and no other.
    4. `ingest_fillIn` — a merge from the pool is the fill-in from the document.
-/

namespace ProtectedRegions

namespace Document

/-- Two regions of the document have one id and different bodies. -/
def Conflicting (d : Document) : Prop :=
  ∃ q ∈ d.regions, ∃ r ∈ d.regions,
    q.segment.id = r.segment.id ∧ q.segment.content ≠ r.segment.content

theorem mem_captures_of_mem_regions {d : Document} {q : Placed} (hq : q ∈ d.regions)
    (source : Option Text) : ∃ id, q.segment.id = some id ∧
      ⟨id, q.segment.content, source⟩ ∈ Segment.captures source d.segments := by
  obtain ⟨hplaced, hregion⟩ := List.mem_filter.mp hq
  obtain ⟨id, hid⟩ := Option.isSome_iff_exists.mp hregion
  exact ⟨id, hid, q.segment, List.mem_map_of_mem hplaced, hid, rfl, rfl⟩

theorem exists_region_of_mem_captures {d : Document} {source : Option Text} {c : Capture}
    (hc : c ∈ Segment.captures source d.segments) :
    ∃ q ∈ d.regions, c = ⟨c.id, q.segment.content, source⟩ ∧ q.segment.id = some c.id := by
  obtain ⟨s, hs, hid, hbody, hsource⟩ := hc
  obtain ⟨q, hq, rfl⟩ := List.mem_map.mp hs
  refine ⟨q, List.mem_filter.mpr ⟨hq, ?_⟩, ?_, hid⟩
  · exact Option.isSome_iff_exists.mpr ⟨c.id, hid⟩
  · rw [hbody, ← hsource]

/-- What the regions of a document are captured as agrees, unless an id has two bodies. -/
theorem agree_captures_iff {d : Document} {source : Option Text} :
    Agree (Segment.captures source d.segments) ↔ ¬ d.Conflicting := by
  refine ⟨?_, ?_⟩
  · intro agree h
    obtain ⟨q, hq, r, hr, hsame, hcontent⟩ := h
    obtain ⟨id, hqid, hqmem⟩ := mem_captures_of_mem_regions hq source
    obtain ⟨id', hrid, hrmem⟩ := mem_captures_of_mem_regions hr source
    have hid : id = id' := Option.some.inj (by rw [← hqid, hsame, hrid])
    apply hcontent
    exact (Capture.mk.inj (agree _ hqmem _ hrmem hid)).2.1
  · intro h a ha b hb hid
    obtain ⟨q, hq, hqa, hqid⟩ := exists_region_of_mem_captures ha
    obtain ⟨r, hr, hrb, hrid⟩ := exists_region_of_mem_captures hb
    have hsame : q.segment.id = r.segment.id := by rw [hqid, hrid, hid]
    have hcontent : q.segment.content = r.segment.content := by
      by_contra hother
      exact h ⟨q, hq, r, hr, hsame, hother⟩
    rw [hqa, hrb, hid, hcontent]

end Document

namespace Pool

variable {source : Option Text} {seen : List (Text × Placed)} {q : Placed} {placed : List Placed}
  {added : Table Segment} {d : Document} {n : Nat} {pool next : Pool}

/-- The regions that were met, as they are put into a table. -/
def entered (seen : List (Text × Placed)) : Table Segment := seen.map fun x => (x.1, x.2.segment)

theorem lookup_entered (seen : List (Text × Placed)) (id : Text) :
    (entered seen).lookup id = (seen.lookup id).map (·.segment) := by
  induction seen with
  | nil => rfl
  | cons first seen ih =>
    obtain ⟨own, q⟩ := first
    by_cases hid : id = own
    · simp [entered, hid]
    · rw [Table.lookup_cons_of_ne seen hid, ← ih]
      exact Table.lookup_cons_of_ne _ hid

/-- One more segment that is not refused changes the table of additions as it changes the
first regions that were met. -/
theorem Checks.meet (h : Checks empty source (entered seen) q.segment (.ok added next)) :
    added = entered (Document.meet seen q) := by
  unfold Document.meet
  cases h with
  | plain noRegion =>
    rw [noRegion]
  | again own met same =>
    rw [lookup_entered] at met
    obtain ⟨first, hfirst, -⟩ := Option.map_eq_some_iff.mp met
    rw [own]
    simp only [hfirst, Option.isSome_some, if_true]
  | new own unmet unknown =>
    rw [lookup_entered, Option.map_eq_none_iff] at unmet
    rw [own]
    simp [unmet, entered]
  | sameFile own unmet pooled from_ same => cases pooled

theorem collect_meet (h : (collect source (entered seen) (placed.map (·.segment))).run empty =
      .ok added next) : added = entered (placed.foldl Document.meet seen) := by
  induction placed generalizing seen with
  | nil =>
    cases h
    rfl
  | cons q placed ih =>
    rw [List.map_cons, run_collect_cons] at h
    have checks := checks_check empty source (entered seen) q.segment
    cases hq : (check source (entered seen) q.segment).run empty with
    | error e p =>
      rw [hq] at h
      cases h
    | ok more p =>
      rw [hq] at h checks
      obtain rfl : p = empty := by cases checks <;> rfl
      obtain rfl := checks.meet
      exact ih h

theorem regions_of_ingest (h : empty.ingest d source = .ok n pool) :
    pool.regions = entered d.firstRegions := by
  obtain ⟨-, added, hadded, -, rfl⟩ := ingest_eq_ok h
  obtain ⟨adds, -, -⟩ := (collect_spec _ d.segments empty.adds_nil).1 added empty hadded
  rw [regions_extend adds, Document.firstRegions_eq]
  exact @collect_meet source [] d.placed added empty hadded

theorem body?_of_ingest (h : empty.ingest d source = .ok n pool) : pool.body? = d.body? := by
  funext id
  rw [body?, region?, regions_of_ingest h, lookup_entered, Document.body?, Option.map_map]
  rfl

theorem fresh_empty (source : Option Text) (more : Set Capture) : empty.Fresh source more := by
  intro _
  rw [captures_empty]
  exact (unmet_empty more).symm

/-- A new pool refuses a document exactly when one id has two bodies in it. -/
theorem ingest_refuses_iff (d : Document) (source : Option Text) :
    (∃ e, empty.ingest d source = .error e empty) ↔ d.Conflicting := by
  obtain ⟨hok, herror⟩ := @ingest_spec empty source rfl d
  rw [captures_empty, Set.empty_union, Document.agree_captures_iff] at herror
  refine ⟨?_, ?_⟩
  · intro h
    obtain ⟨e, he⟩ := h
    by_contra hclear
    exact (herror e empty he).2.2 ⟨hclear, fresh_empty source _⟩
  · intro hconflict
    cases h : empty.ingest d source with
    | error e pool =>
      obtain ⟨rfl, -⟩ := ingest_eq_error h
      exact ⟨e, rfl⟩
    | ok n pool =>
      -- the pool that is made would have two bodies under one id
      obtain ⟨-, -, hcaptures, -⟩ := hok n pool h
      rw [captures_empty, Set.empty_union] at hcaptures
      have hagree := pool.agree_captures
      rw [hcaptures] at hagree
      exact absurd hconflict (Document.agree_captures_iff.mp hagree)

/-- A new pool refuses a document in which two regions have one id and different bodies, and no
other. A merge from a pool that took in the document is the fill-in from the document. -/
theorem ingest_fillIn (fresh previous : Document) (source : Option Text) :
    ((∃ e, empty.ingest previous source = .error e empty) ↔
      ∃ q ∈ previous.regions, ∃ r ∈ previous.regions,
        q.segment.id = r.segment.id ∧ q.segment.content ≠ r.segment.content) ∧
    ∀ n pool, empty.ingest previous source = .ok n pool →
      fresh.merge pool.body? = fresh.fillIn previous := by
  refine ⟨ingest_refuses_iff previous source, ?_⟩
  intro n pool h
  rw [body?_of_ingest h]
  rfl

/-- A region that was kept twice with one body, around another. -/
def keptTwice : Document :=
  .ofSegments [.region ['A'] ['<'] ['x'] ['>'], .region ['B'] ['<'] [] ['>'],
    .region ['A'] ['<', '<'] ['x'] ['>', '>']]

/-- The pool takes the region in once, and other markers stay as they are in the fresh
document. With another body the second time, it is refused. -/
theorem ingest_fillIn_keptTwice :
    (∃ pool, empty.ingest keptTwice none = .ok 2 pool ∧
      Document.merge (.ofSegments [.plain ['n'], .region ['A'] ['('] ['y', 'y'] [')']]) pool.body? =
        ⟨[⟨.plain ['n'], 0, 1⟩, ⟨.region ['A'] ['('] ['x'] [')'], 1, 4⟩]⟩) ∧
    ∃ e, empty.ingest (.ofSegments (keptTwice.segments ++ [.region ['B'] [] ['z'] []])) none =
      .error e empty := by
  refine ⟨⟨_, rfl, ?_⟩, ?_⟩
  · rw [(ingest_fillIn _ keptTwice none).2 2 _ rfl]
    decide
  · apply (ingest_fillIn keptTwice _ none).1.mpr
    decide

end Pool
end ProtectedRegions
