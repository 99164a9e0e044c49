import Mathlib.Data.List.Induction
import Mathlib.Data.List.Nodup
import ProtectedRegions.Pool

/-
  Tables — what an operation leaves in the tables of a pool

  A document is offered to a pool by a program of two loops. The first one looks at
  the segments and can stop with a refusal; the second one writes the new regions into
  the table of regions and their source into the table of sources. Either loop could
  write: that the first one does not is what makes a refusal harmless, and it is read
  off the program here, step by step.

  Seen from outside a pool is one list of entries, an id with its region and its
  source, although the two are kept apart.

  What is proved:
    1. `checks_check` — everything that one step of the first loop can come to.
    2. `run_collect_cases` — the first loop writes nothing, however it ends.
    3. `run_forM_store` and `find?_extend` — what the second loop writes.
    4. `ingest_eq_ok` and `ingest_eq_error` — what a document does to a pool.
-/

namespace ProtectedRegions

namespace Table

variable {α : Type} {t : Table α} {id key : Text} {value : α}

theorem lookup_cons_of_ne (rest : Table α) (h : key ≠ id) :
    List.lookup key ((id, value) :: rest) = rest.lookup key := by
  rw [List.lookup_cons, beq_false_of_ne h]

theorem lookup_put (id : Text) (value : α) (t : Table α) (key : Text) :
    (t.put id value).lookup key = if key = id then some value else t.lookup key := by
  induction t with
  | nil =>
    by_cases h : key = id
    · simp [put, h]
    · rw [put, lookup_cons_of_ne _ h, if_neg h]
  | cons x rest ih =>
    obtain ⟨own, old⟩ := x
    by_cases hkey : key = own
    · subst hkey
      by_cases hown : key = id
      · simp [put, hown]
      · simp [put, hown]
    · rw [lookup_cons_of_ne rest hkey]
      by_cases hown : own = id
      · rw [put, if_pos hown, lookup_cons_of_ne rest hkey, if_neg (hown ▸ hkey)]
      · rw [put, if_neg hown, lookup_cons_of_ne _ hkey, ih]

theorem put_of_lookup_eq_none (h : t.lookup id = none) : t.put id value = t ++ [(id, value)] := by
  induction t with
  | nil => rfl
  | cons x rest ih =>
    obtain ⟨own, old⟩ := x
    rw [List.lookup_cons] at h
    split at h
    · cases h
    · next hown =>
      have hne : own ≠ id := fun heq => by simp [heq] at hown
      rw [put, if_neg hne, ih h, List.cons_append]

theorem keys_put_congr {β : Type} {u : Table β} {other : β}
    (h : u.map Prod.fst = t.map Prod.fst) :
    (u.put id other).map Prod.fst = (t.put id value).map Prod.fst := by
  induction t generalizing u with
  | nil =>
    obtain rfl := List.map_eq_nil_iff.mp h
    rfl
  | cons x rest ih =>
    obtain ⟨y, more, rfl⟩ := List.exists_cons_of_ne_nil (l := u) (by rintro rfl; simp at h)
    obtain ⟨hhead, htail⟩ := List.cons.inj h
    obtain ⟨own, old⟩ := x
    obtain ⟨own', old'⟩ := y
    obtain rfl : own' = own := hhead
    by_cases hown : own' = id
    · simp [put, hown, htail]
    · simp [put, hown, ih htail]

theorem lookup_eq_none_iff_keys : t.lookup id = none ↔ id ∉ t.map Prod.fst := by
  rw [List.lookup_eq_none_iff, List.mem_map]
  constructor
  · rintro h ⟨x, hx, rfl⟩
    simpa using h x hx
  · intro h x hx
    simpa using fun heq => h ⟨x, hx, heq.symm⟩

theorem mem_of_lookup (h : t.lookup id = some value) : (id, value) ∈ t := by
  obtain ⟨front, rest, rfl, -⟩ := List.lookup_eq_some_iff.mp h
  exact List.mem_append_right front List.mem_cons_self

theorem mem_of_mem_put {x : Text × α} (h : x ∈ t.put id value) : x ∈ t ∨ x = (id, value) := by
  induction t with
  | nil => exact .inr (List.mem_singleton.mp h)
  | cons y rest ih =>
    obtain ⟨own, old⟩ := y
    rw [put] at h
    split at h
    · next hown =>
      rcases List.mem_cons.mp h with hx | hx
      · exact .inr (hown ▸ hx)
      · exact .inl (List.mem_cons_of_mem _ hx)
    · rcases List.mem_cons.mp h with hx | hx
      · exact .inl (hx ▸ List.mem_cons_self)
      · exact (ih hx).imp_left (List.mem_cons_of_mem _)

/-- A look-up finds the first pair with the id. -/
theorem lookup_eq_find? (t : Table α) (id : Text) :
    t.lookup id = (t.find? (·.1 = id)).map Prod.snd := by
  induction t with
  | nil => rfl
  | cons x rest ih =>
    obtain ⟨own, old⟩ := x
    by_cases h : own = id
    · simp [h]
    · have hne : id ≠ own := fun heq => h heq.symm
      rw [lookup_cons_of_ne rest hne, ih, List.find?_cons_of_neg (by simpa using h)]

end Table

structure PoolEntry where
  id : Text
  segment : Segment
  source : Option Text
  deriving DecidableEq, Repr

namespace Pool

variable {p q : Pool} {source : Option Text} {added next : Table Segment} {id : Text}

/-! ## What is in a pool -/

def entries (p : Pool) : List PoolEntry := p.regions.map fun x => ⟨x.1, x.2, p.source? x.1⟩

/-- The entry of an id. -/
def find? (p : Pool) (id : Text) : Option PoolEntry :=
  (p.region? id).map fun s => ⟨id, s, p.source? id⟩

def ids (p : Pool) : List Text := p.regions.map Prod.fst

theorem find?_eq_find?_entries (p : Pool) (id : Text) :
    p.find? id = p.entries.find? (·.id = id) := by
  rw [find?, region?, Table.lookup_eq_find?, entries, List.find?_map]
  show _ = (p.regions.find? (·.1 = id)).map fun x => PoolEntry.mk x.1 x.2 (p.source? x.1)
  cases h : p.regions.find? (·.1 = id) with
  | none => rfl
  | some x =>
    have hid : x.1 = id := by simpa using List.find?_some h
    simp [hid]

theorem find?_eq_none_iff : p.find? id = none ↔ p.region? id = none := Option.map_eq_none_iff

theorem region?_eq_none_iff : p.region? id = none ↔ id ∉ p.ids := Table.lookup_eq_none_iff_keys

theorem body?_eq (p : Pool) (id : Text) : p.body? id = (p.find? id).map (·.segment.content) := by
  rw [body?, find?, Option.map_map]
  rfl

/-- Every region has an entry in the table of sources. -/
def Traced (p : Pool) : Prop := ∀ id, p.region? id ≠ none → p.sources.lookup id ≠ none

/-- The two tables have the same ids, in the same order. -/
def Aligned (p : Pool) : Prop := p.sources.map Prod.fst = p.regions.map Prod.fst

theorem Aligned.traced (h : p.Aligned) : p.Traced := by
  intro id hregion hsource
  rw [Table.lookup_eq_none_iff_keys, h] at hsource
  exact hregion (Table.lookup_eq_none_iff_keys.mpr hsource)

/-! ## Looking at a document -/

/-- What looking at one more segment can come to. The pool is the same in every case. -/
inductive Checks (p : Pool) (source : Option Text) (added : Table Segment) (s : Segment) :
    EStateM.Result PoolError Pool (Table Segment) → Prop where
  | plain (noRegion : s.id = none) : Checks p source added s (.ok added p)
  | again {id : Text} {first : Segment} (own : s.id = some id)
      (met : added.lookup id = some first) (same : first.content = s.content) :
      Checks p source added s (.ok added p)
  | differs {id : Text} {first : Segment} (own : s.id = some id)
      (met : added.lookup id = some first) (other : first.content ≠ s.content) :
      Checks p source added s (.error (.duplicate id source source) p)
  | new {id : Text} (own : s.id = some id) (unmet : added.lookup id = none)
      (unknown : p.region? id = none) : Checks p source added s (.ok (added ++ [(id, s)]) p)
  | untraced {id : Text} {known : Segment} (own : s.id = some id) (unmet : added.lookup id = none)
      (pooled : p.region? id = some known) (lost : p.sources.lookup id = none) :
      Checks p source added s (.error (.untraced id) p)
  | sameFile {id : Text} {known : Segment} {first : Option Text} (own : s.id = some id)
      (unmet : added.lookup id = none) (pooled : p.region? id = some known)
      (from_ : p.sources.lookup id = some first)
      (same : source.isSome = true ∧ first = source ∧ known.content = s.content) :
      Checks p source added s (.ok added p)
  | taken {id : Text} {known : Segment} {first : Option Text} (own : s.id = some id)
      (unmet : added.lookup id = none) (pooled : p.region? id = some known)
      (from_ : p.sources.lookup id = some first)
      (other : ¬ (source.isSome = true ∧ first = source ∧ known.content = s.content)) :
      Checks p source added s (.error (.duplicate id first source) p)

theorem checks_check (p : Pool) (source : Option Text) (added : Table Segment) (s : Segment) :
    Checks p source added s ((check source added s).run p) := by
  unfold check
  split
  · next noRegion => exact .plain noRegion
  · next id own =>
    split
    · next first met =>
      split
      · next same => exact .again own met same
      · next other => exact .differs own met other
    · next unmet =>
      rw [EStateM.run_bind, EStateM.run_get]
      simp only
      cases pooled : p.region? id with
      | none => exact .new own unmet pooled
      | some known =>
        simp only
        rw [EStateM.run_bind, EStateM.run_get]
        simp only
        cases from_ : p.sources.lookup id with
        | none => exact .untraced own unmet pooled from_
        | some first =>
          simp only
          split
          · next same => exact .sameFile own unmet pooled from_ same
          · next other => exact .taken own unmet pooled from_ other

theorem run_collect_cons (s : Segment) (segments : List Segment) :
    (collect source added (s :: segments)).run p =
      match (check source added s).run p with
      | .ok next q => (collect source next segments).run q
      | .error e q => .error e q := by
  rw [collect, List.foldlM_cons, EStateM.run_bind]
  cases (check source added s).run p <;> rfl

/-- Looking at segments leaves the pool as it is, however it ends. -/
theorem run_collect_cases (p : Pool) (source : Option Text) (added : Table Segment)
    (segments : List Segment) :
    (∃ next, (collect source added segments).run p = .ok next p) ∨
      ∃ e, (collect source added segments).run p = .error e p := by
  induction segments generalizing added with
  | nil => exact .inl ⟨added, rfl⟩
  | cons s segments ih =>
    rw [run_collect_cons]
    have checks := checks_check p source added s
    cases h : (check source added s).run p with
    | ok next q =>
      rw [h] at checks
      cases checks <;> exact ih _
    | error e q =>
      rw [h] at checks
      cases checks <;> exact .inr ⟨_, rfl⟩

/-! ## Writing the tables -/

/-- The pool with a region and its source written into the tables. -/
def stored (source : Option Text) (p : Pool) (region : Text × Segment) : Pool :=
  { p with
      regions := p.regions.put region.1 region.2
      sources := p.sources.put region.1 source }

/-- The pool with regions of one source written into the tables. -/
def extend (p : Pool) (source : Option Text) (added : Table Segment) : Pool :=
  added.foldl (stored source) p

theorem run_store (region : Text × Segment) :
    (store source region).run p = .ok () (p.stored source region) := rfl

theorem run_forM_store (p : Pool) (source : Option Text) (added : Table Segment) :
    (added.forM (store source)).run p = .ok () (p.extend source added) := by
  induction added generalizing p with
  | nil => rfl
  | cons region rest ih =>
    rw [List.forM_eq_forM, List.forM_cons, EStateM.run_bind, run_store]
    exact ih (p.stored source region)

theorem extend_concat (p : Pool) (source : Option Text) (added : Table Segment)
    (region : Text × Segment) :
    p.extend source (added ++ [region]) = (p.extend source added).stored source region := by
  rw [extend, extend, List.foldl_append]
  rfl

theorem mem_regions_extend {x : Text × Segment} (h : x ∈ (p.extend source added).regions) :
    x ∈ p.regions ∨ x ∈ added := by
  induction added using List.reverseRecOn with
  | nil => exact .inl h
  | append_singleton added region ih =>
    rw [extend_concat] at h
    rcases Table.mem_of_mem_put h with h | rfl
    · exact (ih h).imp_right (List.mem_append_left _)
    · exact .inr (by simp)

theorem find?_stored (p : Pool) (source : Option Text) (id key : Text) (s : Segment) :
    (p.stored source (id, s)).find? key =
      if key = id then some ⟨id, s, source⟩ else p.find? key := by
  unfold find? region? source? stored
  simp only [Table.lookup_put]
  by_cases h : key = id
  · simp [h]
  · simp [h]

/-- What is added to a pool has ids that are new to it, each once. -/
structure Adds (p : Pool) (added : Table Segment) : Prop where
  fresh : ∀ id ∈ added.map Prod.fst, p.region? id = none
  distinct : (added.map Prod.fst).Nodup

theorem adds_nil (p : Pool) : p.Adds [] := ⟨nofun, List.nodup_nil⟩

theorem Adds.concat (adds : p.Adds added) (unmet : added.lookup id = none)
    (unknown : p.region? id = none) (s : Segment) : p.Adds (added ++ [(id, s)]) where
  fresh := by
    intro own hown
    rw [List.map_append, List.map_singleton] at hown
    rcases List.mem_append.mp hown with hown | hown
    · exact adds.fresh own hown
    · rw [List.mem_singleton.mp hown]
      exact unknown
  distinct := by
    rw [List.map_append, List.map_singleton]
    apply adds.distinct.append (List.nodup_singleton id)
    rw [List.disjoint_singleton]
    exact Table.lookup_eq_none_iff_keys.mp unmet

theorem Adds.of_concat {region : Text × Segment} (adds : p.Adds (added ++ [region])) :
    p.Adds added ∧ added.lookup region.1 = none ∧ p.region? region.1 = none := by
  obtain ⟨fresh, distinct⟩ := adds
  rw [List.map_append, List.map_singleton] at fresh distinct
  obtain ⟨hnodup, -, hdisjoint⟩ := List.nodup_append'.mp distinct
  rw [List.disjoint_singleton] at hdisjoint
  refine ⟨⟨fun own hown => fresh own (List.mem_append_left _ hown), hnodup⟩,
    Table.lookup_eq_none_iff_keys.mpr hdisjoint, fresh _ (by simp)⟩

theorem find?_extend (adds : p.Adds added) (key : Text) :
    (p.extend source added).find? key =
      ((added.lookup key).map fun s => ⟨key, s, source⟩).or (p.find? key) := by
  induction added using List.reverseRecOn with
  | nil => rfl
  | append_singleton added region ih =>
    obtain ⟨id, s⟩ := region
    obtain ⟨adds, unmet, -⟩ := adds.of_concat
    rw [extend_concat, find?_stored, ih adds, List.lookup_append]
    by_cases h : key = id
    · subst h
      rw [if_pos rfl, unmet]
      simp
    · rw [if_neg h, Table.lookup_cons_of_ne [] h, List.lookup_nil, Option.or_none]

theorem regions_extend (adds : p.Adds added) :
    (p.extend source added).regions = p.regions ++ added := by
  induction added using List.reverseRecOn with
  | nil => exact (List.append_nil _).symm
  | append_singleton added region ih =>
    obtain ⟨adds, unmet, unknown⟩ := adds.of_concat
    have hnew : (p.regions ++ added).lookup region.1 = none := by
      rw [List.lookup_append, unmet, Option.or_none]
      exact unknown
    rw [extend_concat, stored, ih adds]
    simp only
    rw [Table.put_of_lookup_eq_none hnew, List.append_assoc]

theorem source?_of_find? {e : PoolEntry} (h : p.find? id = some e) : p.source? id = e.source := by
  obtain ⟨s, -, rfl⟩ := Option.map_eq_some_iff.mp h
  rfl

theorem entries_extend (adds : p.Adds added) :
    (p.extend source added).entries =
      p.entries ++ added.map fun x => ⟨x.1, x.2, source⟩ := by
  rw [entries, regions_extend adds, List.map_append, entries]
  congr 1
  · apply List.map_congr_left
    intro x hx
    cases hregion : p.region? x.1 with
    | none => exact absurd (List.mem_map_of_mem hx) (Table.lookup_eq_none_iff_keys.mp hregion)
    | some s =>
      have hunmet : added.lookup x.1 = none := by
        apply Table.lookup_eq_none_iff_keys.mpr
        intro hmem
        rw [adds.fresh _ hmem] at hregion
        cases hregion
      rw [source?_of_find? (e := ⟨x.1, s, p.source? x.1⟩)]
      rw [find?_extend adds, hunmet, Pool.find?, hregion]
      rfl
  · apply List.map_congr_left
    intro x hx
    cases hmet : added.lookup x.1 with
    | none => exact absurd (List.mem_map_of_mem hx) (Table.lookup_eq_none_iff_keys.mp hmet)
    | some s =>
      rw [source?_of_find? (e := ⟨x.1, s, source⟩)]
      rw [find?_extend adds, hmet]
      rfl

theorem Aligned.stored (h : p.Aligned) (source : Option Text) (region : Text × Segment) :
    (p.stored source region).Aligned :=
  Table.keys_put_congr h

theorem Aligned.extend (h : p.Aligned) (source : Option Text) (added : Table Segment) :
    (p.extend source added).Aligned := by
  induction added using List.reverseRecOn with
  | nil => exact h
  | append_singleton added region ih =>
    rw [extend_concat]
    exact ih.stored source region

/-- Where the tables have the same ids, both grow at their end. -/
theorem sources_extend (h : p.Aligned) (adds : p.Adds added) :
    (p.extend source added).sources = p.sources ++ added.map fun x => (x.1, source) := by
  induction added using List.reverseRecOn with
  | nil => exact (List.append_nil _).symm
  | append_singleton added region ih =>
    obtain ⟨adds, unmet, unknown⟩ := adds.of_concat
    have aligned := h.extend source added
    have hnew : (p.extend source added).sources.lookup region.1 = none := by
      rw [Table.lookup_eq_none_iff_keys, aligned, ← Table.lookup_eq_none_iff_keys,
        regions_extend adds, List.lookup_append, unmet, Option.or_none]
      exact unknown
    rw [extend_concat, stored, List.map_append, List.map_singleton, ← List.append_assoc, ← ih adds]
    exact Table.put_of_lookup_eq_none hnew

theorem frozen_extend (p : Pool) (source : Option Text) (added : Table Segment) :
    (p.extend source added).frozen = p.frozen := by
  induction added using List.reverseRecOn with
  | nil => rfl
  | append_singleton added region ih =>
    rw [extend_concat]
    exact ih

/-! ## Offering a document -/

theorem run_takeIn (p : Pool) (d : Document) (source : Option Text) :
    p.ingest d source =
      if p.frozen then .error .frozen p
      else match (collect source [] d.segments).run p with
        | .ok added q => .ok added.length (q.extend source added)
        | .error e q => .error e q := by
  unfold ingest takeIn
  rw [EStateM.run_bind, EStateM.run_get]
  simp only
  split
  · rfl
  · rw [EStateM.run_bind]
    cases (collect source [] d.segments).run p with
    | error e q => rfl
    | ok added q =>
      simp only
      rw [EStateM.run_bind]
      simp only [run_forM_store]
      rfl

theorem ingest_eq_ok {d : Document} {n : Nat} (h : p.ingest d source = .ok n q) :
    p.frozen = false ∧ ∃ added, (collect source [] d.segments).run p = .ok added p ∧
      n = added.length ∧ q = p.extend source added := by
  rw [run_takeIn] at h
  split at h
  · cases h
  · next hopen =>
    rcases run_collect_cases p source [] d.segments with ⟨added, hadded⟩ | ⟨e, herror⟩
    · rw [hadded] at h
      cases h
      exact ⟨by simpa using hopen, added, hadded, rfl, rfl⟩
    · rw [herror] at h
      cases h

/-- A document that is refused has written nothing. -/
theorem ingest_eq_error {d : Document} {e : PoolError} (h : p.ingest d source = .error e q) :
    q = p ∧ (p.frozen = true ∧ e = .frozen ∨
      p.frozen = false ∧ (collect source [] d.segments).run p = .error e p) := by
  rw [run_takeIn] at h
  split at h
  · next hfrozen =>
    cases h
    exact ⟨rfl, .inl ⟨hfrozen, rfl⟩⟩
  · next hopen =>
    have hopen : p.frozen = false := by simpa using hopen
    rcases run_collect_cases p source [] d.segments with ⟨added, hadded⟩ | ⟨e', herror⟩
    · rw [hadded] at h
      cases h
    · rw [herror] at h
      cases h
      exact ⟨rfl, .inr ⟨hopen, herror⟩⟩

end Pool
end ProtectedRegions
