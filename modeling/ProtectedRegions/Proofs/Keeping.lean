import ProtectedRegions.Proofs.Pooling

/-
  Keeping — what a pool has after a run of calls

  A pool is filled by one call after the other, and any call can be refused: a
  document because of a duplicate, every document once the pool is frozen. A call
  leaves some pool behind whatever comes of it, and what it may do to the tables is
  little: it adds to both at their ends, or freezes the pool, or does nothing.

  A document is looked at from its first segment to its last, and a region goes
  into the table of additions when its id is neither there nor in the pool. The
  additions are therefore the first regions of the new ids, in their order, and
  they reach the pool together or not at all.

  What is proved:
    1. `Checks.cases` and `keys_of_collect` — what one segment adds, and which ids a
       document adds.
    2. `Sound.perform` and `grows_perform` — what one call keeps.
    3. `after_append_only` — the same of every run of calls on a new pool.
-/

namespace ProtectedRegions
namespace Pool

variable {p q : Pool} {source : Option Text} {added next : Table Segment} {id : Text}

/-! ## What a document adds -/

/-- A segment that is let through adds nothing, because it is no region or its id was
met, or it adds itself under an id that is new. -/
theorem Checks.cases {s : Segment} (h : Checks p source added s (.ok next q)) :
    q = p ∧ ((next = added ∧ ∀ id, s.id = some id → id ∈ p.ids ++ added.map Prod.fst) ∨
      ∃ id, s.id = some id ∧ id ∉ p.ids ++ added.map Prod.fst ∧ next = added ++ [(id, s)]) := by
  have only : ∀ {own}, s.id = some own → own ∈ p.ids ++ added.map Prod.fst →
      ∀ id, s.id = some id → id ∈ p.ids ++ added.map Prod.fst := by
    intro own hown hmet id hid
    rwa [Option.some.inj (hid.symm.trans hown)]
  cases h with
  | plain noRegion =>
    refine ⟨rfl, .inl ⟨rfl, fun id hid => ?_⟩⟩
    rw [noRegion] at hid
    cases hid
  | again own met same =>
    refine ⟨rfl, .inl ⟨rfl, only own (List.mem_append_right _ ?_)⟩⟩
    by_contra hout
    rw [Table.lookup_eq_none_iff_keys.mpr hout] at met
    cases met
  | new own unmet unknown =>
    refine ⟨rfl, .inr ⟨_, own, ?_, rfl⟩⟩
    rw [List.mem_append, not_or]
    exact ⟨region?_eq_none_iff.mp unknown, Table.lookup_eq_none_iff_keys.mp unmet⟩
  | sameFile own unmet pooled from_ same =>
    refine ⟨rfl, .inl ⟨rfl, only own (List.mem_append_left _ ?_)⟩⟩
    by_contra hout
    rw [region?_eq_none_iff.mpr hout] at pooled
    cases pooled

/-- The ids of a list that are not known, each once, in the order in which they
first appear. -/
def newIds (known ids : List Text) : List Text := (ids.filter (· ∉ known)).eraseDups

theorem newIds_nil (known : List Text) : newIds known [] = [] := rfl

theorem newIds_cons_of_mem {known ids : List Text} (h : id ∈ known) :
    newIds known (id :: ids) = newIds known ids := by
  rw [newIds, List.filter_cons_of_neg (by simpa using h), newIds]

theorem newIds_cons_of_not_mem {known ids : List Text} (h : id ∉ known) :
    newIds known (id :: ids) = id :: newIds (known ++ [id]) ids := by
  have hrest : (ids.filter (· ∉ known)).filter (fun other => !other == id) =
      ids.filter (· ∉ known ++ [id]) := by
    rw [List.filter_filter]
    apply List.filter_congr
    intro other _
    by_cases hother : other = id <;> simp [hother]
  rw [newIds, List.filter_cons_of_pos (by simpa using h), List.eraseDups_cons, hrest, newIds]

/-- The ids that segments add are the new ones among theirs, and each region is added
under its own. -/
theorem keys_of_collect {segments : List Segment}
    (h : (collect source added segments).run p = .ok next q) :
    next.map Prod.fst = added.map Prod.fst ++
        newIds (p.ids ++ added.map Prod.fst) (segments.filterMap (·.id)) ∧
      ((∀ x ∈ added, x.2.id = some x.1) → ∀ x ∈ next, x.2.id = some x.1) := by
  induction segments generalizing added with
  | nil =>
    cases h
    rw [List.filterMap_nil, newIds_nil, List.append_nil]
    exact ⟨rfl, fun own => own⟩
  | cons s segments ih =>
    rw [run_collect_cons] at h
    have checks := checks_check p source added s
    cases hs : (check source added s).run p with
    | error e q' =>
      rw [hs] at h
      cases h
    | ok more q' =>
      rw [hs] at h checks
      obtain ⟨rfl, hcases⟩ := checks.cases
      obtain ⟨hkeys, hown⟩ := ih h
      rw [hkeys]
      rcases hcases with ⟨rfl, hmet⟩ | ⟨id, hid, hnew, rfl⟩
      · refine ⟨?_, hown⟩
        cases hid : s.id with
        | none => rw [List.filterMap_cons_none hid]
        | some id => rw [List.filterMap_cons_some hid, newIds_cons_of_mem (hmet id hid)]
      · constructor
        · rw [List.filterMap_cons_some hid, newIds_cons_of_not_mem hnew, List.map_append,
            List.map_singleton, List.append_assoc, List.append_assoc, List.singleton_append]
        · intro hadded
          apply hown
          intro x hx
          rcases List.mem_append.mp hx with hx | hx
          · exact hadded x hx
          · rw [List.mem_singleton.mp hx]
            exact hid

theorem ingest_adds {d : Document} {n : Nat} (h : p.ingest d source = .ok n q) :
    ∃ added, p.Adds added ∧ q = p.extend source added ∧ n = added.length ∧
      added.map Prod.fst = newIds p.ids d.ids ∧ ∀ x ∈ added, x.2.id = some x.1 := by
  obtain ⟨-, added, hadded, hn, hq⟩ := ingest_eq_ok h
  obtain ⟨hkeys, hown⟩ := keys_of_collect hadded
  rw [List.map_nil, List.append_nil, List.nil_append] at hkeys
  exact ⟨added, ((collect_spec _ _ p.adds_nil).1 added p hadded).1, hq, hn, hkeys, hown nofun⟩

/-! ## Calls -/

/-- What can be asked of a pool that may change it. -/
inductive Call where
  | ingest (x : Sourced)
  | freeze

/-- The pool that a call leaves, whatever comes of it. -/
def perform (p : Pool) : Call → Pool
  | .ingest x =>
    match p.ingest x.document x.source with
    | .ok _ q => q
    | .error _ q => q
  | .freeze => p.freeze

def after (p : Pool) (calls : List Call) : Pool := calls.foldl perform p

@[simp] theorem after_nil (p : Pool) : p.after [] = p := rfl

@[simp] theorem after_cons (p : Pool) (c : Call) (calls : List Call) :
    p.after (c :: calls) = (p.perform c).after calls := rfl

theorem after_append (p : Pool) (calls more : List Call) :
    p.after (calls ++ more) = (p.after calls).after more := List.foldl_append

theorem perform_of_ok {x : Sourced} {n : Nat} (h : p.ingest x.document x.source = .ok n q) :
    p.perform (.ingest x) = q := by
  rw [perform, h]

/-- A document that is refused leaves the pool as it was. -/
theorem perform_of_error {x : Sourced} {e : PoolError}
    (h : p.ingest x.document x.source = .error e q) : p.perform (.ingest x) = p := by
  rw [perform, h]
  exact (ingest_eq_error h).1

/-- A pool is changed by a call only where it takes a document in, or is frozen. -/
theorem perform_cases (p : Pool) (c : Call) :
    p.perform c = p ∨ p.perform c = p.freeze ∨
      ∃ (x : Sourced) (n : Nat), p.ingest x.document x.source = .ok n (p.perform c) := by
  cases c with
  | freeze => exact .inr (.inl rfl)
  | ingest x =>
    cases h : p.ingest x.document x.source with
    | error e q => exact .inl (perform_of_error h)
    | ok n q => exact .inr (.inr ⟨x, n, by rw [perform_of_ok h, h]⟩)

/-- The tables are in line, and each region is under its own id. -/
structure Sound (p : Pool) : Prop extends p.InLine where
  own : ∀ x ∈ p.regions, x.2.id = some x.1

theorem sound_empty : empty.Sound := ⟨inLine_empty, nofun⟩

theorem Sound.ingest (h : p.Sound) {d : Document} {n : Nat}
    (hok : p.ingest d source = .ok n q) : q.Sound := by
  obtain ⟨hopen, -⟩ := ingest_eq_ok hok
  obtain ⟨added, adds, hq, -, -, hown⟩ := ingest_adds hok
  obtain ⟨-, hinLine, -⟩ := (ingest_spec hopen d).1 n q hok
  refine ⟨hinLine h.toInLine, fun x hx => ?_⟩
  rw [hq, regions_extend adds] at hx
  rcases List.mem_append.mp hx with hx | hx
  · exact h.own x hx
  · exact hown x hx

theorem Sound.perform (h : p.Sound) (c : Call) : (p.perform c).Sound := by
  rcases perform_cases p c with hsame | hfrozen | ⟨x, n, hok⟩
  · rw [hsame]
    exact h
  · rw [hfrozen]
    exact ⟨⟨h.aligned, h.distinct⟩, h.own⟩
  · exact h.ingest hok

theorem Sound.after (h : p.Sound) (calls : List Call) : (p.after calls).Sound := by
  induction calls generalizing p with
  | nil => exact h
  | cons c calls ih => exact ih (h.perform c)

theorem prefix_perform (p : Pool) (c : Call) : p.entries <+: (p.perform c).entries := by
  rcases perform_cases p c with hsame | hfrozen | ⟨x, n, hok⟩
  · exact ⟨[], (List.append_nil _).trans (congrArg entries hsame).symm⟩
  · exact ⟨[], (List.append_nil _).trans (congrArg entries hfrozen).symm⟩
  · obtain ⟨added, adds, hq, -⟩ := ingest_adds hok
    rw [hq, entries_extend adds]
    exact List.prefix_append _ _

theorem prefix_after (p : Pool) (calls : List Call) : p.entries <+: (p.after calls).entries := by
  induction calls generalizing p with
  | nil => exact List.prefix_rfl
  | cons c calls ih => exact (prefix_perform p c).trans (ih _)

theorem find?_of_prefix (h : p.entries <+: q.entries) {e : PoolEntry}
    (hfind : p.find? id = some e) : q.find? id = some e := by
  obtain ⟨more, hmore⟩ := h
  rw [find?_eq_find?_entries] at hfind
  rw [find?_eq_find?_entries, ← hmore, List.find?_append, hfind, Option.some_or]

/-- Both tables of one pool stand at the front of those of another. -/
structure Grows (p q : Pool) : Prop where
  regions : p.regions <+: q.regions
  sources : p.sources <+: q.sources

theorem Grows.refl (p : Pool) : p.Grows p := ⟨List.prefix_rfl, List.prefix_rfl⟩

theorem Grows.trans {r : Pool} (h : p.Grows q) (h' : q.Grows r) : p.Grows r :=
  ⟨h.regions.trans h'.regions, h.sources.trans h'.sources⟩

/-- A call writes nothing but behind what is in the tables. -/
theorem grows_perform (h : p.Aligned) (c : Call) : p.Grows (p.perform c) := by
  rcases perform_cases p c with hsame | hfrozen | ⟨x, n, hok⟩
  · rw [hsame]
    exact .refl p
  · rw [hfrozen]
    exact ⟨List.prefix_rfl, List.prefix_rfl⟩
  · obtain ⟨added, adds, hq, -⟩ := ingest_adds hok
    rw [hq]
    constructor
    · rw [regions_extend adds]
      exact List.prefix_append _ _
    · rw [sources_extend h adds]
      exact List.prefix_append _ _

theorem Sound.grows_after (h : p.Sound) (calls : List Call) : p.Grows (p.after calls) := by
  induction calls generalizing p with
  | nil => exact .refl p
  | cons c calls ih => exact (grows_perform h.aligned c).trans (ih (h.perform c))

/-! ## Freezing -/

theorem ingest_of_frozen (h : p.frozen = true) (d : Document) (source : Option Text) :
    p.ingest d source = .error .frozen p := by
  rw [run_takeIn, if_pos h]

theorem perform_of_frozen (h : p.frozen = true) (c : Call) : p.perform c = p := by
  cases c with
  | ingest x => exact perform_of_error (ingest_of_frozen h _ _)
  | freeze =>
    obtain ⟨regions, sources, frozen⟩ := p
    obtain rfl : frozen = true := h
    rfl

theorem after_of_frozen (h : p.frozen = true) (calls : List Call) : p.after calls = p := by
  induction calls with
  | nil => rfl
  | cons c calls ih => rw [after_cons, perform_of_frozen h, ih]

/-- Taking documents in freezes nothing and thaws nothing. -/
theorem frozen_perform_ingest (p : Pool) (x : Sourced) :
    (p.perform (.ingest x)).frozen = p.frozen := by
  cases h : p.ingest x.document x.source with
  | error e q => rw [perform_of_error h]
  | ok n q =>
    obtain ⟨added, -, rfl, -⟩ := ingest_adds h
    rw [perform_of_ok h, frozen_extend]

theorem frozen_after {calls : List Call} :
    (p.after calls).frozen = true ↔ p.frozen = true ∨ .freeze ∈ calls := by
  induction calls generalizing p with
  | nil => simp
  | cons c calls ih =>
    rw [after_cons, ih]
    cases c with
    | ingest x => simp [frozen_perform_ingest]
    | freeze => simp [perform, Pool.freeze]

/-! ## Runs -/

/-- What a document that is taken in does to a pool: the pool grows by the count
that is returned, the new ids stand behind the others in the order in which they
first appear in the document, each from its source, and every region of the document
is there. -/
structure TakenIn (p : Pool) (x : Sourced) (n : Nat) (q : Pool) : Prop where
  growth : q.size = p.size + n
  ids : q.ids = p.ids ++ newIds p.ids x.document.ids
  sources : q.sources = p.sources ++ (newIds p.ids x.document.ids).map fun id => (id, x.source)
  bodies : ∀ s ∈ x.document.segments, ∀ id, s.id = some id → q.body? id = some s.content

theorem takenIn_of_ingest {x : Sourced} {n : Nat} (aligned : p.Aligned)
    (h : p.ingest x.document x.source = .ok n q) : p.TakenIn x n q := by
  obtain ⟨hopen, -⟩ := ingest_eq_ok h
  obtain ⟨added, adds, hq, hn, hkeys, -⟩ := ingest_adds h
  refine ⟨?_, ?_, ?_, fun s hs id hid => ?_⟩
  · rw [size, size, hq, regions_extend adds, List.length_append, hn]
  · rw [ids, hq, regions_extend adds, List.map_append, hkeys, ids]
  · rw [hq, sources_extend aligned adds, ← hkeys, List.map_map]
    rfl
  · obtain ⟨-, -, hcaptures, -⟩ := (ingest_spec hopen x.document).1 n q h
    have hmem : (⟨id, s.content, x.source⟩ : Capture) ∈ q.captures := by
      rw [hcaptures]
      exact .inr ⟨s, hs, hid, rfl, rfl⟩
    exact body?_of_mem hmem

/-- Over every run of calls on a new pool, refused ones among them: the tables of
regions and of sources have the same ids, each once, and each region under its own;
neither table ever loses or changes what is in it, so that what is found once is found
for ever, the same region from the same source; a document that is refused, as a
duplicate or because the pool is frozen, has left the pool as it was; one that is taken
in adds what `TakenIn` says; and once the pool is asked to freeze, every document is
refused and no call changes anything. -/
theorem after_append_only (calls : List Call) :
    ((empty.after calls).regions.map Prod.fst = (empty.after calls).sources.map Prod.fst ∧
      ((empty.after calls).regions.map Prod.fst).Nodup ∧
      ∀ id s, (id, s) ∈ (empty.after calls).regions → s.id = some id) ∧
    (∀ more, (empty.after calls).Grows (empty.after (calls ++ more)) ∧
      ∀ id e, (empty.after calls).find? id = some e →
        (empty.after (calls ++ more)).find? id = some e) ∧
    (∀ x e q, (empty.after calls).ingest x.document x.source = .error e q →
      q = empty.after calls ∧ empty.after (calls ++ [.ingest x]) = q ∧
      (e = .frozen ∧ .freeze ∈ calls ∨ (∃ id first second, e = .duplicate id first second) ∧
        .freeze ∉ calls)) ∧
    (∀ x n q, (empty.after calls).ingest x.document x.source = .ok n q →
      empty.after (calls ++ [.ingest x]) = q ∧ (empty.after calls).TakenIn x n q) ∧
    (.freeze ∈ calls →
      (∀ d source, (empty.after calls).ingest d source = .error .frozen (empty.after calls)) ∧
      ∀ more, empty.after (calls ++ more) = empty.after calls) := by
  have sound := sound_empty.after calls
  have hfrozen : (empty.after calls).frozen = true ↔ .freeze ∈ calls := by
    rw [frozen_after]
    simp [empty]
  refine ⟨⟨sound.aligned.symm, sound.distinct, ?_⟩, ?_, ?_, ?_, ?_⟩
  · intro id s hmem
    exact sound.own _ hmem
  · intro more
    rw [after_append]
    exact ⟨sound.grows_after more, fun id e => find?_of_prefix (prefix_after _ more)⟩
  · intro x e q herror
    have hsame := (ingest_eq_error herror).1
    rw [after_append, after_cons, after_nil, perform_of_error herror]
    refine ⟨hsame, hsame.symm, ?_⟩
    by_cases hfreeze : .freeze ∈ calls
    · rw [ingest_of_frozen (hfrozen.mpr hfreeze)] at herror
      cases herror
      exact .inl ⟨rfl, hfreeze⟩
    · have hopen : (empty.after calls).frozen = false := by
        simpa using mt hfrozen.mp hfreeze
      obtain ⟨-, hduplicate, -⟩ := (ingest_spec hopen x.document).2 e q herror
      exact .inr ⟨hduplicate sound.aligned.traced, hfreeze⟩
  · intro x n q hok
    rw [after_append]
    exact ⟨perform_of_ok hok, takenIn_of_ingest sound.aligned hok⟩
  · intro hfreeze
    have h := hfrozen.mpr hfreeze
    refine ⟨ingest_of_frozen h, fun more => ?_⟩
    rw [after_append, after_of_frozen h]

/-- A region of the file `f`. -/
def firstFile : Sourced := ⟨.ofSegments [.region ['A'] ['<'] ['x'] ['>']], some ['f']⟩

/-- A new region, met twice, and behind it one that `f` has as well. -/
def secondFile : Sourced :=
  ⟨.ofSegments [.region ['B'] [] ['y'] [], .region ['B'] [] ['y'] [], .region ['A'] [] ['z'] []],
    some ['g']⟩

/-- The second file is refused for its last region, and the region in front of it is
not in the pool either. A new pool takes the file in, each id once; frozen, it stays
as it is. -/
theorem after_append_only_conflict :
    empty.after [.ingest firstFile, .ingest secondFile] = empty.after [.ingest firstFile] ∧
    (∃ q, empty.ingest secondFile.document secondFile.source = .ok 2 q ∧
      q.ids = [['B'], ['A']] ∧ q.sources = [(['B'], some ['g']), (['A'], some ['g'])]) ∧
    empty.after [.ingest firstFile, .freeze, .ingest secondFile] =
      empty.after [.ingest firstFile, .freeze] := by
  obtain ⟨-, -, hrefused, -, -⟩ := after_append_only [.ingest firstFile]
  obtain ⟨-, -, -, htaken, -⟩ := after_append_only []
  obtain ⟨-, -, -, -, hfrozen⟩ := after_append_only [.ingest firstFile, .freeze]
  obtain ⟨-, taken⟩ := htaken secondFile 2 _ rfl
  refine ⟨?_, ⟨_, rfl, taken.ids, taken.sources⟩, ?_⟩
  · exact (hrefused secondFile (.duplicate ['A'] (some ['f']) (some ['g'])) _ rfl).2.1
  · exact (hfrozen (by simp)).2 [.ingest secondFile]

end Pool
end ProtectedRegions
