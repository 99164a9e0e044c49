import Mathlib.Data.Set.Insert
import ProtectedRegions.Proofs.Tables

/-
  Pooling — which documents a pool takes in, and what it has then

  A pool is seen here as the set of what was captured: an id, a body and the
  source it came from. Taking in a document adds its regions to the set, and is
  refused exactly when the set would then hold two captures of one id, or when a
  capture without a source is in it already: two documents that do not say where
  they come from count as two.

  The pool compares a region only with the first one of its id, and keeps a table
  of its own for the document it is taking in. What comes of many documents one
  after the other can be said without any order all the same, because two
  captures that agree with a third agree with each other.

  What is proved:
    1. `Checks.adds`, `Checks.unfit` and `ingest_spec` — one segment and one document:
       the captures are added, or they do not fit to what is there.
    2. `fits_cons` and `ingestAll_spec` — many documents: all are taken in exactly
       when they fit together.
    3. `uniqueIds_iff_fits` — documents fit together when any two regions of one id
       do, wherever they stand.
    4. `ingestAll_iff_uniqueIds` — the same for a new pool, and for every order of
       the documents.
-/

namespace ProtectedRegions

/-- A region that was found: its id, its body and the source it was found in. -/
structure Capture where
  id : Text
  body : Text
  source : Option Text

/-- No id was found with two bodies, and none in two sources. -/
def Agree (found : Set Capture) : Prop := ∀ a ∈ found, ∀ b ∈ found, a.id = b.id → a = b

theorem Agree.mono {found more : Set Capture} (h : Agree more) (hsub : found ⊆ more) :
    Agree found :=
  fun a ha b hb => h a (hsub ha) b (hsub hb)

/-- No capture is both among these and among those. -/
def Unmet (these those : Set Capture) : Prop := ∀ c ∈ these, c ∉ those

theorem Unmet.symm {these those : Set Capture} (h : Unmet these those) : Unmet those these :=
  fun c hthose hthese => h c hthese hthose

theorem unmet_empty (these : Set Capture) : Unmet these ∅ := fun _ _ => Set.notMem_empty _

theorem unmet_singleton {these : Set Capture} {c : Capture} : Unmet these {c} ↔ c ∉ these := by
  simp only [Unmet, Set.mem_singleton_iff]
  exact ⟨fun h hc => h c hc rfl, fun h a ha heq => h (heq ▸ ha)⟩

theorem unmet_union_left {these those more : Set Capture} :
    Unmet (these ∪ those) more ↔ Unmet these more ∧ Unmet those more := by
  simp only [Unmet, Set.mem_union, or_imp, forall_and]

theorem unmet_union_right {these those more : Set Capture} :
    Unmet these (those ∪ more) ↔ Unmet these those ∧ Unmet these more := by
  simp only [Unmet, Set.mem_union, not_or, forall_and]

/-- The captures of the regions among segments that come from a source. -/
def Segment.captures (source : Option Text) (segments : List Segment) : Set Capture :=
  {c | ∃ s ∈ segments, s.id = some c.id ∧ s.content = c.body ∧ c.source = source}

theorem Segment.captures_cons (source : Option Text) (s : Segment) (segments : List Segment) :
    captures source (s :: segments) = captures source [s] ∪ captures source segments := by
  ext c
  simp [captures]

theorem Segment.captures_plain {source : Option Text} {s : Segment} (h : s.id = none) :
    captures source [s] = ∅ := by
  ext c
  simp [captures, h]

theorem Segment.captures_region {source : Option Text} {s : Segment} {id : Text}
    (h : s.id = some id) : captures source [s] = {⟨id, s.content, source⟩} := by
  ext c
  obtain ⟨cid, body, csource⟩ := c
  simp only [captures, List.mem_singleton, exists_eq_left, h, Option.some.injEq,
    Set.mem_ofPred_eq, Set.mem_singleton_iff, Capture.mk.injEq]
  constructor
  · rintro ⟨rfl, rfl, rfl⟩
    exact ⟨rfl, rfl, rfl⟩
  · rintro ⟨rfl, rfl, rfl⟩
    exact ⟨rfl, rfl, rfl⟩

/-! ## Pools as sets -/

namespace Pool

variable {p q : Pool} {source : Option Text} {added next : Table Segment} {s : Segment}
  {id : Text}

/-- What a pool has under an id. -/
def capture? (p : Pool) (id : Text) : Option Capture :=
  (p.find? id).map fun e => ⟨id, e.segment.content, e.source⟩

def captures (p : Pool) : Set Capture := {c | p.capture? c.id = some c}

theorem captures_empty : empty.captures = ∅ := by
  ext c
  simp [captures, capture?, find?, region?, empty]

theorem agree_captures (p : Pool) : Agree p.captures := by
  intro a ha b hb hid
  have heq : some a = some b := by
    rw [← show p.capture? a.id = some a from ha, ← show p.capture? b.id = some b from hb, hid]
  exact Option.some.inj heq

theorem capture?_eq_some_iff {c : Capture} :
    p.capture? id = some c ↔ c.id = id ∧ c ∈ p.captures := by
  constructor
  · intro h
    obtain ⟨e, -, rfl⟩ := Option.map_eq_some_iff.mp h
    exact ⟨rfl, h⟩
  · rintro ⟨rfl, hc⟩
    exact hc

theorem capture?_congr (h : p.captures = q.captures) (id : Text) :
    p.capture? id = q.capture? id := by
  ext c
  rw [capture?_eq_some_iff, capture?_eq_some_iff, h]

theorem body?_of_mem {c : Capture} (h : c ∈ p.captures) : p.body? c.id = some c.body := by
  obtain ⟨e, he, heq⟩ := Option.map_eq_some_iff.mp (show p.capture? c.id = some c from h)
  rw [body?_eq, he, Option.map_some, ← heq]

theorem mem_ids : id ∈ p.ids ↔ ∃ c ∈ p.captures, c.id = id := by
  have hfind : (∃ c ∈ p.captures, c.id = id) ↔ (p.find? id).isSome = true := by
    calc (∃ c ∈ p.captures, c.id = id) ↔ ∃ c, p.capture? id = some c := by
          simp [capture?_eq_some_iff, and_comm]
      _ ↔ (p.capture? id).isSome = true := Option.isSome_iff_exists.symm
      _ ↔ (p.find? id).isSome = true := by rw [capture?, Option.isSome_map]
  rw [hfind, Option.isSome_iff_ne_none, ne_eq, find?_eq_none_iff, region?_eq_none_iff, not_not]

theorem find?_of_region? {known : Segment} (h : p.region? id = some known) :
    p.find? id = some ⟨id, known, p.source? id⟩ := by
  rw [find?, h, Option.map_some]

theorem mem_captures_of_find? {e : PoolEntry} (h : p.find? id = some e) :
    ⟨id, e.segment.content, e.source⟩ ∈ p.captures := by
  simp [captures, capture?, h]

theorem exists_of_body? {body : Text} (h : p.body? id = some body) :
    ∃ source, ⟨id, body, source⟩ ∈ p.captures := by
  rw [body?_eq] at h
  obtain ⟨e, he, rfl⟩ := Option.map_eq_some_iff.mp h
  exact ⟨e.source, mem_captures_of_find? he⟩

theorem captures_union_of_known {e : PoolEntry} (h : p.find? id = some e)
    {c : Capture} (hc : c = ⟨id, e.segment.content, e.source⟩) : p.captures = p.captures ∪ {c} := by
  rw [Set.union_singleton, Set.insert_eq_of_mem (hc ▸ mem_captures_of_find? h)]

/-- A capture of an id that the pool has otherwise does not agree with it. -/
theorem not_agree_of_known {e : PoolEntry} (h : p.find? id = some e) {c : Capture}
    (hid : c.id = id) (hc : c ≠ ⟨id, e.segment.content, e.source⟩) : ¬ Agree (p.captures ∪ {c}) :=
  fun agree => hc (agree c (.inr rfl) _ (.inl (mem_captures_of_find? h)) hid)

theorem captures_stored (h : p.find? id = none) (source : Option Text) (s : Segment) :
    (p.stored source (id, s)).captures = p.captures ∪ {⟨id, s.content, source⟩} := by
  ext c
  rw [Set.mem_union, Set.mem_singleton_iff]
  unfold captures capture?
  rw [Set.mem_ofPred_eq, Set.mem_ofPred_eq, find?_stored]
  by_cases hid : c.id = id
  · rw [hid, h]
    simp [eq_comm]
  · have hc : c ≠ ⟨id, s.content, source⟩ := fun h => hid (congrArg Capture.id h)
    simp [hid, hc]

theorem Adds.find? (adds : p.Adds added) (met : added.lookup id = some s) :
    (p.extend source added).find? id = some ⟨id, s, source⟩ := by
  rw [find?_extend adds, met, Option.map_some, Option.some_or]

theorem Adds.find?_of_unmet (adds : p.Adds added) (unmet : added.lookup id = none) :
    (p.extend source added).find? id = p.find? id := by
  rw [find?_extend adds, unmet, Option.map_none, Option.none_or]

/-- What comes without a source has no capture in common with the pool. -/
def Fresh (p : Pool) (source : Option Text) (more : Set Capture) : Prop :=
  source = none → Unmet p.captures more

theorem fresh_of_isSome (h : source.isSome = true) (more : Set Capture) : p.Fresh source more := by
  intro hnone
  rw [hnone] at h
  cases h

theorem fresh_of_find?_eq_none (h : p.find? id = none) (c : Capture) (hc : c.id = id) :
    p.Fresh source {c} := by
  intro _
  apply unmet_singleton.mpr
  intro hmem
  have hknown : p.capture? c.id = some c := hmem
  rw [hc, capture?, h] at hknown
  cases hknown

theorem fresh_union {more others : Set Capture} :
    p.Fresh source (more ∪ others) ↔ p.Fresh source more ∧ p.Fresh source others := by
  unfold Fresh
  rw [← imp_and, unmet_union_right]

theorem Checks.adds (h : Checks p source added s (.ok next q)) (adds : p.Adds added) :
    p.Adds next ∧
      (p.extend source next).captures =
        (p.extend source added).captures ∪ Segment.captures source [s] ∧
      p.Fresh source (Segment.captures source [s]) := by
  cases h with
  | plain noRegion =>
    rw [Segment.captures_plain noRegion, Set.union_empty]
    exact ⟨adds, rfl, fun _ => unmet_empty _⟩
  | @again id first own met same =>
    rw [Segment.captures_region own]
    have hfresh : p.find? id = none := by
      apply find?_eq_none_iff.mpr (adds.fresh id _)
      by_contra hout
      rw [Table.lookup_eq_none_iff_keys.mpr hout] at met
      cases met
    exact ⟨adds, captures_union_of_known (adds.find? met) (by rw [same]),
      fresh_of_find?_eq_none hfresh _ rfl⟩
  | @new id own unmet unknown =>
    rw [Segment.captures_region own]
    have hfind := find?_eq_none_iff.mpr unknown
    refine ⟨adds.concat unmet unknown s, ?_, fresh_of_find?_eq_none hfind _ rfl⟩
    rw [extend_concat]
    exact captures_stored ((adds.find?_of_unmet unmet).trans hfind) source s
  | @sameFile id known first own unmet pooled from_ same =>
    obtain ⟨hsome, hfirst, hcontent⟩ := same
    rw [Segment.captures_region own]
    have hfind : p.find? id = some ⟨id, known, source⟩ := by
      rw [find?_of_region? pooled, source?, from_, hfirst, Option.join_some]
    exact ⟨adds, captures_union_of_known ((adds.find?_of_unmet unmet).trans hfind) (by rw [hcontent]),
      fresh_of_isSome hsome _⟩

/-- A capture under an id that the pool has does not fit when it differs, or when its
source is not known. -/
theorem not_fits_of_known (adds : p.Adds added) (unmet : added.lookup id = none) {known : Segment}
    (pooled : p.region? id = some known)
    (h : ¬ (source.isSome = true ∧ p.source? id = source ∧ known.content = s.content)) :
    ¬ (Agree ((p.extend source added).captures ∪ {⟨id, s.content, source⟩}) ∧
      p.Fresh source {⟨id, s.content, source⟩}) := by
  rintro ⟨agree, fresh⟩
  have hfind := find?_of_region? pooled
  have hextend : (p.extend source added).find? id = some ⟨id, known, p.source? id⟩ :=
    (adds.find?_of_unmet unmet).trans hfind
  by_cases heq : (⟨id, s.content, source⟩ : Capture) = ⟨id, known.content, p.source? id⟩
  · -- the pool has the same capture, so only a missing source can be to blame
    obtain ⟨-, hcontent, hown⟩ := Capture.mk.inj heq
    have hnone : source = none := by
      by_contra hsome
      exact h ⟨Option.isSome_iff_ne_none.mpr hsome, hown.symm, hcontent.symm⟩
    have hmem := mem_captures_of_find? hfind
    rw [← heq] at hmem
    exact unmet_singleton.mp (fresh hnone) hmem
  · exact not_agree_of_known hextend rfl heq agree

/-- A segment that is refused has a capture that does not fit to what is there. -/
theorem Checks.unfit {e : PoolError} (h : Checks p source added s (.error e q))
    (adds : p.Adds added) :
    (p.Traced → ∃ id first second, e = .duplicate id first second) ∧
      ¬ (Agree ((p.extend source added).captures ∪ Segment.captures source [s]) ∧
        p.Fresh source (Segment.captures source [s])) := by
  cases h with
  | @differs id first own met other =>
    refine ⟨fun _ => ⟨_, _, _, rfl⟩, fun hall => ?_⟩
    rw [Segment.captures_region own] at hall
    refine not_agree_of_known (adds.find? met) rfl ?_ hall.1
    exact fun heq => other (Capture.mk.inj heq).2.1.symm
  | @untraced id known own unmet pooled lost =>
    rw [Segment.captures_region own]
    refine ⟨fun traced => absurd lost (traced id (by simp [pooled])), ?_⟩
    apply not_fits_of_known adds unmet pooled
    rintro ⟨hsome, hsource, -⟩
    rw [← hsource, source?, lost] at hsome
    cases hsome
  | @taken id known first own unmet pooled from_ other =>
    rw [Segment.captures_region own]
    refine ⟨fun _ => ⟨_, _, _, rfl⟩, ?_⟩
    apply not_fits_of_known adds unmet pooled
    rwa [source?, from_, Option.join_some]

theorem collect_spec (source : Option Text) (segments : List Segment) (adds : p.Adds added) :
    (∀ next q, (collect source added segments).run p = .ok next q → p.Adds next ∧
      (p.extend source next).captures =
        (p.extend source added).captures ∪ Segment.captures source segments ∧
      p.Fresh source (Segment.captures source segments)) ∧
    ∀ e q, (collect source added segments).run p = .error e q →
      (p.Traced → ∃ id first second, e = .duplicate id first second) ∧
      ¬ (Agree ((p.extend source added).captures ∪ Segment.captures source segments) ∧
        p.Fresh source (Segment.captures source segments)) := by
  induction segments generalizing added with
  | nil =>
    have hnone : Segment.captures source [] = ∅ := by simp [Segment.captures]
    refine ⟨fun next q h => ?_, nofun⟩
    cases h
    rw [hnone, Set.union_empty]
    exact ⟨adds, rfl, fun _ => unmet_empty _⟩
  | cons s segments ih =>
    have checks := checks_check p source added s
    rw [run_collect_cons, Segment.captures_cons, ← Set.union_assoc, fresh_union]
    cases hs : (check source added s).run p with
    | error e q =>
      rw [hs] at checks
      obtain ⟨hduplicate, hrefused⟩ := checks.unfit adds
      refine ⟨nofun, fun e' q' h => ?_⟩
      cases h
      exact ⟨hduplicate, fun hall => hrefused ⟨hall.1.mono Set.subset_union_left, hall.2.1⟩⟩
    | ok next q =>
      rw [hs] at checks
      obtain rfl : q = p := by cases checks <;> rfl
      obtain ⟨hadds, hcaptures, hfresh⟩ := checks.adds adds
      obtain ⟨hmore, hrefused⟩ := ih hadds
      rw [hcaptures] at hmore hrefused
      constructor
      · intro last q h
        obtain ⟨hlast, hunion, hothers⟩ := hmore last q h
        exact ⟨hlast, hunion, hfresh, hothers⟩
      · intro e q h
        obtain ⟨hduplicate, hnot⟩ := hrefused e q h
        exact ⟨hduplicate, fun hall => hnot ⟨hall.1, hall.2.2⟩⟩

/-- A pool in which no id is met twice has none that is after it was extended. -/
theorem Adds.nodup_extend (adds : p.Adds added) (h : p.ids.Nodup) :
    (p.extend source added).ids.Nodup := by
  rw [ids, regions_extend adds, List.map_append]
  refine h.append adds.distinct ?_
  intro own hown hadded
  exact region?_eq_none_iff.mp (adds.fresh own hadded) hown

/-- The tables are in line: they have the same ids, and each once. -/
structure InLine (p : Pool) : Prop where
  aligned : p.Aligned
  distinct : p.ids.Nodup

theorem inLine_empty : empty.InLine := ⟨rfl, List.nodup_nil⟩

/-- Taking in a document adds the captures of its regions, or they do not fit to
what is there. -/
theorem ingest_spec (hopen : p.frozen = false) (d : Document) :
    (∀ n q, p.ingest d source = .ok n q → q.frozen = false ∧ (p.InLine → q.InLine) ∧
      q.captures = p.captures ∪ Segment.captures source d.segments ∧
      p.Fresh source (Segment.captures source d.segments)) ∧
    ∀ e q, p.ingest d source = .error e q → q = p ∧
      (p.Traced → ∃ id first second, e = .duplicate id first second) ∧
      ¬ (Agree (p.captures ∪ Segment.captures source d.segments) ∧
        p.Fresh source (Segment.captures source d.segments)) := by
  obtain ⟨hok, herror⟩ := collect_spec source d.segments p.adds_nil
  constructor
  · intro n q h
    obtain ⟨-, added, hadded, -, rfl⟩ := ingest_eq_ok h
    obtain ⟨adds, hcaptures, hfresh⟩ := hok added p hadded
    refine ⟨(frozen_extend p source added).trans hopen, fun inLine => ?_, hcaptures, hfresh⟩
    exact ⟨inLine.aligned.extend source added, adds.nodup_extend inLine.distinct⟩
  · intro e q h
    obtain ⟨rfl, ⟨hfrozen, -⟩ | ⟨-, hrefused⟩⟩ := ingest_eq_error h
    · rw [hopen] at hfrozen
      cases hfrozen
    · exact ⟨rfl, herror e q hrefused⟩

end Pool

/-! ## Many documents -/

structure Sourced where
  document : Document
  source : Option Text

/-- What a document gives a pool to capture. -/
def Sourced.captures (x : Sourced) : Set Capture :=
  Segment.captures x.source x.document.segments

/-- The pool after documents are taken in one after the other, up to the first one
that is refused. -/
def Pool.ingestAll (p : Pool) : List Sourced → Except PoolError Pool
  | [] => .ok p
  | x :: rest =>
    match p.ingest x.document x.source with
    | .error e _ => .error e
    | .ok _ q => q.ingestAll rest

namespace Sourced

variable {x : Sourced} {rest documents : List Sourced} {found : Set Capture}

def gathered (documents : List Sourced) : Set Capture := {c | ∃ x ∈ documents, c ∈ x.captures}

theorem gathered_cons (x : Sourced) (rest : List Sourced) :
    gathered (x :: rest) = x.captures ∪ gathered rest := by
  ext c
  simp [gathered]

theorem mem_captures {s : Segment} {id : Text} (hs : s ∈ x.document.segments)
    (hid : s.id = some id) : ⟨id, s.content, x.source⟩ ∈ x.captures :=
  ⟨s, hs, hid, rfl, rfl⟩

theorem source_of_mem {c : Capture} (h : c ∈ x.captures) : c.source = x.source := by
  obtain ⟨-, -, -, -, hsource⟩ := h
  exact hsource

theorem mem_gathered {s : Segment} {id : Text} (hx : x ∈ documents)
    (hs : s ∈ x.document.segments) (hid : s.id = some id) :
    ⟨id, s.content, x.source⟩ ∈ gathered documents :=
  ⟨x, hx, mem_captures hs hid⟩

/-- Two documents have nothing in common when neither says where it comes from. -/
def Apart (x y : Sourced) : Prop :=
  x.source = none → y.source = none → Unmet x.captures y.captures

theorem Apart.symm {x y : Sourced} (h : Apart x y) : Apart y x :=
  fun hy hx => (h hx hy).symm

theorem Apart.unmet {x y : Sourced} (h : Apart x y) (hy : y.source = none) :
    Unmet x.captures y.captures := by
  intro c hcx hcy
  have hx : x.source = none := by
    rw [← source_of_mem hcx, source_of_mem hcy, hy]
  exact h hx hy c hcx hcy

/-- Documents can be taken in by a pool with some captures: all captures agree, and
a document without a source has none in common with the pool, nor with another
such document. -/
structure Fits (found : Set Capture) (documents : List Sourced) : Prop where
  agree : Agree (found ∪ gathered documents)
  new : ∀ x ∈ documents, x.source = none → Unmet found x.captures
  apart : documents.Pairwise Apart

theorem fits_nil (h : Agree found) : Fits found [] := by
  refine ⟨?_, nofun, .nil⟩
  have hnone : gathered [] = ∅ := by simp [gathered]
  rw [hnone, Set.union_empty]
  exact h

theorem fits_cons : Fits found (x :: rest) ↔
    (x.source = none → Unmet found x.captures) ∧ Fits (found ∪ x.captures) rest := by
  constructor
  · rintro ⟨agree, new, apart⟩
    rw [gathered_cons, ← Set.union_assoc] at agree
    obtain ⟨hx, hrest⟩ := List.forall_mem_cons.mp new
    obtain ⟨hapart, htail⟩ := List.pairwise_cons.mp apart
    refine ⟨hx, agree, ?_, htail⟩
    intro y hy hnone
    exact unmet_union_left.mpr ⟨hrest y hy hnone, (hapart y hy).unmet hnone⟩
  · rintro ⟨hx, agree, new, apart⟩
    rw [Set.union_assoc, ← gathered_cons] at agree
    refine ⟨agree, List.forall_mem_cons.mpr ⟨hx, ?_⟩, List.pairwise_cons.mpr ⟨?_, apart⟩⟩
    -- what is there when `y` comes is what was there, and what `x` gave
    · intro y hy hnone
      exact (unmet_union_left.mp (new y hy hnone)).1
    · intro y hy _ hnone
      exact (unmet_union_left.mp (new y hy hnone)).2

theorem gathered_perm {others : List Sourced} (hperm : documents.Perm others) :
    gathered documents = gathered others := by
  ext c
  simp [gathered, hperm.mem_iff]

theorem Fits.perm {others : List Sourced} (h : Fits found documents)
    (hperm : documents.Perm others) : Fits found others := by
  refine ⟨gathered_perm hperm ▸ h.agree, ?_, ?_⟩
  · intro x hx
    exact h.new x (hperm.mem_iff.mpr hx)
  · exact h.apart.perm hperm Apart.symm

/-- Any two regions of one id have the same body, and stand in one document or in
two that have the same source. -/
def UniqueIds (documents : List Sourced) : Prop :=
  ∀ (i j : Nat) (x y : Sourced), documents[i]? = some x → documents[j]? = some y →
    ∀ s ∈ x.document.segments, ∀ t ∈ y.document.segments, ∀ id, s.id = some id → t.id = some id →
      s.content = t.content ∧ (i = j ∨ x.source = y.source ∧ x.source ≠ none)

theorem UniqueIds.agree (h : UniqueIds documents) : Agree (gathered documents) := by
  rintro ⟨id, body, source⟩ ⟨x, hx, s, hs, hsid, rfl, rfl⟩ ⟨-, body', source'⟩
    ⟨y, hy, t, ht, htid, rfl, rfl⟩ rfl
  obtain ⟨i, hi⟩ := List.mem_iff_getElem?.mp hx
  obtain ⟨j, hj⟩ := List.mem_iff_getElem?.mp hy
  obtain ⟨hcontent, hplace⟩ := h i j x y hi hj s hs t ht _ hsid htid
  have hsource : x.source = y.source := by
    rcases hplace with rfl | hsame
    · obtain rfl := Option.some.inj (hi.symm.trans hj)
      rfl
    · exact hsame.1
  rw [hcontent, hsource]

theorem UniqueIds.apart (h : UniqueIds documents) : documents.Pairwise Apart := by
  apply List.pairwise_iff_getElem.mpr
  intro i j hi hj hlt hx _
  rintro c ⟨s, hs, hsid, -, -⟩ ⟨t, ht, htid, -, -⟩
  obtain ⟨-, hplace⟩ := h i j _ _ (List.getElem?_eq_getElem hi) (List.getElem?_eq_getElem hj)
    s hs t ht _ hsid htid
  rcases hplace with rfl | hsame
  · exact Nat.lt_irrefl i hlt
  · exact hsame.2 hx

theorem apart_of_getElem? (h : documents.Pairwise Apart) {i j : Nat} {x y : Sourced}
    (hi : documents[i]? = some x) (hj : documents[j]? = some y) (hij : i ≠ j) : Apart x y := by
  obtain ⟨hilt, rfl⟩ := List.getElem?_eq_some_iff.mp hi
  obtain ⟨hjlt, rfl⟩ := List.getElem?_eq_some_iff.mp hj
  rcases Nat.lt_or_gt_of_ne hij with hlt | hgt
  · exact List.pairwise_iff_getElem.mp h i j hilt hjlt hlt
  · exact (List.pairwise_iff_getElem.mp h j i hjlt hilt hgt).symm

/-- What any two regions of one id are like decides whether a new pool takes all
documents in. -/
theorem uniqueIds_iff_fits : UniqueIds documents ↔ Fits ∅ documents := by
  constructor
  · intro unique
    refine ⟨?_, fun x _ _ => (unmet_empty _).symm, unique.apart⟩
    rw [Set.empty_union]
    exact unique.agree
  · rintro ⟨agree, -, apart⟩ i j x y hi hj s hs t ht id hsid htid
    rw [Set.empty_union] at agree
    have hx := List.mem_of_getElem? hi
    have hy := List.mem_of_getElem? hj
    have hsame := agree _ (mem_gathered hx hs hsid) _ (mem_gathered hy ht htid) rfl
    obtain ⟨-, hcontent, hsource⟩ := Capture.mk.inj hsame
    refine ⟨hcontent, ?_⟩
    by_cases hij : i = j
    · exact .inl hij
    · -- without a source the two documents would have this capture in common
      refine .inr ⟨hsource, fun hnone => ?_⟩
      have hapart := apart_of_getElem? apart hi hj hij
      have hunmet := hapart hnone (hsource.symm.trans hnone)
      apply hunmet _ (mem_captures hs hsid)
      rw [hsame]
      exact mem_captures ht htid

theorem UniqueIds.perm {others : List Sourced} (hperm : documents.Perm others) :
    UniqueIds documents ↔ UniqueIds others := by
  rw [uniqueIds_iff_fits, uniqueIds_iff_fits]
  exact ⟨fun h => h.perm hperm, fun h => h.perm hperm.symm⟩

end Sourced

namespace Pool

open Sourced

/-- Documents are all taken in exactly when they fit, and then the pool has what
they gave. -/
theorem ingestAll_spec (documents : List Sourced) {p : Pool} (hopen : p.frozen = false) :
    (∀ q, p.ingestAll documents = .ok q → (p.InLine → q.InLine) ∧
      q.captures = p.captures ∪ gathered documents ∧ Fits p.captures documents) ∧
    ∀ e, p.ingestAll documents = .error e →
      (p.InLine → ∃ id first second, e = .duplicate id first second) ∧
      ¬ Fits p.captures documents := by
  -- on the documents: the pool that takes in the others has what the first one gave
  induction documents generalizing p with
  | nil =>
    refine ⟨fun q h => ?_, nofun⟩
    obtain rfl := Except.ok.inj h
    refine ⟨fun h => h, ?_, fits_nil p.agree_captures⟩
    simp [gathered]
  | cons x rest ih =>
    obtain ⟨hok, herror⟩ := ingest_spec hopen x.document
    rw [ingestAll, gathered_cons, ← Set.union_assoc]
    cases hx : p.ingest x.document x.source with
    | error e next =>
      obtain ⟨-, hduplicate, hrefused⟩ := herror e next hx
      refine ⟨nofun, fun e' h => ?_⟩
      obtain rfl := Except.error.inj h
      refine ⟨fun inLine => hduplicate inLine.aligned.traced, fun fits => hrefused ?_⟩
      obtain ⟨hnew, hrest⟩ := fits_cons.mp fits
      exact ⟨hrest.agree.mono Set.subset_union_left, hnew⟩
    | ok n next =>
      obtain ⟨hstays, hinLine, hcaptures, hfresh⟩ := hok n next hx
      obtain ⟨hmore, hrefused⟩ := ih hstays
      rw [hcaptures] at hmore hrefused
      constructor
      · intro q h
        obtain ⟨hlast, hunion, fits⟩ := hmore q h
        exact ⟨fun h => hlast (hinLine h), hunion, fits_cons.mpr ⟨hfresh, fits⟩⟩
      · intro e h
        obtain ⟨hduplicate, hnot⟩ := hrefused e h
        exact ⟨fun h => hduplicate (hinLine h), fun fits => hnot (fits_cons.mp fits).2⟩

theorem exists_ingestAll (documents : List Sourced) :
    (∃ p, empty.ingestAll documents = .ok p) ↔ UniqueIds documents := by
  obtain ⟨hok, herror⟩ := ingestAll_spec documents (show empty.frozen = false from rfl)
  rw [captures_empty] at hok herror
  rw [uniqueIds_iff_fits]
  cases h : empty.ingestAll documents with
  | ok p => simp [(hok p h).2.2]
  | error e => simp [(herror e h).2]

theorem duplicate_of_not_uniqueIds {documents : List Sourced} (h : ¬ UniqueIds documents) :
    ∃ id first second, empty.ingestAll documents = .error (.duplicate id first second) := by
  cases hresult : empty.ingestAll documents with
  | ok p => exact absurd ((exists_ingestAll documents).mp ⟨p, hresult⟩) h
  | error e =>
    obtain ⟨hduplicate, -⟩ := (ingestAll_spec documents rfl).2 e hresult
    obtain ⟨id, first, second, rfl⟩ := hduplicate inLine_empty
    exact ⟨id, first, second, rfl⟩

/-- A pool has exactly what the documents gave that it was filled with. -/
theorem captures_ingestAll {documents : List Sourced} {p : Pool}
    (h : empty.ingestAll documents = .ok p) :
    p.ids.Nodup ∧ p.captures = gathered documents := by
  obtain ⟨hinLine, hunion, -⟩ := (ingestAll_spec documents rfl).1 p h
  rw [captures_empty, Set.empty_union] at hunion
  exact ⟨(hinLine inLine_empty).distinct, hunion⟩

/-- A new pool takes documents in, whatever their order, exactly when any two regions
of one id have one body and stand in one document or in two of the same source, and
is stopped by a duplicate otherwise. It then has every region of the documents with
its body and its source, and nothing else. -/
theorem ingestAll_iff_uniqueIds (documents : List Sourced) :
    ((∃ p, empty.ingestAll documents = .ok p) ↔ UniqueIds documents) ∧
    (¬ UniqueIds documents →
      ∃ id first second, empty.ingestAll documents = .error (.duplicate id first second)) ∧
    (∀ p, empty.ingestAll documents = .ok p → p.ids.Nodup ∧
      (∀ id, id ∈ p.ids ↔ ∃ x ∈ documents, ∃ s ∈ x.document.segments, s.id = some id) ∧
      ∀ x ∈ documents, ∀ s ∈ x.document.segments, ∀ id, s.id = some id →
        p.capture? id = some ⟨id, s.content, x.source⟩) ∧
    ∀ others, documents.Perm others →
      ((∃ p, empty.ingestAll documents = .ok p) ↔ ∃ q, empty.ingestAll others = .ok q) ∧
      ∀ p q, empty.ingestAll documents = .ok p → empty.ingestAll others = .ok q →
        ∀ id, p.capture? id = q.capture? id := by
  refine ⟨exists_ingestAll documents, duplicate_of_not_uniqueIds, ?_, ?_⟩
  · intro p h
    obtain ⟨hnodup, hcaptures⟩ := captures_ingestAll h
    refine ⟨hnodup, fun id => ?_, ?_⟩
    · rw [mem_ids, hcaptures]
      constructor
      · rintro ⟨c, ⟨x, hx, s, hs, hid, -, -⟩, rfl⟩
        exact ⟨x, hx, s, hs, hid⟩
      · rintro ⟨x, hx, s, hs, hid⟩
        exact ⟨_, mem_gathered hx hs hid, rfl⟩
    · intro x hx s hs id hid
      apply capture?_eq_some_iff.mpr
      rw [hcaptures]
      exact ⟨rfl, mem_gathered hx hs hid⟩
  · intro others hperm
    constructor
    · rw [exists_ingestAll, exists_ingestAll]
      exact UniqueIds.perm hperm
    · intro p q hp hq id
      apply capture?_congr
      calc p.captures = gathered documents := (captures_ingestAll hp).2
        _ = gathered others := gathered_perm hperm
        _ = q.captures := (captures_ingestAll hq).2.symm

/-- The file `f` with one region, read by two parsers that meet it in different
pieces, and a document without a source. -/
def readTwice : List Sourced :=
  [⟨.ofSegments [.region ['A'] ['<'] ['x'] ['>'], .plain ['y']], some ['f']⟩,
    ⟨.ofSegments [.region ['A'] ['<'] ['x'] ['>', 'y']], some ['f']⟩,
    ⟨.ofSegments [.region ['B'] ['<'] ['x'] ['>'], .region ['B'] ['{'] ['x'] ['}']], none⟩]

/-- The regions are unique, although one is met in two documents and the other
twice in one. Turned around the documents give the same; once more without the
source, the first is a duplicate. -/
theorem ingestAll_iff_uniqueIds_readTwice :
    UniqueIds readTwice ∧
    ¬ UniqueIds (readTwice ++ [⟨.ofSegments [.region ['A'] [] ['x'] []], none⟩]) ∧
    ∀ p q, empty.ingestAll readTwice = .ok p → empty.ingestAll readTwice.reverse = .ok q →
      p.capture? ['A'] = some ⟨['A'], ['x'], some ['f']⟩ ∧ p.capture? ['B'] = q.capture? ['B'] := by
  obtain ⟨hunique, -, hcaptures, horder⟩ := ingestAll_iff_uniqueIds readTwice
  refine ⟨hunique.mp ⟨_, rfl⟩, ?_, ?_⟩
  · intro h
    obtain ⟨p, hp⟩ := (ingestAll_iff_uniqueIds _).1.mpr h
    cases hp
  · intro p q hp hq
    obtain ⟨-, -, hmaps⟩ := hcaptures p hp
    refine ⟨?_, (horder _ (List.reverse_perm _).symm).2 p q hp hq ['B']⟩
    exact hmaps _ (.head _) _ (.head _) _ rfl

end Pool

end ProtectedRegions
