import ProtectedRegions.Builder
import ProtectedRegions.Proofs.Pooling

/-
  Capturing — what reading files adds to a pool

  Reading a file takes in what each of its parsers finds in it, under the file's
  path as the source. A pass over many files adds the captures of them all, and
  is refused exactly when a parser gives up on a file or two of the captures do
  not agree, so that it fails for a reason that does not depend on the order of
  the files.

  What is proved:
    1. `Takes.andThen` — one reading after the other.
    2. `takes_files` — what every parser of every file captures is taken in.
-/

namespace ProtectedRegions

/-- What a parser captures in a text of a source. -/
def Parser.captures (p : Parser) (source : Option Text) (t : Text) : Set Capture :=
  {c | ∃ d, p.parse t = .ok d ∧ c ∈ Segment.captures source d.segments}

theorem Parser.captures_of_parse {p : Parser} {source : Option Text} {t : Text} {d : Document}
    (h : p.parse t = .ok d) : p.captures source t = Segment.captures source d.segments := by
  ext c
  simp [Parser.captures, h]

namespace Reading

/-- The reading ends well exactly when everything can be parsed and all captures
agree, and its pool then has these captures. -/
structure Takes (r : Reading) (parsed : Prop) (found : Set Capture) : Prop where
  done : r.failure = none → parsed ∧ r.pool.frozen = false ∧ r.pool.captures = found
  failed : r.failure ≠ none → ¬ (parsed ∧ Agree found)

theorem takes_pool {pool : Pool} (hopen : pool.frozen = false) (log : List LogLine) :
    (Reading.mk pool none log).Takes True pool.captures :=
  ⟨fun _ => ⟨trivial, hopen, rfl⟩, fun h => absurd rfl h⟩

theorem Takes.congr {r : Reading} {P Q : Prop} {found found' : Set Capture} (h : r.Takes P found)
    (hP : P ↔ Q) (hfound : found = found') : r.Takes Q found' := by
  obtain rfl := propext hP
  exact hfound ▸ h

theorem Takes.andThen {r : Reading} {f : Pool → Reading} {P Q : Prop} {found more : Set Capture}
    (h : r.Takes P found) (hf : ∀ pool, pool.frozen = false → pool.captures = found →
      (f pool).Takes Q (found ∪ more)) : (r.andThen f).Takes (P ∧ Q) (found ∪ more) := by
  unfold Reading.andThen
  cases hfailure : r.failure with
  | some e =>
    simp only
    refine ⟨fun hnone => ?_, fun _ hall => h.failed (by simp [hfailure])
      ⟨hall.1.1, hall.2.mono Set.subset_union_left⟩⟩
    rw [hfailure] at hnone
    cases hnone
  | none =>
    obtain ⟨parsed, hopen, hcaptures⟩ := h.done hfailure
    have hnext := hf r.pool hopen hcaptures
    exact ⟨fun hnone => ⟨⟨parsed, (hnext.done hnone).1⟩, (hnext.done hnone).2⟩,
      fun hsome hall => hnext.failed hsome ⟨hall.1.2, hall.2⟩⟩

theorem takes_ingest (file t : Text) {pool : Pool} (hopen : pool.frozen = false) (p : Parser) :
    (ingest file t pool p).Takes (∃ d, p.parse t = .ok d)
      (pool.captures ∪ p.captures (some file) t) := by
  unfold ingest
  cases hd : p.parse t with
  | error e => exact ⟨nofun, fun _ hall => by simp at hall⟩
  | ok d =>
    obtain ⟨hok, herror⟩ := Pool.ingest_spec hopen d
    rw [Parser.captures_of_parse hd]
    simp only
    cases hnext : pool.ingest d (some file) with
    | error e next =>
      refine ⟨nofun, fun _ hall => (herror e next hnext).2.2 ⟨hall.2, ?_⟩⟩
      exact Pool.fresh_of_isSome rfl _
    | ok n next =>
      obtain ⟨hstays, -, hcaptures, -⟩ := hok n next hnext
      cases n <;> exact ⟨fun _ => ⟨⟨d, rfl⟩, hstays, hcaptures⟩, fun h => absurd rfl h⟩

/-- What parsers capture in the text of a file. -/
def capturesIn (file t : Text) (parsers : List Parser) : Set Capture :=
  {c | ∃ p ∈ parsers, c ∈ p.captures (some file) t}

theorem takes_ingestAll (file t : Text) (parsers : List Parser) {pool : Pool}
    (hopen : pool.frozen = false) :
    (ingestAll file t parsers pool).Takes (∀ p ∈ parsers, ∃ d, p.parse t = .ok d)
      (pool.captures ∪ capturesIn file t parsers) := by
  induction parsers generalizing pool with
  | nil => exact (takes_pool hopen []).congr (by simp) (by simp [capturesIn])
  | cons p parsers ih =>
    have hboth : capturesIn file t (p :: parsers) =
        p.captures (some file) t ∪ capturesIn file t parsers := by
      ext c
      simp [capturesIn]
    rw [ingestAll, List.forall_mem_cons, hboth, ← Set.union_assoc]
    refine (takes_ingest file t hopen p).andThen fun next hnext hcaptures => ?_
    rw [← hcaptures]
    exact ih hnext

/-- What the parsers that are for a file capture in it. A file that is no text has
nothing to capture. -/
def captures (w : Workspace) (registrations : List Registration) (path : Text) : Set Capture :=
  {c | ∃ t, w.readText path = .ok t ∧ c ∈ capturesIn path t (parsersFor registrations path)}

/-- No parser that is for a file has to give up on it. -/
def Readable (w : Workspace) (registrations : List Registration) (path : Text) : Prop :=
  parsersFor registrations path = [] ∨
    (∃ t, w.readText path = .ok t ∧ ∀ p ∈ parsersFor registrations path, ∃ d, p.parse t = .ok d) ∨
    ∃ shown fault, w.readText path = .error (.unreadable shown fault)

theorem takes_file (w : Workspace) (registrations : List Registration) (path : Text) {pool : Pool}
    (hopen : pool.frozen = false) :
    (file w registrations path pool).Takes (Readable w registrations path)
      (pool.captures ∪ captures w registrations path) := by
  unfold file Readable captures
  split
  · next hnone =>
    exact (takes_pool hopen []).congr (by simp [hnone]) (by simp [hnone, capturesIn])
  · next parsers hsome =>
    have hne : parsersFor registrations path ≠ [] := hsome
    simp only [hne, false_or]
    split
    · next t ht =>
      exact (takes_ingestAll path t _ hopen).congr (by simp [ht]) (by simp [ht])
    · next shown fault ht => exact (takes_pool hopen _).congr (by simp [ht]) (by simp [ht])
    · next e hother ht =>
      refine ⟨nofun, fun _ hall => ?_⟩
      rcases hall.1 with ⟨t, hok, -⟩ | ⟨shown, fault, herror⟩
      · rw [ht] at hok
        cases hok
      · rw [ht] at herror
        exact hother shown fault (Except.error.inj herror)

/-- The files of a listing are read exactly when each of them can be, and no two
captures in them, or with those made before, differ. -/
theorem takes_files (w : Workspace) (registrations : List Registration) (paths : List Text)
    {pool : Pool} (hopen : pool.frozen = false) :
    (files w registrations paths pool).Takes (∀ path ∈ paths, Readable w registrations path)
      (pool.captures ∪ {c | ∃ path ∈ paths, c ∈ captures w registrations path}) := by
  induction paths generalizing pool with
  | nil => exact (takes_pool hopen []).congr (by simp) (by simp)
  | cons path paths ih =>
    have hboth : {c | ∃ q ∈ path :: paths, c ∈ captures w registrations q} =
        captures w registrations path ∪ {c | ∃ q ∈ paths, c ∈ captures w registrations q} := by
      ext c
      simp
    rw [files, List.forall_mem_cons, hboth, ← Set.union_assoc]
    refine (takes_file w registrations path hopen).andThen fun next hnext hcaptures => ?_
    rw [← hcaptures]
    exact ih hnext

end Reading

end ProtectedRegions
