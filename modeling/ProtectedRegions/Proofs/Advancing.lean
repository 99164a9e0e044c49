import Mathlib.Data.List.Induction
import ProtectedRegions.Builder
import ProtectedRegions.Proofs.Keeping

/-
  Advancing — how far a builder comes, and what it lets be done on the way

  A builder is asked to register parsers, to read roots and to be built, in any
  order, and refuses what is not allowed where it stands. Its stage and the flag of
  its pool are two things that have to stay in step: the stage decides what is
  refused, the flag what the pool takes in.

  Everything a call can do is one of five steps (`Step`): it is refused, registers
  a parser, passes a root over, reads a root, or builds. Each invariant is read off
  these. The files that a read finds may be others at every call, so that nothing
  here depends on what is on disk.

  What is proved:
    1. `reaches_files` — reading files does nothing to a pool but let it take
       documents in, also where it fails half-way.
    2. `step_perform` — a call takes one of the five steps.
    3. `Step.inStep`, `Step.rank_le`, `Step.of_built` — what a step keeps.
    4. `lifecycle` — what holds after every run of calls on a new builder.
-/

namespace ProtectedRegions

/-! ## What reading does to a pool -/

namespace Pool

/-- A pool comes of another one by taking documents in, or being asked to. -/
def Reaches (p q : Pool) : Prop := ∃ documents : List Sourced, q = p.after (documents.map .ingest)

theorem Reaches.refl (p : Pool) : p.Reaches p := ⟨[], rfl⟩

theorem Reaches.trans {p q r : Pool} (h : p.Reaches q) (h' : q.Reaches r) : p.Reaches r := by
  obtain ⟨documents, rfl⟩ := h
  obtain ⟨more, rfl⟩ := h'
  exact ⟨documents ++ more, by rw [List.map_append, after_append]⟩

theorem Reaches.frozen {p q : Pool} (h : p.Reaches q) : q.frozen = p.frozen := by
  obtain ⟨documents, rfl⟩ := h
  rw [Bool.eq_iff_iff, frozen_after]
  simp

theorem Reaches.sound {p q : Pool} (h : p.Reaches q) (sound : p.Sound) : q.Sound := by
  obtain ⟨documents, rfl⟩ := h
  exact sound.after _

end Pool

namespace Reading

theorem reaches_ingest (file t : Text) (pool : Pool) (p : Parser) :
    pool.Reaches (ingest file t pool p).pool := by
  unfold ingest
  cases p.parse t with
  | error e => exact .refl pool
  | ok d =>
    simp only
    cases htaken : pool.ingest d (some file) with
    | error e next =>
      simp only
      rw [(Pool.ingest_eq_error htaken).1]
      exact .refl pool
    | ok n next =>
      have hnext : pool.Reaches next := by
        refine ⟨[⟨d, some file⟩], ?_⟩
        rw [List.map_singleton, Pool.after_cons, Pool.after_nil]
        exact (Pool.perform_of_ok htaken).symm
      cases n <;> exact hnext

theorem reaches_andThen {pool : Pool} {r : Reading} {f : Pool → Reading}
    (h : pool.Reaches r.pool) (hf : ∀ next : Pool, next.Reaches (f next).pool) :
    pool.Reaches (r.andThen f).pool := by
  unfold Reading.andThen
  split
  · exact h
  · exact h.trans (hf r.pool)

theorem reaches_ingestAll (file t : Text) (parsers : List Parser) (pool : Pool) :
    pool.Reaches (ingestAll file t parsers pool).pool := by
  induction parsers generalizing pool with
  | nil => exact .refl pool
  | cons p parsers ih => exact reaches_andThen (reaches_ingest file t pool p) ih

theorem reaches_file (w : Workspace) (registrations : List Registration) (path : Text)
    (pool : Pool) : pool.Reaches (file w registrations path pool).pool := by
  unfold file
  split
  · exact .refl pool
  · split
    · exact reaches_ingestAll _ _ _ pool
    · exact .refl pool
    · exact .refl pool

theorem reaches_files (w : Workspace) (registrations : List Registration) (paths : List Text)
    (pool : Pool) : pool.Reaches (files w registrations paths pool).pool := by
  induction paths generalizing pool with
  | nil => exact .refl pool
  | cons path paths ih => exact reaches_andThen (reaches_file w registrations path pool) ih

end Reading

/-- How far along a stage is. -/
def Stage.rank : Stage → Nat
  | .configuring => 0
  | .reading => 1
  | .built => 2

theorem Stage.eq_built_of_rank_le {stage : Stage} (h : Stage.built.rank ≤ stage.rank) :
    stage = .built := by
  cases stage with
  | configuring => simp [rank] at h
  | reading => simp [rank] at h
  | built => rfl

namespace Builder

/-! ## Calls and steps -/

/-- What can be asked of a builder. A read is asked with the files as they are then. -/
inductive Call where
  | addParser (parser : Option Parser) (filter : Option Filter)
  | addParserForExtensions (parser : Option Parser) (endings : List Text)
  | read (w : Workspace) (path : Text) (filter : Option Filter)
  | build

def Call.Adds : Call → Prop
  | .addParser _ _ => True
  | .addParserForExtensions _ _ => True
  | .read _ _ _ => False
  | .build => False

/-- Why a call is refused. -/
inductive Refusal where
  | filter (fault : FilterFault)
  | failure (e : Failure)

def ofAttempt (a : Attempt) : Builder × Option Refusal := (a.builder, a.failure.map .failure)

/-- The builder after a call, and the refusal if there is one. -/
def perform (b : Builder) : Call → Builder × Option Refusal
  | .addParser parser filter => ofAttempt (b.addParser parser filter)
  | .addParserForExtensions parser endings =>
    match b.addParserForExtensions parser endings with
    | .error fault => (b, some (.filter fault))
    | .ok a => ofAttempt a
  | .read w path filter => ofAttempt (b.read w path filter)
  | .build => ofAttempt b.build

def after (b : Builder) (calls : List Call) : Builder :=
  calls.foldl (fun b c => (b.perform c).1) b

@[simp] theorem after_nil (b : Builder) : b.after [] = b := rfl

@[simp] theorem after_cons (b : Builder) (c : Call) (calls : List Call) :
    b.after (c :: calls) = (b.perform c).1.after calls := rfl

theorem after_append (b : Builder) (calls more : List Call) :
    b.after (calls ++ more) = (b.after calls).after more := List.foldl_append

theorem after_concat (b : Builder) (calls : List Call) (c : Call) :
    b.after (calls ++ [c]) = ((b.after calls).perform c).1 := by
  rw [after_append, after_cons, after_nil]

/-- What a call does to a builder. -/
inductive Step (b : Builder) : Call → Builder × Option Refusal → Prop
  /-- The call is refused. Only the pool may be another one, from a read that
  failed half-way, and not that of a builder that was built. -/
  | refused (c : Call) (e : Refusal) {pool : Pool} (reached : b.pool.Reaches pool)
      (built : b.stage = .built → pool = b.pool) : Step b c ({ b with pool := pool }, some e)
  /-- A parser is registered. -/
  | registers {c : Call} (r : Registration) (adds : c.Adds) (configuring : b.stage = .configuring) :
      Step b c ({ b with registrations := b.registrations ++ [r] }, none)
  /-- A root is passed over. -/
  | skips (w : Workspace) (path : Text) (filter : Option Filter) (reason : SkipReason)
      (parsers : b.registrations ≠ []) (unbuilt : b.stage ≠ .built) :
      Step b (.read w path filter) ({ b with skipped := b.skipped ++ [⟨path, reason⟩] }, none)
  /-- A root is read. -/
  | reads (w : Workspace) (path : Text) (filter : Option Filter) {pool : Pool}
      (parsers : b.registrations ≠ []) (unbuilt : b.stage ≠ .built)
      (reached : b.pool.Reaches pool) : Step b (.read w path filter)
        ({ b with
            pool := pool
            stage := .reading
            visited := b.visited ++ [w.canonical (Path.ofText path)] }, none)
  /-- The pool is frozen. -/
  | builds (unbuilt : b.stage ≠ .built) :
      Step b .build ({ b with pool := b.pool.freeze, stage := .built }, none)

variable {b : Builder} {c : Call} {result : Builder × Option Refusal}

theorem step_refuse (b : Builder) (c : Call) (e : Refusal) : Step b c (b, some e) :=
  .refused c e (.refl b.pool) fun _ => rfl

theorem step_addParser (b : Builder) (c : Call) (adds : c.Adds) (parser : Option Parser)
    (filter : Option Filter) : Step b c (ofAttempt (b.addParser parser filter)) := by
  unfold addParser
  split
  · exact step_refuse b c _
  · split
    · next hstage => exact .registers _ adds hstage
    · exact step_refuse b c _

/-- A read is refused before it does anything, passes a root over that is missing or was
visited, or reads the files below it. -/
theorem read_cases (b : Builder) (w : Workspace) (path : Text) (filter : Option Filter) :
    (∃ e, b.read w path filter = b.refuse e) ∨
    (∃ log, b.read w path filter =
      ⟨{ b with skipped := b.skipped ++ [⟨path, .missing⟩] }, none, log⟩) ∨
    (w.isDirectory (Path.ofText path) = true ∧
      b.isVisited (w.canonical (Path.ofText path)) = true ∧ ∃ log, b.read w path filter =
        ⟨{ b with skipped := b.skipped ++ [⟨path, .visited⟩] }, none, log⟩) ∨
    b.read w path filter = b.readFresh w path filter := by
  unfold read
  split
  · exact .inl ⟨_, rfl⟩
  · split
    · exact .inl ⟨_, rfl⟩
    · split
      · exact .inr (.inl ⟨_, rfl⟩)
      · split
        · exact .inl ⟨_, rfl⟩
        · next hdir =>
          split
          · next hvisited => exact .inr (.inr (.inl ⟨by simpa using hdir, hvisited, _, rfl⟩))
          · exact .inr (.inr (.inr rfl))

theorem step_readFresh (parsers : b.registrations ≠ []) (unbuilt : b.stage ≠ .built) (w : Workspace)
    (path : Text) (filter : Option Filter) :
    Step b (.read w path filter) (ofAttempt (b.readFresh w path filter)) := by
  unfold readFresh
  have reached := Reading.reaches_files w b.registrations
    ((w.listFiles (Path.ofText path) filter).map Path.text) b.pool
  simp only
  split
  · next e hfailed => exact .refused _ (.failure e) reached fun hbuilt => absurd hbuilt unbuilt
  · exact .reads w path filter parsers unbuilt reached

theorem step_read (b : Builder) (w : Workspace) (path : Text) (filter : Option Filter) :
    Step b (.read w path filter) (ofAttempt (b.read w path filter)) := by
  unfold read
  split
  · exact step_refuse b _ _
  · next hparsers =>
    have parsers : b.registrations ≠ [] := by simpa using hparsers
    split
    · exact step_refuse b _ _
    · next unbuilt =>
      split
      · exact .skips w path filter .missing parsers unbuilt
      · split
        · exact step_refuse b _ _
        · split
          · exact .skips w path filter .visited parsers unbuilt
          · exact step_readFresh parsers unbuilt w path filter

theorem step_perform (b : Builder) (c : Call) : Step b c (b.perform c) := by
  cases c with
  | addParser parser filter =>
    exact step_addParser b (.addParser parser filter) trivial parser filter
  | addParserForExtensions parser endings =>
    rw [perform, addParserForExtensions]
    cases Filter.ofExtensions endings with
    | error fault => exact step_refuse b _ _
    | ok filter =>
      exact step_addParser b (.addParserForExtensions parser endings) trivial parser (some filter)
  | read w path filter => exact step_read b w path filter
  | build =>
    rw [perform, build]
    split
    · exact step_refuse b _ _
    · next unbuilt => exact .builds unbuilt

/-! ## What a step keeps -/

/-- The stage and the pool's flag say the same, and a builder that reads has
parsers to read with. -/
structure InStep (b : Builder) : Prop where
  frozen : b.pool.frozen = true ↔ b.stage = .built
  parsers : b.stage = .reading → b.registrations ≠ []

theorem inStep_new : new.InStep := ⟨by simp [new, Pool.empty], by simp [new]⟩

theorem Step.inStep (h : Step b c result) (inv : b.InStep) : result.1.InStep := by
  cases h with
  | refused c e reached built =>
    exact ⟨by simpa [reached.frozen] using inv.frozen, inv.parsers⟩
  | registers r adds configuring =>
    refine ⟨inv.frozen, fun hreading => ?_⟩
    rw [show b.stage = .reading from hreading] at configuring
    cases configuring
  | skips w path filter reason parsers unbuilt => exact ⟨inv.frozen, inv.parsers⟩
  | reads w path filter parsers unbuilt reached =>
    refine ⟨?_, fun _ => parsers⟩
    have hopen : b.pool.frozen = false := by simpa using mt inv.frozen.mp unbuilt
    simp [reached.frozen, hopen]
  | builds unbuilt => exact ⟨by simp [Pool.freeze], nofun⟩

theorem Step.rank_le (h : Step b c result) : b.stage.rank ≤ result.1.stage.rank := by
  cases h with
  | refused => exact Nat.le_refl _
  | registers => exact Nat.le_refl _
  | skips => exact Nat.le_refl _
  | reads w path filter parsers unbuilt reached =>
    cases hstage : b.stage with
    | configuring => simp [Stage.rank]
    | reading => simp [Stage.rank]
    | built => exact absurd hstage unbuilt
  | builds => cases b.stage <;> simp [Stage.rank]

/-- Parsers are only added, and only while the builder is configured. -/
theorem Step.registrations (h : Step b c result) :
    b.registrations <+: result.1.registrations ∧
      (result.1.registrations ≠ b.registrations → b.stage = .configuring) := by
  cases h with
  | registers r adds configuring => exact ⟨List.prefix_append _ _, fun _ => configuring⟩
  | _ => exact ⟨List.prefix_rfl, fun hne => absurd rfl hne⟩

theorem Step.of_refused (h : Step b c result) (hrefused : result.2 ≠ none) :
    result.1.stage = b.stage ∧ result.1.registrations = b.registrations ∧
      result.1.skipped = b.skipped ∧ result.1.visited = b.visited := by
  cases h with
  | refused => exact ⟨rfl, rfl, rfl, rfl⟩
  | _ => exact absurd rfl hrefused

/-- Nothing is read and no root is passed over where no parser is registered. -/
theorem Step.of_no_parsers {w : Workspace} {path : Text} {filter : Option Filter}
    (h : Step b (.read w path filter) result) (hnone : b.registrations = []) :
    result.2 ≠ none ∧ result.1.skipped = b.skipped := by
  cases h with
  | refused => exact ⟨nofun, rfl⟩
  | registers r adds configuring => exact adds.elim
  | skips w path filter reason parsers unbuilt => exact absurd hnone parsers
  | reads w path filter parsers unbuilt reached => exact absurd hnone parsers

/-- What is asked of a builder that was built is refused, and changes nothing. -/
theorem Step.of_built (h : Step b c result) (hbuilt : b.stage = .built) :
    result.2 ≠ none ∧ result.1 = b := by
  cases h with
  | refused c e reached built =>
    obtain rfl := built hbuilt
    exact ⟨nofun, rfl⟩
  | registers r adds configuring =>
    rw [hbuilt] at configuring
    cases configuring
  | skips w path filter reason parsers unbuilt => exact absurd hbuilt unbuilt
  | reads w path filter parsers unbuilt reached => exact absurd hbuilt unbuilt
  | builds unbuilt => exact absurd hbuilt unbuilt

theorem Step.begins_reading (h : Step b c result) (hbefore : b.stage ≠ .reading)
    (hafter : result.1.stage = .reading) : ∃ w path filter, c = .read w path filter ∧
      result.2 = none ∧ result.1.skipped = b.skipped := by
  cases h with
  | reads w path filter parsers unbuilt reached => exact ⟨w, path, filter, rfl, rfl, rfl⟩
  | builds => cases hafter
  | _ => exact absurd hafter hbefore

theorem Step.becomes_built (h : Step b c result) (hbefore : b.stage ≠ .built)
    (hafter : result.1.stage = .built) : c = .build ∧ result.2 = none := by
  cases h with
  | builds => exact ⟨rfl, rfl⟩
  | reads => cases hafter
  | _ => exact absurd hafter hbefore

theorem Step.stage_of_build (h : Step b .build result) (hdone : result.2 = none) :
    result.1.stage = .built := by
  cases h with
  | refused => cases hdone
  | registers r adds configuring => exact adds.elim
  | builds => rfl

theorem Step.sound (h : Step b c result) (sound : b.pool.Sound) : result.1.pool.Sound := by
  cases h with
  | refused c e reached built => exact reached.sound sound
  | registers r adds configuring => exact sound
  | skips w path filter reason parsers unbuilt => exact sound
  | reads w path filter parsers unbuilt reached => exact reached.sound sound
  | builds unbuilt => exact ⟨⟨sound.aligned, sound.distinct⟩, sound.own⟩

/-! ## Runs -/

theorem InStep.after (inv : b.InStep) (calls : List Call) : (b.after calls).InStep := by
  induction calls generalizing b with
  | nil => exact inv
  | cons c calls ih => exact ih ((step_perform b c).inStep inv)

theorem sound_after (sound : b.pool.Sound) (calls : List Call) : (b.after calls).pool.Sound := by
  induction calls generalizing b with
  | nil => exact sound
  | cons c calls ih => exact ih ((step_perform b c).sound sound)

theorem rank_le_after (b : Builder) (calls : List Call) :
    b.stage.rank ≤ (b.after calls).stage.rank := by
  induction calls generalizing b with
  | nil => exact Nat.le_refl _
  | cons c calls ih => exact Nat.le_trans (step_perform b c).rank_le (ih _)

theorem registrations_prefix_after (b : Builder) (calls : List Call) :
    b.registrations <+: (b.after calls).registrations := by
  induction calls generalizing b with
  | nil => exact List.prefix_rfl
  | cons c calls ih => exact (step_perform b c).registrations.1.trans (ih _)

theorem built_after (h : b.stage = .built) (calls : List Call) :
    (b.after calls).stage = .built := by
  have hle := rank_le_after b calls
  rw [h] at hle
  exact Stage.eq_built_of_rank_le hle

/-- What does not hold at first and does in the end was brought about by some call. -/
theorem exists_call {P : Builder → Prop} {calls : List Call} (hfirst : ¬ P b)
    (hlast : P (b.after calls)) : ∃ before c after, calls = before ++ c :: after ∧
      ¬ P (b.after before) ∧ P ((b.after before).perform c).1 := by
  induction calls using List.reverseRecOn with
  | nil => exact absurd hlast hfirst
  | append_singleton calls c ih =>
    by_cases h : P (b.after calls)
    · obtain ⟨before, own, after, rfl, hbefore, hafter⟩ := ih h
      exact ⟨before, own, after ++ [c], by simp, hbefore, hafter⟩
    · exact ⟨calls, c, [], rfl, h, by rwa [← after_concat]⟩

/-- A root is read: the call is neither refused nor noted down as passed over. -/
def Enters (b : Builder) (w : Workspace) (path : Text) (filter : Option Filter) : Prop :=
  (b.perform (.read w path filter)).2 = none ∧
    (b.perform (.read w path filter)).1.skipped = b.skipped

/-- What holds of a new builder after calls, refused ones among them, whatever is
asked next. -/
structure Lifecycle (calls : List Call) : Prop where
  /-- The stage does not move back. -/
  forward : ∀ more,
    (new.after calls).stage.rank ≤ (new.after (calls ++ more)).stage.rank
  /-- The pool is frozen exactly when the builder is built. -/
  frozen : (new.after calls).pool.frozen = true ↔ (new.after calls).stage = .built
  /-- The list of parsers only grows, -/
  parsers : ∀ more, (new.after calls).registrations <+: (new.after (calls ++ more)).registrations
  /-- and does so only while the builder is configured. -/
  configured : ∀ c,
    ((new.after calls).perform c).1.registrations ≠ (new.after calls).registrations →
      (new.after calls).stage = .configuring
  /-- A builder that reads has a parser, and has read a root. -/
  reading : (new.after calls).stage = .reading → (new.after calls).registrations ≠ [] ∧
    ∃ before w path filter after, calls = before ++ .read w path filter :: after ∧
      (new.after before).Enters w path filter
  /-- Without a parser no root is read, and none is noted down as passed over. -/
  idle : (new.after calls).registrations = [] → ∀ w path filter,
    ((new.after calls).perform (.read w path filter)).2 ≠ none ∧
      ((new.after calls).perform (.read w path filter)).1.skipped = (new.after calls).skipped
  /-- A builder is built exactly when it was asked to be and did not refuse, -/
  built : (new.after calls).stage = .built ↔ ∃ before after, calls = before ++ .build :: after ∧
    ((new.after before).perform .build).2 = none
  /-- which it does once: everything asked after that is refused and changes nothing. -/
  final : ∀ before after, calls = before ++ .build :: after →
    ((new.after before).perform .build).2 = none → ∀ c,
      ((new.after calls).perform c).2 ≠ none ∧ ((new.after calls).perform c).1 = new.after calls
  /-- A call that is refused changes nothing but the pool. -/
  refused : ∀ c, ((new.after calls).perform c).2 ≠ none →
    ((new.after calls).perform c).1.stage = (new.after calls).stage ∧
    ((new.after calls).perform c).1.registrations = (new.after calls).registrations ∧
    ((new.after calls).perform c).1.skipped = (new.after calls).skipped ∧
    ((new.after calls).perform c).1.visited = (new.after calls).visited

/-- A build that goes through leaves a built builder, whatever is asked later. -/
theorem built_of_build {before after : List Call}
    (h : ((b.after before).perform .build).2 = none) :
    (b.after (before ++ .build :: after)).stage = .built := by
  rw [after_append, after_cons]
  exact built_after ((step_perform _ _).stage_of_build h) after

/-- Every run of calls on a new builder keeps to the lifecycle. -/
theorem lifecycle (calls : List Call) : Lifecycle calls where
  forward more := by
    rw [after_append]
    exact rank_le_after _ more
  frozen := (inStep_new.after calls).frozen
  parsers more := by
    rw [after_append]
    exact registrations_prefix_after _ more
  configured c := (step_perform _ c).registrations.2
  reading hreading := by
    refine ⟨(inStep_new.after calls).parsers hreading, ?_⟩
    obtain ⟨before, c, after, hcalls, hbefore, hafter⟩ :=
      exists_call (P := fun b => b.stage = .reading) (b := new) (by simp [new]) hreading
    obtain ⟨w, path, filter, rfl, hdone, hskipped⟩ :=
      (step_perform _ c).begins_reading hbefore hafter
    exact ⟨before, w, path, filter, after, hcalls, hdone, hskipped⟩
  idle hnone w path filter := (step_perform _ _).of_no_parsers hnone
  built := by
    constructor
    · intro hbuilt
      obtain ⟨before, c, after, hcalls, hbefore, hafter⟩ :=
        exists_call (P := fun b => b.stage = .built) (b := new) (by simp [new]) hbuilt
      obtain ⟨rfl, hdone⟩ := (step_perform _ c).becomes_built hbefore hafter
      exact ⟨before, after, hcalls, hdone⟩
    · rintro ⟨before, after, rfl, hdone⟩
      exact built_of_build hdone
  final := by
    rintro before after rfl hdone c
    exact (step_perform _ c).of_built (built_of_build hdone)
  refused c := (step_perform _ c).of_refused

/-- A directory with a file that has a region. -/
def onePrevious : Workspace :=
  ⟨[([['o']], .directory),
    ([['o'], ['a']], .file (Text.encode "//[[region:A]]\nx\n//[[end]]".toList))],
    by decide, [], [], none⟩

/-- The parser of one preset, asked to read before it is registered, then a missing
root and one that is there; at last the builder is built. -/
def oneOfEach : List Call :=
  [.read onePrevious ['o'] none, .addParser (some (.ofPreset .cLike .default false)) none,
    .read onePrevious ['p'] none, .read onePrevious ['o'] none, .build]

/-- The run comes to a built builder with the region of the one root, which refuses a
second build and stays as it is. -/
theorem lifecycle_oneOfEach :
    (new.after oneOfEach).stage = .built ∧
      (new.after oneOfEach).pool.body? ['A'] = some ['x', '\n'] ∧
      (new.after oneOfEach).skipped = [⟨['p'], .missing⟩] ∧
      ((new.after oneOfEach).perform .build).2 ≠ none ∧
      ((new.after oneOfEach).perform .build).1 = new.after oneOfEach := by
  have hdone : ((new.after (oneOfEach.take 4)).perform .build).2 = none := by decide +kernel
  have hfinal := (lifecycle oneOfEach).final (oneOfEach.take 4) [] rfl hdone .build
  exact ⟨by decide +kernel, by decide +kernel, by decide +kernel, hfinal⟩

end Builder
end ProtectedRegions
