import Mathlib.Data.List.TakeWhile
import ProtectedRegions.Proofs.Planning
import ProtectedRegions.Proofs.Reading

/-
  Carrying out — what a sync leaves behind, when it comes through and when it
  fails

  Nothing is written while a plan is made, so a plan that fails leaves
  everything as it was. The files of a plan are then written one after the
  other, and the first that something is in the way of ends the run: those
  before it stay written. The plan does not look for what is in the way, so a
  run can fail half-way; that is the one way in which a failed run changes
  files.

  What is proved:
    1. `carried_carryOut` — exactly the files before the first blocked one are
       written, and which one is blocked can be seen on the tree before the run.
    2. `exists_plan_of_sync` — a run that comes through has carried out its plan.
    3. `sync_failure_iff` — when a run fails, and when it has then left every
       file as it was.
    4. `not_forall_sync_atomic` — a run can fail and leave a new file behind.
-/

namespace ProtectedRegions

namespace Workspace

variable {w w' : Workspace} {p q : Path} {bytes : ByteArray}

theorem SameEnvironment.apart (h : w.SameEnvironment w') : w'.Apart p q ↔ w.Apart p q := by
  unfold Apart
  rw [h.destination, h.destination, h.way, h.way]

/-- A file that was written is in the way of a file that stays apart from it just
when something was before. -/
theorem Places.blocked_iff (h : w.Places p bytes w') (hfree : ¬ w.Blocked p)
    (apart : w.Apart p q) : w'.Blocked q ↔ w.Blocked q := by
  unfold Blocked
  rw [h.same.way, h.same.destination]
  constructor
  · rintro (⟨l, hl, hfile⟩ | hdirectory | hown)
    · rw [h.file] at hfile
      split at hfile
      · next heq => exact absurd (.inr (.inr (apart.2.1 (heq ▸ hl)))) hfree
      · exact .inl ⟨l, hl, hfile⟩
    · rcases h.made _ hdirectory with hold | hnew
      · exact .inr (.inl hold)
      · exact .inr (.inr (apart.2.2 hnew))
    · exact .inr (.inr hown)
  · rintro (⟨l, hl, hfile⟩ | hdirectory | hown)
    · refine .inl ⟨l, hl, ?_⟩
      rw [h.file]
      split
      · simp
      · exact hfile
    · exact .inr (.inl (h.directory _ hdirectory))
    · exact .inr (.inr hown)

end Workspace

namespace Sync

variable {w w' after : Workspace} {r : SyncRequest} {files : List PlannedFile} {f : PlannedFile}

/-! ## Carrying out a plan -/

/-- The files of a plan that are to be written. -/
def writes (files : List PlannedFile) : List PlannedFile := files.filter (·.change ≠ .unchanged)

/-- The files that are written before one is reached that something is in the
way of. -/
def reached (w : Workspace) (files : List PlannedFile) : List PlannedFile :=
  (writes files).takeWhile fun f => ¬ w.Blocked f.path

/-- The second tree is the first with files in their places, in directories that
are there or were made. -/
structure Carried (w : Workspace) (files : List PlannedFile) (after : Workspace) : Prop where
  same : w.SameEnvironment after
  tree : after.IsTree
  directory : ∀ l, w.lookup? l = some .directory → after.lookup? l = some .directory
  way : ∀ f ∈ files, ∀ l ∈ w.way f.path, after.lookup? l = some .directory
  written : ∀ f ∈ files, after.file? (w.destination f.path) = some f.content
  kept : ∀ l, (∀ f ∈ files, w.destination f.path ≠ l) → after.file? l = w.file? l

theorem carried_of_grows (h : w.Grows after) : Carried w [] after where
  same := h.same
  tree := h.tree
  directory := h.directory
  way := fun _ hf => by cases hf
  written := fun _ hf => by cases hf
  kept := fun l _ => h.file l

theorem Carried.cons (h : Carried w' files after) (places : w.Places f.path f.content w')
    (apart : ∀ g ∈ files, w.Apart f.path g.path) : Carried w (f :: files) after where
  same := places.same.trans h.same
  tree := h.tree
  directory := fun l hl => h.directory l (places.directory l hl)
  way := by
    intro g hg l hl
    rcases List.mem_cons.mp hg with rfl | hg
    · exact h.directory l (places.way l hl)
    · exact h.way g hg l (by rwa [places.same.way])
  written := by
    intro g hg
    rcases List.mem_cons.mp hg with rfl | hg
    · rw [h.kept, places.file, if_pos rfl]
      intro k hk
      rw [places.same.destination]
      exact (apart k hk).1.symm
    · rw [← places.same.destination]
      exact h.written g hg
  kept := by
    intro l hl
    rw [h.kept l, places.file, if_neg (hl f List.mem_cons_self).symm]
    intro g hg
    rw [places.same.destination]
    exact hl g (List.mem_cons_of_mem _ hg)

theorem writes_cons_of_unchanged (h : f.change = .unchanged) :
    writes (f :: files) = writes files := by simp [writes, h]

theorem writes_cons_of_changed (h : f.change ≠ .unchanged) :
    writes (f :: files) = f :: writes files := by simp [writes, h]

theorem carryOut_writes (w : Workspace) (files : List PlannedFile) :
    carryOut w (writes files) = carryOut w files := by
  induction files generalizing w with
  | nil => rfl
  | cons f files ih =>
    by_cases hchange : f.change = .unchanged
    · rw [writes_cons_of_unchanged hchange, carryOut, if_pos hchange, ih]
    · rw [writes_cons_of_changed hchange, carryOut, carryOut, if_neg hchange, if_neg hchange]
      split
      · rfl
      · exact ih _

theorem mem_of_mem_reached (h : f ∈ reached w files) : f ∈ writes files :=
  (List.takeWhile_sublist _).mem h

theorem takeWhile_congr {α : Type} {p q : α → Bool} {l : List α} (h : ∀ a ∈ l, p a = q a) :
    l.takeWhile p = l.takeWhile q := by
  induction l with
  | nil => rfl
  | cons a l ih =>
    rw [List.takeWhile_cons, List.takeWhile_cons, h a List.mem_cons_self,
      ih fun b hb => h b (List.mem_cons_of_mem _ hb)]

/-- Exactly the files before the first blocked one are written. -/
theorem carried_carryOut (tree : w.IsTree) (normal : ∀ f ∈ files, f.path.Normal)
    (apart : files.Pairwise fun f g => w.Apart f.path g.path) :
    Carried w (reached w files) (carryOut w files).1 ∧
      ((carryOut w files).2 = none ↔ ∀ f ∈ writes files, ¬ w.Blocked f.path) := by
  induction files generalizing w with
  | nil => exact ⟨carried_of_grows (.refl tree), by simp [carryOut, writes]⟩
  | cons f files ih =>
    have hnormal : ∀ g ∈ files, g.path.Normal := fun g hg => normal g (List.mem_cons_of_mem _ hg)
    obtain ⟨hfirst, hrest⟩ := List.pairwise_cons.mp apart
    rw [carryOut]
    by_cases hchange : f.change = .unchanged
    · rw [if_pos hchange, reached, writes_cons_of_unchanged hchange]
      exact ih tree hnormal hrest
    rw [if_neg hchange, reached, writes_cons_of_changed hchange, List.takeWhile_cons]
    by_cases hblocked : w.Blocked f.path
    · obtain ⟨w', e, hwrite, grows⟩ :=
        Workspace.write_of_blocked tree (normal f List.mem_cons_self) hblocked f.content
      rw [hwrite]
      simp only [hblocked, not_true_eq_false, decide_false, Bool.false_eq_true, if_false]
      refine ⟨carried_of_grows grows, ?_⟩
      simp [hblocked]
    · obtain ⟨w', hwrite, places⟩ :=
        Workspace.write_of_free tree (normal f List.mem_cons_self) hblocked f.content
      have hsame : ∀ g ∈ writes files, (w'.Blocked g.path ↔ w.Blocked g.path) := fun g hg =>
        places.blocked_iff hblocked (hfirst g (List.mem_of_mem_filter hg))
      have hreached : reached w' files = reached w files :=
        takeWhile_congr fun g hg => by simp [hsame g hg]
      obtain ⟨hcarried, hnone⟩ := ih places.tree hnormal
        (hrest.imp fun h => places.same.apart.mpr h)
      rw [hwrite]
      simp only [hblocked, not_false_eq_true, decide_true, if_true]
      rw [hreached] at hcarried
      refine ⟨hcarried.cons places fun g hg =>
        hfirst g (List.mem_of_mem_filter (mem_of_mem_reached hg)), ?_⟩
      rw [hnone, List.forall_mem_cons]
      simp only [hblocked, not_false_eq_true, true_and]
      exact forall₂_congr fun g hg => not_congr (hsame g hg)

/-! ## Runs -/

theorem sync_of_plan_error {e : Failure} (h : (plan w r).result = .error e) :
    (sync w r).1 = w ∧ (sync w r).2.result = .error e := by
  unfold sync
  simp [h]

theorem sync_of_plan_ok {b : Builder} (h : (plan w r).result = .ok (b, files))
    (hrun : r.dryRun = false) :
    (sync w r).1 = (carryOut w files).1 ∧
      (sync w r).2.result = match (carryOut w files).2 with
        | some e => .error (.disk e)
        | none => .ok (report b files false) := by
  unfold sync
  simp only [h, hrun, Bool.false_eq_true, if_false]
  cases (carryOut w files).2 <;> exact ⟨rfl, rfl⟩

theorem sync_of_dryRun {b : Builder} (h : (plan w r).result = .ok (b, files))
    (hrun : r.dryRun = true) :
    (sync w r).1 = w ∧ (sync w r).2.result = .ok (report b files true) := by
  unfold sync
  simp [h, hrun]

/-- A run that is not dry writes the files of its plan up to the first blocked
one. -/
theorem carried_sync (tree : w.IsTree) {b : Builder} (h : (plan w r).result = .ok (b, files))
    (hrun : r.dryRun = false) :
    Carried w (reached w files) (sync w r).1 ∧
      ((∃ e, (sync w r).2.result = .error e) ↔ ∃ f ∈ writes files, w.Blocked f.path) := by
  obtain ⟨hcarried, hnone⟩ := carried_carryOut tree (normal_planned tree h) (apart_planned tree h)
  obtain ⟨hafter, hresult⟩ := sync_of_plan_ok h hrun
  rw [hafter, hresult]
  refine ⟨hcarried, ?_⟩
  cases hout : (carryOut w files).2 with
  | none =>
    have hfree := hnone.mp hout
    simp only [reduceCtorEq, exists_false, false_iff]
    rintro ⟨f, hf, hblocked⟩
    exact hfree f hf hblocked
  | some e =>
    simp only [Except.error.injEq, exists_eq', true_iff]
    by_contra hno
    have := hnone.mpr fun f hf hblocked => hno ⟨f, hf, hblocked⟩
    rw [hout] at this
    cases this

/-- A run that comes through reports its plan; unless it is dry, it has written
every file of the plan that changes anything. -/
theorem exists_plan_of_sync (tree : w.IsTree) {result : SyncReport}
    (h : (sync w r).2.result = .ok result) :
    ∃ b files, (plan w r).result = .ok (b, files) ∧ result = report b files r.dryRun ∧
      (r.dryRun = false → Carried w (writes files) (sync w r).1) := by
  cases hplan : (plan w r).result with
  | error e =>
    rw [(sync_of_plan_error hplan).2] at h
    cases h
  | ok x =>
    obtain ⟨b, files⟩ := x
    cases hrun : r.dryRun with
    | true =>
      rw [(sync_of_dryRun hplan hrun).2] at h
      exact ⟨b, files, rfl, (Except.ok.inj h).symm, nofun⟩
    | false =>
      obtain ⟨hcarried, hfails⟩ := carried_sync tree hplan hrun
      have hfree : ∀ f ∈ writes files, ¬ w.Blocked f.path := by
        intro f hf hblocked
        obtain ⟨e, he⟩ := hfails.mpr ⟨f, hf, hblocked⟩
        rw [h] at he
        cases he
      have hreached : reached w files = writes files :=
        List.takeWhile_eq_self_iff.mpr fun f hf => by simpa using hfree f hf
      rw [hreached] at hcarried
      refine ⟨b, files, rfl, ?_, fun _ => hcarried⟩
      have hout := (sync_of_plan_ok hplan hrun).2
      rw [h] at hout
      split at hout
      · cases hout
      · exact Except.ok.inj hout

/-- When a run fails, what it has then written, and when it has left every file
as it was. A plan that fails writes nothing. A run whose plan comes about fails
at the first file that something is in the way of; the files before it are
written, and all others are as they were. -/
theorem sync_failure_iff (tree : w.IsTree) :
    ((∃ e, (sync w r).2.result = .error e) ↔
      (∃ e, (plan w r).result = .error e) ∨ r.dryRun = false ∧
        ∃ b files, (plan w r).result = .ok (b, files) ∧ ∃ f ∈ writes files, w.Blocked f.path) ∧
    (∀ b files, r.dryRun = false → (plan w r).result = .ok (b, files) →
      Carried w (reached w files) (sync w r).1) ∧
    ((∀ l, (sync w r).1.file? l = w.file? l) ↔
      ∀ b files, r.dryRun = false → (plan w r).result = .ok (b, files) →
        ∀ f ∈ reached w files, w.file? (w.destination f.path) = some f.content) := by
  refine ⟨?_, fun b files hrun h => (carried_sync tree h hrun).1, ?_⟩
  · cases hplan : (plan w r).result with
    | error e => simp [(sync_of_plan_error hplan).2]
    | ok x =>
      obtain ⟨b, files⟩ := x
      cases hrun : r.dryRun with
      | true => simp [(sync_of_dryRun hplan hrun).2]
      | false =>
        rw [(carried_sync tree hplan hrun).2]
        simp
  · constructor
    · intro hsame b files hrun h f hf
      rw [← hsame]
      exact (carried_sync tree h hrun).1.written f hf
    · intro hheld l
      cases hplan : (plan w r).result with
      | error e => rw [(sync_of_plan_error hplan).1]
      | ok x =>
        obtain ⟨b, files⟩ := x
        cases hrun : r.dryRun with
        | true => rw [(sync_of_dryRun hplan hrun).1]
        | false =>
          have carried := (carried_sync tree hplan hrun).1
          by_cases hl : ∃ f ∈ reached w files, w.destination f.path = l
          · obtain ⟨f, hf, rfl⟩ := hl
            rw [carried.written f hf, hheld b files hrun hplan f hf]
          · exact carried.kept l fun f hf heq => hl ⟨f, hf, heq⟩

/-- Entries of a plan can be compared, so that a plan can be decided. -/
instance : DecidableEq PlannedFile := fun f g =>
  decidable_of_iff (f.path = g.path ∧ f.content.data = g.content.data ∧ f.change = g.change) <| by
    obtain ⟨path, content, change⟩ := f
    obtain ⟨path', content', change'⟩ := g
    simp only [PlannedFile.mk.injEq]
    exact and_congr_right fun _ => and_congr_left fun _ => ⟨ByteArray.ext, congrArg _⟩

theorem exists_of_map_snd {ε α β : Type} {x : Except ε (α × β)} {y : β}
    (h : x.map Prod.snd = .ok y) : ∃ a, x = .ok (a, y) := by
  cases x with
  | error e => cases h
  | ok x => exact ⟨x.1, congrArg Except.ok (Prod.ext rfl (Except.ok.inj h))⟩

/-- A run from one directory to another with nothing else asked for. -/
def simply (generated target : Text) : SyncRequest := ⟨generated, target, [], none, false⟩

/-- One generated file, and a directory where it would go: the run fails, and
every file is as it was. -/
theorem sync_failure_iff_directory :
    ∃ w : Workspace, w.IsTree ∧ w.at? ⟨[], [['o'], ['a']]⟩ = some .directory ∧
      (∃ e, (sync w (simply ['g'] ['o'])).2.result = .error e) ∧
      ∀ l, (sync w (simply ['g'] ['o'])).1.file? l = w.file? l := by
  let w : Workspace := ⟨[([['g']], .directory), ([['g'], ['a']], .file (Text.encode ['x'])),
    ([['o']], .directory), ([['o'], ['a']], .directory)], by decide, [], [], none⟩
  have tree : w.IsTree := by decide
  have hplan : (plan w (simply ['g'] ['o'])).result.map Prod.snd =
      .ok [⟨⟨[], [['o'], ['a']]⟩, Text.encode ['x'], .created⟩] := by decide +kernel
  obtain ⟨b, hresult⟩ := exists_of_map_snd hplan
  obtain ⟨hfails, -, hsame⟩ := sync_failure_iff (r := simply ['g'] ['o']) tree
  refine ⟨w, tree, by decide, hfails.mpr (.inr ⟨rfl, b, _, hresult, ?_⟩), hsame.mpr ?_⟩
  · exact ⟨⟨⟨[], [['o'], ['a']]⟩, Text.encode ['x'], .created⟩, by decide, by decide⟩
  · intro b' files _ hresult' f hf
    obtain ⟨-, rfl⟩ := Prod.mk.inj (Except.ok.inj (hresult.symm.trans hresult'))
    have hreached : reached w [⟨⟨[], [['o'], ['a']]⟩, Text.encode ['x'], .created⟩] = [] := by
      decide
    rw [hreached] at hf
    cases hf

/-- Two generated files, and a directory where the second would go. -/
def obstructed : Workspace :=
  ⟨[([['g']], .directory), ([['g'], ['a']], .file (Text.encode ['x'])),
    ([['g'], ['b']], .file (Text.encode ['y'])), ([['o']], .directory),
    ([['o'], ['b']], .directory)], by decide, [], [], none⟩

theorem plan_obstructed : (plan obstructed (simply ['g'] ['o'])).result.map Prod.snd =
    .ok [⟨⟨[], [['o'], ['a']]⟩, Text.encode ['x'], .created⟩,
      ⟨⟨[], [['o'], ['b']]⟩, Text.encode ['y'], .created⟩] := by
  have hlocate : obstructed.locate ⟨[], [['g']]⟩ = .ok [['g']] := rfl
  have hnames : obstructed.namesBelow [['g']] = [[['a']], [['b']]] :=
    List.mergeSort_of_pairwise (by decide)
  have hlist : obstructed.listFiles ⟨[], [['g']]⟩ none =
      [⟨[], [['g'], ['a']]⟩, ⟨[], [['g'], ['b']]⟩] := by
    unfold Workspace.listFiles
    rw [hlocate]
    simp only [hnames]
    rfl
  have hgenerated : Path.ofText (simply ['g'] ['o']).generated = ⟨[], [['g']]⟩ := by decide
  unfold plan
  simp only [hgenerated, hlist]
  decide +kernel

/-- A run can fail and leave files behind: here the first file is written before
the second is found to have a directory in its place. -/
theorem not_forall_sync_atomic :
    ¬ ∀ (w : Workspace) (r : SyncRequest), w.IsTree → (∃ e, (sync w r).2.result = .error e) →
      ∀ l, (sync w r).1.file? l = w.file? l := by
  intro hall
  have tree : obstructed.IsTree := by decide
  obtain ⟨b, hresult⟩ := exists_of_map_snd plan_obstructed
  obtain ⟨carried, hfails⟩ := carried_sync tree hresult rfl
  have hfailed := hfails.mpr
    ⟨⟨⟨[], [['o'], ['b']]⟩, Text.encode ['y'], .created⟩, by decide, by decide⟩
  have hwritten := carried.written
    ⟨⟨[], [['o'], ['a']]⟩, Text.encode ['x'], .created⟩ (by decide)
  rw [hall obstructed _ tree hfailed] at hwritten
  revert hwritten
  decide

end Sync
end ProtectedRegions
