import Mathlib.Data.List.Nodup
import ProtectedRegions.Proofs.Carrying

/-
  Delivering — what a run that comes through has done

  The places of the generated files are apart, so what one file of a plan writes
  is not what another one reads or finds in its place. After the run each place
  holds what was planned for it, the report has each place once, under the change
  that this was, and every other file is as it was.

  What is proved:
    1. `report_perm` — each file of a plan is in one list of the report.
    2. `Carried.at?` — each file of a plan stands in its place.
    3. `sync_delivers` — what a run that comes through has done to every file.
-/

namespace ProtectedRegions
namespace Sync

variable {w after : Workspace} {r : SyncRequest} {files : List PlannedFile} {f : PlannedFile}

/-! ## Changes and reports -/

theorem changeOf_eq_created_iff {path : Path} {content : ByteArray} :
    changeOf w path content = .created ↔ w.isFile path = false := by
  unfold changeOf Workspace.isFile
  rcases w.at? path with _ | old | _
  · simp
  · dsimp only
    split <;> simp
  · simp

theorem changeOf_eq_updated_iff {path : Path} {content : ByteArray} :
    changeOf w path content = .updated ↔ ∃ old, w.at? path = some (.file old) ∧ old ≠ content := by
  unfold changeOf
  split
  · next old h =>
    rw [h]
    by_cases heq : old.data = content.data
    · simp [ByteArray.ext heq]
    · have hne : old ≠ content := fun h => heq (congrArg _ h)
      simp [heq, hne]
  · next hno =>
    simp only [reduceCtorEq, false_iff]
    rintro ⟨old, h, -⟩
    exact hno old h

theorem changeOf_eq_unchanged_iff {path : Path} {content : ByteArray} :
    changeOf w path content = .unchanged ↔ w.at? path = some (.file content) := by
  unfold changeOf
  split
  · next old h =>
    rw [h]
    by_cases heq : old.data = content.data
    · simp [ByteArray.ext heq]
    · have hne : old ≠ content := fun h => heq (congrArg _ h)
      simp [heq, hne]
  · next hno =>
    simp only [reduceCtorEq, false_iff]
    exact hno content

/-- Each file of a plan is in exactly one list of the report. -/
theorem report_perm (b : Builder) (files : List PlannedFile) (dryRun : Bool) :
    ((report b files dryRun).created ++ (report b files dryRun).updated ++
      (report b files dryRun).unchanged).Perm (files.map (·.path.text)) := by
  unfold report
  simp only
  induction files with
  | nil => exact .nil
  | cons f files ih =>
    cases hchange : f.change with
    | created => simpa [hchange] using ih
    | updated =>
      simp only [List.filter_cons, hchange, reduceCtorEq, decide_false, decide_true, if_true,
        Bool.false_eq_true, if_false, List.map_cons, List.append_assoc, List.cons_append] at ih ⊢
      exact List.perm_middle.trans (ih.cons _)
    | unchanged =>
      simp only [List.filter_cons, hchange, reduceCtorEq, decide_false, decide_true, if_true,
        Bool.false_eq_true, if_false, List.map_cons] at ih ⊢
      exact List.perm_middle.trans (ih.cons _)

/-- What a run has done with one generated file: its place in the target holds
what was computed for it before anything was written, and the report says how
that differs from what stood there. -/
structure Delivers (w : Workspace) (s : Support) (generated target : Path) (names : List Text)
    (after : Workspace) (report : SyncReport) (bytes content : ByteArray) : Prop where
  generated : w.at? (generated.append names) = some (.file bytes)
  merged : merged w s (target.append names) bytes = .ok content
  holds : after.at? (target.append names) = some (.file content)
  created : (target.append names).text ∈ report.created ↔ w.isFile (target.append names) = false
  updated : (target.append names).text ∈ report.updated ↔
    ∃ old, w.at? (target.append names) = some (.file old) ∧ old ≠ content
  unchanged : (target.append names).text ∈ report.unchanged ↔
    w.at? (target.append names) = some (.file content)

theorem mem_report_iff (tree : w.IsTree) {b : Builder} (h : (plan w r).result = .ok (b, files))
    (hf : f ∈ files) (change : Change) :
    f.path.text ∈ (files.filter (·.change = change)).map (·.path.text) ↔ f.change = change := by
  constructor
  · intro hmem
    obtain ⟨g, hg, htext⟩ := List.mem_map.mp hmem
    obtain ⟨hg, hchange⟩ := List.mem_filter.mp hg
    have hpath := Path.text_injective (normal_planned tree h g hg) (normal_planned tree h f hf) htext
    obtain ⟨names, -, hplans⟩ := exists_names tree h hf
    obtain ⟨names', -, hplans'⟩ := exists_names tree h hg
    rw [hplans.path, hplans'.path] at hpath
    obtain rfl : names' = names := by simpa [Path.append] using hpath
    rw [hplans.unique hplans']
    simpa using hchange
  · intro hchange
    exact List.mem_map.mpr ⟨f, List.mem_filter.mpr ⟨hf, by simpa using hchange⟩, rfl⟩

theorem Carried.at? (tree : w.IsTree) {b : Builder} (h : (plan w r).result = .ok (b, files))
    (carried : Carried w (writes files) after) (hf : f ∈ files) :
    after.at? f.path = some (.file f.content) := by
  have normal := normal_planned tree h f hf
  rw [Workspace.at?_eq_some_iff normal, carried.same.way, carried.same.destination,
    ← Workspace.file?_eq_some_iff]
  by_cases hchange : f.change = .unchanged
  · obtain ⟨names, hnames, plans⟩ := exists_names tree h hf
    rw [plans.change, changeOf_eq_unchanged_iff, Workspace.at?_eq_some_iff normal] at hchange
    refine ⟨fun l hl => carried.directory l (hchange.1 l hl), ?_⟩
    rw [carried.kept, Workspace.file?_eq_some_iff]
    · exact hchange.2
    · -- what was written has another place
      intro g hg
      obtain ⟨hg, hwritten⟩ := List.mem_filter.mp hg
      obtain ⟨names', hnames', plans'⟩ := exists_names tree h hg
      have hne : names' ≠ names := by
        rintro rfl
        obtain rfl := plans'.unique plans
        rw [plans.change, changeOf_eq_unchanged_iff.mpr
          ((Workspace.at?_eq_some_iff normal).mpr hchange)] at hwritten
        simp at hwritten
      rw [plans.path, plans'.path]
      exact (Workspace.apart_of_names tree _ hnames' hnames hne).1
  · have hmem : f ∈ writes files := List.mem_filter.mpr ⟨hf, by simpa using hchange⟩
    exact ⟨carried.way f hmem, carried.written f hmem⟩

/-- What a run that is not dry and comes through has done to every file. The
report lists the place of each generated file exactly once, under the change it
was; the place holds what was computed on the tree as the run found it; and
every file that has another place is as it was, wherever the generated tree, the
target and the roots that were read lie. -/
theorem sync_delivers (tree : w.IsTree) (hrun : r.dryRun = false) {result : SyncReport}
    (h : (sync w r).2.result = .ok result) :
    ∃ b, (prepare w (roots r) r.config).result = .ok b ∧
      (result.created ++ result.updated ++ result.unchanged).Perm
        ((w.namesBelow (w.destination (Path.ofText r.generated))).map fun names =>
          ((Path.ofText r.target).append names).text) ∧
      (result.created ++ result.updated ++ result.unchanged).Nodup ∧
      (∀ names ∈ w.namesBelow (w.destination (Path.ofText r.generated)), ∃ bytes content,
        Delivers w b.support (Path.ofText r.generated) (Path.ofText r.target) names (sync w r).1
          result bytes content) ∧
      ∀ l, (∀ names ∈ w.namesBelow (w.destination (Path.ofText r.generated)),
          l ≠ w.destination (Path.ofText r.target) ++ names) →
        (sync w r).1.file? l = w.file? l := by
  obtain ⟨b, files, hplan, hresult, hcarries⟩ := exists_plan_of_sync tree h
  obtain ⟨-, hprepare, -⟩ := plan_eq_ok_iff.mp hplan
  have hcarried := hcarries hrun
  have htexts : files.map (·.path.text) =
      (w.namesBelow (w.destination (Path.ofText r.generated))).map fun names =>
        ((Path.ofText r.target).append names).text := by
    have := congrArg (List.map Path.text) (paths_planned (planned tree hplan))
    rwa [List.map_map, List.map_map] at this
  have hperm := report_perm b files r.dryRun
  rw [← hresult, htexts] at hperm
  refine ⟨b, hprepare, hperm, hperm.nodup_iff.mpr ?_, ?_, ?_⟩
  · refine (Workspace.nodup_namesBelow w _).map_on ?_
    intro names hnames names' hnames' htext
    have normal := fun n (hn : n ∈ w.namesBelow (w.destination (Path.ofText r.generated))) =>
      (Path.normal_ofText r.target).append fun part hp => (tree.named_below hn part hp).1
    have := Path.text_injective (normal names hnames) (normal names' hnames') htext
    simpa [Path.append] using this
  · intro names hnames
    obtain ⟨f, hf, plans⟩ := exists_planned tree hplan hnames
    obtain ⟨bytes, hat, hcontent⟩ := plans.content
    have hmem := mem_report_iff tree hplan hf
    have hchange := plans.change
    rw [plans.path] at hcontent hmem hchange
    refine ⟨bytes, f.content, hat, hcontent, ?_, ?_, ?_, ?_⟩
    · rw [← plans.path]
      exact hcarried.at? tree hplan hf
    · rw [hresult, ← changeOf_eq_created_iff, ← hchange]
      exact hmem .created
    · rw [hresult, ← changeOf_eq_updated_iff, ← hchange]
      exact hmem .updated
    · rw [hresult, ← changeOf_eq_unchanged_iff, ← hchange]
      exact hmem .unchanged
  · intro l hl
    refine hcarried.kept l fun f hf heq => ?_
    obtain ⟨names, hnames, plans⟩ := exists_names tree hplan (List.mem_of_mem_filter hf)
    rw [plans.path, Workspace.destination_append (tree.named_below hnames)] at heq
    exact hl names hnames heq.symm

/-- A generated file with an empty region, and its earlier form with a line in
the region and nothing behind it. -/
def regenerated : Workspace :=
  ⟨[([['g']], .directory),
    ([['g'], ['a']], .file (Text.encode "//[[region:A]]\n//[[end]]\n".toList)),
    ([['o']], .directory),
    ([['o'], ['a']], .file (Text.encode "//[[region:A]]\nx\n//[[end]]".toList))],
    by decide, [], [], none⟩

/-- The target holds the generated file with the line put back, and the
generated file is as it was. -/
theorem sync_delivers_restored :
    regenerated.IsTree ∧ (sync regenerated (simply ['g'] ['o'])).2.result =
        .ok ⟨[], [['o', '/', 'a']], [], 1, [], false⟩ ∧
      (sync regenerated (simply ['g'] ['o'])).1.at? ⟨[], [['o'], ['a']]⟩ =
        some (.file (Text.encode "//[[region:A]]\nx\n//[[end]]\n".toList)) ∧
      (sync regenerated (simply ['g'] ['o'])).1.file? [['g'], ['a']] =
        some (Text.encode "//[[region:A]]\n//[[end]]\n".toList) := by
  have tree : regenerated.IsTree := by decide
  have hresult : (sync regenerated (simply ['g'] ['o'])).2.result =
      .ok ⟨[], [['o', '/', 'a']], [], 1, [], false⟩ := by decide +kernel
  have hgenerated : regenerated.at? ((Path.ofText ['g']).append [['a']]) =
      some (.file (Text.encode "//[[region:A]]\n//[[end]]\n".toList)) := by decide +kernel
  have hmerged : (prepare regenerated (roots (simply ['g'] ['o'])) none).result.bind
      (fun b => merged regenerated b.support ((Path.ofText ['o']).append [['a']])
        (Text.encode "//[[region:A]]\n//[[end]]\n".toList)) =
      .ok (Text.encode "//[[region:A]]\nx\n//[[end]]\n".toList) := by decide +kernel
  obtain ⟨b, hprepare, -, -, hdelivers, hkept⟩ := sync_delivers tree rfl hresult
  refine ⟨tree, hresult, ?_, ?_⟩
  · obtain ⟨bytes, content, delivers⟩ := hdelivers [['a']] (by decide +kernel)
    have hbytes := delivers.generated.symm.trans hgenerated
    obtain rfl : bytes = Text.encode "//[[region:A]]\n//[[end]]\n".toList := by simpa using hbytes
    rw [show (prepare regenerated (roots (simply ['g'] ['o'])) none).result = .ok b from hprepare]
      at hmerged
    have hcontent := delivers.merged.symm.trans hmerged
    rw [← Except.ok.inj hcontent]
    exact delivers.holds
  · rw [hkept _ (by decide +kernel)]
    decide +kernel

end Sync
end ProtectedRegions
