import Mathlib.Data.List.Forall2
import ProtectedRegions.Sync
import ProtectedRegions.Proofs.Writing

/-
  Planning — what a sync means to do, before it does anything

  A plan has one entry for each generated file, in the order they are listed in.
  The entry names the place in the target, says what is to stand there, and
  compares it with what stands there now; all of it is computed on the tree as
  the run finds it.

  What is proved:
    1. `plan_eq_ok_iff` — the steps of a plan that comes about.
    2. `planned` — the entries of a plan are the generated files, each with the
       content that is to replace it and the change that this is.
    3. `apart_of_names` — two target files stand in nobody's way: neither is
       where the other has to pass.
-/

namespace ProtectedRegions

namespace Logged

theorem andThen_eq_ok_iff {α β : Type} {a : Logged α} {f : α → Logged β} {y : β} :
    (a.andThen f).result = .ok y ↔ ∃ x, a.result = .ok x ∧ (f x).result = .ok y := by
  unfold andThen
  cases a.result <;> simp

@[simp] theorem silent_result {α : Type} (result : Except Failure α) :
    (silent result).result = result := rfl

end Logged

/-! ## Paths below one target -/

namespace Workspace

variable {w : Workspace} {target : Path} {names names' : List Text}

/-- Two files that can be written one after the other: they have different
places, and neither place is passed on the way to the other, unless its own
path passes it too. -/
def Apart (w : Workspace) (p q : Path) : Prop :=
  w.destination p ≠ w.destination q ∧ (w.destination p ∈ w.way q → w.destination p ∈ w.way p) ∧
    (w.destination q ∈ w.way p → w.destination q ∈ w.way q)

theorem Apart.symm {p q : Path} (h : w.Apart p q) : w.Apart q p := ⟨h.1.symm, h.2.2, h.2.1⟩

/-- A file does not lie below another file. -/
theorem IsTree.append_inj_of_below (tree : w.IsTree) {l : Location} {before after : List Text}
    (h : before ++ after ∈ w.namesBelow l) (h' : before ∈ w.namesBelow l) : after = [] := by
  by_contra hne
  obtain ⟨-, bytes, hfile⟩ := mem_namesBelow.mp h
  obtain ⟨-, bytes', hfile'⟩ := mem_namesBelow.mp h'
  rw [← List.append_assoc, file?_eq_some_iff] at hfile
  rw [file?_eq_some_iff, tree.above_append hfile hne] at hfile'
  cases hfile'

theorem destination_mem_way (tree : w.IsTree) {l : Location} (h : names ∈ w.namesBelow l)
    (h' : names' ∈ w.namesBelow l)
    (hmem : w.destination (target.append names) ∈ w.way (target.append names')) :
    w.destination (target.append names) ∈ w.way (target.append names) := by
  have hnamed := tree.named_below h
  have hnamed' := tree.named_below h'
  rw [destination_append hnamed, way_append] at hmem ⊢
  rcases List.mem_append.mp hmem with hmem | hmem
  · exact List.mem_append_left _ hmem
  · obtain ⟨before, after, rfl, hafter, heq⟩ := (mem_wayFrom_names hnamed').mp hmem
    obtain rfl := List.append_cancel_left heq
    exact absurd (tree.append_inj_of_below h' h) hafter

/-- Files with different names below the generated tree stay apart in the
target. -/
theorem apart_of_names (tree : w.IsTree) (target : Path) {l : Location}
    (h : names ∈ w.namesBelow l) (h' : names' ∈ w.namesBelow l) (hne : names ≠ names') :
    w.Apart (target.append names) (target.append names') := by
  refine ⟨?_, destination_mem_way tree h h', destination_mem_way tree h' h⟩
  rw [destination_append (tree.named_below h), destination_append (tree.named_below h')]
  exact fun heq => hne (List.append_cancel_left heq)

end Workspace

/-! ## Plans -/

namespace Sync

variable {w : Workspace} {r : SyncRequest} {s : Support} {generated target : Path}

def roots (r : SyncRequest) : List Text :=
  if r.readRoots = [] then [(Path.ofText r.target).text] else r.readRoots

/-- The bytes that a target file is to hold, given the bytes that were generated
for it: a text with its regions restored, anything else as it is. -/
def merged (w : Workspace) (s : Support) (path : Path) (bytes : ByteArray) :
    Except Failure ByteArray :=
  match Text.decode bytes with
  | .ok t => (s.merge w path.text t).result.map Text.encode
  | .error _ => .ok bytes

theorem merged_eq_ok_iff {path : Path} {bytes content : ByteArray} :
    merged w s path bytes = .ok content ↔
      (∃ fault, Text.decode bytes = .error fault ∧ content = bytes) ∨
      ∃ t u, Text.decode bytes = .ok t ∧ (s.merge w path.text t).result = .ok u ∧
        content = Text.encode u := by
  unfold merged
  cases Text.decode bytes with
  | error fault => simp [eq_comm]
  | ok t =>
    simp only [reduceCtorEq, false_and, exists_false, false_or, Except.ok.injEq,
      exists_and_left, exists_eq_left']
    cases (s.merge w path.text t).result <;> simp [Except.map, eq_comm]

theorem contentOf_result {file path : Path} {bytes : ByteArray}
    (h : w.readBytes file.text = .ok bytes) :
    (contentOf w s file path).result = merged w s path bytes := by
  unfold contentOf merged
  rw [h]
  simp only
  cases Text.decode bytes with
  | error fault => rfl
  | ok t =>
    simp only [Logged.andThen]
    cases (s.merge w path.text t).result <;> rfl

theorem plan_eq_ok_iff {b : Builder} {files : List PlannedFile} :
    (plan w r).result = .ok (b, files) ↔ w.isDirectory (Path.ofText r.generated) = true ∧
      (prepare w (roots r) r.config).result = .ok b ∧
      (planAll w b.support (Path.ofText r.generated) (Path.ofText r.target)
        (w.listFiles (Path.ofText r.generated) none)).result = .ok files := by
  unfold plan
  simp only
  split
  · next hdir =>
    simp only [Logged.andThen_eq_ok_iff, Logged.silent_result, Except.ok.injEq, Prod.mk.injEq,
      true_and, hdir]
    constructor
    · rintro ⟨b', hb, -, files', hfiles, rfl, rfl⟩
      exact ⟨hb, hfiles⟩
    · rintro ⟨hb, hfiles⟩
      exact ⟨b, hb, (), files, hfiles, rfl, rfl⟩
  · next hdir => simp [hdir]

theorem planAll_eq_ok_iff {paths : List Path} {files : List PlannedFile} :
    (planAll w s generated target paths).result = .ok files ↔
      List.Forall₂ (fun path f => (planFile w s generated target path).result = .ok f) paths
        files := by
  induction paths generalizing files with
  | nil => simp [planAll, eq_comm]
  | cons path paths ih =>
    simp only [planAll, Logged.andThen_eq_ok_iff, Logged.silent_result, Except.ok.injEq]
    constructor
    · rintro ⟨f, hf, rest, hrest, rfl⟩
      exact .cons hf (ih.mp hrest)
    · intro h
      cases h with
      | cons hf hrest => exact ⟨_, hf, _, ih.mpr hrest, rfl⟩

/-- The entry of a plan for the generated file that some names lead to. -/
structure Plans (w : Workspace) (s : Support) (generated target : Path) (names : List Text)
    (f : PlannedFile) : Prop where
  path : f.path = target.append names
  content : ∃ bytes, w.at? (generated.append names) = some (.file bytes) ∧
    merged w s f.path bytes = .ok f.content
  change : f.change = changeOf w f.path f.content

theorem planFile_eq_ok_iff (tree : w.IsTree) (normal : generated.Normal)
    (hdir : w.isDirectory generated = true) {names : List Text}
    (hnames : names ∈ w.namesBelow (w.destination generated)) {f : PlannedFile} :
    (planFile w s generated target (generated.append names)).result = .ok f ↔
      Plans w s generated target names f := by
  obtain ⟨bytes, -, hat⟩ := Workspace.at?_append tree normal hdir hnames
  have hnormal := normal.append fun n hn => (tree.named_below hnames n hn).1
  have hread := (Workspace.readBytes_text_iff tree hnormal).mpr hat
  have hdrop : (generated.append names).parts.drop generated.parts.length = names := by
    simp [Path.append]
  unfold planFile
  simp only [Logged.andThen_eq_ok_iff, Logged.silent_result, Except.ok.injEq, hdrop,
    contentOf_result hread]
  constructor
  · rintro ⟨content, hcontent, rfl⟩
    exact ⟨rfl, ⟨bytes, hat, hcontent⟩, rfl⟩
  · rintro ⟨hpath, ⟨bytes', hat', hcontent⟩, hchange⟩
    obtain rfl : bytes = bytes' := by simpa [hat] using hat'
    refine ⟨f.content, hpath ▸ hcontent, ?_⟩
    rw [← hpath, ← hchange]

/-- The entries of a plan are the generated files in the order of their listing. -/
theorem planAll_listFiles_iff (tree : w.IsTree) (normal : generated.Normal)
    (hdir : w.isDirectory generated = true) {files : List PlannedFile} :
    (planAll w s generated target (w.listFiles generated none)).result = .ok files ↔
      List.Forall₂ (Plans w s generated target) (w.namesBelow (w.destination generated)) files := by
  have hall : ∀ names ∈ w.namesBelow (w.destination generated),
      names ∈ w.namesBelow (w.destination generated) := fun _ h => h
  rw [planAll_eq_ok_iff, Workspace.listFiles_eq normal hdir, List.forall₂_map_left_iff]
  constructor
  · intro h
    exact ((List.forall₂_and_left _ _).mpr ⟨hall, h⟩).imp fun names f hf =>
      (planFile_eq_ok_iff tree normal hdir hf.1).mp hf.2
  · intro h
    exact ((List.forall₂_and_left _ _).mpr ⟨hall, h⟩).imp fun names f hf =>
      (planFile_eq_ok_iff tree normal hdir hf.1).mpr hf.2

theorem planned (tree : w.IsTree) {b : Builder} {files : List PlannedFile}
    (h : (plan w r).result = .ok (b, files)) :
    List.Forall₂ (Plans w b.support (Path.ofText r.generated) (Path.ofText r.target))
      (w.namesBelow (w.destination (Path.ofText r.generated))) files := by
  obtain ⟨hdir, -, hfiles⟩ := plan_eq_ok_iff.mp h
  exact (planAll_listFiles_iff tree (Path.normal_ofText _) hdir).mp hfiles

theorem paths_planned {names : List (List Text)} {files : List PlannedFile}
    (h : List.Forall₂ (Plans w s generated target) names files) :
    files.map (·.path) = names.map target.append := by
  induction h with
  | nil => rfl
  | cons hf _ ih => rw [List.map_cons, List.map_cons, hf.path, ih]

theorem texts_planned {names : List (List Text)} {files : List PlannedFile}
    (h : List.Forall₂ (Plans w s generated target) names files) :
    files.map (·.path.text) = names.map fun n => (target.append n).text := by
  have := congrArg (List.map Path.text) (paths_planned h)
  rwa [List.map_map, List.map_map] at this

theorem exists_of_mem_left {α β : Type} {R : α → β → Prop} {l : List α} {m : List β}
    (h : List.Forall₂ R l m) {a : α} (ha : a ∈ l) : ∃ b ∈ m, R a b := by
  induction h with
  | nil => cases ha
  | cons hab _ ih =>
    rcases List.mem_cons.mp ha with rfl | ha
    · exact ⟨_, List.mem_cons_self, hab⟩
    · obtain ⟨b, hb, hr⟩ := ih ha
      exact ⟨b, List.mem_cons_of_mem _ hb, hr⟩

theorem exists_planned (tree : w.IsTree) {b : Builder} {files : List PlannedFile}
    (h : (plan w r).result = .ok (b, files)) {names : List Text}
    (hnames : names ∈ w.namesBelow (w.destination (Path.ofText r.generated))) :
    ∃ f ∈ files, Plans w b.support (Path.ofText r.generated) (Path.ofText r.target) names f :=
  exists_of_mem_left (planned tree h) hnames

theorem exists_names (tree : w.IsTree) {b : Builder} {files : List PlannedFile}
    (h : (plan w r).result = .ok (b, files)) {f : PlannedFile} (hf : f ∈ files) :
    ∃ names ∈ w.namesBelow (w.destination (Path.ofText r.generated)),
      Plans w b.support (Path.ofText r.generated) (Path.ofText r.target) names f :=
  exists_of_mem_left (List.Forall₂.flip (planned tree h)) hf

theorem Plans.unique {names : List Text} {f g : PlannedFile}
    (hf : Plans w s generated target names f) (hg : Plans w s generated target names g) :
    f = g := by
  obtain ⟨bytes, hat, hcontent⟩ := hf.content
  obtain ⟨bytes', hat', hcontent'⟩ := hg.content
  have hpath : f.path = g.path := hf.path.trans hg.path.symm
  obtain rfl : bytes = bytes' := by simpa [hat] using hat'
  rw [hpath] at hcontent
  have heq : f.content = g.content := Except.ok.inj (hcontent.symm.trans hcontent')
  have hchange : f.change = g.change := by rw [hf.change, hg.change, hpath, heq]
  cases f
  cases g
  simp_all

theorem Plans.normal (tree : w.IsTree) (normal : target.Normal) {names : List Text}
    {f : PlannedFile} (h : Plans w s generated target names f) {l : Location}
    (hnames : names ∈ w.namesBelow l) : f.path.Normal := by
  rw [h.path]
  exact normal.append fun n hn => (tree.named_below hnames n hn).1

theorem normal_planned (tree : w.IsTree) {b : Builder} {files : List PlannedFile}
    (h : (plan w r).result = .ok (b, files)) : ∀ f ∈ files, f.path.Normal := by
  intro f hf
  obtain ⟨names, hnames, plans⟩ := exists_names tree h hf
  exact plans.normal tree (Path.normal_ofText _) hnames

theorem apart_planned (tree : w.IsTree) {b : Builder} {files : List PlannedFile}
    (h : (plan w r).result = .ok (b, files)) :
    files.Pairwise fun f g => w.Apart f.path g.path := by
  have hpaths := paths_planned (planned tree h)
  rw [← List.pairwise_map (f := fun f : PlannedFile => f.path) (R := w.Apart), hpaths,
    List.pairwise_map]
  refine (Workspace.nodup_namesBelow w _).imp_of_mem ?_
  exact fun hn hn' hne => Workspace.apart_of_names tree _ hn hn' hne

end Sync
end ProtectedRegions
