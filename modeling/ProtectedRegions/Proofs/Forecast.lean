import ProtectedRegions.Proofs.Restoring

/-
  Forecast — runs whose outcome can be said before they are made

  Two outcomes are known in advance. A dry run makes the same plan as the run it
  stands for, because nothing is written while a plan is made, and a plan does
  not ask whether it will be carried out; so the report of the one is the report
  of the other. Only what is in the way of a file cannot be told from a plan, and
  a dry run does not meet it. And where nothing is at the target yet, no parser
  knows a body to put in: the pool is empty, and there is no file on disk for an
  inverse parser to look at. Each parser then gives the text back as it took it,
  and what is written is what was generated, byte by byte.

  What is proved:
    1. `sync_dryRun_predicts` — what a dry run says about the run it stands for.
    2. `merged_of_missing` — what is merged for a file whose target is missing.
    3. `sync_first_run` — the first run copies the generated tree.
-/

namespace ProtectedRegions

namespace Support

variable {w : Workspace} {pool : Pool} {path : Text}

theorem known_of_missing (hpool : pool.regions = []) (h : w.exists? (Path.ofText path) = false)
    (p : Parser) : known w pool path p = .ok fun _ => none := by
  unfold known
  by_cases hinverse : p.inverse = true
  · rw [if_pos hinverse, previous, h]
    rfl
  · rw [if_neg hinverse]
    have hbodies : pool.body? = fun _ => none := by
      funext id
      simp [Pool.body?, Pool.region?, hpool]
    rw [hbodies]

end Support

namespace Sync

variable {w : Workspace} {r : SyncRequest} {config : Option Text} {root : Path} {b : Builder}
  {files : List PlannedFile}

/-! ## Dry runs -/

theorem plan_dryRun (w : Workspace) (r : SyncRequest) (dryRun : Bool) :
    (plan w { r with dryRun }).result = (plan w r).result := rfl

theorem report_dryRun (b : Builder) (files : List PlannedFile) (before after : Bool) :
    { report b files before with dryRun := after } = report b files after := rfl

/-- A dry run leaves everything as it is. If it fails, so does the run it stands
for, with the same failure and before anything is written; and if that run comes
through, the dry run has given the same report. -/
theorem sync_dryRun_predicts (w : Workspace) (r : SyncRequest) :
    (sync w { r with dryRun := true }).1 = w ∧
    (∀ e, (sync w { r with dryRun := true }).2.result = .error e →
      (sync w { r with dryRun := false }).2.result = .error e ∧
        (sync w { r with dryRun := false }).1 = w) ∧
    ∀ result, (sync w { r with dryRun := false }).2.result = .ok result →
      (sync w { r with dryRun := true }).2.result = .ok { result with dryRun := true } := by
  have hdry := plan_dryRun w r true
  have hreal := plan_dryRun w r false
  cases hplan : (plan w r).result with
  | error e =>
    -- both runs end with the plan
    obtain ⟨hkept, hresult⟩ := sync_of_plan_error (hdry.trans hplan)
    obtain ⟨hkept', hresult'⟩ := sync_of_plan_error (hreal.trans hplan)
    refine ⟨hkept, ?_, ?_⟩
    · intro e' h
      rw [hresult] at h
      exact ⟨hresult'.trans h, hkept'⟩
    · intro result h
      rw [hresult'] at h
      cases h
  | ok x =>
    -- the dry run reports the plan, and so does the other run if it comes through
    obtain ⟨b, files⟩ := x
    obtain ⟨hkept, hresult⟩ := sync_of_dryRun (hdry.trans hplan) rfl
    obtain ⟨-, hresult'⟩ := sync_of_plan_ok (hreal.trans hplan) rfl
    refine ⟨hkept, ?_, ?_⟩
    · intro e h
      rw [hresult] at h
      cases h
    · intro result h
      rw [hresult'] at h
      split at h
      · cases h
      · rw [hresult, ← Except.ok.inj h, report_dryRun]

/-- The forecast of a run that puts a region back, and of one without a generated
tree. -/
theorem sync_dryRun_predicts_restored :
    (sync regenerated { simply ['g'] ['o'] with dryRun := true }).2.result =
        .ok ⟨[], [['o', '/', 'a']], [], 1, [], true⟩ ∧
      (sync regenerated { simply ['g'] ['o'] with dryRun := true }).1 = regenerated ∧
      (sync regenerated (simply ['h'] ['o'])).2.result =
        .error (.generatedNotDirectory ['h']) ∧
      (sync regenerated (simply ['h'] ['o'])).1 = regenerated := by
  have hreal : (sync regenerated (simply ['g'] ['o'])).2.result =
      .ok ⟨[], [['o', '/', 'a']], [], 1, [], false⟩ := by decide +kernel
  have hdry : (sync regenerated { simply ['h'] ['o'] with dryRun := true }).2.result =
      .error (.generatedNotDirectory ['h']) := by decide +kernel
  obtain ⟨hkept, -, hreport⟩ := sync_dryRun_predicts regenerated (simply ['g'] ['o'])
  obtain ⟨-, hfailure, -⟩ := sync_dryRun_predicts regenerated (simply ['h'] ['o'])
  exact ⟨hreport _ hreal, hkept, hfailure _ hdry⟩

/-! ## First runs -/

theorem prepare_of_missing (normal : root.Normal) (hmissing : w.exists? root = false)
    (h : (prepare w [root.text] config).result = .ok b) :
    b.pool.regions = [] ∧ b.skipped = [⟨root.text, .missing⟩] := by
  obtain ⟨entries, prep⟩ := prepared normal h
  rw [prepare_result entries prep.loaded] at h
  have ready := ready_configured prep.nonempty
  have hsome : (Builder.configured entries).registrations.isEmpty = false := by
    simpa using ready.parsers
  have hread : ∃ log, (Builder.configured entries).read w root.text none =
      ⟨{ Builder.configured entries with skipped := [⟨root.text, .missing⟩] }, none, log⟩ := by
    unfold Builder.read
    rw [Path.ofText_text normal, hsome, if_neg Bool.false_ne_true, if_neg ready.unbuilt, hmissing]
    exact ⟨_, rfl⟩
  obtain ⟨log, hread⟩ := hread
  rw [hread] at h
  obtain rfl := Except.ok.inj h
  exact ⟨rfl, rfl⟩

/-- What is merged for a file whose target is missing is what was generated, as long
as nothing was pooled. -/
theorem merged_of_missing {s : Support} {path : Path} {bytes content : ByteArray}
    (normal : path.Normal) (hpool : s.pool.regions = []) (hmissing : w.exists? path = false)
    (h : merged w s path bytes = .ok content) : content = bytes := by
  rcases merged_eq_ok_iff.mp h with ⟨-, -, hcontent⟩ | ⟨t, u, ht, hu, hcontent⟩
  · exact hcontent
  · have hknown : ∀ p, Support.known w s.pool path.text p = .ok fun _ => none :=
      Support.known_of_missing hpool (by rw [Path.ofText_text normal, hmissing])
    have hself : u = t := by
      apply Support.restoreAll_self _ hu
      intro p _ d bodies _ hbodies s _ id _ body hbody
      obtain rfl := Except.ok.inj ((hknown p).symm.trans hbodies)
      cases hbody
    calc content = Text.encode u := hcontent
      _ = Text.encode t := by rw [hself]
      _ = bytes := Text.encode_of_decode ht

theorem report_of_created (h : ∀ f ∈ files, f.change = .created) (dryRun : Bool) :
    report b files dryRun =
      ⟨files.map (·.path.text), [], [], b.pool.size, b.skipped, dryRun⟩ := by
  have hall : files.filter (·.change = .created) = files :=
    List.filter_eq_self.mpr fun f hf => by simpa using h f hf
  have hnone (change : Change) (hne : change ≠ .created) :
      files.filter (·.change = change) = [] :=
    List.filter_eq_nil_iff.mpr fun f hf => by simpa [h f hf] using hne.symm
  unfold report
  simp only [hall, hnone .updated nofun, hnone .unchanged nofun, List.map_nil]

/-- A run with the default roots to a target that is missing, if it comes through,
has made a copy of the generated tree there: each file is reported as created and
holds the bytes that were generated, whether they are a text or not. Nothing was
pooled, and the target is the one root that was skipped. -/
theorem sync_first_run (tree : w.IsTree) (hroots : r.readRoots = []) (hrun : r.dryRun = false)
    (hmissing : w.exists? (Path.ofText r.target) = false) {result : SyncReport}
    (h : (sync w r).2.result = .ok result) :
    result = ⟨(w.namesBelow (w.destination (Path.ofText r.generated))).map fun names =>
        ((Path.ofText r.target).append names).text, [], [], 0,
        [⟨(Path.ofText r.target).text, .missing⟩], false⟩ ∧
      ∀ names ∈ w.namesBelow (w.destination (Path.ofText r.generated)), ∃ bytes,
        w.at? ((Path.ofText r.generated).append names) = some (.file bytes) ∧
          (sync w r).1.at? ((Path.ofText r.target).append names) = some (.file bytes) := by
  have normal := Path.normal_ofText r.target
  obtain ⟨b, files, hplan, hresult, hcarries⟩ := exists_plan_of_sync tree h
  obtain ⟨-, hprepare, -⟩ := plan_eq_ok_iff.mp hplan
  rw [roots_of_default hroots] at hprepare
  obtain ⟨hpool, hskipped⟩ := prepare_of_missing normal hmissing hprepare
  have hfree (names : List Text)
      (hnames : names ∈ w.namesBelow (w.destination (Path.ofText r.generated))) :
      w.at? ((Path.ofText r.target).append names) = none :=
    Workspace.at?_append_of_missing normal hmissing (tree.named_below hnames)
  constructor
  · have hcreated : ∀ f ∈ files, f.change = .created := by
      intro f hf
      obtain ⟨names, hnames, plans⟩ := exists_names tree hplan hf
      rw [plans.change, changeOf_eq_created_iff, plans.path, Workspace.isFile, hfree names hnames]
    rw [hresult, report_of_created hcreated, texts_planned (planned tree hplan), hskipped, hrun,
      Pool.size, hpool, List.length_nil]
  · intro names hnames
    obtain ⟨f, hf, plans⟩ := exists_planned tree hplan hnames
    obtain ⟨bytes, hgenerated, hmerged⟩ := plans.content
    have hcontent : f.content = bytes := by
      apply merged_of_missing (normal_planned tree hplan f hf) hpool _ hmerged
      rw [plans.path, Workspace.exists?, hfree names hnames]
      rfl
    refine ⟨bytes, hgenerated, ?_⟩
    rw [← plans.path, (hcarries hrun).at? tree hplan hf, hcontent]

/-- A generated file with a byte order mark, a region and both line ends, and no
target. -/
def generatedFirst : Workspace :=
  ⟨[([['g']], .directory),
    ([['g'], ['a']], .file (Text.encode "\uFEFF//[[region:A]]\r\nx\n//[[end]]\r\n".toList))],
    by decide, [], [], none⟩

theorem sync_first_run_marked :
    generatedFirst.IsTree ∧ generatedFirst.exists? (Path.ofText ['o']) = false ∧
      (sync generatedFirst (simply ['g'] ['o'])).2.result =
        .ok ⟨[['o', '/', 'a']], [], [], 0, [⟨['o'], .missing⟩], false⟩ ∧
      (sync generatedFirst (simply ['g'] ['o'])).1.at? ⟨[], [['o'], ['a']]⟩ =
        some (.file (Text.encode "\uFEFF//[[region:A]]\r\nx\n//[[end]]\r\n".toList)) := by
  have tree : generatedFirst.IsTree := by decide
  have hmissing : generatedFirst.exists? (Path.ofText ['o']) = false := by decide
  have hresult : (sync generatedFirst (simply ['g'] ['o'])).2.result =
      .ok ⟨[['o', '/', 'a']], [], [], 0, [⟨['o'], .missing⟩], false⟩ := by decide +kernel
  have hgenerated : generatedFirst.at? ((Path.ofText ['g']).append [['a']]) =
      some (.file (Text.encode "\uFEFF//[[region:A]]\r\nx\n//[[end]]\r\n".toList)) := by
    decide +kernel
  obtain ⟨-, hcopies⟩ := sync_first_run tree rfl rfl hmissing hresult
  obtain ⟨bytes, hbytes, hcopied⟩ := hcopies [['a']] (by decide +kernel)
  refine ⟨tree, hmissing, hresult, ?_⟩
  calc (sync generatedFirst (simply ['g'] ['o'])).1.at? ⟨[], [['o'], ['a']]⟩
      = some (.file bytes) := hcopied
    _ = generatedFirst.at? ((Path.ofText ['g']).append [['a']]) := hbytes.symm
    _ = _ := hgenerated

end Sync
end ProtectedRegions
