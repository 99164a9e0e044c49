import ProtectedRegions.Proofs.Delivering
import ProtectedRegions.Proofs.Preparing
import ProtectedRegions.Proofs.Reading

/-
  Restoring — what a chain of parsers makes of a text

  Each parser of a chain puts the bodies it knows into the text that the one
  before it left. A parser that fills from the pool and one that fills from the
  file on disk differ only in where the bodies come from (`Support.known`).
  Where the file on disk was read into the pool, the two agree about it: what a
  parser finds in that file is what it knows, because a pool that was filled
  without a duplicate has one body for each id.

  What is proved:
    1. `knows_own` — a parser knows the bodies it finds in a file that was read.
    2. `restoreAll_self` — a chain leaves a text alone in which every parser
       finds the bodies it knows.
    3. `sync_unchanged` — a generated file that equals its target is left alone.
-/

namespace ProtectedRegions

namespace Document

variable {d : Document} {known : Bodies}

theorem merge_text_of_own (h : ∀ s ∈ d.segments, ∀ id, s.id = some id → ∀ body,
    known id = some body → body = s.content) : (d.merge known).text = d.text := by
  have hall : d.segments.map (·.restore known) = d.segments := by
    conv_rhs => rw [← List.map_id d.segments]
    refine List.map_congr_left fun s hs => ?_
    unfold Segment.restore
    cases hbody : s.id.bind known with
    | none => rfl
    | some body =>
      obtain ⟨id, hid, hknown⟩ := Option.bind_eq_some_iff.mp hbody
      rw [h s hs id hid body hknown]
      rfl
  rw [merge, text_ofSegments, hall]
  rfl

/-- The first regions met so far, after one more segment. -/
def meet (seen : List (Text × Placed)) (p : Placed) : List (Text × Placed) :=
  match p.segment.id with
  | none => seen
  | some id => if (seen.lookup id).isSome then seen else seen ++ [(id, p)]

theorem firstRegions_eq (d : Document) : d.firstRegions = d.placed.foldl meet [] := rfl

theorem lookup_meet (seen : List (Text × Placed)) (p : Placed) (id : Text) :
    (meet seen p).lookup id = (seen.lookup id).or (if p.segment.id = some id then some p else none) := by
  unfold meet
  cases hid : p.segment.id with
  | none => simp
  | some own =>
    simp only [Option.some.injEq]
    by_cases hown : own = id
    · subst hown
      cases hseen : seen.lookup own <;> simp [hseen, List.lookup_append]
    · have hother : (id == own) = false := beq_eq_false_iff_ne.mpr fun h => hown h.symm
      rw [if_neg hown, Option.or_none]
      split
      · rfl
      · simp [List.lookup_append, List.lookup_cons, hother]

theorem lookup_foldl_meet (placed : List Placed) (seen : List (Text × Placed)) (id : Text) :
    (placed.foldl meet seen).lookup id =
      (seen.lookup id).or (placed.find? fun p => p.segment.id = some id) := by
  induction placed generalizing seen with
  | nil => simp
  | cons p placed ih =>
    rw [List.foldl_cons, ih, lookup_meet, List.find?_cons, Option.or_assoc]
    by_cases hid : p.segment.id = some id <;> simp [hid]

theorem body?_eq (d : Document) (id : Text) :
    d.body? id = (d.placed.find? fun p => p.segment.id = some id).map (·.segment.content) := by
  rw [body?, firstRegions_eq, lookup_foldl_meet]
  rfl

/-- Where no id has two bodies, the body of an id is that of any of its regions. -/
theorem body?_of_agree {source : Option Text} (agree : Agree (Segment.captures source d.segments))
    {s : Segment} (hs : s ∈ d.segments) {id : Text} (hid : s.id = some id) :
    d.body? id = some s.content := by
  rw [body?_eq]
  obtain ⟨q, hq, rfl⟩ := List.mem_map.mp hs
  cases hfind : d.placed.find? fun p => p.segment.id = some id with
  | none =>
    have := List.find?_eq_none.mp hfind q hq
    simp [hid] at this
  | some first =>
    have hfirst : first.segment ∈ d.segments :=
      List.mem_map_of_mem (List.mem_of_find?_eq_some hfind)
    have hfirstId : first.segment.id = some id := by simpa using List.find?_some hfind
    have heq := agree ⟨id, first.segment.content, source⟩ ⟨_, hfirst, hfirstId, rfl, rfl⟩
      ⟨id, q.segment.content, source⟩ ⟨_, hs, hid, rfl, rfl⟩ rfl
    rw [Option.map_some, (Capture.mk.inj heq).2.1]

end Document

theorem Parser.text_of_parse {p : Parser} {t : Text} {d : Document} (h : p.parse t = .ok d) :
    d.text = t := by
  obtain ⟨segments, reads, rfl⟩ := parse_eq_ok_iff.mp h
  rw [Document.text_ofSegments]
  exact reads.text

namespace Support

variable {w : Workspace} {pool : Pool} {path t u : Text} {p : Parser} {parsers : List Parser}

/-- The bodies that a parser puts into the text of a path. -/
def known (w : Workspace) (pool : Pool) (path : Text) (p : Parser) : Except Failure Bodies :=
  if p.inverse then (previous w path p).result.map fun
    | none => fun _ => none
    | some source => source.body?
  else .ok pool.body?

theorem restore_eq_ok_iff : (restore w pool path p t).result = .ok u ↔
    ∃ d bodies, p.parse t = .ok d ∧ known w pool path p = .ok bodies ∧
      u = (d.merge bodies).text := by
  unfold restore known
  cases hd : p.parse t with
  | error e => simp [Except.mapError, Logged.silent]
  | ok d =>
    simp only [Except.mapError, Logged.silent, Logged.andThen_ok]
    by_cases hinverse : p.inverse = true
    · rw [if_pos hinverse, if_pos hinverse, Logged.andThen_eq_ok_iff]
      cases (previous w path p).result with
      | error e => simp [Except.map]
      | ok source =>
        cases source with
        | none =>
          have hself : (d.merge fun _ => none).text = d.text :=
            Document.merge_text_of_own (fun _ _ _ _ _ h => by cases h)
          simp [Except.map, hself, eq_comm]
        | some source => simp [Except.map, Document.fillIn, eq_comm]
    · rw [if_neg hinverse, if_neg hinverse]
      simp [eq_comm]

theorem restoreAll_cons_eq_ok_iff : (restoreAll w pool path (p :: parsers) t).result = .ok u ↔
    ∃ d bodies, p.parse t = .ok d ∧ known w pool path p = .ok bodies ∧
      (restoreAll w pool path parsers (d.merge bodies).text).result = .ok u := by
  rw [restoreAll, Logged.andThen_eq_ok_iff]
  constructor
  · rintro ⟨v, hv, hu⟩
    obtain ⟨d, bodies, hd, hbodies, rfl⟩ := restore_eq_ok_iff.mp hv
    exact ⟨d, bodies, hd, hbodies, hu⟩
  · rintro ⟨d, bodies, hd, hbodies, hu⟩
    exact ⟨_, restore_eq_ok_iff.mpr ⟨d, bodies, hd, hbodies, rfl⟩, hu⟩

/-- A chain leaves a text alone in which every parser finds the bodies it knows. -/
theorem restoreAll_self (h : ∀ p ∈ parsers, ∀ d bodies, p.parse t = .ok d →
      known w pool path p = .ok bodies → ∀ s ∈ d.segments, ∀ id, s.id = some id → ∀ body,
        bodies id = some body → body = s.content)
    (hu : (restoreAll w pool path parsers t).result = .ok u) : u = t := by
  induction parsers with
  | nil => exact (Except.ok.inj hu).symm
  | cons p parsers ih =>
    obtain ⟨d, bodies, hd, hbodies, hrest⟩ := restoreAll_cons_eq_ok_iff.mp hu
    rw [Document.merge_text_of_own (h p List.mem_cons_self d bodies hd hbodies),
      Parser.text_of_parse hd] at hrest
    exact ih (fun q hq => h q (List.mem_cons_of_mem _ hq)) hrest

end Support

namespace Sync

variable {w : Workspace} {r : SyncRequest} {config : Option Text} {root : Path} {b : Builder}
  {entries : List ParserEntry} {names : List Text} {bytes : ByteArray} {u : Text}

theorem readText_of_at? (tree : w.IsTree) {q : Path} (normal : q.Normal)
    (hat : w.at? q = some (.file bytes)) (hu : Text.decode bytes = .ok u) :
    w.readText q.text = .ok u := by
  unfold Workspace.readText
  rw [(Workspace.readBytes_text_iff tree normal).mpr hat]
  simp [hu, Except.mapError]

theorem previous_of_at? (tree : w.IsTree) {q : Path} (normal : q.Normal)
    (hat : w.at? q = some (.file bytes)) (hu : Text.decode bytes = .ok u) {p : Parser}
    {d : Document} (hd : p.parse u = .ok d) :
    (Support.previous w q.text p).result = .ok (some d) := by
  unfold Support.previous
  have hexists : w.exists? q = true := by simp [Workspace.exists?, hat]
  have hfile : w.isDirectory q = false := by simp [Workspace.isDirectory, hat]
  rw [Path.ofText_text normal, hexists, hfile, readText_of_at? tree normal hat hu]
  simp [hd, Except.mapError, Logged.silent, bind, Except.bind, pure, Except.pure]

theorem knows_own (tree : w.IsTree) (normal : root.Normal) (h : Prepared w config root b entries)
    (hdir : w.isDirectory root = true) (hnames : names ∈ w.namesBelow (w.destination root))
    (hat : w.at? (root.append names) = some (.file bytes)) (hu : Text.decode bytes = .ok u)
    {p : Parser} (hp : p ∈ parsersFor (registered entries) (root.append names).text)
    {d : Document} (hd : p.parse u = .ok d) :
    ∃ bodies, Support.known w b.pool (root.append names).text p = .ok bodies ∧
      ∀ s ∈ d.segments, ∀ id, s.id = some id → bodies id = some s.content := by
  have hnormal := normal.append fun n hn => (tree.named_below hnames n hn).1
  have hlisted := (Workspace.mem_listFiles_iff normal hdir).mpr ⟨names, hnames, rfl⟩
  have hcaptured : Segment.captures (some (root.append names).text) d.segments ⊆
      corpus w (registered entries) root := by
    intro c hc
    refine ⟨_, hlisted, u, readText_of_at? tree hnormal hat hu, p, hp, ?_⟩
    rwa [Parser.captures_of_parse hd]
  unfold Support.known
  split
  · rw [previous_of_at? tree hnormal hat hu hd]
    exact ⟨_, rfl, fun s hs id hid =>
      Document.body?_of_agree (h.legible.agree.mono hcaptured) hs hid⟩
  · refine ⟨_, rfl, fun s hs id hid => ?_⟩
    have hmem : (⟨id, s.content, some (root.append names).text⟩ : Capture) ∈ b.pool.captures := by
      rw [h.captures]
      exact hcaptured ⟨s, hs, hid, rfl, rfl⟩
    exact Pool.body?_of_mem hmem

/-- What is merged for a generated file whose target has the same bytes is these
bytes. -/
theorem merged_self (tree : w.IsTree) (normal : root.Normal)
    (h : Prepared w config root b entries) (hdir : w.isDirectory root = true)
    (hnames : names ∈ w.namesBelow (w.destination root))
    (hat : w.at? (root.append names) = some (.file bytes)) {content : ByteArray}
    (hmerged : merged w b.support (root.append names) bytes = .ok content) : content = bytes := by
  rcases merged_eq_ok_iff.mp hmerged with ⟨-, -, hcontent⟩ | ⟨u, v, hu, hv, hcontent⟩
  · exact hcontent
  · simp only [Support.merge, Builder.support, h.registrations] at hv
    have hself : v = u := by
      refine Support.restoreAll_self (fun p hp d bodies hd hbodies s hs id hid body hbody => ?_) hv
      obtain ⟨bodies', hbodies', hown⟩ := knows_own tree normal h hdir hnames hat hu hp hd
      obtain rfl := Except.ok.inj (hbodies.symm.trans hbodies')
      exact Option.some.inj (hbody.symm.trans (hown s hs id hid))
    rw [hcontent, hself]
    exact Text.encode_of_decode hu

/-! ## Runs -/

theorem roots_of_default (h : r.readRoots = []) : roots r = [(Path.ofText r.target).text] :=
  if_pos h

/-- What a run with the default roots has prepared when its plan comes about. -/
theorem prepared_of_plan (hroots : r.readRoots = []) {files : List PlannedFile}
    (h : (plan w r).result = .ok (b, files)) :
    ∃ entries, Prepared w r.config (Path.ofText r.target) b entries := by
  obtain ⟨-, hprepare, -⟩ := plan_eq_ok_iff.mp h
  rw [roots_of_default hroots] at hprepare
  exact prepared (Path.normal_ofText _) hprepare

/-- A generated file that equals the file in its place is left alone, whichever
parsers are configured: it is reported as unchanged, and it is not among the
files that are written. -/
theorem sync_unchanged (tree : w.IsTree) (hroots : r.readRoots = []) {result : SyncReport}
    (h : (sync w r).2.result = .ok result)
    (hnames : names ∈ w.namesBelow (w.destination (Path.ofText r.generated)))
    (hsame : w.at? ((Path.ofText r.target).append names) =
      w.at? ((Path.ofText r.generated).append names)) :
    ((Path.ofText r.target).append names).text ∈ result.unchanged ∧
      ((Path.ofText r.target).append names).text ∉ result.created ∧
      ((Path.ofText r.target).append names).text ∉ result.updated ∧
      (∃ written, (sync w r).1 = (carryOut w written).1 ∧
        ∀ f ∈ written, w.destination f.path ≠ w.destination ((Path.ofText r.target).append names)) ∧
      (sync w r).1.at? ((Path.ofText r.target).append names) =
        w.at? ((Path.ofText r.target).append names) := by
  obtain ⟨b, files, hplan, hresult, hcarries⟩ := exists_plan_of_sync tree h
  obtain ⟨entries, prep⟩ := prepared_of_plan hroots hplan
  obtain ⟨f, hf, plans⟩ := exists_planned tree hplan hnames
  obtain ⟨bytes, hgenerated, hmerged⟩ := plans.content
  have htarget := hsame.trans hgenerated
  have hnamed := tree.named_below hnames
  obtain ⟨hdir, hbelow⟩ := Workspace.mem_namesBelow_of_at? (Path.normal_ofText _)
    (Workspace.mem_namesBelow.mp hnames).1 hnamed htarget
  rw [plans.path] at hmerged
  have hcontent := merged_self tree (Path.normal_ofText _) prep hdir hbelow htarget hmerged
  have hchange : f.change = .unchanged := by
    rw [plans.change, plans.path, hcontent]
    exact changeOf_eq_unchanged_iff.mpr htarget
  have hmem := mem_report_iff tree hplan hf
  simp only [hchange, plans.path] at hmem
  refine ⟨?_, ?_, ?_, ?_, ?_⟩
  · rw [hresult]
    exact (hmem .unchanged).mpr rfl
  · rw [hresult]
    exact fun hcreated => nomatch (hmem .created).mp hcreated
  · rw [hresult]
    exact fun hupdated => nomatch (hmem .updated).mp hupdated
  · cases hrun : r.dryRun with
    | true => exact ⟨[], (sync_of_dryRun hplan hrun).1, nofun⟩
    | false =>
      refine ⟨writes files, ?_, fun g hg heq => ?_⟩
      · rw [(sync_of_plan_ok hplan hrun).1, carryOut_writes]
      · -- files of a plan have different places, and this one is not written
        obtain ⟨hg, hwritten⟩ := List.mem_filter.mp hg
        obtain ⟨names', hnames', plans'⟩ := exists_names tree hplan hg
        rw [plans'.path, Workspace.destination_append hnamed,
          Workspace.destination_append (tree.named_below hnames')] at heq
        obtain rfl := List.append_cancel_left heq
        obtain rfl := plans'.unique plans
        simp [hchange] at hwritten
  · cases hrun : r.dryRun with
    | true => rw [(sync_of_dryRun hplan hrun).1]
    | false =>
      rw [htarget, ← plans.path, (hcarries hrun).at? tree hplan hf, hcontent]

/-- A file with a region that was generated once more as it is. -/
def regeneratedSame : Workspace :=
  ⟨[([['g']], .directory),
    ([['g'], ['a']], .file (Text.encode "//[[region:A]]\nx\n//[[end]]\n".toList)),
    ([['o']], .directory),
    ([['o'], ['a']], .file (Text.encode "//[[region:A]]\nx\n//[[end]]\n".toList))],
    by decide, [], [], none⟩

theorem sync_unchanged_region :
    regeneratedSame.IsTree ∧ (simply ['g'] ['o']).readRoots = [] ∧
      ∃ result, (sync regeneratedSame (simply ['g'] ['o'])).2.result = .ok result ∧
        ['o', '/', 'a'] ∈ result.unchanged := by
  have tree : regeneratedSame.IsTree := by decide
  have hresult : (sync regeneratedSame (simply ['g'] ['o'])).2.result =
      .ok ⟨[], [], [['o', '/', 'a']], 1, [], false⟩ := by decide +kernel
  have hnames : [['a']] ∈ regeneratedSame.namesBelow
      (regeneratedSame.destination (Path.ofText ['g'])) := by decide +kernel
  have hsame : regeneratedSame.at? ((Path.ofText ['o']).append [['a']]) =
      regeneratedSame.at? ((Path.ofText ['g']).append [['a']]) := by decide +kernel
  exact ⟨tree, rfl, _, hresult, (sync_unchanged tree rfl hresult hnames hsame).1⟩

end Sync
end ProtectedRegions
