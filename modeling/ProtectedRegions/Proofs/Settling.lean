import ProtectedRegions.Proofs.Recurring
import ProtectedRegions.Proofs.Reread

/-
  Settling — a run that follows another

  A second run with the same arguments reads what the first one has written. It comes
  to the same texts if every parser finds the regions again that it left in the first
  run, and knows the bodies that they have now. Nothing in the first run sees to that:
  it looks at no file that it has written. A generated tree may name one id twice, and
  nothing is wrong until both files are read.

  What the first run must not have done is said by five conditions, each of them about
  that run alone (`Condition.Holds`). What remains is that the files below the target can
  be read, and this decides.

  What is proved:
    1. `sync_again_iff` — after a run under the conditions a second one finds nothing to
       do exactly when what the first has left can be read.
    2. `conditions_of_single` — with one parser and a target apart from the generated tree
       the conditions hold, unless a line break falls between a start marker and its
       body.
    3. `not_forall_sync_again` — an id with two bodies in one generated file: the first
       run comes through, and the second does not although all conditions hold.
    4. `condition_needed` — without any one of the conditions the statement is false.
-/

namespace ProtectedRegions

namespace Sync

open Support (Link)

variable {w after : Workspace} {r : SyncRequest} {b : Builder} {files : List PlannedFile}
  {entries : List ParserEntry}

/-! ## The conditions -/

/-- Of each generated text, the parsers that are for its target, with what they read and
knew in the run, satisfy a predicate. -/
def Throughout (w : Workspace) (r : SyncRequest) (P : List (Parser × Link) → Prop) : Prop :=
  ∀ b, (prepare w (roots r) r.config).result = .ok b →
    ∀ names ∈ w.namesBelow (w.destination (Path.ofText r.generated)), ∀ bytes,
      w.at? ((Path.ofText r.generated).append names) = some (.file bytes) →
      ∀ t, Text.decode bytes = .ok t →
        P (Support.chain w b.pool ((Path.ofText r.target).append names).text
          (parsersFor b.registrations ((Path.ofText r.target).append names).text) t)

instance decidableResult {ε α : Type} {P : α → Prop} [DecidablePred P] :
    (x : Except ε α) → Decidable (∀ a, x = .ok a → P a)
  | .ok a => decidable_of_iff (P a) ⟨fun h _ heq => Except.ok.inj heq ▸ h, fun h => h a rfl⟩
  | .error _ => isTrue nofun

instance decidableFile {P : ByteArray → Prop} [DecidablePred P] :
    (x : Option Entry) → Decidable (∀ bytes, x = some (.file bytes) → P bytes)
  | some (.file bytes) =>
    decidable_of_iff (P bytes) ⟨fun h _ heq => by cases heq; exact h, fun h => h bytes rfl⟩
  | some .directory => isTrue nofun
  | none => isTrue nofun

instance (w : Workspace) (r : SyncRequest) (P : List (Parser × Link) → Prop) [DecidablePred P] :
    Decidable (Throughout w r P) :=
  inferInstanceAs (Decidable (∀ b, (prepare w (roots r) r.config).result = .ok b →
    ∀ names ∈ w.namesBelow (w.destination (Path.ofText r.generated)), ∀ bytes,
      w.at? ((Path.ofText r.generated).append names) = some (.file bytes) →
      ∀ t, Text.decode bytes = .ok t →
        P (Support.chain w b.pool ((Path.ofText r.target).append names).text
          (parsersFor b.registrations ((Path.ofText r.target).append names).text) t)))

/-- What a run with the default roots must leave as it is, so that a second one sees what
the first has seen. -/
inductive Condition where
  /-- Nothing below the generated tree is changed. -/
  | generated
  /-- The configuration says what it said. -/
  | configuration
  /-- No comment of a parser that leaves a region reaches over an end of a body that is put
  in or taken out. -/
  | apart
  /-- No body has a marker of the parser that puts it in. -/
  | quiet
  /-- No parser puts another body where one before it has left a region. -/
  | undisturbed

def Condition.Holds (w : Workspace) (r : SyncRequest) : Condition → Prop
  | .generated => ∀ l, w.destination (Path.ofText r.generated) <+: l →
      (sync w r).1.file? l = w.file? l
  | .configuration => Configuration.load (sync w r).1 r.config = Configuration.load w r.config
  | .apart => Throughout w r Support.Apart
  | .quiet => Throughout w r Support.Quiet
  | .undisturbed => Throughout w r Support.Undisturbed

instance (w : Workspace) (r : SyncRequest) : Decidable (Condition.apart.Holds w r) :=
  inferInstanceAs (Decidable (Throughout w r Support.Apart))

instance (w : Workspace) (r : SyncRequest) : Decidable (Condition.quiet.Holds w r) :=
  inferInstanceAs (Decidable (Throughout w r Support.Quiet))

instance (w : Workspace) (r : SyncRequest) : Decidable (Condition.undisturbed.Holds w r) :=
  inferInstanceAs (Decidable (Throughout w r Support.Undisturbed))

def Again (w : Workspace) (r : SyncRequest) : Prop :=
  ∃ again, (sync (sync w r).1 r).2.result = .ok again ∧ again.created = [] ∧ again.updated = []

theorem again_iff : Again w r ↔
    (sync (sync w r).1 r).2.result.map (fun again => (again.created, again.updated)) =
      .ok ([], []) := by
  unfold Again
  cases (sync (sync w r).1 r).2.result <;> simp [Except.map]

instance (w : Workspace) (r : SyncRequest) : Decidable (Again w r) :=
  decidable_of_iff _ again_iff.symm

/-- What the run leaves at the target can be read with the parsers that it had: none of them
gives up on a file there, and no id is read in two files or with two bodies. -/
def LeavesLegible (w : Workspace) (r : SyncRequest) : Prop :=
  ∀ entries, Configuration.load w r.config = .ok entries →
    Legible (sync w r).1 (registered entries) (Path.ofText r.target)

/-! ## What lies in the tree after a run -/

theorem Carried.at?_of_kept (carried : Carried w files after) {q : Path} (normal : q.Normal)
    {bytes : ByteArray} (hat : w.at? q = some (.file bytes))
    (hkept : after.file? (w.destination q) = w.file? (w.destination q)) :
    after.at? q = some (.file bytes) := by
  obtain ⟨hway, hfile⟩ := (Workspace.at?_eq_some_iff normal).mp hat
  rw [Workspace.at?_eq_some_iff normal, carried.same.way, carried.same.destination,
    ← Workspace.file?_eq_some_iff, hkept, Workspace.file?_eq_some_iff]
  exact ⟨fun l hl => carried.directory l (hway l hl), hfile⟩

theorem Carried.isDirectory (carried : Carried w files after) {q : Path} (normal : q.Normal)
    (h : w.isDirectory q = true) : after.isDirectory q = true := by
  obtain ⟨hway, hdir⟩ := (Workspace.at?_eq_some_iff normal).mp (Workspace.isDirectory_iff.mp h)
  rw [Workspace.isDirectory_iff, Workspace.at?_eq_some_iff normal, carried.same.way,
    carried.same.destination]
  exact ⟨fun l hl => carried.directory l (hway l hl), carried.directory _ hdir⟩

/-- What a run with the default roots has planned, prepared and left behind. -/
structure Ran (w : Workspace) (r : SyncRequest) (b : Builder) (files : List PlannedFile)
    (entries : List ParserEntry) : Prop where
  tree : w.IsTree
  plan : (plan w r).result = .ok (b, files)
  prepared : Prepared w r.config (Path.ofText r.target) b entries
  carried : Carried w (writes files) (sync w r).1
  conditions : ∀ c : Condition, c.Holds w r
  default : r.readRoots = []

namespace Ran

theorem names_iff (h : Ran w r b files entries) {names : List Text} :
    names ∈ (sync w r).1.namesBelow ((sync w r).1.destination (Path.ofText r.generated)) ↔
      names ∈ w.namesBelow (w.destination (Path.ofText r.generated)) := by
  rw [Workspace.mem_namesBelow, Workspace.mem_namesBelow, h.carried.same.destination,
    h.conditions .generated _ (List.prefix_append _ _)]

theorem at?_target (h : Ran w r b files entries) {names : List Text} {f : PlannedFile}
    (hf : f ∈ files)
    (plans : Plans w b.support (Path.ofText r.generated) (Path.ofText r.target) names f) :
    (sync w r).1.at? ((Path.ofText r.target).append names) = some (.file f.content) := by
  rw [← plans.path]
  exact h.carried.at? h.tree h.plan hf

/-- What is merged a second time for a generated file is what stands there. -/
theorem merged_again (h : Ran w r b files entries)
    (legible : Legible (sync w r).1 (registered entries) (Path.ofText r.target)) {b' : Builder}
    (hb' : Prepared (sync w r).1 r.config (Path.ofText r.target) b' entries) {names : List Text}
    {f : PlannedFile} (hf : f ∈ files)
    (hnames : names ∈ w.namesBelow (w.destination (Path.ofText r.generated)))
    (plans : Plans w b.support (Path.ofText r.generated) (Path.ofText r.target) names f) :
    Plans (sync w r).1 b'.support (Path.ofText r.generated) (Path.ofText r.target) names
      { f with change := .unchanged } := by
  have hnamed := h.tree.named_below hnames
  have normal := Path.normal_ofText r.target
  have hnormal := normal.append fun n hn => (hnamed n hn).1
  have hat := h.at?_target hf plans
  obtain ⟨hdir, hbelow⟩ := Workspace.mem_namesBelow_of_at? normal
    (Workspace.mem_namesBelow.mp hnames).1 hnamed hat
  obtain ⟨-, hprepare, -⟩ := plan_eq_ok_iff.mp h.plan
  obtain ⟨bytes, hgenerated, hmerged⟩ := plans.content
  have hgenerated' := h.carried.at?_of_kept
    ((Path.normal_ofText r.generated).append fun n hn => (hnamed n hn).1) hgenerated
    (by rw [Workspace.destination_append hnamed,
      h.conditions .generated _ (List.prefix_append _ _)])
  refine ⟨plans.path, ⟨bytes, hgenerated', ?_⟩, ?_⟩
  · show merged (sync w r).1 b'.support f.path bytes = .ok f.content
    rw [plans.path] at hmerged ⊢
    refine merged_eq_ok_iff.mpr ((merged_eq_ok_iff.mp hmerged).imp_right ?_)
    rintro ⟨t, u, ht, hu, hcontent⟩
    simp only [Support.merge, Builder.support, h.prepared.registrations] at hu
    obtain ⟨links, hlinks⟩ := Support.restoreAll_eq_ok_iff.mp hu
    have holds {P : List (Parser × Link) → Prop} (hP : Throughout w r P) :
        P ((parsersFor (registered entries) ((Path.ofText r.target).append names).text).zip
          links) := by
      rw [← hlinks.chain_eq, ← h.prepared.registrations]
      exact hP b hprepare names hnames bytes hgenerated t ht
    have hdecode : Text.decode f.content = .ok u := hcontent ▸ Text.decode_encode u
    have hreads := (Reading.readable_iff h.carried.tree hnormal hat).mp
      (legible.readable _ ((Workspace.mem_listFiles_iff normal hdir).mpr ⟨names, hbelow, rfl⟩))
      u hdecode
    -- each parser finds its regions in `u`, and it knows the bodies that it reads there
    have hagain : (Support.restoreAll (sync w r).1 b'.pool
        ((Path.ofText r.target).append names).text
        (parsersFor (registered entries) ((Path.ofText r.target).append names).text) t).result =
          .ok u := by
      refine hlinks.restoreAll_again (fun x hx again hparse => ?_) fun p hp => ?_
      · exact hlinks.mem_segments (holds (h.conditions .apart)) (holds (h.conditions .quiet))
          (holds (h.conditions .undisturbed)) hx hparse
      · obtain ⟨again, hparse⟩ := hreads p hp
        obtain ⟨bodies, hbodies, hown⟩ :=
          knows_own h.carried.tree normal hb' hdir hbelow hat hdecode hp hparse
        exact ⟨again, bodies, hparse, hbodies, hown⟩
    simp only [Support.merge, Builder.support, hb'.registrations]
    exact ⟨t, u, ht, hagain, hcontent⟩
  · show Change.unchanged = changeOf (sync w r).1 f.path f.content
    rw [plans.path]
    exact (changeOf_eq_unchanged_iff.mpr hat).symm

end Ran

theorem exists_forall₂ {α β : Type} {R : α → β → Prop} {P : β → Prop} {l : List α}
    (h : ∀ a ∈ l, ∃ b, R a b ∧ P b) : ∃ m, List.Forall₂ R l m ∧ ∀ b ∈ m, P b := by
  induction l with
  | nil => exact ⟨[], .nil, nofun⟩
  | cons a l ih =>
    obtain ⟨b, hb, hpb⟩ := h a List.mem_cons_self
    obtain ⟨m, hm, hpm⟩ := ih fun a ha => h a (List.mem_cons_of_mem _ ha)
    exact ⟨b :: m, .cons hb hm, List.forall_mem_cons.mpr ⟨hpb, hpm⟩⟩

theorem Ran.plan_again (h : Ran w r b files entries)
    (legible : Legible (sync w r).1 (registered entries) (Path.ofText r.target)) :
    ∃ b' files', (Sync.plan (sync w r).1 r).result = .ok (b', files') ∧ writes files' = [] := by
  have hload : Configuration.load (sync w r).1 r.config = .ok entries :=
    (h.conditions .configuration).trans h.prepared.loaded
  obtain ⟨b', hprepare⟩ := exists_prepared (Path.normal_ofText r.target) hload
    h.prepared.nonempty legible
  obtain ⟨entries', hb'⟩ := Sync.prepared (Path.normal_ofText r.target) hprepare
  obtain rfl : entries' = entries := Except.ok.inj (hb'.loaded.symm.trans hload)
  have hgenerated := h.carried.isDirectory (Path.normal_ofText r.generated)
    (plan_eq_ok_iff.mp h.plan).1
  have hall : ∀ names ∈ (sync w r).1.namesBelow
      ((sync w r).1.destination (Path.ofText r.generated)),
      ∃ f, Plans (sync w r).1 b'.support (Path.ofText r.generated) (Path.ofText r.target) names f ∧
        f.change = .unchanged := by
    intro names hnames
    have hbefore := h.names_iff.mp hnames
    obtain ⟨f, hf, plans⟩ := exists_planned h.tree h.plan hbefore
    exact ⟨_, h.merged_again legible hb' hf hbefore plans, rfl⟩
  obtain ⟨files', hfiles', hunchanged⟩ := exists_forall₂ hall
  refine ⟨b', files', plan_eq_ok_iff.mpr ⟨hgenerated, ?_, ?_⟩, ?_⟩
  · rw [roots_of_default h.default]
    exact hprepare
  · exact (planAll_listFiles_iff h.carried.tree (Path.normal_ofText _) hgenerated).mpr hfiles'
  · exact List.filter_eq_nil_iff.mpr fun f hf => by simp [hunchanged f hf]

/-! ## The second run -/

theorem sync_of_no_writes (hplan : (plan w r).result = .ok (b, files)) (hrun : r.dryRun = false)
    (hnone : writes files = []) :
    ∃ result, (sync w r).2.result = .ok result ∧ result.created = [] ∧ result.updated = [] := by
  have hout : carryOut w files = (w, none) := by
    rw [← carryOut_writes, hnone]
    rfl
  have hempty : ∀ change, change ≠ .unchanged → files.filter (·.change = change) = [] := by
    intro change hchange
    refine List.filter_eq_nil_iff.mpr fun f hf heq => ?_
    have hwritten := List.filter_eq_nil_iff.mp hnone f hf
    simp only [decide_eq_true_eq, not_not] at heq hwritten
    exact hchange (heq.symm.trans hwritten)
  refine ⟨report b files false, ?_, ?_, ?_⟩
  · rw [(sync_of_plan_ok hplan hrun).2, hout]
  · simp [report, hempty .created nofun]
  · simp [report, hempty .updated nofun]

theorem generated_of_apart (tree : w.IsTree) (hplan : (plan w r).result = .ok (b, files))
    (carried : Carried w (writes files) after)
    (hinside : ¬ w.destination (Path.ofText r.generated) <+: w.destination (Path.ofText r.target))
    (habove : ¬ w.destination (Path.ofText r.target) <+: w.destination (Path.ofText r.generated)) :
    ∀ l, w.destination (Path.ofText r.generated) <+: l → after.file? l = w.file? l := by
  intro l hl
  refine carried.kept l fun f hf heq => ?_
  obtain ⟨names, hnames, plans⟩ := exists_names tree hplan (List.mem_of_mem_filter hf)
  rw [plans.path, Workspace.destination_append (tree.named_below hnames)] at heq
  have htarget : w.destination (Path.ofText r.target) <+: l := ⟨names, heq⟩
  exact (List.prefix_or_prefix_of_prefix hl htarget).elim hinside habove

/-- Where a parser reads what it made of a text as it made it, its restored bodies keep to
themselves. -/
theorem apart_of_parse {p : Parser} {l : Link} (h : p.parse l.merged.text = .ok l.merged) :
    Support.Apart [(p, l)] ∧ Support.Quiet [(p, l)] ∧ Support.Undisturbed [(p, l)] := by
  obtain ⟨segments, reads, heq⟩ := Parser.parse_eq_ok_iff.mp h
  have hsegments := congrArg Document.segments heq
  rw [Link.merged, Document.merge, Document.segments_ofSegments,
    Document.segments_ofSegments] at hsegments
  subst hsegments
  refine ⟨⟨fun _ => ⟨?_, List.forall_mem_nil _⟩, trivial⟩, ?_, fun _ _ => trivial, trivial⟩
  · have hpieces : ((l.document.segments.map (·.restore l.bodies)).flatMap
        (·.rewriting fun _ => none)).map Prod.fst = l.rewriting.map Prod.snd := by
      simp [Link.rewriting, Document.rewriting, List.map_flatMap, List.flatMap_map,
        Segment.rewriting]
    have hdivides := reads.divides fun _ => none
    rw [hpieces] at hdivides
    exact hdivides.parts (fun _ => rfl) (.nil _)
  · intro x hx s hs hrewritten
    obtain rfl := List.mem_singleton.mp hx
    obtain ⟨id, body, hid, -, -⟩ := hrewritten
    obtain ⟨-, -, -, -, -, -, -, hbody, -⟩ := reads.frames (List.mem_map_of_mem hs)
      (by simp [Segment.isRegion, hid])
    exact hbody.alone

theorem exists_parse_of_previous {path : Text} {p : Parser} {source : Document}
    (h : (Support.previous w path p).result = .ok (some source)) : ∃ t, p.parse t = .ok source := by
  unfold Support.previous at h
  split at h
  · cases ht : w.readText path with
    | error e => simp [Logged.silent, ht, bind, Except.bind] at h
    | ok t =>
      cases hparse : p.parse t with
      | error e => simp [Logged.silent, ht, hparse, bind, Except.bind, Except.mapError] at h
      | ok d =>
        simp [Logged.silent, ht, hparse, bind, Except.bind, Except.mapError, pure,
          Except.pure] at h
        exact ⟨t, h ▸ hparse⟩
  · cases h

theorem parsersFor_single (p : Parser) (filter : Option Filter) (path : Text) :
    parsersFor (registered [⟨p, filter⟩]) path = [] ∨
      parsersFor (registered [⟨p, filter⟩]) path = [p] := by
  simp only [parsersFor, registered, Builder.configured, List.map_cons, List.map_nil,
    List.filter_cons, List.filter_nil]
  split
  · exact .inr rfl
  · exact .inl rfl

theorem captured_of_known {p : Parser} {filter : Option Filter} {config : Option Text}
    {root : Path} (h : Prepared w config root b [⟨p, filter⟩]) {path : Text} {bodies : Bodies}
    (hknown : Support.known w b.pool path p = .ok bodies) {id body : Text}
    (hbody : bodies id = some body) : p.Captured body := by
  unfold Support.known at hknown
  split at hknown
  · cases hprevious : (Support.previous w path p).result with
    | error e =>
      rw [hprevious] at hknown
      cases hknown
    | ok found =>
      rw [hprevious] at hknown
      obtain rfl := Except.ok.inj hknown
      cases found with
      | none => cases hbody
      | some source =>
        obtain ⟨t, ht⟩ := exists_parse_of_previous hprevious
        have hbody : source.body? id = some body := hbody
        rw [Document.body?_eq_regions, Option.map_eq_some_iff] at hbody
        obtain ⟨q, hq, hcontent⟩ := hbody
        exact ⟨t, source, ht, q, List.mem_of_find?_eq_some hq, hcontent⟩
  · obtain rfl := Except.ok.inj hknown
    obtain ⟨source, hmem⟩ := Pool.exists_of_body? hbody
    rw [h.captures] at hmem
    obtain ⟨q, -, t, -, p', hp', d, hd, s, hs, hid, hcontent, -⟩ := hmem
    obtain rfl : p' = p := by
      rcases parsersFor_single p filter q.text with hnone | hone
      · rw [hnone] at hp'
        cases hp'
      · exact List.mem_singleton.mp (hone ▸ hp')
    obtain ⟨placed, hplaced, hsegment⟩ := Document.exists_region hs hid
    exact ⟨t, d, hd, placed, hplaced, hsegment ▸ hcontent⟩

/-- What a parser made of a text with bodies that it had read itself, it reads as it made it,
unless a line break falls between a start marker and a body. -/
theorem parse_merged {p : Parser} (tidy : p.lexicon.Tidy) (seamless : p.lexicon.Seamless)
    {l : Link} {t : Text} (hd : p.parse t = .ok l.document)
    (hcaptured : ∀ id body, l.bodies id = some body → p.Captured body)
    (hwhole : ∀ s ∈ l.merged.segments, ¬ s.Divided) : p.parse l.merged.text = .ok l.merged := by
  have hpasses : ∀ s ∈ l.document.segments, ∀ id, s.id = some id →
      ∀ body, l.bodies id = some body → p.Passes body s.endMarker :=
    fun s hs id hid body hbody =>
      (hcaptured id body hbody).passes_of_seamless tidy seamless hd hs
        (by simp [Segment.isRegion, hid])
  have hparse := Parser.parse_merge tidy hd hpasses
  have hsame : (l.document.merge l.bodies).segments.map .reread = l.merged.segments :=
    (List.map_congr_left fun s hs => if_neg (hwhole s hs)).trans (List.map_id _)
  rw [Link.merged, hparse, hsame, Link.merged, Document.merge, Document.segments_ofSegments]

/-- With one parser, whose lexicon is a preset in which bodies and markers keep apart, and a
target apart from the generated tree, the conditions hold unless a restored body begins with
the line feed that its start marker would take in. -/
theorem conditions_of_single {p : Parser} {filter : Option Filter} {preset : Preset}
    (tree : w.IsTree) (hroots : r.readRoots = [])
    (hplan : (plan w r).result = .ok (b, files)) (carried : Carried w (writes files) (sync w r).1)
    (hinside : ¬ w.destination (Path.ofText r.generated) <+: w.destination (Path.ofText r.target))
    (habove : ¬ w.destination (Path.ofText r.target) <+: w.destination (Path.ofText r.generated))
    (hload : Configuration.load w r.config = .ok [⟨p, filter⟩])
    (hload' : Configuration.load (sync w r).1 r.config = .ok [⟨p, filter⟩])
    (hpreset : p.lexicon = preset.lexicon) (hseamless : preset ≠ .sql ∧ preset ≠ .php)
    (hundivided : Throughout w r fun chain =>
      ∀ x ∈ chain, ∀ s ∈ x.2.merged.segments, ¬ s.Divided) :
    ∀ c : Condition, c.Holds w r := by
  obtain ⟨entries, prep⟩ := prepared_of_plan hroots hplan
  obtain rfl : entries = [⟨p, filter⟩] := Except.ok.inj (prep.loaded.symm.trans hload)
  have tidy : p.lexicon.Tidy := hpreset ▸ preset.tidy
  have seamless : p.lexicon.Seamless := hpreset ▸ (Preset.seamless_iff preset).mpr hseamless
  -- a chain is empty, or the one parser read a text and put in what it had read itself
  have hchain : ∀ {P : List (Parser × Link) → Prop}, P [] →
      (∀ l : Link, p.parse l.merged.text = .ok l.merged → P [(p, l)]) → Throughout w r P := by
    intro P hnil hsingle b' hb' names hnames bytes hat t ht
    obtain rfl : b = b' := Except.ok.inj ((plan_eq_ok_iff.mp hplan).2.1.symm.trans hb')
    have hwhole := hundivided b hb' names hnames bytes hat t ht
    rw [prep.registrations] at hwhole ⊢
    rcases parsersFor_single p filter ((Path.ofText r.target).append names).text with hnone | hone
    · rw [hnone]
      exact hnil
    · rw [hone] at hwhole ⊢
      simp only [Support.chain] at hwhole ⊢
      split at hwhole
      · next d bodies hd hbodies =>
        exact hsingle ⟨d, bodies⟩ (parse_merged tidy seamless hd
          (fun _ _ => captured_of_known prep hbodies) (hwhole _ List.mem_cons_self))
      · exact hnil
  intro c
  cases c with
  | generated => exact generated_of_apart tree hplan carried hinside habove
  | configuration => exact hload'.trans hload.symm
  | apart => exact hchain trivial fun l hl => (apart_of_parse hl).1
  | quiet => exact hchain (List.forall_mem_nil _) fun l hl => (apart_of_parse hl).2.1
  | undisturbed => exact hchain trivial fun l hl => (apart_of_parse hl).2.2

theorem load_of_missing {given : Option Text} (hgiven : given.getD [] = [])
    (h : w.isFile (Configuration.path w given) = false) :
    Configuration.load w given = .ok Configuration.standard := by
  unfold Configuration.load
  simp only [h, Bool.false_eq_true, if_false, hgiven, if_true]

theorem load_congr {given : Option Text}
    (hpath : Configuration.path after given = Configuration.path w given)
    (hfile : after.isFile (Configuration.path w given) = w.isFile (Configuration.path w given))
    (hbytes : after.readBytes (Configuration.path w given).text =
      w.readBytes (Configuration.path w given).text) :
    Configuration.load after given = Configuration.load w given := by
  simp only [Configuration.load, Configuration.settings, hpath, hfile, hbytes]

theorem holds_generated (tree : w.IsTree) (hrun : r.dryRun = false) {result : SyncReport}
    (h : (sync w r).2.result = .ok result)
    (hinside : ¬ w.destination (Path.ofText r.generated) <+: w.destination (Path.ofText r.target))
    (habove : ¬ w.destination (Path.ofText r.target) <+: w.destination (Path.ofText r.generated)) :
    Condition.generated.Holds w r := by
  obtain ⟨b, files, hplan, -, hcarries⟩ := exists_plan_of_sync tree h
  exact generated_of_apart tree hplan (hcarries hrun) hinside habove

theorem leavesLegible_of_read (hload : Configuration.load w r.config = .ok entries)
    (hentries : entries ≠ [])
    (h : ((Builder.configured entries).read (sync w r).1 (Path.ofText r.target).text
      none).failure = none) : LeavesLegible w r := by
  intro entries' hload'
  obtain rfl := Except.ok.inj (hload.symm.trans hload')
  exact ((reads_configured hentries (Path.normal_ofText _)).done h).1

/-- What a second run comes to read can be read. -/
theorem leavesLegible_of_prepare (hroots : r.readRoots = [])
    (hload : Condition.configuration.Holds w r)
    (h : (prepare (sync w r).1 (roots r) r.config).result.isOk = true) : LeavesLegible w r := by
  intro entries hentries
  rw [roots_of_default hroots] at h
  cases hprepare : (prepare (sync w r).1 [(Path.ofText r.target).text] r.config).result with
  | error e =>
    rw [hprepare] at h
    cases h
  | ok b' =>
    obtain ⟨entries', hb'⟩ := prepared (Path.normal_ofText r.target) hprepare
    obtain rfl : entries' = entries :=
      Except.ok.inj (hb'.loaded.symm.trans (hload.trans hentries))
    exact hb'.legible

/-- One generated file in which an id stands twice, with two bodies. -/
def repeated : Workspace :=
  ⟨[([['g']], .directory), ([['g'], ['a']],
    .file (Text.encode "//[[region:A]]\nx\n//[[end]]\n//[[region:A]]\ny\n//[[end]]".toList))],
    by decide, [], [], none⟩

/-- Nothing is looked for in the generated file, and when it is read below the target its
id is found with two bodies. -/
theorem repeated_not_again :
    (∃ result, (sync repeated (simply ['g'] ['o'])).2.result = .ok result) ∧
      (∀ c : Condition, c.Holds repeated (simply ['g'] ['o'])) ∧
      ¬ Again repeated (simply ['g'] ['o']) := by
  have tree : repeated.IsTree := by decide
  obtain ⟨hfirst, hsecond, hundivided⟩ :
      (sync repeated (simply ['g'] ['o'])).2.result =
        .ok ⟨[['o', '/', 'a']], [], [], 0, [⟨['o'], .missing⟩], false⟩ ∧
      (sync (sync repeated (simply ['g'] ['o'])).1 (simply ['g'] ['o'])).2.result =
        .error (.pool (.duplicate ['A'] (some ['o', '/', 'a']) (some ['o', '/', 'a']))) ∧
      Throughout repeated (simply ['g'] ['o']) fun chain =>
        ∀ x ∈ chain, ∀ s ∈ x.2.merged.segments, ¬ s.Divided := by
    decide +kernel
  obtain ⟨b, files, hplan, -, hcarries⟩ := exists_plan_of_sync tree hfirst
  refine ⟨⟨_, hfirst⟩, ?_, ?_⟩
  · exact conditions_of_single tree rfl hplan (hcarries rfl) (by decide) (by decide)
      (load_of_missing rfl (by decide +kernel)) (load_of_missing rfl (by decide +kernel))
      (show _ = Preset.cLike.lexicon from rfl) (by decide) hundivided
  · rintro ⟨again, hagain, -⟩
    rw [hsecond] at hagain
    cases hagain

/-! ## Why each condition is there -/

/-- The target lies in the generated tree, so that the file which the first run writes is a
generated one for the second. -/
def inward : Workspace :=
  ⟨[([['g']], .directory), ([['g'], ['a']], .file (Text.encode ['x']))], by decide, [], [], none⟩

/-- The file that the first run writes is the configuration of the second. -/
def reconfigured : Workspace :=
  ⟨[([['g']], .directory), ([['g'], Configuration.usualName], .file (Text.encode ['[', ']'])),
    ([['h']], .directory)], by decide, [['h']], [], none⟩

/-- A start marker that a carriage return ends, and a body that begins with a line feed. -/
def brokenLine : Workspace :=
  ⟨[([['g']], .directory),
    ([['g'], ['a']], .file (Text.encode "//[[region:A]]\r//[[end]]".toList)),
    ([['o']], .directory),
    ([['o'], ['a']], .file (Text.encode "/*[[region:A]]*/\nx//[[end]]".toList))],
    by decide, [], [], none⟩

/-- A configuration of two parsers, one behind the other. -/
def twoParsers : Text :=
  "\x7b\"parsers\": [\x7b\"preset\": \"c-like\"\x7d, \x7b\"preset\": \"hash\"\x7d]\x7d".toList

def underTwo : SyncRequest := ⟨['g'], ['o'], [], some ['c'], false⟩

/-- A generated tree and a target, with that configuration beside them. -/
def configured (files : List (Location × Entry))
    (distinct : ([[['c']], [['g']], [['o']]] ++ files.map Prod.fst).Nodup) : Workspace :=
  ⟨[([['c']], .file (Text.encode twoParsers)), ([['g']], .directory), ([['o']], .directory)] ++
    files, by simpa using distinct, [], [], none⟩

/-- The body that the second parser captured ends a region of the first and starts one. -/
def borrowed : Workspace :=
  configured [([['g'], ['a']], .file (Text.encode "//[[region:A]]\n//[[end]]\n".toList)),
    ([['o'], ['a']], .file (Text.encode ("//[[region:C]]\n#[[region:A]]\n1\n//[[end]]\n" ++
      "//[[region:B]]\n2\n#[[end]]\n//[[end]]\n").toList))] (by decide)

/-- A region in another one, with a body that the other parser does not accept. -/
def enclosed : Workspace :=
  configured [([['g'], ['a']], .file (Text.encode ("#[[region:H]]\n//[[region:A]]\n" ++
      "#[[region:X]]\n//[[end]]\n#[[end]]\n").toList)),
    ([['o'], ['a']], .file (Text.encode ("//[[region:A]]\n1\n//[[end]]\n" ++
      "#[[region:H]]\n2\n#[[end]]\n").toList))] (by decide)

/-- A run after which the statement is false although all conditions but one hold. -/
structure Refutes (c : Condition) (w : Workspace) (r : SyncRequest) : Prop where
  tree : w.IsTree
  default : r.readRoots = []
  run : r.dryRun = false
  returns : ∃ result, (sync w r).2.result = .ok result
  others : ∀ c' : Condition, c' ≠ c → c'.Holds w r
  legible : LeavesLegible w r
  second : ¬ Again w r

theorem not_again_of_missing (tree : (sync w r).1.IsTree) (names : List Text)
    (hnames : names ∈ (sync w r).1.namesBelow ((sync w r).1.destination (Path.ofText r.generated)))
    (hmissing : (sync w r).1.at? ((Path.ofText r.target).append names) = none) : ¬ Again w r := by
  rintro ⟨again, hagain, hcreated, -⟩
  obtain ⟨b', files', hplan', rfl, -⟩ := exists_plan_of_sync tree hagain
  obtain ⟨f, hf, plans⟩ := exists_planned tree hplan' hnames
  have hchange : f.change = .created := by
    rw [plans.change, plans.path, changeOf, hmissing]
  have hmem : f.path.text ∈ (report b' files' r.dryRun).created :=
    List.mem_map_of_mem (List.mem_filter.mpr ⟨hf, by simp [hchange]⟩)
  rw [hcreated] at hmem
  cases hmem

/-- With the target apart from the generated tree and the configuration as it was, what is
said of the generated texts is left. -/
theorem refutes_of_apart {c : Condition} (tree : w.IsTree) (hroots : r.readRoots = [])
    (hrun : r.dryRun = false) {result : SyncReport} (hfirst : (sync w r).2.result = .ok result)
    (hinside : ¬ w.destination (Path.ofText r.generated) <+: w.destination (Path.ofText r.target))
    (habove : ¬ w.destination (Path.ofText r.target) <+: w.destination (Path.ofText r.generated))
    (hload : Condition.configuration.Holds w r)
    (hread : (prepare (sync w r).1 (roots r) r.config).result.isOk = true)
    (hsecond : ¬ Again w r) (apart : c ≠ .apart → Condition.apart.Holds w r)
    (quiet : c ≠ .quiet → Condition.quiet.Holds w r)
    (undisturbed : c ≠ .undisturbed → Condition.undisturbed.Holds w r) : Refutes c w r := by
  refine ⟨tree, hroots, hrun, ⟨_, hfirst⟩, fun c' hc => ?_,
    leavesLegible_of_prepare hroots hload hread, hsecond⟩
  cases c' with
  | generated => exact holds_generated tree hrun hfirst hinside habove
  | configuration => exact hload
  | apart => exact apart hc.symm
  | quiet => exact quiet hc.symm
  | undisturbed => exact undisturbed hc.symm

theorem refutes_inward : Refutes .generated inward (simply ['g'] ['g', '/', 'o']) := by
  have tree : inward.IsTree := by decide
  have hfirst : (sync inward (simply ['g'] ['g', '/', 'o'])).2.result =
      .ok ⟨[['g', '/', 'o', '/', 'a']], [], [], 0, [⟨['g', '/', 'o'], .missing⟩], false⟩ := by
    decide +kernel
  have hload : Condition.configuration.Holds inward (simply ['g'] ['g', '/', 'o']) :=
    (load_of_missing rfl (by decide +kernel)).trans (load_of_missing rfl (by decide +kernel)).symm
  obtain ⟨_, _, _, _, hcarries⟩ := exists_plan_of_sync tree hfirst
  refine ⟨tree, rfl, rfl, ⟨_, hfirst⟩, fun c hc => ?_,
    leavesLegible_of_prepare rfl hload (by decide +kernel),
    not_again_of_missing (hcarries rfl).tree [['o'], ['a']] ?_ (by decide +kernel)⟩
  · cases c with
    | generated => exact absurd rfl hc
    | configuration => exact hload
    | apart => decide +kernel
    | quiet => decide +kernel
    | undisturbed => decide +kernel
  · refine Workspace.mem_namesBelow.mpr ⟨nofun, Text.encode ['x'], ?_⟩
    decide +kernel

theorem refutes_reconfigured :
    Refutes .configuration reconfigured (simply ['/', 'g'] ['/', 'h']) := by
  have tree : reconfigured.IsTree := by decide
  have hload : Configuration.load reconfigured none = .ok Configuration.standard :=
    load_of_missing rfl (by decide +kernel)
  obtain ⟨hfirst, hread, hsecond, hapart, hquiet, hundisturbed⟩ :
      (sync reconfigured (simply ['/', 'g'] ['/', 'h'])).2.result =
        .ok ⟨["/h/regionkeeper.yaml".toList], [], [], 0, [], false⟩ ∧
      ((Builder.configured Configuration.standard).read
        (sync reconfigured (simply ['/', 'g'] ['/', 'h'])).1 ['/', 'h'] none).failure = none ∧
      ¬ Again reconfigured (simply ['/', 'g'] ['/', 'h']) ∧
      Condition.apart.Holds reconfigured (simply ['/', 'g'] ['/', 'h']) ∧
      Condition.quiet.Holds reconfigured (simply ['/', 'g'] ['/', 'h']) ∧
      Condition.undisturbed.Holds reconfigured (simply ['/', 'g'] ['/', 'h']) := by
    decide +kernel
  refine ⟨tree, rfl, rfl, ⟨_, hfirst⟩, fun c hc => ?_,
    leavesLegible_of_read hload (List.cons_ne_nil _ _) hread, hsecond⟩
  cases c with
  | generated => exact holds_generated tree rfl hfirst (by decide) (by decide)
  | configuration => exact absurd rfl hc
  | apart => exact hapart
  | quiet => exact hquiet
  | undisturbed => exact hundisturbed

theorem refutes_brokenLine : Refutes .apart brokenLine (simply ['g'] ['o']) := by
  have tree : brokenLine.IsTree := by decide
  have hload : Condition.configuration.Holds brokenLine (simply ['g'] ['o']) :=
    (load_of_missing rfl (by decide +kernel)).trans (load_of_missing rfl (by decide +kernel)).symm
  obtain ⟨hfirst, hread, hsecond, hquiet, hundisturbed⟩ :
      (sync brokenLine (simply ['g'] ['o'])).2.result =
        .ok ⟨[], [['o', '/', 'a']], [], 1, [], false⟩ ∧
      (prepare (sync brokenLine (simply ['g'] ['o'])).1 [['o']] none).result.isOk = true ∧
      ¬ Again brokenLine (simply ['g'] ['o']) ∧
      Condition.quiet.Holds brokenLine (simply ['g'] ['o']) ∧
      Condition.undisturbed.Holds brokenLine (simply ['g'] ['o']) := by
    decide +kernel
  exact refutes_of_apart tree rfl rfl hfirst (by decide) (by decide) hload hread hsecond
    (fun h => absurd rfl h) (fun _ => hquiet) (fun _ => hundisturbed)

theorem refutes_borrowed : Refutes .quiet borrowed underTwo := by
  have tree : borrowed.IsTree := by decide
  obtain ⟨hfirst, hfile, hbytes, hread, hsecond, hapart, hundisturbed⟩ :
      (sync borrowed underTwo).2.result = .ok ⟨[], [['o', '/', 'a']], [], 3, [], false⟩ ∧
      (sync borrowed underTwo).1.isFile ⟨[], [['c']]⟩ = borrowed.isFile ⟨[], [['c']]⟩ ∧
      (sync borrowed underTwo).1.readBytes ['c'] = borrowed.readBytes ['c'] ∧
      (prepare (sync borrowed underTwo).1 [['o']] (some ['c'])).result.isOk = true ∧
      ¬ Again borrowed underTwo ∧ Condition.apart.Holds borrowed underTwo ∧
      Condition.undisturbed.Holds borrowed underTwo := by
    decide +kernel
  have hload : Condition.configuration.Holds borrowed underTwo := load_congr rfl hfile hbytes
  exact refutes_of_apart tree rfl rfl hfirst (by decide) (by decide) hload hread hsecond
    (fun _ => hapart) (fun h => absurd rfl h) (fun _ => hundisturbed)

theorem refutes_enclosed : Refutes .undisturbed enclosed underTwo := by
  have tree : enclosed.IsTree := by decide
  obtain ⟨hfirst, hfile, hbytes, hread, hsecond, hapart, hquiet⟩ :
      (sync enclosed underTwo).2.result = .ok ⟨[], [['o', '/', 'a']], [], 2, [], false⟩ ∧
      (sync enclosed underTwo).1.isFile ⟨[], [['c']]⟩ = enclosed.isFile ⟨[], [['c']]⟩ ∧
      (sync enclosed underTwo).1.readBytes ['c'] = enclosed.readBytes ['c'] ∧
      (prepare (sync enclosed underTwo).1 [['o']] (some ['c'])).result.isOk = true ∧
      ¬ Again enclosed underTwo ∧ Condition.apart.Holds enclosed underTwo ∧
      Condition.quiet.Holds enclosed underTwo := by
    decide +kernel
  have hload : Condition.configuration.Holds enclosed underTwo := load_congr rfl hfile hbytes
  exact refutes_of_apart tree rfl rfl hfirst (by decide) (by decide) hload hread hsecond
    (fun _ => hapart) (fun _ => hquiet) (fun h => absurd rfl h)

/-- None of the conditions can be left out: without it, a run can come through and leave
what can be read, and a second one still fails or has something to do. -/
theorem condition_needed (c : Condition) :
    ¬ ∀ (w : Workspace) (r : SyncRequest), w.IsTree → r.readRoots = [] → r.dryRun = false →
      ∀ result, (sync w r).2.result = .ok result → (∀ c' : Condition, c' ≠ c → c'.Holds w r) →
        LeavesLegible w r → Again w r := by
  have hsample : ∃ w r, Refutes c w r := by
    cases c with
    | generated => exact ⟨_, _, refutes_inward⟩
    | configuration => exact ⟨_, _, refutes_reconfigured⟩
    | apart => exact ⟨_, _, refutes_brokenLine⟩
    | quiet => exact ⟨_, _, refutes_borrowed⟩
    | undisturbed => exact ⟨_, _, refutes_enclosed⟩
  obtain ⟨w, r, sample⟩ := hsample
  obtain ⟨result, hresult⟩ := sample.returns
  intro hall
  exact sample.second (hall w r sample.tree sample.default sample.run result hresult
    sample.others sample.legible)

end Sync
end ProtectedRegions
