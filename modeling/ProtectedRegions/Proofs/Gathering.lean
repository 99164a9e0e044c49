import ProtectedRegions.Proofs.Advancing
import ProtectedRegions.Proofs.Capturing
import ProtectedRegions.Proofs.Tree

/-
  Gathering — what the pool has when roots were read one after the other

  Roots can be missing, be read with a filter, or lie in one another, and a file can
  be for no parser, for one or for many. What is captured can be said without the
  loops over all of them: a region is in the pool exactly when a root that was not
  passed over has it in a file below it that is a text, and a parser that is for the
  file finds it there. A file is named by the path through its root, so that one
  file, read through two roots, is one source only if they spell it alike.

  Which roots are passed over depends on the roots before them and on nothing that
  was found in them (`entered`). Whether a run comes through depends on what was
  found, but not on its order: every file has to be read, and all captures have to
  agree.

  What is proved:
    1. `captures_listed_iff` — what a listing leads to, said by the places of the files.
    2. `answersRead_read` — what one read does.
    3. `reads_all` — when a run of reads comes through, and what it has found then.
    4. `reads_capture_exactly` — the pool after a run of reads on a new builder.
-/

namespace ProtectedRegions

deriving instance DecidableEq for Capture

/-! ## Files below a root -/

namespace Reading

variable {w : Workspace} {registrations : List Registration} {root q : Path}
  {filter : Option Filter} {bytes : ByteArray} {t : Text}

theorem readText_eq_ok_iff (tree : w.IsTree) (normal : q.Normal)
    (hat : w.at? q = some (.file bytes)) :
    w.readText q.text = .ok t ↔ Text.decode bytes = .ok t := by
  unfold Workspace.readText
  rw [(Workspace.readBytes_text_iff tree normal).mpr hat]
  simp only
  cases Text.decode bytes with
  | ok u => simp [Except.mapError]
  | error e => simp [Except.mapError]

theorem file_below (tree : w.IsTree) (normal : root.Normal) (hdir : w.isDirectory root = true)
    {names : List Text} (hne : names ≠ [])
    (hfile : w.file? (w.destination root ++ names) = some bytes) :
    (root.append names).Normal ∧ w.at? (root.append names) = some (.file bytes) := by
  have hnames := Workspace.mem_namesBelow.mpr ⟨hne, bytes, hfile⟩
  obtain ⟨bytes', hfile', hat⟩ := Workspace.at?_append tree normal hdir hnames
  obtain rfl := Option.some.inj (hfile.symm.trans hfile')
  exact ⟨normal.append fun n hn => (tree.named_below hnames n hn).1, hat⟩

/-- The files that are listed below a directory are those at the places below it whose
paths the filter accepts, and each is found by its path. -/
theorem mem_listFiles_filter_iff (tree : w.IsTree) (normal : root.Normal)
    (hdir : w.isDirectory root = true) : q ∈ w.listFiles root filter ↔
      ∃ names bytes, names ≠ [] ∧ w.file? (w.destination root ++ names) = some bytes ∧
        q = root.append names ∧ (∀ f, filter = some f → f.accepts q.text = true) ∧ q.Normal ∧
        w.at? q = some (.file bytes) := by
  obtain ⟨hway, hlookup⟩ :=
    (Workspace.at?_eq_some_iff normal).mp (Workspace.isDirectory_iff.mp hdir)
  rw [Workspace.mem_listFiles ((Workspace.locate_eq_ok_iff normal).mpr ⟨rfl, hway⟩) hlookup]
  constructor
  · rintro ⟨⟨names, hnames, rfl⟩, hfilter⟩
    obtain ⟨hne, bytes, hfile⟩ := Workspace.mem_namesBelow.mp hnames
    exact ⟨names, bytes, hne, hfile, rfl, hfilter, file_below tree normal hdir hne hfile⟩
  · rintro ⟨names, bytes, hne, hfile, rfl, hfilter, -, -⟩
    exact ⟨⟨names, Workspace.mem_namesBelow.mpr ⟨hne, bytes, hfile⟩, rfl⟩, hfilter⟩

/-- A region in a file below a root, at any depth, whose path the filter accepts: the
file is a text, and a registered parser that is for it finds the region there. The
source is the file's path through the root. -/
def Found (w : Workspace) (registrations : List Registration) (root : Path)
    (filter : Option Filter) (c : Capture) : Prop :=
  ∃ names bytes t, names ≠ [] ∧ w.file? (w.destination root ++ names) = some bytes ∧
    (∀ f, filter = some f → f.accepts (root.append names).text = true) ∧
    Text.decode bytes = .ok t ∧ c.source = some (root.append names).text ∧
    ∃ r ∈ registrations, r.filter.accepts (root.append names).text = true ∧
      ∃ d, r.parser.parse t = .ok d ∧ ∃ s ∈ d.segments, s.id = some c.id ∧ s.content = c.body

theorem mem_parsersFor {p : Parser} {path : Text} :
    p ∈ parsersFor registrations path ↔
      ∃ r ∈ registrations, r.filter.accepts path = true ∧ r.parser = p := by
  simp [parsersFor, and_assoc]

theorem captures_listed_iff (tree : w.IsTree) (normal : root.Normal)
    (hdir : w.isDirectory root = true) {c : Capture} :
    (∃ q ∈ w.listFiles root filter, c ∈ captures w registrations q.text) ↔
      Found w registrations root filter c := by
  constructor
  · rintro ⟨q, hq, t, ht, p, hp, d, hd, s, hs, hid, hbody, hsource⟩
    obtain ⟨names, bytes, hne, hfile, rfl, hfilter, hnormal, hat⟩ :=
      (mem_listFiles_filter_iff tree normal hdir).mp hq
    obtain ⟨r, hr, haccepts, rfl⟩ := mem_parsersFor.mp hp
    exact ⟨names, bytes, t, hne, hfile, hfilter, (readText_eq_ok_iff tree hnormal hat).mp ht,
      hsource, r, hr, haccepts, d, hd, s, hs, hid, hbody⟩
  · rintro ⟨names, bytes, t, hne, hfile, hfilter, ht, hsource, r, hr, haccepts, d, hd, s, hs, hid,
      hbody⟩
    obtain ⟨hnormal, hat⟩ := file_below tree normal hdir hne hfile
    refine ⟨root.append names, ?_, t, (readText_eq_ok_iff tree hnormal hat).mpr ht,
      r.parser, mem_parsersFor.mpr ⟨r, hr, haccepts, rfl⟩, d, hd, s, hs, hid, hbody, hsource⟩
    exact (mem_listFiles_filter_iff tree normal hdir).mpr
      ⟨names, bytes, hne, hfile, rfl, hfilter, hnormal, hat⟩

/-- No parser has to give up on a file that is there, exactly when each one that is for it
can parse it, if it is a text. -/
theorem readable_iff (tree : w.IsTree) (normal : q.Normal) (hat : w.at? q = some (.file bytes)) :
    Readable w registrations q.text ↔ ∀ t, Text.decode bytes = .ok t →
      ∀ p ∈ parsersFor registrations q.text, ∃ d, p.parse t = .ok d := by
  constructor
  · rintro (hnone | ⟨t, ht, hall⟩ | ⟨shown, fault, herror⟩) u hu p hp
    · rw [hnone] at hp
      cases hp
    · rw [readText_eq_ok_iff tree normal hat, hu] at ht
      obtain rfl := Except.ok.inj ht
      exact hall p hp
    · rw [(readText_eq_ok_iff tree normal hat).mpr hu] at herror
      cases herror
  · intro hall
    cases hu : Text.decode bytes with
    | ok u => exact .inr (.inl ⟨u, (readText_eq_ok_iff tree normal hat).mpr hu, hall u hu⟩)
    | error fault =>
      refine .inr (.inr ⟨q.text, fault, ?_⟩)
      unfold Workspace.readText
      rw [(Workspace.readBytes_text_iff tree normal).mpr hat]
      simp [hu, Except.mapError]

end Reading

namespace Builder

variable {w : Workspace} {b next final : Builder}

/-! ## Runs in which nothing is refused -/

/-- The builder after calls, if none of them is refused. -/
def completed (b : Builder) : List Call → Option Builder
  | [] => some b
  | c :: calls =>
    match b.perform c with
    | (next, none) => next.completed calls
    | (_, some _) => none

theorem completed_cons_of_done {c : Call} {calls : List Call} (h : b.perform c = (next, none)) :
    b.completed (c :: calls) = next.completed calls := by
  rw [completed, h]

theorem completed_cons_of_refused {c : Call} {calls : List Call} {e : Refusal}
    (h : b.perform c = (next, some e)) : b.completed (c :: calls) = none := by
  rw [completed, h]

theorem completed_append (b : Builder) (calls more : List Call) :
    b.completed (calls ++ more) = (b.completed calls).bind fun next => next.completed more := by
  induction calls generalizing b with
  | nil => rfl
  | cons c calls ih =>
    rw [List.cons_append]
    rcases hc : b.perform c with ⟨next, none | e⟩
    · rw [completed_cons_of_done hc, completed_cons_of_done hc, ih]
    · rw [completed_cons_of_refused hc, completed_cons_of_refused hc]
      rfl

/-- A run in which nothing is refused is a run. -/
theorem after_of_completed {calls : List Call} (h : b.completed calls = some final) :
    b.after calls = final := by
  induction calls generalizing b with
  | nil => exact Option.some.inj h
  | cons c calls ih =>
    rw [after_cons]
    rcases hc : b.perform c with ⟨next, none | e⟩
    · rw [completed_cons_of_done hc] at h
      exact ih h
    · rw [completed_cons_of_refused hc] at h
      cases h

/-- The calls that register parsers, each with the files it is for. -/
def registering (registrations : List Registration) : List Call :=
  registrations.map fun r => .addParser (some r.parser) (some r.filter)

theorem completed_registering (hstage : b.stage = .configuring)
    (registrations : List Registration) : b.completed (registering registrations) =
      some { b with registrations := b.registrations ++ registrations } := by
  induction registrations generalizing b with
  | nil => simp [registering, completed]
  | cons r registrations ih =>
    have hr : b.perform (.addParser (some r.parser) (some r.filter)) =
        ({ b with registrations := b.registrations ++ [r] }, none) := by
      simp [perform, addParser, hstage, ofAttempt]
    rw [registering, List.map_cons, completed_cons_of_done hr]
    have hrest := ih (b := { b with registrations := b.registrations ++ [r] }) hstage
    rw [List.append_assoc, List.singleton_append] at hrest
    exact hrest

/-! ## One root -/

/-- A root to read, and which of the files below it. -/
structure RootRead where
  path : Text
  filter : Option Filter

namespace RootRead

def root (r : RootRead) : Path := Path.ofText r.path

def place (w : Workspace) (r : RootRead) : Location := w.canonical r.root

def call (w : Workspace) (r : RootRead) : Call := .read w r.path r.filter

/-- The root is there, and in none of the places that were visited. -/
def Fresh (w : Workspace) (visited : List Location) (r : RootRead) : Prop :=
  w.exists? r.root = true ∧ ∀ l ∈ visited, ¬ l <+: r.place w

instance (w : Workspace) (visited : List Location) (r : RootRead) :
    Decidable (r.Fresh w visited) := inferInstanceAs (Decidable (_ ∧ _))

/-- What is at the root, if anything, is a directory. -/
def Standing (w : Workspace) (r : RootRead) : Prop :=
  w.exists? r.root = true → w.isDirectory r.root = true

/-- No parser has to give up on a file that is to be read below a root. -/
def Legible (w : Workspace) (registrations : List Registration) (r : RootRead) : Prop :=
  ∀ q ∈ w.listFiles r.root r.filter, Reading.Readable w registrations q.text

/-- What is captured in the files that are to be read below a root. -/
def found (w : Workspace) (registrations : List Registration) (r : RootRead) : Set Capture :=
  {c | ∃ q ∈ w.listFiles r.root r.filter, c ∈ Reading.captures w registrations q.text}

theorem mem_found_iff (tree : w.IsTree) {r : RootRead} (hdir : w.isDirectory r.root = true)
    {registrations : List Registration} {c : Capture} : c ∈ r.found w registrations ↔
      Reading.Found w registrations r.root r.filter c :=
  Reading.captures_listed_iff tree (Path.normal_ofText r.path) hdir

end RootRead

/-- Roots can be read: there is a parser to read with, and the pool takes regions in. -/
structure Ready (b : Builder) : Prop where
  parsers : b.registrations ≠ []
  unbuilt : b.stage ≠ .built
  unfrozen : b.pool.frozen = false

/-- A root is passed over. -/
structure PassesOver (b : Builder) (w : Workspace) (r : RootRead) (next : Builder) : Prop where
  stale : ¬ r.Fresh w b.visited
  visited : next.visited = b.visited
  skipped : next.skipped ≠ b.skipped
  captures : next.pool.captures = b.pool.captures

/-- A root is read, and what is below it captured. -/
structure TakesIn (b : Builder) (w : Workspace) (r : RootRead) (next : Builder) : Prop where
  fresh : r.Fresh w b.visited
  legible : r.Legible w b.registrations
  visited : next.visited = b.visited ++ [r.place w]
  skipped : next.skipped = b.skipped
  captures : next.pool.captures = b.pool.captures ∪ r.found w b.registrations

/-- A root can be read without a failure, or is passed over. -/
def Allows (b : Builder) (w : Workspace) (r : RootRead) : Prop :=
  r.Standing w ∧ (r.Fresh w b.visited →
    r.Legible w b.registrations ∧ Agree (b.pool.captures ∪ r.found w b.registrations))

/-- An attempt to read a root: what it does when it goes through, and why it does not. -/
structure AnswersRead (b : Builder) (w : Workspace) (r : RootRead) (a : Attempt) : Prop where
  done : a.failure = none → r.Standing w ∧ a.builder.Ready ∧
    a.builder.registrations = b.registrations ∧
    (b.PassesOver w r a.builder ∨ b.TakesIn w r a.builder)
  failed : a.failure ≠ none → ¬ b.Allows w r

theorem answersRead_readFresh (ready : b.Ready) {r : RootRead}
    (hdir : w.isDirectory r.root = true) (fresh : r.Fresh w b.visited) :
    b.AnswersRead w r (b.readFresh w r.path r.filter) := by
  have htakes := Reading.takes_files w b.registrations
    ((w.listFiles r.root r.filter).map Path.text) ready.unfrozen
  have hfound : {c | ∃ path ∈ (w.listFiles r.root r.filter).map Path.text,
      c ∈ Reading.captures w b.registrations path} = r.found w b.registrations := by
    ext c
    simp [RootRead.found]
  rw [hfound, List.forall_mem_map] at htakes
  unfold readFresh
  rw [show Path.ofText r.path = r.root from rfl]
  simp only
  split
  · next e hfailed =>
    refine ⟨nofun, fun _ allows => htakes.failed ?_ (allows.2 fresh)⟩
    rw [hfailed]
    nofun
  · next hdone =>
    obtain ⟨readable, hstays, hcaptures⟩ := htakes.done hdone
    refine ⟨fun _ => ⟨fun _ => hdir, ⟨ready.parsers, nofun, hstays⟩, rfl, .inr ?_⟩,
      fun h => absurd rfl h⟩
    exact ⟨fresh, readable, rfl, rfl, hcaptures⟩

theorem answersRead_skip (ready : b.Ready) {r : RootRead} (standing : r.Standing w)
    (stale : ¬ r.Fresh w b.visited) (reason : SkipReason) (log : List LogLine) :
    b.AnswersRead w r ⟨{ b with skipped := b.skipped ++ [⟨r.path, reason⟩] }, none, log⟩ := by
  refine ⟨fun _ => ⟨standing, ⟨ready.parsers, ready.unbuilt, ready.unfrozen⟩, rfl, .inl ?_⟩,
    fun h => absurd rfl h⟩
  exact ⟨stale, rfl, by simp, rfl⟩

theorem answersRead_read (w : Workspace) (ready : b.Ready) (r : RootRead) :
    b.AnswersRead w r (b.read w r.path r.filter) := by
  unfold read
  rw [if_neg (by simpa using ready.parsers), if_neg ready.unbuilt,
    show Path.ofText r.path = r.root from rfl]
  split
  · next hmissing =>
    have hnone : ¬ w.exists? r.root = true := by simpa using hmissing
    exact answersRead_skip ready (fun h => absurd h hnone) (fun fresh => hnone fresh.1) _ _
  · next hexists =>
    have hthere : w.exists? r.root = true := by simpa using hexists
    split
    · next hfile =>
      refine ⟨nofun, fun _ allows => ?_⟩
      have hnodir : ¬ w.isDirectory r.root = true := by simpa using hfile
      exact hnodir (allows.1 hthere)
    · next hdirectory =>
      have hdir : w.isDirectory r.root = true := by simpa using hdirectory
      split
      · next hvisited =>
        obtain ⟨l, hl, hprefix⟩ := List.any_eq_true.mp hvisited
        have stale : ¬ r.Fresh w b.visited :=
          fun fresh => fresh.2 l hl (List.isPrefixOf_iff_prefix.mp hprefix)
        exact answersRead_skip ready (fun _ => hdir) stale _ _
      · next hunvisited =>
        refine answersRead_readFresh ready hdir ⟨hthere, fun l hl hprefix => hunvisited ?_⟩
        exact List.any_eq_true.mpr ⟨l, hl, List.isPrefixOf_iff_prefix.mpr hprefix⟩

/-- A read goes through: a root that is new is read, and any other passed over. -/
theorem perform_read_done (ready : b.Ready) {r : RootRead}
    (h : b.perform (r.call w) = (next, none)) : r.Standing w ∧ next.Ready ∧
      next.registrations = b.registrations ∧ (b.PassesOver w r next ∨ b.TakesIn w r next) := by
  obtain ⟨hbuilder, hfailure⟩ := Prod.mk.inj (show ofAttempt (b.read w r.path r.filter) = _ from h)
  rw [← hbuilder]
  exact (answersRead_read w ready r).done (Option.map_eq_none_iff.mp hfailure)

theorem perform_read_refused (ready : b.Ready) {r : RootRead} {e : Refusal}
    (h : b.perform (r.call w) = (next, some e)) : ¬ b.Allows w r := by
  obtain ⟨-, hfailure⟩ := Prod.mk.inj (show ofAttempt (b.read w r.path r.filter) = _ from h)
  refine (answersRead_read w ready r).failed fun hnone => ?_
  rw [hnone] at hfailure
  cases hfailure

/-! ## Many roots -/

/-- The roots that are not passed over, of roots that are read in order. -/
def entered (w : Workspace) : List Location → List RootRead → List RootRead
  | _, [] => []
  | visited, r :: reads =>
    if r.Fresh w visited then r :: entered w (visited ++ [r.place w]) reads
    else entered w visited reads

theorem entered_cons_of_fresh {visited : List Location} {r : RootRead} (h : r.Fresh w visited)
    (reads : List RootRead) :
    entered w visited (r :: reads) = r :: entered w (visited ++ [r.place w]) reads := if_pos h

theorem entered_cons_of_stale {visited : List Location} {r : RootRead} (h : ¬ r.Fresh w visited)
    (reads : List RootRead) : entered w visited (r :: reads) = entered w visited reads := if_neg h

theorem entered_sublist (w : Workspace) (visited : List Location) (reads : List RootRead) :
    (entered w visited reads).Sublist reads := by
  induction reads generalizing visited with
  | nil => exact List.Sublist.refl _
  | cons r reads ih =>
    by_cases fresh : r.Fresh w visited
    · rw [entered_cons_of_fresh fresh]
      exact (ih _).cons_cons r
    · rw [entered_cons_of_stale fresh]
      exact (ih _).cons r

theorem fresh_of_mem_entered {visited : List Location} {reads : List RootRead} {r : RootRead}
    (h : r ∈ entered w visited reads) : r.Fresh w visited := by
  induction reads generalizing visited with
  | nil => cases h
  | cons first reads ih =>
    by_cases fresh : first.Fresh w visited
    · rw [entered_cons_of_fresh fresh] at h
      rcases List.mem_cons.mp h with rfl | h
      · exact fresh
      · obtain ⟨hexists, hout⟩ := ih h
        exact ⟨hexists, fun l hl => hout l (List.mem_append_left _ hl)⟩
    · rw [entered_cons_of_stale fresh] at h
      exact ih h

/-- What is found below roots. -/
def foundIn (w : Workspace) (registrations : List Registration) (reads : List RootRead) :
    Set Capture :=
  {c | ∃ r ∈ reads, c ∈ r.found w registrations}

theorem foundIn_cons (registrations : List Registration) (r : RootRead) (reads : List RootRead) :
    foundIn w registrations (r :: reads) =
      r.found w registrations ∪ foundIn w registrations reads := by
  ext c
  simp [foundIn]

/-- Roots can be read in order: each is a directory, if it is anything, no parser gives up
on a file below one that is not passed over, and the captures agree. -/
structure AllowsAll (b : Builder) (w : Workspace) (reads : List RootRead) : Prop where
  standing : ∀ r ∈ reads, r.Standing w
  legible : ∀ r ∈ entered w b.visited reads, r.Legible w b.registrations
  agree : Agree (b.pool.captures ∪ foundIn w b.registrations (entered w b.visited reads))

theorem AllowsAll.directory {reads : List RootRead} (allows : b.AllowsAll w reads) {r : RootRead}
    (hr : r ∈ entered w b.visited reads) : w.isDirectory r.root = true :=
  allows.standing r ((entered_sublist w b.visited reads).mem hr) (fresh_of_mem_entered hr).1

theorem allowsAll_cons {r : RootRead} {reads : List RootRead}
    (hregistrations : next.registrations = b.registrations)
    (hnext : b.PassesOver w r next ∨ b.TakesIn w r next) (standing : r.Standing w) :
    b.AllowsAll w (r :: reads) ↔ next.AllowsAll w reads := by
  rcases hnext with passed | taken
  · constructor
    · rintro ⟨hstanding, legible, agree⟩
      rw [entered_cons_of_stale passed.stale] at legible agree
      refine ⟨(List.forall_mem_cons.mp hstanding).2, ?_, ?_⟩
      · rwa [passed.visited, hregistrations]
      · rwa [passed.visited, passed.captures, hregistrations]
    · rintro ⟨hstanding, legible, agree⟩
      rw [passed.visited, hregistrations] at legible agree
      rw [passed.captures] at agree
      refine ⟨List.forall_mem_cons.mpr ⟨standing, hstanding⟩, ?_, ?_⟩
      · rwa [entered_cons_of_stale passed.stale]
      · rwa [entered_cons_of_stale passed.stale]
  · have hcaptures :
        b.pool.captures ∪ foundIn w b.registrations (entered w b.visited (r :: reads)) =
        next.pool.captures ∪ foundIn w next.registrations (entered w next.visited reads) := by
      rw [entered_cons_of_fresh taken.fresh, foundIn_cons, taken.captures, taken.visited,
        hregistrations, Set.union_assoc]
    constructor
    · rintro ⟨hstanding, legible, agree⟩
      rw [entered_cons_of_fresh taken.fresh, List.forall_mem_cons] at legible
      refine ⟨(List.forall_mem_cons.mp hstanding).2, ?_, hcaptures ▸ agree⟩
      rw [taken.visited, hregistrations]
      exact legible.2
    · rintro ⟨hstanding, legible, agree⟩
      rw [taken.visited, hregistrations] at legible
      refine ⟨List.forall_mem_cons.mpr ⟨standing, hstanding⟩, ?_, hcaptures ▸ agree⟩
      rw [entered_cons_of_fresh taken.fresh]
      exact List.forall_mem_cons.mpr ⟨taken.legible, legible⟩

theorem allowsAll_nil : b.AllowsAll w [] := by
  refine ⟨nofun, nofun, ?_⟩
  have hnone : foundIn w b.registrations (entered w b.visited []) = ∅ := by simp [foundIn, entered]
  rw [hnone, Set.union_empty]
  exact b.pool.agree_captures

/-- Reads in order all go through exactly when they are allowed, and the pool then has
what is found below the roots that are not passed over. -/
theorem reads_all (ready : b.Ready) (reads : List RootRead) :
    (∀ final, b.completed (reads.map (·.call w)) = some final → b.AllowsAll w reads ∧
      final.pool.captures =
        b.pool.captures ∪ foundIn w b.registrations (entered w b.visited reads)) ∧
    (b.completed (reads.map (·.call w)) = none → ¬ b.AllowsAll w reads) := by
  -- on the roots: a builder that a root was read with is ready for the others
  induction reads generalizing b with
  | nil =>
    refine ⟨fun final h => ⟨allowsAll_nil, ?_⟩, nofun⟩
    obtain rfl := Option.some.inj h
    simp [foundIn, entered]
  | cons r reads ih =>
    rw [List.map_cons]
    rcases hr : b.perform (r.call w) with ⟨next, none | e⟩
    · obtain ⟨standing, hready, hregistrations, hnext⟩ := perform_read_done ready hr
      obtain ⟨hdone, hfailed⟩ := ih hready
      rw [completed_cons_of_done hr, allowsAll_cons hregistrations hnext standing]
      refine ⟨fun final h => ⟨(hdone final h).1, ?_⟩, hfailed⟩
      rw [(hdone final h).2, hregistrations]
      rcases hnext with passed | taken
      · rw [entered_cons_of_stale passed.stale, passed.captures, passed.visited]
      · rw [entered_cons_of_fresh taken.fresh, foundIn_cons, taken.captures, taken.visited,
          Set.union_assoc]
    · rw [completed_cons_of_refused hr]
      refine ⟨nofun, fun _ allows => perform_read_refused ready hr ?_⟩
      refine ⟨allows.standing r List.mem_cons_self, fun fresh => ?_⟩
      have legible := allows.legible
      have agree := allows.agree
      rw [entered_cons_of_fresh fresh] at legible agree
      rw [foundIn_cons, ← Set.union_assoc] at agree
      exact ⟨legible r List.mem_cons_self, agree.mono Set.subset_union_left⟩

/-- The roots that are not passed over are those whose reading, in its turn, leaves no
note of a root that was. -/
theorem mem_entered_iff (ready : b.Ready) {reads : List RootRead}
    (h : b.completed (reads.map (·.call w)) = some final) {r : RootRead} :
    r ∈ entered w b.visited reads ↔ ∃ before after, reads = before ++ r :: after ∧
      (b.after (before.map (·.call w))).Enters w r.path r.filter := by
  induction reads generalizing b with
  | nil => simp [entered]
  | cons first reads ih =>
    rw [List.map_cons] at h
    rcases hfirst : b.perform (first.call w) with ⟨next, none | e⟩
    · obtain ⟨-, hready, -, hnext⟩ := perform_read_done ready hfirst
      rw [completed_cons_of_done hfirst] at h
      have hsplit : (∃ before after, first :: reads = before ++ r :: after ∧
          (b.after (before.map (·.call w))).Enters w r.path r.filter) ↔
          (r = first ∧ b.Enters w r.path r.filter) ∨ r ∈ entered w next.visited reads := by
        rw [ih hready h]
        constructor
        · rintro ⟨_ | ⟨_, before⟩, after, heq, henters⟩
          · exact .inl ⟨(List.cons.inj heq).1.symm, henters⟩
          · obtain ⟨rfl, rfl⟩ := List.cons.inj heq
            rw [List.map_cons, after_cons, hfirst] at henters
            exact .inr ⟨before, after, rfl, henters⟩
        · rintro (⟨rfl, henters⟩ | ⟨before, after, rfl, henters⟩)
          · exact ⟨[], reads, rfl, henters⟩
          · refine ⟨first :: before, after, rfl, ?_⟩
            rw [List.map_cons, after_cons, hfirst]
            exact henters
      have henters : b.Enters w first.path first.filter ↔ next.skipped = b.skipped := by
        unfold Enters
        rw [show Call.read w first.path first.filter = first.call w from rfl, hfirst]
        simp
      rw [hsplit]
      rcases hnext with passed | taken
      · rw [entered_cons_of_stale passed.stale, passed.visited]
        refine ⟨.inr, ?_⟩
        rintro (⟨rfl, hown⟩ | hmem)
        · exact absurd (henters.mp hown) passed.skipped
        · exact hmem
      · rw [entered_cons_of_fresh taken.fresh, List.mem_cons, taken.visited]
        refine or_congr_left ⟨fun heq => ?_, And.left⟩
        subst heq
        exact ⟨rfl, henters.mpr taken.skipped⟩
    · rw [completed_cons_of_refused hfirst] at h
      cases h

/-! ## The pool after a run of reads -/

/-- The builder with registered parsers. -/
def configuredWith (registrations : List Registration) : Builder :=
  { new with registrations := registrations }

theorem completed_new_registering (registrations : List Registration) (calls : List Call) :
    new.completed (registering registrations ++ calls) =
      (configuredWith registrations).completed calls := by
  rw [completed_append, completed_registering rfl]
  rfl

theorem after_new_registering (registrations : List Registration) (calls : List Call) :
    new.after (registering registrations ++ calls) =
      (configuredWith registrations).after calls := by
  rw [after_append, after_of_completed (completed_registering rfl registrations)]
  rfl

theorem ready_configuredWith {registrations : List Registration} (h : registrations ≠ []) :
    (configuredWith registrations).Ready := ⟨h, nofun, rfl⟩

theorem reads_eq_nil_of_no_parsers {reads : List RootRead}
    (h : (configuredWith []).completed (reads.map (·.call w)) = some final) : reads = [] := by
  cases reads with
  | nil => rfl
  | cons r reads => cases h

/-- Parsers are registered with a new builder and roots are read, and nothing is refused.
The pool then has no id twice, and has exactly the regions that are found below a root
that was not passed over: in a file there, at any depth, that the root's filter accepts
and that is a text, by a registered parser that is for the file. -/
theorem reads_capture_exactly (tree : w.IsTree) {registrations : List Registration}
    {reads : List RootRead}
    (h : new.completed (registering registrations ++ reads.map (·.call w)) = some final) :
    final.pool.ids.Nodup ∧ ∀ c, final.pool.capture? c.id = some c ↔
      ∃ before r after, reads = before ++ r :: after ∧
        (new.after (registering registrations ++ before.map (·.call w))).Enters w r.path r.filter ∧
        Reading.Found w registrations r.root r.filter c := by
  have hsound : final.pool.Sound := by
    rw [← after_of_completed h]
    exact sound_after Pool.sound_empty _
  refine ⟨hsound.distinct, fun c => ?_⟩
  rw [completed_new_registering] at h
  by_cases hparsers : registrations = []
  · subst hparsers
    obtain rfl := reads_eq_nil_of_no_parsers h
    obtain rfl := Option.some.inj h
    simp [configuredWith, new, Pool.capture?, Pool.find?, Pool.region?, Pool.empty]
  · have ready := ready_configuredWith hparsers
    obtain ⟨allows, hcaptures⟩ := (reads_all ready reads).1 final h
    have hempty : (configuredWith registrations).pool.captures = ∅ := Pool.captures_empty
    rw [hempty, Set.empty_union] at hcaptures
    have hmem : final.pool.capture? c.id = some c ↔ c ∈ final.pool.captures := Iff.rfl
    rw [hmem, hcaptures]
    constructor
    · rintro ⟨r, hr, hfound⟩
      obtain ⟨before, after, hreads, henters⟩ := (mem_entered_iff ready h).mp hr
      exact ⟨before, r, after, hreads, by rwa [after_new_registering],
        (RootRead.mem_found_iff tree (allows.directory hr)).mp hfound⟩
    · rintro ⟨before, r, after, hreads, henters, hfound⟩
      rw [after_new_registering] at henters
      have hr := (mem_entered_iff ready h).mpr ⟨before, after, hreads, henters⟩
      exact ⟨r, hr, (RootRead.mem_found_iff tree (allows.directory hr)).mpr hfound⟩

/-- A text in a directory within a directory, and a file that is no text. -/
def nested : Workspace :=
  ⟨[([['o']], .directory), ([['o'], ['d']], .directory),
    ([['o'], ['d'], "a.php".toList], .file (Text.encode "//[[region:A]]\nx\n//[[end]]".toList)),
    ([['q']], .directory), ([['q'], ['b']], .file ⟨#[255]⟩)],
    by decide, [], [], none⟩

/-- Two parsers, one of them for some files only. -/
def twoParsers : List Registration :=
  [⟨.all, .ofPreset .cLike .default false⟩,
    ⟨.extensions [".php".toList] (by decide), .ofPreset .php .default false⟩]

/-- The inner directory, the outer one, the inner one again, nothing, and the file that
is no text. -/
def innerFirst : List RootRead :=
  [⟨"o/d".toList, none⟩, ⟨['o'], none⟩, ⟨"o/d".toList, none⟩, ⟨['p'], none⟩, ⟨['q'], none⟩]

/-- The text is read through two roots, and by both parsers, and its region is captured
once. -/
theorem reads_capture_exactly_nested :
    ∃ final, new.completed (registering twoParsers ++ innerFirst.map (·.call nested)) = some final ∧
      final.pool.ids = [['A']] ∧
      final.skipped = [⟨"o/d".toList, .visited⟩, ⟨['p'], .missing⟩] ∧
      ∃ before r after, innerFirst = before ++ r :: after ∧
        (new.after (registering twoParsers ++ before.map (·.call nested))).Enters nested
          r.path r.filter ∧
        Reading.Found nested twoParsers r.root r.filter
          ⟨['A'], ['x', '\n'], some "o/d/a.php".toList⟩ := by
  have tree : nested.IsTree := by decide +kernel
  have hdone : (new.completed (registering twoParsers ++ innerFirst.map (·.call nested))).map
      (fun b => (b.pool.ids, b.skipped, b.pool.capture? ['A'])) =
      some ([['A']], [⟨"o/d".toList, .visited⟩, ⟨['p'], .missing⟩],
        some ⟨['A'], ['x', '\n'], some "o/d/a.php".toList⟩) := by decide +kernel
  obtain ⟨final, hfinal, hresult⟩ := Option.map_eq_some_iff.mp hdone
  obtain ⟨hids, hrest⟩ := Prod.mk.inj hresult
  obtain ⟨hskipped, hcapture⟩ := Prod.mk.inj hrest
  exact ⟨final, hfinal, hids, hskipped, ((reads_capture_exactly tree hfinal).2
    ⟨['A'], ['x', '\n'], some "o/d/a.php".toList⟩).mp hcapture⟩

end Builder
end ProtectedRegions
