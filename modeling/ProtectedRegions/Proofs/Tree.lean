import Mathlib.Data.List.Induction
import ProtectedRegions.Proofs.Spelling

/-
  Trees — workspaces in which everything lies in a directory

  Nothing in the type of a workspace says that the directory of a file is there,
  or that a name is not two dots. On a disk both hold, and only then does a path
  lead where its parts say: `IsTree` states them, and what changes a workspace
  keeps them.

  A path is followed from location to location. `way` lists the locations that a
  path takes a part from, all but the last; `destination` is the last one, with
  two dots resolved as they are written, whether or not anything is there.

  What is proved:
    1. `at?_eq_some_iff` — a path leads to an entry exactly when its way is all
       directories and the entry is at its destination.
    2. `readBytes_text_iff` — a file is opened by the text of its path.
    3. `mem_namesBelow` and `at?_append` — what is listed below a directory are
       the files there, each found by the path it is listed as.
-/

namespace ProtectedRegions

/-- The text can be the name of a file or directory. -/
def Path.IsName (name : Text) : Prop := Path.IsPart name ∧ name ≠ ['.', '.']

instance (name : Text) : Decidable (Path.IsName name) := inferInstanceAs (Decidable (_ ∧ _))

namespace Workspace

variable {w : Workspace} {l : Location} {p : Path}

/-! ## Files and directories in a tree -/

theorem lookup?_eq_some_iff {e : Entry} (h : l ≠ []) :
    w.lookup? l = some e ↔ (l, e) ∈ w.entries := by
  have hdistinct := w.distinct
  unfold lookup?
  rw [if_neg h]
  generalize w.entries = entries at hdistinct
  induction entries with
  | nil => simp
  | cons x rest ih =>
    obtain ⟨k, e'⟩ := x
    obtain ⟨hk, hrest⟩ := List.nodup_cons.mp hdistinct
    rw [List.lookup_cons]
    by_cases hkl : l = k
    · subst hkl
      have hmem : (l, e) ∉ rest := fun hmem => hk (List.mem_map.mpr ⟨_, hmem, rfl⟩)
      simp [hmem, eq_comm]
    · have hbeq : (l == k) = false := by simpa using hkl
      simp [hbeq, hkl, ih hrest]

@[simp] theorem lookup?_nil : w.lookup? [] = some .directory := if_pos rfl

/-- The entries form a tree: they have proper names, the directory above each of
them is there, and so is the current directory. -/
structure IsTree (w : Workspace) : Prop where
  named : ∀ l e, w.lookup? l = some e → ∀ name ∈ l, Path.IsName name
  above : ∀ l e, w.lookup? l = some e → w.lookup? l.dropLast = some .directory
  current : w.lookup? w.current = some .directory

theorem isTree_iff :
    w.IsTree ↔ (∀ x ∈ w.entries, (∀ name ∈ x.1, Path.IsName name) ∧
      w.lookup? x.1.dropLast = some .directory) ∧ w.lookup? w.current = some .directory := by
  have key : ∀ l e, w.lookup? l = some e → l = [] ∨ (l, e) ∈ w.entries := by
    intro l e h
    by_cases hl : l = []
    · exact .inl hl
    · exact .inr ((lookup?_eq_some_iff hl).mp h)
  constructor
  · intro h
    refine ⟨?_, h.current⟩
    rintro ⟨l, e⟩ hx
    by_cases hl : l = []
    · subst hl
      simp
    · have hlookup := (lookup?_eq_some_iff hl).mpr hx
      exact ⟨h.named l e hlookup, h.above l e hlookup⟩
  · rintro ⟨hall, hcurrent⟩
    refine ⟨?_, ?_, hcurrent⟩
    · intro l e h
      rcases key l e h with rfl | hx
      · simp
      · exact (hall _ hx).1
    · intro l e h
      rcases key l e h with rfl | hx
      · simp
      · exact (hall _ hx).2

instance (w : Workspace) : Decidable w.IsTree := decidable_of_iff' _ isTree_iff

theorem IsTree.above_append (tree : w.IsTree) {names : List Text} {e : Entry}
    (h : w.lookup? (l ++ names) = some e) (hne : names ≠ []) : w.lookup? l = some .directory := by
  induction names using List.reverseRecOn generalizing e with
  | nil => exact absurd rfl hne
  | append_singleton names name ih =>
    have habove := tree.above _ _ h
    rw [← List.append_assoc, List.dropLast_concat] at habove
    by_cases hnames : names = []
    · simpa [hnames] using habove
    · exact ih habove hnames

def file? (w : Workspace) (l : Location) : Option ByteArray :=
  match w.lookup? l with
  | some (.file bytes) => some bytes
  | _ => none

theorem file?_eq_some_iff {bytes : ByteArray} :
    w.file? l = some bytes ↔ w.lookup? l = some (.file bytes) := by
  unfold file?
  split
  · next h => simp [h]
  · next hno =>
    constructor
    · simp
    · intro h
      exact absurd h (hno bytes)

/-! ## Where a path leads -/

/-- Where one part of a path leads from a location. -/
def step (l : Location) (part : Text) : Location :=
  if part = ['.', '.'] then l.dropLast else l ++ [part]

/-- The locations that parts of a path are taken from, in order. -/
def wayFrom : Location → List Text → List Location
  | _, [] => []
  | l, part :: rest => l :: wayFrom (step l part) rest

def start (w : Workspace) (p : Path) : Location := if p.isAbsolute then [] else w.current

/-- The locations that a path passes before it comes to its destination. -/
def way (w : Workspace) (p : Path) : List Location := wayFrom (w.start p) p.parts

/-- Where a path leads when everything on its way is there. -/
def destination (w : Workspace) (p : Path) : Location := resolve (w.start p) p.parts

/-- A path that begins with no tilde names the place that it leads to. -/
theorem canonical_eq_destination {p : Path} (h : p.parts.head? ≠ some ['~']) :
    w.canonical p = w.destination p := by
  have hself : w.expand p = p := by
    unfold expand
    exact if_neg fun htilde => h htilde.2
  unfold canonical
  rw [hself]
  rfl

theorem resolve_append (l : Location) (a b : List Text) :
    resolve l (a ++ b) = resolve (resolve l a) b := by
  induction a generalizing l with
  | nil => rfl
  | cons part a ih => exact ih _

theorem wayFrom_append (l : Location) (a b : List Text) :
    wayFrom l (a ++ b) = wayFrom l a ++ wayFrom (resolve l a) b := by
  induction a generalizing l with
  | nil => rfl
  | cons part a ih =>
    rw [List.cons_append, wayFrom, ih]
    rfl

theorem resolve_names {names : List Text} (h : ∀ name ∈ names, Path.IsName name) (l : Location) :
    resolve l names = l ++ names := by
  induction names generalizing l with
  | nil => simp [resolve]
  | cons name names ih =>
    rw [resolve, if_neg (h name List.mem_cons_self).2,
      ih (fun n hn => h n (List.mem_cons_of_mem _ hn)), List.append_assoc, List.singleton_append]

/-- Names lead through the directories above the last of them. -/
theorem mem_wayFrom_names {names : List Text} (h : ∀ name ∈ names, Path.IsName name)
    {k : Location} :
    k ∈ wayFrom l names ↔ ∃ before after, names = before ++ after ∧ after ≠ [] ∧ k = l ++ before := by
  induction names generalizing l with
  | nil =>
    simp only [wayFrom, List.not_mem_nil, false_iff]
    rintro ⟨before, after, heq, hne, -⟩
    exact hne (List.append_eq_nil_iff.mp heq.symm).2
  | cons name names ih =>
    have hname := (h name List.mem_cons_self).2
    have ih := @ih (l ++ [name]) fun n hn => h n (List.mem_cons_of_mem _ hn)
    rw [wayFrom, step, if_neg hname, List.mem_cons, ih]
    constructor
    · rintro (rfl | ⟨before, after, rfl, hne, rfl⟩)
      · exact ⟨[], name :: names, rfl, by simp, by simp⟩
      · exact ⟨name :: before, after, rfl, hne, by simp⟩
    · rintro ⟨before, after, heq, hne, rfl⟩
      cases before with
      | nil => exact .inl (by simp)
      | cons first before =>
        obtain ⟨rfl, rfl⟩ := List.cons.inj heq
        exact .inr ⟨before, after, rfl, hne, by simp⟩

theorem start_append (w : Workspace) (p : Path) (parts : List Text) :
    w.start (p.append parts) = w.start p := rfl

theorem destination_append {names : List Text} (h : ∀ name ∈ names, Path.IsName name) :
    w.destination (p.append names) = w.destination p ++ names := by
  unfold destination
  rw [start_append, Path.append, resolve_append, resolve_names h]

theorem way_append (w : Workspace) (p : Path) (parts : List Text) :
    w.way (p.append parts) = w.way p ++ wayFrom (w.destination p) parts := by
  unfold way destination
  rw [start_append, Path.append, wayFrom_append]

/-- Parts lead to a location exactly when the way there is all directories. -/
theorem walk_eq_ok_iff {parts : List Text} (h : ∀ part ∈ parts, Path.IsPart part) {m : Location} :
    w.walk l parts = .ok m ↔
      m = resolve l parts ∧ ∀ k ∈ wayFrom l parts, w.lookup? k = some .directory := by
  induction parts generalizing l with
  | nil => simp [walk, resolve, wayFrom, eq_comm]
  | cons part parts ih =>
    have hdot := (h part List.mem_cons_self).2.2
    have ih := @ih (step l part) fun q hq => h q (List.mem_cons_of_mem _ hq)
    rw [walk, wayFrom, List.forall_mem_cons]
    cases hl : w.lookup? l with
    | none => simp
    | some e =>
      cases e with
      | file => simp
      | directory =>
        have hstep : (if part = ['.', '.'] then w.walk l.dropLast parts
            else if part = ['.'] then w.walk l parts else w.walk (l ++ [part]) parts) =
            w.walk (step l part) parts := by
          unfold step
          by_cases hup : part = ['.', '.'] <;> simp [hup, hdot]
        simp only [true_and, hstep]
        exact ih

/-- Parts lead nowhere because something on the way is missing, or is a file. -/
theorem walk_eq_error {parts : List Text} (h : ∀ part ∈ parts, Path.IsPart part)
    {fault : DiskFault} (hwalk : w.walk l parts = .error fault) :
    fault = .notFound ∨ fault = .notDirectory ∧ ∃ k ∈ wayFrom l parts, ∃ bytes,
      w.file? k = some bytes := by
  induction parts generalizing l with
  | nil => simp [walk] at hwalk
  | cons part parts ih =>
    have hdot := (h part List.mem_cons_self).2.2
    have hrest : ∀ q ∈ parts, Path.IsPart q := fun q hq => h q (List.mem_cons_of_mem _ hq)
    rw [walk] at hwalk
    cases hl : w.lookup? l with
    | none =>
      rw [hl] at hwalk
      exact .inl (Except.error.inj hwalk).symm
    | some e =>
      cases e with
      | file bytes =>
        rw [hl] at hwalk
        exact .inr ⟨(Except.error.inj hwalk).symm, l, List.mem_cons_self, bytes,
          file?_eq_some_iff.mpr hl⟩
      | directory =>
        have hstep : w.walk (step l part) parts = .error fault := by
          rw [hl] at hwalk
          unfold step
          by_cases hup : part = ['.', '.'] <;> simpa [hup, hdot] using hwalk
        rcases ih hrest hstep with hmissing | ⟨hfault, k, hk, hfile⟩
        · exact .inl hmissing
        · exact .inr ⟨hfault, k, List.mem_cons_of_mem _ hk, hfile⟩

theorem locate_eq_ok_iff (normal : p.Normal) {m : Location} :
    w.locate p = .ok m ↔
      m = w.destination p ∧ ∀ k ∈ w.way p, w.lookup? k = some .directory :=
  walk_eq_ok_iff normal.parts

/-- A path leads to an entry exactly when its way is all directories and the
entry is at its destination. -/
theorem at?_eq_some_iff (normal : p.Normal) {e : Entry} :
    w.at? p = some e ↔
      (∀ k ∈ w.way p, w.lookup? k = some .directory) ∧ w.lookup? (w.destination p) = some e := by
  unfold at?
  cases hl : w.locate p with
  | ok m =>
    obtain ⟨rfl, hway⟩ := (locate_eq_ok_iff normal).mp hl
    exact ⟨fun h => ⟨hway, h⟩, fun h => h.2⟩
  | error fault =>
    simp only [reduceCtorEq, false_iff]
    rintro ⟨hway, -⟩
    rw [(locate_eq_ok_iff normal).mpr ⟨rfl, hway⟩] at hl
    cases hl

theorem isDirectory_iff : w.isDirectory p = true ↔ w.at? p = some .directory := by
  simp [isDirectory]

theorem IsTree.start (tree : w.IsTree) (p : Path) : w.lookup? (w.start p) = some .directory := by
  unfold Workspace.start
  split
  · exact lookup?_nil
  · exact tree.current

theorem IsTree.parts_ne_nil (tree : w.IsTree) {bytes : ByteArray}
    (h : w.lookup? (w.destination p) = some (.file bytes)) : p.parts ≠ [] := by
  intro hnil
  have hstart := tree.start p
  unfold destination at h
  rw [hnil, resolve, hstart] at h
  cases h

/-- A file is opened by the text of its path, and nothing else is. -/
theorem readBytes_text_iff (tree : w.IsTree) (normal : p.Normal) {bytes : ByteArray} :
    w.readBytes p.text = .ok bytes ↔ w.at? p = some (.file bytes) := by
  have hstart : (if p.text.head? = some '/' then [] else w.current) = w.start p := by
    unfold Workspace.start
    simp only [Path.head?_text normal]
  unfold readBytes
  rw [if_neg (Path.text_ne_nil normal), hstart, at?_eq_some_iff normal]
  by_cases hparts : p.parts = []
  · -- the text of such a path is a slash, two or a dot, and asks for a directory
    have hwritten : writtenParts p.text = [['.']] := by
      obtain ⟨root, parts⟩ := p
      simp only at hparts
      subst hparts
      rcases normal.root with hroot | hroot | hroot <;> simp only at hroot <;> subst hroot <;> decide
    have hwalk : w.walk (w.start p) [['.']] = .ok (w.start p) := by simp [walk, tree.start p]
    rw [hwritten, hwalk]
    simp only [tree.start p, reduceCtorEq, false_iff, not_and]
    exact fun _ h => tree.parts_ne_nil h hparts
  · rw [writtenParts_text normal hparts]
    cases hwalk : w.walk (w.start p) p.parts with
    | error fault =>
      simp only [reduceCtorEq, false_iff]
      rintro ⟨hway, -⟩
      rw [(walk_eq_ok_iff normal.parts).mpr ⟨rfl, hway⟩] at hwalk
      cases hwalk
    | ok m =>
      obtain ⟨rfl, hway⟩ := (walk_eq_ok_iff normal.parts).mp hwalk
      have hdestination : resolve (w.start p) p.parts = w.destination p := rfl
      simp only [hdestination]
      cases hl : w.lookup? (w.destination p) with
      | none => simp
      | some e =>
        cases e with
        | directory => simp
        | file b =>
          simp only [Except.ok.injEq, Option.some.injEq, Entry.file.injEq]
          exact ⟨fun h => ⟨hway, h⟩, fun h => h.2⟩

/-! ## What is below a directory -/

theorem mem_namesBelow {names : List Text} :
    names ∈ w.namesBelow l ↔ names ≠ [] ∧ ∃ bytes, w.file? (l ++ names) = some bytes := by
  unfold namesBelow
  simp only [List.mem_mergeSort, List.mem_filterMap]
  constructor
  · rintro ⟨⟨k, e⟩, hx, hsome⟩
    cases e with
    | directory => cases hsome
    | file bytes =>
      simp only [List.isPrefixOf_iff_prefix] at hsome
      split at hsome
      · next h =>
        obtain ⟨⟨names', rfl⟩, hne⟩ := h
        obtain rfl : names' = names := by simpa using hsome
        have hnames : names' ≠ [] := by simpa using hne
        exact ⟨hnames, bytes, file?_eq_some_iff.mpr
          ((lookup?_eq_some_iff (by simp [hnames])).mpr hx)⟩
      · cases hsome
  · rintro ⟨hne, bytes, hfile⟩
    have hx := (lookup?_eq_some_iff (by simp [hne])).mp (file?_eq_some_iff.mp hfile)
    exact ⟨_, hx, by simp [hne]⟩

theorem nodup_namesBelow (w : Workspace) (l : Location) : (w.namesBelow l).Nodup := by
  unfold namesBelow
  refine (List.mergeSort_perm _ _).nodup_iff.mpr ?_
  -- two entries with the same names below `l` are at one location
  have hpairwise : w.entries.Pairwise fun x y => x.1 ≠ y.1 :=
    List.pairwise_map.mp w.distinct
  refine List.Pairwise.filterMap _ ?_ hpairwise
  intro x y hxy a ha b hb hab
  subst hab
  refine hxy ?_
  have key : ∀ k : Location, (if l.isPrefixOf k ∧ k ≠ l then some (k.drop l.length) else none) =
      some a → k = l ++ a := by
    intro k hk
    simp only [List.isPrefixOf_iff_prefix] at hk
    split at hk
    · next h =>
      obtain ⟨⟨names, rfl⟩, _⟩ := h
      simpa using hk
    · cases hk
  obtain ⟨k, e⟩ := x
  obtain ⟨m, e'⟩ := y
  cases e with
  | directory => cases ha
  | file =>
    cases e' with
    | directory => cases hb
    | file => rw [key k ha, key m hb]

theorem IsTree.named_below (tree : w.IsTree) {names : List Text} (h : names ∈ w.namesBelow l) :
    ∀ name ∈ names, Path.IsName name := by
  obtain ⟨-, bytes, hfile⟩ := mem_namesBelow.mp h
  intro name hname
  exact tree.named _ _ (file?_eq_some_iff.mp hfile) name (List.mem_append_right l hname)

theorem listFiles_eq (normal : p.Normal) (hdir : w.isDirectory p = true) :
    w.listFiles p none = (w.namesBelow (w.destination p)).map p.append := by
  obtain ⟨hway, hlookup⟩ := (at?_eq_some_iff normal).mp (isDirectory_iff.mp hdir)
  unfold listFiles
  rw [(locate_eq_ok_iff normal).mpr ⟨rfl, hway⟩]
  simp [hlookup]

theorem mem_listFiles_iff (normal : p.Normal) (hdir : w.isDirectory p = true) {q : Path} :
    q ∈ w.listFiles p none ↔ ∃ names ∈ w.namesBelow (w.destination p), q = p.append names := by
  rw [listFiles_eq normal hdir, List.mem_map]
  exact exists_congr fun names => and_congr_right fun _ => eq_comm

theorem locate_append (tree : w.IsTree) (normal : p.Normal) (hl : w.locate p = .ok l)
    {names : List Text} {e : Entry} (h : w.lookup? (l ++ names) = some e) :
    (p.append names).Normal ∧ w.locate (p.append names) = .ok (l ++ names) := by
  have hnamed : ∀ name ∈ names, Path.IsName name := fun name hname =>
    tree.named _ _ h name (List.mem_append_right l hname)
  have hnormal := normal.append fun name hname => (hnamed name hname).1
  obtain ⟨rfl, hway⟩ := (locate_eq_ok_iff normal).mp hl
  refine ⟨hnormal, (locate_eq_ok_iff hnormal).mpr ⟨(destination_append hnamed).symm, ?_⟩⟩
  rw [way_append]
  intro k hk
  rcases List.mem_append.mp hk with hk | hk
  · exact hway k hk
  · obtain ⟨before, after, rfl, hafter, rfl⟩ := (mem_wayFrom_names hnamed).mp hk
    rw [← List.append_assoc] at h
    exact tree.above_append h hafter

theorem at?_append (tree : w.IsTree) (normal : p.Normal) (hdir : w.isDirectory p = true)
    {names : List Text} (hnames : names ∈ w.namesBelow (w.destination p)) :
    ∃ bytes, w.file? (w.destination p ++ names) = some bytes ∧
      w.at? (p.append names) = some (.file bytes) := by
  obtain ⟨-, bytes, hfile⟩ := mem_namesBelow.mp hnames
  have hentry := file?_eq_some_iff.mp hfile
  obtain ⟨hway, -⟩ := (at?_eq_some_iff normal).mp (isDirectory_iff.mp hdir)
  obtain ⟨-, hlocate⟩ :=
    locate_append tree normal ((locate_eq_ok_iff normal).mpr ⟨rfl, hway⟩) hentry
  refine ⟨bytes, hfile, ?_⟩
  unfold at?
  rw [hlocate]
  exact hentry

theorem isDirectory_of_at?_append (normal : p.Normal) {names : List Text} (hne : names ≠ [])
    (hnamed : ∀ name ∈ names, Path.IsName name) {e : Entry}
    (h : w.at? (p.append names) = some e) : w.isDirectory p = true := by
  obtain ⟨hway, -⟩ := (at?_eq_some_iff (normal.append fun n hn => (hnamed n hn).1)).mp h
  rw [way_append] at hway
  have hdestination : w.destination p ∈ wayFrom (w.destination p) names :=
    (mem_wayFrom_names hnamed).mpr ⟨[], names, rfl, hne, by simp⟩
  apply isDirectory_iff.mpr
  apply (at?_eq_some_iff normal).mpr
  constructor
  · exact fun k hk => hway k (List.mem_append_left _ hk)
  · exact hway _ (List.mem_append_right _ hdestination)

/-- A path that names lead on from leads to a file below it. -/
theorem mem_namesBelow_of_at? (normal : p.Normal) {names : List Text} (hne : names ≠ [])
    (hnamed : ∀ name ∈ names, Path.IsName name) {bytes : ByteArray}
    (h : w.at? (p.append names) = some (.file bytes)) :
    w.isDirectory p = true ∧ names ∈ w.namesBelow (w.destination p) := by
  refine ⟨isDirectory_of_at?_append normal hne hnamed h, ?_⟩
  obtain ⟨-, hentry⟩ := (at?_eq_some_iff (normal.append fun n hn => (hnamed n hn).1)).mp h
  rw [destination_append hnamed] at hentry
  exact mem_namesBelow.mpr ⟨hne, bytes, file?_eq_some_iff.mpr hentry⟩

theorem at?_append_of_missing (normal : p.Normal) (h : w.exists? p = false) {names : List Text}
    (hnamed : ∀ name ∈ names, Path.IsName name) : w.at? (p.append names) = none := by
  have hnone : w.at? p = none := by simpa [exists?] using h
  by_cases hne : names = []
  · have hself : p.append names = p := by simp [Path.append, hne]
    rw [hself, hnone]
  · apply Option.eq_none_iff_forall_ne_some.mpr
    intro e he
    have hdir := isDirectory_iff.mp (isDirectory_of_at?_append normal hne hnamed he)
    rw [hnone] at hdir
    cases hdir

end Workspace
end ProtectedRegions
