import Mathlib.Data.List.Pairwise
import Mathlib.Data.List.Perm.Basic
import ProtectedRegions.Proofs.Gathering

/-
  Overlapping — whether the order matters in which roots are read

  Roots can lie in one another. A root that lies in one that was read is passed over,
  so a file below both is read once when the outer root comes first, and twice when
  the inner one does. Twice is no harm if both roots spell the file's path alike: the
  pool then sees one source. If they do not, the file is a duplicate of itself.

  Whether the roots can be read at all, in the best order, is a matter of the files
  (`Consistent`). Whether they can be read in every order is one of spelling as well:
  an outer root and the way on from it have to be spelled as the inner root is,
  wherever a region is below that (`SpelledAlike`). Nothing else comes in: roots side
  by side, or two that lead to one place, cannot disturb each other.

  What is proved:
    1. `pairwise_entered` and `exists_entered` — no root is read in one read before
       it, and every root lies in one that is read.
    2. `completes_iff` — when roots are read in one order.
    3. `entered_apart` — outer roots first, no two roots that are read overlap.
    4. `orderFree_iff` and `not_forall_orderFree` — when the order does not matter, and
       that it can.
-/

namespace ProtectedRegions

theorem Path.append_right_cancel {p q : Path} {names : List Text}
    (h : p.append names = q.append names) : p = q := by
  obtain ⟨root, parts⟩ := p
  obtain ⟨root', parts'⟩ := q
  obtain ⟨rfl, hparts⟩ := Path.mk.inj h
  exact congrArg (Path.mk root) (List.append_cancel_right hparts)

namespace Builder

variable {w : Workspace} {b : Builder} {visited : List Location} {reads : List RootRead}
  {r r' : RootRead}

/-! ## The roots that are not passed over -/

theorem pairwise_entered (w : Workspace) (visited : List Location) (reads : List RootRead) :
    (entered w visited reads).Pairwise fun r r' => ¬ r.place w <+: r'.place w := by
  induction reads generalizing visited with
  | nil => exact .nil
  | cons first reads ih =>
    by_cases fresh : first.Fresh w visited
    · rw [entered_cons_of_fresh fresh, List.pairwise_cons]
      refine ⟨fun r hr => ?_, ih _⟩
      exact (fresh_of_mem_entered hr).2 _ (List.mem_append_right _ List.mem_cons_self)
    · rw [entered_cons_of_stale fresh]
      exact ih _

/-- A root that is there lies in a place that was visited or in a root that is read. -/
theorem exists_entered (visited : List Location) (hr : r ∈ reads)
    (hexists : w.exists? r.root = true) : (∃ l ∈ visited, l <+: r.place w) ∨
      ∃ r' ∈ entered w visited reads, r'.place w <+: r.place w := by
  induction reads generalizing visited with
  | nil => cases hr
  | cons first reads ih =>
    by_cases fresh : first.Fresh w visited
    · rw [entered_cons_of_fresh fresh]
      rcases List.mem_cons.mp hr with rfl | hr
      · exact .inr ⟨r, List.mem_cons_self, List.prefix_rfl⟩
      · rcases ih (visited ++ [first.place w]) hr with ⟨l, hl, hin⟩ | ⟨r', hr', hin⟩
        · rcases List.mem_append.mp hl with hl | hl
          · exact .inl ⟨l, hl, hin⟩
          · obtain rfl := List.mem_singleton.mp hl
            exact .inr ⟨first, List.mem_cons_self, hin⟩
        · exact .inr ⟨r', List.mem_cons_of_mem _ hr', hin⟩
    · rw [entered_cons_of_stale fresh]
      rcases List.mem_cons.mp hr with rfl | hr
      · have hstale : ∃ l ∈ visited, l <+: r.place w := by
          by_contra hnone
          exact fresh ⟨hexists, fun l hl hin => hnone ⟨l, hl, hin⟩⟩
        exact .inl hstale
      · exact ih visited hr

/-! ## Whole roots -/

def whole (root : Text) : RootRead := ⟨root, none⟩

def forAll (parsers : List Parser) : List Registration := parsers.map fun p => ⟨.all, p⟩

/-- Roots are read one after the other by a new builder that has parsers for all
files, if nothing is refused. -/
def readWhole (w : Workspace) (parsers : List Parser) (roots : List Text) : Option Builder :=
  new.completed ((parsers.map fun p => .addParser (some p) none) ++
    roots.map fun root => .read w root none)

/-- Reading completes in every order or in none, and comes to the same bodies under
the same ids. -/
def OrderFree (w : Workspace) (parsers : List Parser) (roots : List Text) : Prop :=
  ∀ order order', order.Perm roots → order'.Perm roots →
    ((readWhole w parsers order).isSome = true ↔ (readWhole w parsers order').isSome = true) ∧
    ∀ b b', readWhole w parsers order = some b → readWhole w parsers order' = some b' →
      ∀ id, b.pool.body? id = b'.pool.body? id

def placeOf (w : Workspace) (root : Text) : Location := w.destination (Path.ofText root)

/-- The roots are directories, and each is remembered by the place that it leads to. -/
structure Rooted (w : Workspace) (roots : List Text) : Prop where
  directory : ∀ root ∈ roots, w.isDirectory (Path.ofText root) = true
  remembered : ∀ root ∈ roots, w.canonical (Path.ofText root) = placeOf w root

/-- A root that begins with no tilde is remembered by the place that it leads to. -/
theorem rooted_of_no_tilde {roots : List Text}
    (directory : ∀ root ∈ roots, w.isDirectory (Path.ofText root) = true)
    (plain : ∀ root ∈ roots, (Path.ofText root).parts.head? ≠ some ['~']) : Rooted w roots :=
  ⟨directory, fun root hroot => Workspace.canonical_eq_destination (plain root hroot)⟩

/-- A parser finds a region in the file at a location. -/
def RegionAt (w : Workspace) (parsers : List Parser) (l : Location) (id body : Text) : Prop :=
  ∃ bytes t, w.file? l = some bytes ∧ Text.decode bytes = .ok t ∧
    ∃ p ∈ parsers, ∃ d, p.parse t = .ok d ∧ ∃ s ∈ d.segments, s.id = some id ∧ s.content = body

/-- The location lies in one of the roots. -/
def Below (w : Workspace) (roots : List Text) (l : Location) : Prop :=
  ∃ root ∈ roots, placeOf w root <+: l

/-- What lies below the roots fits together: there is a parser to read it with, no parser
gives up on a text there, and no id is in two files or has two bodies. -/
structure Consistent (w : Workspace) (parsers : List Parser) (roots : List Text) : Prop where
  equipped : roots = [] ∨ parsers ≠ []
  legible : ∀ l bytes t, Below w roots l → w.file? l = some bytes → Text.decode bytes = .ok t →
    ∀ p ∈ parsers, ∃ d, p.parse t = .ok d
  unique : ∀ l l' id body body', Below w roots l → Below w roots l' →
    RegionAt w parsers l id body → RegionAt w parsers l' id body' → l = l' ∧ body = body'

/-- Roots spell the files they have in common alike: of two that lie in one another, with a
region in the inner one, the inner one's path goes on from the outer one's. -/
def SpelledAlike (w : Workspace) (parsers : List Parser) (roots : List Text) : Prop :=
  ∀ outer ∈ roots, ∀ inner ∈ roots, ∀ names, names ≠ [] →
    placeOf w inner = placeOf w outer ++ names →
    (∃ l id body, placeOf w inner <+: l ∧ RegionAt w parsers l id body) →
    Path.ofText inner = (Path.ofText outer).append names

variable {parsers : List Parser} {roots order : List Text} {l : Location} {id body : Text}
  {c : Capture}

theorem Rooted.perm (h : Rooted w roots) (hperm : order.Perm roots) : Rooted w order :=
  ⟨fun root hroot => h.directory root (hperm.mem_iff.mp hroot),
    fun root hroot => h.remembered root (hperm.mem_iff.mp hroot)⟩

theorem below_perm (hperm : order.Perm roots) : Below w order l ↔ Below w roots l := by
  simp only [Below, hperm.mem_iff]

theorem Consistent.perm (h : Consistent w parsers roots) (hperm : order.Perm roots) :
    Consistent w parsers order := by
  refine ⟨h.equipped.imp_left fun hnil => ?_, fun l bytes t hl => ?_,
    fun l l' id body body' hl hl' => ?_⟩
  · subst hnil
    exact hperm.eq_nil
  · exact h.legible l bytes t ((below_perm hperm).mp hl)
  · exact h.unique l l' id body body' ((below_perm hperm).mp hl) ((below_perm hperm).mp hl')

/-- The roots that are not passed over when roots are read whole, in order. -/
def enteredRoots (w : Workspace) (roots : List Text) : List Text :=
  (entered w [] (roots.map whole)).map (·.path)

theorem map_whole_enteredRoots (w : Workspace) (roots : List Text) :
    (enteredRoots w roots).map whole = entered w [] (roots.map whole) := by
  rw [enteredRoots, List.map_map]
  refine (List.map_congr_left fun r hr => ?_).trans (List.map_id _)
  obtain ⟨root, -, rfl⟩ := List.mem_map.mp ((entered_sublist w [] _).mem hr)
  rfl

theorem enteredRoots_sublist (w : Workspace) (roots : List Text) :
    (enteredRoots w roots).Sublist roots := by
  have hpaths : (roots.map whole).map (·.path) = roots := by
    rw [List.map_map]
    exact List.map_id roots
  have hsublist := (entered_sublist w [] (roots.map whole)).map (·.path)
  rwa [hpaths] at hsublist

theorem Rooted.exists_whole (h : Rooted w roots) {root : Text} (hroot : root ∈ roots) :
    w.exists? (whole root).root = true := by
  have hdir := Workspace.isDirectory_iff.mp (h.directory root hroot)
  simp [Workspace.exists?, whole, RootRead.root, hdir]

theorem Rooted.entered (h : Rooted w roots) : Rooted w (enteredRoots w roots) :=
  ⟨fun root hroot => h.directory root ((enteredRoots_sublist w roots).mem hroot),
    fun root hroot => h.remembered root ((enteredRoots_sublist w roots).mem hroot)⟩

theorem pairwise_enteredRoots (rooted : Rooted w roots) :
    (enteredRoots w roots).Pairwise fun a b => ¬ placeOf w a <+: placeOf w b := by
  have hpairwise := pairwise_entered w [] (roots.map whole)
  rw [← map_whole_enteredRoots, List.pairwise_map] at hpairwise
  refine hpairwise.imp_of_mem fun {a b} ha hb hout hin => hout ?_
  rw [← rooted.entered.remembered a ha, ← rooted.entered.remembered b hb] at hin
  exact hin

theorem below_enteredRoots (rooted : Rooted w roots) :
    Below w (enteredRoots w roots) l ↔ Below w roots l := by
  constructor
  · rintro ⟨root, hroot, hin⟩
    exact ⟨root, (enteredRoots_sublist w roots).mem hroot, hin⟩
  · rintro ⟨root, hroot, hin⟩
    rcases exists_entered [] (List.mem_map_of_mem hroot)
      (rooted.exists_whole hroot) with ⟨l, hl, -⟩ | ⟨r, hr, houter⟩
    · cases hl
    · rw [← map_whole_enteredRoots] at hr
      obtain ⟨outer, hentered, rfl⟩ := List.mem_map.mp hr
      have hplaces : placeOf w outer <+: placeOf w root := by
        rw [← rooted.remembered root hroot, ← rooted.entered.remembered outer hentered]
        exact houter
      exact ⟨outer, hentered, hplaces.trans hin⟩

/-! ## What is found below whole roots -/

theorem parsersFor_forAll (parsers : List Parser) (path : Text) :
    parsersFor (forAll parsers) path = parsers := by
  induction parsers with
  | nil => rfl
  | cons p parsers ih =>
    have hp : parsersFor (forAll (p :: parsers)) path = p :: parsersFor (forAll parsers) path := rfl
    rw [hp, ih]

theorem names_ne_nil (rooted : Rooted w roots) {root : Text} (hroot : root ∈ roots)
    {names : List Text} {bytes : ByteArray} (h : w.file? (placeOf w root ++ names) = some bytes) :
    names ≠ [] := by
  rintro rfl
  rw [List.append_nil, Workspace.file?_eq_some_iff] at h
  have hdir := Workspace.isDirectory_iff.mp (rooted.directory root hroot)
  obtain ⟨-, hentry⟩ := (Workspace.at?_eq_some_iff (Path.normal_ofText root)).mp hdir
  rw [show w.destination (Path.ofText root) = placeOf w root from rfl, h] at hentry
  cases hentry

/-- What is found below roots are the regions at the locations below them, each as its
root spells the file. -/
theorem mem_foundIn_whole (tree : w.IsTree) (rooted : Rooted w roots) :
    c ∈ foundIn w (forAll parsers) (roots.map whole) ↔ ∃ root ∈ roots, ∃ names,
      RegionAt w parsers (placeOf w root ++ names) c.id c.body ∧
        c.source = some ((Path.ofText root).append names).text := by
  have hdir : ∀ root ∈ roots, w.isDirectory (whole root).root = true := rooted.directory
  constructor
  · rintro ⟨r, hr, hfound⟩
    obtain ⟨root, hroot, rfl⟩ := List.mem_map.mp hr
    obtain ⟨names, bytes, t, hne, hfile, -, ht, hsource, x, hx, -, d, hd, s, hs, hid, hbody⟩ :=
      (RootRead.mem_found_iff tree (hdir root hroot)).mp hfound
    obtain ⟨p, hp, rfl⟩ := List.mem_map.mp hx
    exact ⟨root, hroot, names, ⟨bytes, t, hfile, ht, p, hp, d, hd, s, hs, hid, hbody⟩, hsource⟩
  · rintro ⟨root, hroot, names, hregion, hsource⟩
    obtain ⟨bytes, t, hfile, ht, p, hp, d, hd, s, hs, hid, hbody⟩ := hregion
    have hne := names_ne_nil rooted hroot hfile
    refine ⟨whole root, List.mem_map_of_mem hroot,
      (RootRead.mem_found_iff tree (hdir root hroot)).mpr ?_⟩
    exact ⟨names, bytes, t, hne, hfile, nofun, ht, hsource, ⟨.all, p⟩, List.mem_map_of_mem hp, rfl,
      d, hd, s, hs, hid, hbody⟩

theorem RegionAt.mem_foundIn (tree : w.IsTree) (rooted : Rooted w roots) {root : Text}
    (hroot : root ∈ roots) {names : List Text}
    (h : RegionAt w parsers (placeOf w root ++ names) id body) :
    ⟨id, body, some ((Path.ofText root).append names).text⟩ ∈
      foundIn w (forAll parsers) (roots.map whole) :=
  (mem_foundIn_whole tree rooted).mpr ⟨root, hroot, names, h, rfl⟩

theorem legible_whole_iff (tree : w.IsTree) {root : Text}
    (hdir : w.isDirectory (Path.ofText root) = true) :
    (whole root).Legible w (forAll parsers) ↔ ∀ names bytes t, names ≠ [] →
      w.file? (placeOf w root ++ names) = some bytes → Text.decode bytes = .ok t →
        ∀ p ∈ parsers, ∃ d, p.parse t = .ok d := by
  have normal := Path.normal_ofText root
  constructor
  · intro legible names bytes t hne hfile ht
    obtain ⟨hnormal, hat⟩ := Reading.file_below tree normal hdir hne hfile
    have readable := legible _ ((Reading.mem_listFiles_filter_iff tree normal hdir).mpr
      ⟨names, bytes, hne, hfile, rfl, nofun, hnormal, hat⟩)
    rw [Reading.readable_iff tree hnormal hat, parsersFor_forAll] at readable
    exact readable t ht
  · intro hall q hq
    obtain ⟨names, bytes, hne, hfile, rfl, -, hnormal, hat⟩ :=
      (Reading.mem_listFiles_filter_iff tree normal hdir).mp hq
    rw [Reading.readable_iff tree hnormal hat, parsersFor_forAll]
    exact fun t ht => hall names bytes t hne hfile ht

/-! ## When the roots are read in one order -/

theorem completed_addParser_none (b : Builder) (parsers : List Parser) :
    b.completed (parsers.map fun p => .addParser (some p) none) =
      b.completed (registering (forAll parsers)) := by
  induction parsers generalizing b with
  | nil => rfl
  | cons p parsers ih =>
    -- a parser without a filter is registered for all files
    have hnext : b.completed (registering (forAll (p :: parsers))) =
        b.completed (.addParser (some p) none :: registering (forAll parsers)) := rfl
    rw [List.map_cons, hnext]
    rcases hp : b.perform (.addParser (some p) none) with ⟨next, none | e⟩
    · rw [completed_cons_of_done hp, completed_cons_of_done hp, ih]
    · rw [completed_cons_of_refused hp, completed_cons_of_refused hp]

theorem readWhole_eq (w : Workspace) (parsers : List Parser) (roots : List Text) :
    readWhole w parsers roots =
      (configuredWith (forAll parsers)).completed ((roots.map whole).map (·.call w)) := by
  rw [readWhole, completed_append, completed_addParser_none, completed_registering rfl,
    List.map_map]
  rfl

theorem readWhole_spec (w : Workspace) (parsers : List Parser) (roots : List Text) :
    (∀ b, readWhole w parsers roots = some b → (roots = [] ∨ parsers ≠ []) ∧
      (configuredWith (forAll parsers)).AllowsAll w (roots.map whole) ∧
      b.pool.captures = foundIn w (forAll parsers) ((enteredRoots w roots).map whole)) ∧
    (readWhole w parsers roots = none → ¬ ((roots = [] ∨ parsers ≠ []) ∧
      (configuredWith (forAll parsers)).AllowsAll w (roots.map whole))) := by
  rw [readWhole_eq, map_whole_enteredRoots]
  by_cases hroots : roots = []
  · subst hroots
    refine ⟨fun b h => ⟨.inl rfl, allowsAll_nil, ?_⟩, nofun⟩
    obtain rfl := Option.some.inj h
    exact Pool.captures_empty.trans (by simp [foundIn, entered])
  · by_cases hparsers : parsers = []
    · subst hparsers
      refine ⟨fun b h => ?_, fun _ hall => ?_⟩
      · exact absurd (List.map_eq_nil_iff.mp (reads_eq_nil_of_no_parsers h)) hroots
      · rcases hall.1 with h | h
        · exact hroots h
        · exact h rfl
    · have hready : (configuredWith (forAll parsers)).Ready :=
        ready_configuredWith (by simpa [forAll] using hparsers)
      obtain ⟨hdone, hfailed⟩ := reads_all hready (roots.map whole)
      have hempty : (configuredWith (forAll parsers)).pool.captures = ∅ := Pool.captures_empty
      rw [hempty] at hdone
      refine ⟨fun b h => ⟨.inr hparsers, (hdone b h).1, ?_⟩, fun h hall => hfailed h hall.2⟩
      rw [(hdone b h).2, Set.empty_union]
      rfl

/-- Every text below the roots can be read, exactly when no parser gives up on a file of
a root that is read. -/
theorem legible_entered_iff (tree : w.IsTree) (rooted : Rooted w roots) :
    (∀ r ∈ (enteredRoots w roots).map whole, r.Legible w (forAll parsers)) ↔
      ∀ l bytes t, Below w roots l → w.file? l = some bytes → Text.decode bytes = .ok t →
        ∀ p ∈ parsers, ∃ d, p.parse t = .ok d := by
  rw [List.forall_mem_map]
  have hdir := rooted.entered.directory
  constructor
  · intro legible l bytes t hbelow hfile ht
    obtain ⟨root, hroot, names, rfl⟩ := (below_enteredRoots rooted).mpr hbelow
    exact (legible_whole_iff tree (hdir root hroot)).mp (legible root hroot) names bytes t
      (names_ne_nil rooted.entered hroot hfile) hfile ht
  · intro hall root hroot
    refine (legible_whole_iff tree (hdir root hroot)).mpr fun names bytes t _ hfile => ?_
    exact hall _ bytes t ⟨root, (enteredRoots_sublist w roots).mem hroot, List.prefix_append _ _⟩
      hfile

theorem RegionAt.named (tree : w.IsTree) {names : List Text}
    (h : RegionAt w parsers (l ++ names) id body) : ∀ name ∈ names, Path.IsName name := by
  obtain ⟨bytes, t, hfile, -⟩ := h
  intro name hname
  exact tree.named _ _ (Workspace.file?_eq_some_iff.mp hfile) name (List.mem_append_right l hname)

theorem spelling_injective (tree : w.IsTree) {root root' id' body' : Text}
    {names names' : List Text} (h : RegionAt w parsers (placeOf w root ++ names) id body)
    (h' : RegionAt w parsers (placeOf w root' ++ names') id' body')
    (htext : ((Path.ofText root).append names).text = ((Path.ofText root').append names').text) :
    (Path.ofText root).append names = (Path.ofText root').append names' := by
  have hnormal := (Path.normal_ofText root).append fun n hn => (h.named tree n hn).1
  have hnormal' := (Path.normal_ofText root').append fun n hn => (h'.named tree n hn).1
  exact Path.text_injective hnormal hnormal' htext

/-- Captures that agree are of different ids wherever they are in different files, or of
different bodies; and a file that is read through two roots is spelled alike. -/
theorem consistent_of_agree (tree : w.IsTree) (rooted : Rooted w roots)
    (agree : Agree (foundIn w (forAll parsers) ((enteredRoots w roots).map whole))) :
    (∀ l l' id body body', Below w roots l → Below w roots l' → RegionAt w parsers l id body →
      RegionAt w parsers l' id body' → l = l' ∧ body = body') ∧
    SpelledAlike w parsers (enteredRoots w roots) := by
  have key : ∀ root ∈ enteredRoots w roots, ∀ root' ∈ enteredRoots w roots,
      ∀ names names' id body body', RegionAt w parsers (placeOf w root ++ names) id body →
        RegionAt w parsers (placeOf w root' ++ names') id body' →
          body = body' ∧ (Path.ofText root).append names = (Path.ofText root').append names' := by
    intro root hroot root' hroot' names names' id body body' h h'
    have hsame := agree _ (h.mem_foundIn tree rooted.entered hroot)
      _ (h'.mem_foundIn tree rooted.entered hroot') rfl
    obtain ⟨-, hbody, hsource⟩ := Capture.mk.inj hsame
    exact ⟨hbody, spelling_injective tree h h' (Option.some.inj hsource)⟩
  constructor
  · intro l l' id body body' hl hl' h h'
    obtain ⟨root, hroot, names, rfl⟩ := (below_enteredRoots rooted).mpr hl
    obtain ⟨root', hroot', names', rfl⟩ := (below_enteredRoots rooted).mpr hl'
    obtain ⟨hbody, hpath⟩ := key root hroot root' hroot' names names' id body body' h h'
    refine ⟨?_, hbody⟩
    rw [placeOf, placeOf, ← Workspace.destination_append (h.named tree),
      ← Workspace.destination_append (h'.named tree), hpath]
  · rintro outer houter inner hinner names - hplaces ⟨l, id, body, ⟨more, rfl⟩, h⟩
    have h' := h
    rw [hplaces, List.append_assoc] at h'
    obtain ⟨-, hpath⟩ := key inner hinner outer houter more (names ++ more) id body body h h'
    rw [← Path.append_append] at hpath
    exact Path.append_right_cancel hpath

theorem eq_of_placeOf_eq (rooted : Rooted w roots) {root root' : Text}
    (hroot : root ∈ enteredRoots w roots) (hroot' : root' ∈ enteredRoots w roots)
    (h : placeOf w root = placeOf w root') : root = root' := by
  have hnodup : ((enteredRoots w roots).map (placeOf w)).Nodup := by
    refine List.pairwise_map.mpr ((pairwise_enteredRoots rooted).imp fun hout heq => hout ?_)
    exact heq ▸ List.prefix_rfl
  exact List.inj_on_of_nodup_map hnodup hroot hroot' h

theorem spelling_eq (rooted : Rooted w roots)
    (alike : SpelledAlike w parsers (enteredRoots w roots)) {outer inner : Text}
    (houter : outer ∈ enteredRoots w roots) (hinner : inner ∈ enteredRoots w roots)
    {way names : List Text} (hplaces : placeOf w inner = placeOf w outer ++ way)
    (h : RegionAt w parsers (placeOf w inner ++ names) id body) :
    (Path.ofText outer).append (way ++ names) = (Path.ofText inner).append names := by
  by_cases hway : way = []
  · subst hway
    rw [List.append_nil] at hplaces
    rw [eq_of_placeOf_eq rooted hinner houter hplaces, List.nil_append]
  · rw [alike outer houter inner hinner way hway hplaces
      ⟨_, id, body, List.prefix_append _ _, h⟩, Path.append_append]

/-- Files that fit together and are spelled alike have captures that agree. -/
theorem agree_of_consistent (tree : w.IsTree) (rooted : Rooted w roots)
    (consistent : Consistent w parsers roots)
    (alike : SpelledAlike w parsers (enteredRoots w roots)) :
    Agree (foundIn w (forAll parsers) ((enteredRoots w roots).map whole)) := by
  rintro ⟨id, body, source⟩ hc ⟨id', body', source'⟩ hc' hid
  obtain rfl : id = id' := hid
  obtain ⟨root, hroot, names, h, rfl⟩ := (mem_foundIn_whole tree rooted.entered).mp hc
  obtain ⟨root', hroot', names', h', rfl⟩ := (mem_foundIn_whole tree rooted.entered).mp hc'
  have hbelow := fun root hroot names => (below_enteredRoots (l := placeOf w root ++ names)
    rooted).mp ⟨root, hroot, List.prefix_append _ _⟩
  obtain ⟨hl, hbody⟩ := consistent.unique _ _ _ _ _ (hbelow root hroot names)
    (hbelow root' hroot' names') h h'
  obtain rfl : body = body' := hbody
  -- one of the two roots lies in the other, or they are one
  have hpath : (Path.ofText root).append names = (Path.ofText root').append names' := by
    rcases List.append_eq_append_iff.mp hl with ⟨way, hplaces, rfl⟩ | ⟨way, hplaces, rfl⟩
    · exact spelling_eq rooted alike hroot hroot' hplaces h'
    · exact (spelling_eq rooted alike hroot' hroot hplaces h).symm
  rw [hpath]

theorem allowsAll_whole_iff (rooted : Rooted w roots) :
    (configuredWith (forAll parsers)).AllowsAll w (roots.map whole) ↔
      (∀ r ∈ (enteredRoots w roots).map whole, r.Legible w (forAll parsers)) ∧
        Agree (foundIn w (forAll parsers) ((enteredRoots w roots).map whole)) := by
  have hfound : (configuredWith (forAll parsers)).pool.captures ∪
      foundIn w (forAll parsers) (entered w [] (roots.map whole)) =
      foundIn w (forAll parsers) ((enteredRoots w roots).map whole) := by
    rw [map_whole_enteredRoots]
    exact (congrArg (· ∪ _) Pool.captures_empty).trans (Set.empty_union _)
  rw [← hfound, map_whole_enteredRoots]
  constructor
  · rintro ⟨-, legible, agree⟩
    exact ⟨legible, agree⟩
  · rintro ⟨legible, agree⟩
    exact ⟨List.forall_mem_map.mpr fun root hroot _ => rooted.directory root hroot, legible, agree⟩

/-- Roots are all read in the order they are given in, exactly when the files fit together
and those that are read spell their files alike. -/
theorem completes_iff (tree : w.IsTree) (rooted : Rooted w roots) :
    (readWhole w parsers roots).isSome = true ↔
      Consistent w parsers roots ∧ SpelledAlike w parsers (enteredRoots w roots) := by
  obtain ⟨hdone, hfailed⟩ := readWhole_spec w parsers roots
  rw [allowsAll_whole_iff rooted, legible_entered_iff tree rooted] at hdone hfailed
  constructor
  · intro hsome
    obtain ⟨b, hb⟩ := Option.isSome_iff_exists.mp hsome
    obtain ⟨equipped, ⟨legible, agree⟩, -⟩ := hdone b hb
    obtain ⟨unique, alike⟩ := consistent_of_agree tree rooted agree
    exact ⟨⟨equipped, legible, unique⟩, alike⟩
  · rintro ⟨consistent, alike⟩
    cases hresult : readWhole w parsers roots with
    | some b => rfl
    | none =>
      exact absurd ⟨consistent.equipped, consistent.legible,
        agree_of_consistent tree rooted consistent alike⟩ (hfailed hresult)

theorem body?_readWhole (tree : w.IsTree) (rooted : Rooted w roots)
    (h : readWhole w parsers roots = some b) :
    b.pool.body? id = some body ↔ ∃ l, Below w roots l ∧ RegionAt w parsers l id body := by
  have hcaptures := ((readWhole_spec w parsers roots).1 b h).2.2
  constructor
  · intro hbody
    obtain ⟨source, hc⟩ := Pool.exists_of_body? hbody
    rw [hcaptures, mem_foundIn_whole tree rooted.entered] at hc
    obtain ⟨root, hroot, names, hregion, -⟩ := hc
    exact ⟨_, ⟨root, (enteredRoots_sublist w roots).mem hroot, List.prefix_append _ _⟩, hregion⟩
  · rintro ⟨l, hbelow, hregion⟩
    obtain ⟨root, hroot, names, rfl⟩ := (below_enteredRoots rooted).mpr hbelow
    have hc := hregion.mem_foundIn tree rooted.entered hroot
    rw [← hcaptures] at hc
    exact Pool.body?_of_mem hc

/-! ## All orders -/

theorem SpelledAlike.mono (h : SpelledAlike w parsers roots) (hsub : order ⊆ roots) :
    SpelledAlike w parsers order :=
  fun outer houter inner hinner => h outer (hsub houter) inner (hsub hinner)

/-- The roots, outer ones first. -/
def outerFirst (w : Workspace) (roots : List Text) : List Text :=
  roots.mergeSort fun a b => (placeOf w a).length ≤ (placeOf w b).length

theorem outerFirst_perm (w : Workspace) (roots : List Text) : (outerFirst w roots).Perm roots :=
  List.mergeSort_perm _ _

theorem pairwise_outerFirst (w : Workspace) (roots : List Text) :
    (outerFirst w roots).Pairwise fun a b => (placeOf w a).length ≤ (placeOf w b).length := by
  have hsorted : (outerFirst w roots).Pairwise fun a b =>
      decide ((placeOf w a).length ≤ (placeOf w b).length) = true := List.pairwise_mergeSort
    (fun a b c hab hbc => by simp only [decide_eq_true_eq] at *; omega)
    (fun a b => by simp only [Bool.or_eq_true, decide_eq_true_eq]; omega) roots
  simpa only [decide_eq_true_eq] using hsorted

/-- Outer roots first, no two roots that are read have anything in common. -/
theorem pairwise_apart (rooted : Rooted w roots) :
    (enteredRoots w (outerFirst w roots)).Pairwise fun a b =>
      ¬ placeOf w a <+: placeOf w b ∧ ¬ placeOf w b <+: placeOf w a := by
  have hout := pairwise_enteredRoots (rooted.perm (outerFirst_perm w roots))
  have hle := (pairwise_outerFirst w roots).sublist (enteredRoots_sublist w _)
  refine (hout.and hle).imp fun ⟨hout, hle⟩ => ⟨hout, fun hin => hout ?_⟩
  exact hin.eq_of_length_le hle ▸ List.prefix_rfl

theorem entered_apart (rooted : Rooted w roots) {outer inner : Text}
    (houter : outer ∈ enteredRoots w (outerFirst w roots))
    (hinner : inner ∈ enteredRoots w (outerFirst w roots)) {names : List Text}
    (hplaces : placeOf w inner = placeOf w outer ++ names) : names = [] := by
  by_cases hsame : outer = inner
  · subst hsame
    exact List.append_right_eq_self.mp hplaces.symm
  · have symm : Std.Symm fun a b => ¬ placeOf w a <+: placeOf w b ∧ ¬ placeOf w b <+: placeOf w a :=
      ⟨fun _ _ => And.symm⟩
    have hapart := (pairwise_apart rooted).forall houter hinner hsame
    exact absurd ⟨names, hplaces.symm⟩ hapart.1

/-- Roots can be read in some order exactly when the files below them fit together. -/
theorem exists_order_iff (parsers : List Parser) (tree : w.IsTree) (rooted : Rooted w roots) :
    (∃ order, order.Perm roots ∧ (readWhole w parsers order).isSome = true) ↔
      Consistent w parsers roots := by
  constructor
  · rintro ⟨order, hperm, hsome⟩
    exact ((completes_iff tree (rooted.perm hperm)).mp hsome).1.perm hperm.symm
  · intro consistent
    have hperm := outerFirst_perm w roots
    refine ⟨outerFirst w roots, hperm, (completes_iff tree (rooted.perm hperm)).mpr
      ⟨consistent.perm hperm, ?_⟩⟩
    intro outer houter inner hinner names hne hplaces
    exact absurd (entered_apart rooted houter hinner hplaces) hne

theorem mem_enteredRoots_inner_outer {outer inner : Text}
    (rooted : Rooted w (inner :: outer :: roots)) (hout : ¬ placeOf w inner <+: placeOf w outer) :
    inner ∈ enteredRoots w (inner :: outer :: roots) ∧
      outer ∈ enteredRoots w (inner :: outer :: roots) := by
  have hinner : inner ∈ inner :: outer :: roots := List.mem_cons_self
  have houter : outer ∈ inner :: outer :: roots := List.mem_cons_of_mem _ List.mem_cons_self
  have fresh : (whole inner).Fresh w [] := ⟨rooted.exists_whole hinner, nofun⟩
  have fresh' : (whole outer).Fresh w ([] ++ [(whole inner).place w]) := by
    refine ⟨rooted.exists_whole houter, fun l hl hin => hout ?_⟩
    obtain rfl := List.mem_singleton.mp hl
    rw [← rooted.remembered inner hinner, ← rooted.remembered outer houter]
    exact hin
  rw [enteredRoots, List.map_cons, List.map_cons, entered_cons_of_fresh fresh,
    entered_cons_of_fresh fresh', List.map_cons, List.map_cons]
  exact ⟨List.mem_cons_self, List.mem_cons_of_mem _ List.mem_cons_self⟩

/-- Where every order of the roots can be read, the roots spell alike what they have in
common: an inner root could come right before an outer one. -/
theorem spelledAlike_of_all (tree : w.IsTree) (rooted : Rooted w roots)
    (hall : ∀ order, order.Perm roots → (readWhole w parsers order).isSome = true) :
    SpelledAlike w parsers roots := by
  intro outer houter inner hinner names hne hplaces hregion
  have hdifferent : outer ≠ inner := by
    rintro rfl
    exact hne (List.append_right_eq_self.mp hplaces.symm)
  have hperm : (inner :: outer :: (roots.erase inner).erase outer).Perm roots := by
    have hrest := List.perm_cons_erase ((List.mem_erase_of_ne hdifferent).mpr houter)
    exact ((List.perm_cons_erase hinner).trans (hrest.cons inner)).symm
  have hout : ¬ placeOf w inner <+: placeOf w outer := by
    intro hin
    have hlength := hin.length_le
    rw [hplaces, List.length_append] at hlength
    have hpositive := List.length_pos_of_ne_nil hne
    omega
  have rooted' := rooted.perm hperm
  obtain ⟨-, alike⟩ := (completes_iff tree rooted').mp (hall _ hperm)
  obtain ⟨hinner', houter'⟩ := mem_enteredRoots_inner_outer rooted' hout
  exact alike outer houter' inner hinner' names hne hplaces hregion

/-- Whole directories are read by a new builder, each remembered by the place that it leads
to. They can be read in some order exactly when the files below them fit together, and
then in every order, with the same bodies, exactly when they spell alike what they have in
common. The pool then has the regions below the roots and no others. -/
theorem orderFree_iff (parsers : List Parser) (tree : w.IsTree) (rooted : Rooted w roots) :
    (OrderFree w parsers roots ↔
      (Consistent w parsers roots → SpelledAlike w parsers roots)) ∧
    ((∃ order, order.Perm roots ∧ (readWhole w parsers order).isSome = true) ↔
      Consistent w parsers roots) ∧
    ∀ order b, order.Perm roots → readWhole w parsers order = some b → ∀ id body,
      b.pool.body? id = some body ↔ ∃ l, Below w roots l ∧ RegionAt w parsers l id body := by
  have hbodies : ∀ order b, order.Perm roots → readWhole w parsers order = some b → ∀ id body,
      b.pool.body? id = some body ↔ ∃ l, Below w roots l ∧ RegionAt w parsers l id body := by
    intro order b hperm hb id body
    rw [body?_readWhole tree (rooted.perm hperm) hb]
    simp only [below_perm hperm]
  have hexists := exists_order_iff parsers tree rooted
  refine ⟨⟨fun free consistent => ?_, fun halike order order' hperm hperm' => ⟨?_, ?_⟩⟩, hexists,
    hbodies⟩
  · obtain ⟨order, hperm, hsome⟩ := hexists.mpr consistent
    exact spelledAlike_of_all tree rooted fun order' hperm' =>
      (free order order' hperm hperm').1.mp hsome
  · have hiff : ∀ order, order.Perm roots →
        ((readWhole w parsers order).isSome = true ↔ Consistent w parsers roots) := by
      intro order hperm
      refine ⟨fun hsome => hexists.mp ⟨order, hperm, hsome⟩, fun consistent => ?_⟩
      refine (completes_iff tree (rooted.perm hperm)).mpr ⟨consistent.perm hperm, ?_⟩
      exact (halike consistent).mono fun root hroot =>
        hperm.mem_iff.mp ((enteredRoots_sublist w order).mem hroot)
    rw [hiff order hperm, hiff order' hperm']
  · intro b b' hb hb' id
    ext body
    rw [hbodies order b hperm hb, hbodies order' b' hperm' hb']

/-- An inner root and an outer one, spelled alike. -/
def innerAndOuter : List Text := ["o/d".toList, ['o']]

theorem spelledAlike_innerAndOuter (parsers : List Parser) :
    SpelledAlike nested parsers innerAndOuter := by
  have hinner : placeOf nested "o/d".toList = [['o'], ['d']] := by decide
  have houter : placeOf nested ['o'] = [['o']] := by decide
  intro a ha b hb names hne hplaces _
  simp only [innerAndOuter, List.mem_cons, List.not_mem_nil, or_false] at ha hb
  rcases ha with rfl | rfl
  · rcases hb with rfl | rfl
    · exact absurd (List.append_right_eq_self.mp hplaces.symm) hne
    · rw [hinner, houter] at hplaces
      cases hplaces
  · rcases hb with rfl | rfl
    · rw [hinner, houter] at hplaces
      obtain rfl : names = [['d']] := by simpa using hplaces.symm
      decide
    · exact absurd (List.append_right_eq_self.mp hplaces.symm) hne

/-- In every order the two roots are read, the file below both of them once or twice, and
its region is in the pool. -/
theorem orderFree_iff_nested :
    Consistent nested [.ofPreset .cLike .default false] innerAndOuter ∧
    ∀ order, order.Perm innerAndOuter →
      ∃ b, readWhole nested [.ofPreset .cLike .default false] order = some b ∧
        b.pool.body? ['A'] = some ['x', '\n'] := by
  have tree : nested.IsTree := by decide +kernel
  have rooted : Rooted nested innerAndOuter := rooted_of_no_tilde (by decide +kernel) (by decide)
  obtain ⟨hfree, hexists, -⟩ := orderFree_iff [.ofPreset .cLike .default false] tree rooted
  have free := hfree.mpr fun _ => spelledAlike_innerAndOuter _
  have hdone : (readWhole nested [.ofPreset .cLike .default false] innerAndOuter).map
      (fun b => b.pool.body? ['A']) = some (some ['x', '\n']) := by decide +kernel
  obtain ⟨b, hb, hbody⟩ := Option.map_eq_some_iff.mp hdone
  have hsome := Option.isSome_iff_exists.mpr ⟨b, hb⟩
  refine ⟨hexists.mp ⟨innerAndOuter, .refl _, hsome⟩, fun order hperm => ?_⟩
  obtain ⟨hsame, hbodies⟩ := free order innerAndOuter hperm (.refl _)
  obtain ⟨b', hb'⟩ := Option.isSome_iff_exists.mp (hsame.mpr hsome)
  exact ⟨b', hb', (hbodies b' b hb' hb ['A']).trans hbody⟩

/-- A directory with a region in it, seen from the directory above. -/
def seenFromAbove : Workspace :=
  ⟨[([['r']], .directory), ([['r'], ['d']], .directory),
    ([['r'], ['d'], ['a']], .file (Text.encode "//[[region:A]]\nx\n//[[end]]".toList))],
    by decide, [['r']], [], none⟩

/-- The order of roots can matter: the inner one by a relative path and then the outer one
by an absolute path make the file a duplicate of itself, and turned around they do not. -/
theorem not_forall_orderFree :
    ¬ ∀ (w : Workspace) (parsers : List Parser) (roots : List Text), w.IsTree →
      (∀ root ∈ roots, w.isDirectory (Path.ofText root) = true) → OrderFree w parsers roots := by
  intro hall
  have hfree := hall seenFromAbove [.ofPreset .cLike .default false] [['d'], "/r".toList]
    (by decide) (by decide)
  have houter : (readWhole seenFromAbove [.ofPreset .cLike .default false]
      ["/r".toList, ['d']]).isSome = true := by decide +kernel
  have hinner : (readWhole seenFromAbove [.ofPreset .cLike .default false]
      [['d'], "/r".toList]).isSome = false := by decide +kernel
  have hsame := (hfree _ _ (.swap _ _ _) (.refl _)).1.mp houter
  rw [hinner] at hsame
  cases hsame

end Builder
end ProtectedRegions
