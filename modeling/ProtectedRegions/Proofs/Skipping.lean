import ProtectedRegions.Proofs.Overlapping

/-
  Skipping — what is lost where a root is passed over

  A root that lies in one that was read is passed over. What was read of the outer root is
  not looked at again: which of its files a filter let through, and which parsers took
  them, was decided when it was read, by the paths that it gave to its files. A file can
  be passed over with the inner root that was never read.

  What is left is this. Every file below the inner root is listed below the outer one as
  well, by a path of its own. If that path gets past the filter that the outer root was
  read with, and past the filter of a parser, then what the parser finds in the file is in
  the pool. Both conditions are needed.

  What is proved:
    1. `exists_readBefore` — a place is only visited because a root was read there.
    2. `found_subset_after` — what is found below a root that was read stays in the pool.
    3. `skip_keeps` — what the pool has of the files below a root that is passed over.
    4. `not_forall_skip_keeps` and `not_skip_keeps_spelled` — a region can be lost, by a
       filter of the outer root and by that of a parser.
-/

namespace ProtectedRegions

namespace Pool

theorem captures_subset_of_prefix {p q : Pool} (h : p.entries <+: q.entries) :
    p.captures ⊆ q.captures := by
  intro c hc
  obtain ⟨e, he, hcapture⟩ := Option.map_eq_some_iff.mp (show p.capture? c.id = some c from hc)
  show q.capture? c.id = some c
  rw [capture?, find?_of_prefix h he, Option.map_some, hcapture]

end Pool

namespace Builder

variable {b : Builder} {c : Call} {result : Builder × Option Refusal} {w : Workspace}
  {calls : List Call} {r : RootRead} {l : Location} {path : Text} {filter : Option Filter}

/-! ## What calls keep -/

theorem Step.captures_subset (h : Step b c result) :
    b.pool.captures ⊆ result.1.pool.captures := by
  cases h with
  | refused c e reached =>
    obtain ⟨documents, rfl⟩ := reached
    exact Pool.captures_subset_of_prefix (Pool.prefix_after _ _)
  | reads w path filter parsers unbuilt reached =>
    obtain ⟨documents, rfl⟩ := reached
    exact Pool.captures_subset_of_prefix (Pool.prefix_after _ _)
  | builds => exact Pool.captures_subset_of_prefix List.prefix_rfl
  | _ => exact Set.Subset.rfl

theorem captures_subset_after (b : Builder) (calls : List Call) :
    b.pool.captures ⊆ (b.after calls).pool.captures := by
  induction calls generalizing b with
  | nil => exact Set.Subset.rfl
  | cons c calls ih => exact (step_perform b c).captures_subset.trans (ih _)

theorem registrations_after (h : b.stage ≠ .configuring) (calls : List Call) :
    (b.after calls).registrations = b.registrations := by
  induction calls generalizing b with
  | nil => rfl
  | cons c calls ih =>
    have step := step_perform b c
    have hsame : (b.perform c).1.registrations = b.registrations := by
      by_contra hne
      exact h (step.registrations.2 hne)
    have hstage : (b.perform c).1.stage ≠ .configuring := by
      intro hconfiguring
      have hle : b.stage.rank ≤ Stage.configuring.rank := hconfiguring ▸ step.rank_le
      cases hown : b.stage with
      | configuring => exact h hown
      | reading => simp [hown, Stage.rank] at hle
      | built => simp [hown, Stage.rank] at hle
    rw [after_cons, ih hstage, hsame]

/-- A place is remembered by a read that goes through, and by nothing else. -/
theorem Step.visited_cases (h : Step b c result) : result.1.visited = b.visited ∨
    ∃ w path filter, c = .read w path filter ∧ result.2 = none ∧
      result.1.skipped = b.skipped ∧ result.1.stage = .reading ∧
      result.1.visited = b.visited ++ [w.canonical (Path.ofText path)] := by
  cases h with
  | reads w path filter => exact .inr ⟨w, path, filter, rfl, rfl, rfl, rfl, rfl⟩
  | _ => exact .inl rfl

theorem Step.ready (h : Step b (.read w path filter) result) (done : result.2 = none)
    (inv : b.InStep) : b.Ready := by
  have hopen : b.stage ≠ .built → b.pool.frozen = false := fun unbuilt => by
    simpa using mt inv.frozen.mp unbuilt
  cases h with
  | refused => cases done
  | registers r adds => exact adds.elim
  | skips w path filter reason parsers unbuilt => exact ⟨parsers, unbuilt, hopen unbuilt⟩
  | reads w path filter parsers unbuilt => exact ⟨parsers, unbuilt, hopen unbuilt⟩

/-- A root that is read is a directory, and what is below it is taken in. -/
theorem takesIn_of_enters (inv : b.InStep) (h : b.Enters w r.path r.filter) :
    w.isDirectory r.root = true ∧
      (b.perform (r.call w)).1.registrations = b.registrations ∧
      b.TakesIn w r (b.perform (r.call w)).1 := by
  obtain ⟨done, hskipped⟩ := h
  have ready := (step_perform b (r.call w)).ready done inv
  have hresult : b.perform (r.call w) = ((b.perform (r.call w)).1, none) := Prod.ext rfl done
  obtain ⟨standing, -, hregistrations, passed | taken⟩ := perform_read_done ready hresult
  · exact absurd hskipped passed.skipped
  · exact ⟨standing taken.fresh.1, hregistrations, taken⟩

/-! ## Roots that were read -/

/-- The files are the same whenever a root is read. -/
def Unchanging (w : Workspace) (calls : List Call) : Prop :=
  ∀ w' path filter, .read w' path filter ∈ calls → w' = w

/-- A root was read by one of the calls on a new builder. -/
def ReadBefore (w : Workspace) (calls : List Call) (r : RootRead) : Prop :=
  ∃ before after, calls = before ++ r.call w :: after ∧
    (new.after before).Enters w r.path r.filter

/-- A place that is visited is that of a root that was read. -/
theorem exists_readBefore (unchanging : Unchanging w calls) (hl : l ∈ (new.after calls).visited) :
    ∃ r, ReadBefore w calls r ∧ r.place w = l := by
  obtain ⟨before, c, after, hcalls, hbefore, hafter⟩ :=
    exists_call (P := fun b => l ∈ b.visited) (b := new) (by simp [new]) hl
  rcases (step_perform (new.after before) c).visited_cases with
    hsame | ⟨w', path, filter, rfl, hdone, hskipped, -, hvisited⟩
  · rw [hsame] at hafter
    exact absurd hafter hbefore
  · obtain rfl := unchanging w' path filter (by simp [hcalls])
    rw [hvisited] at hafter
    have hplace := (List.mem_append.mp hafter).resolve_left hbefore
    exact ⟨⟨path, filter⟩, ⟨before, after, hcalls, hdone, hskipped⟩,
      (List.mem_singleton.mp hplace).symm⟩

/-- A root that was read is a directory, and what was found below it is in the pool, whatever
was called since. -/
theorem found_subset_after (h : ReadBefore w calls r) : w.isDirectory r.root = true ∧
    r.found w (new.after calls).registrations ⊆ (new.after calls).pool.captures := by
  obtain ⟨before, after, rfl, henters⟩ := h
  obtain ⟨hdir, hregistrations, taken⟩ := takesIn_of_enters (inStep_new.after before) henters
  have hreading : ((new.after before).perform (r.call w)).1.stage = .reading := by
    rcases (step_perform (new.after before) (r.call w)).visited_cases with
      hsame | ⟨_, _, _, -, -, -, hreading, -⟩
    · rw [taken.visited] at hsame
      simp at hsame
    · exact hreading
  refine ⟨hdir, ?_⟩
  rw [after_append, after_cons, registrations_after (by rw [hreading]; nofun), hregistrations]
  refine Set.Subset.trans ?_ (captures_subset_after _ after)
  rw [taken.captures]
  exact Set.subset_union_right

/-! ## Roots that are passed over -/

/-- A root is passed over because it lies in one that was read. -/
def SkipsVisited (b : Builder) (w : Workspace) (r : RootRead) : Prop :=
  (b.perform (r.call w)).1.skipped = b.skipped ++ [⟨r.path, .visited⟩]

instance (b : Builder) (w : Workspace) (r : RootRead) : Decidable (b.SkipsVisited w r) :=
  inferInstanceAs (Decidable (_ = _))

theorem skipped_readFresh (b : Builder) (w : Workspace) (path : Text) (filter : Option Filter) :
    (b.readFresh w path filter).builder.skipped = b.skipped := by
  unfold readFresh
  dsimp only
  split <;> rfl

/-- What is passed over so is a directory in a place that was visited, and nothing but the
list of what was passed over is changed. -/
theorem SkipsVisited.spec (h : b.SkipsVisited w r) : w.isDirectory r.root = true ∧
    (∃ l ∈ b.visited, l <+: r.place w) ∧
    (b.perform (r.call w)).1 = { b with skipped := b.skipped ++ [⟨r.path, .visited⟩] } := by
  have hskipped : (b.read w r.path r.filter).builder.skipped =
      b.skipped ++ [⟨r.path, .visited⟩] := h
  rcases read_cases b w r.path r.filter with
    ⟨e, hread⟩ | ⟨log, hread⟩ | ⟨hdir, hvisited, log, hread⟩ | hread
  · rw [hread] at hskipped
    simp [refuse] at hskipped
  · rw [hread] at hskipped
    simp at hskipped
  · obtain ⟨l, hl, hin⟩ := List.any_eq_true.mp hvisited
    exact ⟨hdir, ⟨l, hl, List.isPrefixOf_iff_prefix.mp hin⟩, congrArg Attempt.builder hread⟩
  · rw [hread, skipped_readFresh] at hskipped
    simp at hskipped

/-- A file below an inner root is listed below the outer one, at the same place, with the
same text. -/
theorem listed_below_outer (tree : w.IsTree) {outer inner q : Path} (normal : outer.Normal)
    (normal' : inner.Normal) (hdir : w.isDirectory outer = true)
    (hdir' : w.isDirectory inner = true) (hin : w.destination outer <+: w.destination inner)
    (hq : q ∈ w.listFiles inner filter) :
    ∃ q' ∈ w.listFiles outer none, w.locate q' = w.locate q ∧
      ∀ t, w.readText q.text = .ok t → w.readText q'.text = .ok t := by
  obtain ⟨way, hway⟩ := hin
  obtain ⟨names, bytes, hne, hfile, rfl, -, hnormal, hat⟩ :=
    (Reading.mem_listFiles_filter_iff tree normal' hdir').mp hq
  have hnamed : ∀ name ∈ way ++ names, Path.IsName name := by
    rw [← hway, List.append_assoc] at hfile
    exact fun name hname => tree.named _ _ (Workspace.file?_eq_some_iff.mp hfile) name
      (List.mem_append_right _ hname)
  have hfile' : w.file? (w.destination outer ++ (way ++ names)) = some bytes := by
    rwa [← List.append_assoc, hway]
  have hne' : way ++ names ≠ [] := by simp [hne]
  obtain ⟨hnormal', hat'⟩ := Reading.file_below tree normal hdir hne' hfile'
  refine ⟨outer.append (way ++ names), (Reading.mem_listFiles_filter_iff tree normal hdir).mpr
    ⟨_, bytes, hne', hfile', rfl, nofun, hnormal', hat'⟩, ?_, fun t ht => ?_⟩
  · have hto : ∀ {p : Path}, p.Normal → w.at? p = some (.file bytes) →
        w.locate p = .ok (w.destination p) := fun hp hatp =>
      (Workspace.locate_eq_ok_iff hp).mpr ⟨rfl, ((Workspace.at?_eq_some_iff hp).mp hatp).1⟩
    rw [hto hnormal hat, hto hnormal' hat', Workspace.destination_append hnamed,
      Workspace.destination_append fun name hname => hnamed name (List.mem_append_right _ hname),
      ← hway, List.append_assoc]
  · rw [Reading.readText_eq_ok_iff tree hnormal hat] at ht
    exact (Reading.readText_eq_ok_iff tree hnormal' hat').mpr ht

theorem mem_listFiles_of_accepts (tree : w.IsTree) {root q : Path} (normal : root.Normal)
    (hdir : w.isDirectory root = true) (hq : q ∈ w.listFiles root none)
    (haccepts : ∀ f, filter = some f → f.accepts q.text = true) : q ∈ w.listFiles root filter := by
  obtain ⟨names, bytes, hne, hfile, rfl, -, hnormal, hat⟩ :=
    (Reading.mem_listFiles_filter_iff tree normal hdir).mp hq
  exact (Reading.mem_listFiles_filter_iff tree normal hdir).mpr
    ⟨names, bytes, hne, hfile, rfl, haccepts, hnormal, hat⟩

/-- A root that is passed over lies in one that was read, and the pool is left as it is. Let
both roots lead to the places that they are remembered by. Then every file that would be
listed below the inner root was listed below the outer one, as long as the outer root's filter
accepts the path that it has there. What a parser would find in the file is in the pool, with
the same body, if the parser is for that path as well. -/
theorem skip_keeps (tree : w.IsTree) (unchanging : Unchanging w calls)
    (skips : (new.after calls).SkipsVisited w r) :
    (∃ outer, ReadBefore w calls outer ∧ outer.place w <+: r.place w) ∧
    ((new.after calls).perform (r.call w)).1.pool = (new.after calls).pool ∧
    ∀ outer, ReadBefore w calls outer → outer.place w <+: r.place w →
      outer.place w = w.destination outer.root → r.place w = w.destination r.root →
      ∀ q ∈ w.listFiles r.root r.filter, ∃ q' ∈ w.listFiles outer.root none,
        w.locate q' = w.locate q ∧ ∀ x ∈ (new.after calls).registrations,
          (∀ f, outer.filter = some f → f.accepts q'.text = true) →
          x.filter.accepts q'.text = true →
          ∀ c ∈ Reading.captures w [x] q.text,
            (new.after calls).pool.body? c.id = some c.body := by
  obtain ⟨hdir, ⟨l, hl, hin⟩, hnext⟩ := skips.spec
  refine ⟨?_, by rw [hnext], ?_⟩
  · obtain ⟨outer, hbefore, rfl⟩ := exists_readBefore unchanging hl
    exact ⟨outer, hbefore, hin⟩
  · intro outer hbefore hin hplace hplace' q hq
    obtain ⟨hdir', hfound⟩ := found_subset_after hbefore
    rw [hplace, hplace'] at hin
    obtain ⟨q', hq', hlocate, htext⟩ := listed_below_outer tree (Path.normal_ofText outer.path)
      (Path.normal_ofText r.path) hdir' hdir hin hq
    refine ⟨q', hq', hlocate, fun x hx hfilter haccepts c hc => ?_⟩
    obtain ⟨t, ht, p, hp, d, hd, s, hs, hid, hbody, -⟩ := hc
    obtain ⟨x', hx', -, rfl⟩ := Reading.mem_parsersFor.mp hp
    obtain rfl := List.mem_singleton.mp hx'
    have hcapture : (⟨c.id, c.body, some q'.text⟩ : Capture) ∈
        outer.found w (new.after calls).registrations :=
      ⟨q', mem_listFiles_of_accepts tree (Path.normal_ofText outer.path) hdir' hq' hfilter, t,
        htext t ht, x'.parser, Reading.mem_parsersFor.mpr ⟨x', hx, haccepts, rfl⟩, d, hd, s, hs,
        hid, hbody, rfl⟩
    exact Pool.body?_of_mem (c := ⟨c.id, c.body, some q'.text⟩) (hfound hcapture)

def equipped (x : Registration) : List Call := [.addParser (some x.parser) (some x.filter)]

def readWith (w : Workspace) (x : Registration) (outer : RootRead) : List Call :=
  equipped x ++ [outer.call w]

variable {x : Registration} {outer : RootRead}

theorem unchanging_readWith : Unchanging w (readWith w x outer) := by
  intro w' path filter hread
  simp only [readWith, equipped, RootRead.call, List.cons_append, List.nil_append, List.mem_cons,
    List.not_mem_nil, or_false, reduceCtorEq, false_or, Call.read.injEq] at hread
  exact hread.1

theorem readBefore_readWith (h : (new.after (equipped x)).Enters w outer.path outer.filter) :
    ReadBefore w (readWith w x outer) outer := ⟨equipped x, [], rfl, h⟩

theorem registrations_readWith (h : (new.after (equipped x)).Enters w outer.path outer.filter) :
    (new.after (readWith w x outer)).registrations = [x] :=
  (takesIn_of_enters (inStep_new.after (equipped x)) h).2.1

theorem mem_found_of_capture? (h : (new.after (equipped x)).Enters w r.path r.filter) {c : Capture}
    (hc : (new.after (readWith w x r)).pool.capture? c.id = some c) : c ∈ r.found w [x] := by
  obtain ⟨-, -, taken⟩ := takesIn_of_enters (inStep_new.after (equipped x)) h
  have hmem : c ∈ (new.after (readWith w x r)).pool.captures := hc
  rw [show (new.after (readWith w x r)).pool.captures =
    Pool.empty.captures ∪ r.found w [x] from taken.captures, Pool.captures_empty,
    Set.empty_union] at hmem
  exact hmem

def cLikeForAll : Registration := ⟨.all, .ofPreset .cLike .default false⟩

/-- The files of one kind below the outer directory. -/
def outerPhp : RootRead := ⟨['o'], some (.globs ["*.php".toList] (by decide))⟩

/-- The inner directory is passed over with all its files, and what is in them is in the
pool. -/
theorem skip_keeps_nested :
    (new.after (readWith nested cLikeForAll outerPhp)).SkipsVisited nested (whole "o/d".toList) ∧
    (new.after (readWith nested cLikeForAll outerPhp)).pool.body? ['A'] = some ['x', '\n'] ∧
    ∀ q ∈ nested.listFiles (Path.ofText "o/d".toList) none,
      ∀ c ∈ Reading.captures nested [cLikeForAll] q.text,
        (new.after (readWith nested cLikeForAll outerPhp)).pool.body? c.id = some c.body := by
  have tree : nested.IsTree := by decide +kernel
  have skips : (new.after (readWith nested cLikeForAll outerPhp)).SkipsVisited nested
      (whole "o/d".toList) := by decide +kernel
  have enters : (new.after (equipped cLikeForAll)).Enters nested outerPhp.path outerPhp.filter :=
    ⟨Option.isNone_iff_eq_none.mp (by decide +kernel), by decide +kernel⟩
  obtain ⟨-, -, hkeeps⟩ := skip_keeps tree unchanging_readWith skips
  refine ⟨skips, by decide +kernel, fun q hq => ?_⟩
  obtain ⟨q', hq', -, hcaptured⟩ := hkeeps outerPhp (readBefore_readWith enters)
    (by decide +kernel) (by decide +kernel) (by decide +kernel) q hq
  have hphp : ∀ q' ∈ nested.listFiles (Path.ofText ['o']) none, ∀ f, outerPhp.filter = some f →
      f.accepts q'.text = true := by
    rintro q' hq' f hf
    obtain rfl := Option.some.inj hf
    revert q'
    decide +kernel
  have hx : cLikeForAll ∈ (new.after (readWith nested cLikeForAll outerPhp)).registrations := by
    rw [registrations_readWith enters]
    exact List.mem_cons_self
  exact hcaptured cLikeForAll hx (hphp q' hq') rfl

def noFiles : RootRead := ⟨['d'], some (.extensions [".txt".toList] (by decide))⟩

/-- A region can be lost: its file is passed over with a root that was read with a filter
for other files. -/
theorem not_forall_skip_keeps :
    ¬ ∀ (w : Workspace) (calls : List Call) (r : RootRead), w.IsTree → Unchanging w calls →
      (new.after calls).SkipsVisited w r →
      ∀ c ∈ r.found w (new.after calls).registrations,
        (new.after calls).pool.body? c.id = some c.body := by
  intro hall
  have enters : (new.after (equipped cLikeForAll)).Enters seenFromAbove noFiles.path
      noFiles.filter := ⟨Option.isNone_iff_eq_none.mp (by decide +kernel), by decide +kernel⟩
  have enters' : (new.after (equipped cLikeForAll)).Enters seenFromAbove (whole ['d']).path none :=
    ⟨Option.isNone_iff_eq_none.mp (by decide +kernel), by decide +kernel⟩
  have hfound : (⟨['A'], ['x', '\n'], some "d/a".toList⟩ : Capture) ∈
      (whole ['d']).found seenFromAbove [cLikeForAll] :=
    mem_found_of_capture? enters' (by decide +kernel)
  have hbody := hall seenFromAbove (readWith seenFromAbove cLikeForAll noFiles) (whole ['d'])
    (by decide) unchanging_readWith (by decide +kernel)
  rw [registrations_readWith enters] at hbody
  have hnone : (new.after (readWith seenFromAbove cLikeForAll noFiles)).pool.body? ['A'] = none := by
    decide +kernel
  have hsome := hbody _ hfound
  rw [hnone] at hsome
  cases hsome

/-- The parser for the files in a directory, by its relative path. -/
def cLikeForDirectory : Registration :=
  ⟨.globs ["d/*".toList] (by decide), .ofPreset .cLike .default false⟩

/-- A region can be lost without a filter for a root as well: a parser is for the file by the
path that the inner root gives to it, and not by that of the outer root. -/
theorem not_skip_keeps_spelled :
    (new.after (readWith seenFromAbove cLikeForDirectory (whole "/r".toList))).SkipsVisited
      seenFromAbove (whole ['d']) ∧
    ∃ c ∈ (whole ['d']).found seenFromAbove [cLikeForDirectory],
      (new.after (readWith seenFromAbove cLikeForDirectory (whole "/r".toList))).pool.body? c.id =
        none := by
  have enters : (new.after (equipped cLikeForDirectory)).Enters seenFromAbove (whole ['d']).path
      none := ⟨Option.isNone_iff_eq_none.mp (by decide +kernel), by decide +kernel⟩
  exact ⟨by decide +kernel, ⟨['A'], ['x', '\n'], some "d/a".toList⟩,
    mem_found_of_capture? enters (by decide +kernel), by decide +kernel⟩

end Builder
end ProtectedRegions
