import ProtectedRegions.Proofs.Tree

/-
  Writing — what putting one file in its place does to a tree

  A write makes the directories on the way to a file and then the file. It is
  refused when something is in the way: a file where a directory has to be, a
  directory where the file has to be, or the path's own way, which can pass the
  place that it leads to. A refused write may have made directories; it has
  changed no file.

  What is proved:
    1. `makes_makeDirectories` — directories are made where the path passes and
       nowhere else, and only a file can keep that from happening.
    2. `write_of_blocked` — a write that something is in the way of is refused,
       and every file is as it was.
    3. `write_of_free` — any other write succeeds: the file is there, and every
       other file is as it was.
-/

namespace ProtectedRegions
namespace Workspace

variable {w w' : Workspace} {l : Location} {p : Path}

/-! ## Trees that grow -/

/-- Two workspaces stand in the same environment. -/
structure SameEnvironment (w w' : Workspace) : Prop where
  current : w'.current = w.current
  home : w'.home = w.home
  configVariable : w'.configVariable = w.configVariable

namespace SameEnvironment

theorem refl (w : Workspace) : w.SameEnvironment w := ⟨rfl, rfl, rfl⟩

theorem trans {w'' : Workspace} (h : w.SameEnvironment w') (h' : w'.SameEnvironment w'') :
    w.SameEnvironment w'' :=
  ⟨h'.current.trans h.current, h'.home.trans h.home, h'.configVariable.trans h.configVariable⟩

theorem put (w : Workspace) (l : Location) (e : Entry) : w.SameEnvironment (w.put l e) :=
  ⟨rfl, rfl, rfl⟩

theorem start (h : w.SameEnvironment w') (p : Path) : w'.start p = w.start p := by
  unfold Workspace.start
  rw [h.current]

theorem destination (h : w.SameEnvironment w') (p : Path) :
    w'.destination p = w.destination p := by
  unfold Workspace.destination
  rw [h.start]

theorem way (h : w.SameEnvironment w') (p : Path) : w'.way p = w.way p := by
  unfold Workspace.way
  rw [h.start]

end SameEnvironment

/-- Everything of the first tree is in the second, which has more directories at
most. -/
structure Grows (w w' : Workspace) : Prop where
  same : w.SameEnvironment w'
  tree : w'.IsTree
  directory : ∀ l, w.lookup? l = some .directory → w'.lookup? l = some .directory
  file : ∀ l, w'.file? l = w.file? l

theorem Grows.refl (tree : w.IsTree) : w.Grows w :=
  ⟨.refl w, tree, fun _ h => h, fun _ => rfl⟩

theorem Grows.trans {w'' : Workspace} (h : w.Grows w') (h' : w'.Grows w'') : w.Grows w'' where
  same := h.same.trans h'.same
  tree := h'.tree
  directory := fun l hl => h'.directory l (h.directory l hl)
  file := fun l => (h'.file l).trans (h.file l)

theorem file?_put {e : Entry} (h : l ≠ []) (m : Location) :
    (w.put l e).file? m = if m = l then (match e with
      | .file bytes => some bytes
      | .directory => none) else w.file? m := by
  unfold file?
  by_cases hm : m = l
  · subst hm
    rw [lookup_put h, if_pos rfl]
    cases e <;> rfl
  · rw [lookup_put_of_ne hm, if_neg hm]

theorem directory_put {e : Entry} (hfree : w.lookup? l ≠ some .directory) {m : Location}
    (hm : w.lookup? m = some .directory) : (w.put l e).lookup? m = some .directory := by
  rwa [lookup_put_of_ne]
  rintro rfl
  exact hfree hm

theorem IsTree.put (tree : w.IsTree) {parent : Location} {name : Text} (hname : Path.IsName name)
    (hparent : w.lookup? parent = some .directory)
    (hfree : w.lookup? (parent ++ [name]) ≠ some .directory) (e : Entry) :
    (w.put (parent ++ [name]) e).IsTree := by
  refine ⟨?_, ?_, directory_put hfree tree.current⟩
  · intro m e' hm n hn
    by_cases heq : m = parent ++ [name]
    · subst heq
      rcases List.mem_append.mp hn with hn | hn
      · exact tree.named _ _ hparent n hn
      · exact List.mem_singleton.mp hn ▸ hname
    · rw [lookup_put_of_ne heq] at hm
      exact tree.named _ _ hm n hn
  · intro m e' hm
    by_cases heq : m = parent ++ [name]
    · subst heq
      rw [List.dropLast_concat]
      exact directory_put hfree hparent
    · rw [lookup_put_of_ne heq] at hm
      exact directory_put hfree (tree.above _ _ hm)

/-- A path whose way is there leads into a directory, or to one. -/
theorem IsTree.destination_cases (tree : w.IsTree) (normal : p.Normal)
    (hway : ∀ k ∈ w.way p, w.lookup? k = some .directory) :
    w.lookup? (w.destination p) = some .directory ∨ ∃ parent name, Path.IsName name ∧
      w.lookup? parent = some .directory ∧ w.destination p = parent ++ [name] := by
  obtain ⟨root, parts⟩ := p
  rcases List.eq_nil_or_concat' parts with rfl | ⟨above, part, rfl⟩
  · exact .inl (tree.start _)
  · have hsplit : w.destination ⟨root, above ++ [part]⟩ = step (w.destination ⟨root, above⟩) part :=
      resolve_append _ above [part]
    have habove : w.lookup? (w.destination ⟨root, above⟩) = some .directory := by
      refine hway _ ?_
      have := way_append w ⟨root, above⟩ [part]
      rw [Path.append] at this
      rw [this]
      exact List.mem_append_right _ List.mem_cons_self
    rw [hsplit, step]
    split
    · exact .inl (tree.above _ _ habove)
    · next hup =>
      exact .inr ⟨_, part, ⟨normal.parts part (by simp), hup⟩, habove, rfl⟩

theorem IsTree.put_destination (tree : w.IsTree) (normal : p.Normal)
    (hway : ∀ k ∈ w.way p, w.lookup? k = some .directory)
    (hfree : w.lookup? (w.destination p) ≠ some .directory) (e : Entry) :
    (w.put (w.destination p) e).IsTree ∧ w.destination p ≠ [] := by
  rcases tree.destination_cases normal hway with hdir | ⟨parent, name, hname, hparent, heq⟩
  · exact absurd hdir hfree
  · rw [heq] at hfree ⊢
    exact ⟨tree.put hname hparent hfree e, by simp⟩

/-! ## Making directories -/

/-- The locations that a path passes and the one it comes to. -/
def stops (w : Workspace) (p : Path) : List Location := w.way p ++ [w.destination p]

theorem SameEnvironment.stops (h : w.SameEnvironment w') (p : Path) : w'.stops p = w.stops p := by
  unfold Workspace.stops
  rw [h.way, h.destination]

theorem way_append_singleton (w : Workspace) (p : Path) (part : Text) :
    w.way (p.append [part]) = w.stops p := by
  rw [way_append]
  rfl

/-- What making the directories of a path comes to. -/
structure Makes (w : Workspace) (p : Path) (r : Workspace × Option DiskError) : Prop where
  grows : w.Grows r.1
  made : ∀ l, r.1.lookup? l = w.lookup? l ∨ l ∈ w.stops p
  done : r.2 = none → ∀ l ∈ w.stops p, r.1.lookup? l = some .directory
  barred : r.2 ≠ none → ∃ l ∈ w.stops p, ∃ bytes, w.file? l = some bytes

/-- A directory whose way is there is made, is there already, or is a file. -/
theorem ensureDirectory_of_way (normal : p.Normal)
    (hway : ∀ k ∈ w.way p, w.lookup? k = some .directory) :
    w.ensureDirectory p = match w.lookup? (w.destination p) with
      | none => .ok (w.put (w.destination p) .directory)
      | some .directory => .ok w
      | some (.file _) => .error .exists := by
  have hlocate := (locate_eq_ok_iff normal).mpr ⟨rfl, hway⟩
  unfold ensureDirectory makeDirectory isDirectory at?
  rw [hlocate]
  cases hl : w.lookup? (w.destination p) with
  | none => simp [hl]
  | some e => cases e <;> simp [hl]

theorem ensureDirectory_of_locate {fault : DiskFault} (h : w.locate p = .error fault) :
    w.ensureDirectory p = .error fault := by
  unfold ensureDirectory makeDirectory isDirectory at?
  rw [h]
  cases fault <;> rfl

theorem makes_put (tree : w.IsTree) (normal : p.Normal)
    (hway : ∀ k ∈ w.way p, w.lookup? k = some .directory)
    (hfree : w.lookup? (w.destination p) = none) :
    w.Makes p (w.put (w.destination p) .directory, none) := by
  obtain ⟨htree, hne⟩ := tree.put_destination normal hway (by simp [hfree]) .directory
  have hkeep : ∀ l, w.lookup? l = some .directory →
      (w.put (w.destination p) .directory).lookup? l = some .directory :=
    fun _ => directory_put (by simp [hfree])
  refine ⟨⟨.put w _ _, htree, hkeep, ?_⟩, ?_, ?_, fun h => absurd rfl h⟩
  · intro l
    rw [file?_put hne]
    split
    · next heq => rw [heq, file?, hfree]
    · rfl
  · intro l
    by_cases heq : l = w.destination p
    · exact .inr (by simp [stops, heq])
    · exact .inl (lookup_put_of_ne heq)
  · intro _ l hl
    rcases List.mem_append.mp hl with hl | hl
    · exact hkeep l (hway l hl)
    · rw [List.mem_singleton.mp hl]
      exact lookup_put hne

/-- A directory is made, or not: where the way is there, or the fault is another
than that something is missing, a file keeps it from being made. -/
theorem ensureDirectory_cases (tree : w.IsTree) (normal : p.Normal) :
    (∃ w', w.ensureDirectory p = .ok w' ∧ w.Makes p (w', none)) ∨
    ∃ fault, w.ensureDirectory p = .error fault ∧
      ((∀ k ∈ w.way p, w.lookup? k = some .directory) ∨ fault ≠ .notFound →
        ∃ l ∈ w.stops p, ∃ bytes, w.file? l = some bytes) := by
  cases hlocate : w.locate p with
  | error fault =>
    refine .inr ⟨fault, ensureDirectory_of_locate hlocate, ?_⟩
    rintro (hway | hfault)
    · rw [(locate_eq_ok_iff normal).mpr ⟨rfl, hway⟩] at hlocate
      cases hlocate
    · rcases walk_eq_error normal.parts hlocate with hmissing | ⟨-, k, hk, hfile⟩
      · exact absurd hmissing hfault
      · exact ⟨k, List.mem_append_left _ hk, hfile⟩
  | ok m =>
    obtain ⟨rfl, hway⟩ := (locate_eq_ok_iff normal).mp hlocate
    rw [ensureDirectory_of_way normal hway]
    cases hl : w.lookup? (w.destination p) with
    | none => exact .inl ⟨_, rfl, makes_put tree normal hway hl⟩
    | some e =>
      cases e with
      | directory =>
        refine .inl ⟨w, rfl, .refl tree, fun _ => .inl rfl, ?_, fun h => absurd rfl h⟩
        intro _ l h
        rcases List.mem_append.mp h with h | h
        · exact hway l h
        · rw [List.mem_singleton.mp h, hl]
      | file bytes =>
        exact .inr ⟨.exists, rfl, fun _ =>
          ⟨w.destination p, by simp [stops], bytes, file?_eq_some_iff.mpr hl⟩⟩

/-- A directory that was not made because of a file, when those above it are
there or some of them were made. -/
theorem Makes.refused {w₁ : Workspace} {q : Path} {outcome : Option DiskError}
    (h : w.Makes q (w₁, outcome)) (hstops : ∀ l ∈ w.stops q, l ∈ w.stops p)
    (hbarred : ∃ l ∈ w.stops p, ∃ bytes, w.file? l = some bytes) (e : DiskError) :
    w.Makes p (w₁, some e) where
  grows := h.grows
  made := fun l => (h.made l).imp_right (hstops l)
  done := by simp
  barred := fun _ => hbarred

theorem Makes.trans {w₁ w₂ : Workspace} {q : Path} (h : w.Makes q (w₁, none))
    (hstops : ∀ l ∈ w.stops q, l ∈ w.stops p) (h' : w₁.Makes p (w₂, none)) :
    w.Makes p (w₂, none) where
  grows := h.grows.trans h'.grows
  made := by
    intro l
    rcases h'.made l with hsame | hl
    · rcases h.made l with hsame' | hl
      · exact .inl (hsame.trans hsame')
      · exact .inr (hstops l hl)
    · rw [h.grows.same.stops] at hl
      exact .inr hl
  done := by
    intro _ l hl
    exact h'.done rfl l (by rwa [h.grows.same.stops])
  barred := fun hne => absurd rfl hne

/-- Directories are made where the path passes and nowhere else, and only a file
can keep that from happening. -/
theorem makes_makeDirectories (tree : w.IsTree) (root : Text) (parts : List Text)
    (normal : Path.Normal ⟨root, parts.reverse⟩) :
    w.Makes ⟨root, parts.reverse⟩ (w.makeDirectories root parts) := by
  -- on the parts, the last first, as they are tried
  induction parts with
  | nil =>
    rw [makeDirectories]
    rcases ensureDirectory_cases tree normal with ⟨w', hok, makes⟩ | ⟨fault, -, hfault⟩
    · rw [List.reverse_nil] at hok makes ⊢
      rw [hok]
      exact makes
    · obtain ⟨l, hl, bytes, hfile⟩ := hfault (.inl fun k hk => by cases hk)
      obtain rfl := List.mem_singleton.mp hl
      have hstart := tree.start ⟨root, [].reverse⟩
      rw [file?_eq_some_iff] at hfile
      cases hstart.symm.trans hfile
  | cons part above ih =>
    have hreverse : Path.mk root (part :: above).reverse =
        (Path.mk root above.reverse).append [part] := by
      simp [Path.append]
    have hway : w.way ⟨root, (part :: above).reverse⟩ = w.stops ⟨root, above.reverse⟩ := by
      rw [hreverse, way_append_singleton]
    have hstops : ∀ l ∈ w.stops ⟨root, above.reverse⟩, l ∈ w.stops ⟨root, (part :: above).reverse⟩ :=
      fun l hl => List.mem_append_left _ (hway ▸ hl)
    have ih := ih ⟨normal.root, fun q hq => normal.parts q (by
      rw [List.reverse_cons]
      exact List.mem_append_left _ hq)⟩
    rw [makeDirectories]
    rcases ensureDirectory_cases tree normal with ⟨w', hok, makes⟩ | ⟨fault, herror, hfault⟩
    · rw [hok]
      exact makes
    rw [herror]
    by_cases hmissing : fault = .notFound
    · subst hmissing
      simp only
      generalize w.makeDirectories root above = r at ih
      obtain ⟨w₁, outcome⟩ := r
      cases outcome with
      | some e =>
        obtain ⟨l, hl, hfile⟩ := ih.barred (by simp)
        exact ih.refused hstops ⟨l, hstops l hl, hfile⟩ e
      | none =>
        have hsame := ih.grows.same
        simp only
        rcases ensureDirectory_cases ih.grows.tree normal with
          ⟨w₂, hok, makes⟩ | ⟨fault, herror, hfault⟩
        · rw [hok]
          exact ih.trans hstops makes
        · rw [herror]
          obtain ⟨l, hl, bytes, hfile⟩ := hfault (.inl fun k hk =>
            ih.done rfl k (by rwa [hsame.way, hway] at hk))
          rw [hsame.stops] at hl
          rw [ih.grows.file] at hfile
          exact ih.refused hstops ⟨l, hl, bytes, hfile⟩ _
    · have hbarred := hfault (.inr hmissing)
      have hnothing : w.Makes ⟨root, (part :: above).reverse⟩
          (w, some ⟨fault, Path.text ⟨root, (part :: above).reverse⟩⟩) :=
        ⟨.refl tree, fun _ => .inl rfl, by simp, fun _ => hbarred⟩
      cases fault with
      | notFound => exact absurd rfl hmissing
      | _ => exact hnothing

/-! ## Writing a file -/

/-- Something is in the way of a file: a file where the path passes, a directory
at its destination, or its own way. -/
def Blocked (w : Workspace) (p : Path) : Prop :=
  (∃ l ∈ w.way p, w.file? l ≠ none) ∨ w.lookup? (w.destination p) = some .directory ∨
    w.destination p ∈ w.way p

instance (w : Workspace) (p : Path) : Decidable (w.Blocked p) :=
  inferInstanceAs (Decidable (_ ∨ _ ∨ _))

/-- The second tree is the first with a file in its place, in directories that
are there or were made. -/
structure Places (w : Workspace) (p : Path) (bytes : ByteArray) (w' : Workspace) : Prop where
  same : w.SameEnvironment w'
  tree : w'.IsTree
  directory : ∀ l, w.lookup? l = some .directory → w'.lookup? l = some .directory
  made : ∀ l, w'.lookup? l = some .directory → w.lookup? l = some .directory ∨ l ∈ w.way p
  way : ∀ l ∈ w.way p, w'.lookup? l = some .directory
  file : ∀ l, w'.file? l = if l = w.destination p then some bytes else w.file? l

/-- The directories above a file are those on its way; a path without parts has
none above it but itself. -/
theorem stops_parent (w : Workspace) (hparts : p.parts ≠ []) : w.stops p.parent = w.way p := by
  obtain ⟨root, parts⟩ := p
  obtain ⟨above, part, rfl⟩ := (List.eq_nil_or_concat' parts).resolve_left hparts
  have h := way_append_singleton w ⟨root, above⟩ part
  rw [Path.append] at h
  rw [h, Path.parent]
  simp

theorem makes_parent (tree : w.IsTree) (normal : p.Normal) :
    w.Makes p.parent (w.makeDirectories p.root p.parent.parts.reverse) := by
  have h := makes_makeDirectories tree p.root p.parent.parts.reverse
  rw [List.reverse_reverse] at h
  exact h normal.parent

theorem parts_ne_nil_of_free (tree : w.IsTree) (h : ¬ w.Blocked p) : p.parts ≠ [] := by
  intro hnil
  refine h (.inr (.inl ?_))
  unfold destination
  rw [hnil]
  exact tree.start p

theorem Makes.way_done {w₁ : Workspace} (h : w.Makes p.parent (w₁, none)) :
    ∀ l ∈ w.way p, w₁.lookup? l = some .directory := by
  intro l hl
  have hparts : p.parts ≠ [] := by
    intro hnil
    rw [way, hnil] at hl
    cases hl
  rw [← stops_parent w hparts] at hl
  exact h.done rfl l hl

/-- With the directories on its way in place a file is put at its destination,
unless a directory is there. -/
theorem overwrite_of_way (normal : p.Normal) (hway : ∀ l ∈ w.way p, w.lookup? l = some .directory)
    (bytes : ByteArray) :
    w.overwrite p bytes = if w.lookup? (w.destination p) = some .directory
      then (w, some ⟨.isDirectory, p.text⟩) else (w.put (w.destination p) (.file bytes), none) := by
  unfold overwrite
  rw [(locate_eq_ok_iff normal).mpr ⟨rfl, hway⟩]
  cases hl : w.lookup? (w.destination p) with
  | none => simp [hl]
  | some e => cases e <;> simp [hl]

theorem write_of_blocked (tree : w.IsTree) (normal : p.Normal) (h : w.Blocked p)
    (bytes : ByteArray) : ∃ w' e, w.write p bytes = (w', some e) ∧ w.Grows w' := by
  have hmakes := makes_parent tree normal
  unfold write
  generalize w.makeDirectories p.root p.parent.parts.reverse = r at hmakes
  obtain ⟨w₁, outcome⟩ := r
  cases outcome with
  | some e => exact ⟨w₁, e, rfl, hmakes.grows⟩
  | none =>
    have hsame := hmakes.grows.same
    have hway := hmakes.way_done
    have hdirectory : w₁.lookup? (w₁.destination p) = some .directory := by
      rw [hsame.destination]
      rcases h with ⟨l, hl, hfile⟩ | hdirectory | hown
      · -- a file on the way would have kept the directories from being made
        refine absurd ?_ hfile
        rw [← hmakes.grows.file l, file?, hway l hl]
      · exact hmakes.grows.directory _ hdirectory
      · exact hway _ hown
    simp only
    rw [overwrite_of_way normal (by rwa [hsame.way]), if_pos hdirectory]
    exact ⟨w₁, _, rfl, hmakes.grows⟩

theorem write_of_free (tree : w.IsTree) (normal : p.Normal) (h : ¬ w.Blocked p)
    (bytes : ByteArray) : ∃ w', w.write p bytes = (w', none) ∧ w.Places p bytes w' := by
  have hmakes := makes_parent tree normal
  have hstops := stops_parent w (parts_ne_nil_of_free tree h)
  unfold write
  generalize w.makeDirectories p.root p.parent.parts.reverse = r at hmakes
  obtain ⟨w₁, outcome⟩ := r
  cases outcome with
  | some e =>
    obtain ⟨l, hl, bytes, hfile⟩ := hmakes.barred (by simp)
    rw [hstops] at hl
    exact absurd (.inl ⟨l, hl, by simp [hfile]⟩) h
  | none =>
    have hsame := hmakes.grows.same
    have hway := hmakes.way_done
    have hway₁ : ∀ l ∈ w₁.way p, w₁.lookup? l = some .directory := by rwa [hsame.way]
    have hfree : w₁.lookup? (w.destination p) ≠ some .directory := by
      intro hdirectory
      rcases hmakes.made (w.destination p) with hold | hnew
      · exact h (.inr (.inl (hold.symm.trans hdirectory)))
      · exact h (.inr (.inr (hstops ▸ hnew)))
    obtain ⟨htree, hne⟩ := hmakes.grows.tree.put_destination normal hway₁
      (by rwa [hsame.destination]) (.file bytes)
    rw [hsame.destination] at htree hne
    have hkeep : ∀ l, w₁.lookup? l = some .directory →
        (w₁.put (w.destination p) (.file bytes)).lookup? l = some .directory :=
      fun _ => directory_put hfree
    simp only
    rw [overwrite_of_way normal hway₁, hsame.destination, if_neg hfree]
    refine ⟨_, rfl, hsame.trans (.put _ _ _), htree, ?_, ?_, ?_, ?_⟩
    · exact fun l hl => hkeep l (hmakes.grows.directory l hl)
    · intro l hl
      have hold : w₁.lookup? l = some .directory := by
        by_cases heq : l = w.destination p
        · rw [heq, lookup_put hne] at hl
          cases hl
        · rwa [lookup_put_of_ne heq] at hl
      rcases hmakes.made l with hsame | hnew
      · exact .inl (hsame.symm.trans hold)
      · exact .inr (hstops ▸ hnew)
    · exact fun l hl => hkeep l (hway l hl)
    · intro l
      rw [file?_put hne, hmakes.grows.file]

end Workspace
end ProtectedRegions
