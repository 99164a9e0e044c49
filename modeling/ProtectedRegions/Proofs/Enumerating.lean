import Mathlib.Data.List.Lex
import Mathlib.Data.List.Sort
import ProtectedRegions.Proofs.Tree

/-
  Enumerating — the files below a directory, each once and in order

  A listing is the accepted files below a directory, sorted by the names that lead to
  them: name by name, and not by the texts of the paths. The slash between the names is a
  character like any other in such a text, and comes behind the dot, so the texts can be
  in another order (`a.txt` and `a/b`). The order of the names keeps together what is in
  one directory. The files in front of a directory's block are those whose names are less
  than the way to it, as no names that lead into a directory are less than the way there;
  the files behind are those that are greater and do not follow it.

  What is proved:
    1. `pairwise_namesBelow` — the names of the files below a place increase.
    2. `namesBelow_eq_append` — what is in one directory is one block of them.
    3. `listing_eq_append` — what is in one directory is one block of a listing.
    4. `listing_enumerates` — which files a listing has, in which order, what a filter
       does to it, and where the files of a directory are in it.
-/

namespace ProtectedRegions
namespace Workspace

variable {w : Workspace} {l : Location} {way names : List Text} {path : Text}
  {filter : Option Filter}

/-! ## The order of names -/

theorem namesLe_iff {a b : List Text} : namesLe a b = true ↔ ¬ b < a := by
  simp [namesLe]

theorem namesLe_trans (a b c : List Text) (hab : namesLe a b = true) (hbc : namesLe b c = true) :
    namesLe a c = true := by
  rw [namesLe_iff, List.not_lt] at *
  exact List.le_trans hab hbc

theorem namesLe_total (a b : List Text) : (namesLe a b || namesLe b a) = true := by
  rw [Bool.or_eq_true, namesLe_iff, namesLe_iff]
  exact (List.le_total a b).imp List.not_lt.mpr List.not_lt.mpr

theorem lt_of_not_lt_of_ne {a b : List Text} (h : ¬ b < a) (hne : a ≠ b) : a < b :=
  (List.le_iff_lt_or_eq.mp (List.not_lt.mp h)).resolve_right hne

theorem not_prefix_of_lt (h : names < way) : ¬ way <+: names :=
  fun hprefix => hprefix.le h

theorem append_lt_of_lt (h : way < names) (hoff : ¬ way <+: names) (rest : List Text) :
    way ++ rest < names := by
  induction way generalizing names with
  | nil => exact absurd List.nil_prefix hoff
  | cons first way ih =>
    cases names with
    | nil => exact absurd h (List.not_lt_nil _)
    | cons name names =>
      rcases List.cons_lt_cons_iff.mp h with hfirst | ⟨rfl, hway⟩
      · exact List.cons_lt_cons_iff.mpr (.inl hfirst)
      · have hoff' : ¬ way <+: names := fun hp => hoff (List.cons_prefix_cons.mpr ⟨rfl, hp⟩)
        exact List.cons_lt_cons_iff.mpr (.inr ⟨rfl, ih hway hoff'⟩)

theorem pairwise_namesBelow (w : Workspace) (l : Location) :
    (w.namesBelow l).Pairwise (· < ·) := by
  have hsorted : (w.namesBelow l).Pairwise fun a b => namesLe a b = true :=
    List.pairwise_mergeSort namesLe_trans namesLe_total _
  exact hsorted.imp₂ (fun a b hle hne => lt_of_not_lt_of_ne (namesLe_iff.mp hle) hne)
    (nodup_namesBelow w l)

/-- Increasing names fall into those less than a way, those that follow it, and those that
are greater and do not follow it, and stand in this order. -/
theorem eq_filter_append {files : List (List Text)} (h : files.Pairwise (· < ·))
    (way : List Text) :
    files = files.filter (· < way) ++ (files.filter (way <+: ·) ++
      files.filter fun names => way < names ∧ ¬ way <+: names) := by
  refine List.Pairwise.eq_of_mem_iff (r := (· < ·)) h ?_ fun names => ?_
  · refine List.pairwise_append.mpr ⟨h.filter _, List.pairwise_append.mpr
      ⟨h.filter _, h.filter _, ?_⟩, ?_⟩
    · intro a ha b hb
      obtain ⟨rest, rfl⟩ : way <+: a := by simpa using (List.mem_filter.mp ha).2
      obtain ⟨hlt, hoff⟩ : way < b ∧ ¬ way <+: b := by simpa using (List.mem_filter.mp hb).2
      exact append_lt_of_lt hlt hoff rest
    · intro a ha b hb
      have ha : a < way := by simpa using (List.mem_filter.mp ha).2
      rcases List.mem_append.mp hb with hb | hb
      · obtain ⟨rest, rfl⟩ : way <+: b := by simpa using (List.mem_filter.mp hb).2
        exact List.Lex.append_right (· < ·) rest ha
      · have hb : way < b ∧ ¬ way <+: b := by simpa using (List.mem_filter.mp hb).2
        exact List.lt_trans ha hb.1
  · simp only [List.mem_append, List.mem_filter, decide_eq_true_eq]
    constructor
    · intro hnames
      by_cases hlt : names < way
      · exact .inl ⟨hnames, hlt⟩
      by_cases hon : way <+: names
      · exact .inr (.inl ⟨hnames, hon⟩)
      · refine .inr (.inr ⟨hnames, lt_of_not_lt_of_ne hlt ?_, hon⟩)
        rintro rfl
        exact hon List.prefix_rfl
    · rintro (⟨hnames, -⟩ | ⟨hnames, -⟩ | ⟨hnames, -⟩) <;> exact hnames

/-- The names that follow the way to a directory, and lead to files, are those that lead
there from the directory, with the way in front. -/
theorem filter_namesBelow (h : w.lookup? (l ++ way) = some .directory) :
    (w.namesBelow l).filter (way <+: ·) = (w.namesBelow (l ++ way)).map (way ++ ·) := by
  refine List.Pairwise.eq_of_mem_iff (r := (· < ·)) ((pairwise_namesBelow w l).filter _)
    (List.pairwise_map.mpr ((pairwise_namesBelow w _).imp List.append_left_lt)) fun names => ?_
  simp only [List.mem_filter, decide_eq_true_eq, List.mem_map]
  constructor
  · rintro ⟨hnames, rest, rfl⟩
    obtain ⟨-, bytes, hfile⟩ := mem_namesBelow.mp hnames
    rw [← List.append_assoc] at hfile
    refine ⟨rest, mem_namesBelow.mpr ⟨?_, bytes, hfile⟩, rfl⟩
    -- the way itself does not lead to a file
    rintro rfl
    rw [List.append_nil, file?_eq_some_iff, h] at hfile
    cases hfile
  · rintro ⟨rest, hrest, rfl⟩
    obtain ⟨hne, bytes, hfile⟩ := mem_namesBelow.mp hrest
    rw [List.append_assoc] at hfile
    exact ⟨mem_namesBelow.mpr ⟨by simp [hne], bytes, hfile⟩, List.prefix_append _ _⟩

/-- The files in a directory below a place are one block of the files below the place, in
the order that they have below the directory. -/
theorem namesBelow_eq_append (h : w.lookup? (l ++ way) = some .directory) :
    ∃ before after,
      w.namesBelow l = before ++ ((w.namesBelow (l ++ way)).map (way ++ ·) ++ after) ∧
        ∀ names ∈ before ++ after, names ∈ w.namesBelow l ∧ ¬ way <+: names := by
  have hparts := eq_filter_append (pairwise_namesBelow w l) way
  rw [filter_namesBelow h] at hparts
  refine ⟨_, _, hparts, fun names hnames => ?_⟩
  rcases List.mem_append.mp hnames with hnames | hnames
  · obtain ⟨hmem, hlt⟩ := List.mem_filter.mp hnames
    exact ⟨hmem, not_prefix_of_lt (by simpa using hlt)⟩
  · obtain ⟨hmem, hgt⟩ := List.mem_filter.mp hnames
    have hgt : way < names ∧ ¬ way <+: names := by simpa using hgt
    exact ⟨hmem, hgt.2⟩

/-! ## Listings -/

/-- The texts of the paths that are listed below the path that a text names. -/
def listing (w : Workspace) (path : Text) (filter : Option Filter) : List Text :=
  (w.listFiles (Path.ofText path) filter).map Path.text

/-- Texts are the files strictly below a root, at any depth, that a filter accepts: each by
the root's path with the names behind it that lead there from where the root leads. Every
text leads to a file below, no two lead to the same, and name by name they increase. -/
structure Enumerates (w : Workspace) (root : Path) (filter : Option Filter)
    (files : List Text) : Prop where
  mem_iff : ∀ t, t ∈ files ↔
    (∃ l names bytes, w.locate root = .ok l ∧ names ≠ [] ∧
      w.lookup? (l ++ names) = some (.file bytes) ∧ t = (root.append names).text) ∧
    filter.all (·.accepts t) = true
  leads : ∀ t ∈ files, ∃ l m bytes, w.locate root = .ok l ∧ l <+: m ∧ l ≠ m ∧
    w.locate (Path.ofText t) = .ok m ∧ w.lookup? m = some (.file bytes)
  once : (files.map fun t => w.locate (Path.ofText t)).Nodup
  increasing : files.Pairwise fun s t => (Path.ofText s).parts < (Path.ofText t).parts

/-- The text of a path with names behind it, which lead to something from the place of the
path, is read back as this path, and leads there. -/
theorem spelled_append (tree : w.IsTree) (hl : w.locate (Path.ofText path) = .ok l) {e : Entry}
    (h : w.lookup? (l ++ names) = some e) :
    Path.ofText ((Path.ofText path).append names).text = (Path.ofText path).append names ∧
      w.locate ((Path.ofText path).append names) = .ok (l ++ names) := by
  obtain ⟨hnormal, hlocate⟩ := locate_append tree (Path.normal_ofText path) hl h
  exact ⟨Path.ofText_text hnormal, hlocate⟩

theorem spelled_of_mem (tree : w.IsTree) (hl : w.locate (Path.ofText path) = .ok l)
    (hnames : names ∈ w.namesBelow l) :
    Path.ofText ((Path.ofText path).append names).text = (Path.ofText path).append names ∧
      w.locate ((Path.ofText path).append names) = .ok (l ++ names) := by
  obtain ⟨-, bytes, hfile⟩ := mem_namesBelow.mp hnames
  exact spelled_append tree hl (file?_eq_some_iff.mp hfile)

theorem listing_filter (w : Workspace) (path : Text) (filter : Option Filter) :
    w.listing path filter = (w.listing path none).filter fun t => filter.all (·.accepts t) := by
  unfold listing listFiles
  cases w.locate (Path.ofText path) with
  | error fault => rfl
  | ok l =>
    by_cases hdir : w.lookup? l = some .directory
    · cases filter <;> simp [hdir, List.filter_map, Function.comp_def]
    · simp [hdir]

theorem listing_of_error {fault : DiskFault} (h : w.locate (Path.ofText path) = .error fault) :
    w.listing path filter = [] := by
  unfold listing listFiles
  rw [h]
  rfl

theorem listing_of_locate (tree : w.IsTree) (hl : w.locate (Path.ofText path) = .ok l) :
    w.listing path none =
      (w.namesBelow l).map fun names => ((Path.ofText path).append names).text := by
  unfold listing listFiles
  simp only [hl]
  by_cases hdir : w.lookup? l = some .directory
  · simp [hdir]
  · -- there is nothing below what is no directory
    have hnone : w.namesBelow l = [] := List.eq_nil_iff_forall_not_mem.mpr fun names hnames => by
      obtain ⟨hne, bytes, hfile⟩ := mem_namesBelow.mp hnames
      exact hdir (tree.above_append (file?_eq_some_iff.mp hfile) hne)
    simp [hdir, hnone]

/-- What is listed below a directory is said by the way to the directory and the names behind
it. -/
theorem listing_of_directory (tree : w.IsTree) (hl : w.locate (Path.ofText path) = .ok l)
    (h : w.lookup? (l ++ way) = some .directory) :
    w.listing ((Path.ofText path).append way).text none =
      (w.namesBelow (l ++ way)).map fun names =>
        ((Path.ofText path).append (way ++ names)).text := by
  obtain ⟨hspelled, hlocate⟩ := spelled_append tree hl h
  rw [listing_of_locate tree (by rw [hspelled, hlocate]), hspelled]
  simp only [Path.append_append]

theorem mem_listing_iff (tree : w.IsTree) (path : Text) (filter : Option Filter) (t : Text) :
    t ∈ w.listing path filter ↔
      (∃ l names bytes, w.locate (Path.ofText path) = .ok l ∧ names ≠ [] ∧
        w.lookup? (l ++ names) = some (.file bytes) ∧ t = ((Path.ofText path).append names).text) ∧
      filter.all (·.accepts t) = true := by
  rw [listing_filter, List.mem_filter]
  refine and_congr_left fun _ => ?_
  cases hl : w.locate (Path.ofText path) with
  | error fault => simp [listing_of_error hl]
  | ok l =>
    rw [listing_of_locate tree hl, List.mem_map]
    constructor
    · rintro ⟨names, hnames, rfl⟩
      obtain ⟨hne, bytes, hfile⟩ := mem_namesBelow.mp hnames
      exact ⟨l, names, bytes, rfl, hne, file?_eq_some_iff.mp hfile, rfl⟩
    · rintro ⟨l', names, bytes, hl', hne, hentry, rfl⟩
      obtain rfl := Except.ok.inj hl'
      exact ⟨names, mem_namesBelow.mpr ⟨hne, bytes, file?_eq_some_iff.mpr hentry⟩, rfl⟩

theorem pairwise_listing (tree : w.IsTree) (path : Text) (filter : Option Filter) :
    (w.listing path filter).Pairwise fun s t =>
      (Path.ofText s).parts < (Path.ofText t).parts := by
  rw [listing_filter]
  refine List.Pairwise.filter _ ?_
  cases hl : w.locate (Path.ofText path) with
  | error fault => simp [listing_of_error hl]
  | ok l =>
    rw [listing_of_locate tree hl]
    refine List.pairwise_map.mpr ((pairwise_namesBelow w l).imp_of_mem fun ha hb hlt => ?_)
    rw [(spelled_of_mem tree hl ha).1, (spelled_of_mem tree hl hb).1]
    exact List.append_left_lt hlt

theorem nodup_locate_listing (tree : w.IsTree) (path : Text) (filter : Option Filter) :
    ((w.listing path filter).map fun t => w.locate (Path.ofText t)).Nodup := by
  rw [listing_filter]
  refine List.Nodup.sublist (List.filter_sublist.map _) ?_
  cases hl : w.locate (Path.ofText path) with
  | error fault => simp [listing_of_error hl]
  | ok l =>
    rw [listing_of_locate tree hl, List.map_map]
    refine (nodup_namesBelow w l).map_on fun a ha b hb hab => ?_
    obtain ⟨hspelled, hlocate⟩ := spelled_of_mem tree hl ha
    obtain ⟨hspelled', hlocate'⟩ := spelled_of_mem tree hl hb
    rw [Function.comp_apply, Function.comp_apply, hspelled, hspelled', hlocate, hlocate'] at hab
    exact List.append_cancel_left (Except.ok.inj hab)

theorem enumerates_listing (tree : w.IsTree) (path : Text) (filter : Option Filter) :
    w.Enumerates (Path.ofText path) filter (w.listing path filter) := by
  refine ⟨mem_listing_iff tree path filter, ?_, nodup_locate_listing tree path filter,
    pairwise_listing tree path filter⟩
  intro t ht
  obtain ⟨⟨l, names, bytes, hl, hne, hentry, rfl⟩, -⟩ := (mem_listing_iff tree _ _ t).mp ht
  obtain ⟨hspelled, hlocate⟩ := spelled_append tree hl hentry
  rw [hspelled]
  exact ⟨l, l ++ names, bytes, hl, List.prefix_append _ _, by simpa using hne, hlocate, hentry⟩

/-- The files in a directory below a root are one block of the root's listing, the listing of
the directory itself, and no file in front of it or behind it lies in the directory. -/
theorem listing_eq_append (tree : w.IsTree) (hl : w.locate (Path.ofText path) = .ok l)
    (h : w.lookup? (l ++ way) = some .directory) (filter : Option Filter) :
    ∃ before after,
      w.listing path filter =
        before ++ (w.listing ((Path.ofText path).append way).text filter ++ after) ∧
      ∀ t ∈ before ++ after, ∀ m, w.locate (Path.ofText t) = .ok m → ¬ l ++ way <+: m := by
  obtain ⟨before, after, hnames, hout⟩ := namesBelow_eq_append h
  have houter : w.listing path none =
      before.map (fun names => ((Path.ofText path).append names).text) ++
        (w.listing ((Path.ofText path).append way).text none ++
          after.map fun names => ((Path.ofText path).append names).text) := by
    rw [listing_of_locate tree hl, hnames, listing_of_directory tree hl h]
    simp only [List.map_append, List.map_map, Function.comp_def]
  rw [listing_filter w path, listing_filter w (Path.text _), houter, List.filter_append,
    List.filter_append]
  refine ⟨_, _, rfl, fun t ht m hm hin => ?_⟩
  rw [← List.filter_append, ← List.map_append] at ht
  obtain ⟨names, hmem, rfl⟩ := List.mem_map.mp (List.mem_of_mem_filter ht)
  obtain ⟨hbelow, hoff⟩ := hout names hmem
  obtain ⟨hspelled, hlocate⟩ := spelled_of_mem tree hl hbelow
  rw [hspelled, hlocate] at hm
  obtain rfl := Except.ok.inj hm
  exact hoff ((List.prefix_append_right_inj l).mp hin)

/-- What is listed below a path in a tree. A listing has each file strictly below the path, at
any depth, exactly once, and nothing else but what its filter accepts; it increases name by
name. A filter only leaves files out of the listing without one. What lies in a directory
below the path is one block of the listing, and is the listing of that directory. -/
theorem listing_enumerates (tree : w.IsTree) (path : Text) (filter : Option Filter) :
    w.Enumerates (Path.ofText path) filter (w.listing path filter) ∧
    w.listing path filter = (w.listing path none).filter (fun t => filter.all (·.accepts t)) ∧
    ∀ l way, w.locate (Path.ofText path) = .ok l → w.lookup? (l ++ way) = some .directory →
      ∃ before after,
        w.listing path filter =
          before ++ (w.listing ((Path.ofText path).append way).text filter ++ after) ∧
        ∀ t ∈ before ++ after, ∀ m, w.locate (Path.ofText t) = .ok m → ¬ l ++ way <+: m :=
  ⟨enumerates_listing tree path filter, listing_filter w path filter,
    fun _ _ hl h => listing_eq_append tree hl h filter⟩

/-- A directory beside a file whose name goes on where the directory's name ends, with a hidden
file and a directory without files. -/
def dotted : Workspace :=
  ⟨[([['d']], .directory),
    ([['d'], ['a', '.', 'b']], .file ⟨#[1]⟩),
    ([['d'], ['z']], .directory),
    ([['d'], ['a'], ['b']], .file ⟨#[2]⟩),
    ([['d'], ['a']], .directory),
    ([['d'], ['a'], ['.', 'b']], .file ⟨#[3]⟩),
    ([['d'], ['0']], .file ⟨#[]⟩)],
    by decide, [], [], none⟩

theorem namesBelow_dotted : dotted.namesBelow [['d']] =
    [[['0']], [['a'], ['.', 'b']], [['a'], ['b']], [['a', '.', 'b']]] :=
  List.Perm.eq_of_pairwise' (r := (· < ·)) (pairwise_namesBelow _ _) (by decide)
    ((List.mergeSort_perm _ _).trans (by decide))

/-- The block of the directory stands in front of the file with a dot in its name, whose text
is less than those in the block. A filter for the ending leaves one file of the block. -/
theorem listing_enumerates_dotted :
    dotted.IsTree ∧
      dotted.listing ['d'] none =
        ["d/0".toList, "d/a/.b".toList, "d/a/b".toList, "d/a.b".toList] ∧
      ¬ (dotted.listing ['d'] none).Pairwise (· < ·) ∧
      dotted.listing ['d'] (some (.extensions [['.', 'b']] (by decide))) =
        ["d/a/.b".toList, "d/a.b".toList] ∧
      dotted.Enumerates (Path.ofText ['d']) none
        ["d/0".toList, "d/a/.b".toList, "d/a/b".toList, "d/a.b".toList] ∧
      ∃ before after, dotted.listing ['d'] none =
        before ++ (dotted.listing "d/a".toList none ++ after) ∧
        ∀ t ∈ before ++ after, ∀ m, dotted.locate (Path.ofText t) = .ok m →
          ¬ [['d'], ['a']] <+: m := by
  have tree : dotted.IsTree := by decide
  have hlocate : dotted.locate (Path.ofText ['d']) = .ok [['d']] := by decide +kernel
  have hlisting : dotted.listing ['d'] none =
      ["d/0".toList, "d/a/.b".toList, "d/a/b".toList, "d/a.b".toList] := by
    rw [listing_of_locate tree hlocate, namesBelow_dotted]
    decide +kernel
  obtain ⟨henumerates, -, hblocks⟩ := listing_enumerates tree ['d'] none
  obtain ⟨-, hfilter, -⟩ := listing_enumerates tree ['d']
    (some (.extensions [['.', 'b']] (by decide)))
  rw [hlisting] at henumerates hfilter
  refine ⟨tree, hlisting, ?_, ?_, henumerates, ?_⟩
  · rw [hlisting]
    decide +kernel
  · rw [hfilter]
    decide +kernel
  · exact hblocks [['d']] [['a']] hlocate (by decide +kernel)

end Workspace
end ProtectedRegions
