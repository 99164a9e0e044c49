import Mathlib.Data.List.Basic
import ProtectedRegions.Workspace

/-
  Spelling — a path and the text it is written as

  Files are listed as paths and opened by the texts of these paths, so what a
  run finds and what it opens are the same only where writing a path and reading
  it again lead back to the path. They do for paths whose parts are names of
  their own: not empty, without a slash, and not the single dot.

  What is proved:
    1. `normal_ofText` — the path of a text is of this kind.
    2. `ofText_text` — such a path is read back from its text, so two of them
       never have the same text.
    3. `writtenParts_text` — opened by its text, such a path is followed part by
       part as it is.
-/

namespace ProtectedRegions

namespace Text

theorem splitOn_of_not_mem {sep : Char} {t : Text} (h : sep ∉ t) : splitOn sep t = [t] := by
  induction t with
  | nil => rfl
  | cons c rest ih =>
    obtain ⟨hc, hrest⟩ := not_or.mp (mt List.mem_cons.mpr h)
    rw [splitOn, if_neg (Ne.symm hc), ih hrest]

theorem splitOn_append {sep : Char} {piece : Text} (h : sep ∉ piece) (rest : Text) :
    splitOn sep (piece ++ sep :: rest) = piece :: splitOn sep rest := by
  induction piece with
  | nil => simp [splitOn]
  | cons c piece ih =>
    obtain ⟨hc, hpiece⟩ := not_or.mp (mt List.mem_cons.mpr h)
    rw [List.cons_append, splitOn, if_neg (Ne.symm hc), ih hpiece]

theorem not_mem_of_mem_splitOn {sep : Char} {t piece : Text} (h : piece ∈ splitOn sep t) :
    sep ∉ piece := by
  induction t generalizing piece with
  | nil =>
    obtain rfl := List.mem_singleton.mp h
    exact List.not_mem_nil
  | cons c rest ih =>
    rw [splitOn] at h
    split at h
    · rcases List.mem_cons.mp h with rfl | h
      · exact List.not_mem_nil
      · exact ih h
    · next hc =>
      split at h
      · obtain rfl := List.mem_singleton.mp h
        exact by simpa using Ne.symm hc
      · next first pieces hsplit =>
        rcases List.mem_cons.mp h with rfl | h
        · exact by
            rw [List.mem_cons, not_or]
            exact ⟨Ne.symm hc, ih (by rw [hsplit]; exact List.mem_cons_self)⟩
        · exact ih (by rw [hsplit]; exact List.mem_cons_of_mem _ h)

theorem splitOn_join {sep : Char} {pieces : List Text} (hne : pieces ≠ [])
    (h : ∀ piece ∈ pieces, sep ∉ piece) : splitOn sep (join [sep] pieces) = pieces := by
  induction pieces with
  | nil => exact absurd rfl hne
  | cons piece rest ih =>
    have hpiece := h piece List.mem_cons_self
    cases rest with
    | nil => exact splitOn_of_not_mem hpiece
    | cons next rest =>
      rw [join, List.append_assoc, List.singleton_append, splitOn_append hpiece,
        ih (by simp) fun p hp => h p (List.mem_cons_of_mem _ hp)]
      · simp

theorem join_ne_nil {sep piece : Text} {rest : List Text} (h : piece ≠ []) :
    join sep (piece :: rest) ≠ [] := by
  cases rest with
  | nil => exact h
  | cons next rest => simp [join, h]

theorem head?_join {sep piece : Text} {rest : List Text} (h : piece ≠ []) :
    (join sep (piece :: rest)).head? = piece.head? := by
  cases rest with
  | nil => rfl
  | cons next rest =>
    have hjoin : join sep (piece :: next :: rest) = piece ++ (sep ++ join sep (next :: rest)) := by
      simp [join]
    rw [hjoin, List.head?_append_of_ne_nil _ h]

theorem getLast?_join (sep : Text) (parts : List Text) {piece : Text} (h : piece ≠ []) :
    (join sep (parts ++ [piece])).getLast? = piece.getLast? := by
  induction parts with
  | nil => rfl
  | cons first parts ih =>
    have hne : join sep (parts ++ [piece]) ≠ [] := by
      cases parts with
      | nil => exact h
      | cons next parts =>
        intro hnil
        rw [hnil] at ih
        exact h (List.getLast?_eq_none_iff.mp ih.symm)
    have hjoin : join sep (first :: (parts ++ [piece])) =
        first ++ sep ++ join sep (parts ++ [piece]) := by
      cases parts <;> rfl
    rw [List.cons_append, hjoin, List.getLast?_append_of_ne_nil _ hne, ih]

end Text

namespace Path

/-- The text can stand between slashes and say something: it is the name of a
file or directory, or two dots. -/
def IsPart (part : Text) : Prop := part ≠ [] ∧ '/' ∉ part ∧ part ≠ ['.']

instance (part : Text) : Decidable (IsPart part) := inferInstanceAs (Decidable (_ ∧ _ ∧ _))

/-- The path is one that a text can name. -/
structure Normal (p : Path) : Prop where
  root : p.root = [] ∨ p.root = ['/'] ∨ p.root = ['/', '/']
  parts : ∀ part ∈ p.parts, IsPart part

theorem normal_ofText (t : Text) : (ofText t).Normal where
  root := by
    unfold ofText rootOf
    simp only
    split
    · exact .inl rfl
    · exact .inr (.inr rfl)
    · exact .inr (.inl rfl)
  parts := by
    intro part hpart
    obtain ⟨hsplit, hkept⟩ := List.mem_filter.mp hpart
    simp only [ne_eq, decide_eq_true_eq] at hkept
    exact ⟨hkept.1, Text.not_mem_of_mem_splitOn hsplit, hkept.2⟩

theorem Normal.append {p : Path} (h : p.Normal) {parts : List Text}
    (hparts : ∀ part ∈ parts, IsPart part) : (p.append parts).Normal where
  root := h.root
  parts := by
    intro part hpart
    rcases List.mem_append.mp hpart with hp | hp
    · exact h.parts part hp
    · exact hparts part hp

theorem Normal.parent {p : Path} (h : p.Normal) : p.parent.Normal :=
  ⟨h.root, fun part hpart => h.parts part (List.dropLast_subset _ hpart)⟩

theorem IsPart.head?_ne {part : Text} (h : IsPart part) : part.head? ≠ some '/' :=
  fun hhead => h.2.1 (List.mem_of_head? hhead)

theorem IsPart.getLast?_ne {part : Text} (h : IsPart part) : part.getLast? ≠ some '/' :=
  fun hlast => h.2.1 (List.mem_of_getLast? hlast)

/-- The parts of a path, joined, do not begin with a slash. -/
theorem head?_join_ne {parts : List Text} (h : ∀ part ∈ parts, IsPart part) :
    (Text.join ['/'] parts).head? ≠ some '/' := by
  cases parts with
  | nil => simp [Text.join]
  | cons part rest =>
    have hpart := h part List.mem_cons_self
    rw [Text.head?_join hpart.1]
    exact hpart.head?_ne

theorem takeWhile_of_head?_ne {t : Text} (h : t.head? ≠ some '/') :
    t.takeWhile (· = '/') = [] := by
  cases t with
  | nil => rfl
  | cons c rest =>
    have hc : c ≠ '/' := by simpa using h
    simp [hc]

theorem rootOf_append {root t : Text} (hroot : root = [] ∨ root = ['/'] ∨ root = ['/', '/'])
    (h : t.head? ≠ some '/') : rootOf (root ++ t) = root := by
  have htake := takeWhile_of_head?_ne h
  rcases hroot with rfl | rfl | rfl <;> simp [rootOf, htake]

/-- What says nothing between slashes is left out. -/
theorem filter_splitOn_join {parts : List Text} (h : ∀ part ∈ parts, IsPart part) :
    ((Text.splitOn '/' (Text.join ['/'] parts)).filter fun part => part ≠ [] ∧ part ≠ ['.']) =
      parts := by
  cases parts with
  | nil => rfl
  | cons part rest =>
    rw [Text.splitOn_join (by simp) fun p hp => (h p hp).2.1]
    refine List.filter_eq_self.mpr ?_
    intro p hp
    simpa using ⟨(h p hp).1, (h p hp).2.2⟩

/-- A path is read back from its text. -/
theorem ofText_text {p : Path} (h : p.Normal) : ofText p.text = p := by
  obtain ⟨root, parts⟩ := p
  obtain ⟨hroot, hparts⟩ := h
  simp only at hroot hparts
  unfold text
  simp only
  split
  · next hempty =>
    obtain ⟨rfl, rfl⟩ := hempty
    rfl
  · unfold ofText
    rw [rootOf_append hroot (head?_join_ne hparts)]
    -- the slashes of the root leave empty pieces in front
    have hsplit : (Text.splitOn '/' (root ++ Text.join ['/'] parts)).filter
        (fun part => part ≠ [] ∧ part ≠ ['.']) = parts := by
      rcases hroot with rfl | rfl | rfl
      · exact filter_splitOn_join hparts
      · rw [List.singleton_append, Text.splitOn, if_pos rfl, List.filter_cons_of_neg (by simp),
          filter_splitOn_join hparts]
      · rw [List.cons_append, List.singleton_append, Text.splitOn, if_pos rfl, Text.splitOn,
          if_pos rfl, List.filter_cons_of_neg (by simp), List.filter_cons_of_neg (by simp),
          filter_splitOn_join hparts]
    rw [hsplit]

theorem text_injective {p q : Path} (hp : p.Normal) (hq : q.Normal) (h : p.text = q.text) :
    p = q := by
  rw [← ofText_text hp, ← ofText_text hq, h]

theorem text_ne_nil {p : Path} (h : p.Normal) : p.text ≠ [] := by
  obtain ⟨root, parts⟩ := p
  unfold text
  split
  · simp
  · next hne =>
    intro hnil
    obtain ⟨hroot, hjoin⟩ := List.append_eq_nil_iff.mp hnil
    cases parts with
    | nil => exact hne ⟨hroot, rfl⟩
    | cons part rest =>
      exact Text.join_ne_nil (h.parts part List.mem_cons_self).1 hjoin

theorem head?_text {p : Path} (h : p.Normal) : p.text.head? = some '/' ↔ p.isAbsolute = true := by
  obtain ⟨root, parts⟩ := p
  have hhead := head?_join_ne h.parts
  unfold text isAbsolute
  rcases h.root with hroot | hroot | hroot <;> simp only at hroot hhead <;> subst hroot
  · cases parts with
    | nil => simp
    | cons part rest => simpa using hhead
  · simp
  · simp

end Path

namespace Workspace

/-- A path with parts is followed by its text as it is: no slash stands at the
end, and no piece is left out. -/
theorem writtenParts_text {p : Path} (h : p.Normal) (hne : p.parts ≠ []) :
    writtenParts p.text = p.parts := by
  obtain ⟨root, parts⟩ := p
  obtain ⟨hroot, hparts⟩ := h
  simp only at hroot hparts hne
  have htext : Path.text ⟨root, parts⟩ = root ++ Text.join ['/'] parts := if_neg (by simp [hne])
  have hlast : (Path.text ⟨root, parts⟩).getLast? ≠ some '/' := by
    obtain ⟨above, part, rfl⟩ := (List.eq_nil_or_concat' parts).resolve_left hne
    have hpart := hparts part (by simp)
    have hjoin := Text.getLast?_join ['/'] above hpart.1
    have hne' : Text.join ['/'] (above ++ [part]) ≠ [] := by
      intro hnil
      rw [hnil] at hjoin
      exact hpart.1 (List.getLast?_eq_none_iff.mp hjoin.symm)
    rw [htext, List.getLast?_append_of_ne_nil _ hne', hjoin]
    exact hpart.getLast?_ne
  have hkeep : parts.filter (· ≠ []) = parts :=
    List.filter_eq_self.mpr fun p hp => by simpa using (hparts p hp).1
  have hsplit := Text.splitOn_join hne fun p hp => (hparts p hp).2.1
  unfold writtenParts
  rw [if_neg hlast, List.append_nil, htext]
  rcases hroot with rfl | rfl | rfl
  · rw [List.nil_append, hsplit, hkeep]
  · rw [List.singleton_append, Text.splitOn, if_pos rfl, List.filter_cons_of_neg (by simp), hsplit,
      hkeep]
  · rw [List.cons_append, List.singleton_append, Text.splitOn, if_pos rfl, Text.splitOn,
      if_pos rfl, List.filter_cons_of_neg (by simp), List.filter_cons_of_neg (by simp), hsplit,
      hkeep]

end Workspace
end ProtectedRegions
