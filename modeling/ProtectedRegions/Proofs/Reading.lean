import Mathlib.Control.Monad.Basic
import ProtectedRegions.Parser

/-
  Readings — the texts that a parser accepts, and the segments it makes of them

  A parser walks over a text and stops at markers. What it does on the way is
  said here as a relation, piece by piece and each piece in front of the text
  that follows it, because where a comment begins and where it ends can depend
  on what follows:

    1. `Lexicon.Cuts` — a comment stands at the front of a text.
    2. `Parser.Passes` — a piece is read without a marker.
    3. `Parser.Marks` — a marker stands at the front of a text.
    4. `Parser.Reads` — a text reads as segments.

  What is proved:
    1. `seek_eq_some` and `seek_eq_none` — the search for a marker passes over
       what it leaves behind, and `Passes.seek` and `Marks.seek` lead it there.
    2. `parse_eq_ok_iff` — a text parses to a document exactly when it reads as
       the document's segments.
    3. `Reads.text` — what is read is the whole text and nothing else.
-/

namespace ProtectedRegions

namespace Lexicon

variable {lexicon : Lexicon} {t : Text} {cut : Cut}

/-- The comment that stands at the front of a text, cut off from it. -/
def Cuts (lexicon : Lexicon) (t : Text) (cut : Cut) : Prop :=
  ∃ c, lexicon.match? t = some c ∧ c.cut t = .ok cut

theorem Cuts.text (h : lexicon.Cuts t cut) : cut.comment ++ cut.rest = t := by
  obtain ⟨c, hm, hc⟩ := h
  exact Comment.cut_text (match_startsWith hm) hc

theorem Cuts.comment_ne_nil (h : lexicon.Cuts t cut) : cut.comment ≠ [] := by
  obtain ⟨c, hm, hc⟩ := h
  intro hnil
  have hlen := Comment.cut_length (match_startsWith hm) hc
  have htext := Comment.cut_text (match_startsWith hm) hc
  rw [hnil, List.nil_append] at htext
  rw [htext] at hlen
  omega

theorem Cuts.unique {other : Cut} (h : lexicon.Cuts t cut) (h' : lexicon.Cuts t other) :
    other = cut := by
  obtain ⟨c, hm, hc⟩ := h
  obtain ⟨c', hm', hc'⟩ := h'
  obtain rfl : c = c' := Option.some.inj (hm.symm.trans hm')
  exact Except.ok.inj (hc'.symm.trans hc)

theorem Cuts.rest_eq {rest : Text} (h : lexicon.Cuts (cut.comment ++ rest) cut) :
    cut.rest = rest :=
  List.append_cancel_left h.text

end Lexicon

/-- The marker opens the region of an id. -/
def Marker.Opens (m : Marker) (id : Text) : Prop := m.kind = .start ∧ m.id = some id ∧ id ≠ []

/-- The marker closes the region of an id: it names no other. -/
def Marker.Closes (m : Marker) (id : Text) : Prop :=
  m.kind = .finish ∧ (m.id = none ∨ m.id = some id)

namespace Parser

/-- In front of `t`, the piece is read to its end without a marker: character by
character outside of comments, and over every comment that is none. -/
inductive Passes (p : Parser) : Text → Text → Prop where
  | nil (t : Text) : Passes p [] t
  | char {c : Char} {piece t : Text} (bare : p.lexicon.match? (c :: (piece ++ t)) = none)
      (tail : Passes p piece t) : Passes p (c :: piece) t
  | comment {cut : Cut} {piece t : Text} (cuts : p.lexicon.Cuts (cut.comment ++ (piece ++ t)) cut)
      (quiet : p.oracle.classify cut.body = .ok none) (tail : Passes p piece t) :
      Passes p (cut.comment ++ piece) t

/-- In front of `rest`, the comment is a marker. -/
def Marks (p : Parser) (comment : Text) (m : Marker) (rest : Text) : Prop :=
  ∃ cut, p.lexicon.Cuts (comment ++ rest) cut ∧ cut.comment = comment ∧
    p.oracle.classify cut.body = .ok (some m)

/-- The text reads as segments: plain where no marker stands, a region from a
start marker to the end marker that closes it. -/
inductive Reads (p : Parser) : Text → List Segment → Prop where
  | plain {t : Text} (passes : p.Passes t []) : Reads p t (plainTail t)
  | region {before opening content ending rest id : Text} {m e : Marker} {segments : List Segment}
      (passes : p.Passes before (opening ++ (content ++ (ending ++ rest))))
      (starts : p.Marks opening m (content ++ (ending ++ rest))) (opens : m.Opens id)
      (body : p.Passes content (ending ++ rest)) (ends : p.Marks ending e rest)
      (closes : e.Closes id) (tail : Reads p rest segments) :
      Reads p (before ++ (opening ++ (content ++ (ending ++ rest))))
        (plainTail before ++ .region id opening content ending :: segments)

variable {p : Parser}

/-! ## The search for a marker -/

theorem Marks.comment_ne_nil {comment rest : Text} {m : Marker} (h : p.Marks comment m rest) :
    comment ≠ [] := by
  obtain ⟨cut, hcut, rfl, _⟩ := h
  exact hcut.comment_ne_nil

theorem seek_nil (passed : Text) : p.seek passed [] = .ok none := by rw [seek]

theorem seek_bare {passed t : Text} {c : Char} (h : p.lexicon.match? (c :: t) = none) :
    p.seek passed (c :: t) = p.seek (c :: passed) t := by
  rw [seek]
  split
  · rfl
  · next hm => simp [h] at hm

theorem seek_cuts {passed t : Text} {cut : Cut} (h : p.lexicon.Cuts t cut) :
    p.seek passed t = match p.oracle.classify cut.body with
      | .error d => .error d
      | .ok (some m) => .ok (some ⟨passed.reverse, m, cut.comment, cut.rest⟩)
      | .ok none => p.seek (cut.comment.reverse ++ passed) cut.rest := by
  have htext := h.text
  obtain ⟨k, hm, hk⟩ := h
  cases t with
  | nil =>
    have hne := (Lexicon.Cuts.comment_ne_nil ⟨k, hm, hk⟩)
    simp only [List.append_eq_nil_iff] at htext
    exact absurd htext.1 hne
  | cons c t =>
    rw [seek]
    split
    · next hnone => simp [hm] at hnone
    · next k' hk' =>
      obtain rfl : k' = k := Option.some.inj (hk'.symm.trans hm)
      split
      · next d hd => simp [hk] at hd
      · next cut' hcut' =>
        obtain rfl : cut' = cut := Except.ok.inj (hcut'.symm.trans hk)
        rfl

theorem Passes.seek {piece t : Text} (h : p.Passes piece t) (passed : Text) :
    p.seek passed (piece ++ t) = p.seek (piece.reverse ++ passed) t := by
  induction h generalizing passed with
  | nil => rfl
  | char bare _ ih =>
    rw [List.cons_append, seek_bare bare, ih]
    simp
  | comment cuts quiet _ ih =>
    rw [List.append_assoc, seek_cuts cuts, quiet, cuts.rest_eq]
    simp only
    rw [ih]
    simp

theorem Marks.seek {comment rest : Text} {m : Marker} (h : p.Marks comment m rest)
    (passed : Text) :
    p.seek passed (comment ++ rest) = .ok (some ⟨passed.reverse, m, comment, rest⟩) := by
  obtain ⟨cut, hcut, rfl, hm⟩ := h
  rw [seek_cuts hcut, hm, hcut.rest_eq]

theorem seek_eq_some {passed t : Text} {find : Find} (h : p.seek passed t = .ok (some find)) :
    ∃ piece, find.before = passed.reverse ++ piece ∧ t = piece ++ (find.comment ++ find.rest) ∧
      p.Passes piece (find.comment ++ find.rest) ∧
      p.Marks find.comment find.marker find.rest := by
  fun_induction Parser.seek p passed t with
  | case1 => simp at h
  | case2 passed c rest hm ih =>
    obtain ⟨piece, hbefore, rfl, hpass, hmarks⟩ := ih h
    exact ⟨c :: piece, by simp [hbefore], by simp, .char hm hpass, hmarks⟩
  | case3 => simp at h
  | case4 => simp at h
  | case5 passed c rest k hm cut hc marker hmarker =>
    simp only [Except.ok.injEq, Option.some.injEq] at h
    subst h
    have hcut : p.lexicon.Cuts (c :: rest) cut := ⟨k, hm, hc⟩
    refine ⟨[], by simp, by simpa using hcut.text.symm, .nil _, cut, ?_, rfl, hmarker⟩
    rw [hcut.text]
    exact hcut
  | case6 passed c rest k hm cut hc hquiet ih =>
    have hcut : p.lexicon.Cuts (c :: rest) cut := ⟨k, hm, hc⟩
    obtain ⟨piece, hbefore, hrest, hpass, hmarks⟩ := ih h
    refine ⟨cut.comment ++ piece, by simp [hbefore], ?_, .comment ?_ hquiet hpass, hmarks⟩
    · rw [List.append_assoc, ← hrest, hcut.text]
    · rw [← hrest, hcut.text]
      exact hcut

theorem seek_eq_none {passed t : Text} (h : p.seek passed t = .ok none) : p.Passes t [] := by
  fun_induction Parser.seek p passed t with
  | case1 => exact .nil _
  | case2 passed c rest hm ih => exact .char (by simpa using hm) (ih h)
  | case3 => simp at h
  | case4 => simp at h
  | case5 => simp at h
  | case6 passed c rest k hm cut hc hquiet ih =>
    have hcut : p.lexicon.Cuts (c :: rest) cut := ⟨k, hm, hc⟩
    rw [← hcut.text]
    refine .comment ?_ hquiet (ih h)
    rw [List.append_nil, hcut.text]
    exact hcut

/-! ## The pairing of markers -/

theorem pair_none_eq_ok {find : Find} {position : Nat} {opened : Option OpenRegion}
    {segments : List Segment} :
    pair none find position = .ok (opened, segments) ↔
      ∃ id, find.marker.Opens id ∧ opened = some ⟨id, find.comment, position⟩ ∧
        segments = plainTail find.before := by
  obtain ⟨before, ⟨kind, id⟩, comment, rest⟩ := find
  cases kind with
  | start =>
    rcases id with _ | _ | ⟨c, id⟩
    · simp [pair, Marker.Opens]
    · simp [pair, Marker.Opens]
    · constructor
      · intro h
        simp only [pair, Option.getD_some, Except.ok.injEq, Prod.mk.injEq] at h
        exact ⟨c :: id, ⟨rfl, rfl, by simp⟩, h.1.symm, h.2.symm⟩
      · intro h
        obtain ⟨_, ⟨_, hid, _⟩, rfl, rfl⟩ := h
        obtain rfl := Option.some.inj hid
        rfl
  | finish => simp [pair, Marker.Opens]
  | other name => simp [pair, Marker.Opens]

theorem pair_some_eq_ok {r : OpenRegion} {find : Find} {position : Nat}
    {opened : Option OpenRegion} {segments : List Segment} :
    pair (some r) find position = .ok (opened, segments) ↔
      find.marker.Closes r.id ∧ opened = none ∧
        segments = [.region r.id r.marker find.before find.comment] := by
  obtain ⟨before, ⟨kind, id⟩, comment, rest⟩ := find
  cases kind with
  | start =>
    rcases id with _ | _ | ⟨c, id⟩ <;> simp [pair, Marker.Closes]
  | finish =>
    cases id with
    | none => simp [pair, Marker.Closes, eq_comm]
    | some id => by_cases hid : id = r.id <;> simp [pair, Marker.Closes, hid, eq_comm]
  | other name => simp [pair, Marker.Closes]

/-! ## What a text reads as -/

theorem split_of_seek_error {whole t : Text} {position : Nat} {opened : Option OpenRegion}
    {d : Defect} (h : p.seek [] t = .error d) :
    p.split whole opened position t = .error (.defect d) := by
  rw [split.eq_def]
  split
  · next d' hs =>
    obtain rfl := Except.error.inj (hs.symm.trans h)
    rfl
  · next hs => simp [h] at hs
  · next hs => simp [h] at hs

theorem split_of_seek_none {whole t : Text} {position : Nat} {opened : Option OpenRegion}
    (h : p.seek [] t = .ok none) :
    p.split whole opened position t = match opened with
      | some r => .error (.malformed (.unterminated r.id) (whole.lineOf r.position))
      | none => .ok (plainTail t) := by
  rw [split.eq_def]
  split
  · next hs => simp [h] at hs
  · rfl
  · next hs => simp [h] at hs

theorem split_of_seek_some {whole t : Text} {position : Nat} {opened : Option OpenRegion}
    {find : Find} (h : p.seek [] t = .ok (some find)) :
    p.split whole opened position t = match pair opened find (position + find.before.length) with
      | .error cause =>
        .error (.malformed cause (whole.lineOf (position + find.before.length)))
      | .ok (opened, segments) =>
        match p.split whole opened (position + find.before.length + find.comment.length)
            find.rest with
        | .error e => .error e
        | .ok rest => .ok (segments ++ rest) := by
  rw [split.eq_def]
  split
  · next hs => simp [h] at hs
  · next hs => simp [h] at hs
  · next found hs =>
    obtain rfl : found = find := Option.some.inj (Except.ok.inj (hs.symm.trans h))
    rfl

/-- Reading a text puts its segments into the result. -/
theorem Reads.split {t : Text} {segments : List Segment} (h : p.Reads t segments) (whole : Text)
    (position : Nat) : p.split whole none position t = .ok segments := by
  induction h generalizing position with
  | @plain t passes =>
    have hseek := passes.seek []
    rw [List.append_nil, seek_nil] at hseek
    rw [split_of_seek_none hseek]
  | @region before opening content ending rest id m e segments passes starts opens body ends closes
      _ ih =>
    have hstart := passes.seek []
    rw [starts.seek, List.append_nil, List.reverse_reverse] at hstart
    -- behind the start marker the search begins anew
    have hend := body.seek []
    rw [ends.seek, List.append_nil, List.reverse_reverse] at hend
    rw [split_of_seek_some hstart, pair_none_eq_ok.mpr ⟨id, opens, rfl, rfl⟩]
    simp only
    rw [split_of_seek_some hend, pair_some_eq_ok.mpr ⟨closes, rfl, rfl⟩]
    simp only
    rw [ih]
    simp

/-- A text reads as segments where a region may be open: what comes before the
marker that closes it is its body. -/
def ReadsOn (p : Parser) : Option OpenRegion → Text → List Segment → Prop
  | none, t, segments => p.Reads t segments
  | some r, t, segments => ∃ content ending rest e tail,
    t = content ++ (ending ++ rest) ∧ p.Passes content (ending ++ rest) ∧
      p.Marks ending e rest ∧ e.Closes r.id ∧ p.Reads rest tail ∧
      segments = .region r.id r.marker content ending :: tail

theorem readsOn_of_split {whole t : Text} {position : Nat} {opened : Option OpenRegion}
    {segments : List Segment} (h : p.split whole opened position t = .ok segments) :
    p.ReadsOn opened t segments := by
  -- on the steps of the walk; what is open decides what the rest has to read as
  fun_induction Parser.split p whole opened position t generalizing segments with
  | case1 => simp at h
  | case2 => simp at h
  | case3 position t hs =>
    obtain rfl := Except.ok.inj h
    exact .plain (seek_eq_none hs)
  | case4 => simp at h
  | case5 => simp at h
  | case6 opened position t find hs _ done new hpair tail hsplit =>
    rename_i ih
    obtain rfl := Except.ok.inj h
    obtain ⟨piece, hbefore, ht, passes, marks⟩ := seek_eq_some hs
    obtain rfl : find.before = piece := hbefore
    have hrest := ih hsplit
    cases opened with
    | none =>
      obtain ⟨id, opens, rfl, rfl⟩ := pair_none_eq_ok.mp hpair
      obtain ⟨content, ending, rest, e, tail', hcut, body, ends, closes, reads, rfl⟩ := hrest
      rw [ht]
      rw [hcut] at passes marks ⊢
      exact .region passes marks opens body ends closes reads
    | some r =>
      obtain ⟨closes, rfl, rfl⟩ := pair_some_eq_ok.mp hpair
      exact ⟨find.before, find.comment, find.rest, find.marker, tail, ht, passes, marks, closes,
        hrest, rfl⟩

theorem parse_eq_ok_iff {t : Text} {d : Document} :
    p.parse t = .ok d ↔ ∃ segments, p.Reads t segments ∧ d = .ofSegments segments := by
  unfold parse
  constructor
  · intro h
    cases hs : p.split t none 0 t with
    | error e => simp [hs, Except.map] at h
    | ok segments =>
      simp only [hs, Except.map, Except.ok.injEq] at h
      exact ⟨segments, readsOn_of_split hs, h.symm⟩
  · intro h
    obtain ⟨segments, reads, rfl⟩ := h
    rw [reads.split t 0]
    rfl

/-! ## Nothing is lost -/

theorem flatMap_plainTail (t : Text) : (plainTail t).flatMap Segment.text = t := by
  unfold plainTail
  split <;> simp_all [Segment.plain, Segment.text]

theorem Reads.text {t : Text} {segments : List Segment} (h : p.Reads t segments) :
    segments.flatMap Segment.text = t := by
  induction h with
  | plain => exact flatMap_plainTail _
  | region _ _ _ _ _ _ _ ih =>
    rw [List.flatMap_append, List.flatMap_cons, flatMap_plainTail, ih]
    simp [Segment.region, Segment.text]

end Parser
end ProtectedRegions
