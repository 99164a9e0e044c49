import ProtectedRegions.Proofs.Chaining
import ProtectedRegions.Proofs.Halting

/-
  Recurring — the regions of a text found again in what a chain makes of it

  A merge puts bodies in the place of others, and a later parser of a chain does so
  again. Whether a parser still finds its region in the final text is decided at a few
  places: at both ends of each body that was put in or taken out. If no comment reaches
  over one of these, the text falls into parts that are read like the parts of the old
  one, and the parts that stay are read as they were.

  What is proved:
    1. `Divides.after` — a division of the rewritten text at the ends of the new pieces
       is one at all places of the old division.
    2. `Divides.moved` — a span that stays is found again where it is carried to, with
       the walk coming to stand at both of its ends.
    3. `stands_of_merge` — a parser that puts in bodies without markers leaves regions.
    4. `Links.stands` — a chain leaves them regions if it does not touch them.
    5. `Links.mem_segments` — if the parser accepts the final text, they are its segments.
    6. `Links.restoreAll_again` — a chain whose parsers find their regions in the text that
       it came to, and know the bodies there, comes to it again.
-/

namespace ProtectedRegions

namespace Text.Rewriting

/-- The text that is rewritten, or what comes of it, in parts: the pieces that change,
and the stretches between them. `gap` is the stretch up to here. -/
def parts (side : Text × Text → Text) (gap : Text) : Rewriting → List Text
  | [] => [gap]
  | (old, new) :: r =>
    if old = new then parts side (gap ++ old) r else gap :: side (old, new) :: parts side [] r

theorem flatten_parts {side : Text × Text → Text} (hside : ∀ t, side (t, t) = t) (gap : Text)
    (r : Rewriting) : (r.parts side gap).flatten = gap ++ r.flatMap side := by
  induction r generalizing gap with
  | nil => simp [parts]
  | cons piece r ih =>
    obtain ⟨old, new⟩ := piece
    unfold parts
    split
    · next hsame =>
      subst hsame
      rw [ih, List.flatMap_cons, hside, List.append_assoc]
    · rw [List.flatten_cons, List.flatten_cons, ih, List.nil_append, List.flatMap_cons]

theorem flatten_parts_fst (gap : Text) (r : Rewriting) :
    (r.parts Prod.fst gap).flatten = gap ++ r.before := flatten_parts (fun _ => rfl) gap r

theorem flatten_parts_snd (gap : Text) (r : Rewriting) :
    (r.parts Prod.snd gap).flatten = gap ++ r.after := flatten_parts (fun _ => rfl) gap r

theorem carried_append (first second : Text) (r : Rewriting) (position : Nat) :
    carried ((first ++ second, first ++ second) :: r) position =
      carried ((first, first) :: (second, second) :: r) position := by
  simp only [carried, List.length_append, Nat.sub_sub]
  split_ifs <;> omega

end Text.Rewriting

open Text (Rewriting)

namespace Lexicon

variable {lexicon : Lexicon} {r : Rewriting} {gap x b s y : Text}

/-- A part that is left as it is ends where it did, and the rest is divided too. -/
theorem Divides.of_gap (hold : lexicon.Halts gap (b ++ r.before))
    (h : lexicon.Divides (r.parts Prod.snd (gap ++ b))) :
    lexicon.Halts gap (b ++ r.after) ∧ lexicon.Divides (r.parts Prod.snd b) := by
  induction r generalizing b with
  | nil => exact ⟨hold, hold.behind h.1, trivial⟩
  | cons piece r ih =>
    obtain ⟨old, new⟩ := piece
    unfold Rewriting.parts at h ⊢
    by_cases hsame : old = new
    · subst hsame
      rw [if_pos rfl, List.append_assoc] at h
      rw [if_pos rfl]
      rw [Rewriting.before, List.flatMap_cons, ← List.append_assoc] at hold
      rw [Rewriting.after, List.flatMap_cons, ← List.append_assoc]
      exact ih hold h
    · rw [if_neg hsame] at h ⊢
      obtain ⟨hgap, hrest⟩ := h
      have hhalts := hold.front.of_alone hgap
      rw [List.flatten_cons, Rewriting.flatten_parts_snd] at hhalts
      exact ⟨hhalts, (hold.front.of_alone hgap).behind hgap, hrest⟩

/-- Where the old text was divided piece by piece, and the new one is at the ends of what
was put in, the new one is divided piece by piece. -/
theorem Divides.after (hold : lexicon.Divides (r.map Prod.fst))
    (h : lexicon.Divides (r.parts Prod.snd [])) : lexicon.Divides (r.map Prod.snd) := by
  induction r with
  | nil => trivial
  | cons piece r ih =>
    obtain ⟨old, new⟩ := piece
    obtain ⟨hpiece, hrest⟩ := hold
    unfold Rewriting.parts at h
    by_cases hsame : old = new
    · subst hsame
      rw [if_pos rfl, List.nil_append] at h
      have hbefore : lexicon.Halts old ([] ++ Rewriting.before r) := by
        simpa [Rewriting.before, List.flatMap_def] using hpiece
      rw [← List.append_nil old] at h
      obtain ⟨hafter, hparts⟩ := Divides.of_gap hbefore h
      refine ⟨?_, ih hrest hparts⟩
      simpa [Rewriting.after, List.flatMap_def] using hafter
    · rw [if_neg hsame] at h
      obtain ⟨-, hnew, hparts⟩ := h
      rw [Rewriting.flatten_parts_snd] at hnew
      refine ⟨?_, ih hrest hparts⟩
      simpa [Rewriting.after, List.flatMap_def] using hnew

theorem Divides.parts {side : Text × Text → Text} (hside : ∀ t, side (t, t) = t)
    (hgap : lexicon.Halts gap (r.flatMap side)) (h : lexicon.Divides (r.map side)) :
    lexicon.Divides (r.parts side gap) := by
  induction r generalizing gap with
  | nil => exact ⟨hgap, trivial⟩
  | cons piece r ih =>
    obtain ⟨old, new⟩ := piece
    obtain ⟨hpiece, hrest⟩ := h
    rw [← List.flatMap_def] at hpiece
    unfold Rewriting.parts
    split
    · next hsame =>
      subst hsame
      rw [List.flatMap_cons, hside] at hgap
      rw [hside] at hpiece
      exact ih (hgap.append hpiece) hrest
    · have hparts := Rewriting.flatten_parts hside [] r
      rw [List.nil_append] at hparts
      refine ⟨?_, ?_, ih (.nil _) hrest⟩
      · rwa [List.flatten_cons, hparts]
      · rwa [hparts]

/-- A span in front of a place keeps its ends when the text behind that place changes. -/
theorem Halts.span {z old new : Text} (hx : lexicon.Halts x (s ++ (z ++ old)))
    (hs : lexicon.Halts s (z ++ old)) (h : lexicon.Halts (x ++ (s ++ z)) new) :
    lexicon.Halts x (s ++ (z ++ new)) ∧ lexicon.Halts s (z ++ new) := by
  rw [← List.append_assoc s] at hx
  have hx' := hx.front.of_alone h
  have hsz := hx'.behind h
  rw [List.append_assoc] at hx'
  exact ⟨hx', hs.front.of_alone hsz⟩

/-- A span of a text that no changed piece meets is found again where it is carried to. If
the walk stands at both of its ends, it does so again. The text begins at a given offset. -/
theorem Divides.moved {offset : Nat} (hold : lexicon.Divides (r.parts Prod.fst gap))
    (hnew : lexicon.Divides (r.parts Prod.snd gap)) (hs : s ≠ [])
    (hspares : r.Spares (offset + x.length) (offset + x.length + s.length) (offset + gap.length))
    (heq : gap ++ r.before = x ++ (s ++ y)) (hx : lexicon.Halts x (s ++ y))
    (hy : lexicon.Halts s y) :
    ∃ x' y', gap ++ r.after = x' ++ (s ++ y') ∧
      x'.length = Rewriting.carried ((gap, gap) :: r) x.length ∧
      lexicon.Halts x' (s ++ y') ∧ lexicon.Halts s y' := by
  have hpos : 0 < s.length := List.length_pos_iff.mpr hs
  -- on the pieces: the span lies behind one that changes, or in the stretch before it
  induction r generalizing gap x offset with
  | nil =>
    refine ⟨x, y, heq, ?_, hx, hy⟩
    simp only [Rewriting.carried]
    split <;> omega
  | cons piece r ih =>
    obtain ⟨old, new⟩ := piece
    obtain ⟨hpiece, hrest⟩ := hspares
    unfold Rewriting.parts at hold hnew
    rw [Rewriting.before, List.flatMap_cons, ← Rewriting.before] at heq
    rw [Rewriting.after, List.flatMap_cons, ← Rewriting.after]
    by_cases hsame : old = new
    · subst hsame
      rw [if_pos rfl] at hold hnew
      rw [← List.append_assoc] at heq ⊢
      rw [← Rewriting.carried_append]
      have hspares' : Rewriting.Spares (offset + x.length) (offset + x.length + s.length)
          (offset + (gap ++ old).length) r := by rwa [List.length_append, ← Nat.add_assoc]
      exact ih hold hnew hspares' heq hx
    · rw [if_neg hsame] at hold hnew
      obtain ⟨hgap, hold', hparts⟩ := hold
      obtain ⟨hgap', hnew', hparts'⟩ := hnew
      rw [List.flatten_cons] at hgap hgap'
      rw [Rewriting.flatten_parts_fst, List.nil_append] at hgap hold'
      rw [Rewriting.flatten_parts_snd, List.nil_append] at hgap' hnew'
      rcases hpiece with heq | hbehind | hbefore
      · exact absurd heq hsame
      · -- the span lies behind what is taken out
        have hfront : gap ++ old <+: x :=
          List.prefix_of_prefix_length_le ⟨Rewriting.before r, by rw [List.append_assoc, heq]⟩
            (List.prefix_append _ _) (by rw [List.length_append]; omega)
        obtain ⟨x, rfl⟩ := hfront
        simp only [List.append_assoc] at heq
        have hrest' : Rewriting.before r = x ++ (s ++ y) :=
          List.append_cancel_left (List.append_cancel_left heq)
        rw [hrest'] at hgap hold'
        have hspares' : Rewriting.Spares (offset + gap.length + old.length + x.length)
            (offset + gap.length + old.length + x.length + s.length)
            (offset + gap.length + old.length + ([] : Text).length) r := by
          simpa [Nat.add_assoc] using hrest
        obtain ⟨x', y', hafter, hlength, hx', hy'⟩ := ih hparts hparts' hspares'
          hrest' ((hgap.append hold').behind hx)
        rw [List.nil_append] at hafter
        rw [hafter] at hgap' hnew'
        refine ⟨gap ++ new ++ x', y', by simp [hafter], ?_, (hgap'.append hnew').append hx', hy'⟩
        simp only [Rewriting.carried, List.length_nil, Nat.zero_le, if_true, Nat.sub_zero,
          Nat.zero_add] at hlength
        simp only [Rewriting.carried, List.length_append, hlength]
        rw [if_pos (by omega), if_pos (by omega), Nat.add_assoc]
        congr 3
        omega
      · -- the span lies in the stretch in front of it
        have hfront : x ++ s <+: gap :=
          List.prefix_of_prefix_length_le ⟨y, by rw [List.append_assoc, heq]⟩
            (List.prefix_append _ _) (by rw [List.length_append]; omega)
        obtain ⟨z, rfl⟩ := hfront
        rw [List.append_assoc, List.append_assoc] at heq
        obtain rfl := List.append_cancel_left (List.append_cancel_left heq)
        rw [List.append_assoc] at hgap'
        obtain ⟨hx', hy'⟩ := hx.span hy hgap'
        refine ⟨x, z ++ (new ++ Rewriting.after r), by simp, ?_, hx', hy'⟩
        rw [Rewriting.carried, if_neg (by simp only [List.length_append]; omega)]

end Lexicon

namespace Parser

variable {p : Parser} {t : Text} {d : Document} {known : Bodies}

/-! ## A parser and its own merge -/

theorem flatten_before (segments : List Segment) (known : Bodies) :
    ((segments.flatMap (·.rewriting known)).map Prod.fst).flatten =
      segments.flatMap Segment.text := by
  have hbefore := Document.before_rewriting (.ofSegments segments) known
  rw [Document.rewriting, Document.segments_ofSegments, Document.text_ofSegments] at hbefore
  rw [← List.flatMap_def]
  exact hbefore

theorem flatten_after (segments : List Segment) (known : Bodies) :
    ((segments.flatMap (·.rewriting known)).map Prod.snd).flatten =
      (segments.map (·.restore known)).flatMap Segment.text := by
  have hafter := Document.after_rewriting (.ofSegments segments) known
  rw [Document.rewriting, Document.merge, Document.segments_ofSegments,
    Document.text_ofSegments] at hafter
  rw [← List.flatMap_def]
  exact hafter

theorem Reads.divides {segments : List Segment} (h : p.Reads t segments) (known : Bodies) :
    p.lexicon.Divides ((segments.flatMap (·.rewriting known)).map Prod.fst) := by
  have hplain : ∀ before pieces, p.lexicon.Halts before pieces.flatten →
      p.lexicon.Divides pieces →
      p.lexicon.Divides (((plainTail before).flatMap (·.rewriting known)).map Prod.fst ++ pieces) := by
    intro before pieces hbefore hpieces
    unfold plainTail
    split
    · exact hpieces
    · exact ⟨.nil _, hbefore, .nil _, hpieces⟩
  induction h with
  | plain passes =>
    have hdivides := hplain _ [] passes.halts trivial
    rwa [List.append_nil] at hdivides
  | @region before opening content ending rest id m e segments passes starts opens body ends closes
      reads ih =>
    have hrest := flatten_before segments known
    rw [reads.text] at hrest
    rw [← hrest] at passes starts body ends
    rw [List.flatMap_append, List.map_append]
    exact hplain _ _ passes.halts ⟨starts.halts, body.halts, ends.halts, ih⟩

/-- The segment stands in the text as a region, and begins at a position where the walk
comes to stand. -/
def Stands (p : Parser) (t : Text) (start : Nat) (s : Segment) : Prop :=
  ∃ before rest, t = before ++ (s.text ++ rest) ∧ before.length = start ∧
    p.lexicon.Halts before (s.text ++ rest) ∧ p.Frames s rest

variable {s : Segment} {start : Nat}

theorem Stands.mem (h : p.Stands t start s) (hd : p.parse t = .ok d) : s ∈ d.segments := by
  obtain ⟨before, rest, heq, -, halts, frames⟩ := h
  obtain ⟨segments, reads, rfl⟩ := parse_eq_ok_iff.mp hd
  rw [Document.segments_ofSegments]
  exact reads.mem_of_frames heq halts frames

/-- A region with its known body is one in front of every text before which the walk comes
to stand, if that body has no markers. -/
theorem Frames.restore (h : p.Frames s [])
    (hquiet : s.Rewritten known → p.Passes (s.restore known).content []) {pieces : List Text}
    (hdivides : p.lexicon.Divides ((s.rewriting known).map Prod.snd ++ pieces)) :
    p.Frames (s.restore known) pieces.flatten := by
  obtain ⟨hstart, hbody, hend, -⟩ := hdivides
  obtain ⟨id, m, e, hid, opens, closes, starts, body, ends⟩ := h
  have hpasses : p.Passes (s.restore known).content [] := by
    by_cases hrewritten : s.Rewritten known
    · exact hquiet hrewritten
    · rw [Segment.restore_content_of_not_rewritten hrewritten]
      exact body.alone
  refine ⟨id, m, e, by rw [Segment.restore_id, hid], opens, closes, ?_, ?_, ?_⟩
  · rw [Segment.restore_startMarker, Segment.restore_endMarker]
    exact starts.alone.of_halts hstart
  · rw [Segment.restore_endMarker]
    exact hpasses.of_halts hbody
  · rw [Segment.restore_endMarker]
    exact ends.of_halts hend

/-- Where the merged text is divided at the ends of the bodies that were put in, and these
have no markers, all its regions stand in it. -/
theorem stands_of_merge (hd : p.parse t = .ok d)
    (hparts : p.lexicon.Divides ((d.rewriting known).parts Prod.snd []))
    (hquiet : ∀ s ∈ d.segments, s.Rewritten known → p.Passes (s.restore known).content []) :
    ∀ q ∈ (d.merge known).regions, p.Stands (d.merge known).text q.start q.segment := by
  obtain ⟨segments, reads, rfl⟩ := parse_eq_ok_iff.mp hd
  rw [Document.rewriting, Document.segments_ofSegments] at hparts
  rw [Document.segments_ofSegments] at hquiet
  have hdivides := (reads.divides known).after hparts
  intro q hq
  obtain ⟨hplaced, hregion⟩ := List.mem_filter.mp hq
  rw [Document.merge, Document.segments_ofSegments] at hplaced ⊢
  obtain ⟨first, second, hsplit, hstart, -⟩ := Document.exists_append_of_mem_place hplaced
  obtain ⟨before, own, rfl, rfl, hown⟩ := List.map_eq_append_iff.mp hsplit
  obtain ⟨s, behind, rfl, hs, rfl⟩ := List.map_eq_cons_iff.mp hown
  rw [List.flatMap_append, List.flatMap_cons, List.map_append, List.map_append] at hdivides
  obtain ⟨hbefore, hrest⟩ := hdivides.halts
  have hmem : s ∈ before ++ s :: behind := List.mem_append_right _ List.mem_cons_self
  rw [← hs] at hregion ⊢
  rw [Segment.isRegion, Segment.restore_id] at hregion
  have hframes := (reads.frames hmem hregion).restore (hquiet s hmem) hrest
  rw [flatten_after] at hframes
  rw [List.flatten_append, flatten_after, flatten_after, ← List.flatMap_def,
    ← Text.Rewriting.after, Segment.after_rewriting] at hbefore
  refine ⟨_, _, ?_, ?_, hbefore, hframes⟩
  · simp [Document.text_ofSegments]
  · rw [hstart, Nat.zero_add]

/-- A region that another merge does not touch stands in what that makes of the text, if no
comment reaches over an end of a body that is taken out or put in. -/
theorem Stands.merge {segments : List Segment} (h : p.Stands d.text start s)
    (hd : d = .ofSegments segments)
    (hold : p.lexicon.Divides ((d.rewriting known).parts Prod.fst []))
    (hnew : p.lexicon.Divides ((d.rewriting known).parts Prod.snd []))
    (hspares : d.Spares known start (start + s.text.length)) :
    p.Stands (d.merge known).text (d.carried known start) s := by
  obtain ⟨before, rest, heq, rfl, halts, frames⟩ := h
  rw [hd] at hspares
  have hplaces := Document.spares_place hspares
  rw [← Document.segments_ofSegments segments, ← Document.rewriting, ← hd] at hplaces
  have hspan : (d.rewriting known).Spares (0 + before.length)
      (0 + before.length + s.text.length) (0 + ([] : Text).length) := by simpa using hplaces
  rw [← Document.before_rewriting d known, ← List.nil_append (Rewriting.before _)] at heq
  obtain ⟨before', rest', hafter, hlength, halts', hs⟩ :=
    Lexicon.Divides.moved hold hnew frames.text_ne_nil hspan heq halts frames.halts
  rw [List.nil_append, Document.after_rewriting] at hafter
  refine ⟨before', rest', hafter, ?_, halts', frames.alone.of_halts hs⟩
  simp [hlength, Rewriting.carried, Document.carried]

end Parser

namespace Segment

theorem restore_eq_withContent (known : Bodies) (s : Segment) :
    s.restore known = s.withContent (s.restore known).content := by
  unfold restore
  split <;> rfl

end Segment

namespace Support

variable {w : Workspace} {pool : Pool} {path t u : Text} {p : Parser} {parsers : List Parser}
  {links : List Link}

/-! ## A parser and the rest of its chain -/

/-- What the parser of the link did to the text that it read. -/
def Link.rewriting (l : Link) : Rewriting := l.document.rewriting l.bodies

/-- Each parser that is for a file with what it read and knew, as far as the chain goes. -/
def chain (w : Workspace) (pool : Pool) (path : Text) : List Parser → Text → List (Parser × Link)
  | [], _ => []
  | p :: parsers, t =>
    match p.parse t, known w pool path p with
    | .ok d, .ok bodies => (p, ⟨d, bodies⟩) :: chain w pool path parsers (d.merge bodies).text
    | _, _ => []

theorem Links.length_eq (h : Links w pool path parsers t links u) :
    links.length = parsers.length := by
  induction h with
  | nil => rfl
  | cons _ _ _ ih => rw [List.length_cons, List.length_cons, ih]

theorem Links.chain_eq (h : Links w pool path parsers t links u) :
    chain w pool path parsers t = parsers.zip links := by
  induction h with
  | nil => rfl
  | cons parses knows _ ih =>
    rw [chain, parses, knows, List.zip_cons_cons, ← ih]
    rfl

/-- No comment of a parser that left a region reaches over an end of a body that it or a
later one put in, or that a later one took out. -/
def Apart : List (Parser × Link) → Prop
  | [] => True
  | (p, l) :: later => (l.merged.regions ≠ [] →
      p.lexicon.Divides (l.rewriting.parts Prod.snd []) ∧
        ∀ x ∈ later, p.lexicon.Divides (x.2.rewriting.parts Prod.fst []) ∧
          p.lexicon.Divides (x.2.rewriting.parts Prod.snd [])) ∧ Apart later

/-- No body that a parser put in has a marker of that parser. -/
def Quiet (chain : List (Parser × Link)) : Prop :=
  ∀ x ∈ chain, ∀ s ∈ x.2.document.segments, s.Rewritten x.2.bodies →
    x.1.Passes (s.restore x.2.bodies).content []

/-- No later parser put another body where one before it left a region. -/
def Undisturbed : List (Parser × Link) → Prop
  | [] => True
  | (_, l) :: later => (∀ q ∈ l.merged.regions,
      Untouched (later.map Prod.snd) q.start q.segment.text.length) ∧ Undisturbed later

instance decidableApart : (chain : List (Parser × Link)) → Decidable (Apart chain)
  | [] => isTrue trivial
  | (_, _) :: later =>
    have := decidableApart later
    inferInstanceAs (Decidable ((_ → _ ∧ _) ∧ _))

instance (chain : List (Parser × Link)) : Decidable (Quiet chain) :=
  inferInstanceAs (Decidable (∀ x ∈ chain, ∀ s ∈ x.2.document.segments, s.Rewritten x.2.bodies →
    x.1.Passes (s.restore x.2.bodies).content []))

instance decidableUndisturbed : (chain : List (Parser × Link)) → Decidable (Undisturbed chain)
  | [] => isTrue trivial
  | (_, _) :: later =>
    have := decidableUndisturbed later
    inferInstanceAs (Decidable (_ ∧ _))

theorem Links.stands {q : Parser} {start : Nat} {s : Segment}
    (h : Links w pool path parsers t links u)
    (hapart : ∀ l ∈ links, q.lexicon.Divides (l.rewriting.parts Prod.fst []) ∧
      q.lexicon.Divides (l.rewriting.parts Prod.snd []))
    (untouched : Untouched links start s.text.length) (hs : q.Stands t start s) :
    q.Stands u (carried links start) s := by
  induction h generalizing start with
  | nil => exact hs
  | @cons p parsers t u l links parses _ _ ih =>
    obtain ⟨hspares, hrest⟩ := untouched
    obtain ⟨hold, hnew⟩ := hapart l List.mem_cons_self
    obtain ⟨segments, -, hsegments⟩ := Parser.parse_eq_ok_iff.mp parses
    rw [← Parser.text_of_parse parses] at hs
    exact ih (fun m hm => hapart m (List.mem_cons_of_mem _ hm)) hrest
      (hs.merge hsegments hold hnew hspares)

/-- A parser that accepts what comes out of its chain finds the regions again that it left,
with their bodies. -/
theorem Links.mem_segments (h : Links w pool path parsers t links u)
    (apart : Apart (parsers.zip links)) (quiet : Quiet (parsers.zip links))
    (undisturbed : Undisturbed (parsers.zip links)) {p : Parser} {l : Link}
    (hmem : (p, l) ∈ parsers.zip links) {again : Document} (hagain : p.parse u = .ok again) :
    ∀ q ∈ l.merged.regions, q.segment ∈ again.segments := by
  induction h with
  | nil => cases hmem
  | @cons p' parsers t u l' links parses _ tail ih =>
    rw [List.zip_cons_cons] at apart quiet undisturbed hmem
    obtain ⟨hdivides, hapart⟩ := apart
    obtain ⟨huntouched, hundisturbed⟩ := undisturbed
    rcases List.mem_cons.mp hmem with heq | hmem
    · obtain ⟨rfl, rfl⟩ := Prod.mk.inj heq
      intro q hq
      obtain ⟨hown, hlater⟩ := hdivides (List.ne_nil_of_mem hq)
      have hstands := Parser.stands_of_merge parses hown (quiet (p, l) List.mem_cons_self) q hq
      have hlinks : (parsers.zip links).map Prod.snd = links :=
        List.map_snd_zip (Nat.le_of_eq tail.length_eq)
      have hspared := huntouched q hq
      rw [hlinks] at hspared
      refine (tail.stands (fun m hm => ?_) hspared hstands).mem hagain
      rw [← hlinks] at hm
      obtain ⟨x, hx, rfl⟩ := List.mem_map.mp hm
      exact hlater x hx
    · exact ih hapart (fun x hx => quiet x (List.mem_cons_of_mem _ hx)) hundisturbed hmem hagain

/-- A chain comes to the same text again where each parser finds the regions that it left in
that text, and knows the bodies that they have there. -/
theorem Links.restoreAll_again {w' : Workspace} {pool' : Pool}
    (h : Links w pool path parsers t links u)
    (hfinds : ∀ x ∈ parsers.zip links, ∀ again, x.1.parse u = .ok again →
      ∀ q ∈ x.2.merged.regions, q.segment ∈ again.segments)
    (hknows : ∀ p ∈ parsers, ∃ again bodies, p.parse u = .ok again ∧
      known w' pool' path p = .ok bodies ∧
        ∀ s ∈ again.segments, ∀ id, s.id = some id → bodies id = some s.content) :
    (restoreAll w' pool' path parsers t).result = .ok u := by
  induction h with
  | nil => rfl
  | @cons p parsers t u l links parses _ _ ih =>
    obtain ⟨again, bodies, hagain, hbodies, hown⟩ := hknows p List.mem_cons_self
    -- what the parser put into a region is what it finds there in `u`, and knows
    have hsame : l.document.merge bodies = l.merged := by
      unfold Link.merged Document.merge
      refine congrArg _ (List.map_congr_left fun s hs => ?_)
      cases hid : s.id with
      | none => simp [Segment.restore, hid]
      | some id =>
        have hmerged : s.restore l.bodies ∈ l.merged.segments := by
          rw [Link.merged, Document.merge, Document.segments_ofSegments]
          exact List.mem_map_of_mem hs
        obtain ⟨q, hq, hsegment⟩ :=
          Document.exists_region hmerged ((Segment.restore_id _ _).trans hid)
        have hfound := hfinds (p, l) List.mem_cons_self again hagain q hq
        rw [hsegment] at hfound
        have hbody := hown _ hfound id ((Segment.restore_id _ _).trans hid)
        rw [Segment.restore_eq_withContent l.bodies]
        simp [Segment.restore, hid, hbody]
    refine restoreAll_cons_eq_ok_iff.mpr ⟨_, bodies, parses, hbodies, ?_⟩
    rw [hsame]
    exact ih (fun x hx => hfinds x (List.mem_cons_of_mem _ hx))
      fun q hq => hknows q (List.mem_cons_of_mem _ hq)

end Support
end ProtectedRegions
