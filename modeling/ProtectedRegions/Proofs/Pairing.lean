import ProtectedRegions.Proofs.Comments
import ProtectedRegions.Proofs.Tiling

/-
  Pairing — which texts a parser accepts, and what it blames in the others

  The parser decides in one pass. Here the same is said in two steps: take the
  comments of the text, keep those that the oracle takes for markers, and look
  at the sequence of these alone. It is accepted when it is a sequence of pairs,
  a start that names an id and an end that names no other; otherwise the first
  marker that breaks the sequence is to blame, or the last start when only its
  end is missing.

  What is proved:
    1. `pairs_or_faulty` — a sequence of markers is paired or faulty.
    2. `reads_of_pairs` — a paired text reads as the regions of its pairs.
    3. `split_of_faulty` — in a faulty text the parser stops at the fault.
    4. `parse_iff_pairs` — the parser accepts exactly the paired texts, and
       otherwise names the fault with its line.
-/

namespace ProtectedRegions

/-- The oracle of a parser is a function from comment bodies to markers, and the
closing tokens of its lexicon are texts. -/
structure Parser.Answers (p : Parser) (answer : Text → Option Marker) : Prop where
  usable : p.lexicon.Usable
  classify : ∀ body, p.oracle.classify body = .ok (answer body)

/-! ## Sequences of markers -/

/-- The comments that are markers, in order. -/
def sightings (answer : Text → Option Marker) (os : List Occurrence) : List (Occurrence × Marker) :=
  os.filterMap fun o => (answer o.body).map fun m => (o, m)

/-- The markers are pairs of a start with an id and an end with no other id, and
the regions are what stands between the pairs in the text. -/
inductive Pairs (t : Text) : List (Occurrence × Marker) → List Placed → Prop where
  | nil : Pairs t [] []
  | cons {s e : Occurrence} {m n : Marker} {id : Text} {ms : List (Occurrence × Marker)}
      {regions : List Placed} (opens : m.Opens id) (closes : n.Closes id)
      (tail : Pairs t ms regions) :
      Pairs t ((s, m) :: (e, n) :: ms)
        (⟨.region id (t.slice s.position s.stop) (t.slice s.stop e.position)
            (t.slice e.position e.stop), s.position, e.stop⟩ :: regions)

/-- How a marker breaks the sequence behind which `opened` is the open region. -/
inductive Breaks : Option Text → Marker → Malformed → Prop where
  | startWithoutId {opened : Option Text} {m : Marker} (kind : m.kind = .start)
      (unnamed : m.id.getD [] = []) : Breaks opened m .startWithoutId
  | startWhileOpen {openId id : Text} {m : Marker} (opens : m.Opens id) :
      Breaks (some openId) m (.startWhileOpen id openId)
  | endWithoutStart {m : Marker} (kind : m.kind = .finish) : Breaks none m (.endWithoutStart m.id)
  | endOfOther {openId id : Text} {m : Marker} (kind : m.kind = .finish) (named : m.id = some id)
      (other : id ≠ openId) : Breaks (some openId) m (.endOfOther id openId)
  | unknownKind {opened : Option Text} {name : Text} {m : Marker} (kind : m.kind = .other name) :
      Breaks opened m (.unknownKind name)

/-- The first fault of a sequence of markers, and the comment to blame for it:
behind any number of pairs a marker that breaks the sequence, or a start that is
the last marker. -/
inductive Faulty : List (Occurrence × Marker) → Malformed → Occurrence → Prop where
  | outside {o : Occurrence} {m : Marker} {cause : Malformed} {ms : List (Occurrence × Marker)}
      (breaks : Breaks none m cause) : Faulty ((o, m) :: ms) cause o
  | inside {s o : Occurrence} {m n : Marker} {id : Text} {cause : Malformed}
      {ms : List (Occurrence × Marker)} (opens : m.Opens id) (breaks : Breaks (some id) n cause) :
      Faulty ((s, m) :: (o, n) :: ms) cause o
  | unclosed {s : Occurrence} {m : Marker} {id : Text} (opens : m.Opens id) :
      Faulty [(s, m)] (.unterminated id) s
  | later {s e o : Occurrence} {m n : Marker} {id : Text} {cause : Malformed}
      {ms : List (Occurrence × Marker)} (opens : m.Opens id) (closes : n.Closes id)
      (tail : Faulty ms cause o) : Faulty ((s, m) :: (e, n) :: ms) cause o

theorem opens_or_breaks (m : Marker) : (∃ id, m.Opens id) ∨ ∃ cause, Breaks none m cause := by
  obtain ⟨kind, id⟩ := m
  cases kind with
  | start =>
    by_cases hid : id.getD [] = []
    · exact .inr ⟨_, .startWithoutId rfl hid⟩
    · cases id with
      | none => exact absurd rfl hid
      | some id => exact .inl ⟨id, rfl, rfl, hid⟩
  | finish => exact .inr ⟨_, .endWithoutStart rfl⟩
  | other name => exact .inr ⟨_, .unknownKind rfl⟩

theorem closes_or_breaks (openId : Text) (m : Marker) :
    m.Closes openId ∨ ∃ cause, Breaks (some openId) m cause := by
  obtain ⟨kind, id⟩ := m
  cases kind with
  | start =>
    by_cases hid : id.getD [] = []
    · exact .inr ⟨_, .startWithoutId rfl hid⟩
    · cases id with
      | none => exact absurd rfl hid
      | some id => exact .inr ⟨_, .startWhileOpen ⟨rfl, rfl, hid⟩⟩
  | finish =>
    cases id with
    | none => exact .inl ⟨rfl, .inl rfl⟩
    | some id =>
      by_cases hid : id = openId
      · exact .inl ⟨rfl, .inr (by rw [hid])⟩
      · exact .inr ⟨_, .endOfOther rfl rfl hid⟩
  | other name => exact .inr ⟨_, .unknownKind rfl⟩

theorem pairs_or_faulty (t : Text) : ∀ ms : List (Occurrence × Marker),
    (∃ regions, Pairs t ms regions) ∨ ∃ cause o, Faulty ms cause o
  | [] => .inl ⟨[], .nil⟩
  | (s, m) :: ms => by
    rcases opens_or_breaks m with ⟨id, opens⟩ | ⟨cause, breaks⟩
    · match ms with
      | [] => exact .inr ⟨_, s, .unclosed opens⟩
      | (e, n) :: ms =>
        rcases closes_or_breaks id n with closes | ⟨cause, breaks⟩
        · rcases pairs_or_faulty t ms with ⟨regions, tail⟩ | ⟨cause, o, tail⟩
          · exact .inl ⟨_, .cons opens closes tail⟩
          · exact .inr ⟨cause, o, .later opens closes tail⟩
        · exact .inr ⟨cause, e, .inside opens breaks⟩
    · exact .inr ⟨cause, s, .outside breaks⟩

theorem Parser.pair_eq_error {opened : Option OpenRegion} {find : Find} {position : Nat}
    {cause : Malformed} (h : Breaks (opened.map (·.id)) find.marker cause) :
    pair opened find position = .error cause := by
  obtain ⟨before, ⟨kind, id⟩, comment, rest⟩ := find
  generalize hopen : opened.map (·.id) = openId at h
  cases h with
  | startWithoutId hkind unnamed =>
    obtain rfl : kind = .start := hkind
    have hid : id.getD [] = [] := unnamed
    cases opened <;> simp [pair, hid]
  | startWhileOpen opens =>
    obtain ⟨rfl, rfl, hne⟩ := opens
    obtain ⟨r, rfl, rfl⟩ := Option.map_eq_some_iff.mp hopen
    rename_i id
    cases id with
    | nil => exact absurd rfl hne
    | cons c id => simp [pair]
  | endWithoutStart hkind =>
    obtain rfl : kind = .finish := hkind
    obtain rfl := Option.map_eq_none_iff.mp hopen
    rfl
  | endOfOther hkind named other =>
    obtain rfl : kind = .finish := hkind
    obtain rfl : id = some _ := named
    obtain ⟨r, rfl, rfl⟩ := Option.map_eq_some_iff.mp hopen
    simp [pair, other]
  | unknownKind hkind =>
    obtain rfl : kind = .other _ := hkind
    cases opened <;> rfl

/-! ## From the comments to the walk over the text -/

namespace Parser

open Document (place regions_place_reading regions_place_plainTail)

variable {p : Parser} {answer : Text → Option Marker}

theorem passes_of_no_sighting (hp : p.Answers answer) {position : Nat} {t : Text}
    {os : List Occurrence} (h : p.lexicon.Comments position t os)
    (hms : sightings answer os = []) : p.Passes t [] := by
  induction h with
  | nil => exact .nil _
  | char bare _ ih =>
    refine .char ?_ (ih hms)
    rw [List.append_nil]
    exact Lexicon.match_eq_none_iff.mpr bare
  | @comment position c body ending rest os begins ends _ ih =>
    have hquiet : answer body = none := by
      cases ha : answer body with
      | none => rfl
      | some m => simp [sightings, ha] at hms
    have htail : sightings answer os = [] := by simpa [sightings, hquiet] using hms
    have hcuts := begins.cuts ends
    have hpass := @Passes.comment p ⟨c.opening, body, ending, rest⟩ rest []
      (by simpa [Cut.comment] using hcuts) (by rw [hp.classify, hquiet]) (ih htail)
    simpa [Cut.comment] using hpass

/-- The first comment that is a marker is where the walk over the text stops. -/
theorem marks_of_sighting (hp : p.Answers answer) {position : Nat} {t : Text}
    {os : List Occurrence} (h : p.lexicon.Comments position t os) {o : Occurrence} {m : Marker}
    {ms : List (Occurrence × Marker)} (hms : sightings answer os = (o, m) :: ms) :
    ∃ piece rest os', t = piece ++ (o.comment ++ rest) ∧ o.position = position + piece.length ∧
      p.Passes piece (o.comment ++ rest) ∧ p.Marks o.comment m rest ∧
      p.lexicon.Comments o.stop rest os' ∧ sightings answer os' = ms := by
  induction h with
  | nil => simp [sightings] at hms
  | @char position c t os bare _ ih =>
    obtain ⟨piece, rest, os', rfl, hpos, passes, marks, tail, hms'⟩ := ih hms
    refine ⟨c :: piece, rest, os', rfl, ?_, ?_, marks, tail, hms'⟩
    · simp only [List.length_cons]
      omega
    · exact .char (Lexicon.match_eq_none_iff.mpr bare) passes
  | @comment position c body ending rest os begins ends htail ih =>
    have hcuts : p.lexicon.Cuts (c.opening ++ body ++ ending ++ rest)
        ⟨c.opening, body, ending, rest⟩ := by simpa using begins.cuts ends
    cases ha : answer body with
    | none =>
      have hms : sightings answer os = (o, m) :: ms := by simpa [sightings, ha] using hms
      obtain ⟨piece, rest', os', rfl, hpos, passes, marks, tail, hms'⟩ := ih hms
      refine ⟨c.opening ++ body ++ ending ++ piece, rest', os', by simp, ?_, ?_, marks, tail,
        hms'⟩
      · simp only [List.length_append] at hpos ⊢
        omega
      · exact @Passes.comment p ⟨c.opening, body, ending, piece ++ (o.comment ++ rest')⟩ _ _ hcuts
          (by rw [hp.classify, ha]) passes
    | some found =>
      simp only [sightings, List.filterMap_cons, ha, Option.map_some, List.cons.injEq,
        Prod.mk.injEq] at hms
      obtain ⟨⟨rfl, rfl⟩, rfl⟩ := hms
      refine ⟨[], rest, os, ?_, by simp, .nil _, ?_, htail, rfl⟩
      · simp [Occurrence.comment]
      · exact ⟨_, hcuts, rfl, by rw [hp.classify, ha]⟩

theorem reads_of_pairs (hp : p.Answers answer) {whole : Text} {ms : List (Occurrence × Marker)}
    {regions : List Placed} (h : Pairs whole ms regions) (before : Text) {t : Text}
    {os : List Occurrence}
    (hwhole : whole = before ++ t) (hos : p.lexicon.Comments before.length t os)
    (hms : sightings answer os = ms) :
    ∃ segments, p.Reads t segments ∧
      (place before.length segments).filter (·.segment.isRegion) = regions := by
  induction h generalizing before t os with
  | nil =>
    exact ⟨_, .plain (passes_of_no_sighting hp hos hms), regions_place_plainTail _ _⟩
  | @cons s e m n id ms regions opens closes _ ih =>
    obtain ⟨plain, behind, os', rfl, hs, passes, starts, hos', hms'⟩ := marks_of_sighting hp hos hms
    obtain ⟨content, rest, os'', rfl, he, body, ends, hos'', hms''⟩ :=
      marks_of_sighting hp hos' hms'
    have hstop : e.stop = (before ++ plain ++ s.comment ++ content ++ e.comment).length := by
      simp only [Occurrence.stop, List.length_append] at hs he ⊢
      omega
    obtain ⟨segments, reads, hregions⟩ := ih (before ++ plain ++ s.comment ++ content ++
      e.comment) (t := rest) (by rw [hwhole]; simp) (by rwa [← hstop]) hms''
    refine ⟨_, .region passes starts opens body ends closes reads, ?_⟩
    -- the three slices of the region are the pieces that the walk found
    have hmarker : whole.slice s.position s.stop = s.comment := by
      have := Text.slice_append (before ++ plain) s.comment (content ++ (e.comment ++ rest))
      rwa [List.length_append, ← hs, List.append_assoc, ← hwhole] at this
    have hcontent : whole.slice s.stop e.position = content := by
      have := Text.slice_append (before ++ plain ++ s.comment) content (e.comment ++ rest)
      rw [List.length_append, List.length_append, ← hs] at this
      rw [he, hwhole]
      simpa [Occurrence.stop] using this
    have hending : whole.slice e.position e.stop = e.comment := by
      have := Text.slice_append (before ++ plain ++ s.comment ++ content) e.comment rest
      rw [List.length_append, List.length_append, List.length_append, ← hs] at this
      have hpos : e.position = s.position + s.comment.length + content.length := he
      rw [Occurrence.stop, hpos, hwhole]
      simpa using this
    rw [regions_place_reading, hmarker, hcontent, hending, ← hs]
    have hlen : s.position + s.comment.length + content.length + e.comment.length = e.stop := by
      simp only [Occurrence.stop] at he ⊢
      omega
    rw [hlen, hstop, hregions]

theorem seek_of_sighting (hp : p.Answers answer) {position : Nat} {t : Text}
    {os : List Occurrence} (h : p.lexicon.Comments position t os) {o : Occurrence} {m : Marker}
    {ms : List (Occurrence × Marker)} (hms : sightings answer os = (o, m) :: ms) :
    ∃ piece rest os', p.seek [] t = .ok (some ⟨piece, m, o.comment, rest⟩) ∧
      position + piece.length = o.position ∧ p.lexicon.Comments o.stop rest os' ∧
      sightings answer os' = ms := by
  obtain ⟨piece, rest, os', rfl, hpos, passes, marks, tail, hms'⟩ := marks_of_sighting hp h hms
  refine ⟨piece, rest, os', ?_, hpos.symm, tail, hms'⟩
  rw [passes.seek, marks.seek, List.append_nil, List.reverse_reverse]

theorem split_of_breaks (hp : p.Answers answer) {position : Nat} {t : Text}
    {os : List Occurrence} (h : p.lexicon.Comments position t os) {o : Occurrence} {m : Marker}
    {ms : List (Occurrence × Marker)} (hms : sightings answer os = (o, m) :: ms)
    (opened : Option OpenRegion) {cause : Malformed} (breaks : Breaks (opened.map (·.id)) m cause)
    (whole : Text) :
    p.split whole opened position t = .error (.malformed cause (whole.lineOf o.position)) := by
  obtain ⟨piece, rest, os', hseek, hpos, _, _⟩ := seek_of_sighting hp h hms
  rw [split_of_seek_some hseek, pair_eq_error breaks]
  simp only [hpos]

/-- Behind a marker that fits the walk goes on, and what refuses the rest of the
text refuses the text. -/
theorem split_of_fits (hp : p.Answers answer) {position : Nat} {t : Text}
    {os : List Occurrence} (h : p.lexicon.Comments position t os) {o : Occurrence} {m : Marker}
    {ms : List (Occurrence × Marker)} (hms : sightings answer os = (o, m) :: ms)
    (opened next : Option OpenRegion)
    (fits : ∀ before rest, ∃ segments,
      pair opened ⟨before, m, o.comment, rest⟩ o.position = .ok (next, segments))
    (whole : Text) :
    ∃ rest os', p.lexicon.Comments o.stop rest os' ∧ sightings answer os' = ms ∧
      ∀ e, p.split whole next o.stop rest = .error e →
        p.split whole opened position t = .error e := by
  obtain ⟨piece, rest, os', hseek, hpos, hos', hms'⟩ := seek_of_sighting hp h hms
  obtain ⟨segments, hpair⟩ := fits piece rest
  refine ⟨rest, os', hos', hms', ?_⟩
  intro e he
  rw [split_of_seek_some hseek]
  simp only [hpos]
  rw [hpair]
  simp only
  rw [← Occurrence.stop, he]

theorem split_of_faulty (hp : p.Answers answer) {ms : List (Occurrence × Marker)}
    {cause : Malformed} {o : Occurrence} (h : Faulty ms cause o) {position : Nat} {t : Text}
    {os : List Occurrence} (hos : p.lexicon.Comments position t os)
    (hms : sightings answer os = ms) (whole : Text) :
    p.split whole none position t = .error (.malformed cause (whole.lineOf o.position)) := by
  induction h generalizing position t os with
  | outside breaks => exact split_of_breaks hp hos hms none breaks whole
  | @inside s o m n id cause ms opens breaks =>
    obtain ⟨rest, os', hos', hms', hopen⟩ := split_of_fits hp hos hms none
      (some ⟨id, s.comment, s.position⟩)
      (fun _ _ => ⟨_, pair_none_eq_ok.mpr ⟨id, opens, rfl, rfl⟩⟩) whole
    exact hopen _ (split_of_breaks hp hos' hms' (some ⟨id, s.comment, s.position⟩) breaks whole)
  | @unclosed s m id opens =>
    obtain ⟨rest, os', hos', hms', hopen⟩ := split_of_fits hp hos hms none
      (some ⟨id, s.comment, s.position⟩)
      (fun _ _ => ⟨_, pair_none_eq_ok.mpr ⟨id, opens, rfl, rfl⟩⟩) whole
    -- no marker is left, so the text ends with the region open
    apply hopen
    have hseek := (passes_of_no_sighting hp hos' hms').seek []
    rw [List.append_nil, seek_nil] at hseek
    rw [split_of_seek_none hseek]
  | @later s e o m n id cause ms opens closes _ ih =>
    obtain ⟨rest, os', hos', hms', hopen⟩ := split_of_fits hp hos hms none
      (some ⟨id, s.comment, s.position⟩)
      (fun _ _ => ⟨_, pair_none_eq_ok.mpr ⟨id, opens, rfl, rfl⟩⟩) whole
    obtain ⟨rest', os'', hos'', hms'', hclose⟩ := split_of_fits hp hos' hms'
      (some ⟨id, s.comment, s.position⟩) none
      (fun _ _ => ⟨_, pair_some_eq_ok.mpr ⟨closes, rfl, rfl⟩⟩) whole
    exact hopen _ (hclose _ (ih hos'' hms''))

/-- The parser accepts exactly the texts whose markers are pairs, and its
regions are these pairs; otherwise it names the first fault, with the line of
the comment to blame. -/
theorem parse_iff_pairs (hp : p.Answers answer) (t : Text) :
    (∃ os, p.lexicon.Comments 0 t os) ∧ ∀ os, p.lexicon.Comments 0 t os →
      ((∃ d, p.parse t = .ok d) ↔ ∃ regions, Pairs t (sightings answer os) regions) ∧
      (∀ d, p.parse t = .ok d → Pairs t (sightings answer os) d.regions) ∧
      ∀ e, p.parse t = .error e ↔ ∃ cause o, Faulty (sightings answer os) cause o ∧
        e = .malformed cause (t.lineOf o.position) := by
  refine ⟨Lexicon.exists_comments hp.usable 0 t, ?_⟩
  intro os hos
  have haccepts : ∀ regions, Pairs t (sightings answer os) regions →
      ∃ d, p.parse t = .ok d ∧ d.regions = regions := by
    intro regions hpairs
    obtain ⟨segments, reads, hregions⟩ := reads_of_pairs hp hpairs [] rfl hos rfl
    exact ⟨.ofSegments segments, parse_eq_ok_iff.mpr ⟨segments, reads, rfl⟩, hregions⟩
  have hrefuses : ∀ cause o, Faulty (sightings answer os) cause o →
      p.parse t = .error (.malformed cause (t.lineOf o.position)) := by
    intro cause o hfault
    rw [parse, split_of_faulty hp hfault hos rfl t]
    rfl
  -- of the two outcomes one occurs, and each excludes the other
  rcases pairs_or_faulty t (sightings answer os) with ⟨regions, hpairs⟩ | ⟨cause, o, hfault⟩
  · obtain ⟨d, hd, rfl⟩ := haccepts regions hpairs
    refine ⟨⟨fun _ => ⟨_, hpairs⟩, fun _ => ⟨d, hd⟩⟩, ?_, ?_⟩
    · intro d' hd'
      obtain rfl : d = d' := Except.ok.inj (hd.symm.trans hd')
      exact hpairs
    · intro e
      constructor
      · intro he
        simp [hd] at he
      · intro h
        obtain ⟨cause, o, hfault, rfl⟩ := h
        simp [hrefuses cause o hfault] at hd
  · have herror := hrefuses cause o hfault
    refine ⟨⟨?_, ?_⟩, ?_, ?_⟩
    · intro h
      obtain ⟨d, hd⟩ := h
      simp [herror] at hd
    · intro h
      obtain ⟨regions, hpairs⟩ := h
      obtain ⟨d, hd, _⟩ := haccepts regions hpairs
      exact ⟨d, hd⟩
    · intro d hd
      simp [herror] at hd
    · intro e
      constructor
      · intro he
        exact ⟨cause, o, hfault, Except.error.inj (he.symm.trans herror)⟩
      · intro h
        obtain ⟨cause, o, hfault, rfl⟩ := h
        exact hrefuses cause o hfault

/-- An oracle for samples: `A` and `B` start the regions of these ids, and `e`
ends the open one. -/
def letterMarks : Text → Option Marker
  | ['A'] => some ⟨.start, some ['A']⟩
  | ['B'] => some ⟨.start, some ['B']⟩
  | ['e'] => some ⟨.finish, none⟩
  | _ => none

/-- Behind a complete region a second end is to blame, on its own line and not
on the line of the third. -/
theorem parse_iff_pairs_stray_end :
    ∃ os o, (ofPreset .cLike (.function letterMarks) false).lexicon.Comments 0
        "//A\nx/*e*/\n/*e*/\n//e".toList os ∧
      Faulty (sightings letterMarks os) (.endWithoutStart none) o ∧
      Text.lineOf "//A\nx/*e*/\n/*e*/\n//e".toList o.position = 3 := by
  have hp : (ofPreset .cLike (.function letterMarks) false).Answers letterMarks :=
    ⟨Preset.usable .cLike, fun _ => rfl⟩
  have herror : (ofPreset .cLike (.function letterMarks) false).parse
      "//A\nx/*e*/\n/*e*/\n//e".toList = .error (.malformed (.endWithoutStart none) 3) := by
    decide +kernel
  obtain ⟨⟨os, hos⟩, hall⟩ := parse_iff_pairs hp "//A\nx/*e*/\n/*e*/\n//e".toList
  obtain ⟨_, _, hblame⟩ := hall os hos
  obtain ⟨cause, o, hfault, heq⟩ := (hblame _).mp herror
  simp only [ParseError.malformed.injEq] at heq
  obtain ⟨rfl, hline⟩ := heq
  exact ⟨os, o, hos, hfault, hline.symm⟩

end Parser
end ProtectedRegions
