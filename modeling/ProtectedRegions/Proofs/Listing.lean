import Mathlib.Data.List.Forall2
import ProtectedRegions.CommandLine.Outcome
import ProtectedRegions.Proofs.Tiling

/-
  Listings — what the command prints that lists the regions of a file

  The parsers for the file read it one after the other, and the lines for the regions of
  one parser are printed before the next parser begins. A listing that is completed says
  what it should. A parser that rejects the text ends it, and what the parsers before it
  have found stays printed, in front of the message.

  `Tells` says what a line has to do with a region, `Lists` what a listing has to do with
  the parsers, and `Stops` that the listing gets no further than to some parser.

  What is proved:
    1. `Lists.regionLines_eq` and `Stops.regionLines_eq` — the lines that are made are a
       listing, of all parsers or of those in front of the one that rejects, and
       `lists_or_stops` says that it comes to one of the two.
    2. `ofRegions_cases` — the four ways in which the command ends.
    3. `ofRegions_listing` — the command ends well exactly with a complete listing and the
       number of its lines, and its message stands alone exactly if no region was found
       before.
-/

namespace ProtectedRegions
namespace CommandLine
namespace Outcome

/-! ## What a listing says -/

/-- The line has the name of the parser, the id that a start marker of the text gives to
the region which begins there, and the number of the line of that marker. -/
def Tells (p : Parser) (t : Text) (q : Placed) (line : Text) : Prop :=
  ∃ id m rest, q.segment.id = some id ∧ t.drop q.start = q.segment.startMarker ++ rest ∧
    p.Marks q.segment.startMarker m rest ∧ m.kind = .start ∧ m.id = some id ∧
    line = ' ' :: ' ' :: Text.padRight 12 ' ' p.name ++ [' '] ++ id
      ++ s!"  (line {t.lineOf q.start})".toList

/-- The lines for the regions of a text: those of the first parser in the order of its
regions, then those of the other parsers. All of them accept the text. -/
inductive Lists (t : Text) : List Parser → List Text → Prop where
  | nil : Lists t [] []
  | cons {p : Parser} {ps : List Parser} {d : Document} {here others : List Text}
      (accepts : p.parse t = .ok d) (tells : List.Forall₂ (Tells p t) d.regions here)
      (tail : Lists t ps others) : Lists t (p :: ps) (here ++ others)

/-- A parser rejects the text when the lines of those before it have been printed. -/
def Stops (t : Text) (ps : List Parser) (lines : List Text) (e : ParseError) : Prop :=
  ∃ before p after, ps = before ++ p :: after ∧ Lists t before lines ∧ p.parse t = .error e

variable {p : Parser} {ps : List Parser} {t : Text} {lines : List Text}

/-! ## The lines of the command -/

theorem Tells.eq_regionLine {q : Placed} {line : Text} (h : Tells p t q line) :
    line = regionLine p t q := by
  obtain ⟨id, -, -, hid, -, -, -, -, rfl⟩ := h
  simp only [regionLine, hid, Option.getD_some]

theorem tells_regionLine {d : Document} {q : Placed} (h : p.parse t = .ok d)
    (hq : q ∈ d.regions) : Tells p t q (regionLine p t q) := by
  obtain ⟨segments, reads, rfl⟩ := Parser.parse_eq_ok_iff.mp h
  obtain ⟨m, rest, hdrop, hmarks, hkind, hm⟩ := reads.marks_start [] hq
  obtain ⟨id, hid⟩ := Option.isSome_iff_exists.mp (List.mem_filter.mp hq).2
  refine ⟨id, m, rest, hid, hdrop, hmarks, hkind, hm.trans hid, ?_⟩
  simp only [regionLine, hid, Option.getD_some]

theorem forall₂_tells_iff {d : Document} (h : p.parse t = .ok d) :
    List.Forall₂ (Tells p t) d.regions lines ↔ lines = d.regions.map (regionLine p t) := by
  constructor
  · intro htells
    have heq : List.Forall₂ Eq (d.regions.map (regionLine p t)) lines :=
      List.forall₂_map_left_iff.mpr (htells.imp fun _ _ hq => hq.eq_regionLine.symm)
    rw [List.forall₂_eq_eq_eq] at heq
    exact heq.symm
  · rintro rfl
    exact List.forall₂_map_right_iff.mpr
      (List.forall₂_same.mpr fun q hq => tells_regionLine h hq)

/-- The lines of parsers that accept the text come first, whatever the others do. -/
theorem Lists.regionLines_append (h : Lists t ps lines) (others : List Parser) :
    regionLines t (ps ++ others) =
      (lines ++ (regionLines t others).1, (regionLines t others).2) := by
  induction h with
  | nil => rfl
  | cons accepts tells _ ih =>
    rw [List.cons_append, regionLines, accepts]
    simp only [ih, (forall₂_tells_iff accepts).mp tells, List.append_assoc]

theorem regionLines_of_error {e : ParseError} (h : p.parse t = .error e) (ps : List Parser) :
    regionLines t (p :: ps) = ([], some (.ofParse e)) := by
  rw [regionLines, h]

theorem lists_or_stops (t : Text) (ps : List Parser) :
    (∃ lines, Lists t ps lines) ∨ ∃ lines e, Stops t ps lines e := by
  induction ps with
  | nil => exact .inl ⟨[], .nil⟩
  | cons p ps ih =>
    cases hparse : p.parse t with
    | error e => exact .inr ⟨[], e, [], p, ps, rfl, .nil, hparse⟩
    | ok d =>
      have htells := (forall₂_tells_iff hparse).mpr rfl
      rcases ih with ⟨lines, hlists⟩ | ⟨lines, e, before, r, after, rfl, hlists, hreject⟩
      · exact .inl ⟨_, .cons hparse htells hlists⟩
      · exact .inr ⟨_, e, p :: before, r, after, rfl, .cons hparse htells hlists, hreject⟩

theorem Lists.regionLines_eq (h : Lists t ps lines) : regionLines t ps = (lines, none) := by
  have := h.regionLines_append []
  rwa [List.append_nil, regionLines, List.append_nil] at this

theorem Stops.regionLines_eq {e : ParseError} (h : Stops t ps lines e) :
    regionLines t ps = (lines, some (.ofParse e)) := by
  obtain ⟨before, p, after, rfl, hlists, hreject⟩ := h
  rw [hlists.regionLines_append, regionLines_of_error hreject, List.append_nil]

/-! ## What the command prints -/

def totalLine (n : Nat) (path : Text) : Text := s!"{n} protected regions in {path.str}".toList

def errorLine (message : String) : Text := s!"ERROR: {message}".toList

/-- What the command goes on: a file at the path, its text, and the parsers of the
configuration that have no filter or one which accepts the path. -/
structure Inspects (w : Workspace) (file : Text) (config : Option Text) (ps : List Parser)
    (t : Text) : Prop where
  present : w.isFile (Path.ofText file) = true
  configured : ∃ entries, Configuration.load w config = .ok entries ∧
    ps = (entries.filter fun e => e.filter.all (·.accepts (Path.ofText file).text)).map (·.parser)
  readable : w.readText (Path.ofText file).text = .ok t

theorem applicable_eq (entries : List ParserEntry) (path : Text) :
    applicable entries path =
      (entries.filter fun e => e.filter.all (·.accepts path)).map (·.parser) := by
  have hfilter : (fun e : ParserEntry => (e.filter.getD .all).accepts path) =
      fun e => e.filter.all (·.accepts path) := by
    funext e
    cases e.filter with
    | none => rfl
    | some f => rfl
  unfold applicable parsersFor
  rw [List.filter_map, List.map_map]
  exact congrArg (fun keep => (entries.filter keep).map (·.parser)) hfilter

variable {w : Workspace} {file : Text} {config : Option Text}

theorem failed_eq (lines : List Text) (w : Workspace) (e : Failure) :
    failed "ERROR:" lines [] w e =
      if e.reported then ⟨lines ++ [errorLine e.message], [], w, .ok 1⟩
      else ⟨lines, [], w, .error e⟩ := by
  simp only [failed, errorLine, toString, String.toList_append]
  rfl

theorem Inspects.ofRegions_eq (h : Inspects w file config ps t) :
    ofRegions w file config = match regionLines t ps with
      | (lines, some e) => failed "ERROR:" lines [] w e
      | (lines, none) =>
        ⟨lines ++ [[], totalLine lines.length (Path.ofText file).text], [], w, .ok 0⟩ := by
  obtain ⟨hpresent, ⟨entries, hload, rfl⟩, hread⟩ := h
  rw [← applicable_eq]
  simp only [ofRegions, hpresent, hload, hread, bind, Except.bind, pure, Except.pure]
  rfl

/-- The command gets to the parsers, or it ends before with a message and nothing else, or
without a status. -/
theorem inspects_or_fails (w : Workspace) (file : Text) (config : Option Text) :
    (∃ ps t, Inspects w file config ps t) ∨
      (∃ message, ofRegions w file config = ⟨[errorLine message], [], w, .ok 1⟩) ∨
      ∃ e, ofRegions w file config = ⟨[], [], w, .error e⟩ := by
  -- a failure in front of the first parser is told alone, or ends the command without a status
  have hfails : ∀ e, ofRegions w file config = failed "ERROR:" [] [] w e →
      (∃ message, ofRegions w file config = ⟨[errorLine message], [], w, .ok 1⟩) ∨
        ∃ e, ofRegions w file config = ⟨[], [], w, .error e⟩ := by
    intro e he
    rw [failed_eq] at he
    split at he
    · exact .inl ⟨_, he⟩
    · exact .inr ⟨_, he⟩
  cases hpresent : w.isFile (Path.ofText file) with
  | false =>
    refine .inr (.inl ⟨s!"not a file: {(Path.ofText file).text.str}", ?_⟩)
    simp [ofRegions, hpresent, errorLine, toString]
  | true =>
    cases hload : Configuration.load w config with
    | error e =>
      refine .inr (hfails e ?_)
      simp [ofRegions, hpresent, hload, bind, Except.bind]
    | ok entries =>
      cases hread : w.readText (Path.ofText file).text with
      | error e =>
        refine .inr (hfails e ?_)
        simp [ofRegions, hpresent, hload, hread, bind, Except.bind]
      | ok t => exact .inl ⟨_, t, hpresent, ⟨entries, hload, rfl⟩, hread⟩

theorem Inspects.ofRegions_of_lists (h : Inspects w file config ps t) (hlists : Lists t ps lines) :
    ofRegions w file config =
      ⟨lines ++ [[], totalLine lines.length (Path.ofText file).text], [], w, .ok 0⟩ := by
  rw [h.ofRegions_eq, hlists.regionLines_eq]

theorem Inspects.ofRegions_of_stops {e : ParseError} (h : Inspects w file config ps t)
    (hstops : Stops t ps lines e) :
    ofRegions w file config =
      if (Failure.ofParse e).reported then
        ⟨lines ++ [errorLine (Failure.ofParse e).message], [], w, .ok 1⟩
      else ⟨lines, [], w, .error (.ofParse e)⟩ := by
  rw [h.ofRegions_eq, hstops.regionLines_eq, ← failed_eq]

theorem Inspects.printed_of_stops {e : ParseError} (h : Inspects w file config ps t)
    (hstops : Stops t ps lines e) (hstatus : (ofRegions w file config).status = .ok 1) :
    (ofRegions w file config).printed = lines ++ [errorLine (Failure.ofParse e).message] := by
  rw [h.ofRegions_of_stops hstops] at hstatus ⊢
  split at hstatus
  · next hreported => rw [if_pos hreported]
  · simp at hstatus

/-- The four ways in which the command ends: with a complete listing, at a parser that rejects
the text, or before the first parser with a message or without a status. -/
theorem ofRegions_cases (w : Workspace) (file : Text) (config : Option Text) :
    (∃ ps t lines, Inspects w file config ps t ∧ Lists t ps lines) ∨
      (∃ ps t lines e, Inspects w file config ps t ∧ Stops t ps lines e) ∨
      (∃ message, ofRegions w file config = ⟨[errorLine message], [], w, .ok 1⟩) ∨
      ∃ e, ofRegions w file config = ⟨[], [], w, .error e⟩ := by
  rcases inspects_or_fails w file config with ⟨ps, t, hinspects⟩ | hfails
  · rcases lists_or_stops t ps with ⟨lines, hlists⟩ | ⟨lines, e, hstops⟩
    · exact .inl ⟨ps, t, lines, hinspects, hlists⟩
    · exact .inr (.inl ⟨ps, t, lines, e, hinspects, hstops⟩)
  · exact .inr (.inr hfails)

/-- What was printed when the command ended with a message: the lines of the parsers that
had read the text by then, and the message. -/
theorem printed_of_status_one (h : (ofRegions w file config).status = .ok 1) :
    ∃ lines message, (ofRegions w file config).printed = lines ++ [errorLine message] ∧
      (lines ≠ [] → ∃ ps t e, Inspects w file config ps t ∧ Stops t ps lines e ∧
        message = (Failure.ofParse e).message) := by
  rcases ofRegions_cases w file config with
    ⟨ps, t, lines, hinspects, hlists⟩ | ⟨ps, t, lines, e, hinspects, hstops⟩ | ⟨message, heq⟩ |
      ⟨e, heq⟩
  · simp [hinspects.ofRegions_of_lists hlists] at h
  · exact ⟨lines, _, hinspects.printed_of_stops hstops h,
      fun _ => ⟨ps, t, e, hinspects, hstops, rfl⟩⟩
  · exact ⟨[], message, by rw [heq, List.nil_append], fun hne => absurd rfl hne⟩
  · simp [heq] at h

theorem status_zero_iff :
    (ofRegions w file config).status = .ok 0 ↔
      ∃ ps t lines, Inspects w file config ps t ∧ Lists t ps lines ∧
        (ofRegions w file config).printed =
          lines ++ [[], totalLine lines.length (Path.ofText file).text] := by
  constructor
  · intro h
    rcases ofRegions_cases w file config with
      ⟨ps, t, lines, hinspects, hlists⟩ | ⟨ps, t, lines, e, hinspects, hstops⟩ | ⟨message, heq⟩ |
        ⟨e, heq⟩
    · exact ⟨ps, t, lines, hinspects, hlists, by rw [hinspects.ofRegions_of_lists hlists]⟩
    · rw [hinspects.ofRegions_of_stops hstops] at h
      split at h <;> simp at h
    · simp [heq] at h
    · simp [heq] at h
  · rintro ⟨ps, t, lines, hinspects, hlists, -⟩
    rw [hinspects.ofRegions_of_lists hlists]

/-- The command ends well exactly when all parsers for the file accept it, and has then
printed their lines and how many these are. When it ends with a message, the lines of the
parsers that had read the text by then stand before it, so that it stands alone exactly if
these parsers found no region. -/
theorem ofRegions_listing (w : Workspace) (file : Text) (config : Option Text) :
    ((ofRegions w file config).status = .ok 0 ↔
      ∃ ps t lines, Inspects w file config ps t ∧ Lists t ps lines ∧
        (ofRegions w file config).printed =
          lines ++ [[], totalLine lines.length (Path.ofText file).text]) ∧
    ((ofRegions w file config).status = .ok 1 →
      ∃ lines message, (ofRegions w file config).printed = lines ++ [errorLine message] ∧
        (lines ≠ [] → ∃ ps t e, Inspects w file config ps t ∧ Stops t ps lines e ∧
          message = (Failure.ofParse e).message)) ∧
    ((ofRegions w file config).status = .ok 1 →
      ((∃ message, (ofRegions w file config).printed = [errorLine message]) ↔
        ∀ ps t lines e, Inspects w file config ps t → Stops t ps lines e → lines = [])) := by
  refine ⟨status_zero_iff, printed_of_status_one, fun hstatus => ⟨?_, ?_⟩⟩
  · rintro ⟨message, hprinted⟩ ps t lines e hinspects hstops
    rw [hinspects.printed_of_stops hstops hstatus] at hprinted
    have hlen := congrArg List.length hprinted
    simpa using hlen
  · intro hnone
    obtain ⟨lines, message, hprinted, hlines⟩ := printed_of_status_one hstatus
    by_cases hempty : lines = []
    · exact ⟨message, by rw [hprinted, hempty, List.nil_append]⟩
    · obtain ⟨ps, t, e, hinspects, hstops, -⟩ := hlines hempty
      exact absurd (hnone ps t lines e hinspects hstops) hempty

/-- A directory with a file and a configuration of two parsers for it: one for slashes and
stars, and one for hashes. -/
def twoParsers (content : String) : Workspace :=
  ((Workspace.bare [] [] none).put [['a']] (.file content.toUTF8)).put [Configuration.usualName]
    (.file "'parsers':\n- 'preset': 'c-like'\n- 'preset': 'hash'\n".toUTF8)

/-- A region for each parser. -/
def regionForEach : Workspace := twoParsers "//[[region:A]]\n//[[end]]\n#[[region:B]]\n#[[end]]\n"

/-- A region for the first parser, and an end without a start for the second. -/
def endForSecond : Workspace := twoParsers "//[[region:A]]\n//[[end]]\n#[[end]]\n"

theorem ofRegions_regionForEach :
    (ofRegions regionForEach ['a'] none).status = .ok 0 ∧
      (ofRegions regionForEach ['a'] none).printed =
        ["  c-like       A  (line 1)".toList, "  hash         B  (line 3)".toList]
          ++ [[], "2 protected regions in a".toList] := by
  decide +kernel

/-- The region of the first parser is listed, and then the second parser rejects the text. -/
theorem ofRegions_endForSecond :
    (ofRegions endForSecond ['a'] none).status = .ok 1 ∧
      (ofRegions endForSecond ['a'] none).printed = ["  c-like       A  (line 1)".toList]
        ++ ["ERROR: line 3: end of region '?' without a matching start".toList] := by
  decide +kernel

theorem ofRegions_listing_twoParsers :
    ((ofRegions regionForEach ['a'] none).status = .ok 0 ∧
      ∃ ps t, Inspects regionForEach ['a'] none ps t ∧
        Lists t ps ["  c-like       A  (line 1)".toList, "  hash         B  (line 3)".toList]) ∧
    (ofRegions endForSecond ['a'] none).status = .ok 1 ∧
      ∃ ps t e, Inspects endForSecond ['a'] none ps t ∧
        Stops t ps ["  c-like       A  (line 1)".toList] e := by
  obtain ⟨hzero, htwo⟩ := ofRegions_regionForEach
  obtain ⟨hone, herror⟩ := ofRegions_endForSecond
  refine ⟨⟨hzero, ?_⟩, hone, ?_⟩
  · obtain ⟨ps, t, lines, hinspects, hlists, hprinted⟩ :=
      (ofRegions_listing regionForEach ['a'] none).1.mp hzero
    rw [htwo] at hprinted
    obtain ⟨rfl, -⟩ := List.append_inj' hprinted (by simp only [List.length_cons])
    exact ⟨ps, t, hinspects, hlists⟩
  · obtain ⟨lines, message, hprinted, hlines⟩ :=
      (ofRegions_listing endForSecond ['a'] none).2.1 hone
    rw [herror] at hprinted
    obtain ⟨rfl, -⟩ := List.append_inj' hprinted (by simp only [List.length_cons])
    obtain ⟨ps, t, e, hinspects, hstops, -⟩ := hlines (List.cons_ne_nil _ _)
    exact ⟨ps, t, e, hinspects, hstops⟩

/-- The message of a listing does not always stand alone. -/
theorem not_forall_errorLine_alone :
    ¬ ∀ w file config, (ofRegions w file config).status = .ok 1 →
      ∃ message, (ofRegions w file config).printed = [errorLine message] := by
  intro hall
  obtain ⟨hone, herror⟩ := ofRegions_endForSecond
  obtain ⟨message, hprinted⟩ := hall endForSecond ['a'] none hone
  rw [herror] at hprinted
  exact List.cons_ne_nil _ _ (List.cons.inj hprinted).2

end Outcome
end CommandLine
end ProtectedRegions
