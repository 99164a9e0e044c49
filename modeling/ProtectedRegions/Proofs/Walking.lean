import ProtectedRegions.Proofs.Choosing
import ProtectedRegions.Proofs.Scanning

/-
  Walking — a parse as one loop over the positions of a text

  A parse can be taken as a loop that stands at a position, looks whether a comment
  begins there, and goes on: behind the one character if none does, behind the comment
  otherwise. What it carries along is the place where the last marker ended, the region
  that is open and the segments that are complete. Each turn leads forward and not out
  of the text, so that there are at most as many turns as characters, and in the end
  the loop has what the search for markers and their pairing come to.

  What is proved:
    1. `next_spec` — what one turn does: it goes forward inside the text, and what is
       still to be found stays the same.
    2. `run_eq` — a loop that has as many turns as there are characters left comes to
       its end, with what is to be found.
    3. `scan_advances` — the scan and the loop, for every lexicon that can be made.
-/

namespace ProtectedRegions

/-- Where the walk over a text stands: at a position, behind the last marker, perhaps in an open
region, with the segments that are complete. -/
structure Walk where
  position : Nat
  behind : Nat
  opened : Option OpenRegion
  segments : List Segment

namespace Walk

/-- The walk before its first step. -/
def start : Walk := ⟨0, 0, none, []⟩

/-- One turn of the loop at a position in front of the end. -/
def next (p : Parser) (t : Text) (w : Walk) : Except ParseError Walk :=
  match p.lexicon.match? (t.drop w.position) with
  | none => .ok { w with position := w.position + 1 }
  | some c =>
    let bodyStart := w.position + c.opening.length
    match c.scan t bodyStart with
    | .error d => .error (.defect d)
    | .ok (bodyEnd, stop) =>
      match p.oracle.classify (t.slice bodyStart bodyEnd) with
      | .error d => .error (.defect d)
      | .ok none => .ok { w with position := stop }
      | .ok (some m) =>
        let find : Find := ⟨t.slice w.behind w.position, m, t.slice w.position stop, t.drop stop⟩
        match Parser.pair w.opened find w.position with
        | .error cause => .error (.malformed cause (t.lineOf w.position))
        | .ok (opened, segments) => .ok ⟨stop, stop, opened, w.segments ++ segments⟩

/-- What the loop gives when it has come to the end. -/
def result (t : Text) (w : Walk) : Except ParseError Document :=
  match w.opened with
  | some r => .error (.malformed (.unterminated r.id) (t.lineOf r.position))
  | none => .ok (.ofSegments (w.segments ++ Parser.plainTail (t.drop w.behind)))

/-- The loop with a bound on its turns: what it gives, if it comes to an end within them. -/
def run (p : Parser) (t : Text) (w : Walk) : Nat → Option (Except ParseError Document)
  | 0 => if w.position < t.length then none else some (w.result t)
  | n + 1 =>
    if w.position < t.length then
      match w.next p t with
      | .error e => some (.error e)
      | .ok w => run p t w n
    else some (w.result t)

/-- The walk is in the text, and not in front of the last marker's end. -/
def Within (t : Text) (w : Walk) : Prop := w.behind ≤ w.position ∧ w.position ≤ t.length

end Walk

namespace Parser

variable {p : Parser} {whole t : Text} {opened : Option OpenRegion} {position : Nat}

/-- The segments of a text behind the last marker, once the next marker has been sought. -/
def splitAt (p : Parser) (whole : Text) (opened : Option OpenRegion) (behind : Nat) (t : Text) :
    Except Defect (Option Find) → Except ParseError (List Segment)
  | .error d => .error (.defect d)
  | .ok none =>
    match opened with
    | some r => .error (.malformed (.unterminated r.id) (whole.lineOf r.position))
    | none => .ok (plainTail t)
  | .ok (some find) =>
    match pair opened find (behind + find.before.length) with
    | .error cause => .error (.malformed cause (whole.lineOf (behind + find.before.length)))
    | .ok (opened, segments) =>
      (p.split whole opened (behind + find.before.length + find.comment.length) find.rest).map
        fun rest => segments ++ rest

theorem split_eq_splitAt : p.split whole opened position t =
    p.splitAt whole opened position t (p.seek [] t) := by
  cases hs : p.seek [] t with
  | error d => exact split_of_seek_error hs
  | ok found =>
    cases found with
    | none => exact split_of_seek_none hs
    | some find =>
      rw [split_of_seek_some hs, splitAt]
      cases hpair : pair opened find (position + find.before.length) with
      | error cause => rfl
      | ok done =>
        obtain ⟨opened, segments⟩ := done
        cases hrest : p.split whole opened (position + find.before.length + find.comment.length)
            find.rest with
        | error e => simp only [hrest, Except.map]
        | ok rest => simp only [hrest, Except.map]

end Parser

namespace Walk

variable {p : Parser} {t front u : Text} {w w' : Walk}

/-- What is to be found from where the walk stands. -/
def outcome (p : Parser) (t : Text) (w : Walk) : Except ParseError Document :=
  (p.splitAt t w.opened w.behind (t.drop w.behind)
    (p.seek (t.slice w.behind w.position).reverse (t.drop w.position))).map
      fun rest => .ofSegments (w.segments ++ rest)

theorem outcome_start (p : Parser) (t : Text) : start.outcome p t = p.parse t := by
  rw [Parser.parse, Parser.split_eq_splitAt]
  rfl

/-- What is to be found, with the text in two parts at the position. -/
theorem outcome_append (hposition : w.position = front.length) :
    w.outcome p (front ++ u) =
      (p.splitAt (front ++ u) w.opened w.behind ((front ++ u).drop w.behind)
        (p.seek (front.drop w.behind).reverse u)).map fun rest =>
          .ofSegments (w.segments ++ rest) := by
  rw [outcome, Text.slice, hposition, List.take_left, List.drop_left]

theorem outcome_of_end (h : w.position = t.length) : w.outcome p t = w.result t := by
  have hparts := @outcome_append p t [] w h
  rw [List.append_nil, Parser.seek_nil] at hparts
  rw [hparts, result]
  cases w.opened <;> rfl

theorem within_start (t : Text) : start.Within t := ⟨Nat.le_refl 0, Nat.zero_le _⟩

/-- A turn keeps its promises: it fails as what is to be found fails, or goes forward in the text
and leaves the same to be found. -/
def Keeps (p : Parser) (t : Text) (w : Walk) : Except ParseError Walk → Prop
  | .error e => w.outcome p t = .error e
  | .ok w' => w.position < w'.position ∧ w'.Within t ∧ w'.outcome p t = w.outcome p t

theorem keeps_bare {c : Char} (hw : w.behind ≤ w.position) (hposition : w.position = front.length)
    (hm : p.lexicon.match? (c :: u) = none) :
    w.Keeps p (front ++ c :: u) (w.next p (front ++ c :: u)) := by
  have hnext : w.next p (front ++ c :: u) = .ok { w with position := w.position + 1 } := by
    rw [next, hposition, List.drop_left, hm]
  have hparts : front ++ c :: u = front ++ [c] ++ u := by simp
  have hbehind : w.behind ≤ front.length := hposition ▸ hw
  rw [hnext]
  refine ⟨Nat.lt_succ_self _, ⟨Nat.le_succ_of_le hw, ?_⟩, ?_⟩
  · simp [hposition]
  · have hafter : w.position + 1 = (front ++ [c]).length := by simp [hposition]
    rw [outcome_append hposition, Parser.seek_bare hm, hparts,
      @outcome_append p (front ++ [c]) u { w with position := w.position + 1 } hafter,
      List.drop_append_of_le_length hbehind]
    simp

theorem next_of_cut {c : Comment} {cut : Cut} (hposition : w.position = front.length)
    (hm : p.lexicon.match? u = some c) (hc : c.cut u = .ok cut) :
    w.next p (front ++ u) = match p.oracle.classify cut.body with
      | .error d => .error (.defect d)
      | .ok none => .ok { w with position := front.length + cut.comment.length }
      | .ok (some m) =>
        match Parser.pair w.opened ⟨front.drop w.behind, m, cut.comment, cut.rest⟩ front.length with
        | .error cause => .error (.malformed cause ((front ++ u).lineOf front.length))
        | .ok (opened, segments) =>
          .ok ⟨front.length + cut.comment.length, front.length + cut.comment.length, opened,
            w.segments ++ segments⟩ := by
  have hpre : c.opening <+: u := (Lexicon.match_eq_some_iff.mp hm).1
  have htext : cut.comment ++ cut.rest = u := Lexicon.Cuts.text ⟨c, hm, hc⟩
  have hopening := Comment.opening_of_cut hc
  have hwhole : front ++ u = front ++ c.opening ++ (cut.body ++ (cut.ending ++ cut.rest)) := by
    rw [← htext, Cut.comment, hopening]
    simp
  have hbody : (front ++ u).slice (front.length + c.opening.length)
      (front.length + c.opening.length + cut.body.length) = cut.body := by
    rw [hwhole, ← List.length_append]
    exact Text.slice_append (front ++ c.opening) cut.body _
  have hcomment : (front ++ u).slice front.length (front.length + cut.comment.length) =
      cut.comment := by
    rw [← htext]
    exact Text.slice_append front cut.comment cut.rest
  have hbefore : (front ++ u).slice w.behind front.length = front.drop w.behind := by
    rw [Text.slice, List.take_left]
  have hrest : (front ++ u).drop (front.length + cut.comment.length) = cut.rest := by
    rw [← htext, ← List.drop_drop, List.drop_left, List.drop_left]
  rw [next, hposition, List.drop_left, hm]
  simp only [Comment.scan_append hpre, hc, Except.map, hbody, hcomment, hbefore, hrest]

theorem keeps_comment {c : Comment} {cut : Cut} (hw : w.behind ≤ w.position)
    (hposition : w.position = front.length) (hm : p.lexicon.match? u = some c)
    (hc : c.cut u = .ok cut) : w.Keeps p (front ++ u) (w.next p (front ++ u)) := by
  have hcuts : p.lexicon.Cuts u cut := ⟨c, hm, hc⟩
  have hbehind : w.behind ≤ front.length := hposition ▸ hw
  have hpositive : 0 < cut.comment.length := List.length_pos_iff.mpr hcuts.comment_ne_nil
  have hparts : front ++ u = front ++ cut.comment ++ cut.rest := by
    rw [List.append_assoc, hcuts.text]
  have hstop : front.length + cut.comment.length = (front ++ cut.comment).length :=
    List.length_append.symm
  have hend : front.length + cut.comment.length ≤ (front ++ u).length := by
    rw [hparts, hstop]
    exact (List.prefix_append _ _).length_le
  have hpassed : w.behind + (front.drop w.behind).length = front.length := by
    rw [List.length_drop]
    omega
  rw [next_of_cut hposition hm hc]
  cases hclassify : p.oracle.classify cut.body with
  | error d =>
    show w.outcome p (front ++ u) = _
    rw [outcome_append hposition, Parser.seek_cuts hcuts, hclassify]
    rfl
  | ok answer =>
    cases answer with
    | none =>
      refine ⟨by simp [hposition, hpositive], ⟨Nat.le_add_right_of_le hbehind, hend⟩, ?_⟩
      rw [outcome_append hposition, Parser.seek_cuts hcuts, hclassify, hparts,
        @outcome_append p (front ++ cut.comment) cut.rest _ hstop,
        List.drop_append_of_le_length hbehind]
      simp
    | some m =>
      -- the search has found the marker that stands here
      have hfound : w.outcome p (front ++ u) = (p.splitAt (front ++ u) w.opened w.behind
          ((front ++ u).drop w.behind)
          (.ok (some ⟨front.drop w.behind, m, cut.comment, cut.rest⟩))).map
            fun rest => .ofSegments (w.segments ++ rest) := by
        rw [outcome_append hposition, Parser.seek_cuts hcuts, hclassify, List.reverse_reverse]
      rw [Parser.splitAt, hpassed] at hfound
      cases hpair : Parser.pair w.opened ⟨front.drop w.behind, m, cut.comment, cut.rest⟩
          front.length with
      | error cause =>
        rw [hpair] at hfound
        simp only [hpair]
        exact hfound
      | ok done =>
        obtain ⟨opened, segments⟩ := done
        rw [hpair] at hfound
        dsimp only at hfound
        simp only [hpair]
        refine ⟨by simp [hposition, hpositive], ⟨Nat.le_refl _, hend⟩, ?_⟩
        rw [hfound, hparts, @outcome_append p (front ++ cut.comment) cut.rest _ hstop, hstop,
          List.drop_length, List.drop_left, List.reverse_nil, ← Parser.split_eq_splitAt]
        cases p.split (front ++ cut.comment ++ cut.rest) opened (front ++ cut.comment).length
            cut.rest with
        | error e => rfl
        | ok rest => simp only [Except.map, List.append_assoc]

/-- One turn of the loop goes forward in the text, and leaves to be found what was to be found. -/
theorem next_spec (hw : w.Within t) (h : w.position < t.length) : w.Keeps p t (w.next p t) := by
  obtain ⟨front, u, rfl, hposition⟩ : ∃ front u, t = front ++ u ∧ w.position = front.length :=
    ⟨t.take w.position, t.drop w.position, (List.take_append_drop _ _).symm,
      by rw [List.length_take, Nat.min_eq_left hw.2]⟩
  cases hm : p.lexicon.match? u with
  | none =>
    cases u with
    | nil => simp [hposition] at h
    | cons c u => exact keeps_bare hw.1 hposition hm
  | some c =>
    cases hc : c.cut u with
    | ok cut => exact keeps_comment hw.1 hposition hm hc
    | error d =>
      have hpre : c.opening <+: u := (Lexicon.match_eq_some_iff.mp hm).1
      rw [next, hposition, List.drop_left, hm]
      simp only [Comment.scan_append hpre, hc, Except.map]
      show w.outcome p (front ++ u) = _
      rw [outcome_append hposition, Parser.seek_of_cut_error hm hc]
      rfl

/-- As many turns as there are characters left bring the loop to its end, with what is to be
found. -/
theorem run_eq {n : Nat} (hw : w.Within t) (hn : t.length - w.position ≤ n) :
    w.run p t n = some (w.outcome p t) := by
  induction n generalizing w with
  | zero =>
    have hend : w.position = t.length := Nat.le_antisymm hw.2 (Nat.le_of_sub_eq_zero (by omega))
    rw [run, if_neg (by omega), outcome_of_end hend]
  | succ n ih =>
    rw [run]
    by_cases h : w.position < t.length
    · rw [if_pos h]
      have hkeeps := next_spec (p := p) hw h
      cases hnext : w.next p t with
      | error e =>
        rw [hnext] at hkeeps
        rw [show w.outcome p t = .error e from hkeeps]
      | ok w' =>
        rw [hnext] at hkeeps
        obtain ⟨hforward, hwithin, hsame⟩ := hkeeps
        rw [← hsame]
        exact ih hwithin (by omega)
    · have hend : w.position = t.length := Nat.le_antisymm hw.2 (Nat.le_of_not_lt h)
      rw [if_neg h, outcome_of_end hend]

end Walk

namespace Lexicon

/-- The tokens of a lexicon that can be made are not empty. So wherever a comment begins its scan
gets on and stays in the text, finds the first terminator with none before it, and finds nothing
only where there is none. The loop of a parse therefore comes to its end with what the text is
within as many turns as the text has characters. -/
theorem scan_advances {lexicon : Lexicon} (made : lexicon.Made) :
    (∀ c ∈ lexicon, c.opening ≠ [] ∧ c.closing.toValue ≠ .text []) ∧
      (lexicon.Usable → ∀ (t : Text) (position : Nat) (c : Comment), position < t.length →
        lexicon.match? (t.drop position) = some c →
          ∃ bodyEnd stop, c.scan t (position + c.opening.length) = .ok (bodyEnd, stop) ∧
            position < position + c.opening.length ∧
            c.Scanned t (position + c.opening.length) bodyEnd stop) ∧
      ∀ p : Parser, p.lexicon = lexicon → ∀ t : Text,
        Walk.start.run p t t.length = some (p.parse t) := by
  refine ⟨made.sound, ?_, ?_⟩
  · intro usable t position c _ hm
    have begins := match_eq_some_iff.mp hm
    have hpositive : 0 < c.opening.length :=
      List.length_pos_iff.mpr (made.sound c begins.mem).1
    have hinside : position + c.opening.length ≤ t.length := by
      have hle := begins.1.length_le
      rw [List.length_drop] at hle
      omega
    obtain ⟨bodyEnd, stop, hscan, hscanned⟩ := Comment.scanned (usable c begins.mem) hinside
    exact ⟨bodyEnd, stop, hscan, Nat.lt_add_of_pos_right hpositive, hscanned⟩
  · intro p _ t
    have hrun := Walk.run_eq (p := p) (Walk.within_start t) (Nat.le_refl t.length)
    rwa [Walk.outcome_start] at hrun

/-- Comments that two signs end. -/
def angles : Comment := ⟨['<'], .token ['>', '>'] (List.cons_ne_nil _ _), List.cons_ne_nil _ _⟩

/-- A preset to which a syntax was added. -/
def withAngles : Lexicon := Preset.cLike.lexicon ++ [angles]

/-- Of three signs the first two end a comment, and a pair ends a line at the end of the text. -/
theorem scan_advances_withAngles :
    withAngles.Made ∧ withAngles.Usable ∧ angles.Scanned "a<b>>>//x\r\n".toList 2 3 5 ∧
      Preset.slashes.Scanned "a<b>>>//x\r\n".toList 8 9 11 ∧
      Walk.start.run (.ofPreset .cLike (.function Parser.letterMarks) false) "//A\n//e".toList 7 =
        some (.ok ⟨[⟨.region ['A'] "//A\n".toList [] "//e".toList, 0, 7⟩]⟩) := by
  have made : withAngles.Made := by
    have hconfigured : Comment.configured ['<'] (.text ['>', '>']) = .ok angles := rfl
    exact .add (.preset .cLike) hconfigured
  have usable : withAngles.Usable := by
    intro c hc v
    rcases List.mem_append.mp hc with hc | hc
    · exact Preset.usable .cLike c hc v
    · obtain rfl := List.mem_singleton.mp hc
      nofun
  obtain ⟨-, hscan, -⟩ := scan_advances made
  obtain ⟨bodyEnd, stop, hangles, -, hfirst⟩ :=
    hscan usable "a<b>>>//x\r\n".toList 1 angles (by decide) rfl
  obtain ⟨bodyEnd', stop', hslashes, -, hsecond⟩ :=
    hscan usable "a<b>>>//x\r\n".toList 6 Preset.slashes (by decide) rfl
  obtain ⟨rfl, rfl⟩ := Prod.mk.inj (Except.ok.inj hangles)
  obtain ⟨rfl, rfl⟩ := Prod.mk.inj (Except.ok.inj hslashes)
  have hrun := (scan_advances (.preset .cLike)).2.2
    (.ofPreset .cLike (.function Parser.letterMarks) false) rfl "//A\n//e".toList
  have hparse :
      (Parser.ofPreset .cLike (.function Parser.letterMarks) false).parse "//A\n//e".toList = .ok
        ⟨[⟨.region ['A'] "//A\n".toList [] "//e".toList, 0, 7⟩]⟩ := by decide +kernel
  exact ⟨made, usable, hfirst, hsecond, hrun.trans (congrArg some hparse)⟩

end Lexicon
end ProtectedRegions
