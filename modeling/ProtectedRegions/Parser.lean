import ProtectedRegions.Document
import ProtectedRegions.Lexicon
import ProtectedRegions.Oracle

/-
  Parsers — a text split at the markers of its protected regions

  A parser walks over a text once. `seek` finds the next comment that the
  oracle takes for a marker; everything before it is plain. `split` pairs the
  markers: a start opens a region, an end closes it, and what stands between is
  the region's body. At most one region is open at a time.

  What is stated here:
    1. `seek_text` — a find is the text before the marker, the marker and the
       rest, and these are the text it was sought in.
    2. `seek_length` — the rest is shorter than that text, which is why
       splitting ends.
-/

namespace ProtectedRegions

/-- How the markers of a text break the rules of pairing. -/
inductive Malformed where
  | startWithoutId
  | startWhileOpen (id openId : Text)
  | endWithoutStart (id : Option Text)
  | endOfOther (id openId : Text)
  | unknownKind (name : Text)
  | unterminated (openId : Text)
  deriving DecidableEq, Repr

/-- An id for a message, a question mark where none is given. -/
def nameOrMark (id : Option Text) : String := if id.getD [] = [] then "?" else Text.str (id.getD [])

def Malformed.message : Malformed → String
  | .startWithoutId => "region start without id"
  | .startWhileOpen id openId =>
    s!"region '{id.str}' starts while region '{openId.str}' is still open"
  | .endWithoutStart id => s!"end of region '{nameOrMark id}' without a matching start"
  | .endOfOther id openId =>
    s!"end of region '{id.str}' does not match open region '{openId.str}'"
  | .unknownKind name => s!"unknown marker kind '{name.str}'"
  | .unterminated openId => s!"unterminated protected region '{openId.str}'"

/-- A message with the line it is about, if it is about one. -/
def located (line : Option Int) (message : String) : String :=
  match line with
  | none => message
  | some n => s!"line {n}: {message}"

/-- Why a text cannot be parsed: its markers are malformed, on a given line, or
the parser's own configuration cannot be used on it. -/
inductive ParseError where
  | malformed (cause : Malformed) (line : Nat)
  | defect (d : Defect)
  deriving DecidableEq, Repr

/-- A parser: the comments to look at, the oracle that picks the markers among
them, whether regions are filled from the file on disk instead of the pool, and
a name for messages. -/
structure Parser where
  lexicon : Lexicon
  oracle : Oracle
  inverse : Bool
  name : Text
  nonempty : lexicon ≠ []

/-- A marker found in a text: what stands before it, the marker and its
comment, and what follows. -/
structure Find where
  before : Text
  marker : Marker
  comment : Text
  rest : Text
  deriving DecidableEq, Repr

/-- A region whose end has not been met: its id, its start marker and the
position of that. -/
structure OpenRegion where
  id : Text
  marker : Text
  position : Nat
  deriving DecidableEq, Repr

namespace Parser

def emptyLexiconMessage : String := "Parser needs at least one comment syntax"

def make? (lexicon : Lexicon) (oracle : Oracle) (inverse : Bool) (name : Text) : Option Parser :=
  if h : lexicon = [] then none else some ⟨lexicon, oracle, inverse, name, h⟩

def ofPreset (p : Preset) (oracle : Oracle) (inverse : Bool) : Parser :=
  ⟨p.lexicon, oracle, inverse, p.name.toList, p.lexicon_ne_nil⟩

def shown (p : Parser) : String :=
  let name := if p.name = [] then "?" else p.name.str
  if p.inverse then s!"RegionParser({name}, inverse)" else s!"RegionParser({name})"

/-- The next marker of a text. `passed` holds the characters already passed
over, the latest first. -/
def seek (p : Parser) (passed : Text) (t : Text) : Except Defect (Option Find) :=
  match t with
  | [] => .ok none
  | c :: rest =>
    match _hm : p.lexicon.match? (c :: rest) with
    | none => seek p (c :: passed) rest
    | some comment =>
      match _hc : comment.cut (c :: rest) with
      | .error d => .error d
      | .ok cut =>
        match p.oracle.classify cut.body with
        | .error d => .error d
        | .ok (some marker) => .ok (some ⟨passed.reverse, marker, cut.comment, cut.rest⟩)
        | .ok none => seek p (cut.comment.reverse ++ passed) cut.rest
termination_by t.length
decreasing_by
  · simp
  · exact Comment.cut_length (Lexicon.match_startsWith _hm) _hc

theorem seek_text {p : Parser} {passed t : Text} {find : Find}
    (h : p.seek passed t = .ok (some find)) :
    find.before ++ find.comment ++ find.rest = passed.reverse ++ t := by
  fun_induction seek p passed t with
  | case1 => simp at h
  | case2 passed c rest _ ih => simpa using ih h
  | case3 => simp at h
  | case4 => simp at h
  | case5 passed c rest comment hm cut hc marker _ =>
    simp only [Except.ok.injEq, Option.some.injEq] at h
    subst h
    have hcut := Comment.cut_text (Lexicon.match_startsWith hm) hc
    simp only [List.append_assoc, List.append_cancel_left_eq]
    exact hcut
  | case6 passed c rest comment hm cut hc _ ih =>
    have hcut := Comment.cut_text (Lexicon.match_startsWith hm) hc
    rw [ih h, ← hcut]
    simp

theorem seek_length {p : Parser} {passed t : Text} {find : Find}
    (h : p.seek passed t = .ok (some find)) : find.rest.length < t.length := by
  fun_induction seek p passed t with
  | case1 => simp at h
  | case2 passed c rest _ ih =>
    have := ih h
    simp
    omega
  | case3 => simp at h
  | case4 => simp at h
  | case5 passed c rest comment hm cut hc marker _ =>
    simp only [Except.ok.injEq, Option.some.injEq] at h
    subst h
    exact Comment.cut_length (Lexicon.match_startsWith hm) hc
  | case6 passed c rest comment hm cut hc _ ih =>
    have := ih h
    have := Comment.cut_length (Lexicon.match_startsWith hm) hc
    omega

/-- The segment of the text behind the last region, where there is any. -/
def plainTail (t : Text) : List Segment := if t = [] then [] else [.plain t]

/-- What a marker does to the region that may be open: the region open behind
it and the segments that it completes, or the rule it breaks. -/
def pair (opened : Option OpenRegion) (find : Find) (position : Nat) :
    Except Malformed (Option OpenRegion × List Segment) :=
  match find.marker.kind, opened with
  | .start, opened =>
    match find.marker.id.getD [], opened with
    | [], _ => .error .startWithoutId
    | id, some r => .error (.startWhileOpen id r.id)
    | id, none => .ok (some ⟨id, find.comment, position⟩, plainTail find.before)
  | .finish, none => .error (.endWithoutStart find.marker.id)
  | .finish, some r =>
    let closed := Segment.region r.id r.marker find.before find.comment
    match find.marker.id with
    | none => .ok (none, [closed])
    | some id => if id = r.id then .ok (none, [closed]) else .error (.endOfOther id r.id)
  | .other name, _ => .error (.unknownKind name)

/-- The segments of the part of a text from a position on, given the region
that is open there. -/
def split (p : Parser) (whole : Text) (opened : Option OpenRegion) (position : Nat) (t : Text) :
    Except ParseError (List Segment) :=
  match _hs : p.seek [] t with
  | .error d => .error (.defect d)
  | .ok none =>
    match opened with
    | some r => .error (.malformed (.unterminated r.id) (whole.lineOf r.position))
    | none => .ok (plainTail t)
  | .ok (some find) =>
    let markerPosition := position + find.before.length
    match pair opened find markerPosition with
    | .error cause => .error (.malformed cause (whole.lineOf markerPosition))
    | .ok (opened, segments) =>
      match split p whole opened (markerPosition + find.comment.length) find.rest with
      | .error e => .error e
      | .ok rest => .ok (segments ++ rest)
termination_by t.length
decreasing_by exact seek_length _hs

/-- The document that a text is. -/
def parse (p : Parser) (t : Text) : Except ParseError Document :=
  (p.split t none 0 t).map Document.ofSegments

end Parser
end ProtectedRegions
