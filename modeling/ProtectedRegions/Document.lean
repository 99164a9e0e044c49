import ProtectedRegions.Text

/-
  Documents — a text as a sequence of plain pieces and protected regions

  A segment is a piece of a text: a plain one, or a region with an id, the two
  markers around it and the body between them. `Document.ofSegments` puts
  segments one behind the other and records where each begins and ends, so a
  document built by it tiles its own text.

  What is stated here:
    1. `text_ofSegments` — the text of a document is the segments' texts in
       order.
    2. `segments_ofSegments` — placing segments changes nothing but their
       places.
-/

namespace ProtectedRegions

/-- A piece of a text. A region has an id; a plain piece has none. -/
structure Segment where
  content : Text
  id : Option Text
  startMarker : Text
  endMarker : Text
  deriving DecidableEq, Repr

namespace Segment

def plain (content : Text) : Segment := ⟨content, none, [], []⟩

def region (id startMarker content endMarker : Text) : Segment :=
  ⟨content, some id, startMarker, endMarker⟩

def isRegion (s : Segment) : Bool := s.id.isSome

/-- The markers and what stands between them. -/
def text (s : Segment) : Text := s.startMarker ++ s.content ++ s.endMarker

/-- The same piece with another body. -/
def withContent (s : Segment) (content : Text) : Segment := { s with content := content }

end Segment

/-- A segment and the positions it begins and ends at. -/
structure Placed where
  segment : Segment
  start : Nat
  stop : Nat
  deriving DecidableEq, Repr

/-- A text in segments. -/
structure Document where
  placed : List Placed
  deriving DecidableEq, Repr

namespace Document

/-- The segments one behind the other, the first at a given position. -/
def place (offset : Nat) : List Segment → List Placed
  | [] => []
  | s :: rest =>
    let stop := offset + s.text.length
    ⟨s, offset, stop⟩ :: place stop rest

/-- The document of segments, placed from the beginning. -/
def ofSegments (segments : List Segment) : Document := ⟨place 0 segments⟩

def segments (d : Document) : List Segment := d.placed.map (·.segment)

/-- The text that the document is made of. -/
def text (d : Document) : Text := d.segments.flatMap Segment.text

/-- The regions, with their places. -/
def regions (d : Document) : List Placed := d.placed.filter (·.segment.isRegion)

/-- The ids of the regions in order, with repeats. -/
def ids (d : Document) : List Text := d.segments.filterMap (·.id)

/-- The first segment with an id, or the first plain one where none is given. -/
def find? (d : Document) (id : Option Text) : Option Placed :=
  d.placed.find? fun p => p.segment.id = id

/-- The first region of each id, in the order of their appearance. -/
def firstRegions (d : Document) : List (Text × Placed) :=
  d.placed.foldl (fun seen p =>
    match p.segment.id with
    | none => seen
    | some id => if (seen.lookup id).isSome then seen else seen ++ [(id, p)]) []

/-- The body of the first region with an id. -/
def body? (d : Document) (id : Text) : Option Text :=
  (d.firstRegions.lookup id).map (·.segment.content)

theorem segments_place (offset : Nat) (segments : List Segment) :
    (place offset segments).map (·.segment) = segments := by
  induction segments generalizing offset with
  | nil => rfl
  | cons s rest ih => simp [place, ih]

@[simp] theorem segments_ofSegments (segments : List Segment) :
    (ofSegments segments).segments = segments := segments_place 0 segments

theorem text_ofSegments (segments : List Segment) :
    (ofSegments segments).text = segments.flatMap Segment.text := by
  simp [text]

end Document
end ProtectedRegions
