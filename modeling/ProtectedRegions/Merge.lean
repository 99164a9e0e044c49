import ProtectedRegions.Document

/-
  Merging — a fresh document with the bodies its regions had before

  The bodies that are known are a function of the region id. `merge` replaces
  the body of every region whose id is known; ids, markers, plain pieces and
  the bodies of unknown regions stay as they are, so the markers are always
  those of the fresh document. `fillIn` takes the bodies from another document,
  the first region of each id.
-/

namespace ProtectedRegions

abbrev Bodies := Text → Option Text

namespace Segment

/-- A region with its known body; any other segment as it is. -/
def restore (known : Bodies) (s : Segment) : Segment :=
  match s.id.bind known with
  | none => s
  | some content => s.withContent content

@[simp] theorem restore_id (known : Bodies) (s : Segment) : (s.restore known).id = s.id := by
  unfold restore
  split <;> rfl

@[simp] theorem restore_startMarker (known : Bodies) (s : Segment) :
    (s.restore known).startMarker = s.startMarker := by
  unfold restore
  split <;> rfl

@[simp] theorem restore_endMarker (known : Bodies) (s : Segment) :
    (s.restore known).endMarker = s.endMarker := by
  unfold restore
  split <;> rfl

end Segment

namespace Document

/-- The document with the known bodies in the place of its own. -/
def merge (fresh : Document) (known : Bodies) : Document :=
  ofSegments (fresh.segments.map (·.restore known))

def fillIn (template source : Document) : Document := template.merge source.body?

theorem ids_merge (fresh : Document) (known : Bodies) : (fresh.merge known).ids = fresh.ids := by
  have hids : Segment.id ∘ (Segment.restore known) = Segment.id := funext (Segment.restore_id known)
  simp only [ids, merge, segments_ofSegments, List.filterMap_map, hids]

end Document
end ProtectedRegions
