import ProtectedRegions.Merge

/-
  Composing — documents that are merged more than once

  A merge leaves ids and markers as they are, so the merged document can be merged
  again, and a region has in the end the body of the last mapping that knows its id.
  Two merges are therefore one, from the second mapping laid over the first. Documents
  are compared as a whole: the places that the second merge finds for bodies of other
  lengths are those that one merge would have found.

  What is proved:
    1. `restore_restore` — a segment that is restored twice.
    2. `merge_merge` — a document that is merged twice, and `merge_nothing`.
    3. `merge_composes` — both, and that a merge or a fill-in that is made again changes
       nothing.
-/

namespace ProtectedRegions

namespace Bodies

/-- The bodies of a mapping, and those of another one for the ids that it does not know. -/
def orElse (upper lower : Bodies) : Bodies := fun id => (upper id).or (lower id)

theorem orElse_self (known : Bodies) : known.orElse known = known := by
  funext id
  exact Option.or_self

theorem bind_orElse (upper lower : Bodies) (id : Option Text) :
    id.bind (upper.orElse lower) = (id.bind upper).or (id.bind lower) := by
  cases id <;> rfl

end Bodies

namespace Segment

theorem restore_nothing (s : Segment) : s.restore (fun _ => none) = s := by
  unfold restore
  cases s.id <;> rfl

theorem restore_restore (lower upper : Bodies) (s : Segment) :
    (s.restore lower).restore upper = s.restore (upper.orElse lower) := by
  have hid := s.restore_id lower
  unfold restore at hid ⊢
  rw [hid, Bodies.bind_orElse]
  cases hupper : s.id.bind upper with
  | none => rfl
  | some body => cases s.id.bind lower <;> rfl

end Segment

namespace Document

variable (d t s : Document) (known lower upper : Bodies)

/-- With nothing known, segments that are placed already stay where they are. -/
theorem merge_nothing (segments : List Segment) :
    (ofSegments segments).merge (fun _ => none) = ofSegments segments := by
  have hall : segments.map (·.restore fun _ => none) = segments :=
    (List.map_congr_left fun s _ => s.restore_nothing).trans (List.map_id segments)
  rw [merge, segments_ofSegments, hall]

/-- Two merges are one, from the later mapping laid over the earlier one. -/
theorem merge_merge : (d.merge lower).merge upper = d.merge (upper.orElse lower) := by
  rw [merge, merge, segments_ofSegments, List.map_map, merge]
  congr 1
  apply List.map_congr_left
  intro s _
  exact s.restore_restore lower upper

theorem merge_again : (d.merge known).merge known = d.merge known := by
  rw [merge_merge, Bodies.orElse_self]

/-- A document that is merged from one mapping and then from another has the bodies of the second
and, for ids that the second does not know, those of the first. To merge or to fill in once more
changes nothing, and neither does a merge where nothing is known. -/
theorem merge_composes (segments : List Segment) (p q : Bodies) :
    ((ofSegments segments).merge p).merge q =
        (ofSegments segments).merge (fun id => (q id).or (p id)) ∧
      ((ofSegments segments).merge p).merge p = (ofSegments segments).merge p ∧
      (∀ t s : Document, (t.fillIn s).fillIn s = t.fillIn s) ∧
      (ofSegments segments).merge (fun _ => none) = ofSegments segments := by
  refine ⟨merge_merge _ p q, merge_again _ p, ?_, merge_nothing segments⟩
  intro t s
  exact merge_again t s.body?

end Document
end ProtectedRegions
