import ProtectedRegions.Merge

/-
  Pools — the regions captured from earlier output, by id

  An id is unique over everything that is pooled. A pool remembers which source
  a region came from: the same region may be met again in the same source,
  with the same body, because two parsers can cover one file; anything else
  under a known id is a duplicate.

  A pool keeps two tables, one of regions and one of sources. Nothing in their
  types holds them together, and nothing takes back what was written when a
  document is refused: an operation is a program that reads and writes the
  tables and can stop at any point with what it has written by then. It first
  goes through the regions of the document, and writes when all are looked at.
-/

namespace ProtectedRegions

/-- A table by id, in the order in which the ids came. -/
abbrev Table (α : Type) := List (Text × α)

/-- The table with a value under an id, in the place of the one it had there. -/
def Table.put {α : Type} (id : Text) (value : α) : Table α → Table α
  | [] => [(id, value)]
  | (key, old) :: rest =>
    if key = id then (key, value) :: rest else (key, old) :: put id value rest

/-- The captured regions and their sources, in the order of their capture. -/
structure Pool where
  regions : Table Segment
  sources : Table (Option Text)
  frozen : Bool
  deriving DecidableEq, Repr

/-- Why a pool does not take a document in. In a pool that was filled by its own
operations no region is untraced. -/
inductive PoolError where
  | frozen
  | duplicate (id : Text) (first second : Option Text)
  | untraced (id : Text)
  deriving DecidableEq, Repr

/-- The sources of a duplicate, as they are named in its message. -/
def duplicatePlace (first second : Option Text) : String :=
  match [first, second].filterMap (·.filter (· != [])) with
  | [] => "the same document"
  | sources => String.intercalate ", " (sources.map Text.str)

def PoolError.message : PoolError → String
  | .frozen => "Region pool is frozen; no more regions can be ingested"
  | .duplicate id first second =>
    s!"Duplicate protected region id: '{id.str}' ({duplicatePlace first second}). "
      ++ "Protected region ids have to be globally unique."
  | .untraced id => s!"'{id.str}'"

namespace Pool

def empty : Pool := ⟨[], [], false⟩

def region? (p : Pool) (id : Text) : Option Segment := p.regions.lookup id

/-- The body pooled under an id. -/
def body? (p : Pool) (id : Text) : Option Text := (p.region? id).map (·.content)

/-- The source that the region of an id came from. -/
def source? (p : Pool) (id : Text) : Option Text := (p.sources.lookup id).join

def size (p : Pool) : Nat := p.regions.length

/-- The pool, refusing documents from now on. -/
def freeze (p : Pool) : Pool := { p with frozen := true }

def shown (p : Pool) : String :=
  if p.frozen then s!"RegionPool({p.size} regions, frozen)" else s!"RegionPool({p.size} regions)"

/-- Work on a pool. Where it stops with a refusal, the pool is left as it is then. -/
abbrev Work := EStateM PoolError Pool

/-- Looks at one more segment of a document: the new regions, after those found in
front of it. -/
def check (source : Option Text) (added : Table Segment) (s : Segment) : Work (Table Segment) := do
  match s.id with
  | none => return added
  | some id =>
    match added.lookup id with
    | some first =>
      if first.content = s.content then return added else throw (.duplicate id source source)
    | none =>
      match (← get).region? id with
      | none => return added ++ [(id, s)]
      | some known =>
        match (← get).sources.lookup id with
        | none => throw (.untraced id)
        | some first =>
          -- the same file seen through a second parser is not a collision
          if source.isSome ∧ first = source ∧ known.content = s.content then return added
          else throw (.duplicate id first source)

/-- Looks at segments in order. -/
def collect (source : Option Text) (added : Table Segment) (segments : List Segment) :
    Work (Table Segment) :=
  segments.foldlM (check source) added

/-- Writes a new region and its source into the tables. -/
def store (source : Option Text) (region : Text × Segment) : Work Unit := do
  modify fun p => { p with regions := p.regions.put region.1 region.2 }
  modify fun p => { p with sources := p.sources.put region.1 source }

/-- Takes in the regions of a document; the count is that of the new ones. -/
def takeIn (d : Document) (source : Option Text) : Work Nat := do
  if (← get).frozen then throw .frozen
  let added ← collect source [] d.segments
  added.forM (store source)
  return added.length

/-- What comes of offering a document to a pool, and the pool it leaves. -/
def ingest (p : Pool) (d : Document) (source : Option Text) : EStateM.Result PoolError Pool Nat :=
  (takeIn d source).run p

end Pool
end ProtectedRegions
