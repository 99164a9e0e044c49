import ProtectedRegions.Text

/-
  Paths — the names of files and directories, part by part

  A path is a root, which relative paths have not, and the parts between the
  slashes. Empty parts and single dots say nothing and are left out; two dots
  are kept, because where they lead depends on what is on disk. A path without
  parts and root is the dot.
-/

namespace ProtectedRegions

/-- A path: its root (nothing, one slash or two) and its parts. -/
structure Path where
  root : Text
  parts : List Text
  deriving DecidableEq, Repr

namespace Path

/-- The root of a path as it is written. Exactly two slashes are a root of their
own; three or more are one. -/
def rootOf (t : Text) : Text :=
  match t.takeWhile (· = '/') with
  | [] => []
  | ['/', '/'] => ['/', '/']
  | _ => ['/']

/-- The path that a text names. -/
def ofText (t : Text) : Path :=
  ⟨rootOf t, (Text.splitOn '/' t).filter fun part => part ≠ [] ∧ part ≠ ['.']⟩

def text (p : Path) : Text :=
  if p.root = [] ∧ p.parts = [] then ['.'] else p.root ++ Text.join ['/'] p.parts

def name (p : Path) : Text := p.parts.getLast?.getD []

def isAbsolute (p : Path) : Bool := p.root ≠ []

/-- The path one part shorter; a path without parts is its own parent. -/
def parent (p : Path) : Path := { p with parts := p.parts.dropLast }

/-- The path with more parts behind it. -/
def append (p : Path) (parts : List Text) : Path := { p with parts := p.parts ++ parts }

theorem append_nil (p : Path) : p.append [] = p := by simp [append]

theorem append_append (p : Path) (a b : List Text) : (p.append a).append b = p.append (a ++ b) := by
  simp [append]

end Path
end ProtectedRegions
