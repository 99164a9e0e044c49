import ProtectedRegions.Filter
import ProtectedRegions.Text.Quoted
import ProtectedRegions.Text.Utf8

/-
  Workspaces — the files and directories a run works on, as a value

  A workspace maps locations, which are lists of names below the root, to files
  and directories, and knows the current directory, the home directory and the
  configuration that the environment names. A path leads to a location part by
  part: every part but the last has to be reached through directories, and two
  dots lead to the directory above. Operations that change something return the
  changed workspace, so that what a run does to the files is part of its
  result.

  An entry is a file or a directory. There are no links, symbolic or hard: a
  location has an entry of its own, and following a path is the only way that two
  texts can name one entry.

  What is stated here:
    1. `lookup_put` and `lookup_put_of_ne` — putting an entry changes its own
       location and no other.
    2. `mem_listFiles` — a listing holds exactly the accepted files below its
       directory.
-/

namespace ProtectedRegions

/-- The names that lead from the root to a file or directory. -/
abbrev Location := List Text

/-- What is at a location. -/
inductive Entry where
  | file (content : ByteArray)
  | directory

instance Entry.decEq : DecidableEq Entry
  | .file a, .file b =>
    if h : a.data = b.data then isTrue (by rw [ByteArray.ext h])
    else isFalse fun heq => h (by rw [Entry.file.inj heq])
  | .file _, .directory => isFalse nofun
  | .directory, .file _ => isFalse nofun
  | .directory, .directory => isTrue rfl

/-- Why an operation on a path fails. -/
inductive DiskFault where
  | notFound
  | exists
  | notDirectory
  | isDirectory
  deriving DecidableEq, Repr

/-- The number and the wording of a fault. -/
def DiskFault.message : DiskFault → String
  | .notFound => "[Errno 2] No such file or directory"
  | .exists => "[Errno 17] File exists"
  | .notDirectory => "[Errno 20] Not a directory"
  | .isDirectory => "[Errno 21] Is a directory"

structure DiskError where
  fault : DiskFault
  path : Text
  deriving DecidableEq, Repr

def DiskError.message (e : DiskError) : String := s!"{e.fault.message}: {e.path.quoted.str}"

/-- Files and directories, one entry a location, where a run stands among them,
and what the environment says. -/
structure Workspace where
  entries : List (Location × Entry)
  distinct : (entries.map Prod.fst).Nodup
  current : Location
  home : Text
  configVariable : Option Text

namespace Workspace

def bare (current : Location) (home : Text) (configVariable : Option Text) : Workspace :=
  ⟨[], List.nodup_nil, current, home, configVariable⟩

/-- What is at a location. The root is always a directory. -/
def lookup? (w : Workspace) (l : Location) : Option Entry :=
  if l = [] then some .directory else w.entries.lookup l

theorem distinct_filter (w : Workspace) (p : Location × Entry → Bool) :
    ((w.entries.filter p).map Prod.fst).Nodup :=
  (List.filter_sublist.map Prod.fst).nodup w.distinct

theorem distinct_put (w : Workspace) (l : Location) (e : Entry) :
    (((l, e) :: w.entries.filter fun x => x.1 != l).map Prod.fst).Nodup := by
  refine List.nodup_cons.mpr ⟨?_, w.distinct_filter _⟩
  simp

def put (w : Workspace) (l : Location) (e : Entry) : Workspace :=
  { w with
    entries := (l, e) :: w.entries.filter fun x => x.1 != l
    distinct := w.distinct_put l e }

/-! ## Where paths lead -/

/-- The location that parts lead to from a location. -/
def walk (w : Workspace) : Location → List Text → Except DiskFault Location
  | l, [] => .ok l
  | l, part :: rest =>
    match w.lookup? l with
    | none => .error .notFound
    | some (.file _) => .error .notDirectory
    | some .directory =>
      if part = ['.', '.'] then walk w l.dropLast rest
      else if part = ['.'] then walk w l rest
      else walk w (l ++ [part]) rest

/-- The location that a path leads to, whether or not anything is there. -/
def locate (w : Workspace) (p : Path) : Except DiskFault Location :=
  w.walk (if p.isAbsolute then [] else w.current) p.parts

/-- What a path leads to. -/
def at? (w : Workspace) (p : Path) : Option Entry :=
  match w.locate p with
  | .ok l => w.lookup? l
  | .error _ => none

def exists? (w : Workspace) (p : Path) : Bool := (w.at? p).isSome

def isDirectory (w : Workspace) (p : Path) : Bool := w.at? p = some .directory

def isFile (w : Workspace) (p : Path) : Bool :=
  match w.at? p with
  | some (.file _) => true
  | _ => false

/-- The parts of a path as it is written, dots included; a slash at the end asks
for a directory, as a dot would. -/
def writtenParts (t : Text) : List Text :=
  (Text.splitOn '/' t).filter (· ≠ []) ++ if t.getLast? = some '/' then [['.']] else []

/-- The path with the home directory in the place of a tilde at its front. -/
def expand (w : Workspace) (p : Path) : Path :=
  if p.root = [] ∧ p.parts.head? = some ['~'] then (Path.ofText w.home).append (p.parts.drop 1)
  else p

/-- The names of an absolute path with every part resolved as written: two dots
take the part before them away. -/
def resolve : Location → List Text → Location
  | l, [] => l
  | l, part :: rest => resolve (if part = ['.', '.'] then l.dropLast else l ++ [part]) rest

/-- The location that a path names, whether or not its parts exist. -/
def canonical (w : Workspace) (p : Path) : Location :=
  let p := w.expand p
  resolve (if p.isAbsolute then [] else w.current) p.parts

def locationText (l : Location) : Text := Path.text ⟨['/'], l⟩

/-! ## Reading -/

/-- The bytes of the file that a path, as it is written, leads to. -/
def readBytes (w : Workspace) (t : Text) : Except DiskError ByteArray :=
  let start := if t.head? = some '/' then [] else w.current
  if t = [] then .error ⟨.notFound, t⟩
  else match w.walk start (writtenParts t) with
    | .error fault => .error ⟨fault, t⟩
    | .ok l =>
      match w.lookup? l with
      | none => .error ⟨.notFound, t⟩
      | some .directory => .error ⟨.isDirectory, t⟩
      | some (.file bytes) => .ok bytes

/-- Whether one list of names comes before another or is equal to it: name by
name, and names character by character. -/
def namesLe (a b : List Text) : Bool := !decide (b < a)

/-- The names that lead from a location to the files below it, in order. -/
def namesBelow (w : Workspace) (l : Location) : List (List Text) :=
  let below := w.entries.filterMap fun x =>
    match x.2 with
    | .file _ => if l.isPrefixOf x.1 ∧ x.1 ≠ l then some (x.1.drop l.length) else none
    | .directory => none
  below.mergeSort namesLe

/-- The files below a directory that a filter accepts, at any depth, ordered by
the parts of their paths. Where there is no directory there are no files. -/
def listFiles (w : Workspace) (directory : Path) (filter : Option Filter) : List Path :=
  match w.locate directory with
  | .error _ => []
  | .ok l =>
    if w.lookup? l = some .directory then
      ((w.namesBelow l).map directory.append).filter fun p =>
        match filter with
        | none => true
        | some f => f.accepts p.text
    else []

/-! ## Writing -/

/-- Makes one directory, whose parent has to be there. -/
def makeDirectory (w : Workspace) (p : Path) : Except DiskFault Workspace :=
  match w.locate p with
  | .error fault => .error fault
  | .ok l =>
    match w.lookup? l with
    | some _ => .error .exists
    | none => .ok (w.put l .directory)

/-- Makes a directory that may be there already. -/
def ensureDirectory (w : Workspace) (p : Path) : Except DiskFault Workspace :=
  match w.makeDirectory p with
  | .ok w => .ok w
  | .error .notFound => .error .notFound
  | .error fault => if w.isDirectory p then .ok w else .error fault

/-- Makes a directory and those above it, given by the parts of its path from
the last to the first. Directories made before an error stay. -/
def makeDirectories (w : Workspace) (root : Text) : List Text → Workspace × Option DiskError
  | [] =>
    match w.ensureDirectory ⟨root, []⟩ with
    | .ok w => (w, none)
    | .error fault => (w, some ⟨fault, Path.text ⟨root, []⟩⟩)
  | part :: above =>
    let p : Path := ⟨root, (part :: above).reverse⟩
    match w.ensureDirectory p with
    | .ok w => (w, none)
    | .error .notFound =>
      match makeDirectories w root above with
      | (w, some e) => (w, some e)
      | (w, none) =>
        match w.ensureDirectory p with
        | .ok w => (w, none)
        | .error fault => (w, some ⟨fault, p.text⟩)
    | .error fault => (w, some ⟨fault, p.text⟩)

/-- Writes bytes to the file at a path whose directory is there. -/
def overwrite (w : Workspace) (p : Path) (bytes : ByteArray) : Workspace × Option DiskError :=
  match w.locate p with
  | .error fault => (w, some ⟨fault, p.text⟩)
  | .ok l =>
    match w.lookup? l with
    | some .directory => (w, some ⟨.isDirectory, p.text⟩)
    | _ => (w.put l (.file bytes), none)

/-- Writes bytes to the file at a path, making the directories above it. -/
def write (w : Workspace) (p : Path) (bytes : ByteArray) : Workspace × Option DiskError :=
  match w.makeDirectories p.root p.parent.parts.reverse with
  | (w, some e) => (w, some e)
  | (w, none) => w.overwrite p bytes

/-! ## The view of a workspace through its entries -/

theorem lookup_filter_ne {l m : Location} {entries : List (Location × Entry)} (h : m ≠ l) :
    (entries.filter fun x => x.1 != l).lookup m = entries.lookup m := by
  induction entries with
  | nil => rfl
  | cons x rest ih =>
    obtain ⟨k, e⟩ := x
    by_cases hk : k = l
    · have hm : (m == k) = false := by simpa [hk] using h
      simp [hk, ih, List.lookup_cons, show (m == l) = false by simpa using h]
    · simp [hk, List.lookup_cons, ih]

theorem lookup_put {w : Workspace} {l : Location} {e : Entry} (h : l ≠ []) :
    (w.put l e).lookup? l = some e := by
  simp [lookup?, put, h]

theorem lookup_put_of_ne {w : Workspace} {l m : Location} {e : Entry} (h : m ≠ l) :
    (w.put l e).lookup? m = w.lookup? m := by
  simp [lookup?, put, List.lookup_cons, show (m == l) = false by simpa using h, lookup_filter_ne h]

theorem mem_listFiles {w : Workspace} {directory : Path} {filter : Option Filter} {l : Location}
    (hl : w.locate directory = .ok l) (hd : w.lookup? l = some .directory) {p : Path} :
    p ∈ w.listFiles directory filter ↔
      (∃ names ∈ w.namesBelow l, p = directory.append names) ∧
        ∀ f, filter = some f → f.accepts p.text = true := by
  simp only [listFiles, hl, hd, if_true, List.mem_filter, List.mem_map]
  constructor
  · rintro ⟨⟨names, hn, rfl⟩, hf⟩
    refine ⟨⟨names, hn, rfl⟩, ?_⟩
    rintro f rfl
    simpa using hf
  · rintro ⟨⟨names, hn, rfl⟩, hf⟩
    refine ⟨⟨names, hn, rfl⟩, ?_⟩
    cases filter with
    | none => rfl
    | some f => simpa using hf f rfl

end Workspace
end ProtectedRegions
