import ProtectedRegions.Support

/-
  Builders — parsers are registered, earlier output is read, a support is built

  A builder is configured first; the first root that is read closes the list
  of parsers, and building freezes the pool. Roots that are missing, or lie in
  a root that was read before, are skipped and remembered.

  Every operation returns an attempt: the builder as it is afterwards, the
  failure if there was one, and what was logged. A read that fails leaves the pool
  that its last step left.
-/

namespace ProtectedRegions

/-- Why a root was not read. -/
inductive SkipReason where
  | missing
  | visited
  deriving DecidableEq, Repr

def SkipReason.name : SkipReason → String
  | .missing => "missing"
  | .visited => "already visited"

/-- A root that was not read, as it was named, and why. -/
structure SkippedRoot where
  path : Text
  reason : SkipReason
  deriving DecidableEq, Repr

structure Builder where
  registrations : List Registration
  pool : Pool
  stage : Stage
  skipped : List SkippedRoot
  visited : List Location

structure Attempt where
  builder : Builder
  failure : Option Failure
  log : List LogLine

/-- How far the reading of files came: the pool, what was logged, and the
failure that ended it, if any. -/
structure Reading where
  pool : Pool
  failure : Option Failure
  log : List LogLine

namespace Reading

def andThen (r : Reading) (f : Pool → Reading) : Reading :=
  match r.failure with
  | some _ => r
  | none => { f r.pool with log := r.log ++ (f r.pool).log }

/-- Takes the regions that one parser finds in a file into the pool. -/
def ingest (file t : Text) (pool : Pool) (p : Parser) : Reading :=
  match p.parse t with
  | .error e => ⟨pool, some (.ofParse e), []⟩
  | .ok d =>
    match pool.ingest d (some file) with
    | .error e pool => ⟨pool, some (.pool e), []⟩
    | .ok 0 pool => ⟨pool, none, []⟩
    | .ok n pool =>
      ⟨pool, none, [⟨.debug, s!"pooled {n} regions from {file.str} ({p.shown})"⟩]⟩

def ingestAll (file t : Text) : List Parser → Pool → Reading
  | [], pool => ⟨pool, none, []⟩
  | p :: rest, pool => (ingest file t pool p).andThen (ingestAll file t rest)

/-- Reads one file with the parsers that are for it. A file that is no text is
passed over. -/
def file (w : Workspace) (registrations : List Registration) (path : Text) (pool : Pool) : Reading :=
  match parsersFor registrations path with
  | [] => ⟨pool, none, []⟩
  | parsers =>
    match w.readText path with
    | .ok t => ingestAll path t parsers pool
    | .error (.unreadable p fault) =>
      ⟨pool, none, [⟨.warning, s!"skipping {(Failure.unreadable p fault).message}"⟩]⟩
    | .error e => ⟨pool, some e, []⟩

def files (w : Workspace) (registrations : List Registration) : List Text → Pool → Reading
  | [], pool => ⟨pool, none, []⟩
  | path :: rest, pool => (file w registrations path pool).andThen (files w registrations rest)

end Reading

namespace Builder

/-- A builder to which nothing was done yet. -/
def new : Builder := ⟨[], .empty, .configuring, [], []⟩

def refuse (b : Builder) (e : BuilderError) : Attempt := ⟨b, some (.builder e), []⟩

/-- Registers a parser for the files of a filter, or for all files. -/
def addParser (b : Builder) (parser : Option Parser) (filter : Option Filter) : Attempt :=
  match parser with
  | none => b.refuse .noParser
  | some p =>
    match b.stage with
    | .configuring =>
      ⟨{ b with registrations := b.registrations ++ [⟨filter.getD .all, p⟩] }, none, []⟩
    | stage => b.refuse (.notAllowed .addParser stage)

/-- Registers a parser for the files with one of some endings. The endings are
looked at before the builder. -/
def addParserForExtensions (b : Builder) (parser : Option Parser) (endings : List Text) :
    Except FilterFault Attempt :=
  (Filter.ofExtensions endings).map fun filter => b.addParser parser (some filter)

/-- Whether a location is a root that was read, or lies below one. -/
def isVisited (b : Builder) (l : Location) : Bool := b.visited.any (·.isPrefixOf l)

/-- Reads the files below a directory, which was not read before. -/
def readFresh (b : Builder) (w : Workspace) (path : Text) (filter : Option Filter) : Attempt :=
  let files := (w.listFiles (Path.ofText path) filter).map Path.text
  let r := Reading.files w b.registrations files b.pool
  let log := ⟨.debug, s!"reading {files.length} files below {path.str}"⟩ :: r.log
  match r.failure with
  | some e => ⟨{ b with pool := r.pool }, some e, log⟩
  | none =>
    ⟨{ b with
        pool := r.pool
        stage := .reading
        visited := b.visited ++ [w.canonical (Path.ofText path)] }, none, log⟩

/-- Captures the regions of every file below a directory. -/
def read (b : Builder) (w : Workspace) (path : Text) (filter : Option Filter) : Attempt :=
  if b.registrations.isEmpty then b.refuse .noParsersYet
  else if b.stage = .built then b.refuse (.notAllowed .read .built)
  else if !w.exists? (Path.ofText path) then
    ⟨{ b with skipped := b.skipped ++ [⟨path, .missing⟩] }, none,
      [⟨.info, s!"skipping missing path '{path.str}'"⟩]⟩
  else if !w.isDirectory (Path.ofText path) then b.refuse (.rootNotDirectory path)
  else if b.isVisited (w.canonical (Path.ofText path)) then
    ⟨{ b with skipped := b.skipped ++ [⟨path, .visited⟩] }, none,
      [⟨.warning, s!"skipping already visited path '{path.str}'"⟩]⟩
  else b.readFresh w path filter

/-- Freezes the pool; the support of the builder is then complete. -/
def build (b : Builder) : Attempt :=
  if b.stage = .built then b.refuse (.notAllowed .build .built)
  else ⟨{ b with pool := b.pool.freeze, stage := .built }, none, []⟩

/-- The support with the parsers and the pool of a builder. -/
def support (b : Builder) : Support := ⟨b.registrations, b.pool⟩

end Builder
end ProtectedRegions
