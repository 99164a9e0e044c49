import ProtectedRegions.Builder
import ProtectedRegions.Configuration.File

/-
  Syncing — a generated tree merged into its target

  The parsers are configured, the earlier output is read, and every generated
  file is merged against what was captured; only then is anything written. The
  plan says for each file what it will hold and whether that creates it, changes
  it or leaves it as it is. A generated file that is no text is copied byte for
  byte.
-/

namespace ProtectedRegions

structure SyncRequest where
  generated : Text
  target : Text
  readRoots : List Text
  config : Option Text
  dryRun : Bool

/-- What happens to a target file. -/
inductive Change where
  | created
  | updated
  | unchanged
  deriving DecidableEq, Repr

structure PlannedFile where
  path : Path
  content : ByteArray
  change : Change

structure SyncReport where
  created : List Text
  updated : List Text
  unchanged : List Text
  regions : Nat
  skipped : List SkippedRoot
  dryRun : Bool
  deriving DecidableEq, Repr

def SkippedRoot.shown (s : SkippedRoot) : String := s!"{s.path.str} ({s.reason.name})"

namespace Builder

def configured (entries : List ParserEntry) : Builder :=
  { new with registrations := entries.map fun e => ⟨e.filter.getD .all, e.parser⟩ }

def readAll (w : Workspace) : List Text → Builder → Logged Builder
  | [], b => .silent (.ok b)
  | root :: rest, b =>
    let a := b.read w root none
    (Logged.mk (match a.failure with | some e => .error e | none => .ok a.builder) a.log).andThen
      (readAll w rest)

end Builder

namespace Sync

/-- A built builder with the configured parsers and the regions of roots. -/
def prepare (w : Workspace) (roots : List Text) (config : Option Text) : Logged Builder :=
  (Logged.silent (Configuration.load w config)).andThen fun entries =>
    (Builder.readAll w roots (.configured entries)).andThen fun b =>
      .silent (.ok b.build.builder)

/-- What a target file changes by holding some bytes. -/
def changeOf (w : Workspace) (path : Path) (content : ByteArray) : Change :=
  match w.at? path with
  | some (.file old) => if old.data = content.data then .unchanged else .updated
  | _ => .created

/-- What the target of a generated file will hold. -/
def contentOf (w : Workspace) (s : Support) (file target : Path) : Logged ByteArray :=
  match w.readBytes file.text with
  | .error e => .silent (.error (.disk e))
  | .ok bytes =>
    match Text.decode bytes with
    | .error _ => ⟨.ok bytes, [⟨.debug, s!"copying binary file {file.text.str}"⟩]⟩
    | .ok t => (s.merge w target.text t).andThen fun t => .silent (.ok (Text.encode t))

def planFile (w : Workspace) (s : Support) (generated target file : Path) : Logged PlannedFile :=
  let path := target.append (file.parts.drop generated.parts.length)
  (contentOf w s file path).andThen fun content =>
    .silent (.ok ⟨path, content, changeOf w path content⟩)

/-- The plan for generated files, in order. -/
def planAll (w : Workspace) (s : Support) (generated target : Path) :
    List Path → Logged (List PlannedFile)
  | [] => .silent (.ok [])
  | file :: rest =>
    (planFile w s generated target file).andThen fun planned =>
      (planAll w s generated target rest).andThen fun others =>
        .silent (.ok (planned :: others))

/-- The result of building a support and planning every file. -/
def plan (w : Workspace) (r : SyncRequest) : Logged (Builder × List PlannedFile) :=
  let generated := Path.ofText r.generated
  let target := Path.ofText r.target
  if w.isDirectory generated then
    (prepare w (if r.readRoots = [] then [target.text] else r.readRoots) r.config).andThen fun b =>
      (Logged.mk (.ok ()) [⟨.info, s!"pooled {b.pool.size} protected regions"⟩]).andThen fun _ =>
        (planAll w b.support generated target (w.listFiles generated none)).andThen fun files =>
          .silent (.ok (b, files))
  else .silent (.error (.generatedNotDirectory generated.text))

/-- Writes the files of a plan that change anything, up to the first error. -/
def carryOut (w : Workspace) : List PlannedFile → Workspace × Option DiskError
  | [] => (w, none)
  | f :: rest =>
    if f.change = .unchanged then carryOut w rest
    else match w.write f.path f.content with
      | (w, some e) => (w, some e)
      | (w, none) => carryOut w rest

def report (b : Builder) (files : List PlannedFile) (dryRun : Bool) : SyncReport :=
  let named := fun (c : Change) => (files.filter (·.change = c)).map (·.path.text)
  ⟨named .created, named .updated, named .unchanged, b.pool.size, b.skipped, dryRun⟩

end Sync

/-- Merges every file below the generated tree into the target: the workspace
afterwards, and the report or the failure. -/
def sync (w : Workspace) (r : SyncRequest) : Workspace × Logged SyncReport :=
  let planned := Sync.plan w r
  match planned.result with
  | .error e => (w, ⟨.error e, planned.log⟩)
  | .ok (b, files) =>
    let (after, error) := if r.dryRun then (w, none) else Sync.carryOut w files
    match error with
    | some e => (after, ⟨.error (.disk e), planned.log⟩)
    | none => (after, ⟨.ok (Sync.report b files r.dryRun), planned.log⟩)

end ProtectedRegions
