import ProtectedRegions.CommandLine.Arguments
import ProtectedRegions.Sync

/-
  Outcomes — what a command prints, what it leaves on disk, and how it ends

  There are three commands. `sync` merges a generated tree into its target,
  `regions` lists the regions of a file, and `check` reads a tree for the sake of
  the failures that it has. A failure that is reported is printed and makes the
  status one; any other failure ends the program without a status, and what was
  printed before it stays printed.
-/

namespace ProtectedRegions
namespace CommandLine

/-- What a run printed, the lines it logged, the workspace afterwards, and its
status, or the failure that ended it without one. -/
structure Outcome where
  printed : List Text
  log : List LogLine
  workspace : Workspace
  status : Except Failure Nat

namespace Outcome

def output (o : Outcome) : Text := o.printed.flatMap fun line => line ++ ['\n']

/-- A run that a failure ended, with a word for the failure before its wording. -/
def failed (word : String) (printed : List Text) (log : List LogLine) (w : Workspace) (e : Failure) :
    Outcome :=
  if e.reported then ⟨printed ++ [s!"{word} {e.message}".toList], log, w, .ok 1⟩
  else ⟨printed, log, w, .error e⟩

def syncLines (r : SyncReport) : List String :=
  ["Protected Region Sync Results", String.ofList (List.replicate 40 '─'),
    s!"  Regions:   {r.regions}",
    s!"  Created:   {r.created.length}",
    s!"  Updated:   {r.updated.length}",
    s!"  Unchanged: {r.unchanged.length}"]
  ++ r.skipped.map (fun s => s!"  Skipped:   {s.shown}")
  ++ if r.dryRun then ["", "[DRY RUN] No files were modified."] else []

def ofSync (w : Workspace) (r : SyncRequest) : Outcome :=
  match sync w r with
  | (w, ⟨.ok report, log⟩) => ⟨(syncLines report).map String.toList, log, w, .ok 0⟩
  | (w, ⟨.error e, log⟩) => failed "ERROR:" [] log w e

/-- The line that tells of one region: the parser it was found by, its id, and
the line that its start marker is on. -/
def regionLine (p : Parser) (t : Text) (region : Placed) : Text :=
  ' ' :: ' ' :: Text.padRight 12 ' ' p.name ++ [' '] ++ region.segment.id.getD []
    ++ s!"  (line {t.lineOf region.start})".toList

/-- The lines for the regions that parsers find in a text, one parser after the
other, up to the first failure. -/
def regionLines (t : Text) : List Parser → List Text × Option Failure
  | [] => ([], none)
  | p :: rest =>
    match p.parse t with
    | .error e => ([], some (.ofParse e))
    | .ok d =>
      let (others, failure) := regionLines t rest
      (d.regions.map (regionLine p t) ++ others, failure)

/-- The parsers of a configuration that are for a path. -/
def applicable (entries : List ParserEntry) (path : Text) : List Parser :=
  parsersFor (entries.map fun e => ⟨e.filter.getD .all, e.parser⟩) path

def ofRegions (w : Workspace) (file : Text) (config : Option Text) : Outcome :=
  let path := Path.ofText file
  let read := do
    let entries ← Configuration.load w config
    return (entries, ← w.readText path.text)
  if !w.isFile path then ⟨[s!"ERROR: not a file: {path.text.str}".toList], [], w, .ok 1⟩
  else match read with
    | .error e => failed "ERROR:" [] [] w e
    | .ok (entries, t) =>
      match regionLines t (applicable entries path.text) with
      | (lines, some e) => failed "ERROR:" lines [] w e
      | (lines, none) =>
        ⟨lines ++ [[], s!"{lines.length} protected regions in {path.text.str}".toList], [], w, .ok 0⟩

/-- Reads a tree and says whether its regions can be pooled. -/
def ofCheck (w : Workspace) (root : Text) (config : Option Text) : Outcome :=
  match Sync.prepare w [root] config with
  | ⟨.error e, log⟩ => failed "FAIL" [] log w e
  | ⟨.ok b, log⟩ =>
    ⟨b.skipped.map (fun s => s!"  SKIP {s.shown}".toList)
        ++ [s!"  PASS {b.pool.size} protected regions, ids unique".toList], log, w, .ok 0⟩

end Outcome

/-- The target of a sync: the current directory where none is named. -/
def targetOf (named : Option Text) : Text := if named.getD [] = [] then ['.'] else named.getD []

def Command.paths : Command → List Text
  | .sync generated target reads _ => generated :: targetOf target :: reads
  | .regions file => [file]
  | .check root => [root]

def Command.outcome (c : Command) (w : Workspace) (config : Option Text) : Outcome :=
  match c with
  | .sync generated target reads dryRun =>
    .ofSync w ⟨generated, targetOf target, reads, config, dryRun⟩
  | .regions file => .ofRegions w file config
  | .check root => .ofCheck w root config

/-- The level that a log is kept from. -/
def threshold (verbose : Bool) : LogLevel := if verbose then .debug else .info

def versionLine : Text := "regionkeeper 0.4.0".toList

def usage : List Text :=
  ["usage: regionkeeper [-h] [--version] [--config CONFIG] [-v] \x7bsync,regions,check\x7d ...",
    "",
    "  sync GENERATED [--target DIR] [--read DIR] [--dry-run]",
    "                   merge a generated tree into its target directory",
    "  regions FILE     list the protected regions of a file",
    "  check ROOT       validate all protected regions below a directory",
    "",
    "  --config CONFIG  the parser configuration (or set REGIONKEEPER_CONFIG)",
    "  -v, --verbose    log more"].map String.toList

/-- What a command line does that only asks about the program, or is refused. -/
def Halt.outcome (h : Halt) (w : Workspace) : Outcome :=
  match h with
  | .help => ⟨usage, [], w, .ok 0⟩
  | .version => ⟨[versionLine], [], w, .ok 0⟩
  | .refused message => ⟨[], [⟨.error, message⟩], w, .ok 2⟩

/-- What a command line does, and the level that its log is kept from. -/
def Invocation.outcome (i : Invocation) (w : Workspace) : Outcome × LogLevel :=
  match i with
  | .halted h => (h.outcome w, .error)
  | .run config verbose c => (c.outcome w config, threshold verbose)

end CommandLine
end ProtectedRegions
