import ProtectedRegions.CommandLine.Outcome

/-
  The program — loads what a command line names, runs it, writes what changed

  Everything is decided by `Invocation.outcome`, which is a function of the
  arguments and a workspace. This module makes the workspace from the disk, as
  far as the command reaches, and carries the changed entries back.
-/

namespace ProtectedRegions
namespace CommandLine

/-- How deep below a named directory files are looked for. -/
def maxDepth : Nat := 4096

/-- The workspace with what is on disk at a location, and below it down to a
depth. -/
def load : Workspace → Location → Nat → IO Workspace
  | w, l, depth => do
    let path := (← IO.currentDir) / (Workspace.locationText l).str
    if ← path.isDir then
      let w := w.put l .directory
      match depth with
      | 0 => return w
      | depth + 1 =>
        let entries ← path.readDir
        entries.foldlM (fun w e => load w (l ++ [e.fileName.toList]) depth) w
    else if ← path.pathExists then return w.put l (.file (← IO.FS.readBinFile path))
    else return w

/-- The workspace with what is on disk along a path and below it. -/
def loadPath (w : Workspace) (path : Text) : IO Workspace := do
  let p := Path.ofText path
  let start := if p.isAbsolute then [] else w.current
  let along := (List.range p.parts.length).map fun n => Workspace.resolve start (p.parts.take n)
  let w ← along.foldlM (fun w l => load w l 0) w
  load w (Workspace.resolve start p.parts) maxDepth

/-- The workspace of this process, with nothing in it but the directories that
lead to the current one. -/
def environment : IO Workspace := do
  let current := (Path.ofText (← IO.currentDir).toString.toList).parts
  let home := ((← IO.getEnv "HOME").getD "/").toList
  let config := (← IO.getEnv "REGIONKEEPER_CONFIG").map String.toList
  let above := (List.range current.length).map fun n => current.take (n + 1)
  return above.foldl (fun w l => w.put l .directory) (.bare current home config)

/-- Writes the entries of a workspace that differ from those of before. -/
def save (before after : Workspace) : IO Unit :=
  after.entries.reverse.forM fun (l, e) => do
    let path := (Workspace.locationText l).str
    if before.lookup? l = some e then return
    match e with
    | .directory => IO.FS.createDirAll path
    | .file bytes => IO.FS.writeBinFile path bytes

/-- The paths that a command line reaches. -/
def Invocation.paths (i : Invocation) (w : Workspace) : List Text :=
  match i with
  | .halted _ => []
  | .run config _ c => (Configuration.path w config).text :: c.paths

def run (arguments : List Text) : IO UInt32 := do
  let invocation := Invocation.ofArguments arguments
  let bare ← environment
  let w ← (invocation.paths bare).foldlM loadPath bare
  let (o, level) := invocation.outcome w
  IO.eprint (writtenLog level o.log)
  IO.print o.output.str
  save w o.workspace
  match o.status with
  | .ok n => return n.toUInt32
  | .error e =>
    IO.eprintln e.message
    return 1

end CommandLine
end ProtectedRegions

def main (arguments : List String) : IO UInt32 :=
  ProtectedRegions.CommandLine.run (arguments.map String.toList)
