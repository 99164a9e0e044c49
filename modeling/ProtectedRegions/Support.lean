import ProtectedRegions.Failure
import ProtectedRegions.Log

/-
  Supports — a generated file with its protected regions restored

  A support holds the parsers, each with the files it is for, and the pool of
  what was captured. Every parser that is for a file works on the output of
  the one before it: it parses the text and puts in the bodies it knows, from
  the pool, or for an inverse parser from the file that is on disk now.
-/

namespace ProtectedRegions

structure Registration where
  filter : Filter
  parser : Parser

/-- What restores the regions of generated files. -/
structure Support where
  registrations : List Registration
  pool : Pool

/-- A result with the lines that were logged on the way to it. -/
structure Logged (α : Type) where
  result : Except Failure α
  log : List LogLine

namespace Logged

def silent {α : Type} (result : Except Failure α) : Logged α := ⟨result, []⟩

/-- The continuation of a run, if it has come to a result. -/
def andThen {α β : Type} (a : Logged α) (f : α → Logged β) : Logged β :=
  match a.result with
  | .error e => ⟨.error e, a.log⟩
  | .ok x => ⟨(f x).result, a.log ++ (f x).log⟩

@[simp] theorem andThen_ok {α β : Type} (x : α) (log : List LogLine) (f : α → Logged β) :
    (Logged.mk (.ok x) log).andThen f = ⟨(f x).result, log ++ (f x).log⟩ := rfl

@[simp] theorem andThen_error {α β : Type} (e : Failure) (log : List LogLine) (f : α → Logged β) :
    (Logged.mk (.error e) log).andThen f = ⟨.error e, log⟩ := rfl

end Logged

/-- The parsers that are for a path, in the order of their registration. -/
def parsersFor (registrations : List Registration) (path : Text) : List Parser :=
  (registrations.filter fun r => r.filter.accepts path).map (·.parser)

namespace Support

/-- The document that a parser makes of the file on disk, if there is one. -/
def previous (w : Workspace) (path : Text) (p : Parser) : Logged (Option Document) :=
  if w.exists? (Path.ofText path) && !w.isDirectory (Path.ofText path) then
    .silent do
      let t ← w.readText path
      let d ← (p.parse t).mapError Failure.ofParse
      return some d
  else ⟨.ok none, [⟨.debug, s!"no previous file at {path.str} for {p.shown}"⟩]⟩

def restore (w : Workspace) (pool : Pool) (path : Text) (p : Parser) (t : Text) : Logged Text :=
  (Logged.silent ((p.parse t).mapError Failure.ofParse)).andThen fun d =>
    if p.inverse then
      (previous w path p).andThen fun
        | none => .silent (.ok d.text)
        | some source => .silent (.ok (d.fillIn source).text)
    else .silent (.ok (d.merge pool.body?).text)

/-- A text with the regions of parsers restored, one parser after the other. -/
def restoreAll (w : Workspace) (pool : Pool) (path : Text) : List Parser → Text → Logged Text
  | [], t => .silent (.ok t)
  | p :: rest, t => (restore w pool path p t).andThen fun t => restoreAll w pool path rest t

/-- The generated contents of a path with its protected regions restored. -/
def merge (s : Support) (w : Workspace) (path contents : Text) : Logged Text :=
  restoreAll w s.pool path (parsersFor s.registrations path) contents

end Support
end ProtectedRegions
