import ProtectedRegions.Text

/-
  Logs — what a run says about itself

  A line has a level, and a log keeps the lines from its own level on. The lines
  are values: a run returns them beside its result, and whoever shows them
  chooses the level. A sink is the place where lines are written; setting up a
  log again changes its level and never its sink.
-/

namespace ProtectedRegions

/-- How much a line matters. -/
inductive LogLevel where
  | debug
  | info
  | warning
  | error
  | critical
  deriving DecidableEq, Repr

namespace LogLevel

def all : List LogLevel := [.debug, .info, .warning, .error, .critical]

def name : LogLevel → String
  | .debug => "DEBUG"
  | .info => "INFO"
  | .warning => "WARNING"
  | .error => "ERROR"
  | .critical => "CRITICAL"

/-- The level of a name. Two levels have a second name. -/
def ofName? (s : String) : Option LogLevel :=
  if s = "WARN" then some .warning
  else if s = "FATAL" then some .critical
  else all.find? (·.name = s)

def rank : LogLevel → Nat
  | .debug => 1
  | .info => 2
  | .warning => 3
  | .error => 4
  | .critical => 5

end LogLevel

/-- One line of a log. -/
structure LogLine where
  level : LogLevel
  text : String
  deriving DecidableEq, Repr

namespace LogLine

def written (l : LogLine) : String := l.level.name ++ ": " ++ l.text ++ "\n"

end LogLine

/-- The lines of a log from a level on, as they are written. -/
def writtenLog (threshold : LogLevel) (lines : List LogLine) : String :=
  String.join ((lines.filter fun l => threshold.rank ≤ l.level.rank).map LogLine.written)

/-- The name that all names of loggers begin with. -/
def baseLogger : Text := "regionkeeper".toList

def loggerName (given : Option Text) : Text :=
  let name := given.getD []
  if name = [] ∨ name = baseLogger then baseLogger
  else if name.startsWith (baseLogger ++ ['.']) then name
  else baseLogger ++ ['.'] ++ name

/-- A log that may have been set up: its level and the number of the sink that
was given at the first time. -/
structure LogSetup where
  threshold : LogLevel
  sink : Nat
  deriving DecidableEq, Repr

namespace LogSetup

/-- The setup after one more call, which is given the sink of its number. -/
def again (setup : Option LogSetup) (number : Nat) (threshold : LogLevel) : LogSetup :=
  match setup with
  | none => ⟨threshold, number⟩
  | some s => { s with threshold := threshold }

/-- What every sink holds after a series of calls, each followed by the same
lines: all that is written goes to the sink of the first call. -/
def sinks (lines : List LogLine) : List LogLevel → List String
  | [] => []
  | levels@(_ :: rest) =>
    String.join (levels.map fun threshold => writtenLog threshold lines) :: rest.map fun _ => ""

end LogSetup
end ProtectedRegions
