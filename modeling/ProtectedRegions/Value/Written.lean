import ProtectedRegions.Decimal.Shortest
import ProtectedRegions.Text.Quoted
import ProtectedRegions.Value

/-
  Written values — the text of a value in names and messages

  A text on its own is written as it is; inside a list or a mapping it is
  quoted. Truth values are `True` and `False` and null is `None`. Floats have
  the fewest digits that read back, positionally from 1e-4 up to 1e16. A value
  inside of itself is three dots in its brackets. Numbers with too many digits are
  not written; `fits` says that a value has none.
-/

namespace ProtectedRegions

/-- A number with zeros in front up to `width` digits. -/
def padded (width n : Nat) : Text :=
  let digits := Nat.toDigits 10 n
  List.replicate (width - digits.length) '0' ++ digits

namespace Decimal

/-- The layout of a decimal: positional while the exponent of the leading digit
is at least -4 and below 16, with a point always; otherwise one digit before
the point and an exponent of two digits or more. -/
def written (d : Decimal) : Text :=
  let digits := Nat.toDigits 10 d.digits
  let stripped := (digits.reverse.dropWhile (· == '0')).reverse
  let lead := Int.ofNat digits.length - 1 + d.exponent
  if -4 ≤ lead ∧ lead < 0 then
    "0.".toList ++ List.replicate (-lead - 1).toNat '0' ++ stripped
  else if 0 ≤ lead ∧ lead < 16 then
    let whole := lead.toNat + 1
    let front := stripped.take whole
    let back := stripped.drop whole
    front ++ List.replicate (whole - front.length) '0' ++ ['.']
      ++ if back = [] then ['0'] else back
  else
    let tail := stripped.drop 1
    stripped.take 1 ++ (if tail = [] then [] else '.' :: tail) ++ ['e']
      ++ (if lead < 0 then ['-'] else ['+']) ++ padded 2 lead.natAbs

end Decimal

def Float.written (x : Float) : Text :=
  if x.isNaN then "nan".toList
  else
    let bits := x.toBits.toNat
    let size := bits % Nat.pow 2 63
    let body :=
      if x.isInf then "inf".toList
      else if size = 0 then "0.0".toList
      else (Binary.ofBits size).shortest.written
    if bits = size then body else '-' :: body

namespace Moment

/-- The distance from the prime meridian's time, as hours and minutes. -/
def writtenOffset (minutes : Int) : Text :=
  (if minutes < 0 then '-' else '+') :: padded 2 (minutes.natAbs / 60) ++ [':']
    ++ padded 2 (minutes.natAbs % 60)

/-- The text of a moment on its own. -/
def written (m : Moment) : Text :=
  padded 4 m.year ++ ['-'] ++ padded 2 m.month ++ ['-'] ++ padded 2 m.day ++ [' ']
    ++ padded 2 m.hour ++ [':'] ++ padded 2 m.minute ++ [':'] ++ padded 2 m.second
    ++ (if m.micro = 0 then [] else '.' :: padded 6 m.micro)
    ++ (m.offset.map writtenOffset).getD []

/-- The text of a distance in minutes, as whole days and what is left in
seconds. -/
def nestedDistance (minutes : Int) : String :=
  let days := minutes.fdiv 1440
  let seconds := minutes.fmod 1440 * 60
  let parts := (if days = 0 then [] else [s!"days={days}"])
    ++ (if seconds = 0 then [] else [s!"seconds={seconds}"])
  "datetime.timedelta(" ++ (if parts = [] then "0" else String.intercalate ", " parts) ++ ")"

/-- The text of a zone, inside a list or a mapping. -/
def nestedZone (minutes : Int) : String :=
  if minutes = 0 then "datetime.timezone.utc"
  else "datetime.timezone(" ++ nestedDistance minutes ++ ")"

/-- The text of a moment inside a list or a mapping. -/
def nested (m : Moment) : Text :=
  let small := if m.micro ≠ 0 then [m.second, m.micro] else if m.second ≠ 0 then [m.second] else []
  let fields := [m.year, m.month, m.day, m.hour, m.minute] ++ small
  let zone := match m.offset with
    | none => ""
    | some minutes => ", tzinfo=" ++ nestedZone minutes
  ("datetime.datetime(" ++ String.intercalate ", " (fields.map toString) ++ zone ++ ")").toList

end Moment

namespace Value

mutual

/-- The text of a value inside a list or a mapping. -/
def nested : Value → Text
  | .null => "None".toList
  | .bool b => (if b then "True" else "False").toList
  | .int n => (toString n).toList
  | .float x => Float.written x
  | .text t => t.quoted
  | .bytes b => Text.quotedBytes b
  | .date y m d => s!"datetime.date({y}, {m}, {d})".toList
  | .moment m => m.nested
  | .list items => ['['] ++ Text.join ", ".toList (nestedItems items) ++ [']']
  | .pair a b => ['('] ++ nested a ++ ", ".toList ++ nested b ++ [')']
  | .set [] => "set()".toList
  | .set items => [Char.ofNat 123] ++ Text.join ", ".toList (nestedItems items) ++ [Char.ofNat 125]
  | .mapping entries =>
    [Char.ofNat 123] ++ Text.join ", ".toList (nestedEntries entries) ++ [Char.ofNat 125]
  | .enclosing isMapping => if isMapping then "\x7b...\x7d".toList else "[...]".toList

def nestedItems : List Value → List Text
  | [] => []
  | v :: rest => nested v :: nestedItems rest

def nestedEntries : List (Value × Value) → List Text
  | [] => []
  | (k, v) :: rest => (nested k ++ ": ".toList ++ nested v) :: nestedEntries rest

end

mutual

/-- Whether no number of a value has too many digits to be written. -/
def fits : Value → Bool
  | .int n => n.natAbs < 10 ^ Text.digitBound
  | .list items | .set items => allFit items
  | .pair a b => fits a && fits b
  | .mapping entries => settingsFit entries
  | .null | .bool _ | .float _ | .text _ | .bytes _ | .date .. | .moment _ | .enclosing _ => true

/-- Whether no number in the values of a list has too many digits. -/
def allFit : List Value → Bool
  | [] => true
  | v :: rest => fits v && allFit rest

/-- Whether no number in the entries of a mapping has too many digits. -/
def settingsFit : List (Value × Value) → Bool
  | [] => true
  | (k, v) :: rest => fits k && fits v && settingsFit rest

end

/-- The text of a value on its own. -/
def written : Value → Text
  | .text t => t
  | .date y m d => padded 4 y ++ ['-'] ++ padded 2 m ++ ['-'] ++ padded 2 d
  | .moment m => m.written
  | v => v.nested

end Value
end ProtectedRegions
