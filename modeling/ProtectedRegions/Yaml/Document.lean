import ProtectedRegions.Value.Written
import ProtectedRegions.Yaml.Node

/-
  Documents — the value that a YAML text stands for

  Each node becomes a value by its tag. A mapping takes in the entries of the
  mappings that its merge keys name, before its own, so that its own win; of
  entries with one key the last wins, in the place of the first. Lists and
  mappings are no keys. Nodes with tags of other kinds are refused.

  Bytes are written in base 64: four digits stand for three bytes. The last group
  may be short, and is then filled up with equals signs; a group of two digits and
  two signs, or of three and one, ends the text. Characters that are no digits are
  passed over, and so are equals signs where no group can end. A text that stops in
  the middle of a group is refused.
-/

namespace ProtectedRegions
namespace Yaml

/-! ## Bytes -/

/-- The value of a digit in base 64. -/
def digit64? (c : Char) : Option Nat :=
  if 'A' ≤ c ∧ c ≤ 'Z' then some (c.toNat - 65)
  else if 'a' ≤ c ∧ c ≤ 'z' then some (c.toNat - 71)
  else if '0' ≤ c ∧ c ≤ '9' then some (c.toNat + 4)
  else if c = '+' then some 62
  else if c = '/' then some 63
  else none

/-- The bytes of the rest of a text, of whose present group `place` digits are
read, with the value `left` of the bits that are not written yet, and `signs`
equals signs since the last digit. -/
def bytes64 (place signs left : Nat) : Text → Option (List UInt8)
  | [] => if place = 0 then some [] else none
  | c :: rest =>
    if c = '=' then
      if place < 2 then bytes64 place signs left rest
      else if 4 ≤ place + signs + 1 then some []
      else bytes64 place (signs + 1) left rest
    else
      match digit64? c, place with
      | none, _ => bytes64 place signs left rest
      | some v, 0 => bytes64 1 0 v rest
      | some v, 1 => (bytes64 2 0 (v % 16) rest).map (UInt8.ofNat (4 * left + v / 16) :: ·)
      | some v, 2 => (bytes64 3 0 (v % 4) rest).map (UInt8.ofNat (16 * left + v / 4) :: ·)
      | some v, _ => (bytes64 0 0 0 rest).map (UInt8.ofNat (64 * left + v) :: ·)

/-- The bytes that a text in base 64 stands for. -/
def ofBase64? (t : Text) : Option (List UInt8) := bytes64 0 0 0 t

/-! ## Numbers -/

def digit? (base : Nat) (c : Char) : Option Nat :=
  (Expression.hexDigit? c).filter (· < base)

/-- The number that digits stand for; there has to be one. -/
def digits? (base : Nat) (t : Text) : Option Nat :=
  if t = [] then none else t.foldlM (fun n c => (digit? base c).map (base * n + ·)) 0

/-- The number that digits stand for, or the refusal of what are none. In base ten there may
not be too many. -/
def digitsOr (base : Nat) (t : Text) : Except Fault Nat :=
  let count := (t.takeWhile fun c => (digit? base c).isSome).length
  if base = 10 ∧ Text.digitBound < count then
    .error (.unfit (s!"Exceeds the limit ({Text.digitBound} digits) for integer string conversion: "
      ++ s!"value has {count} digits; use sys.set_int_max_str_digits() to increase the limit"))
  else match digits? base t with
  | some n => .ok n
  | none => .error (.unfit s!"invalid literal for int() with base {base}: {t.quoted.str}")

/-- A sign at the front of a number, and the rest. -/
def signed (t : Text) : Int × Text :=
  match t with
  | '-' :: rest => (-1, rest)
  | '+' :: rest => (1, rest)
  | _ => (1, t)

def intValue (t : Text) : Except Fault Int :=
  let (sign, body) := signed (t.filter (· != '_'))
  let value : Except Fault Nat :=
    match body with
    | ['0'] => .ok 0
    | '0' :: 'b' :: rest => digitsOr 2 rest
    | '0' :: 'x' :: rest => digitsOr 16 rest
    | '0' :: _ => digitsOr 8 body
    | _ =>
      if body.contains ':' then
        (Text.splitOn ':' body).foldlM (fun n part => (digitsOr 10 part).map (60 * n + ·)) 0
      else digitsOr 10 body
  value.map fun n => sign * Int.ofNat n

def decimal? (t : Text) : Option Float :=
  let whole := t.takeWhile Expression.isDigit
  let rest := t.drop whole.length
  let point := rest.head? = some '.'
  let fraction := if point then (rest.drop 1).takeWhile Expression.isDigit else []
  let rest := if point then rest.drop (fraction.length + 1) else rest
  let digits := whole ++ fraction
  let scaled := fun (e : Int) =>
    let place := e - Int.ofNat fraction.length
    Float.ofScientific (Expression.decimalValue digits) (place < 0) place.natAbs
  if digits = [] then none
  else match rest with
    | [] => some (scaled 0)
    | 'e' :: exponent =>
      let (sign, body) := signed exponent
      (digits? 10 body).map fun n => scaled (sign * Int.ofNat n)
    | _ => none

/-- The float that a decimal stands for, or the refusal of what is none. -/
def decimalOr (t : Text) : Except Fault Float :=
  match decimal? t with
  | some x => .ok x
  | none => .error (.unfit s!"could not convert string to float: {t.quoted.str}")

/-- The float that parts in base sixty stand for, the last first. -/
def sexagesimal (parts : List Text) : Except Fault Float := do
  let (sum, _) ← parts.foldlM (fun (state : Float × Float) part => do
    let x ← decimalOr part
    return (state.1 + x * state.2, state.2 * 60)) ((0 : Float), (1 : Float))
  return sum

def floatValue (t : Text) : Except Fault Float :=
  let (sign, body) := signed ((t.filter (· != '_')).map Text.lower)
  let value : Except Fault Float :=
    if body = ".inf".toList then .ok (1 / 0)
    else if body = ".nan".toList then .ok (0 / 0)
    else if body.contains ':' then
      sexagesimal (Text.splitOn ':' body).reverse
    else decimalOr body
  value.map fun x => if sign < 0 then -x else x

/-! ## Dates -/

def daysIn (year month : Nat) : Nat :=
  if month = 2 then
    if year % 4 = 0 ∧ (year % 100 ≠ 0 ∨ year % 400 = 0) then 29 else 28
  else if month = 4 ∨ month = 6 ∨ month = 9 ∨ month = 11 then 30
  else 31

/-- Refuses a date that the calendar does not have. -/
def checkDate (year month day : Nat) : Except Fault Unit :=
  if year = 0 then .error (.unfit "year 0 is out of range")
  else if month = 0 ∨ 12 < month then .error (.unfit "month must be in 1..12")
  else if day = 0 ∨ daysIn year month < day then .error (.unfit "day is out of range for month")
  else .ok ()

/-- Refuses a time that the clock does not show. -/
def checkTime (hour minute second : Nat) : Except Fault Unit :=
  if 23 < hour then .error (.unfit "hour must be in 0..23")
  else if 59 < minute then .error (.unfit "minute must be in 0..59")
  else if 59 < second then .error (.unfit "second must be in 0..59")
  else .ok ()

/-- Refuses a zone a day or more away. -/
def checkZone (minutes : Int) : Except Fault Unit :=
  if minutes.natAbs < 1440 then .ok ()
  else .error (.unfit ("offset must be a timedelta strictly between -timedelta(hours=24) and "
    ++ "timedelta(hours=24), not " ++ Moment.nestedDistance minutes))

/-- The date or the moment that a scalar stands for. -/
def timestampValue (t : Text) : Except Fault Value :=
  match Tag.matching? Tag.timestampForm t with
  | none => .error (.defect .timestampForm)
  | some (e, s) =>
    let field := fun (name : String) => (e.group? name.toList s).getD []
    let number := fun (name : String) => Expression.decimalValue (field name)
    let year := number "year"
    let month := number "month"
    let day := number "day"
    if field "hour" = [] then (checkDate year month day).map fun _ => .date year month day
    else do
      let minutes : Int := 60 * number "tzhour" + number "tzminute"
      let offset : Option Int :=
        if field "sign" = ['-'] then some (-minutes)
        else if field "sign" = ['+'] then some minutes
        else if field "tz" = [] then none
        else some 0
      match offset with
      | some m => checkZone m
      | none => pure ()
      checkDate year month day
      checkTime (number "hour") (number "minute") (number "second")
      let micro := Expression.decimalValue (Text.padRight 6 '0' ((field "fraction").take 6))
      return .moment ⟨year, month, day, number "hour", number "minute", number "second", micro, offset⟩

/-! ## Merging -/

/-- Whether a node is a merge key. -/
def Node.isMerge : Node → Bool
  | .scalar .merge _ => true
  | _ => false

/-- The entries of a node that is merged in: those of a mapping, or of a
sequence of mappings, where the first wins. -/
def Node.mergedEntries : Node → Except Fault (List (Node × Node))
  | .mapping _ entries => .ok entries
  | .sequence _ items => do
    let parts ← items.mapM fun item => match item with
      | .mapping _ entries => .ok entries
      | _ => .error Fault.malformed
    return parts.reverse.flatten
  | .scalar _ _ => .error .malformed
  | .enclosing _ => .ok []

mutual

/-- The node with the merge keys of all its mappings resolved. -/
def Node.flatten : Node → Except Fault Node
  | .scalar tag t => .ok (.scalar tag t)
  | .sequence tag items => do return .sequence tag (← flattenItems items)
  | .mapping tag entries => do
    let (merged, own) ← flattenEntries entries
    return .mapping tag (merged ++ own)
  | .enclosing isMapping => .ok (.enclosing isMapping)

/-- The nodes of a sequence with their merge keys resolved. -/
def flattenItems : List Node → Except Fault (List Node)
  | [] => .ok []
  | item :: rest => do
    let item ← item.flatten
    let items ← flattenItems rest
    return item :: items

/-- The entries that the merge keys of a mapping bring in, and its own. -/
def flattenEntries : List (Node × Node) → Except Fault (List (Node × Node) × List (Node × Node))
  | [] => .ok ([], [])
  | (k, v) :: rest => do
    let k ← k.flatten
    let v ← v.flatten
    let (merged, own) ← flattenEntries rest
    if k.isMerge then return ((← v.mergedEntries) ++ merged, own)
    else return (merged, (k, v) :: own)

end

/-! ## Values -/

def boolValue (t : Text) : Except Fault Bool :=
  let word := String.ofList (t.map Text.lower)
  if word ∈ ["yes", "true", "on"] then .ok true
  else if word ∈ ["no", "false", "off"] then .ok false
  else .error (.defect .truthWord)

def binaryValue (t : Text) : Except Fault (List UInt8) :=
  if t.all (·.toNat < 128) then
    match ofBase64? t with
    | some bytes => .ok bytes
    | none => .error .malformed
  else .error .malformed

def scalarValue (tag : Tag) (t : Text) : Except Fault Value :=
  match tag with
  | .null => .ok .null
  | .bool => (boolValue t).map .bool
  | .int => (intValue t).map .int
  | .float => (floatValue t).map .float
  | .timestamp => timestampValue t
  | .text => .ok (.text t)
  | .binary => (binaryValue t).map .bytes
  | _ => .error .malformed

mutual

def Node.value : Node → Except Fault Value
  | .scalar tag t => scalarValue tag t
  | .sequence .sequence items => do return .list (← itemValues items)
  | .sequence .pairs items => do return .list (← pairValues items)
  | .sequence _ _ => .error .malformed
  | .mapping .mapping entries => do return .mapping (← entryValues [] entries)
  | .mapping .set entries => do return .set ((← entryValues [] entries).map (·.1))
  | .mapping _ _ => .error .malformed
  | .enclosing isMapping => .ok (.enclosing isMapping)

def itemValues : List Node → Except Fault (List Value)
  | [] => .ok []
  | item :: rest => do
    let v ← item.value
    let vs ← itemValues rest
    return v :: vs

/-- The pairs that the items of a sequence are: mappings of one entry each. -/
def pairValues : List Node → Except Fault (List Value)
  | [] => .ok []
  | .mapping _ [(k, v)] :: rest => do
    let a ← k.value
    let b ← v.value
    let others ← pairValues rest
    return .pair a b :: others
  | _ :: _ => .error .malformed

/-- The entries of a mapping, behind those before them. -/
def entryValues (done : List (Value × Value)) :
    List (Node × Node) → Except Fault (List (Value × Value))
  | [] => .ok done
  | (k, v) :: rest => do
    let key ← match k with
      | .scalar .value t => .ok (.text t)
      | k => k.value
    if !key.isKey then throw .malformed
    let value ← v.value
    entryValues (Value.insert key value done) rest

end

/-- The value of the only document of a text; null where there is none. -/
def load (t : Text) : Except Fault Value := do
  match ← Node.ofText t with
  | none => return .null
  | some node => (← node.flatten).value

end Yaml
end ProtectedRegions
