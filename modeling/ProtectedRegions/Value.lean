import ProtectedRegions.Text

/-
  Values — what a configuration is made of before anything is known about it

  A configuration is read as a tree of nulls, truth values, numbers, texts,
  bytes, dates, lists, pairs, sets and mappings. Which of these a setting may be
  is decided where the setting is used; this module only says which values count
  as absent (`truthy`), which can be written down in a file of plain data
  (`isJson`), and how a mapping is looked up and extended. A list or a mapping may
  stand inside of itself; `enclosing` marks such a place, where the value is not
  gone into again.

  A configuration is checked where it is read, but not every setting is: a few
  have to be texts or lists, or scalars that fit the kind they claim to be of, or
  numbers and expressions of a size that can be dealt with, and are found not to
  be only when they are needed. Such a `Defect` ends what is being done; it is not
  a fault of the files that are worked on and is not reported as one.
-/

namespace ProtectedRegions

/-- What is wrong with a defective setting. -/
inductive Defect where
  | closingToken
  | startPattern
  | finishPattern
  | entries
  | endings
  | globs
  | truthWord
  | timestampForm
  | longNumber
  | deepValue
  | repetition
  | deepExpression
  deriving DecidableEq, Repr

/-- A moment: a date and a time of day, and its distance from the prime
meridian's time in minutes if it names one. -/
structure Moment where
  year : Nat
  month : Nat
  day : Nat
  hour : Nat
  minute : Nat
  second : Nat
  micro : Nat
  offset : Option Int
  deriving DecidableEq, Repr

inductive Value where
  | null
  | bool (b : Bool)
  | int (n : Int)
  | float (x : Float)
  | text (t : Text)
  | bytes (b : List UInt8)
  | date (year month day : Nat)
  | moment (m : Moment)
  | list (items : List Value)
  | pair (a b : Value)
  | set (items : List Value)
  | mapping (entries : List (Value × Value))
  | enclosing (isMapping : Bool)
  deriving Inhabited

namespace Value

/-- Whether a value counts as given: null, false, zero and what is empty do not. -/
def truthy : Value → Bool
  | .null => false
  | .bool b => b
  | .int n => n != 0
  | .float x => x != 0
  | .text t => t != []
  | .bytes b => b != []
  | .date .. => true
  | .moment _ => true
  | .list items => !items.isEmpty
  | .pair _ _ => true
  | .set items => !items.isEmpty
  | .mapping entries => !entries.isEmpty
  | .enclosing _ => true

def isText : Value → Bool
  | .text _ => true
  | _ => false

mutual

/-- Whether a value is plain data: a null, a truth value, a number, a text, or a list or a
mapping of such, the names of a mapping being texts. -/
def isJson : Value → Bool
  | .null | .bool _ | .int _ | .float _ | .text _ => true
  | .list items => areJson items
  | .mapping entries => settingsAreJson entries
  | .bytes _ | .date .. | .moment _ | .pair .. | .set _ | .enclosing _ => false

/-- Whether all values of a list are plain data. -/
def areJson : List Value → Bool
  | [] => true
  | v :: rest => isJson v && areJson rest

/-- Whether all entries of a mapping are plain data. -/
def settingsAreJson : List (Value × Value) → Bool
  | [] => true
  | (k, v) :: rest => k.isText && isJson v && settingsAreJson rest

end

/-- The number that a value is equal to as a key, if it is one. -/
def asNumber? : Value → Option Float
  | .bool b => some (if b then 1 else 0)
  | .int n => some (Float.ofInt n)
  | .float x => some x
  | _ => none

/-- Whether two values are the same key. Numbers and truth values are the same
key when they are equal; lists, sets and mappings are no keys. -/
def sameKey : Value → Value → Bool
  | .null, .null => true
  | .text a, .text b => a == b
  | .bytes a, .bytes b => a == b
  | .date y m d, .date y' m' d' => y == y' && m == m' && d == d'
  | .moment a, .moment b => a == b
  | .int a, .int b => a == b
  | a, b => match a.asNumber?, b.asNumber? with
    | some x, some y => x == y
    | _, _ => false

/-- Whether a value can be the key of a mapping. -/
def isKey : Value → Bool
  | .list _ => false
  | .set _ => false
  | .mapping _ => false
  | .enclosing _ => false
  | .pair a b => a.isKey && b.isKey
  | _ => true

/-- The entries with `key` bound to `value`: in the place of the same key if
there is one, else behind all others. -/
def insert (key value : Value) : List (Value × Value) → List (Value × Value)
  | [] => [(key, value)]
  | (k, v) :: rest => if k.sameKey key then (k, value) :: rest else (k, v) :: insert key value rest

/-- The value that a name is bound to in the entries of a mapping. -/
def lookup? (name : String) : List (Value × Value) → Option Value
  | [] => none
  | (.text k, v) :: rest => if k = name.toList then some v else lookup? name rest
  | _ :: rest => lookup? name rest

/-- The value that a name is bound to, null where there is none. -/
def lookup (name : String) (entries : List (Value × Value)) : Value :=
  (lookup? name entries).getD .null

end Value
end ProtectedRegions
