/-
  Shortest decimals — the fewest digits that read back to a binary float

  A positive float is `mantissa · 2 ^ exponent`. The reals that round to it form
  an interval around it, whose ends belong to it exactly when the mantissa is
  even. For one digit, two digits and so on, the two decimals of that many
  digits next to the value are tried; the first that lies in the interval is
  the answer, and of two the nearer. All comparisons are between natural
  numbers, so nothing is rounded on the way. Seventeen digits always suffice.
-/

namespace ProtectedRegions

/-- A positive float as a whole number of powers of two, and whether the float
below it is only half as far away as the one above. -/
structure Binary where
  mantissa : Nat
  exponent : Int
  narrowBelow : Bool
  deriving DecidableEq, Repr

/-- A positive decimal: `digits · 10 ^ exponent`. -/
structure Decimal where
  digits : Nat
  exponent : Int
  deriving DecidableEq, Repr

namespace Binary

/-- The value of the bits of a positive finite double. -/
def ofBits (bits : Nat) : Binary :=
  let fraction := bits % Nat.pow 2 52
  let scale := bits / Nat.pow 2 52 % Nat.pow 2 11
  if scale = 0 then ⟨fraction, -1074, false⟩
  else ⟨Nat.pow 2 52 + fraction, Int.ofNat scale - 1075, fraction = 0 ∧ 1 < scale⟩

/-- Compares `a · 10 ^ i` with `b · 2 ^ j`. -/
def compareScaled (a : Nat) (i : Int) (b : Nat) (j : Int) : Ordering :=
  compare (a * Nat.pow 10 i.toNat * Nat.pow 2 (-j).toNat)
    (b * Nat.pow 2 j.toNat * Nat.pow 10 (-i).toNat)

def readsBack (x : Binary) (d : Decimal) : Bool :=
  let below := 4 * x.mantissa - if x.narrowBelow then 1 else 2
  let above := 4 * x.mantissa + 2
  let low := compareScaled d.digits d.exponent below (x.exponent - 2)
  let high := compareScaled d.digits d.exponent above (x.exponent - 2)
  if x.mantissa % 2 = 0 then low != .lt && high != .gt else low == .gt && high == .lt

def leadingExponent (x : Binary) : Int :=
  let scaled :=
    x.mantissa * Nat.pow 10 400 * Nat.pow 2 x.exponent.toNat / Nat.pow 2 (-x.exponent).toNat
  Int.ofNat (Nat.toDigits 10 scaled).length - 401

/-- The quotient of the float by `10 ^ place`, rounded down. -/
def floorAt (x : Binary) (place : Int) : Nat :=
  x.mantissa * Nat.pow 2 x.exponent.toNat * Nat.pow 10 (-place).toNat
    / (Nat.pow 2 (-x.exponent).toNat * Nat.pow 10 place.toNat)

/-- Of the two decimals next to the float at a place, the one that reads back;
of two the nearer, and of two equally near the even one. -/
def atPlace? (x : Binary) (place : Int) : Option Decimal :=
  let d := floorAt x place
  let lower : Decimal := ⟨d, place⟩
  let upper : Decimal := ⟨d + 1, place⟩
  match readsBack x lower && d != 0, readsBack x upper with
  | true, false => some lower
  | false, true => some upper
  | false, false => none
  | true, true =>
    match compareScaled (2 * d + 1) place (2 * x.mantissa) x.exponent with
    | .gt => some lower
    | .lt => some upper
    | .eq => some (if d % 2 = 0 then lower else upper)

/-- A decimal with the fewest digits that reads back to the float. -/
def shortest (x : Binary) : Decimal :=
  let lead := x.leadingExponent
  match (List.range 17).findSome? fun n => x.atPlace? (lead - Int.ofNat n) with
  | some d => d
  | none => ⟨floorAt x (lead - 17), lead - 17⟩

end Binary
end ProtectedRegions
