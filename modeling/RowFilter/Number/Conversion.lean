import RowFilter.Number.Decimal
import RowFilter.Number.Double

namespace RowFilter

namespace Decimal

/-- The magnitude of the double for `coefficient / 10 ^ scale`. The whole part and the fraction are
rounded one by one, and their sum is rounded again at the scale. -/
def doubleMagnitude (coefficient scale : Nat) : Nat :=
  let power := Nat.pow 10 scale
  let whole := binary64.nearest (coefficient / power) 1
  let part := Double.quotient (binary64.nearest (coefficient % power) 1) (binary64.nearest power 1)
  if part = 0 then whole
  else
    let powered := Double.times (Double.plus whole part) (binary64.nearest power 1)
    Double.quotient (Double.wholeNearest powered) (binary64.nearest power 1)

theorem doubleMagnitude_le (coefficient scale : Nat) :
    doubleMagnitude coefficient scale ≤ binary64.infinity := by
  unfold doubleMagnitude
  dsimp only
  split
  · exact binary64.nearest_le_infinity _ _
  · exact binary64.nearest_le_infinity _ _

/-- The double for a decimal. -/
def toDouble (d : Decimal) : Double :=
  ⟨d.coefficient < 0, doubleMagnitude d.coefficient.natAbs d.scale,
    Nat.lt_of_le_of_lt (doubleMagnitude_le _ _) Double.infinity_lt⟩

/-- Divides by ten, halves upward. -/
def dropDigit (m : Nat) : Nat :=
  if m % 10 ≥ 5 then m / 10 + 1 else m / 10

/-- Halves a number `n` times. Where that is not exact and there is room below 2^96 the number is
multiplied by five instead, for one more decimal place. Returns the number and its places. -/
def halve : Nat → Nat → Nat × Nat
  | 0, m => (m, 0)
  | n + 1, m =>
    if m % 2 = 0 ∨ Nat.pow 2 96 ≤ 5 * m then halve n (m / 2)
    else
      let (m, places) := halve n (5 * m)
      (m, places + 1)

/-- Drops digits until at most 28 places are left. Once the digits run out the number is zero. -/
def lowerPlaces : Nat → Nat → Nat → Nat × Nat
  | 0, m, places => (m, places)
  | n + 1, m, places =>
    if places ≤ 28 then (m, places)
    else if m / 10 = 0 then (0, 0)
    else lowerPlaces n (dropDigit m) (places - 1)

/-- Drops digits behind the point until the number is below 2^52, which leaves the fifteen or
sixteen digits that a double is sure of. -/
def lowerBits : Nat → Nat → Nat × Nat
  | m, 0 => (m, 0)
  | m, places + 1 => if Nat.pow 2 52 ≤ m then lowerBits (dropDigit m) places else (m, places + 1)

/-- Drops zeros behind the point. -/
def lowerZeros : Nat → Nat → Nat × Nat
  | m, 0 => (m, 0)
  | m, places + 1 => if m % 10 = 0 then lowerZeros (m / 10) places else (m, places + 1)

/-- The decimal near `m * 2 ^ exponent`, as a coefficient and a number of places. A whole number is
taken as it is, however large. -/
def ofBinary (m : Nat) (exponent : Int) : Nat × Nat :=
  if 0 ≤ exponent then (m * Nat.pow 2 exponent.toNat, 0)
  else
    let (m, places) := halve (-exponent).toNat m
    let (m, places) := lowerPlaces places m places
    let (m, places) := lowerBits m places
    lowerZeros m places

/-- The decimal for a double, if it is finite and its magnitude below 2^96. -/
def ofDouble? (x : Double) : Option Decimal :=
  if !x.isFinite then none
  else if x.magnitude = 0 then some zero
  else
    let leading := Nat.pow 2 52
    let (m, exponent) : Nat × Int :=
      if x.magnitude < leading then (x.magnitude, -1074)
      else (leading + x.magnitude % leading, (x.magnitude / leading : Nat) - 1075)
    let (m, places) := ofBinary m exponent
    make? (if x.negative then -m else m) places

end Decimal

end RowFilter
