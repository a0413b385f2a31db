import RowFilter.Number.Binary

namespace RowFilter

/-- How many digits a number has. -/
def digitCount (n : Nat) : Nat :=
  (Nat.toDigits 10 n).length

/-- The exponent of the first digit of `num / den`, which is positive. -/
def leadingExponent (num den : Nat) : Int :=
  if den ≤ num then digitCount (num / den) - 1 else -(digitCount ((den - 1) / num) : Int)

/-- Multiplies a fraction by a power of ten. -/
def timesPowerOfTen (num den : Nat) (exponent : Int) : Nat × Nat :=
  if 0 ≤ exponent then (num * Nat.pow 10 exponent.toNat, den)
  else (num, den * Nat.pow 10 (-exponent).toNat)

/-- Removes zeros at the end of a number and adds their count to the exponent. -/
def stripZeros : Nat → Nat → Int → Nat × Int
  | 0, digits, exponent => (digits, exponent)
  | fuel + 1, digits, exponent =>
    if digits % 10 = 0 then stripZeros fuel (digits / 10) (exponent + 1) else (digits, exponent)

/-- The values that are rounded to the pattern `pattern` of a double lie between two bounds, here
counted in half units; the bounds belong to an even pattern. -/
def roundsTo (pattern : Nat) (num den : Nat) : Bool :=
  let low := (binary64.units (pattern - 1) + binary64.units pattern) * den
  let high := (binary64.units pattern + binary64.units (pattern + 1)) * den
  let value := num * Nat.pow 2 (binary64.unit + 1)
  if pattern % 2 = 0 then low ≤ value && value ≤ high else low < value && value < high

/-- The multiple of `10 ^ exponent` that is read back as the pattern, of two the nearer one, in a
tie the even one. -/
def onGrid (pattern : Nat) (exponent : Int) : Option Nat :=
  let (num, den) := timesPowerOfTen (binary64.units pattern) (Nat.pow 2 binary64.unit) (-exponent)
  let below := num / den
  let fits (digits : Nat) : Bool :=
    let (n, d) := timesPowerOfTen digits 1 exponent
    roundsTo pattern n d
  match fits below, fits (below + 1) with
  | true, true => some (divideToEven num den)
  | true, false => some below
  | false, true => some (below + 1)
  | false, false => none

/-- Tries grids from coarse to fine, the first of them with one digit. -/
def firstGrid (pattern : Nat) : Nat → Int → Nat × Int
  | 0, exponent => ((onGrid pattern exponent).getD 0, exponent)
  | fuel + 1, exponent =>
    match onGrid pattern exponent with
    | some digits => stripZeros 20 digits exponent
    | none => firstGrid pattern fuel (exponent - 1)

/-- The shortest digits of a positive finite double, with the exponent of the last one. Seventeen
digits always suffice. -/
def shortestDigits (pattern : Nat) : Nat × Int :=
  firstGrid pattern 17 (leadingExponent (binary64.units pattern) (Nat.pow 2 binary64.unit))

end RowFilter
