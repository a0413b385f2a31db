import RowFilter.Number.Binary

namespace RowFilter

/-- A floating point number of 64 bits, as a sign and the pattern of its magnitude. -/
structure Double where
  negative : Bool
  magnitude : Nat
  magnitude_lt : magnitude < Nat.pow 2 63
deriving DecidableEq, Repr

namespace Double

theorem infinity_lt : binary64.infinity < Nat.pow 2 63 := by decide

/-- Infinity has the greatest magnitude of a number. -/
def isNaN (x : Double) : Bool :=
  binary64.infinity < x.magnitude

def isFinite (x : Double) : Bool :=
  x.magnitude < binary64.infinity

/-- The double nearest to `num / den`, with a sign. -/
def ofRatio (negative : Bool) (num den : Nat) : Double :=
  ⟨negative, binary64.nearest num den,
    Nat.lt_of_le_of_lt (binary64.nearest_le_infinity num den) infinity_lt⟩

/-- The double nearest to an integer. -/
def ofInt (n : Int) : Double :=
  ofRatio (n < 0) n.natAbs 1

def infinity (negative : Bool) : Double :=
  ⟨negative, binary64.infinity, infinity_lt⟩

/-- The plain double that is not a number. -/
def nan : Double :=
  ⟨false, 4095 * Nat.pow 2 51, by decide⟩

/-- The finite number of a magnitude. -/
def ofMagnitude? (negative : Bool) (magnitude : Nat) : Option Double :=
  if h : magnitude < binary64.infinity then
    some ⟨negative, magnitude, Nat.lt_trans h infinity_lt⟩
  else none

/-- The double with these 64 bits. -/
def ofBits (bits : Nat) : Double :=
  ⟨bits / Nat.pow 2 63 % 2 = 1, bits % Nat.pow 2 63, Nat.mod_lt _ (by decide)⟩

/-- The 64 bits of a double. -/
def bits (x : Double) : Nat :=
  (if x.negative then Nat.pow 2 63 else 0) + x.magnitude

/-- A magnitude of 32 bits widened without loss. -/
def widen (negative : Bool) (pattern : Nat) : Double :=
  if binary32.infinity < pattern then nan
  else if pattern = binary32.infinity then infinity negative
  else ofRatio negative (binary32.units pattern) (Nat.pow 2 binary32.unit)

/-- The double equal to the number with these 32 bits. -/
def ofSingleBits (bits : Nat) : Double :=
  widen (bits / Nat.pow 2 31 % 2 = 1) (bits % Nat.pow 2 31)

/-- The double rounded to 32 bits. -/
def toSingle (x : Double) : Double :=
  if x.isFinite then
    widen x.negative (binary32.nearest (binary64.units x.magnitude) (Nat.pow 2 binary64.unit))
  else x

/-- An integer that orders the numbers as their values do. -/
def rank (x : Double) : Int :=
  if x.negative then -x.magnitude else x.magnitude

/-- The order of two numbers; none if one of them is not a number. -/
def order? (x y : Double) : Option Ordering :=
  if x.isNaN || y.isNaN then none else some (compare x.rank y.rank)

/-- Equality of values. -/
def same (x y : Double) : Bool :=
  x.order? y = some .eq

/-- The sum of two magnitudes, rounded. -/
def plus (a b : Nat) : Nat :=
  binary64.nearest (binary64.units a + binary64.units b) (Nat.pow 2 binary64.unit)

/-- The product of two magnitudes, rounded. -/
def times (a b : Nat) : Nat :=
  binary64.nearest (binary64.units a * binary64.units b) (Nat.pow 2 (2 * binary64.unit))

/-- The quotient of two magnitudes, rounded. -/
def quotient (a b : Nat) : Nat :=
  binary64.nearest (binary64.units a) (binary64.units b)

/-- A magnitude rounded to an integer, halves upward. -/
def wholeNearest (a : Nat) : Nat :=
  binary64.nearest
    ((2 * binary64.units a + Nat.pow 2 binary64.unit) / Nat.pow 2 (binary64.unit + 1)) 1

end Double

end RowFilter
