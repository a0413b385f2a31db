namespace RowFilter

/-- A binary format: the number of significant bits, the exponent `unit` for which the least
positive number is `2 ^ -unit`, and the pattern of infinity. The pattern of a positive number is
its place among all of them. -/
structure BinaryFormat where
  precision : Nat
  unit : Nat
  infinity : Nat
deriving DecidableEq, Repr

/-- The format of 64 bits. -/
def binary64 : BinaryFormat := ⟨53, 1074, 2047 * Nat.pow 2 52⟩

/-- The format of 32 bits. -/
def binary32 : BinaryFormat := ⟨24, 149, 255 * Nat.pow 2 23⟩

/-- The quotient rounded to the nearest integer, ties to even. -/
def divideToEven (n d : Nat) : Nat :=
  if 2 * (n % d) > d ∨ 2 * (n % d) = d ∧ n / d % 2 = 1 then n / d + 1 else n / d

namespace BinaryFormat

/-- The value of a finite pattern, counted in the least positive number. -/
def units (f : BinaryFormat) (pattern : Nat) : Nat :=
  let leading := Nat.pow 2 (f.precision - 1)
  if pattern < leading then pattern
  else (leading + pattern % leading) * Nat.pow 2 (pattern / leading - 1)

/-- The pattern nearest to `num / den`. -/
def nearest (f : BinaryFormat) (num den : Nat) : Nat :=
  let scaled := num * Nat.pow 2 f.unit
  let shift := (scaled / den).log2 - (f.precision - 1)
  min (shift * Nat.pow 2 (f.precision - 1) + divideToEven scaled (den * Nat.pow 2 shift)) f.infinity

theorem nearest_le_infinity (f : BinaryFormat) (num den : Nat) :
    f.nearest num den ≤ f.infinity :=
  Nat.min_le_right _ _

end BinaryFormat

end RowFilter
