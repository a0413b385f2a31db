namespace RowFilter

/-- The number `coefficient / 10 ^ scale`. Numbers of one value and two scales are two numbers, like
`1.5` and `1.50`. -/
structure Decimal where
  coefficient : Int
  scale : Nat
  coefficient_lt : coefficient.natAbs < Nat.pow 2 96 := by decide
  scale_le : scale ≤ 28 := by decide
deriving DecidableEq, Repr

namespace Decimal

/-- The decimal with this coefficient and scale, if they are in range. -/
def make? (coefficient : Int) (scale : Nat) : Option Decimal :=
  if h : coefficient.natAbs < Nat.pow 2 96 ∧ scale ≤ 28 then
    some ⟨coefficient, scale, h.1, h.2⟩
  else none

def zero : Decimal := ⟨0, 0, by decide, by decide⟩

def one : Decimal := ⟨1, 0, by decide, by decide⟩

/-- An integer as a decimal without fraction digits. -/
def ofInt? (n : Int) : Option Decimal :=
  make? n 0

/-- Reads digits with at most one point. Underscores may stand behind the first digit, and nothing
may follow 28 fraction digits. -/
def readDigits (started point : Bool) (coefficient scale : Nat) : List Char → Option (Nat × Nat)
  | [] => if started then some (coefficient, scale) else none
  | c :: cs =>
    if scale = 28 then none
    else if c.isDigit then
      readDigits true point (10 * coefficient + (c.toNat - '0'.toNat))
        (if point then scale + 1 else scale) cs
    else if c = '.' ∧ !point then readDigits started true coefficient scale cs
    else if c = '_' ∧ started then readDigits started point coefficient scale cs
    else none

/-- Reads a decimal with an optional sign. What does not fit exactly is refused. -/
def read? (text : List Char) : Option Decimal :=
  match text with
  | '-' :: cs => do
    let (coefficient, scale) ← readDigits false false 0 0 cs
    make? (-coefficient) scale
  | '+' :: cs => do
    let (coefficient, scale) ← readDigits false false 0 0 cs
    make? coefficient scale
  | cs => do
    let (coefficient, scale) ← readDigits false false 0 0 cs
    make? coefficient scale

/-- The digits without a sign: at least one before the point, and as many behind it as the scale
says. -/
def unsignedText (coefficient scale : Nat) : List Char :=
  let digits := Nat.toDigits 10 coefficient
  let padded := List.replicate (scale + 1 - digits.length) '0' ++ digits
  let whole := padded.length - scale
  if scale = 0 then padded else padded.take whole ++ '.' :: padded.drop whole

/-- The number as text, with all its fraction digits. -/
def text (d : Decimal) : List Char :=
  let digits := unsignedText d.coefficient.natAbs d.scale
  if d.coefficient < 0 then '-' :: digits else digits

/-- The order of the values, whatever the scales. -/
def order (a b : Decimal) : Ordering :=
  compare (a.coefficient * Int.pow 10 b.scale) (b.coefficient * Int.pow 10 a.scale)

/-- The same value, perhaps with another number of fraction digits. -/
def same (a b : Decimal) : Bool :=
  a.order b = .eq

/-- The integer that a decimal is, if its fraction is zero. -/
def toInt? (d : Decimal) : Option Int :=
  if d.coefficient % Int.pow 10 d.scale = 0 then some (d.coefficient / Int.pow 10 d.scale) else none

end Decimal

end RowFilter
