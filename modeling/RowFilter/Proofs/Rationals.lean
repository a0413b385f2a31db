import Mathlib.Algebra.Order.Field.Rat
import Mathlib.Algebra.Order.Ring.Cast
import RowFilter.Proofs.Exchanged
import RowFilter.Proofs.SameContent

namespace RowFilter

namespace Comparison

/-- What a comparison asks of two rational numbers. -/
def relates (c : Comparison) (x y : Rat) : Prop :=
  match c with
  | equal => x = y
  | notEqual => x ≠ y
  | less => x < y
  | lessOrEqual => x ≤ y
  | greater => y < x
  | greaterOrEqual => y ≤ x

instance (c : Comparison) (x y : Rat) : Decidable (c.relates x y) :=
  match c with
  | equal => inferInstanceAs (Decidable (x = y))
  | notEqual => inferInstanceAs (Decidable (x ≠ y))
  | less => inferInstanceAs (Decidable (x < y))
  | lessOrEqual => inferInstanceAs (Decidable (x ≤ y))
  | greater => inferInstanceAs (Decidable (y < x))
  | greaterOrEqual => inferInstanceAs (Decidable (y ≤ x))

/-- Values that have the order of two rational numbers are compared as these are. -/
theorem holds_iff_relates {a b : Datum} {x y : Rat} (h : a.order? b = some (cmp x y))
    (c : Comparison) : c.holds a b = true ↔ c.relates x y := by
  have horder : ∀ o, decide (a.order? b = some o) = true ↔ cmp x y = o := by
    intro o
    rw [decide_eq_true_iff, h, Option.some.injEq]
  have hless := (horder .lt).trans (cmp_eq_lt_iff x y)
  have hsame := (horder .eq).trans (cmp_eq_eq_iff x y)
  have hgreater := (horder .gt).trans (cmp_eq_gt_iff x y)
  have hequals : a.equals b = true ↔ x = y := by
    rw [Datum.equals_eq, hsame]
    rintro ⟨rfl, rfl⟩
    cases h
  cases c with
  | equal => exact hequals
  | notEqual =>
    rw [holds, Bool.not_eq_true', ← Bool.not_eq_true, hequals]
    rfl
  | less => exact hless
  | lessOrEqual =>
    rw [holds, Bool.or_eq_true, hless, hsame]
    exact le_iff_lt_or_eq.symm
  | greater => exact hgreater
  | greaterOrEqual =>
    rw [holds, Bool.or_eq_true, hgreater, hsame, eq_comm]
    exact le_iff_lt_or_eq.symm

end Comparison

namespace Decimal

/-- The rational number that a decimal writes. -/
def value (d : Decimal) : Rat :=
  d.coefficient / (Int.pow 10 d.scale : Int)

theorem pow_ten_pos (scale : Nat) : (0 : Rat) < (Int.pow 10 scale : Int) :=
  Int.cast_pos.mpr (Int.pow_pos (by decide))

theorem order_eq_cmp (a b : Decimal) : a.order b = cmp a.value b.value := by
  let p : Rat := (Int.pow 10 a.scale : Int)
  let q : Rat := (Int.pow 10 b.scale : Int)
  have hp : 0 < p := pow_ten_pos a.scale
  have hq : 0 < q := pow_ten_pos b.scale
  -- Both values times both powers of ten are the integers that the decimals compare.
  have hleft : (a.coefficient * Int.pow 10 b.scale : Int) = a.value * (p * q) := by
    rw [value, ← mul_assoc, div_mul_cancel₀ _ hp.ne', Int.cast_mul]
  have hright : (b.coefficient * Int.pow 10 a.scale : Int) = b.value * (p * q) := by
    rw [value, mul_comm p, ← mul_assoc, div_mul_cancel₀ _ hq.ne', Int.cast_mul]
  calc
    a.order b = cmp (a.coefficient * Int.pow 10 b.scale) (b.coefficient * Int.pow 10 a.scale) :=
      (cmp_eq_compare _ _).symm
    _ = cmp (a.value * (p * q)) (b.value * (p * q)) := by
      rw [← hleft, ← hright, Int.cast_strictMono.cmp_map_eq]
    _ = cmp a.value b.value := cmp_mul_pos_right (mul_pos hp hq) _ _

/-- A decimal has a fraction just when its value is no integer. -/
theorem toInt?_eq_some_iff_value {d : Decimal} {n : Int} : d.toInt? = some n ↔ d.value = n := by
  rw [toInt?_eq_some, value, div_eq_iff (pow_ten_pos d.scale).ne', ← Int.cast_mul,
    Rat.intCast_inj]

end Decimal

namespace Datum

theorem order?_integers (m n : Int) :
    (integer m).order? (integer n) = some (cmp (m : Rat) (n : Rat)) := by
  rw [Int.cast_strictMono.cmp_map_eq, cmp_eq_compare]
  rfl

theorem order?_decimals (d e : Decimal) :
    (decimal d).order? (decimal e) = some (cmp d.value e.value) :=
  congrArg some (Decimal.order_eq_cmp d e)

/-- A number becomes a value of an integer type just when it is one of the type's integers. -/
theorem ofDecimal?_integer_eq_some {width : IntegerType} {n : Decimal} {d : Datum} :
    ofDecimal? (.integer width) n = some d ↔
      ∃ m : Int, n.value = m ∧ width.holds m = true ∧ integer m = d := by
  simp only [ofDecimal?, Option.bind_eq_some_iff, ofInt?_eq_some,
    Decimal.toInt?_eq_some_iff_value]

end Datum

theorem IntegerType.holds_iff {width : IntegerType} {n : Int} :
    width.holds n = true ↔ width.range.1 ≤ n ∧ n ≤ width.range.2 := by
  rw [holds, Bool.and_eq_true, decide_eq_true_iff, decide_eq_true_iff]

namespace Condition

variable {s : Schema} {name : String} {i : Nat} {f : Field} {c : Comparison} {n : Decimal}
  {k : Condition}

theorem ofExpr_integerNumber {width : IntegerType} (hf : s.resolve name = some (i, f))
    (hwidth : f.type = .integer width) :
    ofExpr s (.binary (.comparison c) (.property name) (.literal (.number n))) = .ok k ↔
      ∃ m : Int, n.value = m ∧ width.holds m = true ∧
        k = compare c (.field i) (.value (.integer m)) := by
  have htype : f.type ≠ .boolean := by simp [hwidth]
  rw [ofExpr_resolvedLiteral hf fun _ => htype]
  simp only [Datum.ofLiteral?, hwidth, Datum.ofDecimal?_integer_eq_some]
  constructor
  · rintro ⟨_, ⟨m, hvalue, hholds, rfl⟩, hk⟩
    exact ⟨m, hvalue, hholds, hk⟩
  · rintro ⟨m, hvalue, hholds, hk⟩
    exact ⟨_, ⟨m, hvalue, hholds, rfl⟩, hk⟩

theorem ofExpr_decimalNumber (hf : s.resolve name = some (i, f)) (htype : f.type = .decimal) :
    ofExpr s (.binary (.comparison c) (.property name) (.literal (.number n))) = .ok k ↔
      k = compare c (.field i) (.value (.decimal n)) := by
  have hother : f.type ≠ .boolean := by simp [htype]
  rw [ofExpr_resolvedLiteral hf fun _ => hother]
  simp [Datum.ofLiteral?, Datum.ofDecimal?, htype]

/-- A comparison of an integer field with a number is accepted just when the number is, with all
its fraction digits, an integer in the range of the field's type, and one of a decimal field always
is. On a row that has a number there it asks for the relation of this number to the written one. -/
theorem comparedWithNumber_exact (hf : s.resolve name = some (i, f)) (c : Comparison)
    (n : Decimal) :
    let e : Expr := .binary (.comparison c) (.property name) (.literal (.number n))
    (∀ width, f.type = .integer width →
      ((∃ k, ofExpr s e = .ok k) ↔
        ∃ m : Int, n.value = m ∧ width.range.1 ≤ m ∧ m ≤ width.range.2) ∧
      ∀ k, ofExpr s e = .ok k → ∀ (row : Row) (v : Int), row i = .integer v →
        (k.holds row = true ↔ c.relates v n.value)) ∧
    (f.type = .decimal →
      ∃ k, ofExpr s e = .ok k ∧ ∀ (row : Row) (d : Decimal), row i = .decimal d →
        (k.holds row = true ↔ c.relates d.value n.value)) := by
  intro e
  constructor
  · intro width hwidth
    refine ⟨⟨?_, ?_⟩, ?_⟩
    · rintro ⟨k, hk⟩
      obtain ⟨m, hvalue, hholds, _⟩ := (ofExpr_integerNumber hf hwidth).mp hk
      exact ⟨m, hvalue, IntegerType.holds_iff.mp hholds⟩
    · rintro ⟨m, hvalue, hrange⟩
      have hholds := IntegerType.holds_iff.mpr hrange
      exact ⟨_, (ofExpr_integerNumber hf hwidth).mpr ⟨m, hvalue, hholds, rfl⟩⟩
    · intro k hk row v hrow
      obtain ⟨m, hvalue, _, rfl⟩ := (ofExpr_integerNumber hf hwidth).mp hk
      rw [hvalue, holds, Operand.valueIn, Operand.valueIn, hrow]
      exact Comparison.holds_iff_relates (Datum.order?_integers v m) c
  · intro htype
    refine ⟨_, (ofExpr_decimalNumber hf htype).mpr rfl, ?_⟩
    intro row d hrow
    rw [holds, Operand.valueIn, Operand.valueIn, hrow]
    exact Comparison.holds_iff_relates (Datum.order?_decimals d n) c

/-- The greatest integer of a type may have fraction digits that are zero. The number behind it and
one between the two are refused, which would fit if they were wrapped or truncated. -/
theorem comparedWithNumber_exact_quantity :
    let s : Schema := ⟨[⟨"Price", .decimal, false⟩, ⟨"Qty", .integer .u8, true⟩]⟩
    let e : Decimal → Expr := fun n =>
      .binary (.comparison .lessOrEqual) (.property "qty") (.literal (.number n))
    let greatest : Decimal := ⟨25500, 2, by decide, by decide⟩
    let between : Decimal := ⟨2555, 1, by decide, by decide⟩
    let next : Decimal := ⟨256, 0, by decide, by decide⟩
    let price : Expr :=
      .binary (.comparison .less) (.property "Price") (.literal (.number between))
    let row : Row := fun i => if i = 0 then .decimal greatest else .integer 255
    s.resolve "qty" = some (1, ⟨"Qty", .integer .u8, true⟩) ∧
      (∃ k, ofExpr s (e greatest) = .ok k ∧ k.holds row = true) ∧
      (¬ ∃ k, ofExpr s (e between) = .ok k) ∧ (¬ ∃ k, ofExpr s (e next) = .ok k) ∧
      s.resolve "Price" = some (0, ⟨"Price", .decimal, false⟩) ∧
      ∃ k, ofExpr s price = .ok k ∧ k.holds row = true := by
  intro s e greatest between next price row
  have hqty : s.resolve "qty" = some (1, ⟨"Qty", .integer .u8, true⟩) := by rfl
  have hprice : s.resolve "Price" = some (0, ⟨"Price", .decimal, false⟩) := by rfl
  have hgreatest : greatest.value = 255 := Decimal.toInt?_eq_some_iff_value.mp (by decide)
  have hqtyExact := fun n => (comparedWithNumber_exact hqty .lessOrEqual n).1 .u8 rfl
  obtain ⟨k, hk⟩ := (hqtyExact greatest).1.mpr ⟨255, hgreatest, by decide, by decide⟩
  have hholds := ((hqtyExact greatest).2 k hk row 255 rfl).mpr hgreatest.ge
  refine ⟨hqty, ⟨k, hk, hholds⟩, ?_, ?_, hprice, ?_⟩
  · intro hbetween
    obtain ⟨m, hvalue, _, _⟩ := (hqtyExact between).1.mp hbetween
    have hwhole : between.toInt? = some m := Decimal.toInt?_eq_some_iff_value.mpr hvalue
    have hnone : between.toInt? = none := by decide
    rw [hnone] at hwhole
    cases hwhole
  · intro hnext
    obtain ⟨m, hvalue, _, hle⟩ := (hqtyExact next).1.mp hnext
    have hwhole : next.toInt? = some m := Decimal.toInt?_eq_some_iff_value.mpr hvalue
    have hsome : next.toInt? = some 256 := by decide
    obtain rfl := Option.some.inj (hsome.symm.trans hwhole)
    exact absurd hle (by decide)
  · obtain ⟨m, hm, hrow⟩ := (comparedWithNumber_exact hprice .less between).2 rfl
    have horder : cmp greatest.value between.value = .lt := by
      rw [← Decimal.order_eq_cmp]
      decide
    exact ⟨m, hm, (hrow row greatest rfl).mpr ((cmp_eq_lt_iff _ _).mp horder)⟩

end Condition

end RowFilter
