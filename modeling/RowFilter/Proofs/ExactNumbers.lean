import RowFilter.Proofs.Rationals

namespace RowFilter

namespace Decimal

variable {n : Int}

theorem ofInt?_eq_none : ofInt? n = none ↔ Nat.pow 2 96 ≤ n.natAbs := by
  simp [ofInt?, make?]

theorem isNone_ofInt?_eq_false : (ofInt? n).isNone = false ↔ n.natAbs < Nat.pow 2 96 := by
  rw [Option.isNone_eq_false_iff, Option.isSome_iff_ne_none, Ne, ofInt?_eq_none, Nat.not_le]

theorem value_of_ofInt? {d : Decimal} (h : ofInt? n = some d) : d.value = n := by
  have hwhole : d.toInt? = some n := by
    simp only [ofInt?, make?, Option.dite_none_right_eq_some, Option.some.injEq] at h
    obtain ⟨_, rfl⟩ := h
    exact toInt?_eq_some.mpr (Int.mul_one n).symm
  exact toInt?_eq_some_iff_value.mp hwhole

end Decimal

theorem Comparison.relates_trans {c : Comparison} {x y z : Rat} (hc : c ≠ .notEqual)
    (hxy : c.relates x y) (hyz : c.relates y z) : c.relates x z := by
  cases c with
  | equal => exact Eq.trans hxy hyz
  | notEqual => exact absurd rfl hc
  | less => exact lt_trans hxy hyz
  | lessOrEqual => exact le_trans hxy hyz
  | greater => exact lt_trans hyz hxy
  | greaterOrEqual => exact le_trans hyz hxy

namespace Datum

/-- Numbers that are compared by their values: integers that fit a decimal, and decimals. -/
inductive Exact : Datum → Rat → Prop
  | integer {n : Int} : n.natAbs < Nat.pow 2 96 → Exact (integer n) n
  | decimal (d : Decimal) : Exact (decimal d) d.value

variable {a b c : Datum} {x y z : Rat}

/-- An integer that fits a decimal is compared with decimals by its value. -/
theorem orderMixed?_eq_cmp {n : Int} (hn : n.natAbs < Nat.pow 2 96) (d : Decimal) :
    orderMixed? n d = some (cmp (n : Rat) d.value) := by
  cases h : Decimal.ofInt? n with
  | none => exact absurd (Decimal.ofInt?_eq_none.mp h) (Nat.not_le.mpr hn)
  | some m =>
    have horder : orderMixed? n d = some (m.order d) := by rw [orderMixed?, h]
    rw [horder, Decimal.order_eq_cmp, Decimal.value_of_ofInt? h]

/-- All four pairs of kinds are ordered by values, the one that is exchanged included. -/
theorem order?_exact (ha : a.Exact x) (hb : b.Exact y) : a.order? b = some (cmp x y) := by
  cases ha with
  | @integer n hn =>
    cases hb with
    | @integer m hm => exact order?_integers n m
    | decimal e => exact orderMixed?_eq_cmp hn e
  | decimal d =>
    cases hb with
    | @integer m hm =>
      have hswap : (cmp (m : Rat) d.value).swap = cmp d.value m := cmp_swap _ _
      rw [← order?_swap, ← hswap]
      exact congrArg (Option.map Ordering.swap) (orderMixed?_eq_cmp hm d)
    | decimal e => exact order?_decimals d e

/-- Integers that fit a decimal, and decimals, are always ordered, as their values are, and are
equal when these are equal. So of two numbers one comes first or they are equal, every comparison
but `<>` carries over from one number to the next, and equal numbers have the same place in the
order. -/
theorem exact_inOneOrder (ha : a.Exact x) (hb : b.Exact y) (hc : c.Exact z) :
    a.order? b = some (cmp x y) ∧
      (a.equals b = true ↔ x = y) ∧
      (∀ op : Comparison, op.holds a b = true ↔ op.relates x y) ∧
      (a.order? b = some .lt ∨ a.equals b = true ∨ b.order? a = some .lt) ∧
      (∀ op : Comparison, op ≠ .notEqual → op.holds a b = true → op.holds b c = true →
        op.holds a c = true) ∧
      (a.equals b = true → a.order? c = b.order? c ∧ c.order? a = c.order? b) := by
  have hab := order?_exact ha hb
  have hba := order?_exact hb ha
  have hholds := Comparison.holds_iff_relates hab
  have hequals : a.equals b = true ↔ x = y := hholds .equal
  refine ⟨hab, hequals, hholds, ?_, ?_, ?_⟩
  · rcases lt_trichotomy x y with hlt | heq | hgt
    · exact .inl (by rw [hab, (cmp_eq_lt_iff x y).mpr hlt])
    · exact .inr (.inl (hequals.mpr heq))
    · exact .inr (.inr (by rw [hba, (cmp_eq_lt_iff y x).mpr hgt]))
  · intro op hop hfirst hsecond
    have hbc := Comparison.holds_iff_relates (order?_exact hb hc)
    have hac := Comparison.holds_iff_relates (order?_exact ha hc)
    exact (hac op).mpr (Comparison.relates_trans hop ((hholds op).mp hfirst) ((hbc op).mp hsecond))
  · intro heq
    obtain rfl := hequals.mp heq
    rw [order?_exact ha hc, order?_exact hb hc, order?_exact hc ha, order?_exact hc hb]
    exact ⟨rfl, rfl⟩

/-- The greatest integer that fits comes behind a decimal with as many digits as there can be, and
is equal to the decimal that holds it. -/
theorem exact_inOneOrder_limit :
    let digits : Decimal := ⟨79228162514264337593543950335, 28, by decide, by decide⟩
    let holder : Decimal := ⟨79228162514264337593543950335, 0, by decide, by decide⟩
    let greatest : Int := 79228162514264337593543950335
    (decimal digits).Exact digits.value ∧ (integer greatest).Exact greatest ∧
      (decimal holder).Exact holder.value ∧
      Comparison.less.holds (decimal digits) (integer greatest) = true ∧
      (decimal digits).order? (integer greatest) = some (cmp digits.value greatest) ∧
      ((integer greatest).equals (decimal holder) = true ↔ (greatest : Rat) = holder.value) ∧
      Comparison.lessOrEqual.holds (decimal digits) (decimal holder) = true := by
  intro digits holder greatest
  have hdigits : (decimal digits).Exact digits.value := .decimal digits
  have hgreatest : (integer greatest).Exact greatest := .integer (by decide)
  have hholder : (decimal holder).Exact holder.value := .decimal holder
  obtain ⟨horder, _, _, _, htrans, _⟩ := exact_inOneOrder hdigits hgreatest hholder
  have hequals := (exact_inOneOrder hgreatest hholder hdigits).2.1
  have hless : Comparison.less.holds (decimal digits) (integer greatest) = true := by decide
  exact ⟨hdigits, hgreatest, hholder, hless, horder, hequals,
    htrans .lessOrEqual (by decide) (by decide) (by decide)⟩

end Datum

end RowFilter
