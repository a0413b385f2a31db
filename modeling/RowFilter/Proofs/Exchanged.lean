import RowFilter.Proofs.Comparable

namespace RowFilter

theorem Decimal.order_swap (a b : Decimal) : (b.order a).swap = a.order b := by
  unfold order
  exact Std.OrientedCmp.eq_swap.symm

theorem Double.order?_swap (x y : Double) : (y.order? x).map Ordering.swap = x.order? y := by
  have hrank : (compare y.rank x.rank).swap = compare x.rank y.rank := Std.OrientedCmp.eq_swap.symm
  unfold order?
  rw [Bool.or_comm]
  split
  · rfl
  · exact congrArg some hrank

namespace Datum

/-- The order of two numbers whose kinds are the same or stand in the sequence integer, decimal,
float. There is no rule for other pairs. -/
def numberRule? : Datum → Datum → Option (Option Ordering)
  | integer a, integer b => some (some (compare a b))
  | decimal a, decimal b => some (some (a.order b))
  | float a, float b => some (a.order? b)
  | integer a, decimal b => some (orderMixed? a b)
  | integer a, float b => some ((Double.ofInt a).order? b)
  | decimal a, float b => some (a.toDouble.order? b)
  | _, _ => none

/-- How the order of two numbers is found: by a rule, or as that of the exchanged numbers turned
around. The exchanges are counted. -/
inductive OrderedBy : Nat → Datum → Datum → Option Ordering → Prop
  | rule {a b : Datum} {o : Option Ordering} : numberRule? a b = some o → OrderedBy 0 a b o
  | exchange {n : Nat} {a b : Datum} {o : Option Ordering} : numberRule? a b = none →
      OrderedBy n b a o → OrderedBy (n + 1) a b (o.map Ordering.swap)

variable {a b : Datum} {o : Option Ordering}

theorem map_swap_swap (o : Option Ordering) : (o.map Ordering.swap).map Ordering.swap = o := by
  cases o <;> simp

/-- The order of two values is that of the exchanged values, turned around. -/
theorem order?_swap (a b : Datum) : (b.order? a).map Ordering.swap = a.order? b := by
  have hlists : ∀ x y : List Int, (compare y x).swap = compare x y :=
    fun x y => Std.OrientedCmp.eq_swap.symm
  -- Values of two kinds that are not both numbers have no order either way.
  cases a with
  | null => cases b <;> rfl
  | boolean x =>
    cases b with
    | boolean y => exact congrArg some Std.OrientedCmp.eq_swap.symm
    | _ => rfl
  | integer x =>
    cases b with
    | integer y => exact congrArg some Std.OrientedCmp.eq_swap.symm
    | float y => exact Double.order?_swap _ _
    | decimal y => exact map_swap_swap _
    | _ => rfl
  | float x =>
    cases b with
    | integer y => exact Double.order?_swap _ _
    | float y => exact Double.order?_swap _ _
    | decimal y => exact Double.order?_swap _ _
    | _ => rfl
  | decimal x =>
    cases b with
    | integer y => rfl
    | float y => exact Double.order?_swap _ _
    | decimal y => exact congrArg some (Decimal.order_swap x y)
    | _ => rfl
  | string x =>
    cases b with
    | string y => exact congrArg some Std.OrientedCmp.eq_swap.symm
    | _ => rfl
  | date x =>
    cases b with
    | date y => exact congrArg some (hlists _ _)
    | _ => rfl
  | time x =>
    cases b with
    | time y => exact congrArg some (hlists _ _)
    | _ => rfl
  | datetime x =>
    cases b with
    | datetime y => exact congrArg some (hlists _ _)
    | _ => rfl
  | uuid x =>
    cases b with
    | uuid y => exact congrArg some Std.OrientedCmp.eq_swap.symm
    | _ => rfl
  | ordinal x =>
    cases b with
    | ordinal y => exact congrArg some Std.OrientedCmp.eq_swap.symm
    | _ => rfl

theorem order?_eq_some_swap {o : Ordering} :
    b.order? a = some o.swap ↔ a.order? b = some o := by
  rw [← order?_swap a b, Option.map_eq_some_iff]
  constructor
  · intro h
    exact ⟨o.swap, h, Ordering.swap_swap⟩
  · rintro ⟨p, hp, rfl⟩
    rw [Ordering.swap_swap, hp]

theorem equals_comm (a b : Datum) : a.equals b = b.equals a := by
  by_cases h : a = .null ∧ b = .null
  · rw [h.1, h.2]
  · have horder : b.order? a = some .eq ↔ a.order? b = some .eq := order?_eq_some_swap (o := .eq)
    rw [equals_eq h, equals_eq fun hba => h hba.symm]
    exact decide_eq_decide.mpr horder.symm

theorem order?_of_numberRule? (h : numberRule? a b = some o) : a.order? b = o := by
  unfold numberRule? at h
  split at h
  next => exact Option.some.inj h
  next => exact Option.some.inj h
  next => exact Option.some.inj h
  next => exact Option.some.inj h
  next => exact Option.some.inj h
  next => exact Option.some.inj h
  next => cases h

/-- Of two numbers there is a rule for one sequence or the other. -/
theorem numberRule?_exchanged (ha : a.isNumeric = true) (hb : b.isNumeric = true)
    (h : numberRule? a b = none) : ∃ o, numberRule? b a = some o := by
  cases a with
  | integer x =>
    cases b with
    | integer y => cases h
    | float y => cases h
    | decimal y => cases h
    | _ => cases hb
  | float x =>
    cases b with
    | integer y => exact ⟨_, rfl⟩
    | float y => cases h
    | decimal y => exact ⟨_, rfl⟩
    | _ => cases hb
  | decimal x =>
    cases b with
    | integer y => exact ⟨_, rfl⟩
    | float y => cases h
    | decimal y => cases h
    | _ => cases hb
  | _ => cases ha

/-- Two numbers are ordered in one way, with one exchange at most, and the order is theirs. -/
theorem orderedBy_iff (ha : a.isNumeric = true) (hb : b.isNumeric = true) :
    ∃ n ≤ 1, ∀ m o, OrderedBy m a b o ↔ m = n ∧ o = a.order? b := by
  cases hab : numberRule? a b with
  | some p =>
    have hp := order?_of_numberRule? hab
    refine ⟨0, Nat.zero_le 1, fun m o => ⟨fun h => ?_, ?_⟩⟩
    · cases h with
      | rule h => exact ⟨rfl, (order?_of_numberRule? h).symm⟩
      | exchange h _ => rw [hab] at h; cases h
    · rintro ⟨rfl, rfl⟩
      exact .rule (hp ▸ hab)
  | none =>
    obtain ⟨p, hba⟩ := numberRule?_exchanged ha hb hab
    have hp := order?_of_numberRule? hba
    have hturned : p.map Ordering.swap = a.order? b := by rw [← order?_swap a b, hp]
    refine ⟨1, Nat.le_refl 1, fun m o => ⟨fun h => ?_, ?_⟩⟩
    · cases h with
      | rule h => rw [hab] at h; cases h
      | exchange _ h =>
        -- The exchanged pair has its rule, so it does not change places again.
        cases h with
        | rule h =>
          obtain rfl := Option.some.inj (hba.symm.trans h)
          exact ⟨rfl, hturned⟩
        | exchange h _ => rw [hba] at h; cases h
    · rintro ⟨rfl, rfl⟩
      exact hturned ▸ .exchange hab (.rule hba)

end Datum

end RowFilter
