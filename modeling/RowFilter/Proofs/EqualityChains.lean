import RowFilter.Proofs.ExactNumbers
import RowFilter.Proofs.Mirrored

namespace RowFilter

namespace Double

variable {x y z : Double}

theorem same_iff : x.same y = true ↔ (x.isNaN = false ∧ y.isNaN = false) ∧ x.rank = y.rank := by
  unfold same order?
  cases x.isNaN <;> cases y.isNaN <;> simp

theorem same_symm (h : x.same y = true) : y.same x = true := by
  obtain ⟨⟨hx, hy⟩, hrank⟩ := same_iff.mp h
  exact same_iff.mpr ⟨⟨hy, hx⟩, hrank.symm⟩

theorem same_trans (hxy : x.same y = true) (hyz : y.same z = true) : x.same z = true := by
  obtain ⟨⟨hx, _⟩, hleft⟩ := same_iff.mp hxy
  obtain ⟨⟨_, hz⟩, hright⟩ := same_iff.mp hyz
  exact same_iff.mpr ⟨⟨hx, hz⟩, hleft.trans hright⟩

theorem same_congr_left (h : x.same y = true) : x.same z = y.same z :=
  Bool.eq_iff_iff.mpr ⟨same_trans (same_symm h), same_trans h⟩

theorem same_congr_right (h : y.same z = true) : x.same y = x.same z :=
  Bool.eq_iff_iff.mpr ⟨fun hxy => same_trans hxy h, fun hxz => same_trans hxz (same_symm h)⟩

theorem same_ofInt (n : Int) : (ofInt n).same (ofInt n) = true :=
  same_iff.mpr ⟨⟨isNaN_ofInt n, isNaN_ofInt n⟩, rfl⟩

end Double

namespace Datum

/-- The double that a number is rounded to. -/
def double? : Datum → Option Double
  | integer n => some (.ofInt n)
  | float x => some x
  | decimal d => some d.toDouble
  | _ => none

/-- The value of an integer or a decimal. -/
def value? : Datum → Option Rat
  | integer n => some n
  | decimal d => some d.value
  | _ => none

/-- Whether two numbers are compared as doubles: one of them is a double, or they are a decimal and
an integer that fits none. -/
def roundedWith : Datum → Datum → Bool
  | float _, b => b.isNumeric
  | a, float _ => a.isNumeric
  | integer n, decimal _ => (Decimal.ofInt? n).isNone
  | decimal _, integer n => (Decimal.ofInt? n).isNone
  | _, _ => false

variable {a b c : Datum} {x y z : Double}

theorem orderMixed?_rounded {n : Int} (h : (Decimal.ofInt? n).isNone = true) (d : Decimal) :
    orderMixed? n d = (Double.ofInt n).order? d.toDouble := by
  rw [orderMixed?, Option.isNone_iff_eq_none.mp h]

theorem order?_rounded (h : a.roundedWith b = true) (ha : a.double? = some x)
    (hb : b.double? = some y) : a.order? b = x.order? y := by
  cases a with
  | integer n =>
    obtain rfl := Option.some.inj ha
    cases b with
    | integer m => cases h
    | float y => obtain rfl := Option.some.inj hb; rfl
    | decimal e =>
      obtain rfl := Option.some.inj hb
      exact orderMixed?_rounded h e
    | _ => cases hb
  | float x =>
    obtain rfl := Option.some.inj ha
    cases b with
    | integer m => obtain rfl := Option.some.inj hb; rfl
    | float y => obtain rfl := Option.some.inj hb; rfl
    | decimal e => obtain rfl := Option.some.inj hb; rfl
    | _ => cases hb
  | decimal d =>
    obtain rfl := Option.some.inj ha
    cases b with
    | integer m =>
      obtain rfl := Option.some.inj hb
      rw [← Double.order?_swap]
      exact congrArg (Option.map Ordering.swap) (orderMixed?_rounded h d)
    | float y => obtain rfl := Option.some.inj hb; rfl
    | decimal e => cases h
    | _ => cases hb
  | _ => cases ha

theorem order?_unrounded {p q : Rat} (h : a.roundedWith b = false) (ha : a.value? = some p)
    (hb : b.value? = some q) : a.order? b = some (cmp p q) := by
  cases a with
  | integer n =>
    obtain rfl := Option.some.inj ha
    cases b with
    | integer m => obtain rfl := Option.some.inj hb; exact order?_integers n m
    | decimal e =>
      obtain rfl := Option.some.inj hb
      exact order?_exact (.integer (Decimal.isNone_ofInt?_eq_false.mp h)) (.decimal e)
    | _ => cases hb
  | decimal d =>
    obtain rfl := Option.some.inj ha
    cases b with
    | integer m =>
      obtain rfl := Option.some.inj hb
      exact order?_exact (.decimal d) (.integer (Decimal.isNone_ofInt?_eq_false.mp h))
    | decimal e => obtain rfl := Option.some.inj hb; exact order?_decimals d e
    | _ => cases hb
  | _ => cases ha

theorem value?_eq_none (h : a.isNumeric = false) : a.value? = none := by
  cases a <;> first | rfl | cases h

theorem isNumeric_of_roundedWith (h : a.roundedWith b = true) : a.isNumeric = true := by
  cases a with
  | integer n => rfl
  | float x => rfl
  | decimal d => rfl
  | _ => cases b <;> cases h

theorem isNumeric_of_order? {o : Ordering} (h : a.order? b = some o) :
    a.isNumeric = b.isNumeric := by
  unfold order? at h
  split at h
  all_goals first
    | rfl
    | cases h

/-- Values that are no numbers and have the same place in the order have the same order with all
values. -/
theorem order?_congr (ha : a.isNumeric = false) (h : a.order? b = some .eq) (c : Datum) :
    a.order? c = b.order? c := by
  unfold order? at h
  split at h
  case h_1 x y | h_7 x y =>
    obtain rfl := Std.LawfulEqCmp.eq_of_compare (Option.some.inj h)
    rfl
  case h_2 x y =>
    obtain rfl := String.toList_inj.mp (Std.LawfulEqCmp.eq_of_compare (Option.some.inj h))
    rfl
  case h_3 x y | h_4 x y | h_5 x y =>
    have hkey : x.key = y.key := Std.LawfulEqCmp.eq_of_compare (Option.some.inj h)
    cases c <;> simp only [order?, hkey]
  case h_6 x y =>
    have hvalue : x.value = y.value := Std.LawfulEqCmp.eq_of_compare (Option.some.inj h)
    cases c <;> simp only [order?, hvalue]
  all_goals first
    | cases ha
    | cases h

theorem order?_of_equals (h : a.equals b = true) :
    a = .null ∧ b = .null ∨ a ≠ .null ∧ a.order? b = some .eq := by
  by_cases hnull : a = .null ∧ b = .null
  · exact .inl hnull
  · rw [equals_eq hnull, decide_eq_true_eq] at h
    refine .inr ⟨?_, h⟩
    rintro rfl
    cases h

theorem isNumeric_of_equals (h : a.equals b = true) : a.isNumeric = b.isNumeric := by
  rcases order?_of_equals h with ⟨rfl, rfl⟩ | ⟨_, horder⟩
  · rfl
  · exact isNumeric_of_order? horder

/-- Equal values that are no numbers are equal to the same values. -/
theorem equals_congr (ha : a.isNumeric = false) (h : a.equals b = true) (c : Datum) :
    a.equals c = b.equals c := by
  rcases order?_of_equals h with ⟨rfl, rfl⟩ | ⟨hnull, horder⟩
  · rfl
  · have hother : b ≠ .null := by
      rintro rfl
      rw [order?_null (.inr rfl)] at horder
      cases horder
    rw [equals_eq fun hboth => hnull hboth.1, equals_eq fun hboth => hother hboth.1,
      order?_congr ha horder c]

theorem exists_double (h : a.isNumeric = true) : ∃ x, a.double? = some x := by
  cases a with
  | integer n => exact ⟨_, rfl⟩
  | float x => exact ⟨_, rfl⟩
  | decimal d => exact ⟨_, rfl⟩
  | _ => cases h

theorem exists_value (ha : a.isNumeric = true) (hb : b.isNumeric = true)
    (h : a.roundedWith b = false) : ∃ p q, a.value? = some p ∧ b.value? = some q := by
  cases a with
  | integer n =>
    cases b with
    | integer m => exact ⟨_, _, rfl, rfl⟩
    | decimal e => exact ⟨_, _, rfl, rfl⟩
    | float y => cases h
    | _ => cases hb
  | decimal d =>
    cases b with
    | integer m => exact ⟨_, _, rfl, rfl⟩
    | decimal e => exact ⟨_, _, rfl, rfl⟩
    | float y => cases h
    | _ => cases hb
  | float x =>
    have hother : b.isNumeric = false := h
    simp [hb] at hother
  | _ => cases ha

theorem equals_rounded (h : a.roundedWith b = true) (ha : a.double? = some x)
    (hb : b.double? = some y) : a.equals b = x.same y := by
  have hnull : ¬ (a = .null ∧ b = .null) := by
    rintro ⟨rfl, _⟩
    cases ha
  rw [equals_eq hnull, order?_rounded h ha hb, Double.same]

theorem equals_unrounded {p q : Rat} (h : a.roundedWith b = false) (ha : a.value? = some p)
    (hb : b.value? = some q) : a.equals b = true ↔ p = q :=
  Comparison.holds_iff_relates (order?_unrounded h ha hb) .equal

/-- Equal numbers have equal doubles, unless they are two decimals. -/
theorem same_of_equals (h : a.equals b = true) (ha : a.double? = some x)
    (hb : b.double? = some y) :
    x.same y = true ∨ ∃ d e : Decimal, a = decimal d ∧ b = decimal e := by
  cases hrounded : a.roundedWith b with
  | true =>
    rw [equals_rounded hrounded ha hb] at h
    exact .inl h
  | false =>
    cases a with
    | integer n =>
      obtain rfl := Option.some.inj ha
      cases b with
      | integer m =>
        obtain rfl := Option.some.inj hb
        have hvalue := (equals_unrounded hrounded rfl rfl).mp h
        obtain rfl : n = m := Rat.intCast_inj.mp hvalue
        exact .inl (Double.same_ofInt _)
      | decimal e =>
        obtain rfl := Option.some.inj hb
        have hvalue := (equals_unrounded hrounded rfl rfl).mp h
        rw [Decimal.toDouble_of_toInt? (Decimal.toInt?_eq_some_iff_value.mpr hvalue.symm)]
        exact .inl (Double.same_ofInt _)
      | float y => cases hrounded
      | _ => cases hb
    | decimal d =>
      obtain rfl := Option.some.inj ha
      cases b with
      | integer m =>
        obtain rfl := Option.some.inj hb
        have hvalue := (equals_unrounded hrounded rfl rfl).mp h
        rw [Decimal.toDouble_of_toInt? (Decimal.toInt?_eq_some_iff_value.mpr hvalue)]
        exact .inl (Double.same_ofInt _)
      | decimal e => exact .inr ⟨d, e, rfl, rfl⟩
      | float y => cases hrounded
      | _ => cases hb
    | float z =>
      have hother : b.isNumeric = false := hrounded
      rw [← isNumeric_of_equals h] at hother
      cases hother
    | _ => cases ha

/-- Two numbers that are not rounded for each other, of different values, to which a third one is
equal because it is compared with one of them as a double. -/
structure RoundedApart (a b c : Datum) : Prop where
  exact : a.roundedWith c = false
  rounded : a.roundedWith b = true ∨ b.roundedWith c = true
  differ : a.value? ≠ c.value?

/-- Two equal decimals that are rounded to different doubles, and a number that is compared as a
double with them. -/
structure ScaledApart (a b c : Datum) : Prop where
  rounded : a.roundedWith c = true
  differ : ∃ d e : Decimal, d.toDouble.same e.toDouble = false ∧
    (a = decimal d ∧ b = decimal e ∨ b = decimal d ∧ c = decimal e)

/-- Where the ends of a chain are not rounded for each other, they are equal unless a rounding
inside the chain has hidden that their values differ. -/
theorem equals_unrounded_chain (hrounded : a.roundedWith c = false) (ha : a.isNumeric = true)
    (hab : a.equals b = true) (hbc : b.equals c = true) :
    a.equals c = false ↔ a.RoundedApart b c := by
  have hb := (isNumeric_of_equals hab).symm.trans ha
  have hc := (isNumeric_of_equals hbc).symm.trans hb
  obtain ⟨p, r, hp, hr⟩ := exists_value ha hc hrounded
  have hac : a.equals c = true ↔ p = r := equals_unrounded hrounded hp hr
  constructor
  · intro hfalse
    have hdiffer : p ≠ r := by
      intro heq
      rw [hac.mpr heq] at hfalse
      cases hfalse
    refine ⟨hrounded, ?_, by simpa [hp, hr] using hdiffer⟩
    by_contra hneither
    simp only [not_or, Bool.not_eq_true] at hneither
    obtain ⟨_, q, _, hq⟩ := exists_value ha hb hneither.1
    have hleft : p = q := (equals_unrounded hneither.1 hp hq).mp hab
    have hright : q = r := (equals_unrounded hneither.2 hq hr).mp hbc
    exact hdiffer (hleft.trans hright)
  · intro hapart
    rw [← Bool.not_eq_true, hac]
    rintro rfl
    exact hapart.differ (hp.trans hr.symm)

/-- Where the ends of a chain are rounded for each other, they are equal unless one of them is a
decimal whose double depends on its digits. -/
theorem equals_rounded_chain (hrounded : a.roundedWith c = true) (hab : a.equals b = true)
    (hbc : b.equals c = true) (ha : a.double? = some x) (hb : b.double? = some y)
    (hc : c.double? = some z) : a.equals c = false ↔ a.ScaledApart b c := by
  have hac : a.equals c = x.same z := equals_rounded hrounded ha hc
  have hleft := same_of_equals hab ha hb
  have hright := same_of_equals hbc hb hc
  have hnotBoth : ∀ d e, ¬ (a = decimal d ∧ c = decimal e) := by
    rintro d e ⟨rfl, rfl⟩
    cases hrounded
  rw [hac]
  constructor
  · intro hfalse
    refine ⟨hrounded, ?_⟩
    cases hxy : x.same y with
    | true =>
      have hyz : y.same z = false := (Double.same_congr_left hxy).symm.trans hfalse
      obtain ⟨d, e, rfl, rfl⟩ := hright.resolve_left (by simp [hyz])
      obtain rfl := Option.some.inj hb
      obtain rfl := Option.some.inj hc
      exact ⟨d, e, hyz, .inr ⟨rfl, rfl⟩⟩
    | false =>
      obtain ⟨d, e, rfl, rfl⟩ := hleft.resolve_left (by simp [hxy])
      obtain rfl := Option.some.inj ha
      obtain rfl := Option.some.inj hb
      exact ⟨d, e, hxy, .inl ⟨rfl, rfl⟩⟩
  · rintro ⟨_, d, e, hdiffer, ⟨rfl, rfl⟩ | ⟨rfl, rfl⟩⟩
    · obtain rfl := Option.some.inj ha
      obtain rfl := Option.some.inj hb
      have hyz := hright.resolve_right fun ⟨_, f, _, hf⟩ => hnotBoth d f ⟨rfl, hf⟩
      exact (Double.same_congr_right hyz).symm.trans hdiffer
    · obtain rfl := Option.some.inj hb
      obtain rfl := Option.some.inj hc
      have hxy := hleft.resolve_right fun ⟨f, _, hf, _⟩ => hnotBoth f e ⟨hf, rfl⟩
      exact (Double.same_congr_left hxy).trans hdiffer

/-- Zeros behind the point change the double that a decimal is rounded to. -/
example :
    let d : Decimal := ⟨105, 1, by decide, by decide⟩
    let e : Decimal := ⟨10500000000000000000000, 21, by decide, by decide⟩
    (float d.toDouble).equals (.decimal d) = true ∧
      (decimal d).equals (.decimal e) = true ∧
      (float d.toDouble).equals (.decimal e) = false := by
  decide +kernel

theorem equals_chain (hab : a.equals b = true) (hbc : b.equals c = true) :
    a.equals c = false ↔ a.RoundedApart b c ∨ a.ScaledApart b c := by
  cases ha : a.isNumeric with
  | false =>
    have hac : a.equals c = true := (equals_congr ha hab c).trans hbc
    have hc : c.isNumeric = false := (isNumeric_of_equals hac).symm.trans ha
    rw [hac]
    constructor
    · intro hfalse
      cases hfalse
    · rintro (hapart | hapart)
      · exact absurd ((value?_eq_none ha).trans (value?_eq_none hc).symm) hapart.differ
      · rw [isNumeric_of_roundedWith hapart.rounded] at ha
        cases ha
  | true =>
    have hb := (isNumeric_of_equals hab).symm.trans ha
    have hc := (isNumeric_of_equals hbc).symm.trans hb
    obtain ⟨x, hx⟩ := exists_double ha
    obtain ⟨y, hy⟩ := exists_double hb
    obtain ⟨z, hz⟩ := exists_double hc
    cases hrounded : a.roundedWith c with
    | false =>
      rw [equals_unrounded_chain hrounded ha hab hbc, or_iff_left]
      intro hapart
      rw [hapart.rounded] at hrounded
      cases hrounded
    | true =>
      rw [equals_rounded_chain hrounded hab hbc hx hy hz, or_iff_right]
      intro hapart
      rw [hapart.exact] at hrounded
      cases hrounded

/-- An integer among the values of a decimal, or a value of another kind. -/
def Fits : Datum → Prop
  | integer n => n.natAbs < Nat.pow 2 96
  | _ => True

theorem float_of_roundedWith (h : a.roundedWith b = true) (ha : a.Fits) (hb : b.Fits) :
    a.kindName = "float" ∨ b.kindName = "float" := by
  cases a with
  | float x => exact .inl rfl
  | integer n =>
    cases b with
    | float y => exact .inr rfl
    | decimal e =>
      have hnot : (integer n).roundedWith (decimal e) = false :=
        Decimal.isNone_ofInt?_eq_false.mpr ha
      rw [hnot] at h
      cases h
    | _ => cases h
  | decimal d =>
    cases b with
    | float y => exact .inr rfl
    | integer m =>
      have hnot : (decimal d).roundedWith (integer m) = false :=
        Decimal.isNone_ofInt?_eq_false.mpr hb
      rw [hnot] at h
      cases h
    | _ => cases h
  | _ => cases b <;> cases h

theorem roundedWith_of_float (ha : a.isNumeric = true) (hb : b.isNumeric = true)
    (h : a.kindName = "float" ∨ b.kindName = "float") : a.roundedWith b = true := by
  rcases h with hfloat | hfloat
  · cases a with
    | float x => exact hb
    | _ => simp [kindName] at hfloat
  · cases b with
    | float y => cases a <;> first | rfl | cases ha
    | _ => simp [kindName] at hfloat

/-- Whether equality always carries over a chain of these kinds. It may break at a float between
numbers of other kinds, and at a decimal between a decimal and a float. -/
def KindsCarry (first middle last : String) : Prop :=
  (middle = "float" → first = "float" ∨ last = "float") ∧
    (middle = "decimal" → ¬ (first = "decimal" ∧ last = "float") ∧
      ¬ (first = "float" ∧ last = "decimal"))

instance (first middle last : String) : Decidable (KindsCarry first middle last) :=
  inferInstanceAs (Decidable (_ ∧ _))

theorem equals_of_kindsCarry (hab : a.equals b = true) (hbc : b.equals c = true) (ha : a.Fits)
    (hb : b.Fits) (hc : c.Fits) (h : KindsCarry a.kindName b.kindName c.kindName) :
    a.equals c = true := by
  cases hnumeric : a.isNumeric with
  | false => exact (equals_congr hnumeric hab c).trans hbc
  | true =>
    have hlast : c.isNumeric = true :=
      (isNumeric_of_equals hbc).symm.trans ((isNumeric_of_equals hab).symm.trans hnumeric)
    rw [← Bool.not_eq_false, equals_chain hab hbc]
    rintro (⟨hexact, hrounded, _⟩ | ⟨hrounded, d, e, _, ⟨rfl, rfl⟩ | ⟨rfl, rfl⟩⟩)
    · have hends : ¬ (a.kindName = "float" ∨ c.kindName = "float") := by
        intro hfloat
        rw [roundedWith_of_float hnumeric hlast hfloat] at hexact
        cases hexact
      have hmiddle : b.kindName = "float" := by
        rcases hrounded with hrounded | hrounded
        · exact (float_of_roundedWith hrounded ha hb).resolve_left fun hf => hends (.inl hf)
        · exact (float_of_roundedWith hrounded hb hc).resolve_right fun hf => hends (.inr hf)
      exact hends (h.1 hmiddle)
    · have hfloat := (float_of_roundedWith hrounded ha hc).resolve_left (by simp [kindName])
      exact (h.2 rfl).1 ⟨rfl, hfloat⟩
    · have hfloat := (float_of_roundedWith hrounded ha hc).resolve_right (by simp [kindName])
      exact (h.2 rfl).2 ⟨hfloat, rfl⟩

end Datum

namespace Condition

variable {s : Schema} {first second third : String} {i j k : Nat} {f g h : Field}

theorem ofExpr_numericFields (hf : s.resolve first = some (i, f))
    (hg : s.resolve second = some (j, g)) (hnumf : f.type.isNumeric = true)
    (hnumg : g.type.isNumeric = true) :
    ofExpr s (.binary (.comparison .equal) (.property first) (.property second)) =
      .ok (compare .equal (.field i) (.field j)) := by
  have hcomparable : f.type.isComparableWith g.type = true := by
    simp [FieldType.isComparableWith, hnumf, hnumg]
  have hcompared : Compared .equal (.field i f) (.field j g) _ :=
    .fields hcomparable fun hordering => absurd hordering (by decide)
  exact ofExpr_comparison.mpr ⟨_, _, .property hf, .property hg, hcompared⟩

/-- The kind of a value that a field has, unless it is null. -/
theorem kindName_of_admits {row : Row} (hrow : s.Admits row)
    (hf : s.resolve first = some (i, f)) (hnull : row i ≠ .null) :
    (row i).kindName = f.type.valueKind :=
  (Datum.kindName_of_isOf ((Field.isOf_of_admits (hrow.resolved hf)).resolve_left hnull)).1

/-- Of three values in a chain of equal ones the ends are equal too, unless they differ in value and
one was compared with the middle as a double, or they are compared as doubles and two decimals in
the chain have different ones. So where the filters `first = second` and `second = third` match a
row with these values, `first = third` does with the same exceptions, and always if the types are
not among those where equality can break. -/
theorem equality_chain_iff (a b c : Datum) :
    (a.equals b = true → b.equals c = true →
      (a.equals c = true ↔ ¬ a.RoundedApart b c ∧ ¬ a.ScaledApart b c)) ∧
    ∀ (s : Schema) (first second third : String) (i j k : Nat) (f g h : Field),
      s.resolve first = some (i, f) → s.resolve second = some (j, g) →
      s.resolve third = some (k, h) →
      f.type.isNumeric = true → g.type.isNumeric = true → h.type.isNumeric = true →
      let equal (l r : String) : Expr := .binary (.comparison .equal) (.property l) (.property r)
      ∃ p q r : Condition, ofExpr s (equal first second) = .ok p ∧
        ofExpr s (equal second third) = .ok q ∧ ofExpr s (equal first third) = .ok r ∧
        ∀ row, s.Admits row → row i = a → row j = b → row k = c →
          p.holds row = true → q.holds row = true →
          (r.holds row = true ↔ ¬ a.RoundedApart b c ∧ ¬ a.ScaledApart b c) ∧
          (a.Fits → b.Fits → c.Fits →
            Datum.KindsCarry f.type.valueKind g.type.valueKind h.type.valueKind →
            r.holds row = true) := by
  have hvalues : a.equals b = true → b.equals c = true →
      (a.equals c = true ↔ ¬ a.RoundedApart b c ∧ ¬ a.ScaledApart b c) := by
    intro hab hbc
    rw [← not_or, ← Datum.equals_chain hab hbc, Bool.not_eq_false]
  refine ⟨hvalues, ?_⟩
  intro s first second third i j k f g h hf hg hh hnumf hnumg hnumh equal
  refine ⟨_, _, _, ofExpr_numericFields hf hg hnumf hnumg,
    ofExpr_numericFields hg hh hnumg hnumh, ofExpr_numericFields hf hh hnumf hnumh, ?_⟩
  rintro row hrow rfl rfl rfl hp hq
  have hab : (row i).equals (row j) = true := hp
  have hbc : (row j).equals (row k) = true := hq
  refine ⟨hvalues hab hbc, fun ha hb hc hkinds => ?_⟩
  show (row i).equals (row k) = true
  by_cases hnull : row i = .null
  · have hmiddle := ((Datum.equals_eq_true_of_null (.inl hnull)).mp hab).2
    have hlast := ((Datum.equals_eq_true_of_null (.inl hmiddle)).mp hbc).2
    rw [hnull, hlast]
    rfl
  · have hmiddle : row j ≠ .null := fun hj =>
      hnull ((Datum.equals_eq_true_of_null (.inr hj)).mp hab).1
    have hlast : row k ≠ .null := fun hk =>
      hmiddle ((Datum.equals_eq_true_of_null (.inr hk)).mp hbc).1
    refine Datum.equals_of_kindsCarry hab hbc ha hb hc ?_
    rwa [kindName_of_admits hrow hf hnull, kindName_of_admits hrow hg hmiddle,
      kindName_of_admits hrow hh hlast]

/-- A number with digits behind the point that are zero, between an integer and a double. -/
theorem equality_chain_iff_price :
    let s : Schema := ⟨[⟨"Qty", .integer .u8, false⟩, ⟨"Price", .decimal, true⟩,
      ⟨"Ratio", .float64, false⟩]⟩
    let row : Row := fun i =>
      if i = 0 then .integer 5 else if i = 1 then .decimal ⟨500, 2, by decide, by decide⟩
      else .float (.ofInt 5)
    let equal (l r : String) : Expr := .binary (.comparison .equal) (.property l) (.property r)
    s.Admits row ∧ ∃ p q r : Condition, ofExpr s (equal "Qty" "Price") = .ok p ∧
      ofExpr s (equal "Price" "Ratio") = .ok q ∧ ofExpr s (equal "Qty" "Ratio") = .ok r ∧
      p.holds row = true ∧ q.holds row = true ∧ r.holds row = true := by
  intro s row equal
  have hrow : s.Admits row := by
    intro i f hf
    match i with
    | 0 => cases hf; rfl
    | 1 => cases hf; rfl
    | 2 => cases hf; rfl
    | i + 3 => cases hf
  have hfits : (row 0).Fits := (by decide : (5 : Int).natAbs < Nat.pow 2 96)
  obtain ⟨p, q, r, hp, hq, hr, hchain⟩ := (equality_chain_iff (row 0) (row 1) (row 2)).2 s
    "Qty" "Price" "Ratio" 0 1 2 _ _ _ rfl rfl rfl rfl rfl rfl
  have hfirst : ofExpr s (equal "Qty" "Price") = .ok (compare .equal (.field 0) (.field 1)) := rfl
  have hsecond : ofExpr s (equal "Price" "Ratio") = .ok (compare .equal (.field 1) (.field 2)) :=
    rfl
  obtain rfl := Except.ok.inj (hfirst.symm.trans hp)
  obtain rfl := Except.ok.inj (hsecond.symm.trans hq)
  have hpholds : (compare .equal (.field 0) (.field 1)).holds row = true := by decide
  have hqholds : (compare .equal (.field 1) (.field 2)).holds row = true := by decide +kernel
  have hkinds : Datum.KindsCarry "integer" "decimal" "float" := by decide
  exact ⟨hrow, _, _, r, hp, hq, hr, hpholds, hqholds,
    (hchain row hrow rfl rfl rfl hpholds hqholds).2 hfits trivial trivial hkinds⟩

/-- Two integers next to each other with the double between them that both are rounded to. -/
theorem equality_chain_broken :
    let s : Schema := ⟨[⟨"A", .integer .i64, false⟩, ⟨"B", .float64, false⟩,
      ⟨"C", .integer .i64, false⟩]⟩
    let row : Row := fun i =>
      if i = 0 then .integer 9007199254740993 else if i = 1 then .float (.ofInt 9007199254740992)
      else .integer 9007199254740992
    let equal (l r : String) : Expr := .binary (.comparison .equal) (.property l) (.property r)
    s.Admits row ∧ ∃ p q r : Condition, ofExpr s (equal "A" "B") = .ok p ∧
      ofExpr s (equal "B" "C") = .ok q ∧ ofExpr s (equal "A" "C") = .ok r ∧
      p.holds row = true ∧ q.holds row = true ∧ r.holds row = false := by
  intro s row equal
  have hrow : s.Admits row := by
    intro i f hf
    match i with
    | 0 => cases hf; rfl
    | 1 => cases hf; rfl
    | 2 => cases hf; rfl
    | i + 3 => cases hf
  exact ⟨hrow, _, _, _, rfl, rfl, rfl, by decide +kernel, by decide +kernel, by decide +kernel⟩

end Condition

end RowFilter
