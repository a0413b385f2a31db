import RowFilter.Datum.Reader
import RowFilter.Proofs.Conforming

namespace RowFilter

theorem Double.isNaN_ofRatio (negative : Bool) (num den : Nat) :
    (ofRatio negative num den).isNaN = false :=
  decide_eq_false (Nat.not_lt.mpr (binary64.nearest_le_infinity num den))

theorem Double.isNaN_ofInt (n : Int) : (Double.ofInt n).isNaN = false :=
  isNaN_ofRatio _ _ _

theorem Decimal.isNaN_toDouble (d : Decimal) : d.toDouble.isNaN = false := by
  have hle : d.toDouble.magnitude ≤ binary64.infinity := by
    simp only [toDouble]
    exact doubleMagnitude_le _ _
  exact decide_eq_false (Nat.not_lt.mpr hle)

theorem Double.order?_eq_none {x y : Double} :
    x.order? y = none ↔ x.isNaN = true ∨ y.isNaN = true := by
  unfold order?
  split <;> simp_all

namespace Datum

def isNumeric : Datum → Bool
  | integer _ => true
  | float _ => true
  | decimal _ => true
  | _ => false

/-- Whether a value is a float that is no number. -/
def isNaN : Datum → Bool
  | float x => x.isNaN
  | _ => false

/-- Whether two values are numbers, of any kinds, or of the same kind. -/
def isComparableWith (a b : Datum) : Bool :=
  a.isNumeric && b.isNumeric || a.kindName = b.kindName

/-- Two values that are compared: one of them is null, or they are of comparable kinds, and have
an order unless one of them is no number. -/
def Meets (a b : Datum) : Prop :=
  a = .null ∨ b = .null ∨
    a.isComparableWith b = true ∧ (a.order? b = none → a.isNaN = true ∨ b.isNaN = true)

theorem equals_eq {a b : Datum} (h : ¬ (a = .null ∧ b = .null)) :
    a.equals b = decide (a.order? b = some .eq) := by
  unfold equals
  split
  next => exact absurd ⟨rfl, rfl⟩ h
  next => rfl

theorem orderMixed?_ne_none (n : Int) (d : Decimal) : orderMixed? n d ≠ none := by
  unfold orderMixed?
  split
  · simp
  · rw [Ne, Double.order?_eq_none, Double.isNaN_ofInt, Decimal.isNaN_toDouble]
    simp

/-- Numbers have an order unless one of them is no number. -/
theorem isNaN_of_numbers {a b : Datum} (ha : a.isNumeric = true) (hb : b.isNumeric = true)
    (h : a.order? b = none) : a.isNaN = true ∨ b.isNaN = true := by
  cases a with
  | integer n =>
    cases b with
    | integer m => cases h
    | float y => simpa [isNaN, Double.isNaN_ofInt] using Double.order?_eq_none.mp h
    | decimal e => exact absurd h (orderMixed?_ne_none n e)
    | _ => cases hb
  | float x =>
    cases b with
    | integer m => simpa [isNaN, Double.isNaN_ofInt] using Double.order?_eq_none.mp h
    | float y => exact Double.order?_eq_none.mp h
    | decimal e => simpa [isNaN, Decimal.isNaN_toDouble] using Double.order?_eq_none.mp h
    | _ => cases hb
  | decimal d =>
    cases b with
    | integer m => exact absurd (Option.map_eq_none_iff.mp h) (orderMixed?_ne_none m d)
    | float y => simpa [isNaN, Decimal.isNaN_toDouble] using Double.order?_eq_none.mp h
    | decimal e => cases h
    | _ => cases hb
  | _ => cases ha

/-- Values of one kind have an order unless they are null or no numbers. -/
theorem isNaN_of_same_kind {a b : Datum} (hkind : a.kindName = b.kindName) (ha : a ≠ .null)
    (h : a.order? b = none) : a.isNaN = true ∨ b.isNaN = true := by
  cases a with
  | null => exact absurd rfl ha
  | float x =>
    cases b with
    | float y => exact Double.order?_eq_none.mp h
    | _ => simp [kindName] at hkind
  | _ =>
    cases b <;> simp [kindName] at hkind
    cases h

theorem meets_of_comparable {a b : Datum} (h : a.isComparableWith b = true) : a.Meets b := by
  by_cases ha : a = .null
  · exact .inl ha
  · refine .inr (.inr ⟨h, fun horder => ?_⟩)
    simp only [isComparableWith, Bool.or_eq_true, Bool.and_eq_true, decide_eq_true_eq] at h
    rcases h with ⟨hl, hr⟩ | hkind
    · exact isNaN_of_numbers hl hr horder
    · exact isNaN_of_same_kind hkind ha horder

end Datum

/-- The kind of the values of a type. -/
def FieldType.valueKind : FieldType → String
  | boolean => "boolean"
  | integer _ => "integer"
  | float32 => "float"
  | float64 => "float"
  | decimal => "decimal"
  | string => "string"
  | date => "date"
  | time => "time"
  | datetime => "datetime"
  | uuid => "uuid"
  | enumeration _ => "enum"

theorem Datum.kindName_of_isOf {d : Datum} {type : FieldType} (h : d.isOf type = true) :
    d.kindName = type.valueKind ∧ d.isNumeric = type.isNumeric := by
  unfold isOf at h
  split at h
  all_goals first
    | exact ⟨rfl, rfl⟩
    | cases h

theorem Datum.comparable_of_isOf {a b : Datum} {s t : FieldType} (ha : a.isOf s = true)
    (hb : b.isOf t = true) (h : s.isComparableWith t = true) : a.isComparableWith b = true := by
  obtain ⟨hkinda, hnuma⟩ := kindName_of_isOf ha
  obtain ⟨hkindb, hnumb⟩ := kindName_of_isOf hb
  simp only [FieldType.isComparableWith, Bool.or_eq_true, Bool.and_eq_true,
    decide_eq_true_eq] at h
  simp only [isComparableWith, Bool.or_eq_true, Bool.and_eq_true, decide_eq_true_eq, hnuma, hnumb,
    hkinda, hkindb]
  exact h.imp id (congrArg FieldType.valueKind)

theorem Field.isOf_of_admits {f : Field} {d : Datum} (h : f.admits d = true) :
    d = .null ∨ d.isOf f.type = true := by
  cases d with
  | null => exact .inl rfl
  | _ => exact .inr h

theorem Field.admits_of_isOf {f : Field} {d : Datum} (h : d.isOf f.type = true) :
    f.admits d = true := by
  cases d with
  | null => simp [Datum.isOf] at h
  | _ => exact h

/-- Values of comparable types, or null, can be compared. -/
theorem Datum.meets_of_isOf {a b : Datum} {s t : FieldType} (ha : a = .null ∨ a.isOf s = true)
    (hb : b = .null ∨ b.isOf t = true) (h : s.isComparableWith t = true) : a.Meets b := by
  rcases ha with hnull | hofa
  · exact .inl hnull
  · rcases hb with hnull | hofb
    · exact .inr (.inl hnull)
    · exact meets_of_comparable (comparable_of_isOf hofa hofb h)

theorem FieldType.isComparableWith_self (t : FieldType) : t.isComparableWith t = true := by
  simp [isComparableWith]

namespace Datum

theorem isOf_ofText? {type : FieldType} {text : String} {d : Datum}
    (h : ofText? type text = some d) : d.isOf type = true := by
  cases type with
  | string => cases h; rfl
  | boolean =>
    simp only [ofText?] at h
    split at h
    · cases h; rfl
    · split at h
      · cases h; rfl
      · cases h
  | integer _ => cases h
  | float32 => cases h
  | float64 => cases h
  | decimal => cases h
  | _ =>
    obtain ⟨_, _, rfl⟩ := Option.map_eq_some_iff.mp h
    rfl

theorem isOf_ofInt? {width : IntegerType} {n : Int} {d : Datum} (h : ofInt? width n = some d) :
    d.isOf (.integer width) = true := by
  unfold ofInt? at h
  split at h
  · cases h
    rfl
  · cases h

theorem isOf_ofDecimal? {type : FieldType} {n : Decimal} {d : Datum}
    (h : ofDecimal? type n = some d) : d.isOf type = true := by
  unfold ofDecimal? at h
  split at h
  next =>
    obtain ⟨_, _, rfl⟩ := Option.map_eq_some_iff.mp h
    rfl
  next =>
    obtain ⟨_, _, hint⟩ := Option.bind_eq_some_iff.mp h
    exact isOf_ofInt? hint
  next => cases h; rfl
  next => cases h; rfl
  next => cases h; rfl
  next => cases h

/-- A field admits the values that it takes literals for. -/
theorem admits_ofLiteral? {f : Field} {l : Literal} {d : Datum} (h : ofLiteral? f l = some d) :
    f.admits d = true := by
  cases l with
  | null =>
    simp only [ofLiteral?, Option.ite_none_right_eq_some, Option.some.injEq] at h
    obtain ⟨hnull, rfl⟩ := h
    exact hnull
  | boolean b =>
    simp only [ofLiteral?, Option.ite_none_right_eq_some, Option.some.injEq] at h
    obtain ⟨htype, rfl⟩ := h
    exact Field.admits_of_isOf (by rw [htype]; rfl)
  | number n => exact Field.admits_of_isOf (isOf_ofDecimal? h)
  | string s => exact Field.admits_of_isOf (isOf_ofText? h)

end Datum

end RowFilter
