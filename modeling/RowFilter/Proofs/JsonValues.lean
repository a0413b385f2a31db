import RowFilter.Proofs.Comparable

namespace RowFilter

/-- Whether a value is one of the values of a type. -/
def Datum.inhabits : Datum → FieldType → Bool
  | .integer n, .integer width => width.holds n
  | .ordinal i, .enumeration members => i < members.length
  | d, type => d.isOf type

/-- The numbers that are not an infinity, and no number at all. -/
def JsonNumber.isFinite : JsonNumber → Bool
  | integer _ => true
  | real x => x.isFinite

theorem Double.isNaN_of_isFinite {x : Double} (h : x.isFinite = true) : x.isNaN = false := by
  simp only [isFinite, decide_eq_true_eq] at h
  simp only [isNaN, decide_eq_false_iff_not]
  omega

/-- Rounding to fewer bits can reach infinity, but makes no number something else. -/
theorem Double.isNaN_toSingle {x : Double} (h : x.isNaN = false) : x.toSingle.isNaN = false := by
  unfold toSingle
  split
  next =>
    have hle := binary32.nearest_le_infinity (binary64.units x.magnitude) (Nat.pow 2 binary64.unit)
    unfold widen
    rw [if_neg (Nat.not_lt.mpr hle)]
    split
    · exact decide_eq_false (Nat.lt_irrefl _)
    · exact isNaN_ofRatio _ _ _
  next => exact h

theorem JsonNumber.isNaN_toDouble {n : JsonNumber} (h : n.isFinite = true) :
    n.toDouble.isNaN = false := by
  cases n with
  | integer n => exact Double.isNaN_ofInt n
  | real x => exact Double.isNaN_of_isFinite h

namespace Datum

variable {type : FieldType} {d : Datum}

theorem isOf_of_inhabits (h : d.inhabits type = true) : d.isOf type = true := by
  unfold inhabits at h
  split at h
  · rfl
  · rfl
  · exact h

theorem ne_null_of_isOf (h : d.isOf type = true) : d ≠ .null := by
  rintro rfl
  simp [isOf] at h

theorem ofInt?_eq_some {width : IntegerType} {n : Int} :
    ofInt? width n = some d ↔ width.holds n = true ∧ integer n = d := by
  simp only [ofInt?, Option.ite_none_right_eq_some, Option.some.injEq]

theorem inhabits_ofInt? {width : IntegerType} {n : Int} (h : ofInt? width n = some d) :
    d.inhabits (.integer width) = true := by
  obtain ⟨hholds, rfl⟩ := ofInt?_eq_some.mp h
  exact hholds

theorem inhabits_ofText? {text : String} (h : ofText? type text = some d) :
    d.inhabits type = true := by
  cases type with
  | enumeration members =>
    obtain ⟨i, hi, rfl⟩ := Option.map_eq_some_iff.mp h
    obtain ⟨hlt, _⟩ := List.findIdx?_eq_some_iff_getElem.mp hi
    exact decide_eq_true hlt
  | integer width => cases h
  | _ =>
    have hof := isOf_ofText? h
    cases d <;> exact hof

theorem inhabits_ofJsonNumber? {n : JsonNumber} (h : ofJsonNumber? type n = some d) :
    d.inhabits type = true := by
  unfold ofJsonNumber? at h
  split at h
  next => cases h; rfl
  next => cases h; rfl
  next => exact inhabits_ofInt? h
  next => cases h; rfl
  next => cases h; rfl
  next =>
    obtain ⟨_, _, rfl⟩ := Option.map_eq_some_iff.mp h
    rfl
  next => cases h

/-- What is read from JSON for a type is a value of the type. -/
theorem inhabits_ofJson? {value : Json} (h : ofJson? type value = some d) :
    d.inhabits type = true := by
  cases value with
  | boolean b =>
    simp only [ofJson?, Option.ite_none_right_eq_some, Option.some.injEq] at h
    obtain ⟨rfl, rfl⟩ := h
    rfl
  | number n => exact inhabits_ofJsonNumber? h
  | string s => exact inhabits_ofText? h
  | null => cases h
  | array items => cases h
  | object members => cases h

theorem ofJson_eq_null_iff {value : Json} :
    ofJson type value = .null ↔ ofJson? type value = none := by
  unfold ofJson
  cases h : ofJson? type value with
  | none => simp
  | some d => simp [ne_null_of_isOf (isOf_of_inhabits (inhabits_ofJson? h))]

theorem isNaN_ofInt? {width : IntegerType} {n : Int} (h : ofInt? width n = some d) :
    d.isNaN = false := by
  obtain ⟨_, rfl⟩ := ofInt?_eq_some.mp h
  rfl

theorem isNaN_ofText? {text : String} (h : ofText? type text = some d) : d.isNaN = false := by
  have hof := isOf_ofText? h
  cases d with
  | float x => cases type <;> cases hof <;> cases h
  | _ => rfl

theorem isNaN_ofJsonNumber? {n : JsonNumber} (hfinite : n.isFinite = true)
    (h : ofJsonNumber? type n = some d) : d.isNaN = false := by
  have hn := JsonNumber.isNaN_toDouble hfinite
  unfold ofJsonNumber? at h
  split at h
  next => cases h; rfl
  next => cases h; rfl
  next => exact isNaN_ofInt? h
  next => cases h; exact Double.isNaN_toSingle hn
  next => cases h; exact hn
  next =>
    obtain ⟨_, _, rfl⟩ := Option.map_eq_some_iff.mp h
    rfl
  next => cases h

theorem isNaN_ofJson? {value : Json} (hfinite : ∀ n, value = .number n → n.isFinite = true)
    (h : ofJson? type value = some d) : d.isNaN = false := by
  cases value with
  | boolean b =>
    simp only [ofJson?, Option.ite_none_right_eq_some, Option.some.injEq] at h
    obtain ⟨_, rfl⟩ := h
    rfl
  | number n => exact isNaN_ofJsonNumber? (hfinite n rfl) h
  | string s => exact isNaN_ofText? h
  | null => cases h
  | array items => cases h
  | object members => cases h

theorem isNaN_ofDecimal? {n : Decimal} (h : ofDecimal? type n = some d) : d.isNaN = false := by
  have hn := Decimal.isNaN_toDouble n
  unfold ofDecimal? at h
  split at h
  next =>
    obtain ⟨_, _, rfl⟩ := Option.map_eq_some_iff.mp h
    rfl
  next =>
    obtain ⟨_, _, hint⟩ := Option.bind_eq_some_iff.mp h
    exact isNaN_ofInt? hint
  next => cases h; exact Double.isNaN_toSingle hn
  next => cases h; exact hn
  next => cases h; rfl
  next => cases h

/-- A literal is a number wherever it is read as one. -/
theorem isNaN_ofLiteral? {f : Field} {l : Literal} (h : ofLiteral? f l = some d) :
    d.isNaN = false := by
  cases l with
  | null =>
    simp only [ofLiteral?, Option.ite_none_right_eq_some, Option.some.injEq] at h
    obtain ⟨_, rfl⟩ := h
    rfl
  | boolean b =>
    simp only [ofLiteral?, Option.ite_none_right_eq_some, Option.some.injEq] at h
    obtain ⟨_, rfl⟩ := h
    rfl
  | number n => exact isNaN_ofDecimal? h
  | string s => exact isNaN_ofText? h

end Datum

end RowFilter
