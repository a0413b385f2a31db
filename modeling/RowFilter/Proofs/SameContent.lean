import RowFilter.Proofs.DecimalText
import RowFilter.Proofs.JsonValues
import RowFilter.Proofs.OneOrder

namespace RowFilter

/-- A literal and a JSON value of the same content. The numbers are the whole ones of 64 bits,
which a decimal can write with fraction digits. -/
inductive SameContent : Literal → Json → Prop
  | string (s : String) : SameContent (.string s) (.string s)
  | boolean (b : Bool) : SameContent (.boolean b) (.boolean b)
  | number {d : Decimal} {n : Int} {m : JsonNumber} : d.toInt? = some n →
      JsonNumber.ofInt? n = some m → SameContent (.number d) (.number m)

theorem BinaryFormat.nearest_zero (f : BinaryFormat) (den : Nat) : f.nearest 0 den = 0 := by
  simp [nearest, divideToEven]

namespace Decimal

variable {d e : Decimal} {m n : Int}

theorem pow_ten_ne_zero (scale : Nat) : Int.pow 10 scale ≠ 0 :=
  Int.ne_of_gt (Int.pow_pos (by decide))

theorem toInt?_eq_some : d.toInt? = some n ↔ d.coefficient = n * Int.pow 10 d.scale := by
  simp only [toInt?, Option.ite_none_right_eq_some, Option.some.injEq]
  constructor
  · rintro ⟨hwhole, rfl⟩
    exact (Int.ediv_mul_cancel (Int.dvd_of_emod_eq_zero hwhole)).symm
  · intro h
    rw [h]
    exact ⟨Int.mul_emod_left _ _, Int.mul_ediv_cancel _ (pow_ten_ne_zero d.scale)⟩

/-- Decimals that are whole numbers have the same value when the numbers are equal. -/
theorem same_iff_of_toInt? (hd : d.toInt? = some m) (he : e.toInt? = some n) :
    d.same e = true ↔ m = n := by
  rw [toInt?_eq_some] at hd he
  rw [same, order, decide_eq_true_eq, Int.compare_eq_eq, hd, he, Int.mul_right_comm n,
    Int.mul_eq_mul_right_iff (pow_ten_ne_zero e.scale),
    Int.mul_eq_mul_right_iff (pow_ten_ne_zero d.scale)]

/-- Without a fraction only the whole part is rounded. -/
theorem doubleMagnitude_whole (m scale : Nat) :
    doubleMagnitude (m * Nat.pow 10 scale) scale = binary64.nearest m 1 := by
  have hpower : 0 < Nat.pow 10 scale := Nat.pow_pos (by decide)
  have hunits : binary64.units 0 = 0 := by decide
  have hpart :
      Double.quotient (binary64.nearest 0 1) (binary64.nearest (Nat.pow 10 scale) 1) = 0 := by
    rw [Double.quotient, BinaryFormat.nearest_zero, hunits, BinaryFormat.nearest_zero]
  simp only [doubleMagnitude, Nat.mul_mod_left, Nat.mul_div_cancel _ hpower, hpart, if_true]

theorem toDouble_of_toInt? (h : d.toInt? = some n) : d.toDouble = .ofInt n := by
  have hcoefficient := toInt?_eq_some.mp h
  have hsign : 0 ≤ d.coefficient ↔ 0 ≤ n := by
    rw [hcoefficient]
    exact Int.mul_nonneg_iff_of_pos_right (Int.pow_pos (by decide))
  have hmagnitude : d.coefficient.natAbs = n.natAbs * Nat.pow 10 d.scale := by
    rw [hcoefficient, Int.natAbs_mul]
    exact congrArg (n.natAbs * ·) (Int.natAbs_pow 10 d.scale)
  simp only [toDouble, Double.ofInt, Double.ofRatio, Double.mk.injEq, decide_eq_decide]
  refine ⟨by omega, ?_⟩
  rw [hmagnitude, doubleMagnitude_whole]

theorem text_whole (h : n.natAbs < Nat.pow 2 96) :
    text ⟨n, 0, h, by decide⟩ = (JsonNumber.integer n).text := by
  have hdigits : unsignedText n.natAbs 0 = Nat.toDigits 10 n.natAbs := by
    have hlength : 0 < (Nat.toDigits 10 n.natAbs).length := Nat.length_toDigits_pos
    have hzeros : 0 + 1 - (Nat.toDigits 10 n.natAbs).length = 0 := by omega
    simp only [unsignedText, hzeros, List.replicate_zero, List.nil_append, if_true]
  simp only [text, JsonNumber.text, hdigits]

end Decimal

theorem JsonNumber.ofInt?_eq_some {n : Int} {m : JsonNumber} :
    ofInt? n = some m ↔ m = integer n ∧ -Int.pow 2 63 ≤ n ∧ n < Int.pow 2 64 := by
  simp only [ofInt?, Option.ite_none_right_eq_some, Option.some.injEq]
  exact and_comm.trans (and_congr_left' eq_comm)

namespace Datum

variable {d : Decimal} {n : Int} {f : Field} {l : Literal} {value : Json}

theorem bit?_of_toInt? (h : d.toInt? = some n) :
    bit? d = if n = 0 then some false else if n = 1 then some true else none := by
  have hzero : d.same .zero = true ↔ n = 0 := Decimal.same_iff_of_toInt? h rfl
  have hone : d.same .one = true ↔ n = 1 := Decimal.same_iff_of_toInt? h rfl
  simp only [bit?, hzero, hone]

/-- The bits are the whole numbers zero and one. -/
theorem toInt?_of_bit? {b : Bool} (h : bit? d = some b) :
    d.toInt? = some (if b then 1 else 0) := by
  have hvalue : ∀ n, d.coefficient * Int.pow 10 0 = n * Int.pow 10 d.scale → d.toInt? = some n :=
    fun n hn => Decimal.toInt?_eq_some.mpr ((Int.mul_one _).symm.trans hn)
  simp only [bit?, Decimal.same, Decimal.order, decide_eq_true_eq, Int.compare_eq_eq] at h
  split at h
  next hzero => cases h; exact hvalue 0 hzero
  next =>
    split at h
    next hone => cases h; exact hvalue 1 hone
    next => cases h

theorem equals_self {a : Datum} (h : a.isNaN = false) : a.equals a = true := by
  by_cases hnull : a = .null
  · rw [hnull]
    rfl
  · have horder : a.order? a = some .eq := by
      cases a <;> simp_all [order?, isNaN, Double.order?, Decimal.order]
    rw [equals_eq fun hboth => hnull hboth.1, decide_eq_true horder]

theorem ofJsonNumber?_boolean (n : Int) : ofJsonNumber? .boolean (.integer n) =
    (if n = 0 then some false else if n = 1 then some true else none).map boolean := by
  by_cases hzero : n = 0
  · subst hzero
    rfl
  · by_cases hone : n = 1
    · subst hone
      rfl
    · simp only [hzero, hone, if_false, Option.map_none]
      unfold ofJsonNumber?
      split <;> simp_all

/-- Whole numbers of 64 bits are read exactly. -/
theorem decimalOfJson?_integer (hlow : -Int.pow 2 63 ≤ n) (hhigh : n < Int.pow 2 64) :
    ∃ e, decimalOfJson? (.integer n) = some e ∧ e.toInt? = some n := by
  have hlt : n.natAbs < Nat.pow 2 96 := by
    have hlow : -9223372036854775808 ≤ n := hlow
    have hhigh : n < 18446744073709551616 := hhigh
    show n.natAbs < 79228162514264337593543950336
    omega
  refine ⟨⟨n, 0, hlt, by decide⟩, ?_, Decimal.toInt?_eq_some.mpr (Int.mul_one n).symm⟩
  rw [decimalOfJson?, ← Decimal.text_whole hlt, Decimal.read?_text, Option.some_or]

theorem equals_decimal {d e : Decimal} (hd : d.toInt? = some n) (he : e.toInt? = some n) :
    (decimal e).equals (decimal d) = true := by
  have hsame : e.same d = true := (Decimal.same_iff_of_toInt? he hd).mpr rfl
  simpa [equals, order?, Decimal.same] using hsame

/-- A whole number is the same value of every type but decimals, where digits of the fraction may
be missing. -/
theorem ofDecimal?_eq_ofJsonNumber? {type : FieldType} (hd : d.toInt? = some n)
    (htype : type ≠ .decimal) : ofDecimal? type d = ofJsonNumber? type (.integer n) := by
  cases type with
  | boolean => rw [ofDecimal?, bit?_of_toInt? hd, ofJsonNumber?_boolean]
  | integer width => simp only [ofDecimal?, ofJsonNumber?, hd, Option.bind_some]
  | float32 => simp only [ofDecimal?, ofJsonNumber?, Decimal.toDouble_of_toInt? hd,
      JsonNumber.toDouble]
  | float64 => simp only [ofDecimal?, ofJsonNumber?, Decimal.toDouble_of_toInt? hd,
      JsonNumber.toDouble]
  | decimal => exact absurd rfl htype
  | _ => rfl

/-- Two readings agree when neither has a value or they have equal ones. -/
def Agree (a b : Option Datum) : Prop :=
  Option.Rel (fun x y => y.equals x = true) a b

theorem Agree.isSome {a b : Option Datum} (h : Agree a b) : a.isSome = b.isSome := by
  cases h <;> rfl

theorem agree_self {a : Option Datum} (h : ∀ x, a = some x → x.isNaN = false) : Agree a a := by
  cases a with
  | none => exact .none
  | some x => exact .some (equals_self (h x rfl))

/-- What has the same content is read alike for every field. -/
theorem agree_of_sameContent (f : Field) (h : SameContent l value) :
    Agree (ofLiteral? f l) (ofJson? f.type value) := by
  cases h with
  | string s => exact agree_self fun x hx => isNaN_ofText? hx
  | boolean b => exact agree_self fun x hx => isNaN_ofLiteral? hx
  | @number d n m hd hm =>
    obtain ⟨rfl, hlow, hhigh⟩ := JsonNumber.ofInt?_eq_some.mp hm
    show Agree (ofDecimal? f.type d) (ofJsonNumber? f.type (.integer n))
    by_cases htype : f.type = .decimal
    · obtain ⟨e, he, hen⟩ := decimalOfJson?_integer hlow hhigh
      rw [htype, ofDecimal?, ofJsonNumber?, he, Option.map_some]
      exact .some (equals_decimal hd hen)
    · rw [ofDecimal?_eq_ofJsonNumber? hd htype]
      exact agree_self fun x hx => isNaN_ofJsonNumber? (by rfl) hx

end Datum

namespace Condition

variable {f : Field} {l : Literal} {value : Json} {k : Condition}

theorem ofExpr_fieldEquals :
    ofExpr ⟨[f]⟩ (.binary (.comparison .equal) (.property f.name) (.literal l)) = .ok k ↔
      ∃ d, Datum.ofLiteral? f l = some d ∧ k = compare .equal (.field 0) (.value d) := by
  have hname : Schema.resolve ⟨[f]⟩ f.name = some (0, f) := by
    simp [Schema.resolve, Schema.resolveFrom, sameIgnoringCase]
  exact ofExpr_resolvedLiteral hname (by simp [Comparison.isOrdering])

theorem jsonRow_single : jsonRow ⟨[f]⟩ [(f.name, value)] 0 = Datum.ofJson f.type value := by
  simp [jsonRow, Datum.memberFor?, Json.member?]

/-- The filter that asks whether a field is equal to a literal compiles when the JSON value of the
same content is one of the field's, and then it matches the object that has this value there. -/
theorem equals_sameContent (f : Field) (h : SameContent l value) :
    let s : Schema := ⟨[f]⟩
    let e : Expr := .binary (.comparison .equal) (.property f.name) (.literal l)
    ((∃ k, ofExpr s e = .ok k) ↔ Datum.ofJson f.type value ≠ .null) ∧
      ∀ k, ofExpr s e = .ok k → k.holds (jsonRow s [(f.name, value)]) = true := by
  intro s e
  have hagree := Datum.agree_of_sameContent f h
  constructor
  · have hcompiles : (∃ k, ofExpr s e = .ok k) ↔ (Datum.ofLiteral? f l).isSome = true := by
      simp only [s, e, ofExpr_fieldEquals, Option.isSome_iff_exists]
      constructor
      · rintro ⟨_, d, hd, _⟩
        exact ⟨d, hd⟩
      · rintro ⟨d, hd⟩
        exact ⟨_, d, hd, rfl⟩
    rw [hcompiles, hagree.isSome, Ne, Datum.ofJson_eq_null_iff, Option.isSome_iff_ne_none]
  · intro k hk
    obtain ⟨d, hd, rfl⟩ := ofExpr_fieldEquals.mp hk
    have hrow : jsonRow s [(f.name, value)] 0 = Datum.ofJson f.type value := jsonRow_single
    rw [hd] at hagree
    simp only [holds, Operand.valueIn, Comparison.holds, hrow, Datum.ofJson]
    generalize Datum.ofJson? f.type value = read at hagree
    cases hagree with
    | some hequals => exact hequals

/-- A price of five is also matched by a literal with two digits behind the point. -/
theorem equals_sameContent_price :
    let d : Decimal := ⟨500, 2, by decide, by decide⟩
    let s : Schema := ⟨[⟨"Price", .decimal, false⟩]⟩
    let e : Expr := .binary (.comparison .equal) (.property "Price") (.literal (.number d))
    SameContent (.number d) (.number (.integer 5)) ∧
      ∃ k, ofExpr s e = .ok k ∧
        k.holds (jsonRow s [("Price", .number (.integer 5))]) = true := by
  intro d s e
  have hwhole : d.toInt? = some 5 := by decide
  have hcontent : SameContent (.number d) (.number (.integer 5)) := .number hwhole rfl
  have hread : Datum.ofJson .decimal (.number (.integer 5)) ≠ .null := by decide
  obtain ⟨hcompiles, hmatches⟩ := equals_sameContent ⟨"Price", .decimal, false⟩ hcontent
  obtain ⟨k, hk⟩ := hcompiles.mpr hread
  exact ⟨hcontent, k, hk, hmatches k hk⟩

end Condition

end RowFilter
