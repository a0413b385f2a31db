import RowFilter.Json.Reader
import RowFilter.Proofs.Reading
import RowFilter.Proofs.Reparsed
import RowFilter.Proofs.SameContent

namespace RowFilter

open Grammar
open Nat (ofDigitChars)

/-- The text of a number with a fraction. -/
def pointed (whole fraction : List Char) : List Char :=
  whole ++ '.' :: fraction

/-- The digits before and behind the point, at least one on each side. -/
structure FractionDigits (whole fraction : List Char) : Prop where
  whole_ne : whole ≠ []
  whole_digits : ∀ c ∈ whole, c.isDigit = true
  fraction_ne : fraction ≠ []
  fraction_digits : ∀ c ∈ fraction, c.isDigit = true

variable {whole fraction : List Char}

theorem FractionDigits.numeral (h : FractionDigits whole fraction) :
    Numeral (pointed whole fraction) :=
  .point h.whole_ne h.whole_digits h.fraction_ne h.fraction_digits

theorem digit_eq_zero {c : Char} (h : c.isDigit = true) : c.toNat - '0'.toNat = 0 ↔ c = '0' := by
  have hlow : '0'.toNat ≤ c.toNat := (Char.isDigit_iff_toNat.mp h).1
  rw [← Char.toNat_inj]
  omega

theorem ofDigitChars_cons_zero (c : Char) (cs : List Char) : ofDigitChars 10 (c :: cs) 0 =
    Nat.pow 10 cs.length * (c.toNat - '0'.toNat) + ofDigitChars 10 cs 0 := by
  rw [Nat.ofDigitChars_cons, Nat.ofDigitChars_eq_ofDigitChars_zero, Nat.mul_zero, Nat.zero_add]
  rfl

theorem ofDigitChars_eq_zero (h : ∀ c ∈ fraction, c.isDigit = true) :
    ofDigitChars 10 fraction 0 = 0 ↔ ∀ c ∈ fraction, c = '0' := by
  induction fraction with
  | nil => simp
  | cons c cs ih =>
    obtain ⟨hc, hcs⟩ := List.forall_mem_cons.mp h
    have hpower : Nat.pow 10 cs.length ≠ 0 := Nat.ne_of_gt (Nat.pow_pos (by decide))
    rw [ofDigitChars_cons_zero, Nat.add_eq_zero_iff, Nat.mul_eq_zero, or_iff_right hpower,
      digit_eq_zero hc, ih hcs, List.forall_mem_cons]

theorem ofDigitChars_lt (h : ∀ c ∈ fraction, c.isDigit = true) :
    ofDigitChars 10 fraction 0 < Nat.pow 10 fraction.length := by
  induction fraction with
  | nil => decide
  | cons c cs ih =>
    obtain ⟨hc, hcs⟩ := List.forall_mem_cons.mp h
    have hdigit : c.toNat - '0'.toNat ≤ 9 := by
      have hhigh : c.toNat ≤ 57 := (Char.isDigit_iff_toNat.mp hc).2
      exact Nat.sub_le_of_le_add hhigh
    have hpower : Nat.pow 10 (c :: cs).length = Nat.pow 10 cs.length * 10 := rfl
    have hfirst := Nat.mul_le_mul_left (Nat.pow 10 cs.length) hdigit
    have hrest := ih hcs
    rw [ofDigitChars_cons_zero]
    omega

theorem natCast_eq_mul_iff {p w r : Nat} {n : Int} (h : r < p) :
    ((p * w + r : Nat) : Int) = n * p ↔ r = 0 ∧ n = w := by
  constructor
  · intro heq
    have hrest : (r : Int) = 0 := by
      have hmod := congrArg (· % (p : Int)) heq
      simp only [Int.mul_emod_left, Int.natCast_add, Int.natCast_mul, Int.mul_add_emod_self_left]
        at hmod
      rwa [Int.emod_eq_of_lt (Int.natCast_nonneg r) (Int.ofNat_lt.mpr h)] at hmod
    refine ⟨Int.natCast_eq_zero.mp hrest, ?_⟩
    rw [Int.natCast_add, hrest, Int.add_zero, Int.natCast_mul, Int.mul_comm] at heq
    exact (Int.eq_of_mul_eq_mul_right (by omega) heq).symm
  · rintro ⟨rfl, rfl⟩
    rw [Nat.add_zero, Int.natCast_mul, Int.mul_comm]

namespace Decimal

/-- A fraction that is read keeps all its digits. -/
theorem readDigits_fraction_eq_some {coefficient scale : Nat} {parts : Nat × Nat}
    (hdigits : ∀ c ∈ fraction, c.isDigit = true)
    (h : readDigits true true coefficient scale fraction = some parts) :
    parts = (ofDigitChars 10 fraction coefficient, scale + fraction.length) := by
  induction fraction generalizing coefficient scale with
  | nil => exact (Option.some.inj h).symm
  | cons c cs ih =>
    obtain ⟨hc, hcs⟩ := List.forall_mem_cons.mp hdigits
    simp only [readDigits, hc, if_true] at h
    split at h
    next => cases h
    next =>
      rw [ih hcs h, Nat.ofDigitChars_cons, List.length_cons, Nat.add_assoc, Nat.add_comm 1]

/-- What is read has the digits for a coefficient and those of the fraction for a scale. -/
theorem read?_pointed {d : Decimal} (h : FractionDigits whole fraction)
    (hread : read? (pointed whole fraction) = some d) :
    d.coefficient = ofDigitChars 10 (whole ++ fraction) 0 ∧ d.scale = fraction.length := by
  obtain ⟨c, cs, hhead, hc⟩ := numeral_head h.numeral
  have hpoint : readDigits true false (ofDigitChars 10 whole 0) 0 ('.' :: fraction) =
      readDigits true true (ofDigitChars 10 whole 0) 0 fraction := by
    simp [readDigits]
  rw [hhead, read?_of_digit hc, ← hhead, pointed, readDigits_whole h.whole_digits h.whole_ne,
    hpoint] at hread
  obtain ⟨parts, hparts, hmake⟩ := Option.bind_eq_some_iff.mp hread
  obtain rfl := readDigits_fraction_eq_some h.fraction_digits hparts
  rw [Nat.ofDigitChars_append]
  unfold make? at hmake
  split at hmake
  next =>
    cases hmake
    exact ⟨rfl, Nat.zero_add _⟩
  next => cases hmake

/-- A literal with a fraction is a whole number just when the fraction is zero. -/
theorem toInt?_pointed {d : Decimal} {n : Int} (h : FractionDigits whole fraction)
    (hread : read? (pointed whole fraction) = some d) :
    d.toInt? = some n ↔ (∀ c ∈ fraction, c = '0') ∧ n = ofDigitChars 10 whole 0 := by
  obtain ⟨hcoefficient, hscale⟩ := read?_pointed h hread
  have hlt := ofDigitChars_lt h.fraction_digits
  have hpower : Int.pow 10 fraction.length = (Nat.pow 10 fraction.length : Nat) :=
    (Int.natCast_pow 10 _).symm
  rw [toInt?_eq_some, hcoefficient, hscale, hpower, ← ofDigitChars_eq_zero h.fraction_digits,
    Nat.ofDigitChars_append, Nat.ofDigitChars_eq_ofDigitChars_zero]
  exact natCast_eq_mul_iff hlt

end Decimal

namespace Json

theorem takeDigits_append {digits rest : List Char} (hne : digits ≠ [])
    (hdigits : ∀ c ∈ digits, c.isDigit = true) (hrest : ∀ c ∈ rest.head?, c.isDigit = false) :
    takeDigits (digits ++ rest) = some (digits, rest) := by
  have hrun := (span_run hdigits rest hrest).1
  simp [takeDigits, hrun, hne]

theorem takeWhole_pointed (h : FractionDigits whole fraction) {digits rest : List Char}
    (hread : takeWhole (pointed whole fraction) = some (digits, rest)) :
    rest = '.' :: fraction := by
  rw [takeWhole, pointed, takeDigits_append h.whole_ne h.whole_digits (by simp)] at hread
  simp only [Option.bind_eq_bind, Option.bind_some] at hread
  split at hread
  next => cases hread
  next => cases hread; rfl

/-- A number with a fraction is a double, whatever the fraction is. -/
theorem takeUnsigned_pointed {n : JsonNumber} {rest : List Char} (h : FractionDigits whole fraction)
    (hread : takeUnsigned false (pointed whole fraction) = some (n, rest)) : ∃ x, n = .real x := by
  obtain ⟨⟨digits, behind⟩, hwhole, hread⟩ := Option.bind_eq_some_iff.mp hread
  obtain rfl := takeWhole_pointed h hwhole
  have hfraction : takeFraction ('.' :: fraction) = some (fraction, []) := by
    have hdigits := @takeDigits_append fraction [] h.fraction_ne h.fraction_digits (by simp)
    rwa [List.append_nil] at hdigits
  have hempty : fraction.isEmpty = false := by simpa using h.fraction_ne
  simp only [hfraction, takeExponent, hempty, Option.bind_eq_bind, Option.bind_some,
    Bool.false_eq_true, false_and, if_false] at hread
  obtain ⟨x, _, hx⟩ := Option.bind_eq_some_iff.mp hread
  cases hx
  exact ⟨x, rfl⟩

theorem isSpace_of_isDigit {c : Char} (h : c.isDigit = true) : isSpace c = false := by
  by_contra hspace
  simp only [isSpace, Bool.or_eq_true, decide_eq_true_eq, Bool.not_eq_false] at hspace
  rcases hspace with ((rfl | rfl) | rfl) | rfl <;> cases h

theorem takeNumber_digit {c : Char} (hc : c.isDigit = true) (cs : List Char) :
    takeNumber (c :: cs) = takeUnsigned false (c :: cs) := by
  unfold takeNumber
  split
  next heq =>
    obtain ⟨rfl, _⟩ := List.cons.inj heq
    cases hc
  next => rfl

theorem takeValueWith_digit (inner : Option (List Char → Option (Json × List Char))) {c : Char}
    (hc : c.isDigit = true) (cs : List Char) : takeValueWith inner (c :: cs) =
      (takeUnsigned false (c :: cs)).map fun taken => (.number taken.1, taken.2) := by
  unfold takeValueWith
  split
  case h_7 => rw [takeNumber_digit hc, Option.map_eq_bind]; rfl
  all_goals
    next heq =>
      obtain ⟨rfl, _⟩ := List.cons.inj heq
      cases hc

/-- A text that starts with a digit is read as a number and as nothing else. -/
theorem read?_digit {depth : Nat} {c : Char} {cs : List Char} {n : JsonNumber}
    (hc : c.isDigit = true) : read? depth (c :: cs) = some (.number n) ↔
      ∃ rest, takeUnsigned false (c :: cs) = some (n, rest) ∧ (skipSpace rest).isEmpty = true := by
  have hskip : skipSpace (c :: cs) = c :: cs := by
    simp [skipSpace, isSpace_of_isDigit hc]
  have hvalue : takeValue depth (c :: cs) =
      (takeUnsigned false (c :: cs)).map fun taken => (.number taken.1, taken.2) := by
    cases depth <;> rw [takeValue, hskip, takeValueWith_digit _ hc]
  rw [read?, hvalue]
  cases takeUnsigned false (c :: cs) with
  | none => simp
  | some taken => simp [Prod.ext_iff, and_comm]

theorem read?_pointed {depth : Nat} {n : JsonNumber} (h : FractionDigits whole fraction)
    (hread : read? depth (pointed whole fraction) = some (.number n)) : ∃ x, n = .real x := by
  obtain ⟨c, cs, hhead, hc⟩ := numeral_head h.numeral
  rw [hhead] at hread
  obtain ⟨rest, hunsigned, _⟩ := (read?_digit hc).mp hread
  exact takeUnsigned_pointed h (hhead ▸ hunsigned)

end Json

/-- The filter that asks whether a field is equal to a number written with a fraction. -/
def equalsPointed (name whole fraction : List Char) : List Char :=
  name ++ " = ".toList ++ pointed whole fraction

theorem lexes_equalsPointed {name : List Char} (hname : IsName name)
    (h : FractionDigits whole fraction) :
    Lexes (equalsPointed name whole fraction)
      [⟨.identifier, name, .start⟩, Mark.equal.word,
        ⟨.number, pointed whole fraction, .start⟩] := by
  have hequal := (IsName.lexes hname).append (BinaryOp.lexes (.comparison .equal))
    (apart_right rfl (by decide) (by decide) (by decide))
  have hspace : (name ++ " = ".toList).getLast? = some ' ' := by
    rw [getLast?_append_of_ne_nil (by decide)]
    rfl
  exact hequal.append (Lexeme.number h.numeral).lexes
    (apart_left hspace (by decide) (by decide) (by decide))

theorem parseWhere_equalsPointed {name : List Char} {d : Decimal} (hname : IsName name)
    (h : FractionDigits whole fraction) (hread : Decimal.read? (pointed whole fraction) = some d) :
    parseWhere (equalsPointed name whole fraction) =
      .ok (.binary (.comparison .equal) (.property (.ofList name)) (.literal (.number d))) := by
  have hproperty : Item [⟨.identifier, name, .start⟩] (.property (.ofList name)) := .property rfl
  have hliteral : IsLiteral ⟨.number, pointed whole fraction, .start⟩ (.number d) :=
    .number rfl hread
  have hleft : Derives .comparison _ _ := (Derives.item hproperty).mono (by decide)
  have hright : Derives .operand _ _ := (Derives.item (.literal hliteral)).mono (by decide)
  have hequal : Test [Mark.equal.word] (.comparison .equal) := .comparison .equal rfl
  exact (parseWhere_of_lexes (lexes_equalsPointed hname h)).mpr
    ⟨(hleft.test hequal hright).mono (by decide), by simp [Expr.height, maxDepth],
      nested_of_flat (by simp [opens, Mark.word])⟩

/-- Whether a type is that of integers or booleans. -/
def FieldType.IsWhole : FieldType → Prop
  | .boolean => True
  | .integer _ => True
  | _ => False

namespace Datum

variable {type : FieldType} {d : Decimal}

theorem ofJson_real (htype : type.IsWhole) (x : Double) :
    ofJson type (.number (.real x)) = .null := by
  cases type with
  | boolean => rfl
  | integer => rfl
  | _ => exact htype.elim

theorem ofDecimal?_of_fraction (htype : type.IsWhole) (h : d.toInt? = none) :
    ofDecimal? type d = none := by
  cases type with
  | boolean =>
    cases hbit : bit? d with
    | none => rw [ofDecimal?, hbit, Option.map_none]
    | some b => simp [toInt?_of_bit? hbit] at h
  | integer => rw [ofDecimal?, h, Option.bind_none]
  | _ => exact htype.elim

/-- A literal with a fraction is a value where the fraction is zero and the number without it is a
value. -/
theorem ofDecimal?_pointed (htype : type.IsWhole) (h : FractionDigits whole fraction)
    (hread : Decimal.read? (pointed whole fraction) = some d) :
    (ofDecimal? type d).isSome = true ↔ (∀ c ∈ fraction, c = '0') ∧
      ofJson type (.number (.integer (ofDigitChars 10 whole 0))) ≠ .null := by
  by_cases hzero : ∀ c ∈ fraction, c = '0'
  · have hwhole := (Decimal.toInt?_pointed h hread).mpr ⟨hzero, rfl⟩
    have hdecimal : type ≠ .decimal := by
      rintro rfl
      exact htype
    rw [ofDecimal?_eq_ofJsonNumber? hwhole hdecimal, Ne, ofJson_eq_null_iff,
      Option.isSome_iff_ne_none]
    exact (and_iff_right hzero).symm
  · have hnone : d.toInt? = none := by
      rw [Option.eq_none_iff_forall_ne_some]
      exact fun n hn => hzero ((Decimal.toInt?_pointed h hread).mp hn).1
    simp [ofDecimal?_of_fraction htype hnone, hzero]

end Datum

namespace Condition

variable {s : Schema} {name : String} {i depth : Nat} {f : Field} {d : Decimal} {n : JsonNumber}

/-- A number that is written with a fraction has a filter for every field of integers or booleans
that has the whole number without a fraction, if the fraction is zero, and as a JSON number it is a
value of no such field. So the filter compiles for the same numbers as the field has, and matches
the object with such a number, just where it does not compile. -/
theorem fraction_read_alike_iff (hname : IsName name.toList) (hf : s.resolve name = some (i, f))
    (htype : f.type.IsWhole) (h : FractionDigits whole fraction)
    (hliteral : Decimal.read? (pointed whole fraction) = some d)
    (hjson : Json.read? depth (pointed whole fraction) = some (.number n)) :
    ∃ e, parseWhere (equalsPointed name.toList whole fraction) = .ok e ∧
      ((∃ k, ofExpr s e = .ok k) ↔ (∀ c ∈ fraction, c = '0') ∧
        Datum.ofJson f.type (.number (.integer (ofDigitChars 10 whole 0))) ≠ .null) ∧
      Datum.ofJson f.type (.number n) = .null ∧
      (((Datum.ofJson f.type (.number n) ≠ .null ↔ ∃ k, ofExpr s e = .ok k) ∧
        ∀ k, ofExpr s e = .ok k → k.holds (jsonRow s [(f.name, .number n)]) = true) ↔
          ¬∃ k, ofExpr s e = .ok k) := by
  have hparse := parseWhere_equalsPointed hname h hliteral
  rw [String.ofList_toList] at hparse
  obtain ⟨x, rfl⟩ := Json.read?_pointed h hjson
  have hnull := Datum.ofJson_real htype x
  refine ⟨_, hparse, ?_, hnull, ?_⟩
  · rw [← Datum.ofDecimal?_pointed htype h hliteral, Option.isSome_iff_exists]
    simp only [ofExpr_resolvedLiteral hf (c := .equal) (by simp [Comparison.isOrdering])]
    constructor
    · rintro ⟨_, d, hd, _⟩
      exact ⟨d, hd⟩
    · rintro ⟨d, hd⟩
      exact ⟨_, d, hd, rfl⟩
  · constructor
    · rintro ⟨hread, _⟩ hk
      exact hread.mpr hk hnull
    · intro hnone
      exact ⟨⟨fun hvalue => absurd hnull hvalue, fun hk => absurd hk hnone⟩,
        fun k hk => absurd ⟨k, hk⟩ hnone⟩

/-- A half is no bit to either reader. -/
theorem fraction_read_alike_iff_half :
    let s : Schema := ⟨[⟨"Qty", .integer .u8, true⟩, ⟨"On", .boolean, false⟩]⟩
    let n : JsonNumber := .real ⟨false, 4602678819172646912, by decide⟩
    IsName "on".toList ∧ s.resolve "on" = some (1, ⟨"On", .boolean, false⟩) ∧
      FractionDigits "0".toList "50".toList ∧
      Decimal.read? (pointed "0".toList "50".toList) = some ⟨50, 2, by decide, by decide⟩ ∧
      Json.read? 0 (pointed "0".toList "50".toList) = some (.number n) ∧
      ∃ e, parseWhere (equalsPointed "on".toList "0".toList "50".toList) = .ok e ∧
        (¬∃ k, ofExpr s e = .ok k) ∧ Datum.ofJson .boolean (.number n) = .null := by
  intro s n
  have hname : IsName "on".toList := ⟨by decide, List.all_eq_true.mp rfl, by decide⟩
  have hf : s.resolve "on" = some (1, ⟨"On", .boolean, false⟩) := by rfl
  have hdigits : FractionDigits "0".toList "50".toList :=
    ⟨by decide, List.all_eq_true.mp rfl, by decide, List.all_eq_true.mp rfl⟩
  have hliteral : Decimal.read? (pointed "0".toList "50".toList) =
      some ⟨50, 2, by decide, by decide⟩ := by rfl
  have hjson : Json.read? 0 (pointed "0".toList "50".toList) = some (.number n) :=
    (Json.read?_digit (by decide)).mpr ⟨[], by decide +kernel, by decide⟩
  obtain ⟨e, he, hcompiles, hnull, _⟩ :=
    fraction_read_alike_iff hname hf trivial hdigits hliteral hjson
  refine ⟨hname, hf, hdigits, hliteral, hjson, e, he, fun hk => ?_, hnull⟩
  exact absurd ((hcompiles.mp hk).1 '5' (by decide)) (by decide)

/-- The number 1.0 is the integer one in a filter, and no integer in a JSON object. -/
theorem one_with_fraction_read_apart :
    let s : Schema := ⟨[⟨"N", .integer .i32, false⟩]⟩
    let n : JsonNumber := .real (.ofInt 1)
    Json.read? 0 "1.0".toList = some (.number n) ∧
      Datum.ofJson (.integer .i32) (.number n) = .null ∧
      ∃ e k, parseWhere "N = 1.0".toList = .ok e ∧ ofExpr s e = .ok k ∧
        k.holds (jsonRow s [("N", .number n)]) = false ∧
        k.holds (jsonRow s [("N", .number (.integer 1))]) = true := by
  intro s n
  have hname : IsName "N".toList := ⟨by decide, by simp, by decide⟩
  have hdigits : FractionDigits "1".toList "0".toList :=
    ⟨by decide, List.all_eq_true.mp rfl, by decide, List.all_eq_true.mp rfl⟩
  have hliteral : Decimal.read? (pointed "1".toList "0".toList) =
      some ⟨10, 1, by decide, by decide⟩ := by rfl
  have hparse := parseWhere_equalsPointed hname hdigits hliteral
  have hjson : Json.read? 0 "1.0".toList = some (.number n) :=
    (Json.read?_digit (by decide)).mpr ⟨[], by decide +kernel, by decide⟩
  exact ⟨hjson, by rfl, _, .compare .equal (.field 0) (.value (.integer 1)), hparse, by rfl,
    by rfl, by rfl⟩

end Condition

end RowFilter
