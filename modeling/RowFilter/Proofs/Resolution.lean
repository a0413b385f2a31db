import RowFilter.Condition.OfExpr
import RowFilter.Proofs.Failure

namespace RowFilter

/-- The truth value that a literal stands for beside a condition. -/
def Literal.truth? : Literal → Option Bool
  | .boolean b => some b
  | .number d => Datum.bit? d
  | _ => none

namespace Condition

variable {s : Schema} {f : Field} {c : Comparison} {k : Condition}

theorem fieldOf_eq_ok {name : String} {found : Nat × Field} :
    fieldOf s name = .ok found ↔ s.resolve name = some found := by
  unfold fieldOf
  cases s.resolve name <;> simp

theorem coerce_eq_ok {l : Literal} {d : Datum} :
    coerce f l = .ok d ↔ Datum.ofLiteral? f l = some d := by
  unfold coerce
  cases Datum.ofLiteral? f l <;> simp [mismatch]

theorem coerceAll_eq_ok {ls : List Literal} {ds : List Datum} :
    coerceAll f ls = .ok ds ↔ ls.map (Datum.ofLiteral? f) = ds.map some := by
  induction ls generalizing ds with
  | nil => cases ds <;> simp [coerceAll]
  | cons l ls ih =>
    simp only [coerceAll, bind_eq_ok, coerce_eq_ok, ih, pure_eq_ok]
    constructor
    · rintro ⟨d, hd, rest, hrest, rfl⟩
      simp [hd, hrest]
    · intro h
      obtain ⟨d, rest, rfl, hd, hrest⟩ := List.map_eq_cons_iff.mp h.symm
      exact ⟨d, hd.symm, rest, hrest.symm, rfl⟩

theorem checkOrder_eq_ok {type : FieldType} {u : Unit} :
    checkOrder c type = .ok u ↔ (c.isOrdering = true → type ≠ .boolean) := by
  unfold checkOrder
  split <;> simp_all [mismatch]

theorem termOf_eq_ok {r : Resolved} {t : Term} : termOf r = .ok t ↔ r = .term t := by
  cases r <;> simp [termOf, mismatch]

/-- A field, a literal or a condition that is used as a condition. -/
inductive Usable : Resolved → Condition → Prop
  | field {i : Nat} {f : Field} : f.type = .boolean → Usable (.term (.field i f)) (.field i)
  | literal (b : Bool) : Usable (.term (.literal (.boolean b))) (.literal b)
  | condition (k : Condition) : Usable (.term (.condition k)) k

theorem ofResolved_eq_ok {r : Resolved} : ofResolved r = .ok k ↔ Usable r k := by
  constructor
  · intro h
    unfold ofResolved at h
    split at h
    next i f =>
      split at h
      next hf => cases h; exact .field hf
      next => cases h
    next b => cases h; exact .literal b
    next => cases h
    next => cases h; exact .condition _
    next => cases h
  · intro h
    cases h with
    | field hf => simp [ofResolved, hf]
    | literal b => rfl
    | condition k => rfl

/-- What stands beside a condition in a comparison. -/
inductive Beside : Term → Operand → Prop
  | condition (k : Condition) : Beside (.condition k) (.test k)
  | field {i : Nat} {f : Field} : f.type = .boolean → Beside (.field i f) (.field i)
  | literal {l : Literal} {b : Bool} : l.truth? = some b →
      Beside (.literal l) (.value (.boolean b))

theorem booleanOperand_eq_ok {t : Term} {o : Operand} :
    booleanOperand t = .ok o ↔ Beside t o := by
  constructor
  · intro h
    unfold booleanOperand at h
    split at h
    next k => cases h; exact .condition k
    next i f =>
      split at h
      next hf => cases h; exact .field hf
      next => cases h
    next b => cases h; exact .literal rfl
    next d =>
      split at h
      next b hb => cases h; exact .literal hb
      next => cases h
    next => cases h
  · intro h
    cases h with
    | condition k => rfl
    | field hf => simp [booleanOperand, hf]
    | @literal l b hl =>
      cases l with
      | null => simp [Literal.truth?] at hl
      | boolean a => cases hl; rfl
      | number d =>
        have hbit : Datum.bit? d = some b := hl
        simp [booleanOperand, hbit]
      | string t => simp [Literal.truth?] at hl

/-- Two terms that can be compared, with the condition that the comparison is. -/
inductive Compared (c : Comparison) : Term → Term → Condition → Prop
  | fieldLiteral {i : Nat} {f : Field} {l : Literal} {d : Datum} :
      (c.isOrdering = true → f.type ≠ .boolean) → Datum.ofLiteral? f l = some d →
      Compared c (.field i f) (.literal l) (.compare c (.field i) (.value d))
  | literalField {i : Nat} {f : Field} {l : Literal} {d : Datum} :
      (c.isOrdering = true → f.type ≠ .boolean) → Datum.ofLiteral? f l = some d →
      Compared c (.literal l) (.field i f) (.compare c (.value d) (.field i))
  | fields {i j : Nat} {f g : Field} : f.type.isComparableWith g.type = true →
      (c.isOrdering = true → f.type ≠ .boolean) →
      Compared c (.field i f) (.field j g) (.compare c (.field i) (.field j))
  | literals {a b : Literal} : literalsCompare a b = true →
      (c.isOrdering = true → ∀ x, a ≠ .boolean x) →
      Compared c (.literal a) (.literal b)
        (.literal (c.holds (Datum.ofLiteral a) (Datum.ofLiteral b)))
  | conditionLeft {k : Condition} {t : Term} {o : Operand} : c.isOrdering = false → Beside t o →
      Compared c (.condition k) t (.compare c (.test k) o)
  | conditionRight {k : Condition} {t : Term} {o : Operand} : c.isOrdering = false →
      Beside t o → Compared c t (.condition k) (.compare c o (.test k))

theorem ofLiterals_eq_ok {a b : Literal} : ofLiterals c a b = .ok k ↔
    literalsCompare a b = true ∧ (c.isOrdering = true → ∀ x, a ≠ .boolean x) ∧
      k = .literal (c.holds (Datum.ofLiteral a) (Datum.ofLiteral b)) := by
  unfold ofLiterals
  by_cases h : literalsCompare a b = true
  · cases a with
    | boolean x =>
      simp only [h, Bool.not_true, Bool.false_eq_true, if_false, bind_eq_ok, pure_eq_ok,
        checkOrder_eq_ok]
      constructor
      · rintro ⟨_, ho, rfl⟩
        exact ⟨trivial, fun hc => absurd rfl (ho hc), rfl⟩
      · rintro ⟨_, ho, rfl⟩
        exact ⟨(), fun hc => absurd rfl (ho hc x), rfl⟩
    | _ =>
      simp only [h, Bool.not_true, Bool.false_eq_true, if_false, bind_eq_ok, pure_eq_ok]
      simp [@eq_comm _ k]
  · simp [h, mismatch]

theorem ofTerms_eq_ok {t u : Term} : ofTerms c t u = .ok k ↔ Compared c t u k := by
  constructor
  · intro h
    unfold ofTerms at h
    split at h
    next i f l =>
      obtain ⟨_, ho, d, hd, rfl⟩ := by simpa only [bind_eq_ok, pure_eq_ok] using h
      exact .fieldLiteral (checkOrder_eq_ok.mp ho) (coerce_eq_ok.mp hd)
    next l i f =>
      obtain ⟨_, ho, d, hd, rfl⟩ := by simpa only [bind_eq_ok, pure_eq_ok] using h
      exact .literalField (checkOrder_eq_ok.mp ho) (coerce_eq_ok.mp hd)
    next i f j g =>
      split at h
      next => cases h
      next hfg =>
        obtain ⟨_, ho, rfl⟩ := by simpa only [bind_eq_ok, pure_eq_ok] using h
        exact .fields (by simpa using hfg) (checkOrder_eq_ok.mp ho)
    next a b =>
      obtain ⟨hab, ho, rfl⟩ := ofLiterals_eq_ok.mp h
      exact .literals hab ho
    next p t =>
      obtain ⟨_, ho, o, hb, rfl⟩ := by simpa only [bind_eq_ok, pure_eq_ok] using h
      exact .conditionLeft (by simpa using checkOrder_eq_ok.mp ho) (booleanOperand_eq_ok.mp hb)
    next t p _ =>
      obtain ⟨_, ho, o, hb, rfl⟩ := by simpa only [bind_eq_ok, pure_eq_ok] using h
      exact .conditionRight (by simpa using checkOrder_eq_ok.mp ho) (booleanOperand_eq_ok.mp hb)
  · intro h
    cases h with
    | fieldLiteral ho hd =>
      simp only [ofTerms, bind_eq_ok, pure_eq_ok]
      exact ⟨(), checkOrder_eq_ok.mpr ho, _, coerce_eq_ok.mpr hd, rfl⟩
    | literalField ho hd =>
      simp only [ofTerms, bind_eq_ok, pure_eq_ok]
      exact ⟨(), checkOrder_eq_ok.mpr ho, _, coerce_eq_ok.mpr hd, rfl⟩
    | fields hfg ho =>
      simp only [ofTerms, hfg, Bool.not_true, Bool.false_eq_true, if_false, bind_eq_ok, pure_eq_ok]
      exact ⟨(), checkOrder_eq_ok.mpr ho, trivial⟩
    | literals hab ho => exact ofLiterals_eq_ok.mpr ⟨hab, ho, rfl⟩
    | conditionLeft ho hb =>
      simp only [ofTerms, bind_eq_ok, pure_eq_ok]
      exact ⟨(), checkOrder_eq_ok.mpr (by simp [ho]), _, booleanOperand_eq_ok.mpr hb, rfl⟩
    | @conditionRight p t o ho hb =>
      have hc : checkOrder c .boolean = .ok () := checkOrder_eq_ok.mpr (by simp [ho])
      have hb' := booleanOperand_eq_ok.mpr hb
      cases hb <;> simp only [ofTerms, bind_eq_ok, pure_eq_ok]
      · exact ⟨(), hc, _, rfl, rfl⟩
      · exact ⟨(), hc, _, hb', rfl⟩
      · exact ⟨(), hc, _, hb', rfl⟩

end Condition

end RowFilter
