import Mathlib.Data.List.Forall2
import RowFilter.Proofs.JsonRows
import RowFilter.Proofs.SameContent

namespace RowFilter

/-- A literal and another one with a bit for a boolean. Other literals stay. -/
inductive Literal.AsBit : Literal → Literal → Prop
  | null : AsBit .null .null
  | boolean {b : Bool} {d : Decimal} : Datum.bit? d = some b → AsBit (.boolean b) (.number d)
  | number (d : Decimal) : AsBit (.number d) (.number d)
  | string (s : String) : AsBit (.string s) (.string s)

/-- Two expressions, of which the second has bits for all the booleans that are compared or listed.
The index says whether the expression is itself compared. -/
inductive Expr.AsBits : Bool → Expr → Expr → Prop
  | property (compared : Bool) (name : String) : AsBits compared (.property name) (.property name)
  | literal (l : Literal) : AsBits false (.literal l) (.literal l)
  | compared {l m : Literal} : l.AsBit m → AsBits true (.literal l) (.literal m)
  | array (compared : Bool) {ls ms : List Literal} : List.Forall₂ Literal.AsBit ls ms →
      AsBits compared (.array ls) (.array ms)
  | unary (compared : Bool) (op : UnaryOp) {e e' : Expr} : AsBits false e e' →
      AsBits compared (.unary op e) (.unary op e')
  | binary (compared : Bool) (op : BinaryOp) {l l' r r' : Expr} :
      AsBits op.comparison?.isSome l l' → AsBits op.comparison?.isSome r r' →
      AsBits compared (.binary op l r) (.binary op l' r')

/-- What two such expressions stand for. Only a literal that is compared is not the same. -/
inductive Resolved.AsBits : Bool → Resolved → Resolved → Prop
  | refl {r : Resolved} : AsBits false r r
  | array (compared : Bool) : AsBits compared .array .array
  | field (compared : Bool) (i : Nat) (f : Field) :
      AsBits compared (.term (.field i f)) (.term (.field i f))
  | condition (compared : Bool) (k : Condition) :
      AsBits compared (.term (.condition k)) (.term (.condition k))
  | literal {l m : Literal} : l.AsBit m → AsBits true (.term (.literal l)) (.term (.literal m))

namespace Literal.AsBit

variable {l m : Literal} {f : Field} {d : Datum}

/-- A boolean has a value only for boolean fields, for which a bit has the same. -/
theorem coerced (h : l.AsBit m) (hd : Datum.ofLiteral? f l = some d) :
    Datum.ofLiteral? f m = some d := by
  cases h with
  | @boolean b n hn =>
    simp only [Datum.ofLiteral?, Option.ite_none_right_eq_some, Option.some.injEq] at hd
    obtain ⟨htype, rfl⟩ := hd
    simp only [Datum.ofLiteral?, Datum.ofDecimal?, htype, hn, Option.map_some]
  | _ => exact hd

theorem truth (h : l.AsBit m) {b : Bool} (hb : l.truth? = some b) : m.truth? = some b := by
  cases h with
  | boolean hn => cases hb; exact hn
  | _ => exact hb

end Literal.AsBit

/-- The elements of a list have the same values. -/
theorem Literal.coerced_of_forall {f : Field} {ls ms : List Literal} {ds : List Datum}
    (h : List.Forall₂ AsBit ls ms) (hds : ls.map (Datum.ofLiteral? f) = ds.map some) :
    ms.map (Datum.ofLiteral? f) = ds.map some := by
  induction h generalizing ds with
  | nil => exact hds
  | cons hl _ ih =>
    obtain ⟨d, rest, rfl, hd, hrest⟩ := List.map_eq_cons_iff.mp hds.symm
    rw [List.map_cons, hl.coerced hd.symm, ih hrest.symm, List.map_cons]

theorem Datum.same_of_bits {d e : Decimal} {a b : Bool} (hd : bit? d = some a)
    (he : bit? e = some b) : d.same e = true ↔ a = b := by
  rw [Decimal.same_iff_of_toInt? (toInt?_of_bit? hd) (toInt?_of_bit? he)]
  cases a <;> cases b <;> decide

theorem Datum.equals_bits {d e : Decimal} {a b : Bool} (hd : bit? d = some a)
    (he : bit? e = some b) : (decimal d).equals (decimal e) = (boolean a).equals (boolean b) := by
  have hsame := same_of_bits hd he
  simpa [equals, order?, Decimal.same] using hsame

/-- A comparison does not ask for more than the order and the equality. -/
theorem Comparison.holds_congr {c : Comparison} {x y x' y' : Datum}
    (horder : c.isOrdering = true → x.order? y = x'.order? y')
    (hequals : x.equals y = x'.equals y') : c.holds x y = c.holds x' y' := by
  cases c with
  | equal => exact hequals
  | notEqual => exact congrArg (!·) hequals
  | _ => simp only [holds, horder rfl]

namespace Condition

variable {s : Schema} {e e' : Expr} {r r' : Resolved} {k : Condition} {c : Comparison}
  {compared : Bool} {a a' b b' : Literal} {t t' u u' : Term} {o : Operand}

/-- Literals that are compared are both booleans or neither of them, null aside. -/
theorem ofLiterals_asBit (ha : a.AsBit a') (hb : b.AsBit b') (h : ofLiterals c a b = .ok k) :
    ofLiterals c a' b' = .ok k := by
  obtain ⟨hkinds, hordering, rfl⟩ := ofLiterals_eq_ok.mp h
  cases ha with
  | boolean hd =>
    have hplain : c.isOrdering = false := by simpa using hordering
    cases hb with
    | boolean he =>
      refine ofLiterals_eq_ok.mpr ⟨rfl, by simp, congrArg literal ?_⟩
      exact Comparison.holds_congr (by simp [hplain]) (Datum.equals_bits hd he).symm
    | null =>
      refine ofLiterals_eq_ok.mpr ⟨rfl, by simp, congrArg literal ?_⟩
      exact Comparison.holds_congr (fun _ => rfl) rfl
    | _ => cases hkinds
  | null =>
    refine ofLiterals_eq_ok.mpr ⟨by simp [literalsCompare], by simp, congrArg literal ?_⟩
    cases hb with
    | boolean he => exact Comparison.holds_congr (fun _ => rfl) rfl
    | _ => rfl
  | _ =>
    cases hb with
    | boolean he => cases hkinds
    | _ => exact h

theorem exists_term_of_asBits (h : Resolved.AsBits compared (.term t) r) : ∃ u, r = .term u := by
  cases h <;> exact ⟨_, rfl⟩

theorem Beside.asBits (h : Beside t o) (ht : Resolved.AsBits true (.term t) (.term t')) :
    Beside t' o := by
  cases h with
  | literal hl =>
    cases ht with
    | literal hlm => exact .literal (hlm.truth hl)
  | field htype => cases ht; exact .field htype
  | condition k => cases ht; exact .condition k

/-- A bit meets a field, a literal or a condition as the boolean in whose place it stands. -/
theorem Compared.asBits (h : Compared c t u k) (ht : Resolved.AsBits true (.term t) (.term t'))
    (hu : Resolved.AsBits true (.term u) (.term u')) : Compared c t' u' k := by
  cases h with
  | fieldLiteral ho hd =>
    cases ht
    cases hu with
    | literal hl => exact .fieldLiteral ho (hl.coerced hd)
  | literalField ho hd =>
    cases hu
    cases ht with
    | literal hl => exact .literalField ho (hl.coerced hd)
  | fields htypes ho => cases ht; cases hu; exact .fields htypes ho
  | literals hkinds ho =>
    cases ht with
    | literal ha =>
      cases hu with
      | literal hb =>
        exact ofTerms_eq_ok.mp (ofLiterals_asBit ha hb (ofLiterals_eq_ok.mpr ⟨hkinds, ho, rfl⟩))
  | conditionLeft ho hbeside => cases ht; exact .conditionLeft ho (hbeside.asBits hu)
  | conditionRight ho hbeside => cases hu; exact .conditionRight ho (hbeside.asBits ht)

theorem Usable.asBits (h : Usable r k) (hr : r.AsBits false r') : Usable r' k := by
  cases hr <;> exact h

/-- What is not compared stands for the same, and what is compared for a term that fits where the
one with booleans does. -/
theorem stated_asBits (h : Stated s e r) (he : e.AsBits compared e') :
    ∃ r', Stated s e' r' ∧ r.AsBits compared r' := by
  induction h generalizing compared e' with
  | property hf =>
    cases he
    exact ⟨_, .property hf, .field _ _ _⟩
  | literal l =>
    cases he with
    | literal => exact ⟨_, .literal l, .refl⟩
    | compared hl => exact ⟨_, .literal _, .literal hl⟩
  | array ls =>
    cases he
    exact ⟨_, .array _, .array _⟩
  | not _ hk ih =>
    cases he with
    | unary _ _ he =>
      obtain ⟨_, hr', hbits⟩ := ih he
      exact ⟨_, .not hr' (hk.asBits hbits), .condition _ _⟩
  | isNull hf =>
    cases he with
    | unary _ _ he => cases he; exact ⟨_, .isNull hf, .condition _ _⟩
  | isNotNull hf =>
    cases he with
    | unary _ _ he => cases he; exact ⟨_, .isNotNull hf, .condition _ _⟩
  | and _ hp _ hq ihl ihr =>
    cases he with
    | binary _ _ hl hr =>
      obtain ⟨_, ha, habits⟩ := ihl hl
      obtain ⟨_, hb, hbbits⟩ := ihr hr
      exact ⟨_, .and ha (hp.asBits habits) hb (hq.asBits hbbits), .condition _ _⟩
  | or _ hp _ hq ihl ihr =>
    cases he with
    | binary _ _ hl hr =>
      obtain ⟨_, ha, habits⟩ := ihl hl
      obtain ⟨_, hb, hbbits⟩ := ihr hr
      exact ⟨_, .or ha (hp.asBits habits) hb (hq.asBits hbbits), .condition _ _⟩
  | like negated text hf htype =>
    cases he with
    | binary _ _ hl hr =>
      cases hl
      cases hr
      exact ⟨_, .like negated text hf htype, .condition _ _⟩
  | among negated hf hds =>
    cases he with
    | binary _ _ hl hr =>
      cases hl
      cases hr with
      | array _ hls =>
        exact ⟨_, .among negated hf (Literal.coerced_of_forall hls hds), .condition _ _⟩
  | comparison _ _ hk ihl ihr =>
    cases he with
    | binary _ _ hl hr =>
      obtain ⟨_, hl', hlbits⟩ := ihl hl
      obtain ⟨_, hr', hrbits⟩ := ihr hr
      obtain ⟨_, rfl⟩ := exists_term_of_asBits hlbits
      obtain ⟨_, rfl⟩ := exists_term_of_asBits hrbits
      exact ⟨_, .comparison hl' hr' (hk.asBits hlbits hrbits), .condition _ _⟩

/-- The condition of an expression is that of the expression with bits. -/
theorem ofExpr_asBits (h : ofExpr s e = .ok k) (he : e.AsBits false e') : ofExpr s e' = .ok k := by
  obtain ⟨_, hr, hk⟩ := ofExpr_eq_ok.mp h
  obtain ⟨_, hr', hbits⟩ := stated_asBits hr he
  exact ofExpr_eq_ok.mpr ⟨_, hr', hk.asBits hbits⟩

end Condition

theorem Datum.same_self {d : Datum} (h : d.isNaN = false) : d.same d = true := by
  cases d <;> simp_all [same, isNaN, Double.same, Double.order?, Decimal.same, Decimal.order]

theorem sameValues_self {ds : List Datum} (h : ∀ d ∈ ds, d.isNaN = false) :
    sameValues ds ds = true := by
  induction ds with
  | nil => rfl
  | cons d ds ih =>
    obtain ⟨hd, hds⟩ := List.forall_mem_cons.mp h
    simp only [sameValues, Datum.same_self hd, ih hds, Bool.and_self]

mutual

/-- A condition with numbers only is built like itself. -/
theorem Condition.same_self : ∀ k : Condition,
    (∀ n ∈ k.parts, ∀ d ∈ n.ownValues, d.isNaN = false) → k.same k = true
  | .literal _, _ => by simp [Condition.same]
  | .field _, _ => by simp [Condition.same]
  | .like _ _, _ => by simp [Condition.same]
  | .among i values, h => by
    have hvalues : sameValues values values = true :=
      sameValues_self (h (.among i values) (by simp [Condition.parts]))
    simp [Condition.same, hvalues]
  | .compare _ l r, h => by
    obtain ⟨hown, hparts⟩ := List.forall_mem_cons.mp h
    obtain ⟨hl, hr⟩ := List.forall_mem_append.mp hown
    obtain ⟨hlparts, hrparts⟩ := List.forall_mem_append.mp hparts
    simp [Condition.same, Operand.same_self l hl hlparts, Operand.same_self r hr hrparts]
  | .not c, h => by
    simpa [Condition.same] using Condition.same_self c (List.forall_mem_cons.mp h).2
  | .and l r, h => by
    obtain ⟨hl, hr⟩ := List.forall_mem_append.mp (List.forall_mem_cons.mp h).2
    simp [Condition.same, Condition.same_self l hl, Condition.same_self r hr]
  | .or l r, h => by
    obtain ⟨hl, hr⟩ := List.forall_mem_append.mp (List.forall_mem_cons.mp h).2
    simp [Condition.same, Condition.same_self l hl, Condition.same_self r hr]

theorem Operand.same_self : ∀ o : Operand, (∀ d ∈ o.ownValues, d.isNaN = false) →
    (∀ n ∈ o.parts, ∀ d ∈ n.ownValues, d.isNaN = false) → o.same o = true
  | .field _, _, _ => by simp [Operand.same]
  | .value d, h, _ => by
    simpa [Operand.same] using Datum.same_self (h d (List.mem_singleton.mpr rfl))
  | .test c, _, h => by simpa [Operand.same] using Condition.same_self c h

end

/-- An expression with bits for booleans that are compared or listed compiles where the one with
booleans does, and to the same condition. The comparison of the two finds no difference either. -/
theorem Condition.bits_for_booleans {s : Schema} {e e' : Expr} {k : Condition}
    (h : ofExpr s e = .ok k) (he : e.AsBits false e') :
    ofExpr s e' = .ok k ∧ k.same k = true :=
  ⟨ofExpr_asBits h he, same_self k fun _ hn => isNaN_ownValues h hn⟩

/-- Bits with and without a fraction stand beside a condition, beside a field and in a list. -/
theorem Condition.bits_for_booleans_switch :
    let s : Schema := ⟨[⟨"On", .boolean, true⟩, ⟨"Qty", .integer .u8, false⟩]⟩
    let zero : Decimal := ⟨0, 2, by decide, by decide⟩
    let stocked : Expr :=
      .binary (.comparison .greater) (.property "Qty") (.literal (.number .zero))
    let written (yes no : Literal) : Expr := .binary (.connective .or)
      (.unary .not (.binary (.comparison .notEqual) stocked (.literal yes)))
      (.binary (.connective .and)
        (.binary (.comparison .equal) (.literal no) (.property "On"))
        (.binary (.among false) (.property "On") (.array [yes, .null, no])))
    let k : Condition := .or
      (.not (.compare .notEqual (.test (.compare .greater (.field 1) (.value (.integer 0))))
        (.value (.boolean true))))
      (.and (.compare .equal (.value (.boolean false)) (.field 0))
        (.among 0 [.boolean true, .null, .boolean false]))
    ofExpr s (written (.boolean true) (.boolean false)) = .ok k ∧
      (written (.boolean true) (.boolean false)).AsBits false
        (written (.number .one) (.number zero)) ∧
      ofExpr s (written (.number .one) (.number zero)) = .ok k ∧ k.same k = true := by
  intro s zero stocked written k
  have hk : ofExpr s (written (.boolean true) (.boolean false)) = .ok k := by rfl
  have hyes : Literal.AsBit (.boolean true) (.number .one) := .boolean (by decide)
  have hno : Literal.AsBit (.boolean false) (.number zero) := .boolean (by decide)
  have hstocked : stocked.AsBits true stocked :=
    .binary _ _ (.property _ _) (.compared (.number _))
  have hwritten : (written (.boolean true) (.boolean false)).AsBits false
      (written (.number .one) (.number zero)) := by
    refine .binary _ _ (.unary _ _ (.binary _ _ hstocked (.compared hyes))) ?_
    refine .binary _ _ (.binary _ _ (.compared hno) (.property _ _)) ?_
    exact .binary _ _ (.property _ _) (.array _ (.cons hyes (.cons .null (.cons hno .nil))))
  exact ⟨hk, hwritten, bits_for_booleans hk hwritten⟩

end RowFilter
