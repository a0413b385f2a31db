import RowFilter.Proofs.Comparable
import RowFilter.Proofs.Reading

namespace RowFilter

/-- Answers to the six comparisons of two values that belong to one order. -/
structure OneOrder (a b : Datum) (answer : Comparison → Bool) : Prop where
  /-- Of numbers and other values exactly one of the three relations holds. -/
  one : a ≠ .null → b ≠ .null → a.isNaN = false → b.isNaN = false →
    [Comparison.less, .equal, .greater].countP answer = 1 ∧
      answer .lessOrEqual = (answer .less || answer .equal) ∧
      answer .greaterOrEqual = (answer .greater || answer .equal)
  /-- Null comes before and after nothing and is equal to null only. -/
  null : a = .null ∨ b = .null → (∀ c, c.isOrdering = true → answer c = false) ∧
    (answer .equal = true ↔ a = .null ∧ b = .null)
  notEqual : answer .notEqual = !answer .equal

namespace Datum

variable {a b : Datum}

theorem order?_null (h : a = .null ∨ b = .null) : a.order? b = none := by
  rcases h with rfl | rfl
  · rfl
  · cases a <;> rfl

theorem equals_eq_true_of_null (h : a = .null ∨ b = .null) :
    a.equals b = true ↔ a = .null ∧ b = .null := by
  by_cases ha : a = .null
  · subst ha
    cases b <;> simp [equals, order?]
  · rw [equals_eq fun hboth => ha hboth.1, order?_null h]
    simp [ha]

/-- Two values that can be compared are compared by one order. -/
theorem oneOrder_of_meets (h : a.Meets b) : OneOrder a b fun c => c.holds a b where
  one := by
    intro ha hb hnana hnanb
    have hsome : a.order? b ≠ none := by
      intro hnone
      rcases h with hnull | hnull | ⟨_, hnan⟩
      · exact ha hnull
      · exact hb hnull
      · simpa [hnana, hnanb] using hnan hnone
    obtain ⟨o, ho⟩ := Option.ne_none_iff_exists'.mp hsome
    have hequals : a.equals b = decide (a.order? b = some .eq) :=
      equals_eq fun hboth => ha hboth.1
    cases o <;> simp [Comparison.holds, hequals, ho]
  null := by
    intro hnull
    have hnone := order?_null hnull
    refine ⟨fun c hc => ?_, equals_eq_true_of_null hnull⟩
    cases c with
    | equal => cases hc
    | notEqual => cases hc
    | _ => simp [Comparison.holds, hnone]
  notEqual := rfl

end Datum

/-- The value that an operand has beside the other one of a comparison. -/
def Expr.operandIn (s : Schema) (row : Row) (e other : Expr) : Datum :=
  e.valueBeside s row other (e.holdsOf s row)

namespace Condition

variable {s : Schema} {row : Row} {l r : Expr} {t u : Term} {k : Condition}

/-- What can be ordered can be compared in all ways. -/
theorem compared_of_ordered (h : Compared .less t u k) (c : Comparison) :
    ∃ k, Compared c t u k := by
  -- An ordering asks that the types have an order, and no comparison asks for more.
  cases h with
  | fieldLiteral ho hd => exact ⟨_, .fieldLiteral (fun _ => ho rfl) hd⟩
  | literalField ho hd => exact ⟨_, .literalField (fun _ => ho rfl) hd⟩
  | fields hfg ho => exact ⟨_, .fields hfg (fun _ => ho rfl)⟩
  | literals hab ho => exact ⟨_, .literals hab (fun _ => ho rfl)⟩
  | conditionLeft ho _ => cases ho
  | conditionRight ho _ => cases ho

theorem kindName_ofLiteral {a b : Literal} (h : a.kindName = b.kindName) :
    (Datum.ofLiteral a).kindName = (Datum.ofLiteral b).kindName := by
  cases a <;> cases b <;> first | rfl | simp [Literal.kindName] at h

theorem meets_of_literals {a b : Literal} (h : literalsCompare a b = true) :
    (Datum.ofLiteral a).Meets (Datum.ofLiteral b) := by
  by_cases ha : a = .null
  · exact .inl (by rw [ha]; rfl)
  · by_cases hb : b = .null
    · exact .inr (.inl (by rw [hb]; rfl))
    · have hkind : a.kindName = b.kindName := by simpa [literalsCompare, ha, hb] using h
      apply Datum.meets_of_comparable
      simp [Datum.isComparableWith, kindName_ofLiteral hkind]

/-- The values of operands that can be ordered can be compared on a conforming row. -/
theorem meets_of_ordered (hrow : s.Admits row) (hl : ReadAs s row l (.term t))
    (hr : ReadAs s row r (.term u)) (h : Compared .less t u k) :
    (l.operandIn s row r).Meets (r.operandIn s row l) := by
  unfold Expr.operandIn
  cases h with
  | fieldLiteral _ hd =>
    obtain ⟨name, rfl, hf⟩ := hl
    cases hr
    have hfield := Field.isOf_of_admits (hrow.resolved hf)
    have hvalue := Field.isOf_of_admits (Datum.admits_ofLiteral? hd)
    simp only [Expr.valueBeside, Expr.literalBeside, s.valueOf_of_resolve hf,
      s.coerced_of_resolve hf hd]
    exact Datum.meets_of_isOf hfield hvalue (FieldType.isComparableWith_self _)
  | literalField _ hd =>
    obtain ⟨name, rfl, hf⟩ := hr
    cases hl
    have hfield := Field.isOf_of_admits (hrow.resolved hf)
    have hvalue := Field.isOf_of_admits (Datum.admits_ofLiteral? hd)
    simp only [Expr.valueBeside, Expr.literalBeside, s.valueOf_of_resolve hf,
      s.coerced_of_resolve hf hd]
    exact Datum.meets_of_isOf hvalue hfield (FieldType.isComparableWith_self _)
  | fields hfg _ =>
    obtain ⟨name, rfl, hf⟩ := hl
    obtain ⟨other, rfl, hg⟩ := hr
    have hleft := Field.isOf_of_admits (hrow.resolved hf)
    have hright := Field.isOf_of_admits (hrow.resolved hg)
    simp only [Expr.valueBeside, s.valueOf_of_resolve hf, s.valueOf_of_resolve hg]
    exact Datum.meets_of_isOf hleft hright hfg
  | literals hab _ =>
    cases hl
    cases hr
    exact meets_of_literals hab
  | conditionLeft ho _ => cases ho
  | conditionRight ho _ => cases ho

/-- Two operands for which `<` has a condition have conditions for all six comparisons, and on every
conforming row these answer as one order does. -/
theorem oneOrder_of_less (h : ofExpr s (.binary (.comparison .less) l r) = .ok k) :
    (∀ c, ∃ m, ofExpr s (.binary (.comparison c) l r) = .ok m) ∧
      ∀ m : Comparison → Condition,
        (∀ c, ofExpr s (.binary (.comparison c) l r) = .ok (m c)) → ∀ row, s.Admits row →
          OneOrder (l.operandIn s row r) (r.operandIn s row l) fun c => (m c).holds row := by
  obtain ⟨t, u, hl, hr, hless⟩ := ofExpr_comparison.mp h
  refine ⟨fun c => ?_, fun m hm row hrow => ?_⟩
  · obtain ⟨m, hm⟩ := compared_of_ordered hless c
    exact ⟨m, ofExpr_comparison.mpr ⟨t, u, hl, hr, hm⟩⟩
  · have hholds : (fun c => (m c).holds row) =
        fun c => c.holds (l.operandIn s row r) (r.operandIn s row l) := by
      funext c
      obtain ⟨v, w, hv, hw, hc⟩ := ofExpr_comparison.mp (hm c)
      exact holds_of_compared (readAs_of_stated hrow hv) (readAs_of_stated hrow hw) hc
    rw [hholds]
    exact Datum.oneOrder_of_meets
      (meets_of_ordered hrow (readAs_of_stated hrow hl) (readAs_of_stated hrow hr) hless)

theorem oneOrder_of_less_ratio :
    let s : Schema := ⟨[⟨"Qty", .integer .u8, true⟩, ⟨"Ratio", .float64, false⟩]⟩
    let m : Comparison → Condition := fun c => .compare c (.field 0) (.field 1)
    let row : Row := fun i => if i = 0 then .integer 3 else .float (.ofInt 2)
    (∀ c, ofExpr s (.binary (.comparison c) (.property "qty") (.property "ratio")) = .ok (m c)) ∧
      s.Admits row ∧ OneOrder (.integer 3) (.float (.ofInt 2)) fun c => (m c).holds row := by
  intro s m row
  have hm : ∀ c, ofExpr s (.binary (.comparison c) (.property "qty") (.property "ratio")) =
      .ok (m c) := by
    intro c
    cases c <;> rfl
  have hrow : s.Admits row := by
    intro i f hf
    match i with
    | 0 => cases hf; rfl
    | 1 => cases hf; rfl
    | i + 2 => cases hf
  exact ⟨hm, hrow, (oneOrder_of_less (hm .less)).2 m hm row hrow⟩

end Condition

end RowFilter
