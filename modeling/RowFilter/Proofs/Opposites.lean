import RowFilter.Proofs.Reading

namespace RowFilter

open Condition

/-- Of two opposite expressions both have a condition or none has one, and on every row just one of
the conditions holds. -/
structure Expr.OppositeIn (s : Schema) (a b : Expr) : Prop where
  together : (∃ k, ofExpr s a = .ok k) ↔ ∃ m, ofExpr s b = .ok m
  disagree : ∀ k m, ofExpr s a = .ok k → ofExpr s b = .ok m → ∀ row, m.holds row = !k.holds row

namespace Condition

variable {s : Schema} {a b e l r : Expr} {c d : Comparison} {t u : Term} {k : Condition}

theorem oppositeIn_of_partners
    (hpartner : ∀ k, ofExpr s a = .ok k →
      ∃ m, ofExpr s b = .ok m ∧ ∀ row, m.holds row = !k.holds row)
    (hback : ∀ m, ofExpr s b = .ok m → ∃ k, ofExpr s a = .ok k) : a.OppositeIn s b where
  together := by
    constructor
    · rintro ⟨k, hk⟩
      obtain ⟨m, hm, _⟩ := hpartner k hk
      exact ⟨m, hm⟩
    · rintro ⟨m, hm⟩
      exact hback m hm
  disagree := by
    intro k m hk hm
    obtain ⟨n, hn, hrows⟩ := hpartner k hk
    obtain rfl := Except.ok.inj (hn.symm.trans hm)
    exact hrows

/-- Terms that are compared in one way can be compared in the opposite way too, unless they have to
be ordered for it. -/
theorem compared_opposite (hd : d.isOrdering = false) (hholds : ∀ x y, d.holds x y = !c.holds x y)
    (h : Compared c t u k) : ∃ m, Compared d t u m ∧ ∀ row, m.holds row = !k.holds row := by
  have hunordered : ∀ p : Prop, d.isOrdering = true → p := by simp [hd]
  cases h with
  | fieldLiteral _ hvalue =>
    exact ⟨_, .fieldLiteral (hunordered _) hvalue, fun row => hholds _ _⟩
  | literalField _ hvalue =>
    exact ⟨_, .literalField (hunordered _) hvalue, fun row => hholds _ _⟩
  | fields htypes _ => exact ⟨_, .fields htypes (hunordered _), fun row => hholds _ _⟩
  | literals hkinds _ => exact ⟨_, .literals hkinds (hunordered _), fun row => hholds _ _⟩
  | conditionLeft _ hbeside => exact ⟨_, .conditionLeft hd hbeside, fun row => hholds _ _⟩
  | conditionRight _ hbeside => exact ⟨_, .conditionRight hd hbeside, fun row => hholds _ _⟩

theorem oppositeIn_equal (l r : Expr) :
    (Expr.binary (.comparison .equal) l r).OppositeIn s (.binary (.comparison .notEqual) l r) := by
  have hnotEqual : ∀ x y, Comparison.holds .notEqual x y = !Comparison.holds .equal x y :=
    fun x y => rfl
  apply oppositeIn_of_partners
  · intro k hk
    obtain ⟨t, u, ht, hu, hequal⟩ := ofExpr_comparison.mp hk
    obtain ⟨m, hm, hrows⟩ := compared_opposite rfl hnotEqual hequal
    exact ⟨m, ofExpr_comparison.mpr ⟨t, u, ht, hu, hm⟩, hrows⟩
  · intro m hm
    obtain ⟨t, u, ht, hu, hdiffers⟩ := ofExpr_comparison.mp hm
    have hequal : ∀ x y, Comparison.holds .equal x y = !Comparison.holds .notEqual x y := by
      intro x y
      rw [hnotEqual, Bool.not_not]
    obtain ⟨k, hk, _⟩ := compared_opposite rfl hequal hdiffers
    exact ⟨k, ofExpr_comparison.mpr ⟨t, u, ht, hu, hk⟩⟩

/-- A test that is signed after it is made is the opposite of the unsigned one. -/
theorem oppositeIn_of_signed {test : Bool → Expr} {step : Except CompileError Condition}
    (h : ∀ negated k, ofExpr s (test negated) = .ok k ↔
      ∃ m, step = .ok m ∧ k = signed negated m) : (test false).OppositeIn s (test true) := by
  apply oppositeIn_of_partners
  · intro k hk
    obtain ⟨m, hm, hk⟩ := (h false k).mp hk
    refine ⟨signed true m, (h true _).mpr ⟨m, hm, rfl⟩, ?_⟩
    intro row
    rw [hk, holds_signed, holds_signed, Bool.false_xor, Bool.true_xor]
  · intro k hk
    obtain ⟨m, hm, _⟩ := (h true k).mp hk
    exact ⟨signed false m, (h false _).mpr ⟨m, hm, rfl⟩⟩

theorem oppositeIn_like (l r : Expr) :
    (Expr.binary (.like false) l r).OppositeIn s (.binary (.like true) l r) :=
  oppositeIn_of_signed fun _ _ => ofExpr_like_eq_ok

theorem oppositeIn_among (l r : Expr) :
    (Expr.binary (.among false) l r).OppositeIn s (.binary (.among true) l r) :=
  oppositeIn_of_signed fun _ _ => ofExpr_among_eq_ok

theorem holds_nullTest_not (i : Nat) (f : Field) (row : Row) :
    (nullTest false i f).holds row = !(nullTest true i f).holds row := by
  cases hn : f.admitsNull with
  | true => simp [holds_nullTest_of_admitsNull hn]
  | false => simp [nullTest_of_not_admitsNull hn, holds]

theorem oppositeIn_nullTests (e : Expr) :
    (Expr.unary .isNull e).OppositeIn s (.unary .isNotNull e) := by
  apply oppositeIn_of_partners
  · intro k hk
    obtain ⟨name, i, f, rfl, hf, rfl⟩ := (ofExpr_nullTest_eq_ok (by decide)).mp hk
    have hnotNull : ofExpr s (.unary .isNotNull (.property name)) = .ok (nullTest false i f) :=
      (ofExpr_nullTest_eq_ok (by decide)).mpr ⟨name, i, f, rfl, hf, rfl⟩
    exact ⟨_, hnotNull, holds_nullTest_not i f⟩
  · intro k hk
    obtain ⟨name, i, f, rfl, hf, _⟩ := (ofExpr_nullTest_eq_ok (by decide)).mp hk
    exact ⟨_, (ofExpr_nullTest_eq_ok (by decide)).mpr ⟨name, i, f, rfl, hf, rfl⟩⟩

theorem oppositeIn_not (e : Expr) : e.OppositeIn s (.unary .not e) := by
  apply oppositeIn_of_partners
  · intro k hk
    exact ⟨k.negate, ofExpr_not_eq_ok.mpr ⟨k, hk, rfl⟩, fun row => holds_negate k⟩
  · intro k hk
    obtain ⟨m, hm, _⟩ := ofExpr_not_eq_ok.mp hk
    exact ⟨m, hm⟩

/-- The negated form of an expression is its opposite, whatever its operands are: inequality, the
negated pattern, membership and null tests, and the negation of the whole expression. -/
theorem negatedForms_oppositeIn (s : Schema) (l r e : Expr) :
    (Expr.binary (.comparison .equal) l r).OppositeIn s (.binary (.comparison .notEqual) l r) ∧
      (Expr.binary (.like false) l r).OppositeIn s (.binary (.like true) l r) ∧
      (Expr.binary (.among false) l r).OppositeIn s (.binary (.among true) l r) ∧
      (Expr.unary .isNull e).OppositeIn s (.unary .isNotNull e) ∧
      e.OppositeIn s (.unary .not e) :=
  ⟨oppositeIn_equal l r, oppositeIn_like l r, oppositeIn_among l r, oppositeIn_nullTests e,
    oppositeIn_not e⟩

end Condition

end RowFilter
