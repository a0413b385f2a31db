import RowFilter.Proofs.Exchanged
import RowFilter.Proofs.OneOrder

namespace RowFilter

namespace Comparison

/-- The comparison that asks of exchanged operands what this one asks. -/
def mirror : Comparison → Comparison
  | equal => equal
  | notEqual => notEqual
  | less => greater
  | lessOrEqual => greaterOrEqual
  | greater => less
  | greaterOrEqual => lessOrEqual

@[simp] theorem mirror_mirror (c : Comparison) : c.mirror.mirror = c := by
  cases c <;> rfl

@[simp] theorem isOrdering_mirror (c : Comparison) : c.mirror.isOrdering = c.isOrdering := by
  cases c <;> rfl

theorem holds_mirror (c : Comparison) (a b : Datum) : c.mirror.holds b a = c.holds a b := by
  have horder : ∀ o : Ordering, decide (b.order? a = some o.swap) = decide (a.order? b = some o) :=
    fun o => decide_eq_decide.mpr Datum.order?_eq_some_swap
  have hlt : decide (b.order? a = some .gt) = decide (a.order? b = some .lt) := horder .lt
  have heq : decide (b.order? a = some .eq) = decide (a.order? b = some .eq) := horder .eq
  have hgt : decide (b.order? a = some .lt) = decide (a.order? b = some .gt) := horder .gt
  cases c with
  | equal => exact Datum.equals_comm b a
  | notEqual => exact congrArg (!·) (Datum.equals_comm b a)
  | less => exact hlt
  | lessOrEqual => simp only [mirror, holds, hlt, heq]
  | greater => exact hgt
  | greaterOrEqual => simp only [mirror, holds, hgt, heq]

end Comparison

/-- The operand that a term is beside another one. -/
def Term.beside? : Term → Term → Option Operand
  | .field i _, _ => some (.field i)
  | .condition k, _ => some (.test k)
  | .literal l, .field _ f => (Datum.ofLiteral? f l).map .value
  | .literal l, .literal _ => some (.value (.ofLiteral l))
  | .literal l, .condition _ => l.truth?.map fun b => .value (.boolean b)

/-- One of two operands is written as null and the other one as a boolean. -/
def Expr.NullWithBoolean (l r : Expr) : Prop :=
  ∃ b, (l = .literal .null ∧ r = .literal (.boolean b)) ∨
    (l = .literal (.boolean b) ∧ r = .literal .null)

theorem Expr.NullWithBoolean.symm {l r : Expr} (h : l.NullWithBoolean r) : r.NullWithBoolean l := by
  obtain ⟨b, ⟨hl, hr⟩ | ⟨hl, hr⟩⟩ := h
  · exact ⟨b, .inr ⟨hr, hl⟩⟩
  · exact ⟨b, .inl ⟨hr, hl⟩⟩

theorem FieldType.isComparableWith_comm (a b : FieldType) :
    a.isComparableWith b = b.isComparableWith a := by
  have heq : decide (a = b) = decide (b = a) := decide_eq_decide.mpr eq_comm
  unfold isComparableWith
  rw [heq, Bool.and_comm]

theorem FieldType.boolean_of_comparable {a b : FieldType} (h : a.isComparableWith b = true)
    (hb : b = .boolean) : a = .boolean := by
  subst hb
  simpa [isComparableWith, isNumeric] using h

namespace Condition

variable {s : Schema} {c : Comparison} {l r : Expr} {t u : Term} {k m : Condition}

theorem literalsCompare_comm (a b : Literal) : literalsCompare a b = literalsCompare b a := by
  have hkind : decide (a.kindName = b.kindName) = decide (b.kindName = a.kindName) :=
    decide_eq_decide.mpr eq_comm
  unfold literalsCompare
  rw [hkind, Bool.or_comm (decide (a = .null))]

theorem Beside.operand {k : Condition} {o : Operand} (h : Beside t o) :
    t.beside? (.condition k) = some o := by
  cases h with
  | condition k => rfl
  | field _ => rfl
  | literal hl => simp [Term.beside?, hl]

/-- A comparison compares what its terms are beside each other. -/
theorem Compared.operands (h : Compared c t u k) :
    ∃ p q, t.beside? u = some p ∧ u.beside? t = some q ∧
      ∀ row, k.holds row = c.holds (p.valueIn row) (q.valueIn row) := by
  cases h with
  | fieldLiteral _ hd => exact ⟨_, _, rfl, by simp [Term.beside?, hd], fun _ => rfl⟩
  | literalField _ hd => exact ⟨_, _, by simp [Term.beside?, hd], rfl, fun _ => rfl⟩
  | fields _ _ => exact ⟨_, _, rfl, rfl, fun _ => rfl⟩
  | literals _ _ => exact ⟨_, _, rfl, rfl, fun _ => rfl⟩
  | conditionLeft _ ho => exact ⟨_, _, rfl, ho.operand, fun _ => rfl⟩
  | conditionRight _ ho => exact ⟨_, _, ho.operand, rfl, fun _ => rfl⟩

theorem Compared.holds_mirror (h : Compared c t u k) (hm : Compared c.mirror u t m) (row : Row) :
    k.holds row = m.holds row := by
  obtain ⟨p, q, hp, hq, hk⟩ := h.operands
  obtain ⟨q', p', hq', hp', hm⟩ := hm.operands
  obtain rfl := Option.some.inj (hp.symm.trans hp')
  obtain rfl := Option.some.inj (hq.symm.trans hq')
  rw [hk, hm, Comparison.holds_mirror]

/-- The order of two literals is refused for a boolean on the left, so the mirror is refused for one
on the right. -/
theorem Compared.mirror (h : Compared c t u k)
    (hnull : c.isOrdering = true →
      ∀ b, ¬ (t = .literal .null ∧ u = .literal (.boolean b))) :
    ∃ m, Compared c.mirror u t m := by
  -- Every way to compare has its counterpart. Only that of two literals looks at one side alone.
  cases h with
  | fieldLiteral ho hd => exact ⟨_, .literalField (by simpa using ho) hd⟩
  | literalField ho hd => exact ⟨_, .fieldLiteral (by simpa using ho) hd⟩
  | fields hfg ho =>
    refine ⟨_, .fields (by rwa [FieldType.isComparableWith_comm]) fun hc hg => ?_⟩
    exact ho (by simpa using hc) (FieldType.boolean_of_comparable hfg hg)
  | @literals a b hab ho =>
    refine ⟨_, .literals (by rwa [literalsCompare_comm]) fun hc x hb => ?_⟩
    have hc : c.isOrdering = true := by simpa using hc
    subst hb
    cases a with
    | null => exact hnull hc x ⟨rfl, rfl⟩
    | boolean y => exact ho hc y rfl
    | number d => simp [literalsCompare, Literal.kindName] at hab
    | string text => simp [literalsCompare, Literal.kindName] at hab
  | conditionLeft ho hb => exact ⟨_, .conditionRight (by simpa using ho) hb⟩
  | conditionRight ho hb => exact ⟨_, .conditionLeft (by simpa using ho) hb⟩

theorem stated_literal {a : Literal} (h : Stated s l (.term (.literal a))) : l = .literal a := by
  cases h
  rfl

theorem ofExpr_mirror (h : ofExpr s (.binary (.comparison c) l r) = .ok k)
    (hnull : ¬ (c.isOrdering = true ∧ l.NullWithBoolean r)) :
    ∃ m, ofExpr s (.binary (.comparison c.mirror) r l) = .ok m := by
  obtain ⟨t, u, hl, hr, hk⟩ := ofExpr_comparison.mp h
  obtain ⟨m, hm⟩ := hk.mirror (by
    rintro hc b ⟨rfl, rfl⟩
    exact hnull ⟨hc, b, .inl ⟨stated_literal hl, stated_literal hr⟩⟩)
  exact ⟨m, ofExpr_comparison.mpr ⟨u, t, hr, hl, hm⟩⟩

/-- An order between null and a boolean has a condition with null on the left. -/
theorem ofExpr_null_boolean (s : Schema) (c : Comparison) (b : Bool) :
    ofExpr s (.binary (.comparison c) (.literal .null) (.literal (.boolean b))) =
      .ok (.literal (c.holds .null (.boolean b))) :=
  ofExpr_comparison.mpr ⟨_, _, .literal _, .literal _, .literals rfl (by simp)⟩

/-- It has none with the boolean on the left. -/
theorem ofExpr_boolean_null (s : Schema) (b : Bool) (hc : c.isOrdering = true) :
    ofExpr s (.binary (.comparison c) (.literal (.boolean b)) (.literal .null)) =
      .error (.mismatch .orderedBooleans) := by
  cases c with
  | equal => cases hc
  | notEqual => cases hc
  | _ => rfl

/-- A comparison and its mirror have conditions together, unless they ask for an order between null
and a boolean. -/
theorem accepted_mirror_iff (s : Schema) (c : Comparison) (l r : Expr) :
    ((∃ k, ofExpr s (.binary (.comparison c) l r) = .ok k) ↔
        ∃ m, ofExpr s (.binary (.comparison c.mirror) r l) = .ok m) ↔
      ¬ (c.isOrdering = true ∧ l.NullWithBoolean r) := by
  constructor
  · rintro hiff ⟨hc, b, ⟨rfl, rfl⟩ | ⟨rfl, rfl⟩⟩
    · have hmirror := ofExpr_boolean_null s b ((Comparison.isOrdering_mirror c).trans hc)
      obtain ⟨m, hm⟩ := hiff.mp ⟨_, ofExpr_null_boolean s c b⟩
      rw [hmirror] at hm
      cases hm
    · obtain ⟨k, hk⟩ := hiff.mpr ⟨_, ofExpr_null_boolean s c.mirror b⟩
      rw [ofExpr_boolean_null s b hc] at hk
      cases hk
  · intro hnull
    constructor
    · rintro ⟨k, hk⟩
      exact ofExpr_mirror hk hnull
    · rintro ⟨m, hm⟩
      have hother : ¬ (c.mirror.isOrdering = true ∧ r.NullWithBoolean l) := by
        rw [Comparison.isOrdering_mirror]
        exact fun h => hnull ⟨h.1, h.2.symm⟩
      obtain ⟨k, hk⟩ := ofExpr_mirror hm hother
      rw [Comparison.mirror_mirror] at hk
      exact ⟨k, hk⟩

/-- `null > true` has a condition and `true < null` has none. -/
theorem not_accepted_mirror_null :
    let null : Expr := .literal .null
    let yes : Expr := .literal (.boolean true)
    ¬ ((∃ k, ofExpr ⟨[]⟩ (.binary (.comparison .less) yes null) = .ok k) ↔
      ∃ m, ofExpr ⟨[]⟩ (.binary (.comparison Comparison.less.mirror) null yes) = .ok m) := by
  intro null yes hiff
  obtain ⟨k, hk⟩ := hiff.mpr ⟨_, ofExpr_null_boolean ⟨[]⟩ .greater true⟩
  cases hk

/-- The order of two values and their equality do not depend on which one is asked first, but for
the sense of the order, which takes one exchange of numbers at most. So a comparison and its mirror
hold of the same rows, whatever these have in their fields. -/
theorem compared_either_way :
    (∀ a b : Datum, a.order? b = (b.order? a).map Ordering.swap ∧ a.equals b = b.equals a ∧
      (a.isNumeric = true → b.isNumeric = true →
        ∃ n ≤ 1, ∀ m o, Datum.OrderedBy m a b o ↔ m = n ∧ o = a.order? b)) ∧
    ∀ (s : Schema) (c : Comparison) (l r : Expr) (k m : Condition),
      ofExpr s (.binary (.comparison c) l r) = .ok k →
      ofExpr s (.binary (.comparison c.mirror) r l) = .ok m →
        ∀ row : Row, k.holds row = m.holds row := by
  refine ⟨fun a b => ⟨(Datum.order?_swap a b).symm, Datum.equals_comm a b, Datum.orderedBy_iff⟩,
    fun s c l r k m hk hm row => ?_⟩
  obtain ⟨t, u, hl, hr, hcompared⟩ := ofExpr_comparison.mp hk
  obtain ⟨u', t', hr', hl', hmirror⟩ := ofExpr_comparison.mp hm
  obtain rfl : t = t' := by simpa using (resolve_of_stated hl).symm.trans (resolve_of_stated hl')
  obtain rfl : u = u' := by simpa using (resolve_of_stated hr).symm.trans (resolve_of_stated hr')
  exact hcompared.holds_mirror hmirror row

/-- The row has a decimal in the place of an integer, and the other way round. -/
theorem compared_either_way_price :
    let s : Schema := ⟨[⟨"Qty", .integer .u8, true⟩, ⟨"Price", .decimal, false⟩]⟩
    let first : Condition := .compare .lessOrEqual (.field 0) (.field 1)
    let second : Condition := .compare .greaterOrEqual (.field 1) (.field 0)
    let row : Row := fun i => if i = 0 then .decimal .one else .integer 2
    ofExpr s (.binary (.comparison .lessOrEqual) (.property "qty") (.property "price")) =
        .ok first ∧
      ofExpr s (.binary (.comparison .greaterOrEqual) (.property "price") (.property "qty")) =
        .ok second ∧
      first.holds row = true ∧ second.holds row = true ∧
      ∃ n ≤ 1, ∀ m o, Datum.OrderedBy m (row 0) (row 1) o ↔ m = n ∧ o = some .lt := by
  intro s first second row
  obtain ⟨hvalues, hrows⟩ := compared_either_way
  have hfirst : ofExpr s (.binary (.comparison .lessOrEqual) (.property "qty")
      (.property "price")) = .ok first := by rfl
  have hsecond : ofExpr s (.binary (.comparison .greaterOrEqual) (.property "price")
      (.property "qty")) = .ok second := by rfl
  have hholds : first.holds row = true := by rfl
  have hsame := hrows s .lessOrEqual _ _ first second hfirst hsecond row
  exact ⟨hfirst, hsecond, hholds, hsame ▸ hholds, (hvalues (row 0) (row 1)).2.2 rfl rfl⟩

end Condition

end RowFilter
