import RowFilter.Condition.OfExpr
import RowFilter.Proofs.Failure
import RowFilter.Proofs.Names

namespace RowFilter

mutual

/-- Two conditions that differ in the indexes of their fields only, where each index and the one in
its place are in a relation. -/
inductive Condition.Matches (M : Nat → Nat → Prop) : Condition → Condition → Prop
  | literal (b : Bool) : Condition.Matches M (.literal b) (.literal b)
  | field {i j : Nat} : M i j → Condition.Matches M (.field i) (.field j)
  | compare (c : Comparison) {l l' r r' : Operand} : Operand.Matches M l l' →
      Operand.Matches M r r' → Condition.Matches M (.compare c l r) (.compare c l' r')
  | like {i j : Nat} (p : Pattern) : M i j → Condition.Matches M (.like i p) (.like j p)
  | among {i j : Nat} (values : List Datum) : M i j →
      Condition.Matches M (.among i values) (.among j values)
  | not {k m : Condition} : Condition.Matches M k m → Condition.Matches M (.not k) (.not m)
  | and {k k' m m' : Condition} : Condition.Matches M k k' → Condition.Matches M m m' →
      Condition.Matches M (.and k m) (.and k' m')
  | or {k k' m m' : Condition} : Condition.Matches M k k' → Condition.Matches M m m' →
      Condition.Matches M (.or k m) (.or k' m')

inductive Operand.Matches (M : Nat → Nat → Prop) : Operand → Operand → Prop
  | field {i j : Nat} : M i j → Operand.Matches M (.field i) (.field j)
  | value (d : Datum) : Operand.Matches M (.value d) (.value d)
  | test {k m : Condition} : Condition.Matches M k m → Operand.Matches M (.test k) (.test m)

end

section Rows

variable {M : Nat → Nat → Prop} {row row' : Row}

mutual

/-- Matching conditions answer alike on rows that are alike at matching indexes. -/
theorem Condition.Matches.holds_eq (hrow : ∀ i j, M i j → row i = row' j) :
    ∀ {k m : Condition}, k.Matches M m → k.holds row = m.holds row'
  | _, _, .literal _ => rfl
  | _, _, .field h => by rw [Condition.holds, Condition.holds, hrow _ _ h]
  | _, _, .compare _ hl hr => by
    rw [Condition.holds, Condition.holds, hl.valueIn_eq hrow, hr.valueIn_eq hrow]
  | _, _, .like _ h => by rw [Condition.holds, Condition.holds, hrow _ _ h]
  | _, _, .among _ h => by rw [Condition.holds, Condition.holds, hrow _ _ h]
  | _, _, .not h => by rw [Condition.holds, Condition.holds, h.holds_eq hrow]
  | _, _, .and hk hm => by
    rw [Condition.holds, Condition.holds, hk.holds_eq hrow, hm.holds_eq hrow]
  | _, _, .or hk hm => by
    rw [Condition.holds, Condition.holds, hk.holds_eq hrow, hm.holds_eq hrow]

theorem Operand.Matches.valueIn_eq (hrow : ∀ i j, M i j → row i = row' j) :
    ∀ {o p : Operand}, o.Matches M p → o.valueIn row = p.valueIn row'
  | _, _, .field h => hrow _ _ h
  | _, _, .value _ => rfl
  | _, _, .test h => by rw [Operand.valueIn, Operand.valueIn, h.holds_eq hrow]

end

theorem Condition.Matches.negate {k m : Condition} (h : k.Matches M m) :
    k.negate.Matches M m.negate := by
  cases h with
  | literal b => exact .literal (!b)
  | field h => exact .not (.field h)
  | compare c hl hr => exact .not (.compare c hl hr)
  | like p h => exact .not (.like p h)
  | among values h => exact .not (.among values h)
  | not h => exact .not (.not h)
  | and hk hm => exact .not (.and hk hm)
  | or hk hm => exact .not (.or hk hm)

end Rows

/-- Terms of the same kind that match. -/
inductive Term.Matches (M : Nat → Nat → Prop) : Term → Term → Prop
  | field {i j : Nat} {f g : Field} : M i j → f.Alike g → Matches M (.field i f) (.field j g)
  | literal (l : Literal) : Matches M (.literal l) (.literal l)
  | condition {k m : Condition} : k.Matches M m → Matches M (.condition k) (.condition m)

inductive Resolved.Matches (M : Nat → Nat → Prop) : Resolved → Resolved → Prop
  | term {t u : Term} : t.Matches M u → Matches M (.term t) (.term u)
  | array : Matches M .array .array

theorem Field.Alike.admitsNull {f g : Field} (h : f.Alike g) : g.admitsNull = f.admitsNull := by
  rw [Field.admitsNull, Field.admitsNull, h.type, h.nullable]

/-- A field takes a literal by its type and its leave to be null. -/
theorem Field.Alike.ofLiteral? {f g : Field} (h : f.Alike g) (l : Literal) :
    Datum.ofLiteral? g l = Datum.ofLiteral? f l := by
  cases l with
  | null => simp only [Datum.ofLiteral?, h.admitsNull]
  | _ => simp only [Datum.ofLiteral?, h.type]

/-- Names in a relation have fields that only names tell apart, at indexes in a relation, unless
the first name has no field. -/
def Schema.Carries (s t : Schema) (R : String → String → Prop) (M : Nat → Nat → Prop) : Prop :=
  ∀ n n' i f, R n n' → s.resolve n = some (i, f) →
    ∃ j f', t.resolve n' = some (j, f') ∧ M i j ∧ f.Alike f'

namespace Condition

/-- How the outcome of a step follows that of its counterpart: a result by a result in a relation,
a mismatch by a mismatch, and a name without a field by the name in its place if that has no field
either. -/
inductive Follows (s t : Schema) (R : String → String → Prop) {α β : Type} (rel : α → β → Prop) :
    Except CompileError α → Except CompileError β → Prop
  | ok {a : α} {b : β} : rel a b → Follows s t R rel (.ok a) (.ok b)
  | mismatch (c d : TypeMismatch) :
      Follows s t R rel (.error (.mismatch c)) (.error (.mismatch d))
  | unknown {n n' : String} {y : Except CompileError β} : R n n' → s.resolve n = none →
      (t.resolve n' = none → y = .error (.unknownField n')) →
      Follows s t R rel (.error (.unknownField n)) y

variable {s t : Schema} {R : String → String → Prop} {M : Nat → Nat → Prop}

theorem Follows.bind {α β γ δ : Type} {rel : α → β → Prop} {next : γ → δ → Prop}
    {x : Except CompileError α} {y : Except CompileError β} {p : α → Except CompileError γ}
    {q : β → Except CompileError δ} (h : Follows s t R rel x y)
    (hnext : ∀ a b, rel a b → Follows s t R next (p a) (q b)) :
    Follows s t R next (x >>= p) (y >>= q) := by
  cases h with
  | ok hab => exact hnext _ _ hab
  | mismatch c d => exact .mismatch c d
  | unknown hn hs hy =>
    refine .unknown hn hs fun ht => ?_
    rw [hy ht]
    rfl

/-- Steps that have the same results go on from them alike. -/
theorem Follows.bind_same {α γ δ : Type} {next : γ → δ → Prop} {x y : Except CompileError α}
    {p : α → Except CompileError γ} {q : α → Except CompileError δ} (h : Follows s t R Eq x y)
    (hnext : ∀ a, Follows s t R next (p a) (q a)) : Follows s t R next (x >>= p) (y >>= q) := by
  refine h.bind fun a b hab => ?_
  subst hab
  exact hnext a

theorem fieldOf_follows (hR : s.Carries t R M) {n n' : String} (hn : R n n') :
    Follows s t R (fun a b => M a.1 b.1 ∧ a.2.Alike b.2) (fieldOf s n) (fieldOf t n') := by
  unfold fieldOf
  cases hs : s.resolve n with
  | none => exact .unknown hn hs fun ht => by rw [ht]
  | some found =>
    obtain ⟨j, f', ht, hM, halike⟩ := hR n n' found.1 found.2 hn hs
    rw [ht]
    exact .ok ⟨hM, halike⟩

section Steps

variable {c : Comparison} {f g : Field}

theorem coerce_follows (h : f.Alike g) (l : Literal) :
    Follows s t R Eq (coerce f l) (coerce g l) := by
  unfold coerce
  rw [h.ofLiteral?]
  split
  · exact .ok rfl
  · exact .mismatch _ _

theorem coerceAll_follows (h : f.Alike g) (ls : List Literal) :
    Follows s t R Eq (coerceAll f ls) (coerceAll g ls) := by
  induction ls with
  | nil => exact .ok rfl
  | cons l ls ih =>
    exact (coerce_follows h l).bind_same fun _ => ih.bind_same fun _ => .ok rfl

theorem checkOrder_follows (c : Comparison) (type : FieldType) :
    Follows s t R Eq (checkOrder c type) (checkOrder c type) := by
  unfold checkOrder
  split
  · exact .mismatch _ _
  · exact .ok rfl

theorem ofResolved_follows {a b : Resolved} (h : a.Matches M b) :
    Follows s t R (Condition.Matches M) (ofResolved a) (ofResolved b) := by
  cases h with
  | array => exact .mismatch _ _
  | term h =>
    cases h with
    | field hM halike =>
      simp only [ofResolved, halike.type]
      split
      · exact .ok (.field hM)
      · exact .mismatch _ _
    | literal l =>
      cases l with
      | boolean b => exact .ok (.literal b)
      | _ => exact .mismatch _ _
    | condition hk => exact .ok hk

theorem termOf_follows {a b : Resolved} (h : a.Matches M b) :
    Follows s t R (Term.Matches M) (termOf a) (termOf b) := by
  cases h with
  | array => exact .mismatch _ _
  | term h => exact .ok h

theorem booleanOperand_follows {a b : Term} (h : a.Matches M b) :
    Follows s t R (Operand.Matches M) (booleanOperand a) (booleanOperand b) := by
  cases h with
  | field hM halike =>
    simp only [booleanOperand, halike.type]
    split
    · exact .ok (.field hM)
    · exact .mismatch _ _
  | literal l =>
    cases l with
    | boolean b => exact .ok (.value _)
    | number d =>
      simp only [booleanOperand]
      split
      · exact .ok (.value _)
      · exact .mismatch _ _
    | _ => exact .mismatch _ _
  | condition hk => exact .ok (.test hk)

theorem ofLiterals_follows (c : Comparison) (a b : Literal) :
    Follows s t R (Condition.Matches M) (ofLiterals c a b) (ofLiterals c a b) := by
  unfold ofLiterals
  dsimp only
  split
  · exact .mismatch _ _
  · split
    · exact (checkOrder_follows c .boolean).bind_same fun _ => .ok (.literal _)
    · exact .ok (.literal _)

theorem ofTerms_follows (c : Comparison) {a a' b b' : Term} (ha : a.Matches M a')
    (hb : b.Matches M b') :
    Follows s t R (Condition.Matches M) (ofTerms c a b) (ofTerms c a' b') := by
  cases ha with
  | condition hk =>
    refine (checkOrder_follows c .boolean).bind_same fun _ => ?_
    exact (booleanOperand_follows hb).bind fun _ _ ho => .ok (.compare c (.test hk) ho)
  | literal l =>
    cases hb with
    | condition hk =>
      refine (checkOrder_follows c .boolean).bind_same fun _ => ?_
      exact (booleanOperand_follows (.literal l)).bind fun _ _ ho => .ok (.compare c ho (.test hk))
    | literal l' => exact ofLiterals_follows c l l'
    | field hM halike =>
      simp only [ofTerms, halike.type]
      refine (checkOrder_follows c _).bind_same fun _ => ?_
      exact (coerce_follows halike l).bind_same fun d => .ok (.compare c (.value d) (.field hM))
  | field hM halike =>
    cases hb with
    | condition hk =>
      refine (checkOrder_follows c .boolean).bind_same fun _ => ?_
      exact (booleanOperand_follows (.field hM halike)).bind fun _ _ ho =>
        .ok (.compare c ho (.test hk))
    | literal l =>
      simp only [ofTerms, halike.type]
      refine (checkOrder_follows c _).bind_same fun _ => ?_
      exact (coerce_follows halike l).bind_same fun d => .ok (.compare c (.field hM) (.value d))
    | field hM' halike' =>
      simp only [ofTerms, halike.type, halike'.type]
      split
      · exact .mismatch _ _
      · refine (checkOrder_follows c _).bind_same fun _ => ?_
        exact .ok (.compare c (.field hM) (.field hM'))

theorem ofNullTest_follows (hR : s.Carries t R M) (op : UnaryOp) {e e' : Expr}
    (h : e.Renamed R e') :
    Follows s t R (Condition.Matches M) (ofNullTest s op e) (ofNullTest t op e') := by
  cases h with
  | property hn =>
    refine (fieldOf_follows hR hn).bind fun a b hab => ?_
    obtain ⟨hM, halike⟩ := hab
    dsimp only
    rw [halike.admitsNull]
    split
    · exact .ok (.compare _ (.field hM) (.value _))
    · exact .ok (.literal _)
  | _ => exact .mismatch _ _

theorem ofLike_follows (hR : s.Carries t R M) {l l' r r' : Expr} (hl : l.Renamed R l')
    (hr : r.Renamed R r') :
    Follows s t R (Condition.Matches M) (ofLike s l r) (ofLike t l' r') := by
  cases hl with
  | property hn =>
    refine (fieldOf_follows hR hn).bind fun a b hab => ?_
    obtain ⟨hM, halike⟩ := hab
    cases hr with
    | literal c =>
      cases c with
      | string text =>
        dsimp only
        rw [halike.type]
        split
        · exact .mismatch _ _
        · split
          · exact .ok (.like _ hM)
          · exact .ok (.literal _)
      | _ => exact .mismatch _ _
    | _ => exact .mismatch _ _
  | _ => exact .mismatch _ _

theorem ofMembership_follows (hR : s.Carries t R M) {l l' r r' : Expr} (hl : l.Renamed R l')
    (hr : r.Renamed R r') :
    Follows s t R (Condition.Matches M) (ofMembership s l r) (ofMembership t l' r') := by
  cases hl with
  | property hn =>
    cases hr with
    | array ls =>
      refine (fieldOf_follows hR hn).bind fun a b hab => ?_
      obtain ⟨hM, halike⟩ := hab
      dsimp only
      split
      · exact .ok (.literal _)
      · exact (coerceAll_follows halike ls).bind_same fun ds => .ok (.among ds hM)
    | _ => exact .mismatch _ _
  | _ => exact .mismatch _ _

end Steps

theorem resolve_follows (hR : s.Carries t R M) {e e' : Expr} (h : e.Renamed R e') :
    Follows s t R (Resolved.Matches M) (resolve s e) (resolve t e') := by
  induction h with
  | property hn =>
    exact (fieldOf_follows hR hn).bind fun _ _ hab => .ok (.term (.field hab.1 hab.2))
  | literal l => exact .ok (.term (.literal l))
  | array ls => exact .ok .array
  | unary op he ih =>
    cases op with
    | not =>
      refine ih.bind fun _ _ hab => ?_
      exact (ofResolved_follows hab).bind fun _ _ hk => .ok (.term (.condition hk.negate))
    | isNull =>
      exact (ofNullTest_follows hR .isNull he).bind fun _ _ hk => .ok (.term (.condition hk))
    | isNotNull =>
      exact (ofNullTest_follows hR .isNotNull he).bind fun _ _ hk => .ok (.term (.condition hk))
  | binary op hl hr ihl ihr =>
    cases op with
    | connective c =>
      refine ihl.bind fun _ _ hab => ?_
      refine (ofResolved_follows hab).bind fun _ _ hp => ?_
      refine ihr.bind fun _ _ hcd => ?_
      refine (ofResolved_follows hcd).bind fun _ _ hq => ?_
      cases c with
      | and => exact .ok (.term (.condition (.and hp hq)))
      | or => exact .ok (.term (.condition (.or hp hq)))
    | like negated =>
      refine (ofLike_follows hR hl hr).bind fun _ _ hk => ?_
      cases negated with
      | false => exact .ok (.term (.condition hk))
      | true => exact .ok (.term (.condition hk.negate))
    | among negated =>
      refine (ofMembership_follows hR hl hr).bind fun _ _ hk => ?_
      cases negated with
      | false => exact .ok (.term (.condition hk))
      | true => exact .ok (.term (.condition hk.negate))
    | comparison c =>
      refine ihl.bind fun _ _ hab => ?_
      refine (termOf_follows hab).bind fun _ _ ht => ?_
      refine ihr.bind fun _ _ hcd => ?_
      refine (termOf_follows hcd).bind fun _ _ hu => ?_
      exact (ofTerms_follows c ht hu).bind fun _ _ hk => .ok (.term (.condition hk))

/-- The compilation of an expression goes as that of its counterpart does. -/
theorem ofExpr_follows (hR : s.Carries t R M) {e e' : Expr} (h : e.Renamed R e') :
    Follows s t R (Condition.Matches M) (ofExpr s e) (ofExpr t e') :=
  (resolve_follows hR h).bind fun _ _ hab => ofResolved_follows hab

end Condition

end RowFilter
