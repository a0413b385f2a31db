import RowFilter.Proofs.Resolution

namespace RowFilter.Condition

variable {s : Schema} {e l r : Expr} {k : Condition}

/-- A null test of a field. -/
def nullTest (asksNull : Bool) (i : Nat) (f : Field) : Condition :=
  if f.admitsNull then compare (if asksNull then .equal else .notEqual) (.field i) (.value .null)
  else literal (!asksNull)

/-- A pattern test of a field. -/
def patternTest (i : Nat) (text : String) : Condition :=
  match Pattern.ofText? text.toList with
  | some p => like i p
  | none => literal true

/-- A membership test of a field. -/
def membership (i : Nat) (values : List Datum) : Condition :=
  if values.isEmpty then literal false else among i values

/-- A test or, if `negated`, its opposite. -/
def signed (negated : Bool) (k : Condition) : Condition :=
  if negated then k.negate else k

theorem ofNullTest_eq_ok {op : UnaryOp} {e : Expr} : ofNullTest s op e = .ok k ↔
    ∃ name i f, e = .property name ∧ s.resolve name = some (i, f) ∧
      k = nullTest (op = .isNull) i f := by
  cases e with
  | property name =>
    simp only [ofNullTest, bind_eq_ok, fieldOf_eq_ok]
    constructor
    · rintro ⟨⟨i, f⟩, hf, hk⟩
      refine ⟨name, i, f, rfl, hf, ?_⟩
      by_cases hn : f.admitsNull = true <;> simp_all [nullTest, pure_eq_ok]
    · rintro ⟨_, i, f, he, hf, rfl⟩
      cases he
      refine ⟨(i, f), hf, ?_⟩
      by_cases hn : f.admitsNull = true <;> simp [nullTest, hn, pure_eq_ok]
  | _ => simp [ofNullTest, mismatch]

theorem ofLike_eq_ok : ofLike s l r = .ok k ↔
    ∃ name i f text, l = .property name ∧ r = .literal (.string text) ∧
      s.resolve name = some (i, f) ∧ f.type = .string ∧ k = patternTest i text := by
  constructor
  · intro h
    unfold ofLike at h
    split at h
    next name =>
      obtain ⟨⟨i, f⟩, hf, hk⟩ := bind_eq_ok.mp h
      clear h
      dsimp only at hk
      split at hk
      next text =>
        split at hk
        next => cases hk
        next ht =>
          refine ⟨name, i, f, text, rfl, rfl, fieldOf_eq_ok.mp hf, by simpa using ht, ?_⟩
          unfold patternTest
          split at hk <;> simp_all [pure_eq_ok]
      next => cases hk
    next => cases h
  · rintro ⟨name, i, f, text, rfl, rfl, hf, ht, rfl⟩
    refine bind_eq_ok.mpr ⟨(i, f), fieldOf_eq_ok.mpr hf, ?_⟩
    unfold patternTest
    cases hp : Pattern.ofText? text.toList <;> simp [ht, hp, pure_eq_ok]

theorem ofMembership_eq_ok : ofMembership s l r = .ok k ↔
    ∃ name i f ls ds, l = .property name ∧ r = .array ls ∧ s.resolve name = some (i, f) ∧
      ls.map (Datum.ofLiteral? f) = ds.map some ∧ k = membership i ds := by
  constructor
  · intro h
    unfold ofMembership at h
    split at h
    next name =>
      split at h
      next ls =>
        obtain ⟨⟨i, f⟩, hf, hk⟩ := bind_eq_ok.mp h
        cases ls with
        | nil =>
          have hk : literal false = k := by simpa [pure_eq_ok] using hk
          exact ⟨name, i, f, [], [], rfl, rfl, fieldOf_eq_ok.mp hf, rfl, hk.symm⟩
        | cons l ls =>
          simp only [List.isEmpty_cons, Bool.false_eq_true, if_false, bind_eq_ok, pure_eq_ok] at hk
          obtain ⟨ds, hds, hk⟩ := hk
          have hmap := coerceAll_eq_ok.mp hds
          have hne : ds ≠ [] := by rintro rfl; simp at hmap
          exact ⟨name, i, f, l :: ls, ds, rfl, rfl, fieldOf_eq_ok.mp hf, hmap,
            by simp [membership, hne, hk]⟩
      next => cases h
    next => cases h
  · rintro ⟨name, i, f, ls, ds, rfl, rfl, hf, hmap, rfl⟩
    refine bind_eq_ok.mpr ⟨(i, f), fieldOf_eq_ok.mpr hf, ?_⟩
    have hds := coerceAll_eq_ok.mpr hmap
    cases ls with
    | nil =>
      have hnil : ds = [] := by simpa using hmap
      simp [membership, hnil, pure_eq_ok]
    | cons l ls =>
      have hne : ds ≠ [] := by rintro rfl; simp at hmap
      simp only [List.isEmpty_cons, Bool.false_eq_true, if_false, bind_eq_ok, pure_eq_ok]
      exact ⟨ds, hds, by simp [membership, hne]⟩

/-- What the expressions that have a meaning in a schema stand for. -/
inductive Stated (s : Schema) : Expr → Resolved → Prop
  | property {name : String} {i : Nat} {f : Field} : s.resolve name = some (i, f) →
      Stated s (.property name) (.term (.field i f))
  | literal (l : Literal) : Stated s (.literal l) (.term (.literal l))
  | array (ls : List Literal) : Stated s (.array ls) .array
  | not {e : Expr} {r : Resolved} {k : Condition} : Stated s e r → Usable r k →
      Stated s (.unary .not e) (.term (.condition k.negate))
  | isNull {name : String} {i : Nat} {f : Field} : s.resolve name = some (i, f) →
      Stated s (.unary .isNull (.property name)) (.term (.condition (nullTest true i f)))
  | isNotNull {name : String} {i : Nat} {f : Field} : s.resolve name = some (i, f) →
      Stated s (.unary .isNotNull (.property name)) (.term (.condition (nullTest false i f)))
  | and {l r : Expr} {a b : Resolved} {p q : Condition} : Stated s l a → Usable a p →
      Stated s r b → Usable b q →
      Stated s (.binary (.connective .and) l r) (.term (.condition (.and p q)))
  | or {l r : Expr} {a b : Resolved} {p q : Condition} : Stated s l a → Usable a p →
      Stated s r b → Usable b q →
      Stated s (.binary (.connective .or) l r) (.term (.condition (.or p q)))
  | like {name : String} {i : Nat} {f : Field} (negated : Bool) (text : String) :
      s.resolve name = some (i, f) → f.type = .string →
      Stated s (.binary (.like negated) (.property name) (.literal (.string text)))
        (.term (.condition (signed negated (patternTest i text))))
  | among {name : String} {i : Nat} {f : Field} {ls : List Literal} {ds : List Datum}
      (negated : Bool) : s.resolve name = some (i, f) →
      ls.map (Datum.ofLiteral? f) = ds.map some →
      Stated s (.binary (.among negated) (.property name) (.array ls))
        (.term (.condition (signed negated (membership i ds))))
  | comparison {c : Comparison} {l r : Expr} {t u : Term} {k : Condition} :
      Stated s l (.term t) → Stated s r (.term u) → Compared c t u k →
      Stated s (.binary (.comparison c) l r) (.term (.condition k))

theorem stated_of_resolve {r : Resolved} (h : resolve s e = .ok r) : Stated s e r := by
  induction e generalizing r with
  | property name =>
    obtain ⟨⟨i, f⟩, hf, hr⟩ := bind_eq_ok.mp h
    cases hr
    exact .property (fieldOf_eq_ok.mp hf)
  | literal l => cases h; exact .literal l
  | array ls => cases h; exact .array ls
  | unary op e ih =>
    cases op with
    | not =>
      obtain ⟨a, ha, h⟩ := bind_eq_ok.mp h
      obtain ⟨k, hk, hr⟩ := bind_eq_ok.mp h
      cases hr
      exact .not (ih ha) (ofResolved_eq_ok.mp hk)
    | isNull =>
      obtain ⟨k, hk, hr⟩ := bind_eq_ok.mp h
      obtain ⟨name, i, f, rfl, hf, rfl⟩ := ofNullTest_eq_ok.mp hk
      cases hr
      exact .isNull hf
    | isNotNull =>
      obtain ⟨k, hk, hr⟩ := bind_eq_ok.mp h
      obtain ⟨name, i, f, rfl, hf, rfl⟩ := ofNullTest_eq_ok.mp hk
      cases hr
      exact .isNotNull hf
  | binary op l r ihl ihr =>
    cases op with
    | connective c =>
      obtain ⟨a, ha, h⟩ := bind_eq_ok.mp h
      obtain ⟨p, hp, h⟩ := bind_eq_ok.mp h
      obtain ⟨b, hb, h⟩ := bind_eq_ok.mp h
      obtain ⟨q, hq, hr⟩ := bind_eq_ok.mp h
      cases hr
      cases c with
      | and => exact .and (ihl ha) (ofResolved_eq_ok.mp hp) (ihr hb) (ofResolved_eq_ok.mp hq)
      | or => exact .or (ihl ha) (ofResolved_eq_ok.mp hp) (ihr hb) (ofResolved_eq_ok.mp hq)
    | like negated =>
      obtain ⟨k, hk, hr⟩ := bind_eq_ok.mp h
      obtain ⟨name, i, f, text, rfl, rfl, hf, ht, rfl⟩ := ofLike_eq_ok.mp hk
      cases hr
      exact .like negated text hf ht
    | among negated =>
      obtain ⟨k, hk, hr⟩ := bind_eq_ok.mp h
      obtain ⟨name, i, f, ls, ds, rfl, rfl, hf, hds, rfl⟩ := ofMembership_eq_ok.mp hk
      cases hr
      exact .among negated hf hds
    | comparison c =>
      obtain ⟨a, ha, h⟩ := bind_eq_ok.mp h
      obtain ⟨t, ht, h⟩ := bind_eq_ok.mp h
      obtain ⟨b, hb, h⟩ := bind_eq_ok.mp h
      obtain ⟨u, hu, h⟩ := bind_eq_ok.mp h
      obtain ⟨k, hk, hr⟩ := bind_eq_ok.mp h
      cases hr
      rw [termOf_eq_ok] at ht hu
      subst ht hu
      exact .comparison (ihl ha) (ihr hb) (ofTerms_eq_ok.mp hk)

theorem resolve_of_stated {r : Resolved} (h : Stated s e r) : resolve s e = .ok r := by
  induction h with
  | property hf => exact bind_eq_ok.mpr ⟨_, fieldOf_eq_ok.mpr hf, rfl⟩
  | literal l => rfl
  | array ls => rfl
  | not _ hk ih =>
    exact bind_eq_ok.mpr ⟨_, ih, bind_eq_ok.mpr ⟨_, ofResolved_eq_ok.mpr hk, rfl⟩⟩
  | isNull hf =>
    exact bind_eq_ok.mpr ⟨_, ofNullTest_eq_ok.mpr ⟨_, _, _, rfl, hf, rfl⟩, rfl⟩
  | isNotNull hf =>
    exact bind_eq_ok.mpr ⟨_, ofNullTest_eq_ok.mpr ⟨_, _, _, rfl, hf, rfl⟩, rfl⟩
  | and _ hp _ hq ihl ihr =>
    refine bind_eq_ok.mpr ⟨_, ihl, bind_eq_ok.mpr ⟨_, ofResolved_eq_ok.mpr hp, ?_⟩⟩
    exact bind_eq_ok.mpr ⟨_, ihr, bind_eq_ok.mpr ⟨_, ofResolved_eq_ok.mpr hq, rfl⟩⟩
  | or _ hp _ hq ihl ihr =>
    refine bind_eq_ok.mpr ⟨_, ihl, bind_eq_ok.mpr ⟨_, ofResolved_eq_ok.mpr hp, ?_⟩⟩
    exact bind_eq_ok.mpr ⟨_, ihr, bind_eq_ok.mpr ⟨_, ofResolved_eq_ok.mpr hq, rfl⟩⟩
  | like negated text hf ht =>
    exact bind_eq_ok.mpr ⟨_, ofLike_eq_ok.mpr ⟨_, _, _, text, rfl, rfl, hf, ht, rfl⟩, rfl⟩
  | among negated hf hds =>
    exact bind_eq_ok.mpr ⟨_, ofMembership_eq_ok.mpr ⟨_, _, _, _, _, rfl, rfl, hf, hds, rfl⟩, rfl⟩
  | comparison _ _ hk ihl ihr =>
    refine bind_eq_ok.mpr ⟨_, ihl, bind_eq_ok.mpr ⟨_, rfl, bind_eq_ok.mpr ⟨_, ihr, ?_⟩⟩⟩
    exact bind_eq_ok.mpr ⟨_, rfl, bind_eq_ok.mpr ⟨_, ofTerms_eq_ok.mpr hk, rfl⟩⟩

theorem resolve_eq_ok {r : Resolved} : resolve s e = .ok r ↔ Stated s e r :=
  ⟨stated_of_resolve, resolve_of_stated⟩

/-- An expression has a condition when it stands for something that can be used as one. -/
theorem ofExpr_eq_ok : ofExpr s e = .ok k ↔ ∃ r, Stated s e r ∧ Usable r k := by
  simp only [ofExpr, bind_eq_ok, resolve_eq_ok, ofResolved_eq_ok]

theorem ofExpr_comparison {c : Comparison} :
    ofExpr s (.binary (.comparison c) l r) = .ok k ↔
      ∃ t u, Stated s l (.term t) ∧ Stated s r (.term u) ∧ Compared c t u k := by
  rw [ofExpr_eq_ok]
  constructor
  · rintro ⟨_, hstated, husable⟩
    cases hstated with
    | comparison hl hr hk =>
      cases husable
      exact ⟨_, _, hl, hr, hk⟩
  · rintro ⟨t, u, hl, hr, hk⟩
    exact ⟨_, .comparison hl hr hk, .condition k⟩

/-- A field is compared with a literal as a value of its type. -/
theorem ofExpr_fieldLiteral {c : Comparison} {name : String} {a : Literal} :
    ofExpr s (.binary (.comparison c) (.property name) (.literal a)) = .ok k ↔
      ∃ i f d, s.resolve name = some (i, f) ∧ (c.isOrdering = true → f.type ≠ .boolean) ∧
        Datum.ofLiteral? f a = some d ∧ k = compare c (.field i) (.value d) := by
  rw [ofExpr_comparison]
  constructor
  · rintro ⟨t, u, ht, hu, hcompared⟩
    cases ht with
    | property hf =>
      cases hu
      cases hcompared with
      | fieldLiteral ho hd => exact ⟨_, _, _, hf, ho, hd, rfl⟩
  · rintro ⟨i, f, d, hf, ho, hd, rfl⟩
    exact ⟨_, _, .property hf, .literal a, .fieldLiteral ho hd⟩

theorem ofExpr_resolvedLiteral {c : Comparison} {name : String} {i : Nat} {f : Field} {a : Literal}
    (hf : s.resolve name = some (i, f)) (ho : c.isOrdering = true → f.type ≠ .boolean) :
    ofExpr s (.binary (.comparison c) (.property name) (.literal a)) = .ok k ↔
      ∃ d, Datum.ofLiteral? f a = some d ∧ k = compare c (.field i) (.value d) := by
  rw [ofExpr_fieldLiteral]
  constructor
  · rintro ⟨j, g, d, hg, _, hd, rfl⟩
    obtain ⟨rfl, rfl⟩ := Prod.mk.inj (Option.some.inj (hf.symm.trans hg))
    exact ⟨d, hd, rfl⟩
  · rintro ⟨d, hd, rfl⟩
    exact ⟨i, f, d, hf, ho, hd, rfl⟩

/-- The condition of an expression that is made of the outcome of one step. -/
theorem ofExpr_eq_ok_of_step {step : Except CompileError Condition} {make : Condition → Condition}
    (h : resolve s e = step >>= fun m => return .term (.condition (make m))) :
    ofExpr s e = .ok k ↔ ∃ m, step = .ok m ∧ k = make m := by
  simp only [ofExpr, h, bind_eq_ok, pure_eq_ok]
  constructor
  · rintro ⟨_, ⟨m, hm, rfl⟩, hk⟩
    exact ⟨m, hm, (Except.ok.inj hk).symm⟩
  · rintro ⟨m, hm, rfl⟩
    exact ⟨_, ⟨m, hm, rfl⟩, rfl⟩

theorem ofExpr_not_eq_ok :
    ofExpr s (.unary .not e) = .ok k ↔ ∃ m, ofExpr s e = .ok m ∧ k = m.negate := by
  apply ofExpr_eq_ok_of_step
  rw [resolve, ofExpr]
  cases resolve s e <;> rfl

theorem ofExpr_nullTest_eq_ok {op : UnaryOp} (hop : op ≠ .not) :
    ofExpr s (.unary op e) = .ok k ↔ ∃ name i f, e = .property name ∧
      s.resolve name = some (i, f) ∧ k = nullTest (op = .isNull) i f := by
  rw [← ofNullTest_eq_ok]
  cases op with
  | not => exact absurd rfl hop
  | isNull => exact (ofExpr_eq_ok_of_step rfl).trans exists_eq_right'
  | isNotNull => exact (ofExpr_eq_ok_of_step rfl).trans exists_eq_right'

theorem ofExpr_like_eq_ok {negated : Bool} :
    ofExpr s (.binary (.like negated) l r) = .ok k ↔
      ∃ m, ofLike s l r = .ok m ∧ k = signed negated m :=
  ofExpr_eq_ok_of_step rfl

theorem ofExpr_among_eq_ok {negated : Bool} :
    ofExpr s (.binary (.among negated) l r) = .ok k ↔
      ∃ m, ofMembership s l r = .ok m ∧ k = signed negated m :=
  ofExpr_eq_ok_of_step rfl

end RowFilter.Condition
