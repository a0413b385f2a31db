import RowFilter.Proofs.Typed

namespace RowFilter

/-- Whether a value can be that of a literal. -/
def Datum.IsCoerced (d : Datum) : Prop :=
  ∃ f l, ofLiteral? f l = some d

theorem Datum.isCoerced_null : IsCoerced .null :=
  ⟨⟨"", .boolean, true⟩, .null, rfl⟩

theorem Datum.isCoerced_boolean (b : Bool) : IsCoerced (.boolean b) :=
  ⟨⟨"", .boolean, true⟩, .boolean b, rfl⟩

def Operand.ownValues : Operand → List Datum
  | .value d => [d]
  | _ => []

/-- The values that a condition, its parts aside, compares with others. -/
def Condition.ownValues : Condition → List Datum
  | .compare _ l r => l.ownValues ++ r.ownValues
  | .among _ values => values
  | _ => []

/-- The values that a condition and its parts compare with others. -/
def Condition.values (k : Condition) : List Datum :=
  k.parts.flatMap ownValues

def Operand.values (o : Operand) : List Datum :=
  o.ownValues ++ o.parts.flatMap Condition.ownValues

def Resolved.values : Resolved → List Datum
  | .term (.condition k) => k.values
  | _ => []

namespace Condition

variable {s : Schema} {k : Condition} {r : Resolved}

theorem values_cons {parts : List Condition} (h : k.parts = k :: parts) :
    k.values = k.ownValues ++ parts.flatMap ownValues := by
  rw [values, h, List.flatMap_cons]

@[simp] theorem values_not (k : Condition) : (not k).values = k.values :=
  values_cons rfl

@[simp] theorem values_and (l r : Condition) : (and l r).values = l.values ++ r.values :=
  (values_cons rfl).trans List.flatMap_append

@[simp] theorem values_or (l r : Condition) : (or l r).values = l.values ++ r.values :=
  (values_cons rfl).trans List.flatMap_append

@[simp] theorem values_negate (k : Condition) : k.negate.values = k.values := by
  cases k with
  | literal b => rfl
  | _ => exact values_not _

@[simp] theorem values_signed (negated : Bool) (k : Condition) :
    (signed negated k).values = k.values := by
  cases negated <;> simp [signed]

theorem mem_values_compare {c : Comparison} {l r : Operand} {d : Datum} :
    d ∈ (compare c l r).values ↔ d ∈ l.values ∨ d ∈ r.values := by
  rw [values_cons rfl, List.flatMap_append]
  simp only [ownValues, Operand.values, List.mem_append]
  exact or_or_or_comm

theorem values_of_usable (h : Usable r k) : k.values = r.values := by
  cases h with
  | field _ => rfl
  | literal _ => rfl
  | condition _ => rfl

theorem isCoerced_of_beside {t : Term} {o : Operand}
    (ht : ∀ d ∈ (Resolved.term t).values, d.IsCoerced) (h : Beside t o) :
    ∀ d ∈ o.values, d.IsCoerced := by
  cases h with
  | condition k => exact ht
  | field _ => exact List.forall_mem_nil _
  | literal _ => exact List.forall_mem_singleton.mpr (Datum.isCoerced_boolean _)

theorem isCoerced_of_compared {c : Comparison} {t u : Term}
    (ht : ∀ d ∈ (Resolved.term t).values, d.IsCoerced)
    (hu : ∀ d ∈ (Resolved.term u).values, d.IsCoerced) (h : Compared c t u k) :
    ∀ d ∈ k.values, d.IsCoerced := by
  cases h with
  | fieldLiteral _ hd => exact List.forall_mem_singleton.mpr ⟨_, _, hd⟩
  | literalField _ hd => exact List.forall_mem_singleton.mpr ⟨_, _, hd⟩
  | fields _ _ => exact List.forall_mem_nil _
  | literals _ _ => exact List.forall_mem_nil _
  | conditionLeft _ ho =>
    intro d hd
    exact (mem_values_compare.mp hd).elim (ht d) (isCoerced_of_beside hu ho d)
  | conditionRight _ ho =>
    intro d hd
    exact (mem_values_compare.mp hd).elim (isCoerced_of_beside ht ho d) (hu d)

theorem isCoerced_nullTest (asksNull : Bool) (i : Nat) (f : Field) :
    ∀ d ∈ (nullTest asksNull i f).values, d.IsCoerced := by
  unfold nullTest
  split
  next => exact List.forall_mem_singleton.mpr Datum.isCoerced_null
  next => exact List.forall_mem_nil _

theorem values_patternTest (i : Nat) (text : String) : (patternTest i text).values = [] := by
  unfold patternTest
  split <;> rfl

theorem isCoerced_membership {i : Nat} {f : Field} {ls : List Literal} {ds : List Datum}
    (hds : ls.map (Datum.ofLiteral? f) = ds.map some) :
    ∀ d ∈ (membership i ds).values, d.IsCoerced := by
  unfold membership
  split
  next => exact List.forall_mem_nil _
  next =>
    intro d hd
    have hmem : d ∈ ds := by simpa [values, parts, ownValues] using hd
    obtain ⟨l, _, hl⟩ := List.mem_map.mp (hds ▸ List.mem_map_of_mem hmem)
    exact ⟨f, l, hl⟩

/-- Every value in a compiled condition is that of a literal. -/
theorem isCoerced_of_stated {e : Expr} (h : Stated s e r) : ∀ d ∈ r.values, d.IsCoerced := by
  induction h with
  | property _ => exact List.forall_mem_nil _
  | literal _ => exact List.forall_mem_nil _
  | array _ => exact List.forall_mem_nil _
  | not _ hk ih => simpa [Resolved.values, values_of_usable hk] using ih
  | isNull _ => exact isCoerced_nullTest true _ _
  | isNotNull _ => exact isCoerced_nullTest false _ _
  | and _ hp _ hq ihl ihr =>
    rw [← values_of_usable hp] at ihl
    rw [← values_of_usable hq] at ihr
    rw [Resolved.values, values_and]
    exact List.forall_mem_append.mpr ⟨ihl, ihr⟩
  | or _ hp _ hq ihl ihr =>
    rw [← values_of_usable hp] at ihl
    rw [← values_of_usable hq] at ihr
    rw [Resolved.values, values_or]
    exact List.forall_mem_append.mpr ⟨ihl, ihr⟩
  | like negated text _ _ =>
    rw [Resolved.values, values_signed, values_patternTest]
    exact List.forall_mem_nil _
  | among negated _ hds =>
    rw [Resolved.values, values_signed]
    exact isCoerced_membership hds
  | comparison _ _ hk ihl ihr => exact isCoerced_of_compared ihl ihr hk

end Condition

end RowFilter
