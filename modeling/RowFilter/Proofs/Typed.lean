import RowFilter.Proofs.Comparable
import RowFilter.Proofs.Stated

namespace RowFilter

/-- The type of the field at an index. -/
def Schema.typeAt? (s : Schema) (i : Nat) : Option FieldType :=
  s.fields[i]?.map Field.type

theorem Schema.typeAt?_of_resolve {s : Schema} {name : String} {i : Nat} {f : Field}
    (h : s.resolve name = some (i, f)) : s.typeAt? i = some f.type := by
  simp [typeAt?, getElem?_of_resolve h]

theorem Schema.lt_of_typeAt? {s : Schema} {i : Nat} {t : FieldType} (h : s.typeAt? i = some t) :
    i < s.fields.length := by
  obtain ⟨f, hf, _⟩ := Option.map_eq_some_iff.mp h
  exact (List.getElem?_eq_some_iff.mp hf).1

/-- A field has in a conforming row a value of its type, or null. -/
theorem Schema.Admits.isOf_of_typeAt? {s : Schema} {row : Row} {i : Nat} {t : FieldType}
    (hrow : s.Admits row) (h : s.typeAt? i = some t) : row i = .null ∨ (row i).isOf t = true := by
  obtain ⟨f, hf, rfl⟩ := Option.map_eq_some_iff.mp h
  exact Field.isOf_of_admits (hrow i f hf)

mutual

/-- A condition and the conditions that it is made of, those that it compares included. -/
def Condition.parts : Condition → List Condition
  | .compare c l r => .compare c l r :: (l.parts ++ r.parts)
  | .not c => .not c :: c.parts
  | .and l r => .and l r :: (l.parts ++ r.parts)
  | .or l r => .or l r :: (l.parts ++ r.parts)
  | .literal b => [.literal b]
  | .field i => [.field i]
  | .like i p => [.like i p]
  | .among i values => [.among i values]

def Operand.parts : Operand → List Condition
  | .test c => c.parts
  | .field _ => []
  | .value _ => []

end

def Operand.indexes : Operand → List Nat
  | .field i => [i]
  | .value _ => []
  | .test _ => []

/-- The indexes of the fields that a condition reads, its parts aside. -/
def Condition.indexes : Condition → List Nat
  | .field i => [i]
  | .compare _ l r => l.indexes ++ r.indexes
  | .like i _ => [i]
  | .among i _ => [i]
  | _ => []

/-- Whether a condition, its parts aside, reads and compares what it may. -/
def Condition.FitsIn (s : Schema) : Condition → Prop
  | .field i => s.typeAt? i = some .boolean
  | .like i _ => s.typeAt? i = some .string
  | .compare _ l r => (∀ i ∈ l.indexes ++ r.indexes, i < s.fields.length) ∧
      ∀ row, s.Admits row → (l.valueIn row).Meets (r.valueIn row)
  | .among i values => i < s.fields.length ∧
      ∀ row, s.Admits row → ∀ v ∈ values, v.Meets (row i)
  | _ => True

def Condition.Typed (s : Schema) (k : Condition) : Prop :=
  ∀ n ∈ k.parts, n.FitsIn s

/-- An operand whose parts fit, and whose value in every conforming row is of a type or null. -/
structure Operand.Typed (s : Schema) (o : Operand) (t : FieldType) : Prop where
  indexes : ∀ i ∈ o.indexes, i < s.fields.length
  parts : ∀ n ∈ o.parts, n.FitsIn s
  value : ∀ row, s.Admits row → o.valueIn row = .null ∨ (o.valueIn row).isOf t = true

namespace Operand.Typed

variable {s : Schema}

theorem ofField {i : Nat} {t : FieldType} (h : s.typeAt? i = some t) :
    (Operand.field i).Typed s t where
  indexes := List.forall_mem_singleton.mpr (Schema.lt_of_typeAt? h)
  parts := List.forall_mem_nil _
  value _ hrow := hrow.isOf_of_typeAt? h

theorem ofValue {d : Datum} {t : FieldType} (h : d = .null ∨ d.isOf t = true) :
    (Operand.value d).Typed s t where
  indexes := List.forall_mem_nil _
  parts := List.forall_mem_nil _
  value _ _ := h

theorem ofLiteral {f : Field} {l : Literal} {d : Datum} (h : Datum.ofLiteral? f l = some d) :
    (Operand.value d).Typed s f.type :=
  ofValue (Field.isOf_of_admits (Datum.admits_ofLiteral? h))

theorem ofTest {k : Condition} (h : k.Typed s) : (Operand.test k).Typed s .boolean where
  indexes := List.forall_mem_nil _
  parts := h
  value _ _ := .inr rfl

end Operand.Typed

namespace Condition

variable {s : Schema} {k : Condition}

theorem typed_cons {parts : List Condition} (h : k.parts = k :: parts) :
    k.Typed s ↔ k.FitsIn s ∧ ∀ n ∈ parts, n.FitsIn s := by
  unfold Typed
  rw [h, List.forall_mem_cons]

theorem typed_leaf (h : k.parts = [k]) : k.Typed s ↔ k.FitsIn s := by
  simp [typed_cons h]

@[simp] theorem typed_literal (b : Bool) : (literal b).Typed s :=
  (typed_leaf rfl).mpr trivial

@[simp] theorem typed_field {i : Nat} : (field i).Typed s ↔ s.typeAt? i = some .boolean :=
  typed_leaf rfl

@[simp] theorem typed_like {i : Nat} {p : Pattern} :
    (like i p).Typed s ↔ s.typeAt? i = some .string :=
  typed_leaf rfl

@[simp] theorem typed_not : (not k).Typed s ↔ k.Typed s :=
  (typed_cons rfl).trans (and_iff_right trivial)

@[simp] theorem typed_and {l r : Condition} : (and l r).Typed s ↔ l.Typed s ∧ r.Typed s :=
  (typed_cons rfl).trans ((and_iff_right trivial).trans List.forall_mem_append)

@[simp] theorem typed_or {l r : Condition} : (or l r).Typed s ↔ l.Typed s ∧ r.Typed s :=
  (typed_cons rfl).trans ((and_iff_right trivial).trans List.forall_mem_append)

@[simp] theorem typed_negate : k.negate.Typed s ↔ k.Typed s := by
  cases k <;> simp [negate]

@[simp] theorem typed_signed {negated : Bool} : (signed negated k).Typed s ↔ k.Typed s := by
  cases negated <;> simp [signed]

/-- Operands of comparable types can be compared. -/
theorem typed_compare {c : Comparison} {l r : Operand} {t u : FieldType} (hl : l.Typed s t)
    (hr : r.Typed s u) (h : t.isComparableWith u = true) : (compare c l r).Typed s := by
  refine (typed_cons rfl).mpr ⟨⟨?_, fun row hrow => ?_⟩, ?_⟩
  · exact List.forall_mem_append.mpr ⟨hl.indexes, hr.indexes⟩
  · exact Datum.meets_of_isOf (hl.value row hrow) (hr.value row hrow) h
  · exact List.forall_mem_append.mpr ⟨hl.parts, hr.parts⟩

/-- What an expression stands for is typed: a field is in the schema and a condition is typed. -/
def ResolvedTyped (s : Schema) : Resolved → Prop
  | .term (.field i f) => s.typeAt? i = some f.type
  | .term (.literal _) => True
  | .term (.condition k) => k.Typed s
  | .array => True

theorem typed_of_usable {r : Resolved} (hr : ResolvedTyped s r) (h : Usable r k) : k.Typed s := by
  cases h with
  | field ht => exact typed_field.mpr (hr.trans (congrArg some ht))
  | literal b => exact typed_literal b
  | condition k => exact hr

/-- Everything beside a condition is a truth value or null. -/
theorem typed_of_beside {t : Term} {o : Operand} (ht : ResolvedTyped s (.term t))
    (h : Beside t o) : o.Typed s .boolean := by
  cases h with
  | condition k => exact .ofTest ht
  | field hf => exact .ofField (ht.trans (congrArg some hf))
  | literal _ => exact .ofValue (.inr rfl)

theorem typed_of_compared {c : Comparison} {t u : Term} (ht : ResolvedTyped s (.term t))
    (hu : ResolvedTyped s (.term u)) (h : Compared c t u k) : k.Typed s := by
  cases h with
  | fieldLiteral _ hd =>
    exact typed_compare (.ofField ht) (.ofLiteral hd) (FieldType.isComparableWith_self _)
  | literalField _ hd =>
    exact typed_compare (.ofLiteral hd) (.ofField hu) (FieldType.isComparableWith_self _)
  | fields hfg _ => exact typed_compare (.ofField ht) (.ofField hu) hfg
  | literals _ _ => exact typed_literal _
  | conditionLeft _ ho => exact typed_compare (.ofTest ht) (typed_of_beside hu ho) rfl
  | conditionRight _ ho => exact typed_compare (typed_of_beside ht ho) (.ofTest hu) rfl

theorem typed_nullTest {i : Nat} {f : Field} (h : s.typeAt? i = some f.type) (asksNull : Bool) :
    (nullTest asksNull i f).Typed s := by
  unfold nullTest
  split
  next =>
    exact typed_compare (.ofField h) (.ofValue (.inl rfl)) (FieldType.isComparableWith_self f.type)
  next => exact typed_literal _

theorem typed_patternTest {i : Nat} (text : String) (h : s.typeAt? i = some .string) :
    (patternTest i text).Typed s := by
  unfold patternTest
  split
  · exact typed_like.mpr h
  · exact typed_literal true

theorem typed_membership {i : Nat} {f : Field} {ls : List Literal} {ds : List Datum}
    (h : s.typeAt? i = some f.type) (hds : ls.map (Datum.ofLiteral? f) = ds.map some) :
    (membership i ds).Typed s := by
  have hadmits : ∀ d ∈ ds, f.admits d = true := by
    intro d hd
    obtain ⟨l, _, hl⟩ := List.mem_map.mp (hds ▸ List.mem_map_of_mem hd)
    exact Datum.admits_ofLiteral? hl
  unfold membership
  split
  · exact typed_literal false
  · refine (typed_leaf rfl).mpr ⟨Schema.lt_of_typeAt? h, fun row hrow d hd => ?_⟩
    exact Datum.meets_of_isOf (Field.isOf_of_admits (hadmits d hd)) (hrow.isOf_of_typeAt? h)
      (FieldType.isComparableWith_self _)

/-- What is stated in a schema is typed in every schema with fields of the same types, whichever of
them admit null. -/
theorem typed_of_stated_alike {t : Schema} {e : Expr} {r : Resolved}
    (htypes : ∀ i, t.typeAt? i = s.typeAt? i) (h : Stated s e r) : ResolvedTyped t r := by
  have htype : ∀ {name i f}, s.resolve name = some (i, f) → t.typeAt? i = some f.type :=
    fun {_ i _} hf => (htypes i).trans (Schema.typeAt?_of_resolve hf)
  -- Every rule makes its condition of typed ones, so the tree is never taken apart.
  induction h with
  | property hf => exact htype hf
  | literal l => trivial
  | array ls => trivial
  | not _ hk ih => exact typed_negate.mpr (typed_of_usable ih hk)
  | isNull hf => exact typed_nullTest (htype hf) true
  | isNotNull hf => exact typed_nullTest (htype hf) false
  | and _ hp _ hq ihl ihr => exact typed_and.mpr ⟨typed_of_usable ihl hp, typed_of_usable ihr hq⟩
  | or _ hp _ hq ihl ihr => exact typed_or.mpr ⟨typed_of_usable ihl hp, typed_of_usable ihr hq⟩
  | like negated text hf ht =>
    exact typed_signed.mpr (typed_patternTest text ((htype hf).trans (congrArg some ht)))
  | among negated hf hds => exact typed_signed.mpr (typed_membership (htype hf) hds)
  | comparison _ _ hk ihl ihr => exact typed_of_compared ihl ihr hk

theorem typed_of_stated {e : Expr} {r : Resolved} (h : Stated s e r) : ResolvedTyped s r :=
  typed_of_stated_alike (fun _ => rfl) h

/-- The fields that a fitting condition reads are in the schema. -/
theorem lt_of_fitsIn {i : Nat} (h : k.FitsIn s) (hi : i ∈ k.indexes) : i < s.fields.length := by
  cases k with
  | field j =>
    cases List.mem_singleton.mp hi
    exact Schema.lt_of_typeAt? h
  | like j p =>
    cases List.mem_singleton.mp hi
    exact Schema.lt_of_typeAt? h
  | compare c l r => exact h.1 i hi
  | among j values =>
    cases List.mem_singleton.mp hi
    exact h.1
  | _ => cases hi

/-- Compilation is type sound. Every part of a compiled condition reads fields of the schema, like
conditions strings and bare fields booleans; and the values that meet in a comparison or a
membership test on a conforming row can be compared, so that they have an order unless one of them
is null or no number. -/
theorem wellTyped_of_ofExpr {e : Expr} (h : ofExpr s e = .ok k) : ∀ n ∈ k.parts,
    (∀ i ∈ n.indexes, i < s.fields.length) ∧
    (∀ i p, n = like i p → s.typeAt? i = some .string) ∧
    (∀ i, n = field i → s.typeAt? i = some .boolean) ∧
    ∀ row, s.Admits row →
      (∀ c l r, n = compare c l r → (l.valueIn row).Meets (r.valueIn row)) ∧
      ∀ i values, n = among i values → ∀ v ∈ values, v.Meets (row i) := by
  intro n hn
  obtain ⟨r, hr, hk⟩ := ofExpr_eq_ok.mp h
  have hfits : n.FitsIn s := typed_of_usable (typed_of_stated hr) hk n hn
  refine ⟨fun i => lt_of_fitsIn hfits, ?_, ?_, fun row hrow => ⟨?_, ?_⟩⟩
  · rintro i p rfl
    exact hfits
  · rintro i rfl
    exact hfits
  · rintro c l r rfl
    exact hfits.2 row hrow
  · rintro i values rfl
    exact hfits.2 row hrow

theorem wellTyped_of_ofExpr_ratio :
    let s : Schema := ⟨[⟨"Qty", .integer .u8, true⟩, ⟨"Ratio", .float64, false⟩]⟩
    let e : Expr := .unary .not (.binary (.comparison .less) (.property "Qty") (.property "ratio"))
    let k : Condition := .not (.compare .less (.field 0) (.field 1))
    let row : Row := fun i => if i = 0 then .integer 3 else .float .nan
    ofExpr s e = .ok k ∧ s.Admits row ∧ (row 0).order? (row 1) = none ∧ (row 0).Meets (row 1) := by
  intro s e k row
  have hk : ofExpr s e = .ok k := by rfl
  have hrow : s.Admits row := by
    intro i f hf
    match i with
    | 0 => cases hf; rfl
    | 1 => cases hf; rfl
    | i + 2 => cases hf
  have hpart : compare .less (.field 0) (.field 1) ∈ k.parts := by simp [k, parts]
  obtain ⟨_, _, _, hmeets⟩ := wellTyped_of_ofExpr hk _ hpart
  have hnone : (row 0).order? (row 1) = none := Double.order?_eq_none.mpr (.inr (by decide))
  exact ⟨hk, hrow, hnone, (hmeets row hrow).1 _ _ _ rfl⟩

end Condition

end RowFilter
