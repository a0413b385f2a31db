import RowFilter.Expr.Sql
import RowFilter.Proofs.Counterparts
import RowFilter.Proofs.Stated

namespace RowFilter

namespace Expr

/-- Whether arrays stand to the right of membership tests only. -/
def ArraysPlaced : Expr → Prop
  | property _ => True
  | literal _ => True
  | array _ => False
  | unary _ e => e.ArraysPlaced
  | binary (.among _) l r => l.ArraysPlaced ∧ (r.isArray = true ∨ r.ArraysPlaced)
  | binary _ l r => l.ArraysPlaced ∧ r.ArraysPlaced

/-- Whether all membership tests have arrays on the right. -/
def MembershipsHaveArrays : Expr → Prop
  | property _ => True
  | literal _ => True
  | array _ => True
  | unary _ e => e.MembershipsHaveArrays
  | binary op l r => (∀ negated, op = .among negated → r.isArray = true) ∧
      l.MembershipsHaveArrays ∧ r.MembershipsHaveArrays

theorem lacksArray_eq_false {op : BinaryOp} {r : Expr} :
    lacksArray op r = false ↔ ∀ negated, op = .among negated → r.isArray = true := by
  cases op <;> simp [lacksArray]

/-- Whether all null tests are those of properties. -/
def NullTestsNameFields : Expr → Prop
  | property _ => True
  | literal _ => True
  | array _ => True
  | unary .not e => e.NullTestsNameFields
  | unary _ e => ∃ name, e = property name
  | binary _ l r => l.NullTestsNameFields ∧ r.NullTestsNameFields

/-- All that is checked in an expression against a schema, but for the places of its arrays. -/
structure CheckedIn (s : Schema) (e : Expr) : Prop where
  named : ∀ n ∈ e.properties, ∃ i f, s.resolve n = some (i, f)
  memberships : e.MembershipsHaveArrays
  nullTests : e.NullTestsNameFields

variable {s : Schema} {e l r : Expr}

theorem CheckedIn.not (h : e.CheckedIn s) : (unary .not e).CheckedIn s :=
  ⟨h.named, h.memberships, h.nullTests⟩

theorem checkedIn_property {name : String} {i : Nat} {f : Field}
    (h : s.resolve name = some (i, f)) : (property name).CheckedIn s where
  named := List.forall_mem_singleton.mpr ⟨i, f, h⟩
  memberships := trivial
  nullTests := trivial

theorem checkedIn_literal (c : Literal) : (literal c).CheckedIn s where
  named := List.forall_mem_nil _
  memberships := trivial
  nullTests := trivial

theorem checkedIn_array (ls : List Literal) : (array ls).CheckedIn s where
  named := List.forall_mem_nil _
  memberships := trivial
  nullTests := trivial

theorem CheckedIn.binary {op : BinaryOp} (hl : l.CheckedIn s) (hr : r.CheckedIn s)
    (h : ∀ negated, op = .among negated → r.isArray = true) : (binary op l r).CheckedIn s where
  named := List.forall_mem_append.mpr ⟨hl.named, hr.named⟩
  memberships := ⟨h, hl.memberships, hr.memberships⟩
  nullTests := ⟨hl.nullTests, hr.nullTests⟩

end Expr

namespace Condition

variable {s : Schema} {e : Expr} {r : Resolved} {k : Condition}

theorem checkedIn_of_stated (h : Stated s e r) : e.CheckedIn s := by
  induction h with
  | property hf => exact Expr.checkedIn_property hf
  | literal l => exact Expr.checkedIn_literal l
  | array ls => exact Expr.checkedIn_array ls
  | not _ _ ih => exact ih.not
  | isNull hf => exact ⟨(Expr.checkedIn_property hf).named, trivial, ⟨_, rfl⟩⟩
  | isNotNull hf => exact ⟨(Expr.checkedIn_property hf).named, trivial, ⟨_, rfl⟩⟩
  | and _ _ _ _ ihl ihr => exact ihl.binary ihr (by simp)
  | or _ _ _ _ ihl ihr => exact ihl.binary ihr (by simp)
  | like negated text hf _ =>
    exact (Expr.checkedIn_property hf).binary (Expr.checkedIn_literal _) (by simp)
  | among negated hf _ =>
    exact (Expr.checkedIn_property hf).binary (Expr.checkedIn_array _) fun _ _ => rfl
  | comparison _ _ _ ihl ihr => exact ihl.binary ihr (by simp)

theorem Usable.ne_array (h : Usable r k) : r ≠ .array := by
  cases h <;> simp

/-- Only a bare array is not put in its place by the membership test that it belongs to. -/
theorem arraysPlaced_of_stated (h : Stated s e r) (hr : r ≠ .array) : e.ArraysPlaced := by
  induction h with
  | property _ => trivial
  | literal l => trivial
  | array ls => exact absurd rfl hr
  | not _ hk ih => exact ih hk.ne_array
  | isNull _ => trivial
  | isNotNull _ => trivial
  | and _ hp _ hq ihl ihr => exact ⟨ihl hp.ne_array, ihr hq.ne_array⟩
  | or _ hp _ hq ihl ihr => exact ⟨ihl hp.ne_array, ihr hq.ne_array⟩
  | like negated text _ _ => exact ⟨trivial, trivial⟩
  | among negated _ _ => exact ⟨trivial, .inl rfl⟩
  | comparison _ _ _ ihl ihr => exact ⟨ihl (by simp), ihr (by simp)⟩

/-- An expression is refused for a name of its own that has no field. -/
theorem missing_of_unknownField {n : String} (h : ofExpr s e = .error (.unknownField n)) :
    n ∈ e.properties ∧ s.resolve n = none := by
  -- Beside its own compilation an expression is refused for the name that is refused there.
  have hcarries : s.Carries s (fun m m' => m ∈ e.properties ∧ m = m') Eq := by
    rintro m m' i f ⟨_, rfl⟩ hs
    exact ⟨i, f, hs, rfl, .refl f⟩
  have hfollows := ofExpr_follows hcarries (e.renamed_self.imp fun m hm _ heq => ⟨hm, heq⟩)
  rw [h] at hfollows
  cases hfollows with
  | unknown hn hs _ => exact ⟨hn.1, hs⟩

end Condition

/-- A program with a state that has a result from every state on. -/
def Succeeds {σ ε α : Type} (x : ExceptT ε (StateM σ) α) : Prop :=
  ∀ before, ∃ a behind, x.run.run before = (.ok a, behind)

section Programs

variable {σ ε α β : Type} {x : ExceptT ε (StateM σ) α} {f : α → ExceptT ε (StateM σ) β}

theorem succeeds_pure (a : α) : Succeeds (pure a : ExceptT ε (StateM σ) α) :=
  fun before => ⟨a, before, rfl⟩

theorem Succeeds.bind (hx : Succeeds x) (hf : ∀ a, Succeeds (f a)) : Succeeds (x >>= f) := by
  intro before
  obtain ⟨a, between, ha⟩ := hx before
  obtain ⟨b, behind, hb⟩ := hf a between
  refine ⟨b, behind, ?_⟩
  rw [run_bind_of_ok ha, hb]

end Programs

/-- SQL lacks nothing but arrays to the right of membership tests and columns. -/
theorem Expr.succeeds_toSql {σ ε : Type} {column : String → ExceptT ε (StateM σ) (List Char)}
    {refuse : TypeMismatch → ExceptT ε (StateM σ) (List Char)} {e : Expr}
    (h : e.MembershipsHaveArrays) (hcolumn : ∀ n, Succeeds (column n)) :
    Succeeds (e.toSql column refuse) := by
  induction e with
  | property name => exact hcolumn name
  | literal l => exact succeeds_pure _
  | array ls => exact succeeds_pure _
  | unary op e ih => exact (ih h).bind fun _ => succeeds_pure _
  | binary op l r ihl ihr =>
    obtain ⟨hop, hl, hr⟩ := h
    rw [toSql_binary (lacksArray_eq_false.mpr hop)]
    exact (ihl hl).bind fun _ => (ihr hr).bind fun _ => succeeds_pure _

/-- What has a condition is whole: all of its names have fields, arrays stand to the right of
membership tests and nowhere else, null tests are those of properties, and there is SQL for it
whatever the columns are called. What is refused for an unknown field has a property of that name,
which has no field. -/
theorem Condition.checked_of_ofExpr (s : Schema) (e : Expr) :
    (∀ k, ofExpr s e = .ok k →
      (∀ n ∈ e.properties, ∃ i f, s.resolve n = some (i, f)) ∧ e.ArraysPlaced ∧
        e.MembershipsHaveArrays ∧ e.NullTestsNameFields ∧
        ∀ (σ ε : Type) (column : String → ExceptT ε (StateM σ) (List Char))
          (refuse : TypeMismatch → ExceptT ε (StateM σ) (List Char)),
          (∀ n, Succeeds (column n)) → Succeeds (e.toSql column refuse)) ∧
    ∀ n, ofExpr s e = .error (.unknownField n) → n ∈ e.properties ∧ s.resolve n = none := by
  refine ⟨fun k hk => ?_, fun n hn => missing_of_unknownField hn⟩
  obtain ⟨r, hstated, husable⟩ := ofExpr_eq_ok.mp hk
  have hchecked := checkedIn_of_stated hstated
  exact ⟨hchecked.named, arraysPlaced_of_stated hstated husable.ne_array, hchecked.memberships,
    hchecked.nullTests, fun _ _ _ _ hcolumn => Expr.succeeds_toSql hchecked.memberships hcolumn⟩

/-- The columns are numbered as they are asked for. -/
theorem Condition.checked_of_ofExpr_numbered :
    let s : Schema := ⟨[⟨"Qty", .integer .u8, false⟩]⟩
    let number : ExceptT Unit (StateM Nat) (List Char) := do
      modify (· + 1)
      return '$' :: Nat.toDigits 10 (← get)
    let e : Expr := .binary (.connective .or) (.unary .isNull (.property "qty"))
      (.binary (.among true) (.property "Qty") (.array []))
    let other : Expr := .binary (.connective .and) e (.property "Note")
    (∃ k, ofExpr s e = .ok k) ∧ e.MembershipsHaveArrays ∧
      Succeeds (e.toSql (fun _ => number) fun _ => number) ∧
      ofExpr s other = .error (.unknownField "Note") ∧ "Note" ∈ other.properties ∧
      s.resolve "Note" = none := by
  intro s number e other
  have hk : ofExpr s e = .ok (.or (.literal false) (.literal true)) := by rfl
  have hnumber : Succeeds number := fun before => ⟨_, before + 1, rfl⟩
  have hother : ofExpr s other = .error (.unknownField "Note") := by rfl
  obtain ⟨_, _, hmemberships, _, hsql⟩ := (checked_of_ofExpr s e).1 _ hk
  exact ⟨⟨_, hk⟩, hmemberships, hsql _ _ _ _ fun _ => hnumber, hother,
    (checked_of_ofExpr s other).2 _ hother⟩

end RowFilter
