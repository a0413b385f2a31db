import RowFilter.Proofs.Conforming
import RowFilter.Proofs.Patterns
import RowFilter.Proofs.Stated

namespace RowFilter

/-- The value in a row of the field that a name stands for. -/
def Schema.valueOf (s : Schema) (row : Row) (name : String) : Datum :=
  match s.resolve name with
  | some (i, _) => row i
  | none => .null

/-- A literal as a value of the field that a name stands for. -/
def Schema.coerced (s : Schema) (name : String) (l : Literal) : Datum :=
  match s.resolve name with
  | some (_, f) => (Datum.ofLiteral? f l).getD .null
  | none => .null

namespace Expr

def isCall : Expr → Bool
  | unary .. => true
  | binary .. => true
  | _ => false

/-- The value that a literal has beside another operand: of the type of a property, of its own
kind beside a literal, and a truth value beside a condition. -/
def literalBeside (s : Schema) (l : Literal) : Expr → Datum
  | property name => s.coerced name l
  | literal _ => Datum.ofLiteral l
  | array _ => .null
  | unary .. => (l.truth?.map .boolean).getD .null
  | binary .. => (l.truth?.map .boolean).getD .null

/-- The value that an operand has beside another one, where `truth` says whether it holds if it is
a condition. -/
def valueBeside (s : Schema) (row : Row) (e other : Expr) (truth : Bool) : Datum :=
  match e with
  | property name => s.valueOf row name
  | literal l => literalBeside s l other
  | array _ => .null
  | unary .. => .boolean truth
  | binary .. => .boolean truth

/-- Whether a property is null. -/
def nullIn (s : Schema) (row : Row) : Expr → Bool
  | property name => s.valueOf row name = .null
  | _ => false

/-- Whether a property is a string that a pattern describes. The lone percent sign describes all
values. -/
def likeIn (s : Schema) (row : Row) : Expr → Expr → Bool
  | property name, literal (.string pattern) =>
    pattern = "%" ||
      match s.valueOf row name with
      | .string text => Pattern.describes pattern.toList text.toList
      | _ => false
  | _, _ => false

/-- Whether a property is equal to some element of an array. -/
def amongIn (s : Schema) (row : Row) : Expr → Expr → Bool
  | property name, array ls => ls.any fun l => (s.coerced name l).equals (s.valueOf row name)
  | _, _ => false

/-- Whether an expression holds of a row. -/
def holdsOf (s : Schema) (row : Row) : Expr → Bool
  | property name => s.valueOf row name = .boolean true
  | literal l => l = .boolean true
  | array _ => false
  | unary .not e => !e.holdsOf s row
  | unary .isNull e => e.nullIn s row
  | unary .isNotNull e => !e.nullIn s row
  | binary (.connective .and) l r => l.holdsOf s row && r.holdsOf s row
  | binary (.connective .or) l r => l.holdsOf s row || r.holdsOf s row
  | binary (.like negated) l r => negated ^^ likeIn s row l r
  | binary (.among negated) l r => negated ^^ amongIn s row l r
  | binary (.comparison c) l r =>
    c.holds (l.valueBeside s row r (l.holdsOf s row)) (r.valueBeside s row l (r.holdsOf s row))

variable {s : Schema} {row : Row}

theorem literalBeside_call {e : Expr} (h : e.isCall = true) {l : Literal} {b : Bool}
    (hl : l.truth? = some b) : literalBeside s l e = .boolean b := by
  cases e <;> simp_all [isCall, literalBeside]

theorem valueBeside_call {e other : Expr} (h : e.isCall = true) (truth : Bool) :
    e.valueBeside s row other truth = .boolean truth := by
  cases e <;> simp_all [isCall, valueBeside]

end Expr

theorem Schema.valueOf_of_resolve {s : Schema} {row : Row} {name : String} {i : Nat} {f : Field}
    (h : s.resolve name = some (i, f)) : s.valueOf row name = row i := by
  simp [valueOf, h]

theorem Schema.coerced_of_resolve {s : Schema} {name : String} {i : Nat} {f : Field}
    {l : Literal} {d : Datum} (h : s.resolve name = some (i, f))
    (hl : Datum.ofLiteral? f l = some d) : s.coerced name l = d := by
  simp [coerced, h, hl]

theorem Datum.equals_null (d : Datum) : d.equals .null = decide (d = .null) := by
  cases d <;> simp [equals, order?]

namespace Condition

variable {s : Schema} {row : Row} {k : Condition}

@[simp] theorem holds_negate (k : Condition) : k.negate.holds row = !k.holds row := by
  cases k <;> simp [negate, holds]

theorem holds_signed (negated : Bool) (k : Condition) :
    (signed negated k).holds row = (negated ^^ k.holds row) := by
  cases negated <;> simp [signed]

/-- What an expression stands for is what it is read as: a property as its field, a literal as
itself, and a call as a condition that holds when the call does. -/
def ReadAs (s : Schema) (row : Row) (e : Expr) : Resolved → Prop
  | .term (.field i f) => ∃ name, e = .property name ∧ s.resolve name = some (i, f)
  | .term (.literal l) => e = .literal l
  | .term (.condition k) => e.isCall = true ∧ k.holds row = e.holdsOf s row
  | .array => True

theorem holds_of_usable {e : Expr} {r : Resolved} (he : ReadAs s row e r) (h : Usable r k) :
    k.holds row = e.holdsOf s row := by
  cases h with
  | @field i f ht =>
    obtain ⟨name, rfl, hf⟩ := he
    rw [Expr.holdsOf, s.valueOf_of_resolve hf, holds]
    cases row i <;> simp [Datum.truth?]
  | literal b =>
    have hl : e = .literal (.boolean b) := he
    subst hl
    cases b <;> simp [holds, Expr.holdsOf]
  | condition k => exact he.2

/-- Beside a condition every operand has the value that it is read with. -/
theorem valueIn_of_beside {e other : Expr} {t : Term} {o : Operand} (hother : other.isCall = true)
    (he : ReadAs s row e (.term t)) (h : Beside t o) :
    o.valueIn row = e.valueBeside s row other (e.holdsOf s row) := by
  cases h with
  | condition k =>
    rw [Expr.valueBeside_call he.1, Operand.valueIn, he.2]
  | field ht =>
    obtain ⟨name, rfl, hf⟩ := he
    rw [Expr.valueBeside, s.valueOf_of_resolve hf, Operand.valueIn]
  | @literal l b hl =>
    have he' : e = .literal l := he
    subst he'
    rw [Expr.valueBeside, Expr.literalBeside_call hother hl, Operand.valueIn]

theorem holds_of_compared {c : Comparison} {l r : Expr} {t u : Term}
    (hl : ReadAs s row l (.term t)) (hr : ReadAs s row r (.term u)) (h : Compared c t u k) :
    k.holds row = (Expr.binary (.comparison c) l r).holdsOf s row := by
  rw [Expr.holdsOf]
  cases h with
  | fieldLiteral _ hd =>
    obtain ⟨name, rfl, hf⟩ := hl
    cases hr
    simp only [holds, Operand.valueIn, Expr.valueBeside, Expr.literalBeside,
      s.valueOf_of_resolve hf, s.coerced_of_resolve hf hd]
  | literalField _ hd =>
    obtain ⟨name, rfl, hf⟩ := hr
    cases hl
    simp only [holds, Operand.valueIn, Expr.valueBeside, Expr.literalBeside,
      s.valueOf_of_resolve hf, s.coerced_of_resolve hf hd]
  | fields _ _ =>
    obtain ⟨name, rfl, hf⟩ := hl
    obtain ⟨other, rfl, hg⟩ := hr
    simp only [holds, Operand.valueIn, Expr.valueBeside, s.valueOf_of_resolve hf,
      s.valueOf_of_resolve hg]
  | literals _ _ =>
    cases hl
    cases hr
    simp only [holds, Expr.valueBeside, Expr.literalBeside]
  | conditionLeft _ ho =>
    rw [holds, valueIn_of_beside hl.1 hr ho, Operand.valueIn, hl.2,
      Expr.valueBeside_call hl.1]
  | conditionRight _ ho =>
    rw [holds, valueIn_of_beside hr.1 hl ho, Operand.valueIn, hr.2,
      Expr.valueBeside_call hr.1]

theorem nullTest_of_not_admitsNull {i : Nat} {f : Field} (hn : f.admitsNull = false)
    (asksNull : Bool) :
    nullTest asksNull i f = .literal (!asksNull) := by
  simp [nullTest, hn]

/-- Where a field admits null, a null test asks each row, also one that does not conform. -/
theorem holds_nullTest_of_admitsNull {i : Nat} {f : Field} (hn : f.admitsNull = true)
    (asksNull : Bool) (row : Row) :
    (nullTest asksNull i f).holds row = (!asksNull ^^ decide (row i = .null)) := by
  rw [nullTest, if_pos hn]
  cases asksNull <;> simp [holds, Operand.valueIn, Comparison.holds, Datum.equals_null]

/-- A null test that is decided beforehand is right on conforming rows. -/
theorem holds_nullTest {name : String} {i : Nat} {f : Field} (hrow : s.Admits row)
    (hf : s.resolve name = some (i, f)) (asksNull : Bool) :
    (nullTest asksNull i f).holds row = (!asksNull ^^ (Expr.property name).nullIn s row) := by
  rw [Expr.nullIn, s.valueOf_of_resolve hf]
  cases hn : f.admitsNull with
  | true => exact holds_nullTest_of_admitsNull hn asksNull row
  | false =>
    have hne := Field.ne_null_of_admits (hrow.resolved hf) hn
    simp [nullTest_of_not_admitsNull hn, holds, hne]

theorem holds_patternTest {name text : String} {i : Nat} {f : Field}
    (hf : s.resolve name = some (i, f)) :
    (patternTest i text).holds row
      = Expr.likeIn s row (.property name) (.literal (.string text)) := by
  have hlone : text.toList = ['%'] ↔ text = "%" := by
    rw [← String.toList_inj]
    rfl
  unfold patternTest
  rw [Expr.likeIn, s.valueOf_of_resolve hf]
  split
  next p hp =>
    have hne : text ≠ "%" := by
      intro h
      rw [Pattern.ofText?_eq_none.mpr (hlone.mpr h)] at hp
      cases hp
    simp only [holds, hne, decide_false, Bool.false_or]
    cases row i <;> simp [Pattern.matchesText_of_ofText? hp]
  next hp =>
    simp [holds, hlone.mp (Pattern.ofText?_eq_none.mp hp)]

theorem ofExpr_like {name : String} {i : Nat} {f : Field} (hf : s.resolve name = some (i, f))
    (htype : f.type = .string) (pattern : String) :
    ofExpr s (.binary (.like false) (.property name) (.literal (.string pattern)))
      = .ok (patternTest i pattern) :=
  ofExpr_eq_ok.mpr ⟨_, .like false pattern hf htype, .condition _⟩

/-- On a field with a string a pattern test asks for what the pattern describes. -/
theorem patternTest_holds {name v : String} {i : Nat} {f : Field}
    (hf : s.resolve name = some (i, f)) (hrow : row i = .string v) (pattern : String) :
    (patternTest i pattern).holds row = Pattern.describes pattern.toList v.toList := by
  rw [holds_patternTest hf, Expr.likeIn, s.valueOf_of_resolve hf, hrow]
  by_cases hlone : pattern = "%"
  · subst hlone
    have hall : Pattern.describes ['%'] v.toList = true := by simp [Pattern.describes]
    exact hall.symm
  · simp [hlone]

/-- On a field without a string only the lone percent sign is content. -/
theorem patternTest_holds_of_not_string {name : String} {i : Nat} {f : Field}
    (hf : s.resolve name = some (i, f)) (hrow : ∀ v, row i ≠ .string v) (pattern : String) :
    (patternTest i pattern).holds row = decide (pattern = "%") := by
  rw [holds_patternTest hf, Expr.likeIn, s.valueOf_of_resolve hf]
  cases hvalue : row i with
  | string v => exact absurd hvalue (hrow v)
  | _ => exact Bool.or_false _

theorem holds_membership_any (i : Nat) (ds : List Datum) :
    (membership i ds).holds row = ds.any fun d => d.equals (row i) := by
  cases ds <;> simp [membership, holds]

theorem holds_membership {name : String} {i : Nat} {f : Field} {ls : List Literal}
    {ds : List Datum} (hf : s.resolve name = some (i, f))
    (hds : ls.map (Datum.ofLiteral? f) = ds.map some) :
    (membership i ds).holds row = Expr.amongIn s row (.property name) (.array ls) := by
  rw [holds_membership_any, Expr.amongIn, s.valueOf_of_resolve hf]
  induction ls generalizing ds with
  | nil => simp_all
  | cons l ls ih =>
    obtain ⟨d, rest, rfl, hd, hrest⟩ := List.map_eq_cons_iff.mp hds.symm
    rw [List.any_cons, List.any_cons, s.coerced_of_resolve hf hd.symm, ih hrest.symm]

theorem readAs_of_stated {e : Expr} {r : Resolved} (hrow : s.Admits row) (h : Stated s e r) :
    ReadAs s row e r := by
  induction h with
  | property hf => exact ⟨_, rfl, hf⟩
  | literal l => rfl
  | array ls => trivial
  | not _ hk ih =>
    exact ⟨rfl, by rw [holds_negate, holds_of_usable ih hk, Expr.holdsOf]⟩
  | isNull hf =>
    exact ⟨rfl, by rw [holds_nullTest hrow hf, Expr.holdsOf]; simp⟩
  | isNotNull hf =>
    exact ⟨rfl, by rw [holds_nullTest hrow hf, Expr.holdsOf]; simp⟩
  | and _ hp _ hq ihl ihr =>
    exact ⟨rfl, by rw [holds, holds_of_usable ihl hp, holds_of_usable ihr hq, Expr.holdsOf]⟩
  | or _ hp _ hq ihl ihr =>
    exact ⟨rfl, by rw [holds, holds_of_usable ihl hp, holds_of_usable ihr hq, Expr.holdsOf]⟩
  | like negated text hf ht =>
    exact ⟨rfl, by rw [holds_signed, holds_patternTest hf, Expr.holdsOf]⟩
  | among negated hf hds =>
    exact ⟨rfl, by rw [holds_signed, holds_membership hf hds, Expr.holdsOf]⟩
  | comparison _ _ hk ihl ihr =>
    exact ⟨rfl, holds_of_compared ihl ihr hk⟩

/-- On a conforming row a compiled condition says what its expression says, so nothing that is
decided at compile time changes an answer. -/
theorem holds_eq_holdsOf {e : Expr} (h : ofExpr s e = .ok k) (hrow : s.Admits row) :
    k.holds row = e.holdsOf s row := by
  obtain ⟨r, hr, hk⟩ := ofExpr_eq_ok.mp h
  exact holds_of_usable (readAs_of_stated hrow hr) hk

theorem holds_eq_holdsOf_quantity :
    let s : Schema := ⟨[⟨"Qty", .integer .u8, false⟩, ⟨"Note", .string, false⟩]⟩
    let row : Row := fun i => if i = 0 then .integer 3 else .null
    let e : Expr := .binary (.connective .or) (.unary .isNull (.property "qty"))
      (.binary (.comparison .equal)
        (.unary .not (.binary (.comparison .less) (.property "Qty")
          (.literal (.number ⟨2, 0, by decide, by decide⟩))))
        (.literal (.number .one)))
    let k : Condition := .or (.literal false)
      (.compare .equal (.test (.not (.compare .less (.field 0) (.value (.integer 2)))))
        (.value (.boolean true)))
    ofExpr s e = .ok k ∧ s.Admits row ∧ k.holds row = e.holdsOf s row := by
  intro s row e k
  have hk : ofExpr s e = .ok k := by rfl
  have hrow : s.Admits row := by
    intro i f hf
    match i with
    | 0 => cases hf; rfl
    | 1 => cases hf; rfl
    | i + 2 => cases hf
  exact ⟨hk, hrow, holds_eq_holdsOf hk hrow⟩

end Condition

end RowFilter
