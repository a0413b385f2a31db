import RowFilter.Command.Rows
import RowFilter.Proofs.Enclosure
import RowFilter.Proofs.Reading

namespace RowFilter

def Json.isObject : Json → Bool
  | .object _ => true
  | _ => false

/-- Whether a JSON value is an object that a condition holds of. -/
def Condition.keeps (s : Schema) (k : Condition) : Json → Bool
  | .object members => k.holds (jsonRow s members)
  | _ => false

/-- A text that has a condition on the rows of a schema. -/
def StatesIn (s : Schema) (text : String) (k : Condition) : Prop :=
  ∃ e, parseWhere text.toList = .ok e ∧ Condition.ofExpr s e = .ok k

theorem keepRows_objects {s : Schema} {k : Condition} {rows : List Json}
    (h : ∀ row ∈ rows, row.isObject = true) :
    keepRows s k rows = .ok (rows.filter (k.keeps s)) := by
  induction rows with
  | nil => rfl
  | cons row rest ih =>
    obtain ⟨hrow, hrest⟩ := List.forall_mem_cons.mp h
    cases row with
    | object members =>
      rw [keepRows, ih hrest, List.filter_cons]
      rfl
    | _ => cases hrow

/-- The rows before one that is no object are not kept either. -/
theorem keepRows_notObjects {s : Schema} {k : Condition} {rows : List Json}
    (h : ∃ row ∈ rows, row.isObject = false) : keepRows s k rows = .error .notObjects := by
  induction rows with
  | nil => simp at h
  | cons row rest ih =>
    cases row with
    | object members =>
      have hrest : ∃ row ∈ rest, row.isObject = false := by
        simpa [Json.isObject] using h
      rw [keepRows, ih hrest]
      rfl
    | _ => rfl

namespace Condition

variable {s : Schema} {k m : Condition} {e f : Expr}

theorem keeps_and (row : Json) : (and k m).keeps s row = (k.keeps s row && m.keeps s row) := by
  cases row <;> rfl

theorem keeps_or (row : Json) : (or k m).keeps s row = (k.keeps s row || m.keeps s row) := by
  cases row <;> rfl

/-- What is no object is kept neither by a condition nor by its opposite. -/
theorem keeps_negate {row : Json} (h : row.isObject = true) :
    k.negate.keeps s row = !k.keeps s row := by
  cases row with
  | object members => exact holds_negate k
  | _ => cases h

theorem ofExpr_connective (c : Connective) (he : ofExpr s e = .ok k) (hf : ofExpr s f = .ok m) :
    ofExpr s (.binary (.connective c) e f) =
      .ok (match c with | .and => .and k m | .or => .or k m) := by
  obtain ⟨r, hr, hk⟩ := ofExpr_eq_ok.mp he
  obtain ⟨t, ht, hm⟩ := ofExpr_eq_ok.mp hf
  cases c with
  | and => exact ofExpr_eq_ok.mpr ⟨_, .and hr hk ht hm, .condition _⟩
  | or => exact ofExpr_eq_ok.mpr ⟨_, .or hr hk ht hm, .condition _⟩

end Condition

open Grammar

section Texts

variable {s : Schema} {specs : List String} {a b text input : String} {e f : Expr}
  {k m : Condition} {value : Json} {rows : List Json}

theorem statesIn_joined (c : Connective) (ha : parseWhere a.toList = .ok e)
    (hb : parseWhere b.toList = .ok f) (hae : Enclosable a.toList e) (hbf : Enclosable b.toList f)
    (hk : Condition.ofExpr s e = .ok k) (hm : Condition.ofExpr s f = .ok m) :
    StatesIn s (.ofList (joinedTexts c a.toList b.toList))
      (match c with | .and => .and k m | .or => .or k m) := by
  refine ⟨.binary (.connective c) e f, ?_, Condition.ofExpr_connective c hk hm⟩
  rw [String.toList_ofList]
  exact (parseWhere_joined c ha hb).mpr ⟨rfl, hae, hbf⟩

theorem statesIn_negated (ha : parseWhere a.toList = .ok e) (hae : Enclosable a.toList e)
    (hk : Condition.ofExpr s e = .ok k) :
    StatesIn s (.ofList (negatedText a.toList)) k.negate := by
  refine ⟨.unary .not e, ?_, Condition.ofExpr_not_eq_ok.mpr ⟨k, hk, rfl⟩⟩
  rw [String.toList_ofList]
  exact (parseWhere_negated ha).mpr ⟨rfl, hae⟩

theorem filterRows_eq_keepRows (hs : readSchema specs = .ok s) (h : StatesIn s text k)
    (hinput : Json.read? Json.inputDepth input.toList = some value)
    (hrows : rowsOf value = .ok rows) :
    filterRows text specs (some input) = keepRows s k rows := by
  obtain ⟨e, he, hk⟩ := h
  simp only [filterRows, parseFor, hs, he, Except.mapError, bind, Except.bind, hk, hinput, hrows]

/-- What is kept for texts put together with connectives follows from what is kept for each one, in
the order of the input. A text and its opposite share the rows between them. One row that is no
object is enough to be refused, whatever is asked. -/
theorem filterRows_follows_connectives (hs : readSchema specs = .ok s)
    (ha : parseWhere a.toList = .ok e) (hb : parseWhere b.toList = .ok f)
    (hae : Enclosable a.toList e) (hbf : Enclosable b.toList f)
    (hk : Condition.ofExpr s e = .ok k) (hm : Condition.ofExpr s f = .ok m)
    (hinput : Json.read? Json.inputDepth input.toList = some value)
    (hrows : rowsOf value = .ok rows) :
    let both : String := .ofList (joinedTexts .and a.toList b.toList)
    let either : String := .ofList (joinedTexts .or a.toList b.toList)
    let opposite : String := .ofList (negatedText a.toList)
    let kept := fun text => filterRows text specs (some input)
    ((∀ row ∈ rows, row.isObject = true) →
      kept a = .ok (rows.filter (k.keeps s)) ∧ kept b = .ok (rows.filter (m.keeps s)) ∧
        kept both = .ok (rows.filter fun row => k.keeps s row && m.keeps s row) ∧
        kept either = .ok (rows.filter fun row => k.keeps s row || m.keeps s row) ∧
        kept opposite = .ok (rows.filter fun row => !k.keeps s row) ∧
        ∀ matching others, kept a = .ok matching → kept opposite = .ok others →
          (matching ++ others).Perm rows) ∧
      ((∃ row ∈ rows, row.isObject = false) →
        ∀ text ∈ [a, b, both, either, opposite], kept text = .error .notObjects) := by
  intro both either opposite kept
  have hkept : ∀ {text k}, StatesIn s text k → kept text = keepRows s k rows := fun htext =>
    filterRows_eq_keepRows hs htext hinput hrows
  have hfirst := hkept ⟨e, ha, hk⟩
  have hsecond := hkept ⟨f, hb, hm⟩
  have hboth := hkept (statesIn_joined .and ha hb hae hbf hk hm)
  have heither := hkept (statesIn_joined .or ha hb hae hbf hk hm)
  have hopposite := hkept (statesIn_negated ha hae hk)
  constructor
  · intro hobjects
    rw [keepRows_objects hobjects] at hfirst hsecond hboth heither hopposite
    have hnegate : rows.filter (k.negate.keeps s) = rows.filter fun row => !k.keeps s row :=
      List.filter_congr fun row hrow => Condition.keeps_negate (hobjects row hrow)
    rw [hnegate] at hopposite
    refine ⟨hfirst, hsecond, ?_, ?_, hopposite, ?_⟩
    · rw [hboth, funext Condition.keeps_and]
    · rw [heither, funext Condition.keeps_or]
    · intro matching others hmatching hothers
      obtain rfl := Except.ok.inj (hfirst.symm.trans hmatching)
      obtain rfl := Except.ok.inj (hopposite.symm.trans hothers)
      exact List.filter_append_perm _ rows
  · intro hother
    rw [keepRows_notObjects hother] at hfirst hsecond hboth heither hopposite
    simp only [List.forall_mem_cons]
    exact ⟨hfirst, hsecond, hboth, heither, hopposite, List.forall_mem_nil _⟩

end Texts

/-- A row without the field is kept by the opposite of a comparison. -/
theorem filterRows_follows_connectives_missing :
    let specs := ["A:i32", "B:bool"]
    let input := "[\x7b\"A\":2\x7d,\x7b\"b\":true\x7d,\x7b\"a\":3,\"b\":1\x7d]"
    let first : Json := .object [("A", .number (.integer 2))]
    let second : Json := .object [("b", .boolean true)]
    let third : Json := .object [("a", .number (.integer 3)), ("b", .number (.integer 1))]
    filterRows "A > 1" specs (some input) = .ok [first, third] ∧
      filterRows "B" specs (some input) = .ok [second, third] ∧
      filterRows "(A > 1) and (B)" specs (some input) = .ok [third] ∧
      filterRows "(A > 1) or (B)" specs (some input) = .ok [first, second, third] ∧
      filterRows "not (A > 1)" specs (some input) = .ok [second] := by
  intro specs input first second third
  let s : Schema := ⟨[⟨"A", .integer .i32, false⟩, ⟨"B", .boolean, false⟩]⟩
  let e : Expr := .binary (.comparison .greater) (.property "A") (.literal (.number .one))
  have hproperty : Item [⟨.identifier, ['A'], .start⟩] (.property "A") := .property rfl
  have hone : Item [⟨.number, ['1'], .start⟩] (.literal (.number .one)) :=
    .literal (.number rfl rfl)
  have hgreater : Test [Mark.greater.word] (.comparison .greater) := .comparison .greater rfl
  have hderives : Derives .comparison _ e :=
    (hproperty.derives .comparison).test hgreater (hone.derives .operand)
  have ha : parseWhere "A > 1".toList = .ok e :=
    parseWhere_of_derives rfl (.comparison hderives) (by decide) (by decide)
  have hb : parseWhere "B".toList = .ok (.property "B") := by rfl
  have hae : Enclosable "A > 1".toList e :=
    ⟨by decide, _, by rfl, (nested_length _).mono (by decide)⟩
  have hbf : Enclosable "B".toList (.property "B") :=
    ⟨by decide, _, by rfl, (nested_length _).mono (by decide)⟩
  have hobjects : ∀ row ∈ [first, second, third], row.isObject = true := by
    simp [first, second, third, Json.isObject]
  have hs : readSchema specs = .ok s := by rfl
  have hinput : Json.read? Json.inputDepth input.toList = some (.array [first, second, third]) := by
    simp only [input]
    rfl
  obtain ⟨hfirst, hsecond, hboth, heither, hopposite, _⟩ :=
    (filterRows_follows_connectives hs ha hb hae hbf rfl rfl hinput rfl).1 hobjects
  exact ⟨hfirst, hsecond, hboth, heither, hopposite⟩

end RowFilter
