import RowFilter.CompileError
import RowFilter.Condition
import RowFilter.Datum.Reader

namespace RowFilter

/-- Something that can be compared. -/
inductive Term
  | field (index : Nat) (f : Field)
  | literal (c : Literal)
  | condition (c : Condition)

/-- What an expression stands for. Arrays can only be looked into. -/
inductive Resolved
  | term (t : Term)
  | array

namespace Condition

def mismatch {α : Type} (cause : TypeMismatch) : Except CompileError α :=
  .error (.mismatch cause)

/-- The field of a name. -/
def fieldOf (s : Schema) (name : String) : Except CompileError (Nat × Field) :=
  match s.resolve name with
  | some found => .ok found
  | none => .error (.unknownField name)

/-- What an expression stands for, as a condition. -/
def ofResolved : Resolved → Except CompileError Condition
  | .term (.field i f) => if f.type = .boolean then .ok (field i) else mismatch (.fieldAsCondition f)
  | .term (.literal (.boolean b)) => .ok (literal b)
  | .term (.literal c) => mismatch (.literalAsCondition c)
  | .term (.condition c) => .ok c
  | .array => mismatch .arrayAsCondition

/-- What an expression stands for, as an operand of a comparison. -/
def termOf : Resolved → Except CompileError Term
  | .term t => .ok t
  | .array => mismatch .strayArray

/-- Booleans have no order. -/
def checkOrder (c : Comparison) (type : FieldType) : Except CompileError Unit :=
  if c.isOrdering ∧ type = .boolean then mismatch .orderedBooleans else .ok ()

/-- A literal as a value of a field. -/
def coerce (f : Field) (c : Literal) : Except CompileError Datum :=
  match Datum.ofLiteral? f c with
  | some d => .ok d
  | none => mismatch (.fieldWithLiteral f c)

/-- What a condition can be compared with: conditions, booleans, boolean fields and bits. -/
def booleanOperand : Term → Except CompileError Operand
  | .condition c => .ok (.test c)
  | .field i f => if f.type = .boolean then .ok (.field i) else mismatch (.conditionWithField f)
  | .literal (.boolean b) => .ok (.value (.boolean b))
  | .literal (.number d) =>
    match Datum.bit? d with
    | some b => .ok (.value (.boolean b))
    | none => mismatch (.conditionWithLiteral (.number d))
  | .literal c => mismatch (.conditionWithLiteral c)

/-- Whether two literals can be compared: those of one kind, and null with all. -/
def literalsCompare (a b : Literal) : Bool :=
  a = .null || b = .null || a.kindName = b.kindName

/-- A comparison of two literals, decided at once. -/
def ofLiterals (c : Comparison) (a b : Literal) : Except CompileError Condition := do
  let l := Datum.ofLiteral a
  let r := Datum.ofLiteral b
  if !literalsCompare a b then mismatch (.literalWithLiteral l.kindName r.kindName)
  else
    match a with
    | .boolean _ => checkOrder c .boolean
    | _ => .ok ()
    return literal (c.holds l r)

/-- A comparison of two terms. -/
def ofTerms (c : Comparison) : Term → Term → Except CompileError Condition
  | .field i f, .literal k => do
    checkOrder c f.type
    return compare c (.field i) (.value (← coerce f k))
  | .literal k, .field i f => do
    checkOrder c f.type
    return compare c (.value (← coerce f k)) (.field i)
  | .field i f, .field j g => do
    if !f.type.isComparableWith g.type then mismatch (.fieldWithField f g)
    else
      checkOrder c f.type
      return compare c (.field i) (.field j)
  | .literal a, .literal b => ofLiterals c a b
  | .condition p, t => do
    checkOrder c .boolean
    return compare c (.test p) (← booleanOperand t)
  | t, .condition p => do
    checkOrder c .boolean
    return compare c (← booleanOperand t) (.test p)

/-- A null test. It is decided at once for a field that admits no null. -/
def ofNullTest (s : Schema) (op : UnaryOp) (operand : Expr) : Except CompileError Condition :=
  match operand with
  | .property name => do
    let (i, f) ← fieldOf s name
    let asksNull := op = .isNull
    if f.admitsNull then
      return compare (if asksNull then .equal else .notEqual) (.field i) (.value .null)
    else return literal (!asksNull)
  | e => mismatch (.nullTestOperand op e)

/-- A pattern test. -/
def ofLike (s : Schema) (left right : Expr) : Except CompileError Condition :=
  match left with
  | .property name => do
    let (i, f) ← fieldOf s name
    match right with
    | .literal (.string text) =>
      if f.type ≠ .string then mismatch (.likeOperands left right)
      else
        match Pattern.ofText? text.toList with
        | some p => return like i p
        | none => return literal true
    | _ => mismatch (.likeOperands left right)
  | _ => mismatch (.likeOperands left right)

/-- The literals of an array as values of a field. -/
def coerceAll (f : Field) : List Literal → Except CompileError (List Datum)
  | [] => .ok []
  | c :: rest => do
    let d ← coerce f c
    return d :: (← coerceAll f rest)

/-- A membership test. Nothing is among no elements. -/
def ofMembership (s : Schema) (left right : Expr) : Except CompileError Condition :=
  match left with
  | .property name =>
    match right with
    | .array elements => do
      let (i, f) ← fieldOf s name
      if elements.isEmpty then return literal false
      else return among i (← coerceAll f elements)
    | e => mismatch (.membershipArray (.among false) e)
  | e => mismatch (.membershipField e)

/-- What an expression stands for in the rows of a schema. -/
def resolve (s : Schema) : Expr → Except CompileError Resolved
  | .property name => do
    let (i, f) ← fieldOf s name
    return .term (.field i f)
  | .literal c => .ok (.term (.literal c))
  | .array _ => .ok .array
  | .unary .not e => do
    let c ← ofResolved (← resolve s e)
    return .term (.condition c.negate)
  | .unary .isNull e => do return .term (.condition (← ofNullTest s .isNull e))
  | .unary .isNotNull e => do return .term (.condition (← ofNullTest s .isNotNull e))
  | .binary (.connective c) l r => do
    let p ← ofResolved (← resolve s l)
    let q ← ofResolved (← resolve s r)
    return .term (.condition (match c with | .and => and p q | .or => or p q))
  | .binary (.like negated) l r => do
    let c ← ofLike s l r
    return .term (.condition (if negated then c.negate else c))
  | .binary (.among negated) l r => do
    let c ← ofMembership s l r
    return .term (.condition (if negated then c.negate else c))
  | .binary (.comparison c) l r => do
    let a ← termOf (← resolve s l)
    let b ← termOf (← resolve s r)
    return .term (.condition (← ofTerms c a b))

/-- The condition that an expression states. -/
def ofExpr (s : Schema) (e : Expr) : Except CompileError Condition := do
  ofResolved (← resolve s e)

end Condition

end RowFilter
