import RowFilter.Condition.Pattern
import RowFilter.Datum

namespace RowFilter

mutual

/-- A test of rows, in which fields are indexes and literals are values of the fields that they are
compared with. -/
inductive Condition
  | literal (b : Bool)
  /-- A boolean field, of which null counts as false. -/
  | field (index : Nat)
  | compare (c : Comparison) (left right : Operand)
  | like (field : Nat) (pattern : Pattern)
  | among (field : Nat) (values : List Datum)
  | not (c : Condition)
  | and (left right : Condition)
  | or (left right : Condition)
deriving Repr

inductive Operand
  | field (index : Nat)
  | value (d : Datum)
  /-- The truth value of a condition. -/
  | test (c : Condition)
deriving Repr

end

mutual

/-- Whether a condition holds of a row. -/
def Condition.holds (row : Row) : Condition → Bool
  | .literal b => b
  | .field i => (row i).truth?.getD false
  | .compare c l r => c.holds (l.valueIn row) (r.valueIn row)
  | .like i p =>
    match row i with
    | .string s => p.matchesText s.toList
    | _ => false
  | .among i values => values.any fun v => v.equals (row i)
  | .not c => !c.holds row
  | .and l r => l.holds row && r.holds row
  | .or l r => l.holds row || r.holds row

/-- The value of an operand in a row. -/
def Operand.valueIn (row : Row) : Operand → Datum
  | .field i => row i
  | .value d => d
  | .test c => .boolean (c.holds row)

end

/-- Equality of lists of values, item by item. -/
def sameValues : List Datum → List Datum → Bool
  | [], [] => true
  | a :: as, b :: bs => a.same b && sameValues as bs
  | _, _ => false

mutual

/-- Whether two conditions are built alike. Values are equal as values of one kind are. -/
def Condition.same : Condition → Condition → Bool
  | .literal a, .literal b => a == b
  | .field i, .field j => i == j
  | .compare c l r, .compare c' l' r' => c == c' && l.same l' && r.same r'
  | .like i p, .like j q => i == j && p == q
  | .among i vs, .among j ws => i == j && sameValues vs ws
  | .not c, .not d => c.same d
  | .and l r, .and l' r' => l.same l' && r.same r'
  | .or l r, .or l' r' => l.same l' && r.same r'
  | _, _ => false

/-- Whether two operands are built alike. -/
def Operand.same : Operand → Operand → Bool
  | .field i, .field j => i == j
  | .value a, .value b => a.same b
  | .test c, .test d => c.same d
  | _, _ => false

end

/-- The opposite of a condition. The opposite of a literal is a literal. -/
def Condition.negate : Condition → Condition
  | .literal b => .literal (!b)
  | c => .not c

end RowFilter
