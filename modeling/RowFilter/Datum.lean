import RowFilter.Calendar
import RowFilter.Expr
import RowFilter.Number.Conversion
import RowFilter.Uuid

namespace RowFilter

inductive Datum
  | null
  | boolean (b : Bool)
  | integer (n : Int)
  | float (x : Double)
  | decimal (d : Decimal)
  | string (s : String)
  | date (d : Date)
  | time (t : TimeOfDay)
  | datetime (d : DateTime)
  | uuid (u : Uuid)
  /-- The place of a member in its enumeration. -/
  | ordinal (n : Nat)
deriving DecidableEq, Repr

/-- The fields of a row by their index. -/
abbrev Row := Nat → Datum

namespace Datum

/-- The kind of a value, for messages. -/
def kindName : Datum → String
  | null => "null"
  | boolean _ => "boolean"
  | integer _ => "integer"
  | float _ => "float"
  | decimal _ => "decimal"
  | string _ => "string"
  | date _ => "date"
  | time _ => "time"
  | datetime _ => "datetime"
  | uuid _ => "uuid"
  | ordinal _ => "enum"

def isNull : Datum → Bool
  | null => true
  | _ => false

/-- The truth value of a boolean, where null counts as false. -/
def truth? : Datum → Option Bool
  | boolean b => some b
  | null => some false
  | _ => none

/-- The characters of a string. -/
def text? : Datum → Option String
  | string s => some s
  | _ => none

/-- The order of an integer and a decimal: exact if the integer fits in a decimal. -/
def orderMixed? (n : Int) (d : Decimal) : Option Ordering :=
  match Decimal.ofInt? n with
  | some m => some (m.order d)
  | none => (Double.ofInt n).order? d.toDouble

/-- The order of two values, if they can be compared. -/
def order? : Datum → Datum → Option Ordering
  | boolean a, boolean b => some (compare a b)
  | string a, string b => some (compare a.toList b.toList)
  | date a, date b => some (compare a.key b.key)
  | time a, time b => some (compare a.key b.key)
  | datetime a, datetime b => some (compare a.key b.key)
  | uuid a, uuid b => some (compare a.value b.value)
  | ordinal a, ordinal b => some (compare a b)
  | integer a, integer b => some (compare a b)
  | integer a, float b => (Double.ofInt a).order? b
  | integer a, decimal b => orderMixed? a b
  | float a, integer b => a.order? (.ofInt b)
  | float a, float b => a.order? b
  | float a, decimal b => a.order? b.toDouble
  | decimal a, integer b => (orderMixed? b a).map Ordering.swap
  | decimal a, float b => a.toDouble.order? b
  | decimal a, decimal b => some (a.order b)
  | _, _ => none

/-- Equality in conditions: null equals null and nothing else. -/
def equals : Datum → Datum → Bool
  | null, null => true
  | a, b => a.order? b = some .eq

/-- Equality of values of one kind. -/
def same : Datum → Datum → Bool
  | float a, float b => a.same b
  | decimal a, decimal b => a.same b
  | a, b => a = b

end Datum

namespace Comparison

/-- Whether a comparison asks for an order and not only for equality. -/
def isOrdering : Comparison → Bool
  | equal => false
  | notEqual => false
  | _ => true

/-- Whether a comparison holds of two values. -/
def holds (c : Comparison) (l r : Datum) : Bool :=
  match c with
  | equal => l.equals r
  | notEqual => !l.equals r
  | less => l.order? r = some .lt
  | lessOrEqual => l.order? r = some .lt || l.order? r = some .eq
  | greater => l.order? r = some .gt
  | greaterOrEqual => l.order? r = some .gt || l.order? r = some .eq

end Comparison

end RowFilter
