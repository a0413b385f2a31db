import RowFilter.Calendar.Reader
import RowFilter.Datum
import RowFilter.Json.Writer
import RowFilter.Schema

namespace RowFilter

namespace Datum

/-- Reads a value of a type that is written as text. Numbers are not. -/
def ofText? (type : FieldType) (text : String) : Option Datum :=
  match type with
  | .string => some (string text)
  | .boolean =>
    if sameIgnoringAsciiCase text.toList "true".toList then some (boolean true)
    else if sameIgnoringAsciiCase text.toList "false".toList then some (boolean false)
    else none
  | .date => (Date.read? text.toList).map date
  | .time => (TimeOfDay.read? text.toList).map time
  | .datetime => (DateTime.read? text.toList).map datetime
  | .uuid => (Uuid.read? text.toList).map uuid
  | .enumeration members => ((FieldType.enumeration members).ordinal? text).map ordinal
  | .integer _ => none
  | .float32 => none
  | .float64 => none
  | .decimal => none

/-- The truth value that zero and one stand for. -/
def bit? (d : Decimal) : Option Bool :=
  if d.same .zero then some false else if d.same .one then some true else none

/-- An integer of a type, if it is in range. -/
def ofInt? (t : IntegerType) (n : Int) : Option Datum :=
  if t.holds n then some (integer n) else none

/-- A number as a value of a type. -/
def ofDecimal? (type : FieldType) (d : Decimal) : Option Datum :=
  match type with
  | .boolean => (bit? d).map boolean
  | .integer t => d.toInt?.bind (ofInt? t)
  | .float32 => some (float d.toDouble.toSingle)
  | .float64 => some (float d.toDouble)
  | .decimal => some (decimal d)
  | _ => none

/-- A literal as a value of a field. -/
def ofLiteral? (field : Field) : Literal → Option Datum
  | .null => if field.admitsNull then some null else none
  | .boolean b => if field.type = .boolean then some (boolean b) else none
  | .number d => ofDecimal? field.type d
  | .string s => ofText? field.type s

/-- A literal as a value by itself. -/
def ofLiteral : Literal → Datum
  | .null => null
  | .boolean b => boolean b
  | .number d => decimal d
  | .string s => string s

/-- The decimal of a JSON number: exact if its text is, and else by way of the double. -/
def decimalOfJson? (n : JsonNumber) : Option Decimal :=
  (Decimal.read? n.text).or (Decimal.ofDouble? n.toDouble)

/-- A JSON number as a value of a type. -/
def ofJsonNumber? (type : FieldType) (n : JsonNumber) : Option Datum :=
  match type, n with
  | .boolean, .integer 0 => some (boolean false)
  | .boolean, .integer 1 => some (boolean true)
  | .integer t, .integer n => ofInt? t n
  | .float32, n => some (float n.toDouble.toSingle)
  | .float64, n => some (float n.toDouble)
  | .decimal, n => (decimalOfJson? n).map decimal
  | _, _ => none

/-- A JSON value as a value of a type. -/
def ofJson? (type : FieldType) (value : Json) : Option Datum :=
  match value with
  | .boolean b => if type = .boolean then some (boolean b) else none
  | .number n => ofJsonNumber? type n
  | .string s => ofText? type s
  | _ => none

/-- A JSON value as a value of a type, null if it is none. -/
def ofJson (type : FieldType) (value : Json) : Datum :=
  (ofJson? type value).getD null

/-- The member of an object for a field name: the one of exactly this name, or else the first one
whose name differs in case only. -/
def memberFor? (members : List (String × Json)) (name : String) : Option Json :=
  (Json.member? members name).or
    ((members.find? fun m => sameIgnoringCase m.1 name).map (·.2))

end Datum

/-- An object as a row of a schema. Fields without a member are null. -/
def jsonRow (s : Schema) (members : List (String × Json)) : Row := fun i =>
  match s.fields[i]? with
  | none => .null
  | some f =>
    match Datum.memberFor? members f.name with
    | none => .null
    | some value => Datum.ofJson f.type value

end RowFilter
