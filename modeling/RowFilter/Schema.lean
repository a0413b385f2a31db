import RowFilter.Text.Lowercase

namespace RowFilter

inductive IntegerType
  | i8
  | i16
  | i32
  | i64
  | u8
  | u16
  | u32
  | u64
deriving DecidableEq, Repr

inductive FieldType
  | boolean
  | integer (width : IntegerType)
  | float32
  | float64
  | decimal
  | string
  | date
  | time
  | datetime
  | uuid
  /-- One of the members, in the order of declaration. -/
  | enumeration (members : List String)
deriving DecidableEq, Repr

structure Field where
  name : String
  type : FieldType
  nullable : Bool
deriving DecidableEq, Repr

/-- The fields of rows, in a fixed order. -/
structure Schema where
  fields : List Field
deriving DecidableEq, Repr

namespace IntegerType

/-- The least and the greatest integer of a type. -/
def range : IntegerType → Int × Int
  | i8 => (-Int.pow 2 7, Int.pow 2 7 - 1)
  | i16 => (-Int.pow 2 15, Int.pow 2 15 - 1)
  | i32 => (-Int.pow 2 31, Int.pow 2 31 - 1)
  | i64 => (-Int.pow 2 63, Int.pow 2 63 - 1)
  | u8 => (0, Int.pow 2 8 - 1)
  | u16 => (0, Int.pow 2 16 - 1)
  | u32 => (0, Int.pow 2 32 - 1)
  | u64 => (0, Int.pow 2 64 - 1)

/-- Whether a type holds an integer. -/
def holds (t : IntegerType) (n : Int) : Bool :=
  t.range.1 ≤ n && n ≤ t.range.2

def name : IntegerType → String
  | i8 => "i8"
  | i16 => "i16"
  | i32 => "i32"
  | i64 => "i64"
  | u8 => "u8"
  | u16 => "u16"
  | u32 => "u32"
  | u64 => "u64"

end IntegerType

namespace FieldType

/-- The least and the greatest value of an integer type. -/
def integerRange? : FieldType → Option (Int × Int)
  | integer t => some t.range
  | _ => none

def isInteger (t : FieldType) : Bool :=
  t.integerRange?.isSome

def isNumeric : FieldType → Bool
  | integer _ => true
  | float32 => true
  | float64 => true
  | decimal => true
  | _ => false

/-- Whether values of two types can be compared: numbers with numbers, and equal types. -/
def isComparableWith (a b : FieldType) : Bool :=
  a.isNumeric && b.isNumeric || a = b

/-- The place of an enumeration member, whose name may be in any case. -/
def ordinal? (t : FieldType) (name : String) : Option Nat :=
  match t with
  | enumeration members => members.findIdx? (sameIgnoringCase · name)
  | _ => none

/-- How a type is written in field specifications and messages. -/
def text : FieldType → String
  | boolean => "bool"
  | integer t => t.name
  | float32 => "f32"
  | float64 => "f64"
  | decimal => "decimal"
  | string => "string"
  | date => "date"
  | time => "time"
  | datetime => "datetime"
  | uuid => "uuid"
  | enumeration members => "enum(" ++ "|".intercalate members ++ ")"

end FieldType

/-- Whether a field's value may be null. A string always may. -/
def Field.admitsNull (f : Field) : Bool :=
  f.nullable || f.type = .string

namespace Schema

/-- The first field of a name with its index, counted from `index`. -/
def resolveFrom (name : String) : Nat → List Field → Option (Nat × Field)
  | _, [] => none
  | index, f :: rest =>
    if sameIgnoringCase f.name name then some (index, f) else resolveFrom name (index + 1) rest

/-- The first field of a name, in any case, with its index. -/
def resolve (s : Schema) (name : String) : Option (Nat × Field) :=
  resolveFrom name 0 s.fields

end Schema

end RowFilter
