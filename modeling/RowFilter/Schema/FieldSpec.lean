import RowFilter.Schema
import RowFilter.Text.Blank
import RowFilter.Text.Identifier
import RowFilter.Text.Separated

namespace RowFilter

namespace FieldSpec

/-- The type with a name in lower case. -/
def typeOfName? (name : String) : Option FieldType :=
  match name with
  | "bool" | "boolean" => some .boolean
  | "i8" => some (.integer .i8)
  | "i16" => some (.integer .i16)
  | "i32" | "int" => some (.integer .i32)
  | "i64" | "long" => some (.integer .i64)
  | "u8" => some (.integer .u8)
  | "u16" => some (.integer .u16)
  | "u32" => some (.integer .u32)
  | "u64" => some (.integer .u64)
  | "f32" | "float" => some .float32
  | "f64" | "double" => some .float64
  | "decimal" => some .decimal
  | "string" | "str" => some .string
  | "date" => some .date
  | "time" => some .time
  | "datetime" => some .datetime
  | "uuid" => some .uuid
  | _ => none

/-- The members of an enumeration, without the blanks around each. -/
def members (text : List Char) : List String :=
  (Separated.items '|' text).map fun part => .ofList (trimBlanks part)

/-- A text in parentheses, up to the first that closes, if the text starts with one. The outer
option tells whether it is closed. -/
def takeParens : List Char → Option (Option (List Char) × List Char)
  | '(' :: rest =>
    match rest.dropWhile (· ≠ ')') with
    | _ :: behind => some (some (rest.takeWhile (· ≠ ')')), behind)
    | [] => none
  | rest => some (none, rest)

/-- The end of a specification: whether there is a question mark before it. -/
def takeNullable (text : List Char) : Option Bool :=
  match dropBlanks text with
  | '?' :: rest => if (dropBlanks rest).isEmpty then some true else none
  | rest => if rest.isEmpty then some false else none

/-- The type with a name in any case and perhaps members. Only enumerations have members. -/
def type? (name : List Char) (parens : Option (List Char)) : Option FieldType :=
  let name := String.ofList (name.map Char.toLower)
  match parens with
  | some text => if name = "enum" then some (.enumeration (members text)) else none
  | none => typeOfName? name

/-- Reads a specification. -/
def read? (text : List Char) : Option Field := do
  let text := dropBlanks text
  let name := text.takeWhile continuesPlainName
  if !isPlainName name then none
  else
    match dropBlanks (text.dropWhile continuesPlainName) with
    | ':' :: rest =>
      let rest := dropBlanks rest
      let typeName := rest.takeWhile Char.isAlphanum
      if typeName.isEmpty then none
      else
        let (parens, rest) ← takeParens (rest.dropWhile Char.isAlphanum)
        let nullable ← takeNullable rest
        return ⟨.ofList name, ← type? typeName parens, nullable⟩
    | _ => none

end FieldSpec

end RowFilter
