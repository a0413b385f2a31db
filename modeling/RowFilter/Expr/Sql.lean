import RowFilter.CompileError

namespace RowFilter

namespace Literal

/-- A literal in SQL. Booleans are bits, and the text of a string stands as it is. -/
def sql : Literal → List Char
  | null => "null".toList
  | boolean true => ['1']
  | boolean false => ['0']
  | number d => d.text
  | string s => '\'' :: s.toList ++ ['\'']

end Literal

namespace Expr

/-- Puts parentheses around a text if asked to. -/
def grouped (group : Bool) (text : List Char) : List Char :=
  if group then '(' :: text ++ [')'] else text

/-- Whether an operand of a binary operator stands in parentheses. -/
def needsGroup (op : BinaryOp) (operand : Expr) : Bool :=
  if op.isConnective then operand.isConnective else operand.isBinary

/-- What SQL has around the operand of a unary operator. -/
def unarySql (op : UnaryOp) (operand : List Char) : List Char :=
  match op with
  | .not => "not ".toList ++ operand
  | .isNull => operand ++ " is null".toList
  | .isNotNull => operand ++ " is not null".toList

/-- The operand that makes a membership test impossible: anything but an array on the right. -/
def lacksArray (op : BinaryOp) (right : Expr) : Bool :=
  match op with
  | .among _ => !right.isArray
  | _ => false

/-- The SQL of an expression, with the columns that `column` gives to properties. A membership test
without an array is refused before its operands are looked at. -/
def toSql {m : Type → Type} [Monad m] (column : String → m (List Char))
    (refuse : TypeMismatch → m (List Char)) : Expr → m (List Char)
  | property name => column name
  | literal c => pure c.sql
  | array elements => pure ('(' :: [','].intercalate (elements.map Literal.sql) ++ [')'])
  | unary op e => do
    let text ← toSql column refuse e
    return unarySql op (grouped e.isBinary text)
  | binary op l r => do
    if lacksArray op r then refuse (.membershipArray op r)
    else
      let left ← toSql column refuse l
      let right ← toSql column refuse r
      return grouped (needsGroup op l) left ++ ' ' :: op.sql
        ++ ' ' :: grouped (needsGroup op r) right

section Binary

variable {m : Type → Type} [Monad m] {column : String → m (List Char)}
variable {refuse : TypeMismatch → m (List Char)} {op : BinaryOp} {l r : Expr}

theorem toSql_refused (h : lacksArray op r = true) :
    (binary op l r).toSql column refuse = refuse (.membershipArray op r) := by
  rw [toSql, if_pos h]

theorem toSql_binary (h : lacksArray op r = false) : (binary op l r).toSql column refuse = do
    let left ← l.toSql column refuse
    let right ← r.toSql column refuse
    return grouped (needsGroup op l) left ++ (' ' :: op.sql ++ [' '])
      ++ grouped (needsGroup op r) right := by
  rw [toSql, h]
  simp only [Bool.false_eq_true, if_false, List.append_assoc, List.cons_append, List.nil_append]

end Binary

/-- The SQL of an expression with every property under its own name. -/
def plainSql (e : Expr) : Except TypeMismatch (List Char) :=
  e.toSql (fun name => .ok name.toList) .error

end Expr

end RowFilter
