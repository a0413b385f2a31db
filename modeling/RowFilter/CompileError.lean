import RowFilter.Expr.CallForm
import RowFilter.Schema

namespace RowFilter

/-- Operands that do not go together, each case with what its message names. -/
inductive TypeMismatch
  | fieldAsCondition (field : Field)
  | literalAsCondition (value : Literal)
  | arrayAsCondition
  | nullTestOperand (op : UnaryOp) (operand : Expr)
  | strayArray
  | fieldWithField (left right : Field)
  /-- Two literals of different kinds, by the names of the kinds. -/
  | literalWithLiteral (left right : String)
  | conditionWithField (field : Field)
  | conditionWithLiteral (value : Literal)
  | likeOperands (left right : Expr)
  | membershipField (left : Expr)
  | membershipArray (op : BinaryOp) (right : Expr)
  | orderedBooleans
  | fieldWithLiteral (field : Field) (value : Literal)
deriving DecidableEq, Repr

inductive CompileError
  | unknownField (name : String)
  | mismatch (cause : TypeMismatch)
deriving DecidableEq, Repr

namespace TypeMismatch

/-- A literal in a message, behind its kind. -/
def describeLiteral (c : Literal) : String :=
  s!"{c.kindName} constant {String.ofList c.text}"

/-- A field in a message, behind its type. -/
def describeField (f : Field) : String :=
  s!"{f.type.text} field '{f.name}'"

def message : TypeMismatch → String
  | fieldAsCondition f => s!"field '{f.name}' of type {f.type.text} is not a condition"
  | literalAsCondition c => s!"{describeLiteral c} is not a condition"
  | arrayAsCondition => "an array is not a condition"
  | nullTestOperand op e => s!"`{op.callName}` needs a field operand, found {e.kindName}"
  | strayArray => "an array can only appear on the right of `in`"
  | fieldWithField f g => s!"cannot compare {describeField f} with {describeField g}"
  | literalWithLiteral a b => s!"cannot compare {a} constant with {b} constant"
  | conditionWithField f => s!"cannot compare a condition with {describeField f}"
  | conditionWithLiteral c => s!"cannot compare a condition with {describeLiteral c}"
  | likeOperands l r =>
    s!"`like` needs a string field and a string pattern, found {l.kindName} and "
      ++ String.ofList r.callText
  | membershipField e => s!"`in` needs a field on the left, found {e.kindName}"
  | membershipArray op e =>
    s!"`{String.ofList op.sql}` needs an array on the right, found {e.kindName}"
  | orderedBooleans => "booleans cannot be ordered"
  | fieldWithLiteral f c => s!"cannot compare {describeField f} with {describeLiteral c}"

end TypeMismatch

namespace CompileError

def message : CompileError → String
  | unknownField name => s!"Unknown field '{name}'"
  | mismatch cause => s!"Type mismatch: {cause.message}"

end CompileError

end RowFilter
