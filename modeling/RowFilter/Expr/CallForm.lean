import RowFilter.Expr
import RowFilter.Text.Identifier
import RowFilter.Text.Quoted

namespace RowFilter

namespace UnaryOp

/-- The name of an operator in a call. -/
def callName : UnaryOp → String
  | not => "Not"
  | isNull => "IsNull"
  | isNotNull => "IsNotNull"

end UnaryOp

namespace BinaryOp

/-- The name of an operator in a call. -/
def callName : BinaryOp → String
  | comparison .equal => "Equal"
  | comparison .notEqual => "NotEqual"
  | comparison .less => "LessThan"
  | comparison .lessOrEqual => "LessOrEqual"
  | comparison .greater => "GreaterThan"
  | comparison .greaterOrEqual => "GreaterOrEqual"
  | connective .and => "And"
  | connective .or => "Or"
  | like false => "Like"
  | like true => "NotLike"
  | among false => "In"
  | among true => "NotIn"

end BinaryOp

namespace Literal

/-- A literal as it may be written in an expression, quotes in strings doubled. -/
def text : Literal → List Char
  | null => "null".toList
  | boolean true => "true".toList
  | boolean false => "false".toList
  | number d => d.text
  | string s => Quoted.enclose '\'' s.toList

end Literal

namespace Expr

/-- A property by its name if that is plain, and with the name quoted otherwise. -/
def propertyText (name : List Char) : List Char :=
  if isPlainName name then name
  else "@Properties[".toList ++ Quoted.enclose '\'' name ++ [']']

/-- The tree as nested calls. -/
def callText : Expr → List Char
  | property name => propertyText name.toList
  | literal c => c.text
  | array elements => '(' :: [',', ' '].intercalate (elements.map Literal.text) ++ [')']
  | unary op e => op.callName.toList ++ '(' :: e.callText ++ [')']
  | binary op l r => op.callName.toList ++ '(' :: l.callText ++ ',' :: ' ' :: r.callText ++ [')']

end Expr

end RowFilter
