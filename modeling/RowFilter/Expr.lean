import RowFilter.Number.Decimal

namespace RowFilter

inductive Comparison
  | equal
  | notEqual
  | less
  | lessOrEqual
  | greater
  | greaterOrEqual
deriving DecidableEq, Repr

inductive Connective
  | and
  | or
deriving DecidableEq, Repr

inductive UnaryOp
  | not
  | isNull
  | isNotNull
deriving DecidableEq, Repr

inductive BinaryOp
  | comparison (c : Comparison)
  | connective (c : Connective)
  | like (negated : Bool)
  | among (negated : Bool)
deriving DecidableEq, Repr

/-- Values written in an expression. A number keeps the fraction digits it is written with. -/
inductive Literal
  | null
  | boolean (b : Bool)
  | number (d : Decimal)
  | string (s : String)
deriving DecidableEq, Repr

inductive Expr
  /-- A field, by the name as written. -/
  | property (name : String)
  | literal (value : Literal)
  /-- A list of literals in brackets. -/
  | array (elements : List Literal)
  | unary (op : UnaryOp) (operand : Expr)
  | binary (op : BinaryOp) (left right : Expr)
deriving DecidableEq, Repr

namespace BinaryOp

/-- The comparison that an operator is. -/
def comparison? : BinaryOp → Option Comparison
  | comparison c => some c
  | _ => none

def isConnective : BinaryOp → Bool
  | connective _ => true
  | _ => false

/-- How SQL writes an operator. -/
def sql : BinaryOp → List Char
  | comparison .equal => ['=']
  | comparison .notEqual => ['<', '>']
  | comparison .less => ['<']
  | comparison .lessOrEqual => ['<', '=']
  | comparison .greater => ['>']
  | comparison .greaterOrEqual => ['>', '=']
  | connective .and => "and".toList
  | connective .or => "or".toList
  | like false => "like".toList
  | like true => "not like".toList
  | among false => "in".toList
  | among true => "not in".toList

end BinaryOp

namespace Literal

/-- The kind of a literal, for messages. -/
def kindName : Literal → String
  | null => "null"
  | boolean _ => "boolean"
  | number _ => "number"
  | string _ => "string"

/-- Equality of literals; numbers are equal by value. -/
def same : Literal → Literal → Bool
  | null, null => true
  | boolean a, boolean b => a == b
  | number a, number b => a.same b
  | string a, string b => a == b
  | _, _ => false

/-- Equality of lists of literals. -/
def sameAll : List Literal → List Literal → Bool
  | [], [] => true
  | a :: as, b :: bs => a.same b && sameAll as bs
  | _, _ => false

end Literal

namespace Expr

/-- Whether an expression is joined by a connective at the top. -/
def isConnective : Expr → Bool
  | binary op _ _ => op.isConnective
  | _ => false

def isBinary : Expr → Bool
  | binary .. => true
  | _ => false

def isArray : Expr → Bool
  | array _ => true
  | _ => false

/-- The kind of an expression, for messages. -/
def kindName : Expr → String
  | property _ => "property"
  | literal _ => "constant"
  | array _ => "array"
  | unary .. => "call"
  | binary .. => "call"

/-- The number of levels of a tree. -/
def height : Expr → Nat
  | property _ => 1
  | literal _ => 1
  | array _ => 1
  | unary _ e => e.height + 1
  | binary _ l r => max l.height r.height + 1

/-- Equality of trees; numbers are equal by value. -/
def same : Expr → Expr → Bool
  | property a, property b => a == b
  | literal a, literal b => a.same b
  | array as, array bs => Literal.sameAll as bs
  | unary p a, unary q b => p == q && a.same b
  | binary p a b, binary q c d => p == q && a.same c && b.same d
  | _, _ => false

theorem height_pos (e : Expr) : 0 < e.height := by
  cases e <;> simp [height]

end Expr

end RowFilter
