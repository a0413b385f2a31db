import RowFilter.Expr.Reader

namespace RowFilter

/-- How a comparison is written. -/
def Comparison.mark : Comparison → Mark
  | equal => .equal
  | notEqual => .notEqual
  | less => .less
  | lessOrEqual => .lessOrEqual
  | greater => .greater
  | greaterOrEqual => .greaterOrEqual

/-- How a connective is written. -/
def Connective.keyword : Connective → Keyword
  | and => .and
  | or => .or

namespace Grammar

/-- Tokens that are literals. A number has to fit a decimal. -/
inductive IsLiteral : Token → Literal → Prop
  | string {t : Token} : t.kind = .string →
      IsLiteral t (.string (.ofList (Quoted.content '\'' t.text)))
  | number {t : Token} {d : Decimal} : t.kind = .number → Decimal.read? t.text = some d →
      IsLiteral t (.number d)
  | yes {t : Token} : t.kind = .keyword .yes → IsLiteral t (.boolean true)
  | no {t : Token} : t.kind = .keyword .no → IsLiteral t (.boolean false)
  | null {t : Token} : t.kind = .keyword .null → IsLiteral t .null

/-- One or more literals with commas between them. -/
inductive Elements : List Token → List Literal → Prop
  | one {t : Token} {l : Literal} : IsLiteral t l → Elements [t] [l]
  | more {t u : Token} {ts : List Token} {l : Literal} {ls : List Literal} : IsLiteral t l →
      u.kind = .mark .comma → Elements ts ls → Elements (t :: u :: ts) (l :: ls)

/-- Names, literals and arrays. -/
inductive Item : List Token → Expr → Prop
  | property {t : Token} : t.kind = .identifier → Item [t] (.property (.ofList t.text))
  | literal {t : Token} {l : Literal} : IsLiteral t l → Item [t] (.literal l)
  | array {t u : Token} {ts : List Token} {ls : List Literal} : t.kind = .mark .openBracket →
      Elements ts ls → u.kind = .mark .closeBracket → Item (t :: ts ++ [u]) (.array ls)

/-- The tests between operands, by their tokens. -/
inductive Test : List Token → BinaryOp → Prop
  | comparison {t : Token} (c : Comparison) : t.kind = .mark c.mark → Test [t] (.comparison c)
  | like {t : Token} : t.kind = .keyword .like → Test [t] (.like false)
  | notLike {t u : Token} : t.kind = .keyword .not → u.kind = .keyword .like →
      Test [t, u] (.like true)
  | among {t : Token} : t.kind = .keyword .among → Test [t] (.among false)
  | notAmong {t u : Token} : t.kind = .keyword .not → u.kind = .keyword .among →
      Test [t, u] (.among true)

inductive Layer
  | expression
  | comparison
  | operand
  | negation
  | factor

/-- The trees that tokens derive in each layer. -/
inductive Derives : Layer → List Token → Expr → Prop
  | item {ts : List Token} {e : Expr} : Item ts e → Derives .factor ts e
  | parens {t u : Token} {ts : List Token} {e : Expr} : t.kind = .mark .openParen →
      Derives .expression ts e → u.kind = .mark .closeParen → Derives .factor (t :: ts ++ [u]) e
  | factor {ts : List Token} {e : Expr} : Derives .factor ts e → Derives .negation ts e
  | not {t : Token} {ts : List Token} {e : Expr} : t.kind = .keyword .not →
      Derives .factor ts e → Derives .negation (t :: ts) (.unary .not e)
  | negation {ts : List Token} {e : Expr} : Derives .negation ts e → Derives .operand ts e
  | isNull {t u : Token} {ts : List Token} {e : Expr} : Derives .negation ts e →
      t.kind = .keyword .is → u.kind = .keyword .null →
      Derives .operand (ts ++ [t, u]) (.unary .isNull e)
  | isNotNull {t u v : Token} {ts : List Token} {e : Expr} : Derives .negation ts e →
      t.kind = .keyword .is → u.kind = .keyword .not → v.kind = .keyword .null →
      Derives .operand (ts ++ [t, u, v]) (.unary .isNotNull e)
  | operand {ts : List Token} {e : Expr} : Derives .operand ts e → Derives .comparison ts e
  | test {ts os us : List Token} {l r : Expr} {op : BinaryOp} : Derives .comparison ts l →
      Test os op → Derives .operand us r → Derives .comparison (ts ++ os ++ us) (.binary op l r)
  | comparison {ts : List Token} {e : Expr} : Derives .comparison ts e → Derives .expression ts e
  | connective {t : Token} {ts us : List Token} {l r : Expr} {c : Connective} :
      Derives .expression ts l → t.kind = .keyword c.keyword → Derives .comparison us r →
      Derives .expression (ts ++ [t] ++ us) (.binary (.connective c) l r)

end Grammar

end RowFilter
