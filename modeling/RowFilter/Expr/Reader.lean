import RowFilter.Expr
import RowFilter.ParseError
import RowFilter.Text.Quoted

namespace RowFilter

/-- A reader of trees. -/
abbrev Reader := List Token → Except Stop (Expr × List Token)

namespace Reader

/-- Stops with all parentheses closed. -/
def stop {α : Type} (reason : Reason) (rest : List Token) : Except Stop α :=
  .error ⟨reason, rest, 0⟩

/-- The literal that a token is: nothing for other tokens, and nothing inside for a number that
fits no decimal. -/
def literal? (t : Token) : Option (Option Literal) :=
  match t.kind with
  | .string => some (some (.string (.ofList (Quoted.content '\'' t.text))))
  | .number => some ((Decimal.read? t.text).map .number)
  | .keyword .yes => some (some (.boolean true))
  | .keyword .no => some (some (.boolean false))
  | .keyword .null => some (some .null)
  | _ => none

/-- The literals of an array up to its bracket, at least one. -/
def elements : List Token → Except Stop (List Literal × List Token)
  | [] => stop (.expected .literal) []
  | t :: rest =>
    match literal? t with
    | none => stop (.expected .literal) (t :: rest)
    | some none => stop (.invalidNumber t) rest
    | some (some c) =>
      match rest with
      | [] => stop (.expected .commaOrBracket) []
      | u :: rest =>
        if u.kind = .mark .comma then do
          let (cs, rest) ← elements rest
          return (c :: cs, rest)
        else if u.kind = .mark .closeBracket then .ok ([c], rest)
        else stop (.expected .commaOrBracket) (u :: rest)

/-- A name, a literal or an array. -/
def item : Reader
  | [] => stop (.expected .expression) []
  | t :: rest =>
    if t.kind = .identifier then .ok (.property (.ofList t.text), rest)
    else if t.kind = .mark .openBracket then do
      let (cs, rest) ← elements rest
      return (.array cs, rest)
    else
      match literal? t with
      | none => stop (.expected .expression) (t :: rest)
      | some none => stop (.invalidNumber t) rest
      | some (some c) => .ok (.literal c, rest)

/-- An item, or an expression in parentheses. The reader of the expression inside is missing where
no parenthesis may be opened. -/
def factor (inner : Option Reader) : Reader
  | [] => item []
  | t :: rest =>
    if t.kind = .mark .openParen then
      match inner with
      | none => stop .tooDeep rest
      | some expression =>
        match expression rest with
        | .error s => .error { s with opened := s.opened + 1 }
        | .ok (e, rest) =>
          match rest with
          | u :: rest =>
            if u.kind = .mark .closeParen then .ok (e, rest)
            else stop (.expected .closeParen) (u :: rest)
          | [] => stop (.expected .closeParen) []
    else item (t :: rest)

/-- The tree under an operator, if that is not too deep. -/
def under (limit : Nat) (op : UnaryOp) (e : Expr) (rest : List Token) :
    Except Stop (Expr × List Token) :=
  if limit < (Expr.unary op e).height then stop .tooDeep rest else .ok (.unary op e, rest)

/-- A factor, perhaps behind `not`. -/
def negation (limit : Nat) (inner : Option Reader) : Reader
  | [] => factor inner []
  | t :: rest =>
    if t.kind = .keyword .not then do
      let (e, rest) ← factor inner rest
      under limit .not e rest
    else factor inner (t :: rest)

/-- The null test behind an operand, if there is one. -/
def nullTest (limit : Nat) (e : Expr) : Reader
  | [] => .ok (e, [])
  | t :: rest =>
    if t.kind = .keyword .is then
      if limit < (Expr.unary .isNull e).height then stop .tooDeep rest
      else
        match rest with
        | [] => stop (.expected .nullTest) []
        | u :: rest =>
          if u.kind = .keyword .null then .ok (.unary .isNull e, rest)
          else if u.kind = .keyword .not then
            match rest with
            | [] => stop (.expected .null) []
            | v :: rest =>
              if v.kind = .keyword .null then .ok (.unary .isNotNull e, rest)
              else stop (.expected .null) (v :: rest)
          else stop (.expected .nullTest) (u :: rest)
    else .ok (e, t :: rest)

/-- An operand of a comparison: `[not] factor [is [not] null]`. -/
def operand (limit : Nat) (inner : Option Reader) : Reader := fun tokens => do
  let (e, rest) ← negation limit inner tokens
  nullTest limit e rest

/-- The connective at the start of the tokens. -/
def connective? : List Token → Option (BinaryOp × List Token)
  | [] => none
  | t :: rest =>
    match t.kind with
    | .keyword .and => some (.connective .and, rest)
    | .keyword .or => some (.connective .or, rest)
    | _ => none

/-- The comparison, pattern test or membership test that a mark or keyword begins. -/
def testOfKind? : TokenKind → Option BinaryOp
  | .keyword .like => some (.like false)
  | .keyword .among => some (.among false)
  | .mark .lessOrEqual => some (.comparison .lessOrEqual)
  | .mark .notEqual => some (.comparison .notEqual)
  | .mark .less => some (.comparison .less)
  | .mark .greaterOrEqual => some (.comparison .greaterOrEqual)
  | .mark .greater => some (.comparison .greater)
  | .mark .equal => some (.comparison .equal)
  | _ => none

/-- The test at the start of the tokens. A `not` that negates no test stays where it is. -/
def test? : List Token → Option (BinaryOp × List Token)
  | [] => none
  | t :: rest =>
    if t.kind = .keyword .not then
      match rest with
      | [] => none
      | u :: rest =>
        match u.kind with
        | .keyword .like => some (.like true, rest)
        | .keyword .among => some (.among true, rest)
        | _ => none
    else (testOfKind? t.kind).map (·, rest)

/-- Operands behind `left` with operators between them, grouped from the left. Each adds a level
to the tree, so `levels` can be `limit`. -/
def chain (limit : Nat) (operator : List Token → Option (BinaryOp × List Token))
    (operand : Reader) : Nat → Expr → Reader
  | levels, left, tokens =>
    match operator tokens with
    | none => .ok (left, tokens)
    | some (op, rest) => do
      let (right, rest) ← operand rest
      if limit < (Expr.binary op left right).height then stop .tooDeep rest
      else
        match levels with
        | 0 => stop .tooDeep rest
        | levels + 1 => chain limit operator operand levels (.binary op left right) rest

/-- Operands with tests between them. -/
def comparison (limit : Nat) (inner : Option Reader) : Reader := fun tokens => do
  let (left, rest) ← operand limit inner tokens
  chain limit test? (operand limit inner) limit left rest

/-- Comparisons with connectives between them, which all bind equally. -/
def expressionWith (limit : Nat) (inner : Option Reader) : Reader := fun tokens => do
  let (left, rest) ← comparison limit inner tokens
  chain limit connective? (comparison limit inner) limit left rest

/-- An expression in which at most `room` parentheses are open at once. -/
def expression (limit : Nat) : Nat → Reader
  | 0, tokens => expressionWith limit none tokens
  | room + 1, tokens => expressionWith limit (some (expression limit room)) tokens

end Reader

/-- Reading expressions one after another: the source with its tokens, the tokens left, and how
many parentheses may still be opened. Parentheses that an error leaves open count as open from
then on. -/
structure Session where
  source : List Char
  tokens : List Token
  rest : List Token
  room : Nat
deriving DecidableEq, Repr

namespace Session

/-- A session over the tokens of a source. -/
def ofTokens (source : List Char) (tokens : List Token) : Session :=
  ⟨source, tokens, tokens, maxDepth⟩

/-- A session over what a lexer has left of a source. -/
def ofLexer (source : List Char) (l : Lexer) : Except LexError Session := do
  return ofTokens source (← l.tokens)

/-- Reads an expression. -/
def expression (s : Session) : Except ParseError Expr × Session :=
  match Reader.expression maxDepth s.room s.rest with
  | .ok (e, rest) => (.ok e, { s with rest := rest })
  | .error stop =>
    (.error (stop.toError s.source s.tokens),
      { s with rest := stop.rest, room := s.room - stop.opened })

/-- Reads an expression that takes all tokens. -/
def complete (s : Session) : Except ParseError Expr × Session :=
  match s.expression with
  | (.error e, s) => (.error e, s)
  | (.ok e, s) =>
    if s.rest.isEmpty then (.ok e, s)
    else (.error (Stop.toError s.source s.tokens ⟨.expected .endOfInput, s.rest, 0⟩), s)

end Session

/-- Reads a text as one expression. -/
def parseWhere (text : List Char) : Except ParseError Expr :=
  match tokenize text with
  | .error e => .error (.lexical e)
  | .ok tokens => (Session.ofTokens text tokens).complete.1

end RowFilter
