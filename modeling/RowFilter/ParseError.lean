import RowFilter.Token.Lexer

namespace RowFilter

/-- The deepest tree that is read, and the most parentheses that are open at once. -/
def maxDepth : Nat := 256

/-- What was needed where the reading stopped. -/
inductive Expected
  | expression
  | literal
  | commaOrBracket
  | closeParen
  | null
  | nullTest
  | property
  | commaOrEnd
  | endOfInput
deriving DecidableEq, Repr

inductive Reason
  | expected (e : Expected)
  /-- A number that fits no decimal. -/
  | invalidNumber (number : Token)
  | tooDeep
deriving DecidableEq, Repr

/-- Where the reading of tokens stopped: the reason, the tokens left, and how many parentheses
were left open. -/
structure Stop where
  reason : Reason
  rest : List Token
  opened : Nat
deriving DecidableEq, Repr

inductive ParseError
  | lexical (e : LexError)
  /-- The text found is that of a token, or nothing at the end of the input. -/
  | unexpected (expected : Expected) (found : Option (List Char)) (position : Position)
  | invalidNumber (number : List Char) (position : Position)
  | tooDeep (position : Position)
deriving DecidableEq, Repr

namespace Expected

def text : Expected → String
  | expression => "expression"
  | literal => "literal"
  | commaOrBracket => "`,` or `]`"
  | closeParen => "`)`"
  | null => "`null`"
  | nullTest => "`null` or `not null`"
  | property => "property"
  | commaOrEnd => "`,` or end of input"
  | endOfInput => "end of input"

end Expected

namespace Stop

/-- The last token before those that are left, or the end of the source. -/
def lastPosition (source : List Char) (tokens rest : List Token) : Position :=
  match tokens[tokens.length - rest.length - 1]? with
  | some t => t.position
  | none => .endOf source

/-- The error for a stop in the tokens of a source. -/
def toError (source : List Char) (tokens : List Token) (s : Stop) : ParseError :=
  match s.reason with
  | .expected e =>
    match s.rest with
    | t :: _ => .unexpected e (some t.text) t.position
    | [] => .unexpected e none (.endOf source)
  | .invalidNumber t => .invalidNumber t.text t.position
  | .tooDeep => .tooDeep (lastPosition source tokens s.rest)

end Stop

namespace ParseError

def position : ParseError → Position
  | lexical e => e.position
  | unexpected _ _ p => p
  | invalidNumber _ p => p
  | tooDeep p => p

/-- How messages name a token that is out of place. -/
def foundText : Option (List Char) → String
  | some text => String.ofList ('`' :: text ++ ['`'])
  | none => "end of input"

def message : ParseError → String
  | lexical e => s!"Lexical error: {e.message}"
  | unexpected e found p =>
    s!"Syntax error at {p.describe}: expected {e.text}, found {foundText found}"
  | invalidNumber text p =>
    s!"Invalid number '{String.ofList text}' at {p.describe}: "
      ++ "the numeric literal does not fit a decimal"
  | tooDeep p => s!"Expression at {p.describe} nests deeper than {maxDepth} levels"

end ParseError

end RowFilter
