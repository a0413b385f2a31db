import RowFilter.Text.Blank
import RowFilter.Text.Identifier
import RowFilter.Token

namespace RowFilter

/-- Why a text cannot be split into tokens, and where. -/
inductive LexError
  | unexpectedCharacter (c : Char) (position : Position)
  | unterminatedString (position : Position)
  /-- A digit was needed, or the number runs into something else. -/
  | malformedNumber (position : Position)
deriving DecidableEq, Repr

namespace LexError

def position : LexError → Position
  | unexpectedCharacter _ p => p
  | unterminatedString p => p
  | malformedNumber p => p

def message : LexError → String
  | unexpectedCharacter c p => s!"Unexpected character '{c}' at {p.describe}"
  | unterminatedString p => s!"Unterminated string starting at {p.describe}"
  | malformedNumber p => s!"Malformed number at {p.describe}: expected digit"

end LexError

/-- Splits a text behind an opening quote into the string's rest, closing quote included, and what
follows. Two quotes in a row belong to the string. -/
def splitQuoted : List Char → Option (List Char × List Char)
  | [] => none
  | '\'' :: '\'' :: cs => (splitQuoted cs).map fun (body, rest) => ('\'' :: '\'' :: body, rest)
  | '\'' :: cs => some (['\''], cs)
  | c :: cs => (splitQuoted cs).map fun (body, rest) => (c :: body, rest)

/-- Whether a number may be followed by this text: the end, layout, or a mark. -/
def endsNumber : List Char → Bool
  | [] => true
  | c :: _ => isLayout c || (Mark.ofChar? c).isSome

/-- Splits a text that starts with a digit behind its number. The error is what was read before
the number went wrong. -/
def splitNumber (text : List Char) : Except (List Char) (List Char × List Char) :=
  let whole := text.takeWhile Char.isDigit
  let (read, rest, complete) := match text.dropWhile Char.isDigit with
    | '.' :: cs => (whole ++ '.' :: cs.takeWhile Char.isDigit, cs.dropWhile Char.isDigit,
        !(cs.takeWhile Char.isDigit).isEmpty)
    | cs => (whole, cs, true)
  if complete && endsNumber rest then .ok (read, rest) else .error read

/-- The kind of a word: a keyword or a name. -/
def wordKind (word : List Char) : TokenKind :=
  match Keyword.ofWord? word with
  | some k => .keyword k
  | none => .identifier

/-- Reads the token at the start of the text `c :: cs`, which starts at `p`, and returns what
follows it. -/
def readToken (c : Char) (cs : List Char) (p : Position) : Except LexError (Token × List Char) :=
  if c = '\'' then
    match splitQuoted cs with
    | some (body, rest) => .ok (⟨.string, c :: body, p⟩, rest)
    | none => .error (.unterminatedString p)
  else if c.isDigit then
    match splitNumber (c :: cs) with
    | .ok (read, rest) => .ok (⟨.number, read, p⟩, rest)
    | .error read => .error (.malformedNumber (p.after read))
  else if startsName c then
    let word := c :: cs.takeWhile continuesName
    .ok (⟨wordKind word, word, p⟩, cs.dropWhile continuesName)
  else
    match Mark.first? (c :: cs) with
    | some m => .ok (⟨.mark m, m.spelling, p⟩, (c :: cs).drop m.spelling.length)
    | none => .error (.unexpectedCharacter c p)

/-- A text that is being split: what is left of it, where that starts, and whether an error has
ended the reading. -/
structure Lexer where
  rest : List Char
  position : Position
  failed : Bool
deriving DecidableEq, Repr

namespace Lexer

def ofText (text : List Char) : Lexer :=
  ⟨text, .start, false⟩

/-- Reads the next token. There is none at the end of the text, nor behind an error. -/
def next (l : Lexer) : Option (Except LexError Token) × Lexer :=
  if l.failed then (none, l)
  else
    let p := l.position.after (l.rest.takeWhile isLayout)
    match l.rest.dropWhile isLayout with
    | [] => (none, ⟨[], p, false⟩)
    | c :: cs =>
      match readToken c cs p with
      | .ok (t, rest) => (some (.ok t), ⟨rest, p.after t.text, false⟩)
      | .error e => (some (.error e), ⟨c :: cs, p, true⟩)

/-- Reads at most `n` tokens. -/
def take : Nat → Lexer → Except LexError (List Token)
  | 0, _ => .ok []
  | n + 1, l =>
    match l.next with
    | (none, _) => .ok []
    | (some (.error e), _) => .error e
    | (some (.ok t), l) => do return t :: (← take n l)

/-- Reads all tokens that are left. A token takes at least one character, so there are no more
tokens than characters. -/
def tokens (l : Lexer) : Except LexError (List Token) :=
  l.take l.rest.length

end Lexer

/-- The tokens of a text. -/
def tokenize (text : List Char) : Except LexError (List Token) :=
  (Lexer.ofText text).tokens

end RowFilter
