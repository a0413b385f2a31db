import RowFilter.Text.Lowercase
import RowFilter.Text.Position

namespace RowFilter

/-- Punctuation. -/
inductive Mark
  | comma
  | openBracket
  | closeBracket
  | openParen
  | closeParen
  | less
  | lessOrEqual
  | greater
  | greaterOrEqual
  | equal
  | notEqual
deriving DecidableEq, Repr

/-- Reserved words. -/
inductive Keyword
  | and
  | is
  | among
  | like
  | not
  | or
  | yes
  | no
  | null
  /-- Reserved without a use. -/
  | ci
deriving DecidableEq, Repr

inductive TokenKind
  | identifier
  /-- A quoted string. -/
  | string
  | number
  | mark (m : Mark)
  | keyword (k : Keyword)
deriving DecidableEq, Repr

/-- A piece of the source text: its kind, its characters as written, and where it starts. -/
structure Token where
  kind : TokenKind
  text : List Char
  position : Position
deriving DecidableEq, Repr

namespace Mark

/-- How a mark is written. -/
def spelling : Mark → List Char
  | comma => [',']
  | openBracket => ['[']
  | closeBracket => [']']
  | openParen => ['(']
  | closeParen => [')']
  | less => ['<']
  | lessOrEqual => ['<', '=']
  | greater => ['>']
  | greaterOrEqual => ['>', '=']
  | equal => ['=']
  | notEqual => ['<', '>']

/-- The mark that one character makes. -/
def ofChar? : Char → Option Mark
  | '<' => some less
  | '>' => some greater
  | '=' => some equal
  | ',' => some comma
  | '(' => some openParen
  | ')' => some closeParen
  | '[' => some openBracket
  | ']' => some closeBracket
  | _ => none

/-- The mark at the start of a text, the longest one first. -/
def first? : List Char → Option Mark
  | '<' :: '=' :: _ => some lessOrEqual
  | '<' :: '>' :: _ => some notEqual
  | '>' :: '=' :: _ => some greaterOrEqual
  | c :: _ => ofChar? c
  | [] => none

end Mark

namespace Keyword

/-- The keywords in the order in which they are looked up. -/
def all : List Keyword :=
  [and, is, among, like, not, or, yes, no, null, ci]

/-- The keyword in lower case. -/
def spelling : Keyword → List Char
  | and => "and".toList
  | is => "is".toList
  | among => "in".toList
  | like => "like".toList
  | not => "not".toList
  | or => "or".toList
  | yes => "true".toList
  | no => "false".toList
  | null => "null".toList
  | ci => "ci".toList

/-- The keyword that a word spells, in any case. -/
def ofWord? (word : List Char) : Option Keyword :=
  all.find? fun k => sameIgnoringAsciiCase k.spelling word

end Keyword

namespace TokenKind

/-- How messages name a kind of token. -/
def describe : TokenKind → String
  | identifier => "identifier"
  | string => "string"
  | number => "number"
  | mark m => String.ofList ('`' :: m.spelling ++ ['`'])
  | keyword k => String.ofList ('`' :: k.spelling ++ ['`'])

end TokenKind

end RowFilter
