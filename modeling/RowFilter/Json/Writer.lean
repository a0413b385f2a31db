import RowFilter.Json
import RowFilter.Number.Shortest

namespace RowFilter

/-- The text of a positive finite double: positional where the first digit stands for a power of
ten from -5 to 15, and with an exponent elsewhere. A positional text has a fraction. -/
def positiveText (pattern : Nat) : List Char :=
  let (number, last) := shortestDigits pattern
  let digits := Nat.toDigits 10 number
  let first : Int := last + digits.length - 1
  if 0 ≤ last ∧ first ≤ 15 then digits ++ List.replicate last.toNat '0' ++ ['.', '0']
  else if 0 ≤ first ∧ first ≤ 15 then
    digits.take (first.toNat + 1) ++ '.' :: digits.drop (first.toNat + 1)
  else if -5 ≤ first ∧ first < 0 then
    '0' :: '.' :: List.replicate (-first - 1).toNat '0' ++ digits
  else
    let fraction := if digits.length = 1 then [] else '.' :: digits.drop 1
    let sign := if first < 0 then '-' else '+'
    digits.take 1 ++ fraction ++ 'e' :: sign :: Nat.toDigits 10 first.natAbs

/-- The text of a double. What is not finite has none of its own. -/
def Double.text (x : Double) : List Char :=
  if !x.isFinite then "null".toList
  else
    let unsigned := if x.magnitude = 0 then "0.0".toList else positiveText x.magnitude
    if x.negative then '-' :: unsigned else unsigned

/-- The text of a number. -/
def JsonNumber.text : JsonNumber → List Char
  | integer n =>
    if n < 0 then '-' :: Nat.toDigits 10 n.natAbs else Nat.toDigits 10 n.natAbs
  | real x => x.text

namespace Json

/-- How a character is written inside a string. -/
def escapeChar (c : Char) : List Char :=
  match c with
  | '"' => ['\\', '"']
  | '\\' => ['\\', '\\']
  | '\x08' => ['\\', 'b']
  | '\x0c' => ['\\', 'f']
  | '\n' => ['\\', 'n']
  | '\r' => ['\\', 'r']
  | '\t' => ['\\', 't']
  | c =>
    if c.toNat < 0x20 then
      '\\' :: 'u' :: '0' :: '0' :: Nat.digitChar (c.toNat / 16) :: [Nat.digitChar (c.toNat % 16)]
    else [c]

/-- A string between quotes. -/
def quoteString (s : String) : List Char :=
  '"' :: s.toList.flatMap escapeChar ++ ['"']

/-- What stands before an item `depth` containers deep. -/
def lineBreak (pretty : Bool) (depth : Nat) : List Char :=
  if pretty then '\n' :: List.replicate (2 * depth) ' ' else []

/-- Items with commas between them, each on its own line if lines are broken. -/
def joinItems (pretty : Bool) (depth : Nat) (openWith closeWith : Char) :
    List (List Char) → List Char
  | [] => [openWith, closeWith]
  | items =>
    let lines := items.map (lineBreak pretty (depth + 1) ++ ·)
    openWith :: [','].intercalate lines ++ lineBreak pretty depth ++ [closeWith]

mutual

/-- The text of a value that stands `depth` containers deep. -/
def textAt (pretty : Bool) (depth : Nat) : Json → List Char
  | null => "null".toList
  | boolean b => if b then "true".toList else "false".toList
  | number n => n.text
  | string s => quoteString s
  | array items => joinItems pretty depth '[' ']' (itemTexts pretty (depth + 1) items)
  | object members => joinItems pretty depth '\x7b' '\x7d' (memberTexts pretty (depth + 1) members)

/-- The texts of the items of an array. -/
def itemTexts (pretty : Bool) (depth : Nat) : List Json → List (List Char)
  | [] => []
  | item :: rest => textAt pretty depth item :: itemTexts pretty depth rest

/-- The texts of the members of an object. -/
def memberTexts (pretty : Bool) (depth : Nat) : List (String × Json) → List (List Char)
  | [] => []
  | (name, value) :: rest =>
    let colon := if pretty then [':', ' '] else [':']
    (quoteString name ++ colon ++ textAt pretty depth value) :: memberTexts pretty depth rest

end

/-- The text of a value on one line. -/
def text (value : Json) : List Char :=
  textAt false 0 value

/-- The text of a value with one item a line, indented by two spaces. -/
def prettyText (value : Json) : List Char :=
  textAt true 0 value

end Json

end RowFilter
