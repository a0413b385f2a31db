import RowFilter.Json
import RowFilter.Text.Hexadecimal

namespace RowFilter

namespace Json

def isSpace (c : Char) : Bool :=
  c = ' ' || c = '\n' || c = '\t' || c = '\r'

def skipSpace (text : List Char) : List Char :=
  text.dropWhile isSpace

/-- The number that four hexadecimal digits write. -/
def takeUnit : List Char → Option (Nat × List Char)
  | a :: b :: c :: d :: rest => (hexNumber? [a, b, c, d]).map (·, rest)
  | _ => none

/-- The character that one unit, or a high and a low surrogate, stand for, behind `\u`. -/
def takeEscapedUnits (text : List Char) : Option (Char × List Char) := do
  let (high, rest) ← takeUnit text
  if 0xD800 ≤ high ∧ high < 0xDC00 then
    match rest with
    | '\\' :: 'u' :: rest => do
      let (low, rest) ← takeUnit rest
      if 0xDC00 ≤ low ∧ low < 0xE000 then
        some (Char.ofNat (0x10000 + (high - 0xD800) * 1024 + (low - 0xDC00)), rest)
      else none
    | _ => none
  else if 0xDC00 ≤ high ∧ high < 0xE000 then none
  else some (Char.ofNat high, rest)

/-- The character of an escape, behind the backslash. -/
def takeEscape : List Char → Option (Char × List Char)
  | [] => none
  | c :: rest =>
    match c with
    | '"' => some ('"', rest)
    | '\\' => some ('\\', rest)
    | '/' => some ('/', rest)
    | 'b' => some ('\x08', rest)
    | 'f' => some ('\x0c', rest)
    | 'n' => some ('\n', rest)
    | 'r' => some ('\r', rest)
    | 't' => some ('\t', rest)
    | 'u' => takeEscapedUnits rest
    | _ => none

/-- The rest of a string behind its opening quote, of at most `fuel` characters. -/
def takeString : Nat → List Char → Option (List Char × List Char)
  | 0, _ => none
  | _ + 1, [] => none
  | fuel + 1, c :: rest =>
    if c = '"' then some ([], rest)
    else if c = '\\' then do
      let (d, rest) ← takeEscape rest
      let (body, rest) ← takeString fuel rest
      return (d :: body, rest)
    else if c.toNat < 0x20 then none
    else do
      let (body, rest) ← takeString fuel rest
      return (c :: body, rest)

/-- A power of ten as a magnitude. -/
def tens (exponent : Nat) : Nat :=
  binary64.nearest (Nat.pow 10 exponent) 1

/-- Divides the magnitude of a number below 2^64 by a power of ten. The greatest power that is a
double is 308; a larger one is divided by in two steps, and behind the second nothing is left. -/
def overTens (magnitude exponent : Nat) : Nat :=
  if exponent ≤ 308 then Double.quotient magnitude (tens exponent)
  else if exponent ≤ 616 then
    Double.quotient (Double.quotient magnitude (tens 308)) (tens (exponent - 308))
  else 0

/-- The magnitude of `significand * 10 ^ exponent`. The significand and the power are rounded one
by one, and so is their product or quotient. -/
def realMagnitude (significand : Nat) (exponent : Int) : Nat :=
  let magnitude := binary64.nearest significand 1
  if exponent < 0 then overTens magnitude (-exponent).toNat
  else if magnitude = 0 then 0
  else if exponent ≤ 308 then Double.times magnitude (tens exponent.toNat)
  else binary64.infinity

/-- The number that the first digits of a text continue `n` to, as many of them as leave it below
2^64, and how many digits are left over. -/
def takeSignificand : Nat → List Char → Nat × Nat
  | n, [] => (n, 0)
  | n, c :: cs =>
    let continued := 10 * n + (c.toNat - '0'.toNat)
    if continued < Nat.pow 2 64 then takeSignificand continued cs else (n, cs.length + 1)

/-- The double for the digits of a whole part, a fraction and an exponent; none if it is infinite.
Digits beyond 64 bits count by their place only. -/
def realNumber? (negative : Bool) (whole fraction : List Char) (exponent : Int) : Option Double :=
  let (significand, dropped) := takeSignificand 0 whole
  let (significand, ignored) := takeSignificand significand fraction
  let places : Int := fraction.length - ignored
  Double.ofMagnitude? negative (realMagnitude significand (exponent + dropped - places))

/-- The digits at the start of a text, at least one. -/
def takeDigits (text : List Char) : Option (List Char × List Char) :=
  let digits := text.takeWhile Char.isDigit
  if digits.isEmpty then none else some (digits, text.drop digits.length)

/-- A whole part: zero, or digits that do not start with it. -/
def takeWhole (text : List Char) : Option (List Char × List Char) := do
  let (digits, rest) ← takeDigits text
  if digits.head? = some '0' ∧ digits ≠ ['0'] then none else some (digits, rest)

/-- An optional fraction. -/
def takeFraction : List Char → Option (List Char × List Char)
  | '.' :: rest => takeDigits rest
  | rest => some ([], rest)

/-- An optional exponent. -/
def takeExponent : List Char → Option (Option Int × List Char)
  | c :: rest =>
    if c = 'e' ∨ c = 'E' then do
      let (negative, rest) := match rest with
        | '-' :: rest => (true, rest)
        | '+' :: rest => (false, rest)
        | rest => (false, rest)
      let (digits, rest) ← takeDigits rest
      let n : Int := Nat.ofDigitChars 10 digits 0
      return (some (if negative then -n else n), rest)
    else some (none, c :: rest)
  | [] => some (none, [])

/-- A number behind its sign. Zero with a sign is a double. -/
def takeUnsigned (negative : Bool) (text : List Char) : Option (JsonNumber × List Char) := do
  let (whole, rest) ← takeWhole text
  let (fraction, rest) ← takeFraction rest
  let (exponent, rest) ← takeExponent rest
  let digits := Nat.ofDigitChars 10 (whole ++ fraction) 0
  let signed : Int := if negative then -digits else digits
  let exact := if fraction.isEmpty ∧ exponent.isNone ∧ ¬(negative ∧ digits = 0)
    then JsonNumber.ofInt? signed else none
  match exact with
  | some n => some (n, rest)
  | none => do
    let x ← realNumber? negative whole fraction (exponent.getD 0)
    return (.real x, rest)

def takeNumber : List Char → Option (JsonNumber × List Char)
  | '-' :: rest => takeUnsigned true rest
  | rest => takeUnsigned false rest

/-- Items with commas between them up to a closing character, at most `fuel`. -/
def takeItems {α : Type} (close : Char) (item : List Char → Option (α × List Char)) :
    Nat → List Char → Option (List α × List Char)
  | 0, _ => none
  | fuel + 1, text => do
    let (a, rest) ← item text
    match skipSpace rest with
    | [] => none
    | c :: rest =>
      if c = ',' then do
        let (as, rest) ← takeItems close item fuel rest
        return (a :: as, rest)
      else if c = close then some ([a], rest)
      else none

/-- The items of a container behind its opening character. -/
def takeContainer {α : Type} (close : Char) (item : List Char → Option (α × List Char))
    (text : List Char) : Option (List α × List Char) :=
  match skipSpace text with
  | [] => none
  | c :: rest => if c = close then some ([], rest) else takeItems close item text.length text

/-- A member of an object. -/
def takeMember (value : List Char → Option (Json × List Char)) (text : List Char) :
    Option ((String × Json) × List Char) := do
  match skipSpace text with
  | '"' :: rest =>
    let (name, rest) ← takeString (rest.length + 1) rest
    match skipSpace rest with
    | ':' :: rest =>
      let (v, rest) ← value rest
      return ((.ofList name, v), rest)
    | _ => none
  | _ => none

/-- The value at the start of a text that does not start with space. The reader of the values
inside a container is missing where no container may be opened. -/
def takeValueWith (inner : Option (List Char → Option (Json × List Char))) :
    List Char → Option (Json × List Char)
  | 'n' :: 'u' :: 'l' :: 'l' :: rest => some (null, rest)
  | 't' :: 'r' :: 'u' :: 'e' :: rest => some (boolean true, rest)
  | 'f' :: 'a' :: 'l' :: 's' :: 'e' :: rest => some (boolean false, rest)
  | '"' :: rest => do
    let (body, rest) ← takeString (rest.length + 1) rest
    return (string (.ofList body), rest)
  | '[' :: rest => do
    let (items, rest) ← takeContainer ']' (← inner) rest
    return (array items, rest)
  | '\x7b' :: rest => do
    let (members, rest) ← takeContainer '\x7d' (takeMember (← inner)) rest
    return (ofMembers members, rest)
  | text => do
    let (n, rest) ← takeNumber text
    return (number n, rest)

/-- The value at the start of a text, in which at most `depth` containers are nested. -/
def takeValue : Nat → List Char → Option (Json × List Char)
  | 0, text => takeValueWith none (skipSpace text)
  | depth + 1, text => takeValueWith (some (takeValue depth)) (skipSpace text)

/-- Reads a text that is one value, with space around it. -/
def read? (depth : Nat) (text : List Char) : Option Json := do
  let (value, rest) ← takeValue depth text
  if (skipSpace rest).isEmpty then some value else none

/-- The depth to which the containers of an input may be nested. -/
def inputDepth : Nat := 127

end Json

end RowFilter
