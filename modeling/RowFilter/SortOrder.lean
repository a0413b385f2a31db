import RowFilter.ParseError
import RowFilter.Text.Blank
import RowFilter.Text.Identifier

namespace RowFilter

inductive Direction
  | ascending
  | descending
deriving DecidableEq, Repr

structure SortTerm where
  property : String
  direction : Direction
deriving DecidableEq, Repr

structure SortOrder where
  terms : List SortTerm
deriving DecidableEq, Repr

namespace SortOrder

/-- The words and commas of a text that starts at `p`, of at most `fuel` characters. -/
def wordsFrom : Nat → Position → List Char → Except LexError (List Token)
  | 0, _, _ => .ok []
  | _ + 1, _, [] => .ok []
  | fuel + 1, p, c :: cs =>
    if isLayout c then wordsFrom fuel (p.next c) cs
    else if c = ',' then do
      return ⟨.mark .comma, [','], p⟩ :: (← wordsFrom fuel (p.next c) cs)
    else if startsName c then do
      let word := c :: cs.takeWhile continuesName
      let tokens ← wordsFrom fuel (p.after word) (cs.dropWhile continuesName)
      return ⟨.identifier, word, p⟩ :: tokens
    else .error (.unexpectedCharacter c p)

/-- The words and commas of a text. -/
def words (text : List Char) : Except LexError (List Token) :=
  wordsFrom text.length .start text

/-- The direction that a word names, in any case. -/
def direction? (t : Token) : Option Direction :=
  if sameIgnoringAsciiCase t.text "asc".toList then some .ascending
  else if sameIgnoringAsciiCase t.text "desc".toList then some .descending
  else none

/-- The direction at the start of the tokens, ascending if there is none. -/
def takeDirection : List Token → Direction × List Token
  | [] => (.ascending, [])
  | t :: rest =>
    match direction? t with
    | some d => (d, rest)
    | none => (.ascending, t :: rest)

/-- Terms with commas between them, at least one and at most `fuel`. -/
def takeTerms : Nat → List Token → Except Stop (List SortTerm)
  | 0, rest => .error ⟨.expected .property, rest, 0⟩
  | _ + 1, [] => .error ⟨.expected .property, [], 0⟩
  | fuel + 1, t :: rest =>
    if t.kind ≠ .identifier ∨ (direction? t).isSome then
      .error ⟨.expected .property, t :: rest, 0⟩
    else
      let (direction, rest) := takeDirection rest
      let term : SortTerm := ⟨.ofList t.text, direction⟩
      match rest with
      | [] => .ok [term]
      | u :: rest =>
        if u.kind = .mark .comma then do return term :: (← takeTerms fuel rest)
        else .error ⟨.expected .commaOrEnd, u :: rest, 0⟩

/-- Reads a sort order. -/
def parse (text : List Char) : Except ParseError SortOrder :=
  match words text with
  | .error e => .error (.lexical e)
  | .ok [] => .ok ⟨[]⟩
  | .ok tokens =>
    match takeTerms (tokens.length + 1) tokens with
    | .ok terms => .ok ⟨terms⟩
    | .error stop => .error (stop.toError text tokens)

/-- The SQL of terms, with the columns that `column` gives to properties. -/
def termsToSql {m : Type → Type} [Monad m] (column : String → m (List Char)) :
    List SortTerm → m (List (List Char))
  | [] => pure []
  | t :: rest => do
    let name ← column t.property
    let text := match t.direction with
      | .ascending => name
      | .descending => name ++ " desc".toList
    return text :: (← termsToSql column rest)

/-- The SQL of a sort order. Only descending terms name their direction. -/
def toSql {m : Type → Type} [Monad m] (column : String → m (List Char)) (order : SortOrder) :
    m (List Char) := do
  return [',', ' '].intercalate (← termsToSql column order.terms)

end SortOrder

end RowFilter
