namespace RowFilter

/-- What a pattern asks of a text. -/
inductive Pattern
  | equals (text : List Char)
  | startsWith (text : List Char)
  | endsWith (text : List Char)
  | contains (text : List Char)
deriving DecidableEq, Repr

namespace Pattern

/-- The test that a pattern stands for. A lone percent sign asks nothing. -/
def ofText? (text : List Char) : Option Pattern :=
  if text = ['%'] then none
  else if text.head? = some '%' then
    if text.getLast? = some '%' then some (contains text.tail.dropLast)
    else some (endsWith text.tail)
  else if text.getLast? = some '%' then some (startsWith text.dropLast)
  else some (equals text)

/-- Whether a word occurs in a text. -/
def occursIn (word : List Char) : List Char → Bool
  | [] => word.isEmpty
  | c :: cs => word.isPrefixOf (c :: cs) || occursIn word cs

/-- Whether a text passes the test. -/
def matchesText (p : Pattern) (text : List Char) : Bool :=
  match p with
  | equals word => text = word
  | startsWith word => word.isPrefixOf text
  | endsWith word => word.isSuffixOf text
  | contains word => occursIn word text

end Pattern

end RowFilter
