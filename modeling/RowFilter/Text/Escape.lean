import RowFilter.Text.Quoted

namespace RowFilter

/-- The content of a string literal for a text. -/
def escapeString (text : List Char) : List Char :=
  Quoted.double '\'' text

/-- The content of a pattern for a text, in which percent signs and underscores are doubled too. -/
def escapePattern (text : List Char) : List Char :=
  Quoted.double '_' (Quoted.double '%' (escapeString text))

end RowFilter
