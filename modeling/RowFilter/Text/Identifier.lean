import RowFilter.Text.Alphabetic
import RowFilter.Text.Numeric
import RowFilter.Text.Recent

namespace RowFilter

/-- Whether a name may begin with this character. -/
def startsName (c : Char) : Bool :=
  isAlphabetic c || c = '_'

/-- Whether a name may go on with this character. -/
def continuesName (c : Char) : Bool :=
  isAlphabetic c || isNumeric c || c = '_'

/-- Whether a plain name may begin with this character. Its letters are those of Unicode 16. -/
def startsPlainName (c : Char) : Bool :=
  isAlphabetic c && !isRecent c || c = '_'

/-- Whether a plain name may go on with this character: decimal digits are admitted, but no other
numbers. -/
def continuesPlainName (c : Char) : Bool :=
  (isAlphabetic c || isDecimalDigit c) && !isRecent c || c = '_'

/-- Whether a text is a plain name: a letter or underscore, then letters, underscores and digits. -/
def isPlainName : List Char → Bool
  | [] => false
  | c :: cs => startsPlainName c && cs.all continuesPlainName

theorem startsName_of_plain {c : Char} (h : startsPlainName c = true) : startsName c = true := by
  simp only [startsPlainName, startsName, Bool.or_eq_true, Bool.and_eq_true] at h ⊢
  exact h.imp And.left id

theorem continuesName_of_plain {c : Char} (h : continuesPlainName c = true) :
    continuesName c = true := by
  simp only [continuesPlainName, continuesName, isNumeric, Bool.or_eq_true,
    Bool.and_eq_true] at h ⊢
  exact h.imp (fun h => h.1.imp id Or.inl) id

end RowFilter
