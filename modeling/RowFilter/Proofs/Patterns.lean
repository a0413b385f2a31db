import Mathlib.Data.List.Infix
import RowFilter.Condition.Pattern

namespace RowFilter.Pattern

/-- Whether a text is what a pattern describes. -/
def describes (pattern text : List Char) : Bool :=
  if pattern.head? = some '%' then
    if pattern.getLast? = some '%' then pattern.tail.dropLast <:+: text
    else pattern.tail <:+ text
  else if pattern.getLast? = some '%' then pattern.dropLast <+: text
  else text = pattern

theorem occursIn_iff_infix {word text : List Char} :
    occursIn word text = true ↔ word <:+: text := by
  induction text with
  | nil => simp [occursIn]
  | cons c cs ih =>
    simp only [occursIn, Bool.or_eq_true, List.isPrefixOf_iff_prefix, ih, List.infix_cons_iff]

/-- The test made of a pattern asks for what the pattern describes. -/
theorem matchesText_of_ofText? {pattern : List Char} {p : Pattern} (h : ofText? pattern = some p)
    (text : List Char) : p.matchesText text = describes pattern text := by
  unfold ofText? at h
  rw [Bool.eq_iff_iff]
  split at h
  next => simp at h
  next =>
    split at h
    next hs =>
      split at h
      next he => cases h; simp [describes, matchesText, hs, he, occursIn_iff_infix]
      next he => cases h; simp [describes, matchesText, hs, he, List.isSuffixOf_iff_suffix]
    next hs =>
      split at h
      next he => cases h; simp [describes, matchesText, hs, he, List.isPrefixOf_iff_prefix]
      next he => cases h; simp [describes, matchesText, hs, he]

theorem ofText?_eq_none {pattern : List Char} : ofText? pattern = none ↔ pattern = ['%'] := by
  unfold ofText?
  split
  next h => simp [h]
  next h =>
    simp only [h, iff_false]
    split
    · split <;> simp
    · split <;> simp

end RowFilter.Pattern
