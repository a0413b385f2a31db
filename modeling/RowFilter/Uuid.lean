import RowFilter.Text.Hexadecimal

namespace RowFilter

structure Uuid where
  value : Nat
  value_lt : value < Nat.pow 2 128
deriving DecidableEq, Repr

namespace Uuid

/-- The digits of the form in five groups of 8, 4, 4, 4 and 12. -/
def groupedDigits? (text : List Char) : Option (List Char) :=
  let hyphens := [8, 13, 18, 23]
  if text.length = 36 ∧ hyphens.all (fun i => text[i]? = some '-') then
    some (text.take 8 ++ (text.drop 9).take 4 ++ (text.drop 14).take 4 ++ (text.drop 19).take 4
      ++ text.drop 24)
  else none

/-- The digits of an identifier: plain, in groups, in groups between braces, or in groups behind
the name of the namespace in any case. -/
def digits? (text : List Char) : Option (List Char) :=
  if text.length = 32 then some text
  else if text.length = 36 then groupedDigits? text
  else if text.length = 38 then
    if text.head? = some '\x7b' ∧ text.getLast? = some '\x7d' then
      groupedDigits? ((text.drop 1).dropLast)
    else none
  else if (text.take 9).map Char.toLower = "urn:uuid:".toList then groupedDigits? (text.drop 9)
  else none

/-- Reads an identifier. -/
def read? (text : List Char) : Option Uuid := do
  let n ← hexNumber? (← digits? text)
  if h : n < Nat.pow 2 128 then some ⟨n, h⟩ else none

/-- The form in groups, in lower case. -/
def text (u : Uuid) : List Char :=
  let digits := Nat.toDigits 16 u.value
  let padded := List.replicate (32 - digits.length) '0' ++ digits
  padded.take 8 ++ '-' :: (padded.drop 8).take 4 ++ '-' :: (padded.drop 12).take 4
    ++ '-' :: (padded.drop 16).take 4 ++ '-' :: padded.drop 20

end Uuid

end RowFilter
