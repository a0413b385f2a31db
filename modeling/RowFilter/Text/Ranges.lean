namespace RowFilter

/-- Whether a code point lies in one of the ranges, which ascend: the first range that starts
behind it ends the search. -/
def covers : List (Nat × Nat) → Nat → Bool
  | [], _ => false
  | (low, high) :: rest, n => if n < low then false else n ≤ high || covers rest n

end RowFilter
