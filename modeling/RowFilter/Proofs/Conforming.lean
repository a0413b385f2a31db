import RowFilter.Datum
import RowFilter.Schema

namespace RowFilter

/-- Whether a value is of the kind that the values of a type have. -/
def Datum.isOf : Datum → FieldType → Bool
  | .boolean _, .boolean => true
  | .integer _, .integer _ => true
  | .float _, .float32 => true
  | .float _, .float64 => true
  | .decimal _, .decimal => true
  | .string _, .string => true
  | .date _, .date => true
  | .time _, .time => true
  | .datetime _, .datetime => true
  | .uuid _, .uuid => true
  | .ordinal _, .enumeration _ => true
  | _, _ => false

/-- Whether a field may have this value. -/
def Field.admits (f : Field) : Datum → Bool
  | .null => f.admitsNull
  | d => d.isOf f.type

/-- Whether every field of a schema has in a row a value that it may have. -/
def Schema.Admits (s : Schema) (row : Row) : Prop :=
  ∀ (i : Nat) (f : Field), s.fields[i]? = some f → f.admits (row i) = true

theorem Field.ne_null_of_admits {f : Field} {d : Datum} (h : f.admits d = true)
    (hn : f.admitsNull = false) : d ≠ .null := by
  rintro rfl
  simp [admits, hn] at h

namespace Schema

theorem getElem?_of_resolveFrom {name : String} {fields : List Field} {index i : Nat} {f : Field}
    (h : resolveFrom name index fields = some (i, f)) :
    index ≤ i ∧ fields[i - index]? = some f := by
  induction fields generalizing index with
  | nil => simp [resolveFrom] at h
  | cons g rest ih =>
    unfold resolveFrom at h
    split at h
    next =>
      obtain ⟨rfl, rfl⟩ := Prod.mk.inj (Option.some.inj h)
      simp
    next =>
      obtain ⟨hle, hget⟩ := ih h
      have hsub : i - index = i - (index + 1) + 1 := by omega
      exact ⟨by omega, by simpa [hsub] using hget⟩

/-- A name is resolved to the field at its index. -/
theorem getElem?_of_resolve {s : Schema} {name : String} {i : Nat} {f : Field}
    (h : s.resolve name = some (i, f)) : s.fields[i]? = some f :=
  (getElem?_of_resolveFrom h).2

theorem Admits.resolved {s : Schema} {row : Row} {name : String} {i : Nat} {f : Field}
    (hrow : s.Admits row) (h : s.resolve name = some (i, f)) : f.admits (row i) = true :=
  hrow i f (getElem?_of_resolve h)

end Schema

end RowFilter
