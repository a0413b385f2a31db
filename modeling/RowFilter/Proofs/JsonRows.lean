import RowFilter.Proofs.Coerced
import RowFilter.Proofs.JsonValues

namespace RowFilter

/-- The same fields, each of which may be null. -/
def Schema.lenient (s : Schema) : Schema :=
  ⟨s.fields.map fun f => { f with nullable := true }⟩

/-- Two values of which one is null, or which have an order. -/
def Datum.Ordered (a b : Datum) : Prop :=
  a = .null ∨ b = .null ∨ a.order? b ≠ none

/-- Whether the members of an object that are numbers are finite ones. -/
def FiniteMembers (members : List (String × Json)) : Prop :=
  ∀ name n, (name, Json.number n) ∈ members → n.isFinite = true

theorem Datum.Meets.ordered {a b : Datum} (h : a.Meets b) (ha : a.isNaN = false)
    (hb : b.isNaN = false) : a.Ordered b := by
  rcases h with hnull | hnull | ⟨_, hnan⟩
  · exact .inl hnull
  · exact .inr (.inl hnull)
  · refine .inr (.inr fun hnone => ?_)
    simpa [ha, hb] using hnan hnone

theorem Schema.typeAt?_lenient (s : Schema) (i : Nat) : s.lenient.typeAt? i = s.typeAt? i := by
  simp [typeAt?, lenient, Function.comp_def]

section Rows

variable {s : Schema} {members : List (String × Json)} {i : Nat}

theorem mem_of_memberFor? {name : String} {value : Json}
    (h : Datum.memberFor? members name = some value) :
    ∃ key, (key, value) ∈ members ∧ sameIgnoringCase key name = true := by
  rcases Option.or_eq_some_iff.mp h with h | ⟨_, h⟩
  · obtain ⟨⟨key, _⟩, hfind, rfl⟩ := Option.map_eq_some_iff.mp h
    obtain rfl : key = name := by simpa using List.find?_some hfind
    exact ⟨key, List.mem_of_find?_eq_some hfind, by simp [sameIgnoringCase]⟩
  · obtain ⟨⟨key, _⟩, hfind, rfl⟩ := Option.map_eq_some_iff.mp h
    have hsame : sameIgnoringCase key name = true := by simpa using List.find?_some hfind
    exact ⟨key, List.mem_of_find?_eq_some hfind, hsame⟩

/-- A field of a JSON row has what is read for its type from a member of the object, or else it is
null. -/
theorem jsonRow_cases (s : Schema) (members : List (String × Json)) (i : Nat) :
    jsonRow s members i = .null ∨ ∃ f key value, s.fields[i]? = some f ∧ (key, value) ∈ members ∧
      Datum.ofJson? f.type value = some (jsonRow s members i) := by
  unfold jsonRow
  split
  next => exact .inl rfl
  next f hf =>
    split
    next => exact .inl rfl
    next value hvalue =>
      obtain ⟨key, hkey, _⟩ := mem_of_memberFor? hvalue
      unfold Datum.ofJson
      cases hread : Datum.ofJson? f.type value with
      | none => exact .inl rfl
      | some d => exact .inr ⟨f, key, value, hf, hkey, hread⟩

theorem inhabits_jsonRow (s : Schema) (members : List (String × Json)) (i : Nat) :
    jsonRow s members i = .null ∨
      ∃ f, s.fields[i]? = some f ∧ (jsonRow s members i).inhabits f.type = true := by
  rcases jsonRow_cases s members i with hnull | ⟨f, _, _, hf, _, hread⟩
  · exact .inl hnull
  · exact .inr ⟨f, hf, Datum.inhabits_ofJson? hread⟩

theorem isNaN_jsonRow (h : FiniteMembers members) : (jsonRow s members i).isNaN = false := by
  rcases jsonRow_cases s members i with hnull | ⟨_, key, _, _, hmem, hread⟩
  · rw [hnull]
    rfl
  · refine Datum.isNaN_ofJson? (fun n hn => ?_) hread
    subst hn
    exact h key n hmem

/-- Where every field may be null, a JSON row conforms to the schema. -/
theorem admits_jsonRow (s : Schema) (members : List (String × Json)) :
    s.lenient.Admits (jsonRow s members) := by
  intro i f hf
  obtain ⟨g, hg, rfl⟩ : ∃ g, s.fields[i]? = some g ∧ { g with nullable := true } = f := by
    simpa [Schema.lenient] using hf
  rcases inhabits_jsonRow s members i with hnull | ⟨g', hg', hinhabits⟩
  · rw [hnull]
    rfl
  · rw [hg] at hg'
    obtain rfl := Option.some.inj hg'
    exact Field.admits_of_isOf (Datum.isOf_of_inhabits hinhabits)

end Rows

namespace Condition

variable {s : Schema} {members : List (String × Json)} {e : Expr} {k n : Condition}

theorem isNaN_valueIn {row : Row} {o : Operand} (hrow : ∀ i, (row i).isNaN = false)
    (h : ∀ d ∈ o.ownValues, d.isNaN = false) : (o.valueIn row).isNaN = false := by
  cases o with
  | field i => exact hrow i
  | value d => exact h d (List.mem_singleton.mpr rfl)
  | test c => rfl

/-- A compiled condition is well typed also where every field may be null. -/
theorem fitsIn_lenient (h : ofExpr s e = .ok k) (hn : n ∈ k.parts) : n.FitsIn s.lenient := by
  obtain ⟨r, hr, hk⟩ := ofExpr_eq_ok.mp h
  exact typed_of_usable (typed_of_stated_alike s.typeAt?_lenient hr) hk n hn

/-- The values in a compiled condition are numbers wherever they are of a kind of numbers. -/
theorem isNaN_ownValues (h : ofExpr s e = .ok k) (hn : n ∈ k.parts) :
    ∀ d ∈ n.ownValues, d.isNaN = false := by
  intro d hd
  obtain ⟨r, hr, hk⟩ := ofExpr_eq_ok.mp h
  have hvalue : d ∈ r.values := values_of_usable hk ▸ List.mem_flatMap.mpr ⟨n, hn, hd⟩
  obtain ⟨_, _, hread⟩ := isCoerced_of_stated hr d hvalue
  exact Datum.isNaN_ofLiteral? hread

/-- Any JSON object is a row of typed values. Each field is null or a value of its type, and in no
part of a compiled condition do two values meet that have no order, unless one of them is null. -/
theorem ordered_in_jsonRow (s : Schema) (members : List (String × Json)) :
    (∀ i, jsonRow s members i = .null ∨
      ∃ f, s.fields[i]? = some f ∧ (jsonRow s members i).inhabits f.type = true) ∧
    (FiniteMembers members → ∀ e k, ofExpr s e = .ok k → ∀ n ∈ k.parts,
      (∀ c l r, n = compare c l r →
        (l.valueIn (jsonRow s members)).Ordered (r.valueIn (jsonRow s members))) ∧
      ∀ i values, n = among i values → ∀ v ∈ values, v.Ordered (jsonRow s members i)) := by
  refine ⟨inhabits_jsonRow s members, fun hfinite e k hk n hn => ?_⟩
  have hfits := fitsIn_lenient hk hn
  have hvalues := isNaN_ownValues hk hn
  have hrow := admits_jsonRow s members
  have hnumber : ∀ i, (jsonRow s members i).isNaN = false := fun i => isNaN_jsonRow hfinite
  constructor
  · rintro c l r rfl
    obtain ⟨hl, hr⟩ := List.forall_mem_append.mp hvalues
    exact (hfits.2 _ hrow).ordered (isNaN_valueIn hnumber hl) (isNaN_valueIn hnumber hr)
  · rintro i values rfl v hv
    exact (hfits.2 _ hrow v hv).ordered (hvalues v hv) (hnumber i)

/-- A stock that is out of range is null, and a quantity is compared with a ratio of one half. -/
theorem ordered_in_jsonRow_ratio :
    let s : Schema := ⟨[⟨"Qty", .integer .u8, false⟩, ⟨"Ratio", .float32, false⟩,
      ⟨"Stock", .integer .u8, false⟩]⟩
    let members : List (String × Json) := [
      ("Ratio", .number (.real ⟨false, 4602678819172646912, by decide⟩)),
      ("Stock", .number (.integer 256)), ("qty", .number (.integer 7))]
    let e : Expr := .binary (.connective .or)
      (.binary (.comparison .less) (.property "Qty") (.property "ratio"))
      (.binary (.among false) (.property "stock") (.array [.number .one]))
    let k : Condition := .or (.compare .less (.field 0) (.field 1)) (.among 2 [.integer 1])
    let row := jsonRow s members
    ofExpr s e = .ok k ∧ FiniteMembers members ∧ row 0 = .integer 7 ∧ row 2 = .null ∧
      (row 0).Ordered (row 1) ∧ (Datum.integer 1).Ordered (row 2) := by
  intro s members e k row
  have hk : ofExpr s e = .ok k := by rfl
  have hfinite : FiniteMembers members := by
    intro name n hn
    simp only [members, List.mem_cons, Prod.mk.injEq, Json.number.injEq, List.not_mem_nil,
      or_false] at hn
    rcases hn with ⟨_, rfl⟩ | ⟨_, rfl⟩ | ⟨_, rfl⟩ <;> decide
  obtain ⟨_, hordered⟩ := ordered_in_jsonRow s members
  have hparts := hordered hfinite e k hk
  have hless := (hparts (.compare .less (.field 0) (.field 1)) (by simp [k, parts])).1
  have hamong := (hparts (.among 2 [.integer 1]) (by simp [k, parts])).2
  exact ⟨hk, hfinite, by rfl, by rfl, hless _ _ _ rfl, hamong _ _ rfl _ (by simp)⟩

end Condition

end RowFilter
