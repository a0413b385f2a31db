import RowFilter.Proofs.JsonValues
import RowFilter.Proofs.Reading
import RowFilter.Proofs.Reparsed

namespace RowFilter

variable {s : Schema} {i : Nat} {f : Field} {name : String}

/-- A field of a JSON row is null just when no member of the object, or none that fits the type of
the field, is there for its name. -/
theorem jsonRow_eq_null_iff (hf : s.fields[i]? = some f) (members : List (String × Json)) :
    jsonRow s members i = .null ↔
      ∀ value, Datum.memberFor? members f.name = some value → Datum.ofJson? f.type value = none := by
  simp only [jsonRow, hf]
  cases Datum.memberFor? members f.name with
  | none => simp
  | some value => simp [Datum.ofJson_eq_null_iff]

theorem parseWhere_nullTest (hname : IsName name.toList) :
    parseWhere (name.toList ++ " is null".toList) = .ok (.unary .isNull (.property name)) ∧
      parseWhere (name.toList ++ " is not null".toList)
        = .ok (.unary .isNotNull (.property name)) := by
  have hreads : ∀ op : UnaryOp, ∃ text, (Expr.unary op (.property name)).plainSql = .ok text ∧
      parseWhere text = .ok (.unary op (.property name)) := fun op =>
    Expr.plainSql_reads_back hname ⟨by cases op <;> rfl, trivial⟩ (by simp [Expr.height, maxDepth])
  obtain ⟨_, hisNull, hparse⟩ := hreads .isNull
  obtain ⟨_, hisNotNull, hparseNot⟩ := hreads .isNotNull
  cases hisNull
  cases hisNotNull
  exact ⟨hparse, hparseNot⟩

namespace Condition

theorem ofExpr_isNull (hf : s.resolve name = some (i, f)) :
    ofExpr s (.unary .isNull (.property name)) = .ok (nullTest true i f) :=
  ofExpr_eq_ok.mpr ⟨_, .isNull hf, .condition _⟩

theorem ofExpr_isNotNull (hf : s.resolve name = some (i, f)) :
    ofExpr s (.unary .isNotNull (.property name)) = .ok (nullTest false i f) :=
  ofExpr_eq_ok.mpr ⟨_, .isNotNull hf, .condition _⟩

/-- On JSON rows the null tests of a field that admits null tell whether the row has a null there,
and it has one just when the object has no value of the field's type. A field that admits none is
never null to the tests, whatever the row has. -/
theorem nullTests_jsonRow (hf : s.resolve name = some (i, f)) (members : List (String × Json)) :
    ∃ k m, ofExpr s (.unary .isNull (.property name)) = .ok k ∧
      ofExpr s (.unary .isNotNull (.property name)) = .ok m ∧
      (IsName name.toList →
        parseWhere (name.toList ++ " is null".toList) = .ok (.unary .isNull (.property name)) ∧
        parseWhere (name.toList ++ " is not null".toList)
          = .ok (.unary .isNotNull (.property name))) ∧
      (f.admitsNull = true →
        (k.holds (jsonRow s members) = true ↔ jsonRow s members i = .null) ∧
        (m.holds (jsonRow s members) = true ↔ jsonRow s members i ≠ .null)) ∧
      (f.admitsNull = false →
        k.holds (jsonRow s members) = false ∧ m.holds (jsonRow s members) = true) ∧
      (jsonRow s members i = .null ↔ ∀ value, Datum.memberFor? members f.name = some value →
        Datum.ofJson? f.type value = none) := by
  refine ⟨_, _, ofExpr_isNull hf, ofExpr_isNotNull hf, parseWhere_nullTest, fun hn => ?_,
    fun hn => ?_, jsonRow_eq_null_iff (s.getElem?_of_resolve hf) members⟩
  · rw [holds_nullTest_of_admitsNull hn, holds_nullTest_of_admitsNull hn]
    simp
  · rw [nullTest_of_not_admitsNull hn, nullTest_of_not_admitsNull hn]
    exact ⟨rfl, rfl⟩

/-- A member that is out of range makes a null of a field that may have one. -/
theorem nullTests_jsonRow_quantity :
    let s : Schema := ⟨[⟨"Note", .string, false⟩, ⟨"Qty", .integer .u8, true⟩]⟩
    let members : List (String × Json) := [("Note", .string "x"), ("qty", .number (.integer 256))]
    s.resolve "QTY" = some (1, ⟨"Qty", .integer .u8, true⟩) ∧
      ∃ k m, ofExpr s (.unary .isNull (.property "QTY")) = .ok k ∧
        ofExpr s (.unary .isNotNull (.property "QTY")) = .ok m ∧ IsName "QTY".toList ∧
        parseWhere ("QTY".toList ++ " is null".toList) = .ok (.unary .isNull (.property "QTY")) ∧
        jsonRow s members 1 = .null ∧ k.holds (jsonRow s members) = true ∧
        m.holds (jsonRow s members) = false := by
  intro s members
  have hf : s.resolve "QTY" = some (1, ⟨"Qty", .integer .u8, true⟩) := by rfl
  have hname : IsName "QTY".toList := ⟨by decide, List.all_eq_true.mp rfl, by decide⟩
  have hrow : jsonRow s members 1 = .null := by rfl
  obtain ⟨k, m, hk, hm, hparse, htests, _, _⟩ := nullTests_jsonRow hf members
  obtain ⟨hisNull, hisNotNull⟩ := htests rfl
  refine ⟨hf, k, m, hk, hm, hname, (hparse hname).1, hrow, hisNull.mpr hrow, ?_⟩
  rw [Bool.eq_false_iff, Ne, hisNotNull]
  exact not_not_intro hrow

/-- An object without a member makes a null of a field that admits none, and the test of it says
that there is none. -/
theorem isNull_misses_absent_member :
    let s : Schema := ⟨[⟨"A", .integer .i32, false⟩]⟩
    s.resolve "A" = some (0, ⟨"A", .integer .i32, false⟩) ∧ jsonRow s [] 0 = .null ∧
      ∃ k m, ofExpr s (.unary .isNull (.property "A")) = .ok k ∧
        ofExpr s (.unary .isNotNull (.property "A")) = .ok m ∧
        k.holds (jsonRow s []) = false ∧ m.holds (jsonRow s []) = true := by
  intro s
  have hf : s.resolve "A" = some (0, ⟨"A", .integer .i32, false⟩) := by rfl
  exact ⟨hf, by rfl, _, _, ofExpr_isNull hf, ofExpr_isNotNull hf, by rfl, by rfl⟩

end Condition

end RowFilter
