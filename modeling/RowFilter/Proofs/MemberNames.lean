import Mathlib.Data.List.Forall2
import Mathlib.Data.List.Nodup
import RowFilter.Proofs.JsonRows
import RowFilter.Proofs.Names

namespace RowFilter

namespace Json

/-- Two values of which one has its objects' member names spelled in another case. The members then
stand in another order. -/
inductive Respelled : Json → Json → Prop
  | refl (value : Json) : Respelled value value
  | array {xs ys : List Json} : List.Forall₂ Respelled xs ys → Respelled (.array xs) (.array ys)
  | object {ms ns os : List (String × Json)} :
      List.Forall₂ (fun a b => sameIgnoringCase a b = true) (ms.map (·.1)) (ns.map (·.1)) →
      List.Forall₂ Respelled (ms.map (·.2)) (ns.map (·.2)) → ns.Perm os →
      Respelled (.object ms) (.object os)

/-- Whether no two members have the same name in any case. -/
def DistinctNames (members : List (String × Json)) : Prop :=
  members.Pairwise fun m n => sameIgnoringCase m.1 n.1 = false

/-- The names of the members without their case. -/
def foldedNames (members : List (String × Json)) : List (List Char) :=
  members.map fun m => foldCase m.1

/-- A member and what it is respelled to. -/
def RespelledMember (m n : String × Json) : Prop :=
  sameIgnoringCase m.1 n.1 = true ∧ m.2.Respelled n.2

variable {ms ns : List (String × Json)} {m n : String × Json}

theorem distinctNames_iff : DistinctNames ms ↔ (foldedNames ms).Nodup := by
  simp [DistinctNames, foldedNames, List.Nodup, List.pairwise_map, sameIgnoringCase]

theorem eq_of_sameName (h : DistinctNames ms) (hm : m ∈ ms) (hn : n ∈ ms)
    (hsame : sameIgnoringCase m.1 n.1 = true) : m = n :=
  List.inj_on_of_nodup_map (distinctNames_iff.mp h) hm hn (of_decide_eq_true hsame)

theorem respelledMembers
    (hnames : List.Forall₂ (fun a b => sameIgnoringCase a b = true) (ms.map (·.1)) (ns.map (·.1)))
    (hvalues : List.Forall₂ Respelled (ms.map (·.2)) (ns.map (·.2))) :
    List.Forall₂ RespelledMember ms ns := by
  rw [List.forall₂_map_left_iff, List.forall₂_map_right_iff] at hnames hvalues
  induction hnames with
  | nil => exact .nil
  | cons hname _ ih =>
    cases hvalues with
    | cons hvalue hvalues => exact .cons ⟨hname, hvalue⟩ (ih hvalues)

theorem foldedNames_respelled (h : List.Forall₂ RespelledMember ms ns) :
    foldedNames ms = foldedNames ns := by
  induction h with
  | nil => rfl
  | cons hm _ ih => exact congrArg₂ (· :: ·) (of_decide_eq_true hm.1) ih

theorem exists_respelled (h : List.Forall₂ RespelledMember ms ns) (hm : m ∈ ms) :
    ∃ n ∈ ns, RespelledMember m n := by
  induction h with
  | nil => cases hm
  | @cons first first' _ _ hfirst _ ih =>
    rcases List.mem_cons.mp hm with rfl | hm
    · exact ⟨first', List.mem_cons_self, hfirst⟩
    · obtain ⟨n, hn, hrespelled⟩ := ih hm
      exact ⟨n, List.mem_cons_of_mem _ hn, hrespelled⟩

end Json

namespace Datum

open Json (DistinctNames Respelled foldedNames)

variable {ms ns : List (String × Json)} {name : String} {value other : Json} {type : FieldType}

theorem memberFor?_eq_none : memberFor? ms name = none ↔ foldCase name ∉ foldedNames ms := by
  have hexact : (∀ m ∈ ms, foldCase m.1 ≠ foldCase name) → ∀ m ∈ ms, m.1 ≠ name :=
    fun h m hm hname => h m hm (congrArg foldCase hname)
  simpa [memberFor?, Json.member?, foldedNames, sameIgnoringCase] using hexact

/-- Where names are distinct, a field has the member with the letters of its name. -/
theorem memberFor?_eq_some (h : DistinctNames ms) :
    memberFor? ms name = some value ↔
      ∃ key, (key, value) ∈ ms ∧ sameIgnoringCase key name = true := by
  refine ⟨mem_of_memberFor?, fun ⟨key, hkey, hsame⟩ => ?_⟩
  cases hfound : memberFor? ms name with
  | none =>
    have hfolded := List.mem_map_of_mem (f := fun m : String × Json => foldCase m.1) hkey
    rw [of_decide_eq_true hsame] at hfolded
    exact absurd hfolded (memberFor?_eq_none.mp hfound)
  | some other =>
    obtain ⟨key', hkey', hsame'⟩ := mem_of_memberFor? hfound
    have hkeys : sameIgnoringCase key' key = true := by
      rw [sameIgnoringCase_congr hsame' hsame]
      simp [sameIgnoringCase]
    rw [(Prod.mk.inj (Json.eq_of_sameName h hkey' hkey hkeys)).2]

theorem memberFor?_respelled (h : DistinctNames ms)
    (hrespelled : Respelled (.object ms) (.object ns)) (name : String) :
    Option.Rel Respelled (memberFor? ms name) (memberFor? ns name) := by
  cases hrespelled with
  | refl => cases memberFor? ms name with
    | none => exact .none
    | some value => exact .some (.refl value)
  | object hnames hvalues hperm =>
    have hmembers := Json.respelledMembers hnames hvalues
    have hfolded : (foldedNames ms).Perm (foldedNames ns) :=
      Json.foldedNames_respelled hmembers ▸ hperm.map _
    cases hfound : memberFor? ms name with
    | none =>
      rw [memberFor?_eq_none, hfolded.mem_iff, ← memberFor?_eq_none] at hfound
      rw [hfound]
      exact .none
    | some value =>
      obtain ⟨key, hkey, hsame⟩ := mem_of_memberFor? hfound
      obtain ⟨⟨key', other⟩, hother, hkeys, hvalue⟩ := Json.exists_respelled hmembers hkey
      have hname : sameIgnoringCase key' name = true := by
        rw [← hsame]
        exact (sameIgnoringCase_congr hkeys (by simp [sameIgnoringCase])).symm
      have hdistinct : DistinctNames ns :=
        Json.distinctNames_iff.mpr (hfolded.nodup_iff.mp (Json.distinctNames_iff.mp h))
      rw [(memberFor?_eq_some hdistinct).mpr ⟨key', hperm.mem_iff.mp hother, hname⟩]
      exact .some hvalue

/-- Arrays and objects are values of no type, so what is in them does not matter. -/
theorem ofJson?_respelled (h : value.Respelled other) :
    ofJson? type value = ofJson? type other := by
  cases h <;> rfl

end Datum

/-- Where no two members have the same name in any case, the case of the names does not matter. The
row is the same one, so conditions hold of it alike. -/
theorem jsonRow_respelled (s : Schema) {ms ns : List (String × Json)} (h : Json.DistinctNames ms)
    (hrespelled : Json.Respelled (.object ms) (.object ns)) :
    (∀ i, jsonRow s ms i = jsonRow s ns i) ∧
      ∀ e k, Condition.ofExpr s e = .ok k → k.holds (jsonRow s ms) = k.holds (jsonRow s ns) := by
  have hrow : jsonRow s ms = jsonRow s ns := by
    funext i
    unfold jsonRow
    cases s.fields[i]? with
    | none => rfl
    | some f =>
      have hmember := Datum.memberFor?_respelled h hrespelled f.name
      dsimp only
      revert hmember
      generalize Datum.memberFor? ms f.name = found
      generalize Datum.memberFor? ns f.name = other
      intro hmember
      cases hmember with
      | none => rfl
      | some hvalue => exact congrArg (·.getD .null) (Datum.ofJson?_respelled hvalue)
  exact ⟨congrFun hrow, fun e k _ => congrArg k.holds hrow⟩

/-- The respelled members change places: one of them is now found by its name, and the other one by
its letters only. -/
theorem jsonRow_respelled_stock :
    let s : Schema := ⟨[⟨"qty", .integer .u8, false⟩, ⟨"note", .string, false⟩]⟩
    let ms : List (String × Json) := [("Qty", .number (.integer 7)), ("note", .string "new")]
    let ns : List (String × Json) := [("NOTE", .string "new"), ("qty", .number (.integer 7))]
    let e : Expr := .binary (.comparison .equal) (.property "note") (.literal (.string "new"))
    let k : Condition := .compare .equal (.field 1) (.value (.string "new"))
    Json.DistinctNames ms ∧ Json.Respelled (.object ms) (.object ns) ∧
      Condition.ofExpr s e = .ok k ∧ jsonRow s ms 0 = .integer 7 ∧ jsonRow s ns 0 = .integer 7 ∧
      k.holds (jsonRow s ms) = true ∧ k.holds (jsonRow s ns) = true := by
  intro s ms ns e k
  have hdistinct : Json.DistinctNames ms := by
    refine .cons (List.forall_mem_singleton.mpr ?_) (.cons (List.forall_mem_nil _) .nil)
    decide
  have hrespelled : Json.Respelled (.object ms) (.object ns) := by
    have hmoved : List.Perm [("qty", Json.number (.integer 7)), ("NOTE", .string "new")] ns :=
      .swap _ _ []
    refine .object ?_ ?_ hmoved
    · exact .cons (by decide) (.cons (by decide) .nil)
    · exact .cons (.refl _) (.cons (.refl _) .nil)
  obtain ⟨hrow, hholds⟩ := jsonRow_respelled s hdistinct hrespelled
  have hk : Condition.ofExpr s e = .ok k := by rfl
  have hqty : jsonRow s ms 0 = .integer 7 := by rfl
  have hnote : k.holds (jsonRow s ms) = true := by rfl
  exact ⟨hdistinct, hrespelled, hk, hqty, hrow 0 ▸ hqty, hnote, hholds e k hk ▸ hnote⟩

end RowFilter
