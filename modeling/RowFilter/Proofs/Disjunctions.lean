import Mathlib.Data.Set.List
import RowFilter.Proofs.Exchanged
import RowFilter.Proofs.Opposites

namespace RowFilter.Condition

variable {s : Schema} {row : Row} {name : String} {i : Nat} {f : Field} {l : Literal}
  {ls : List Literal} {ds : List Datum} {k : Condition}

theorem mem_values_iff (hds : ls.map (Datum.ofLiteral? f) = ds.map some) {d : Datum} :
    d ∈ ds ↔ ∃ l ∈ ls, Datum.ofLiteral? f l = some d := by
  rw [← List.mem_map, hds, List.mem_map_of_injective (Option.some_injective Datum)]

theorem exists_values_iff : (∃ ds : List Datum, ls.map (Datum.ofLiteral? f) = ds.map some) ↔
    ∀ l ∈ ls, ∃ d, Datum.ofLiteral? f l = some d := by
  have hrange := Set.ext_iff.mp (Set.range_list_map (some : Datum → Option Datum))
    (ls.map (Datum.ofLiteral? f))
  rw [Set.mem_range, Set.mem_ofPred_eq, List.forall_mem_map] at hrange
  constructor
  · rintro ⟨ds, hds⟩ l hl
    obtain ⟨d, hd⟩ := hrange.mp ⟨ds, hds.symm⟩ l hl
    exact ⟨d, hd.symm⟩
  · intro h
    have hsome : ∀ l ∈ ls, Datum.ofLiteral? f l ∈ Set.range some := by
      intro l hl
      obtain ⟨d, hd⟩ := h l hl
      exact ⟨d, hd.symm⟩
    obtain ⟨ds, hds⟩ := hrange.mpr hsome
    exact ⟨ds, hds.symm⟩

theorem ofExpr_among_property :
    ofExpr s (.binary (.among false) (.property name) (.array ls)) = .ok k ↔
      ∃ i f ds, s.resolve name = some (i, f) ∧ ls.map (Datum.ofLiteral? f) = ds.map some ∧
        k = membership i ds := by
  rw [ofExpr_among_eq_ok]
  constructor
  · rintro ⟨m, hm, rfl⟩
    obtain ⟨_, i, f, _, ds, hname, hlist, hf, hds, rfl⟩ := ofMembership_eq_ok.mp hm
    cases hname
    cases hlist
    exact ⟨i, f, ds, hf, hds, rfl⟩
  · rintro ⟨i, f, ds, hf, hds, rfl⟩
    exact ⟨_, ofMembership_eq_ok.mpr ⟨name, i, f, ls, ds, rfl, rfl, hf, hds, rfl⟩, rfl⟩

theorem ofExpr_equal_property (hf : s.resolve name = some (i, f)) :
    ofExpr s (.binary (.comparison .equal) (.property name) (.literal l)) = .ok k ↔
      ∃ d, Datum.ofLiteral? f l = some d ∧ k = compare .equal (.field i) (.value d) :=
  ofExpr_resolvedLiteral hf (by simp [Comparison.isOrdering])

theorem among_compiles_iff (hne : ls ≠ []) :
    (∃ k, ofExpr s (.binary (.among false) (.property name) (.array ls)) = .ok k) ↔
      ∀ l ∈ ls, ∃ m,
        ofExpr s (.binary (.comparison .equal) (.property name) (.literal l)) = .ok m := by
  constructor
  · rintro ⟨k, hk⟩ l hl
    obtain ⟨i, f, ds, hf, hds, _⟩ := ofExpr_among_property.mp hk
    obtain ⟨d, hd⟩ := exists_values_iff.mp ⟨ds, hds⟩ l hl
    exact ⟨_, (ofExpr_equal_property hf).mpr ⟨d, hd, rfl⟩⟩
  · intro h
    -- The name is that of a field, as the first literal is compared with it.
    obtain ⟨first, hfirst⟩ := List.exists_mem_of_ne_nil ls hne
    obtain ⟨_, hm⟩ := h first hfirst
    obtain ⟨i, f, _, hf, _⟩ := ofExpr_fieldLiteral.mp hm
    have hvalues : ∀ l ∈ ls, ∃ d, Datum.ofLiteral? f l = some d := by
      intro l hl
      obtain ⟨_, hm⟩ := h l hl
      obtain ⟨d, hd, _⟩ := (ofExpr_equal_property hf).mp hm
      exact ⟨d, hd⟩
    obtain ⟨ds, hds⟩ := exists_values_iff.mpr hvalues
    exact ⟨_, ofExpr_among_property.mpr ⟨i, f, ds, hf, hds, rfl⟩⟩

theorem among_holds_iff
    (hk : ofExpr s (.binary (.among false) (.property name) (.array ls)) = .ok k) (row : Row) :
    k.holds row = true ↔ ∃ l ∈ ls, ∃ m,
      ofExpr s (.binary (.comparison .equal) (.property name) (.literal l)) = .ok m ∧
        m.holds row = true := by
  obtain ⟨i, f, ds, hf, hds, rfl⟩ := ofExpr_among_property.mp hk
  have hvalue : ∀ d, (compare .equal (.field i) (.value d)).holds row = d.equals (row i) :=
    fun d => Datum.equals_comm (row i) d
  rw [holds_membership_any, List.any_eq_true]
  constructor
  · rintro ⟨d, hd, hequals⟩
    obtain ⟨l, hl, hd⟩ := (mem_values_iff hds).mp hd
    refine ⟨l, hl, _, (ofExpr_equal_property hf).mpr ⟨d, hd, rfl⟩, ?_⟩
    rw [hvalue, hequals]
  · rintro ⟨l, hl, m, hm, hholds⟩
    obtain ⟨d, hd, rfl⟩ := (ofExpr_equal_property hf).mp hm
    rw [hvalue] at hholds
    exact ⟨d, (mem_values_iff hds).mpr ⟨l, hl, hd⟩, hholds⟩

theorem notAmong_compiles_iff (hne : ls ≠ []) :
    (∃ k, ofExpr s (.binary (.among true) (.property name) (.array ls)) = .ok k) ↔
      ∀ l ∈ ls, ∃ m,
        ofExpr s (.binary (.comparison .notEqual) (.property name) (.literal l)) = .ok m := by
  rw [← (oppositeIn_among _ _).together, among_compiles_iff hne]
  exact forall₂_congr fun l _ => (oppositeIn_equal _ _).together

theorem notAmong_holds_iff
    (hk : ofExpr s (.binary (.among true) (.property name) (.array ls)) = .ok k) (row : Row) :
    k.holds row = true ↔ ∀ l ∈ ls, ∃ m,
      ofExpr s (.binary (.comparison .notEqual) (.property name) (.literal l)) = .ok m ∧
        m.holds row = true := by
  obtain ⟨among, hamong⟩ := (oppositeIn_among _ _).together.mpr ⟨k, hk⟩
  rw [(oppositeIn_among _ _).disagree among k hamong hk, Bool.not_eq_true', ← Bool.not_eq_true,
    among_holds_iff hamong]
  constructor
  · intro hnone l hl
    have hls := List.ne_nil_of_mem hl
    obtain ⟨m, hm⟩ := (among_compiles_iff hls).mp ⟨among, hamong⟩ l hl
    obtain ⟨n, hn⟩ := (oppositeIn_equal _ _).together.mp ⟨m, hm⟩
    refine ⟨n, hn, ?_⟩
    rw [(oppositeIn_equal _ _).disagree m n hm hn, Bool.not_eq_true', ← Bool.not_eq_true]
    intro hholds
    exact hnone ⟨l, hl, m, hm, hholds⟩
  · rintro hall ⟨l, hl, m, hm, hholds⟩
    obtain ⟨n, hn, hdiffers⟩ := hall l hl
    rw [(oppositeIn_equal _ _).disagree m n hm hn, hholds] at hdiffers
    cases hdiffers

/-- Membership is a disjunction of equalities, and its opposite a conjunction of inequalities: one
side has a condition when all of the other side have one, and on every row they agree. -/
theorem membership_eq_disjunction (s : Schema) (name : String) {ls : List Literal}
    (hne : ls ≠ []) :
    let member : Bool → Expr := fun negated =>
      .binary (.among negated) (.property name) (.array ls)
    let compared : Comparison → Literal → Expr := fun c l =>
      .binary (.comparison c) (.property name) (.literal l)
    ((∃ k, ofExpr s (member false) = .ok k) ↔
      ∀ l ∈ ls, ∃ m, ofExpr s (compared .equal l) = .ok m) ∧
    ((∃ k, ofExpr s (member true) = .ok k) ↔
      ∀ l ∈ ls, ∃ m, ofExpr s (compared .notEqual l) = .ok m) ∧
    (∀ k, ofExpr s (member false) = .ok k → ∀ row, k.holds row = true ↔
      ∃ l ∈ ls, ∃ m, ofExpr s (compared .equal l) = .ok m ∧ m.holds row = true) ∧
    ∀ k, ofExpr s (member true) = .ok k → ∀ row, k.holds row = true ↔
      ∀ l ∈ ls, ∃ m, ofExpr s (compared .notEqual l) = .ok m ∧ m.holds row = true :=
  ⟨among_compiles_iff hne, notAmong_compiles_iff hne, fun _ => among_holds_iff,
    fun _ => notAmong_holds_iff⟩

/-- The list with null is that of a price that may be null and matches it. A list with a text is
refused, as the text is no price. -/
theorem membership_eq_disjunction_price :
    let s : Schema := ⟨[⟨"Qty", .integer .u8, false⟩, ⟨"Price", .decimal, true⟩]⟩
    let written : Literal := .number ⟨150, 2, by decide, by decide⟩
    let member : Bool → List Literal → Expr := fun negated ls =>
      .binary (.among negated) (.property "price") (.array ls)
    let priced : Datum → Row := fun price i => if i = 0 then .integer 1 else price
    let same : Datum := .decimal ⟨15, 1, by decide, by decide⟩
    [.null, written] ≠ [] ∧
      (∃ k, ofExpr s (member false [.null, written]) = .ok k ∧ k.holds (priced .null) = true ∧
        k.holds (priced same) = true) ∧
      (∃ k, ofExpr s (member true [.null, written]) = .ok k ∧
        k.holds (priced (.string "1.5")) = true) ∧
      [written, .string "dear"] ≠ [] ∧
      ¬ ∃ k, ofExpr s (member false [written, .string "dear"]) = .ok k := by
  intro s written member priced same
  let compared : Comparison → Literal → Expr := fun c l =>
    .binary (.comparison c) (.property "price") (.literal l)
  let made : Comparison → Datum → Condition := fun c d => compare c (.field 1) (.value d)
  have hnull : ∀ c, ofExpr s (compared c .null) = .ok (made c .null) := by
    intro c
    cases c <;> rfl
  have hwritten : ∀ c, ofExpr s (compared c written)
      = .ok (made c (.decimal ⟨150, 2, by decide, by decide⟩)) := by
    intro c
    cases c <;> rfl
  have heach : ∀ c, ∀ l ∈ [.null, written], ∃ m, ofExpr s (compared c l) = .ok m := by
    intro c l hl
    rcases List.mem_pair.mp hl with rfl | rfl
    · exact ⟨_, hnull c⟩
    · exact ⟨_, hwritten c⟩
  have hls : [.null, written] ≠ [] := List.cons_ne_nil _ _
  have hdear : [written, .string "dear"] ≠ [] := List.cons_ne_nil _ _
  obtain ⟨hmember, hother, hsome, hevery⟩ := membership_eq_disjunction s "price" hls
  obtain ⟨k, hk⟩ := hmember.mpr (heach .equal)
  obtain ⟨n, hn⟩ := hother.mpr (heach .notEqual)
  refine ⟨hls, ⟨k, hk, ?_, ?_⟩, ⟨n, hn, ?_⟩, hdear, ?_⟩
  · exact (hsome k hk _).mpr ⟨.null, by simp, _, hnull .equal, by decide⟩
  · exact (hsome k hk _).mpr ⟨written, by simp, _, hwritten .equal, by decide⟩
  · apply (hevery n hn _).mpr
    intro l hl
    rcases List.mem_pair.mp hl with rfl | rfl
    · exact ⟨_, hnull .notEqual, by decide⟩
    · exact ⟨_, hwritten .notEqual, by decide⟩
  · intro hcompiles
    have hmember := (membership_eq_disjunction s "price" hdear).1.mp hcompiles
    obtain ⟨m, hm⟩ := hmember (.string "dear") (by simp)
    cases hm

end RowFilter.Condition
