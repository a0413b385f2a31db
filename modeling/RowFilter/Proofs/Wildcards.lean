import RowFilter.Proofs.Reading

namespace RowFilter

namespace Pattern

inductive Place
  /-- Any text may stand here, also none. -/
  | any
  | one (c : Char)
deriving DecidableEq, Repr

/-- The places of a pattern, where a percent sign is a wildcard in the first or the last one. -/
def places (pattern : List Char) : List Place :=
  pattern.mapIdx fun i c => if c = '%' ∧ (i = 0 ∨ i + 1 = pattern.length) then .any else .one c

/-- Whether a text passes a test when none or some of its first characters are left out. -/
def someRest (test : List Char → Bool) : List Char → Bool
  | [] => test []
  | c :: cs => test (c :: cs) || someRest test cs

/-- Whether a text fits places. For any text nothing is tried first, and then one more character
each time. -/
def fits : List Place → List Char → Bool
  | [], text => text.isEmpty
  | .any :: rest, text => someRest (fits rest) text
  | .one _ :: _, [] => false
  | .one c :: rest, d :: text => c = d && fits rest text

variable {c : Char} {ps qs : List Place} {pattern text word : List Char}

theorem someRest_iff {test : List Char → Bool} :
    someRest test text = true ↔ ∃ skipped rest, text = skipped ++ rest ∧ test rest = true := by
  induction text with
  | nil => simp [someRest]
  | cons c cs ih =>
    rw [someRest, Bool.or_eq_true, ih]
    constructor
    · rintro (htest | ⟨skipped, rest, rfl, htest⟩)
      · exact ⟨[], c :: cs, rfl, htest⟩
      · exact ⟨c :: skipped, rest, rfl, htest⟩
    · rintro ⟨skipped, rest, heq, htest⟩
      cases skipped with
      | nil =>
        left
        rw [heq]
        exact htest
      | cons d skipped =>
        obtain ⟨rfl, rfl⟩ := List.cons.inj heq
        exact .inr ⟨skipped, rest, rfl, htest⟩

theorem fits_any : fits (.any :: ps) text = true ↔
    ∃ skipped rest, text = skipped ++ rest ∧ fits ps rest = true :=
  someRest_iff

theorem fits_one : fits (.one c :: ps) text = true ↔
    ∃ rest, text = c :: rest ∧ fits ps rest = true := by
  cases text with
  | nil => simp [fits]
  | cons d text =>
    simp only [fits, Bool.and_eq_true, decide_eq_true_iff, List.cons.injEq]
    constructor
    · rintro ⟨rfl, hrest⟩
      exact ⟨text, ⟨rfl, rfl⟩, hrest⟩
    · rintro ⟨rest, ⟨rfl, rfl⟩, hrest⟩
      exact ⟨rfl, hrest⟩

/-- A text fits two lists of places one behind the other when it can be split between them. -/
theorem fits_append : fits (ps ++ qs) text = true ↔
    ∃ front rest, text = front ++ rest ∧ fits ps front = true ∧ fits qs rest = true := by
  induction ps generalizing text with
  | nil => simp [fits]
  | cons p ps ih =>
    cases p with
    | any =>
      rw [List.cons_append, fits_any]
      constructor
      · rintro ⟨skipped, rest, rfl, hrest⟩
        obtain ⟨front, last, rfl, hfront, hlast⟩ := ih.mp hrest
        have hskipped := fits_any.mpr ⟨skipped, front, rfl, hfront⟩
        exact ⟨skipped ++ front, last, (List.append_assoc ..).symm, hskipped, hlast⟩
      · rintro ⟨front, last, rfl, hfront, hlast⟩
        obtain ⟨skipped, rest, rfl, hrest⟩ := fits_any.mp hfront
        exact ⟨skipped, rest ++ last, List.append_assoc .., ih.mpr ⟨rest, last, rfl, hrest, hlast⟩⟩
    | one c =>
      rw [List.cons_append, fits_one]
      constructor
      · rintro ⟨rest, rfl, hrest⟩
        obtain ⟨front, last, rfl, hfront, hlast⟩ := ih.mp hrest
        exact ⟨c :: front, last, rfl, fits_one.mpr ⟨front, rfl, hfront⟩, hlast⟩
      · rintro ⟨front, last, rfl, hfront, hlast⟩
        obtain ⟨rest, rfl, hrest⟩ := fits_one.mp hfront
        exact ⟨rest ++ last, rfl, ih.mpr ⟨rest, last, rfl, hrest, hlast⟩⟩

theorem fits_anything (text : List Char) : fits [.any] text = true :=
  fits_any.mpr ⟨text, [], (List.append_nil text).symm, rfl⟩

theorem fits_word : fits (word.map .one) text = true ↔ text = word := by
  induction word generalizing text with
  | nil => simp [fits]
  | cons c word ih =>
    rw [List.map_cons, fits_one]
    constructor
    · rintro ⟨rest, rfl, hrest⟩
      rw [ih.mp hrest]
    · rintro rfl
      exact ⟨word, rfl, ih.mpr rfl⟩

theorem fits_end : fits (.any :: word.map .one) text = true ↔ word <:+ text := by
  rw [fits_any]
  constructor
  · rintro ⟨skipped, rest, rfl, hrest⟩
    rw [fits_word.mp hrest]
    exact ⟨skipped, rfl⟩
  · rintro ⟨skipped, rfl⟩
    exact ⟨skipped, word, rfl, fits_word.mpr rfl⟩

theorem fits_start : fits (word.map .one ++ [.any]) text = true ↔ word <+: text := by
  rw [fits_append]
  constructor
  · rintro ⟨front, rest, rfl, hfront, _⟩
    rw [fits_word.mp hfront]
    exact ⟨rest, rfl⟩
  · rintro ⟨rest, rfl⟩
    exact ⟨word, rest, rfl, fits_word.mpr rfl, fits_anything rest⟩

theorem fits_middle : fits (.any :: (word.map .one ++ [.any])) text = true ↔ word <:+: text := by
  rw [fits_any]
  constructor
  · rintro ⟨skipped, rest, rfl, hrest⟩
    obtain ⟨last, rfl⟩ := fits_start.mp hrest
    exact ⟨skipped, last, List.append_assoc ..⟩
  · rintro ⟨skipped, last, rfl⟩
    exact ⟨skipped, word ++ last, List.append_assoc .., fits_start.mpr ⟨last, rfl⟩⟩

/-- What a character is at one of the two ends. -/
def endPlace (c : Char) : Place :=
  if c = '%' then .any else .one c

theorem places_single (c : Char) : places [c] = [endPlace c] := by
  simp [places, endPlace]

theorem places_ends (c d : Char) (middle : List Char) :
    places (c :: (middle ++ [d])) = endPlace c :: (middle.map .one ++ [endPlace d]) := by
  have hmiddle : middle.mapIdx (fun i x =>
      if x = '%' ∧ (i + 1 = 0 ∨ i + 1 + 1 = middle.length + 1 + 1) then Place.any else .one x)
      = middle.map .one := by
    apply List.ext_getElem
    · simp
    · intro i hi _
      rw [List.length_mapIdx] at hi
      have hinner : ¬ (i + 1 = 0 ∨ i + 1 + 1 = middle.length + 1 + 1) := by omega
      rw [List.getElem_mapIdx, List.getElem_map, if_neg fun h => hinner h.2]
  simp only [places, List.mapIdx_cons, List.mapIdx_append, List.length_cons, List.length_append,
    List.length_nil, hmiddle]
  simp [endPlace]

theorem describes_ends (c d : Char) (middle : List Char) :
    describes (c :: (middle ++ [d])) text =
      if c = '%' then
        if d = '%' then decide (middle <:+: text) else decide (middle ++ [d] <:+ text)
      else if d = '%' then decide (c :: middle <+: text)
      else decide (text = c :: (middle ++ [d])) := by
  have hlast : (c :: (middle ++ [d])).getLast? = some d := by
    rw [← List.cons_append, List.getLast?_append]
    rfl
  have hinit : (c :: (middle ++ [d])).dropLast = c :: middle := by
    rw [← List.cons_append, List.dropLast_concat]
  rw [describes, hlast, hinit, List.tail_cons, List.dropLast_concat, List.head?_cons]
  simp only [Option.some.injEq]

/-- The texts that fit the places of a pattern are those that the pattern describes. -/
theorem fits_places (pattern text : List Char) :
    fits (places pattern) text = describes pattern text := by
  rw [Bool.eq_iff_iff]
  cases pattern with
  | nil => simp [places, fits, describes]
  | cons c rest =>
    rcases rest.eq_nil_or_concat with rfl | ⟨middle, d, rfl⟩
    · rw [places_single]
      by_cases hc : c = '%'
      · simp [endPlace, describes, hc, fits_anything]
      · have hword : fits ([c].map .one) text = true ↔ text = [c] := fits_word
        rw [List.map_singleton] at hword
        simp [endPlace, describes, hc, hword]
    · rw [List.concat_eq_append, places_ends, describes_ends]
      by_cases hc : c = '%'
      · by_cases hd : d = '%'
        · simp [endPlace, hc, hd, fits_middle]
        · have hend : fits (.any :: (middle ++ [d]).map .one) text = true ↔
              middle ++ [d] <:+ text := fits_end
          rw [List.map_append] at hend
          simpa [endPlace, hc, hd] using hend
      · by_cases hd : d = '%'
        · have hstart : fits ((c :: middle).map .one ++ [.any]) text = true ↔
              c :: middle <+: text := fits_start
          simpa [endPlace, hc, hd] using hstart
        · have hword : fits ((c :: (middle ++ [d])).map .one) text = true ↔
              text = c :: (middle ++ [d]) := fits_word
          rw [List.map_cons, List.map_append] at hword
          simpa [endPlace, hc, hd] using hword

end Pattern

namespace Condition

variable {s : Schema} {name : String} {i : Nat} {f : Field} {k : Condition}

theorem ofExpr_fieldLike (hf : s.resolve name = some (i, f)) {pattern : String} :
    ofExpr s (.binary (.like false) (.property name) (.literal (.string pattern))) = .ok k ↔
      f.type = .string ∧ k = patternTest i pattern := by
  constructor
  · intro hk
    obtain ⟨m, hm, rfl⟩ := ofExpr_like_eq_ok.mp hk
    obtain ⟨_, j, g, _, hname, htext, hg, htype, rfl⟩ := ofLike_eq_ok.mp hm
    cases hname
    cases htext
    obtain ⟨rfl, rfl⟩ := Prod.mk.inj (Option.some.inj (hf.symm.trans hg))
    exact ⟨htype, rfl⟩
  · rintro ⟨htype, rfl⟩
    exact ofExpr_like hf htype pattern

/-- A field has pattern tests just when it is one of strings. On a string the test finds what
backtracking over the places of the pattern finds, and on any other value it asks whether the
pattern is a percent sign alone. -/
theorem patternTest_by_backtracking (hf : s.resolve name = some (i, f)) (pattern : String) :
    let e : Expr := .binary (.like false) (.property name) (.literal (.string pattern))
    ((∃ k, ofExpr s e = .ok k) ↔ f.type = .string) ∧
      ∀ k, ofExpr s e = .ok k → ∀ row : Row,
        (∀ v, row i = .string v →
          k.holds row = Pattern.fits (Pattern.places pattern.toList) v.toList) ∧
        ((∀ v, row i ≠ .string v) → (k.holds row = true ↔ pattern = "%")) := by
  intro e
  constructor
  · constructor
    · rintro ⟨k, hk⟩
      exact ((ofExpr_fieldLike hf).mp hk).1
    · intro htype
      exact ⟨_, (ofExpr_fieldLike hf).mpr ⟨htype, rfl⟩⟩
  · intro k hk row
    obtain ⟨_, rfl⟩ := (ofExpr_fieldLike hf).mp hk
    constructor
    · intro v hrow
      rw [patternTest_holds hf hrow, Pattern.fits_places]
    · intro hrow
      rw [patternTest_holds_of_not_string hf hrow, decide_eq_true_iff]

/-- The percent sign inside the first pattern and its underscore stand for themselves. Null passes
neither this test nor that of two percent signs, which every text passes. -/
theorem patternTest_by_backtracking_note :
    let s : Schema := ⟨[⟨"Qty", .integer .i32, false⟩, ⟨"Note", .string, true⟩]⟩
    let e : String → Expr := fun pattern =>
      .binary (.like false) (.property "NOTE") (.literal (.string pattern))
    let noted : Datum → Row := fun note i => if i = 0 then .integer 5 else note
    s.resolve "NOTE" = some (1, ⟨"Note", .string, true⟩) ∧
      (∃ k, ofExpr s (e "%5%_") = .ok k ∧ k.holds (noted (.string "ß 5%_")) = true ∧
        k.holds (noted (.string "ß 50_")) = false ∧ k.holds (noted .null) = false) ∧
      (∃ k, ofExpr s (e "%%") = .ok k ∧ k.holds (noted (.string "")) = true ∧
        k.holds (noted .null) = false) ∧
      ∃ k, ofExpr s (e "%") = .ok k ∧ k.holds (noted .null) = true := by
  intro s e noted
  have hnote : s.resolve "NOTE" = some (1, ⟨"Note", .string, true⟩) := by rfl
  have hnull : ∀ v, noted .null 1 ≠ .string v := by
    intro v h
    cases h
  have htest := fun pattern => patternTest_by_backtracking hnote pattern
  refine ⟨hnote, ?_, ?_, ?_⟩
  · obtain ⟨k, hk⟩ := (htest "%5%_").1.mpr rfl
    have hread := (htest "%5%_").2 k hk
    refine ⟨k, hk, ?_, ?_, ?_⟩
    · rw [(hread _).1 "ß 5%_" rfl]
      decide
    · rw [(hread _).1 "ß 50_" rfl]
      decide
    · rw [← Bool.not_eq_true, (hread _).2 hnull]
      decide
  · obtain ⟨k, hk⟩ := (htest "%%").1.mpr rfl
    have hread := (htest "%%").2 k hk
    refine ⟨k, hk, ?_, ?_⟩
    · rw [(hread _).1 "" rfl]
      decide
    · rw [← Bool.not_eq_true, (hread _).2 hnull]
      decide
  · obtain ⟨k, hk⟩ := (htest "%").1.mpr rfl
    exact ⟨k, hk, ((htest "%").2 k hk _).2 hnull |>.mpr rfl⟩

end Condition

end RowFilter
