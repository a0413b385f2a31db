import RowFilter.Proofs.Sense
import RowFilter.Proofs.Tiling

namespace RowFilter

/-- The literal that a keyword is. -/
def Keyword.literal? : Keyword → Option Literal
  | yes => some (.boolean true)
  | no => some (.boolean false)
  | null => some .null
  | _ => none

theorem isWord_of_isPlainName {name : List Char} (h : isPlainName name = true) : IsWord name := by
  cases name with
  | nil => cases h
  | cons c cs =>
    obtain ⟨hc, hcs⟩ := Bool.and_eq_true_iff.mp h
    exact ⟨startsName_of_plain hc, fun d hd =>
      continuesName_of_plain (List.all_eq_true.mp hcs d hd)⟩

theorem tokenize_word {word : List Char} (h : IsWord word) :
    tokenize word = .ok [⟨wordKind word, word, .start⟩] :=
  tokenize_eq_ok.mpr (h.lexeme.lexed .start)

/-- How a text of one word is read. Behind `not` an operand is missing, and the other keywords that
are no literals stand where an expression should start. -/
theorem parseWhere_word {word : List Char} (h : IsWord word) :
    parseWhere word =
      match Keyword.ofWord? word with
      | none => .ok (.property (.ofList word))
      | some k =>
        match k.literal? with
        | some l => .ok (.literal l)
        | none =>
          if k = .not then .error (.unexpected .expression none (.endOf word))
          else .error (.unexpected .expression (some word) .start) := by
  rw [parseWhere, tokenize_word h, wordKind]
  cases Keyword.ofWord? word with
  | none => rfl
  | some k => cases k <;> rfl

/-- A plain name is read as the property of this name just when it spells no keyword in any case.
One that does is read as the literal that the keyword is, or refused. -/
theorem parseWhere_plainName_iff {name : String} (h : isPlainName name.toList = true) :
    (parseWhere name.toList = .ok (.property name) ↔
      ∀ k : Keyword, name.toList.map Char.toLower ≠ k.spelling) ∧
    ∀ k : Keyword, name.toList.map Char.toLower = k.spelling →
      (∀ l, k.literal? = some l → parseWhere name.toList = .ok (.literal l)) ∧
      (k.literal? = none → ∃ found p,
        parseWhere name.toList = .error (.unexpected .expression found p)) := by
  have hread := parseWhere_word (isWord_of_isPlainName h)
  have hkeyword : ∀ k : Keyword, name.toList.map Char.toLower = k.spelling →
      (∀ l, k.literal? = some l → parseWhere name.toList = .ok (.literal l)) ∧
      (k.literal? = none → ∃ found p,
        parseWhere name.toList = .error (.unexpected .expression found p)) := by
    intro k hk
    rw [Keyword.ofWord?_eq_some.mpr hk] at hread
    refine ⟨fun l hl => by simpa [hl] using hread, fun hnone => ?_⟩
    simp only [hnone] at hread
    split at hread
    · exact ⟨_, _, hread⟩
    · exact ⟨_, _, hread⟩
  refine ⟨⟨fun hname k hk => ?_, fun hnone => ?_⟩, hkeyword⟩
  · obtain ⟨hliteral, herror⟩ := hkeyword k hk
    cases hl : k.literal? with
    | some l => simp [hliteral l hl] at hname
    | none =>
      obtain ⟨found, p, hp⟩ := herror hl
      simp [hp] at hname
  · have hword : Keyword.ofWord? name.toList = none := by
      cases hk : Keyword.ofWord? name.toList with
      | none => rfl
      | some k => exact absurd (Keyword.ofWord?_eq_some.mp hk) (hnone k)
    simpa [hword] using hread

/-- A name with a letter that is not ASCII, which no case of a keyword has. -/
theorem parseWhere_plainName_iff_groesse :
    isPlainName "Größe".toList = true ∧
      (∀ k : Keyword, "Größe".toList.map Char.toLower ≠ k.spelling) ∧
      parseWhere "Größe".toList = .ok (.property "Größe") := by
  have hplain : isPlainName "Größe".toList = true := by decide
  have hnone : ∀ k : Keyword, "Größe".toList.map Char.toLower ≠ k.spelling := by
    intro k
    cases k <;> decide
  exact ⟨hplain, hnone, (parseWhere_plainName_iff hplain).1.mpr hnone⟩

/-- The names `Like` and `True` are plain. One is refused, and the other is no name. -/
theorem plainName_not_property_like :
    isPlainName "Like".toList = true ∧
      parseWhere "Like".toList =
        .error (.unexpected .expression (some "Like".toList) .start) ∧
      isPlainName "True".toList = true ∧
      parseWhere "True".toList = .ok (.literal (.boolean true)) :=
  ⟨by decide, by rfl, by decide, by rfl⟩

end RowFilter
