import RowFilter.Number.Decimal
import RowFilter.Proofs.Lexemes

namespace RowFilter.Decimal

open Nat (ofDigitChars)

theorem readDigits_whole {ds : List Char} (hds : ∀ c ∈ ds, c.isDigit = true) (hne : ds ≠ [])
    (started : Bool) (coefficient : Nat) (rest : List Char) :
    readDigits started false coefficient 0 (ds ++ rest) =
      readDigits true false (ofDigitChars 10 ds coefficient) 0 rest := by
  induction ds generalizing started coefficient with
  | nil => exact absurd rfl hne
  | cons d ds ih =>
    have hd : d.isDigit = true := hds d (by simp)
    simp only [List.cons_append, readDigits, hd, if_true, Nat.ofDigitChars_cons]
    by_cases hnil : ds = []
    · subst hnil
      simp
    · simpa using ih (fun c hc => hds c (by simp [hc])) hnil true _

theorem readDigits_fraction {fs : List Char} (hfs : ∀ c ∈ fs, c.isDigit = true)
    {coefficient scale : Nat} (hscale : scale + fs.length ≤ 28) :
    readDigits true true coefficient scale fs =
      some (ofDigitChars 10 fs coefficient, scale + fs.length) := by
  induction fs generalizing coefficient scale with
  | nil => simp [readDigits]
  | cons f fs ih =>
    have hf : f.isDigit = true := hfs f (by simp)
    simp only [List.length_cons] at hscale
    have hroom : scale ≠ 28 := by omega
    simp only [readDigits, hroom, hf, if_true, if_false, Nat.ofDigitChars_cons]
    rw [ih (fun c hc => hfs c (by simp [hc])) (by omega)]
    simp only [List.length_cons, Nat.add_comm 1, Nat.add_assoc]

/-- The digits of a text before and behind the point. -/
theorem unsignedText_eq (coefficient scale : Nat) :
    ∃ ds fs, unsignedText coefficient scale = (if scale = 0 then ds else ds ++ '.' :: fs) ∧
      ds ≠ [] ∧ fs.length = scale ∧ (∀ c ∈ ds ++ fs, c.isDigit = true) ∧
      ofDigitChars 10 (ds ++ fs) 0 = coefficient := by
  let digits := Nat.toDigits 10 coefficient
  let padded := List.replicate (scale + 1 - digits.length) '0' ++ digits
  have hlength : scale + 1 ≤ padded.length := by
    simp only [padded, List.length_append, List.length_replicate]
    omega
  have hdigits : ∀ c ∈ padded, c.isDigit = true := by
    intro c hc
    rcases List.mem_append.mp hc with hc | hc
    · rw [List.eq_of_mem_replicate hc]
      decide
    · exact Nat.isDigit_of_mem_toDigits (by decide) (by decide) hc
  have hvalue : ofDigitChars 10 padded 0 = coefficient := by
    simp only [padded, Nat.ofDigitChars_append, Nat.ofDigitChars_replicate_zero, Nat.mul_zero]
    exact Nat.ofDigitChars_ten_toDigits
  refine ⟨padded.take (padded.length - scale), padded.drop (padded.length - scale), ?_, ?_, ?_, ?_,
    ?_⟩
  · by_cases hscale : scale = 0
    · subst hscale
      simp only [Nat.sub_zero, List.take_length, if_true]
      simp [unsignedText, padded, digits]
    · simp [unsignedText, hscale, padded, digits]
  · intro hnil
    have hzero := congrArg List.length hnil
    simp only [List.length_take, List.length_nil] at hzero
    omega
  · rw [List.length_drop]
    omega
  · rwa [List.take_append_drop]
  · rwa [List.take_append_drop]

theorem numeral_unsignedText (coefficient scale : Nat) :
    Numeral (unsignedText coefficient scale) := by
  obtain ⟨ds, fs, htext, hds, hfs, hdigits, _⟩ := unsignedText_eq coefficient scale
  have hwhole : ∀ c ∈ ds, c.isDigit = true := fun c hc => hdigits c (by simp [hc])
  have hfraction : ∀ c ∈ fs, c.isDigit = true := fun c hc => hdigits c (by simp [hc])
  rw [htext]
  split
  next => exact .whole hds hwhole
  next hscale =>
    have hne : fs ≠ [] := by
      rintro rfl
      exact hscale hfs.symm
    exact .point hds hwhole hne hfraction

theorem readDigits_unsignedText {coefficient scale : Nat} (hscale : scale ≤ 28) :
    readDigits false false 0 0 (unsignedText coefficient scale) = some (coefficient, scale) := by
  obtain ⟨ds, fs, htext, hds, hfs, hdigits, hvalue⟩ := unsignedText_eq coefficient scale
  have hwhole : ∀ c ∈ ds, c.isDigit = true := fun c hc => hdigits c (by simp [hc])
  have hfraction : ∀ c ∈ fs, c.isDigit = true := fun c hc => hdigits c (by simp [hc])
  rw [htext]
  split
  next hzero =>
    subst hzero
    obtain rfl := List.length_eq_zero_iff.mp hfs
    have hread := readDigits_whole hwhole hds false 0 []
    rw [List.append_nil] at hread hvalue
    simp [hread, hvalue, readDigits]
  next =>
    rw [readDigits_whole hwhole hds]
    have hpoint : readDigits true false (ofDigitChars 10 ds 0) 0 ('.' :: fs) =
        readDigits true true (ofDigitChars 10 ds 0) 0 fs := by
      simp [readDigits]
    rw [hpoint, readDigits_fraction hfraction (by omega), ← Nat.ofDigitChars_append, hvalue, hfs,
      Nat.zero_add]

theorem text_of_nonneg {d : Decimal} (h : 0 ≤ d.coefficient) :
    d.text = unsignedText d.coefficient.natAbs d.scale := by
  have hsign : ¬ d.coefficient < 0 := by omega
  simp [text, hsign]

theorem numeral_text {d : Decimal} (h : 0 ≤ d.coefficient) : Numeral d.text := by
  rw [text_of_nonneg h]
  exact numeral_unsignedText _ _

/-- A text that starts with a digit is read without a sign. -/
theorem read?_of_digit {c : Char} {cs : List Char} (hc : c.isDigit = true) :
    read? (c :: cs) =
      (readDigits false false 0 0 (c :: cs)).bind fun parts => make? parts.1 parts.2 := by
  have hsign : ∀ sign, sign.isDigit = false → ∀ rest, c :: cs ≠ sign :: rest := by
    rintro sign hs rest heq
    obtain ⟨rfl, _⟩ := List.cons.inj heq
    rw [hc] at hs
    cases hs
  unfold read?
  split
  next rest heq => exact absurd heq (hsign '-' (by decide) rest)
  next rest heq => exact absurd heq (hsign '+' (by decide) rest)
  next => rfl

theorem nonneg_of_read? {text : List Char} {d : Decimal} (h : Numeral text)
    (hread : read? text = some d) : 0 ≤ d.coefficient := by
  obtain ⟨c, cs, rfl, hc⟩ := numeral_head h
  rw [read?_of_digit hc] at hread
  obtain ⟨parts, _, hmake⟩ := Option.bind_eq_some_iff.mp hread
  unfold make? at hmake
  split at hmake
  next =>
    obtain rfl := Option.some.inj hmake
    exact Int.natCast_nonneg parts.1
  next => cases hmake

theorem make?_self (d : Decimal) : make? d.coefficient d.scale = some d :=
  dif_pos ⟨d.coefficient_lt, d.scale_le⟩

/-- A decimal is read back from its text. -/
theorem read?_text (d : Decimal) : read? d.text = some d := by
  have hread : readDigits false false 0 0 (unsignedText d.coefficient.natAbs d.scale) =
      some (d.coefficient.natAbs, d.scale) := readDigits_unsignedText d.scale_le
  by_cases h : d.coefficient < 0
  · have hcoefficient : -(d.coefficient.natAbs : Int) = d.coefficient := by omega
    have htext : d.text = '-' :: unsignedText d.coefficient.natAbs d.scale := by simp [text, h]
    rw [htext]
    show (readDigits _ _ _ _ _).bind (fun parts => make? (-parts.1) parts.2) = some d
    rw [hread, Option.bind_some, hcoefficient, make?_self]
  · have hnonneg : 0 ≤ d.coefficient := by omega
    have hcoefficient : (d.coefficient.natAbs : Int) = d.coefficient := by omega
    obtain ⟨c, cs, hc, hdigit⟩ := numeral_head (numeral_text hnonneg)
    rw [← text_of_nonneg hnonneg, hc] at hread
    rw [hc, read?_of_digit hdigit, hread, Option.bind_some, hcoefficient, make?_self]

end RowFilter.Decimal
