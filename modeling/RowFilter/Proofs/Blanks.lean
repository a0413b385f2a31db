import RowFilter.Proofs.Lexed

namespace RowFilter

theorem mem_of_covers {ranges : List (Nat × Nat)} {n : Nat} (h : covers ranges n = true) :
    ∃ r ∈ ranges, r.1 ≤ n ∧ n ≤ r.2 := by
  induction ranges with
  | nil => cases h
  | cons r rest ih =>
    unfold covers at h
    split at h
    next => cases h
    next hlow =>
      rcases Bool.or_eq_true_iff.mp h with hhigh | hrest
      · exact ⟨r, List.mem_cons_self, Nat.le_of_not_lt hlow, of_decide_eq_true hhigh⟩
      · obtain ⟨s, hs, hn⟩ := ih hrest
        exact ⟨s, List.mem_cons_of_mem _ hs, hn⟩

/-- Blanks belong neither to plain names nor to the names of types. -/
theorem not_word_of_isBlank {c : Char} (h : isBlank c = true) :
    continuesPlainName c = false ∧ c.isAlphanum = false := by
  have hblanks : ∀ r ∈ blankRanges, ∀ n ∈ List.range' r.1 (r.2 + 1 - r.1),
      continuesPlainName (.ofNat n) = false ∧ (Char.ofNat n).isAlphanum = false := by decide +kernel
  obtain ⟨r, hr, hlow, hhigh⟩ := mem_of_covers h
  have hmem : c.toNat ∈ List.range' r.1 (r.2 + 1 - r.1) := List.mem_range'_1.mpr (by omega)
  have hc := hblanks r hr c.toNat hmem
  rwa [Char.ofNat_toNat] at hc

theorem not_blank_of_continuesPlainName {c : Char} (h : continuesPlainName c = true) :
    isBlank c = false := by
  cases hc : isBlank c with
  | false => rfl
  | true => simp [(not_word_of_isBlank hc).1] at h

theorem not_blank_of_isAlphanum {c : Char} (h : c.isAlphanum = true) : isBlank c = false := by
  cases hc : isBlank c with
  | false => rfl
  | true => simp [(not_word_of_isBlank hc).2] at h

theorem dropBlanks_append {gap text : List Char} (hgap : ∀ c ∈ gap, isBlank c = true)
    (htext : ∀ c ∈ text.head?, isBlank c = false) : dropBlanks (gap ++ text) = text :=
  (span_run hgap text htext).2

theorem dropBlanks_eq_self {text : List Char} (h : ∀ c ∈ text.head?, isBlank c = false) :
    dropBlanks text = text := by
  have hnone : ∀ c ∈ ([] : List Char), isBlank c = true := by simp
  exact dropBlanks_append hnone h

theorem trimBlanks_eq_self {text : List Char} (hhead : ∀ c ∈ text.head?, isBlank c = false)
    (hlast : ∀ c ∈ text.getLast?, isBlank c = false) : trimBlanks text = text := by
  have hreverse : ∀ c ∈ text.reverse.head?, isBlank c = false := by rwa [List.head?_reverse]
  rw [trimBlanks, dropBlanks_eq_self hhead, dropBlanks_eq_self hreverse, List.reverse_reverse]

/-- The head of two texts in a row is one of the first, if that has any characters. -/
theorem head_append {p : Char → Prop} {a b : List Char} (ha : ∀ c ∈ a, p c)
    (hb : a = [] → ∀ c ∈ b.head?, p c) : ∀ c ∈ (a ++ b).head?, p c := by
  cases a with
  | nil => exact hb rfl
  | cons d a =>
    intro c hc
    obtain rfl := Option.some.inj hc
    exact ha _ List.mem_cons_self

theorem head_dropBlanks {text : List Char} : ∀ c ∈ (dropBlanks text).head?, isBlank c = false :=
  head_dropWhile

theorem getLast_dropBlanks {text : List Char} {c : Char} (h : c ∈ (dropBlanks text).getLast?) :
    c ∈ text.getLast? := by
  obtain ⟨before, hbefore⟩ := List.dropWhile_suffix (l := text) isBlank
  have hne : dropBlanks text ≠ [] := by
    intro hnil
    simp [hnil] at h
  rw [← hbefore]
  exact (getLast?_append_of_ne_nil hne).symm ▸ h

/-- Trimming leaves no blank at either end. -/
theorem ends_trimBlanks (text : List Char) :
    (∀ c ∈ (trimBlanks text).head?, isBlank c = false) ∧
      ∀ c ∈ (trimBlanks text).getLast?, isBlank c = false := by
  unfold trimBlanks
  rw [List.head?_reverse, List.getLast?_reverse]
  refine ⟨fun c hc => ?_, head_dropBlanks⟩
  have hlast := getLast_dropBlanks hc
  rw [List.getLast?_reverse] at hlast
  exact head_dropBlanks c hlast

theorem mem_of_mem_trimBlanks {text : List Char} {c : Char} (h : c ∈ trimBlanks text) :
    c ∈ text := by
  have hdrop : ∀ {l : List Char}, c ∈ dropBlanks l → c ∈ l := fun hc =>
    (List.dropWhile_suffix isBlank).subset hc
  exact hdrop (List.mem_reverse.mp (hdrop (List.mem_reverse.mp h)))

end RowFilter
