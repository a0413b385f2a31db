import Mathlib.Data.List.Forall2
import RowFilter.Proofs.Sense
import RowFilter.Proofs.Tiling
import RowFilter.Proofs.Written

namespace RowFilter

/-- How a token may be written: a keyword in any case, and all else as it is. -/
def Token.SpelledAs (t : Token) (word : List Char) : Prop :=
  match t.kind with
  | .keyword _ => sameIgnoringAsciiCase word t.text = true
  | _ => word = t.text

/-- Words with layout between each two of them, and perhaps behind the last one. -/
inductive Spaced : List (List Char) → List Char → Prop
  | last {word : List Char} (gap : List Char) : (∀ c ∈ gap, isLayout c = true) →
      Spaced [word] (word ++ gap)
  | more {word text : List Char} {words : List (List Char)} (gap : List Char) :
      (∀ c ∈ gap, isLayout c = true) → gap ≠ [] → Spaced words text →
      Spaced (word :: words) (word ++ gap ++ text)

theorem covers_head {low high n : Nat} {rest : List (Nat × Nat)} (hl : low ≤ n) (hu : n ≤ high) :
    covers ((low, high) :: rest) n = true := by
  simp [covers, hu, Nat.not_lt.mpr hl]

theorem startsName_of_letter {c : Char}
    (h : 0x41 ≤ c.toNat ∧ c.toNat ≤ 0x5A ∨ 0x61 ≤ c.toNat ∧ c.toNat ≤ 0x7A) :
    startsName c = true := by
  have halphabetic : isAlphabetic c = true := by
    unfold isAlphabetic alphabeticRanges
    rcases h with ⟨hl, hu⟩ | ⟨hl, hu⟩
    · exact covers_head hl hu
    · have hlow : ¬ c.toNat < 0x41 := by omega
      rw [covers, covers_head hl hu, if_neg hlow, Bool.or_true]
  simp only [startsName, halphabetic, Bool.true_or]

/-- The letters of a keyword begin names, in either case. -/
theorem startsName_of_toLower {k : Keyword} {c : Char} (h : c.toLower ∈ k.spelling) :
    startsName c = true := by
  by_cases hupper : c.val ≥ 'A'.val ∧ c.val ≤ 'Z'.val
  · exact startsName_of_letter (.inl hupper)
  · have hlower : c.toLower = c := by
      unfold Char.toLower
      rw [dif_neg hupper]
    have hletters : ∀ k : Keyword, ∀ d ∈ k.spelling, startsName d = true := by
      intro k
      cases k <;> exact List.all_eq_true.mp rfl
    rw [hlower] at h
    exact hletters k c h

theorem isWord_of_toLower {k : Keyword} {word : List Char}
    (h : word.map Char.toLower = k.spelling) : IsWord word := by
  have hletters : ∀ c ∈ word, startsName c = true := by
    intro c hc
    have hmem := List.mem_map_of_mem (f := Char.toLower) hc
    rw [h] at hmem
    exact startsName_of_toLower hmem
  cases word with
  | nil => cases k <;> cases h
  | cons c cs =>
    obtain ⟨hc, hcs⟩ := List.forall_mem_cons.mp hletters
    exact ⟨hc, fun d hd => continuesName_of_startsName (hcs d hd)⟩

theorem Token.SpelledAs.lexeme {t : Token} {word : List Char} (h : t.SpelledAs word)
    (ht : Lexeme t.kind t.text) : Lexeme t.kind word := by
  unfold SpelledAs at h
  split at h
  next k hk =>
    have hspells := ht.spells
    rw [hk] at hspells ⊢
    have hword : word.map Char.toLower = k.spelling := (of_decide_eq_true h).trans hspells.2
    exact TokenKind.Spells.lexeme ⟨isWord_of_toLower hword, hword⟩
  next => exact h ▸ ht

theorem Token.SpelledAs.sense {t : Token} {word : List Char} (h : t.SpelledAs word) :
    (Token.mk t.kind word .start).sense = t.sense := by
  unfold SpelledAs at h
  unfold Token.sense
  split at h
  next k hk => simp only [hk]
  next hkeyword =>
    subst h
    rfl

theorem isDelimiter_of_isLayout {c : Char} (h : isLayout c = true) :
    isDelimiter c = true ∧ c ≠ '<' ∧ c ≠ '>' ∧ c ≠ '=' := by
  refine ⟨by simp [isDelimiter, h], ?_, ?_, ?_⟩
  all_goals
    rintro rfl
    cases h

theorem lexes_layout {gap : List Char} (h : ∀ c ∈ gap, isLayout c = true) : Lexes gap [] :=
  fun _ => ⟨[], .done h, rfl⟩

theorem Lexes.behind_layout {gap text : List Char} {words : List Token} (h : Lexes text words)
    (hgap : ∀ c ∈ gap, isLayout c = true) : Lexes (gap ++ text) words := by
  intro p
  obtain ⟨ts, hts, hmap⟩ := h (p.after gap)
  exact ⟨ts, hts.layout hgap, hmap⟩

/-- Layout behind a token leaves it as it is. -/
theorem Lexeme.lexes_padded {kind : TokenKind} {word gap : List Char} (h : Lexeme kind word)
    (hgap : ∀ c ∈ gap, isLayout c = true) : Lexes (word ++ gap) [⟨kind, word, .start⟩] := by
  have hapart : Apart word gap := by
    intro x _ y hy
    obtain ⟨hdelimiter, _, hgreater, hequal⟩ :=
      isDelimiter_of_isLayout (hgap y (List.mem_of_mem_head? hy))
    exact seam_right hdelimiter hequal hgreater
  exact h.lexes.append (lexes_layout hgap) hapart

/-- Layout keeps what stands before it apart from what stands behind it. -/
theorem apart_of_layout {word gap text : List Char} (hne : gap ≠ [])
    (hgap : ∀ c ∈ gap, isLayout c = true) : Apart (word ++ gap) text := by
  have hlast := List.getLast?_eq_some_getLast hne
  obtain ⟨hdelimiter, hless, hgreater, _⟩ :=
    isDelimiter_of_isLayout (hgap _ (List.getLast_mem hne))
  rw [← getLast?_append_of_ne_nil (a := word) hne] at hlast
  exact apart_left hlast hdelimiter hless hgreater

/-- Words with layout between them are the tokens that they spell. -/
theorem Spaced.lexes {words : List (List Char)} {text : List Char} (h : Spaced words text)
    {ts : List Token} (hts : ∀ t ∈ ts, Lexeme t.kind t.text)
    (hwords : List.Forall₂ Token.SpelledAs ts words) :
    ∃ us, Lexes text us ∧ us.map Token.sense = ts.map Token.sense := by
  induction h generalizing ts with
  | last gap hgap =>
    obtain ⟨t, rest, hword, hrest, rfl⟩ := List.forall₂_cons_right_iff.mp hwords
    obtain rfl := List.forall₂_nil_right_iff.mp hrest
    have hlexeme := hword.lexeme (hts t (by simp))
    exact ⟨_, hlexeme.lexes_padded hgap, by simp [hword.sense]⟩
  | more gap hgap hne _ ih =>
    obtain ⟨t, rest, hword, hrest, rfl⟩ := List.forall₂_cons_right_iff.mp hwords
    obtain ⟨ht, hothers⟩ := List.forall_mem_cons.mp hts
    obtain ⟨us, hus, hsense⟩ := ih hothers hrest
    have hfirst := (hword.lexeme ht).lexes_padded hgap
    exact ⟨_, hfirst.append hus (apart_of_layout hne hgap), by simp [hword.sense, hsense]⟩

/-- Neither layout nor the case of keywords matters: the tokens of an accepted text may be spread
out with any layout between them, and with keywords in any case, and the tree is the same. -/
theorem parseWhere_spread {text : List Char} {e : Expr} (h : parseWhere text = .ok e) :
    ∃ ts, tokenize text = .ok ts ∧
      ∀ before words other, List.Forall₂ Token.SpelledAs ts words →
        (∀ c ∈ before, isLayout c = true) → Spaced words other →
        parseWhere (before ++ other) = .ok e := by
  obtain ⟨ts, hts, hw⟩ := parseWhere_eq_ok.mp h
  refine ⟨ts, hts, fun before words other hwords hbefore hspaced => ?_⟩
  obtain ⟨us, hus, hsense⟩ := hspaced.lexes (tokenize_eq_ok.mp hts).lexeme hwords
  exact (parseWhere_of_lexes (hus.behind_layout hbefore)).mpr (hw.of_sense hsense)

/-- Capitals, and a tab and line breaks between the tokens. -/
theorem parseWhere_spread_lines :
    let text := "not(A)is null".toList
    let before := ['\n', ' ']
    let words := ["NOT".toList, ['('], ['A'], [')'], "Is".toList, "nULL".toList]
    let other := "NOT\t( A \r\n) Is  nULL ".toList
    let e : Expr := .unary .isNull (.unary .not (.property "A"))
    parseWhere text = .ok e ∧ (∀ c ∈ before, isLayout c = true) ∧ Spaced words other ∧
      parseWhere (before ++ other) = .ok e := by
  intro text before words other e
  have he : parseWhere text = .ok e := by rfl
  have htokens : tokenize text = .ok [⟨.keyword .not, "not".toList, ⟨0, 1, 1⟩⟩,
      ⟨.mark .openParen, ['('], ⟨3, 1, 4⟩⟩, ⟨.identifier, ['A'], ⟨4, 1, 5⟩⟩,
      ⟨.mark .closeParen, [')'], ⟨5, 1, 6⟩⟩, ⟨.keyword .is, "is".toList, ⟨6, 1, 7⟩⟩,
      ⟨.keyword .null, "null".toList, ⟨9, 1, 10⟩⟩] := by rfl
  have hgap : ∀ {gap : List Char}, gap.all isLayout = true → ∀ c ∈ gap, isLayout c = true :=
    List.all_eq_true.mp
  have hbefore : ∀ c ∈ before, isLayout c = true := hgap rfl
  have hspaced : Spaced words other :=
    .more ['\t'] (hgap rfl) (by decide) (.more [' '] (hgap rfl) (by decide)
      (.more [' ', '\r', '\n'] (hgap rfl) (by decide) (.more [' '] (hgap rfl) (by decide)
        (.more [' ', ' '] (hgap rfl) (by decide) (.last [' '] (hgap rfl))))))
  obtain ⟨ts, hts, hspread⟩ := parseWhere_spread he
  obtain rfl := Except.ok.inj (htokens.symm.trans hts)
  refine ⟨he, hbefore, hspaced, hspread before words other ?_ hbefore hspaced⟩
  exact .cons (by rfl) (.cons rfl (.cons rfl (.cons rfl (.cons (by rfl) (.cons (by rfl) .nil)))))

end RowFilter
