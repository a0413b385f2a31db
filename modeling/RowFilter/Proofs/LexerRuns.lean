import RowFilter.Proofs.Lexed

namespace RowFilter.Lexer

/-- The tokens that a lexer gives, and the lexer that is left behind them. -/
inductive Gives : Lexer → List Token → Lexer → Prop
  | done (l : Lexer) : Gives l [] l
  | token {l m n : Lexer} {t : Token} {ts : List Token} : l.next = (some (.ok t), m) →
      Gives m ts n → Gives l (t :: ts) n

variable {l m : Lexer} {t : Token} {ts : List Token}

theorem passes_of_next (h : l.next = (some (.ok t), m)) : ∃ gap, l.Passes gap t m := by
  have hworking : l.failed = false := by
    cases hfailed : l.failed with
    | false => rfl
    | true => simp [next, hfailed] at h
  rcases next_cases hworking with ⟨hnone, _⟩ | ⟨gap, u, n, hnext, hpasses⟩ | ⟨_, _, _, e, herror, _⟩
  · simp [h] at hnone
  · rw [h] at hnext
    obtain ⟨ht, rfl⟩ := Prod.mk.inj hnext
    obtain rfl := Except.ok.inj (Option.some.inj ht)
    exact ⟨gap, hpasses⟩
  · simp [h] at herror

theorem Gives.working (h : l.Gives ts m) (hl : l.failed = false) : m.failed = false := by
  induction h with
  | done => exact hl
  | token hnext _ ih =>
    obtain ⟨_, hpasses⟩ := passes_of_next hnext
    exact ih hpasses.working

theorem Gives.lexeme (h : l.Gives ts m) : ∀ t ∈ ts, Lexeme t.kind t.text := by
  induction h with
  | done => simp
  | token hnext _ ih =>
    obtain ⟨_, hpasses⟩ := passes_of_next hnext
    intro u hu
    rcases List.mem_cons.mp hu with rfl | hu
    · exact hpasses.lexeme
    · exact ih u hu

/-- Every lexer gives tokens up to the end of its text or up to an error, and that is what
`take` finds if it may take enough tokens. -/
theorem exists_gives {n : Nat} (hl : l.failed = false) (hn : l.rest.length ≤ n) :
    ∃ ts m, l.Gives ts m ∧ (m.next.1 = none ∧ l.take n = .ok ts ∨
      ∃ e, m.next.1 = some (.error e) ∧ l.take n = .error e) := by
  induction n generalizing l with
  | zero =>
    have hnil : l.rest = [] := List.length_eq_zero_iff.mp (Nat.le_zero.mp hn)
    exact ⟨[], l, .done l, .inl ⟨by simp [next, hl, hnil], rfl⟩⟩
  | succ n ih =>
    rcases next_cases hl with ⟨hnone, _⟩ | ⟨gap, t, m, hnext, hpasses⟩ | ⟨_, _, _, e, herror, _⟩
    · exact ⟨[], l, .done l, .inl ⟨hnone, take_of_none hnone⟩⟩
    · have hshorter := hpasses.shorter
      obtain ⟨ts, k, hgives, hend⟩ := ih hpasses.working (by omega)
      refine ⟨t :: ts, k, .token hnext hgives, ?_⟩
      rw [take_of_token hnext]
      rcases hend with ⟨hnone, htake⟩ | ⟨e, herror, htake⟩
      · exact .inl ⟨hnone, bind_eq_ok.mpr ⟨ts, htake, rfl⟩⟩
      · exact .inr ⟨e, herror, bind_eq_error.mpr (.inl htake)⟩
    · exact ⟨[], l, .done l, .inr ⟨e, herror, take_of_error herror⟩⟩

end RowFilter.Lexer

namespace RowFilter

variable {text : List Char}

/-- The lexer gives all tokens of a text that has tokens, and otherwise those before the error. -/
theorem tokenize_gives (text : List Char) : ∃ ts l, (Lexer.ofText text).Gives ts l ∧
    (l.next.1 = none ∧ tokenize text = .ok ts ∨
      ∃ e, l.next.1 = some (.error e) ∧ tokenize text = .error e) :=
  Lexer.exists_gives rfl (Nat.le_refl _)

/-- Behind the tokens of a text there is layout only. -/
theorem gives_of_tokenize {ts : List Token} (h : tokenize text = .ok ts) :
    ∃ l, (Lexer.ofText text).Gives ts l ∧ ∀ c ∈ l.rest, isLayout c = true := by
  obtain ⟨us, l, hgives, ⟨hnone, hus⟩ | ⟨e, _, he⟩⟩ := tokenize_gives text
  · rw [hus] at h
    obtain rfl := Except.ok.inj h
    rcases Lexer.next_cases (hgives.working rfl) with ⟨_, hlayout⟩ | ⟨_, _, _, hnext, _⟩ |
      ⟨_, _, _, _, hnext, _⟩
    · exact ⟨l, hgives, hlayout⟩
    · simp [hnext] at hnone
    · simp [hnext] at hnone
  · rw [he] at h
    cases h

/-- In a text without tokens the lexer comes to stand before a text that starts with none. -/
theorem fails_of_tokenize {e : LexError} (h : tokenize text = .error e) :
    ∃ ts l gap c cs, (Lexer.ofText text).Gives ts l ∧ l.next.1 = some (.error e) ∧
      l.Fails gap c cs e := by
  obtain ⟨ts, l, hgives, ⟨_, hts⟩ | ⟨e', herror, he⟩⟩ := tokenize_gives text
  · rw [hts] at h
    cases h
  · rw [he] at h
    obtain rfl := Except.error.inj h
    rcases Lexer.next_cases (hgives.working rfl) with ⟨hnext, _⟩ | ⟨_, _, _, hnext, _⟩ |
      ⟨gap, c, cs, e, hnext, hfails⟩
    · simp [hnext] at herror
    · simp [hnext] at herror
    · rw [hnext] at herror
      obtain rfl := Except.error.inj (Option.some.inj herror)
      exact ⟨ts, l, gap, c, cs, hgives, hnext, hfails⟩

end RowFilter
