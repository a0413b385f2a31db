import RowFilter.Proofs.ReaderComplete

namespace RowFilter

open Grammar Reader

theorem Grammar.depth_le_length (ts : List Token) : depth ts ≤ ts.length := by
  induction ts with
  | nil => simp
  | cons t ts ih =>
    have hone : opens t ≤ 1 := by
      unfold opens
      split
      · omega
      · split <;> omega
    simp only [depth_cons, List.length_cons]
    omega

theorem Grammar.nested_length (ts : List Token) : Nested ts.length ts := by
  intro us hus
  have hlength := hus.length_le
  have hdepth := depth_le_length us
  omega

/-- Tokens derive at most one expression. -/
theorem Grammar.Derives.unique {ts : List Token} {e f : Expr} (he : Derives .expression ts e)
    (hf : Derives .expression ts f) : e = f := by
  let limit := max e.height f.height
  have hread : expression limit ts.length ts = .ok (e, []) :=
    expression_complete ⟨he, Nat.le_max_left _ _, nested_length ts⟩
  have hother : expression limit ts.length ts = .ok (f, []) :=
    expression_complete ⟨hf, Nat.le_max_right _ _, nested_length ts⟩
  rw [hread] at hother
  exact (Prod.mk.inj (Except.ok.inj hother)).1

theorem expression_eq_ok {tokens : List Token} {e : Expr} :
    expression maxDepth maxDepth tokens = .ok (e, []) ↔
      Within maxDepth maxDepth .expression tokens e := by
  constructor
  · intro h
    obtain ⟨ts, rfl, hts⟩ := expression_sound (by decide) _ _ _ h
    simpa using hts
  · exact expression_complete

theorem Session.complete_eq_ok {text : List Char} {tokens : List Token} {e : Expr} :
    (Session.ofTokens text tokens).complete.1 = .ok e ↔
      Within maxDepth maxDepth .expression tokens e := by
  rw [← expression_eq_ok]
  simp only [Session.complete, Session.expression, Session.ofTokens]
  cases h : Reader.expression maxDepth maxDepth tokens with
  | error stop => simp
  | ok result =>
    obtain ⟨f, rest⟩ := result
    cases rest <;> simp

theorem Session.complete_ne_lexical {text : List Char} {tokens : List Token} {err : LexError} :
    (Session.ofTokens text tokens).complete.1 ≠ .error (.lexical err) := by
  have hstop : ∀ stop : Stop, stop.toError text tokens ≠ .lexical err := by
    intro stop
    unfold Stop.toError
    split
    · split <;> simp
    · simp
    · simp
  simp only [Session.complete, Session.expression, Session.ofTokens]
  cases h : Reader.expression maxDepth maxDepth tokens with
  | error stop => simpa using hstop stop
  | ok result =>
    obtain ⟨f, rest⟩ := result
    cases rest with
    | nil => simp
    | cons t rest => simpa using hstop _

theorem parseWhere_eq_ok {text : List Char} {e : Expr} :
    parseWhere text = .ok e ↔
      ∃ tokens, tokenize text = .ok tokens ∧ Within maxDepth maxDepth .expression tokens e := by
  unfold parseWhere
  cases tokenize text with
  | error err => simp
  | ok tokens => simp [Session.complete_eq_ok]

theorem parseWhere_eq_lexical {text : List Char} {err : LexError} :
    parseWhere text = .error (.lexical err) ↔ tokenize text = .error err := by
  unfold parseWhere
  cases tokenize text with
  | error err => simp
  | ok tokens => simpa using Session.complete_ne_lexical

/-- The accepted texts are those whose tokens derive a tree within the bounds on levels and on open
parentheses; the tree is the only one that they derive; and an error of the lexer is the only
reason for a lexical error. -/
theorem parseWhere_accepts_grammar (text : List Char) :
    (∀ e, parseWhere text = .ok e ↔ ∃ tokens, tokenize text = .ok tokens ∧
      Derives .expression tokens e ∧ e.height ≤ maxDepth ∧ Nested maxDepth tokens) ∧
    (∀ tokens e f, tokenize text = .ok tokens → Derives .expression tokens e →
      Derives .expression tokens f → e = f) ∧
    (∀ err, parseWhere text = .error (.lexical err) ↔ tokenize text = .error err) := by
  refine ⟨fun e => ?_, fun tokens e f _ he hf => he.unique hf, fun err => parseWhere_eq_lexical⟩
  rw [parseWhere_eq_ok]
  constructor
  · rintro ⟨tokens, ht, hw⟩
    exact ⟨tokens, ht, hw.derives, hw.height_le, hw.nested⟩
  · rintro ⟨tokens, ht, hd, hle, hn⟩
    exact ⟨tokens, ht, hd, hle, hn⟩

end RowFilter
