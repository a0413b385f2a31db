import RowFilter.Proofs.ReaderSound

namespace RowFilter.Reader

/-- What reading tokens ends with. -/
abbrev Outcome := Except Stop (Expr × List Token)

/-- Reads behind the next token if that is of a kind, and otherwise with it. -/
def taking (kind : TokenKind) (taken other : Reader) : Reader
  | [] => other []
  | t :: rest => if t.kind = kind then taken rest else other (t :: rest)

/-- Reads what is not too deep. -/
def bounded (limit height : Nat) (r : Reader) : Reader := fun tokens =>
  if limit < height then stop .tooDeep tokens else r tokens

/-- Takes no token. -/
def ready (e : Expr) : Reader := fun tokens => .ok (e, tokens)

/-- Reads on behind a tree, with what follows it. -/
def andThen (r : Reader) (f : Expr → Reader) : Reader := fun tokens => do
  let (e, rest) ← r tokens
  f e rest

/-- What becomes of an expression behind an open parenthesis. -/
def closing : Outcome → Outcome
  | .error s => .error { s with opened := s.opened + 1 }
  | .ok (e, rest) => taking (.mark .closeParen) (ready e) (stop (.expected .closeParen)) rest

/-- An expression behind an open parenthesis, if there is room for that. -/
def opening : Option Reader → Reader
  | none => stop .tooDeep
  | some r => fun tokens => closing (r tokens)

/-- A link of a chain, with the reader of further ones. -/
def link (limit : Nat) (operator : List Token → Option (BinaryOp × List Token)) (operand : Reader)
    (further : Expr → Reader) (left : Expr) : Reader := fun tokens =>
  match operator tokens with
  | none => ready left tokens
  | some (op, rest) => operand.andThen (fun right =>
      bounded limit (Expr.binary op left right).height (further (.binary op left right))) rest

variable {kind : TokenKind} {taken other r : Reader} {t : Token} {tokens rest : List Token}

theorem taking_head (ht : t.kind = kind) : taking kind taken other (t :: rest) = taken rest :=
  if_pos ht

theorem taking_other (h : ∀ t ∈ tokens.head?, t.kind ≠ kind) :
    taking kind taken other tokens = other tokens := by
  cases tokens with
  | nil => rfl
  | cons t rest => exact if_neg (h t (by simp))

/-- Either the next token is of a kind or there is none that is. -/
theorem head_cases (kind : TokenKind) (tokens : List Token) :
    (∃ t rest, t.kind = kind ∧ tokens = t :: rest) ∨ ∀ t ∈ tokens.head?, t.kind ≠ kind := by
  cases tokens with
  | nil => exact .inr (by simp)
  | cons t rest =>
    by_cases ht : t.kind = kind
    · exact .inl ⟨t, rest, ht, rfl⟩
    · exact .inr (by simpa using ht)

theorem factor_eq (inner : Option Reader) :
    factor inner = taking (.mark .openParen) (opening inner) item := by
  funext tokens
  cases tokens with
  | nil => rfl
  | cons t rest =>
    by_cases ht : t.kind = .mark .openParen
    · rw [taking_head ht]
      cases inner with
      | none => simp [factor, ht, opening]
      | some r =>
        simp only [factor, ht, if_true, opening]
        rcases r rest with s | ⟨e, _ | ⟨u, behind⟩⟩ <;> rfl
    · rw [taking_other (by simpa using ht)]
      simp [factor, ht]

theorem negation_eq (limit : Nat) (inner : Option Reader) : negation limit inner =
    taking (.keyword .not) ((factor inner).andThen fun e =>
      bounded limit (Expr.unary .not e).height (ready (.unary .not e))) (factor inner) := by
  funext tokens
  cases tokens <;> rfl

theorem nullTest_eq (limit : Nat) (e : Expr) : nullTest limit e =
    taking (.keyword .is) (bounded limit (Expr.unary .isNull e).height
      (taking (.keyword .null) (ready (.unary .isNull e))
        (taking (.keyword .not)
          (taking (.keyword .null) (ready (.unary .isNotNull e)) (stop (.expected .null)))
          (stop (.expected .nullTest))))) (ready e) := by
  funext tokens
  rcases tokens with _ | ⟨t, _ | ⟨u, _ | ⟨v, rest⟩⟩⟩ <;> rfl

theorem operand_eq (limit : Nat) (inner : Option Reader) :
    operand limit inner = (negation limit inner).andThen (nullTest limit) := rfl

theorem comparison_eq (limit : Nat) (inner : Option Reader) : comparison limit inner =
    (operand limit inner).andThen (chain limit test? (operand limit inner) limit) := rfl

theorem expressionWith_eq (limit : Nat) (inner : Option Reader) : expressionWith limit inner =
    (comparison limit inner).andThen (chain limit connective? (comparison limit inner) limit) := rfl

theorem chain_zero (limit : Nat) (operator : List Token → Option (BinaryOp × List Token))
    (operand : Reader) (left : Expr) : chain limit operator operand 0 left =
      link limit operator operand (fun _ => stop .tooDeep) left := by
  funext tokens
  rw [chain, link]
  rfl

theorem chain_succ (limit : Nat) (operator : List Token → Option (BinaryOp × List Token))
    (operand : Reader) (levels : Nat) (left : Expr) :
    chain limit operator operand (levels + 1) left =
      link limit operator operand (chain limit operator operand levels) left := by
  funext tokens
  rw [chain, link]
  rfl

theorem soundInside_none (limit room : Nat) : SoundInside limit room none := by
  intro r hr
  cases hr

theorem soundInside_some {limit room : Nat} (h : Sound limit room .expression r) :
    SoundInside limit (room + 1) (some r) := by
  intro q hq
  obtain rfl := Option.some.inj hq
  exact ⟨room, rfl, h⟩

end RowFilter.Reader
