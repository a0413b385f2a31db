import RowFilter.Proofs.LexerRuns
import RowFilter.Proofs.Stops

namespace RowFilter

open Grammar

/-- The lexers that a text leads to, however often a token is asked for. -/
inductive Lexer.Visits (text : List Char) : Lexer → Prop
  | start : Visits text (ofText text)
  | next {l : Lexer} : Visits text l → Visits text l.next.2

/-- The two ways to read from a session. -/
inductive Session.Call
  | expression
  | complete

def Session.call (s : Session) : Call → Except ParseError Expr × Session
  | .expression => s.expression
  | .complete => s.complete

/-- The sessions that a text leads to, whatever is read from them and whatever fails. -/
inductive Session.Over (text : List Char) : Session → Prop
  | new {l : Lexer} {s : Session} : Lexer.Visits text l → ofLexer text l = .ok s → Over text s
  | call {s : Session} (c : Call) : Over text s → Over text (s.call c).2

/-- What a call can do: it reads a tree, it reads a tree that is not the whole text, or it stops. -/
inductive Session.Step (s : Session) : Call → Except ParseError Expr → Session → Prop
  | read {c : Call} {ts rest : List Token} {e : Expr} : s.rest = ts ++ rest →
      Within maxDepth s.room .expression ts e → Step s c (.ok e) { s with rest := rest }
  | trailing {ts rest : List Token} {e : Expr} : s.rest = ts ++ rest →
      Within maxDepth s.room .expression ts e →
      Step s .complete (.error (Stop.toError s.source s.tokens ⟨.expected .endOfInput, rest, 0⟩))
        { s with rest := rest }
  | stopped {c : Call} {stop : Stop} : stop.In s.room s.rest →
      Step s c (.error (stop.toError s.source s.tokens))
        { s with rest := stop.rest, room := s.room - stop.opened }

theorem Session.steps (s : Session) (c : Call) : s.Step c (s.call c).1 (s.call c).2 := by
  have hlimit : 0 < maxDepth := by decide
  have hstops : Reader.Stops s.room (Reader.expression maxDepth s.room) :=
    Reader.expression_stops hlimit
  have hsound : Reader.Sound maxDepth s.room .expression (Reader.expression maxDepth s.room) :=
    Reader.expression_sound hlimit
  cases hread : Reader.expression maxDepth s.room s.rest with
  | error stop =>
    have hexpression : s.expression = (.error (stop.toError s.source s.tokens),
        { s with rest := stop.rest, room := s.room - stop.opened }) := by
      simp [expression, hread]
    have hcall : s.call c = s.expression := by
      cases c with
      | expression => rfl
      | complete => simp [call, complete, hexpression]
    rw [hcall, hexpression]
    exact .stopped (hstops _ _ hread)
  | ok result =>
    obtain ⟨e, rest⟩ := result
    obtain ⟨ts, hts, hwithin⟩ := hsound _ _ _ hread
    have hexpression : s.expression = (.ok e, { s with rest := rest }) := by
      simp [expression, hread]
    cases c with
    | expression =>
      simp only [call, hexpression]
      exact .read hts hwithin
    | complete =>
      simp only [call, complete, hexpression]
      split
      next => exact .read hts hwithin
      next => exact .trailing hts hwithin

/-- What every call keeps. -/
structure Session.Kept (s : Session) : Prop where
  rest_suffix : s.rest <:+ s.tokens
  room_le : s.room ≤ maxDepth

namespace Session.Step

variable {s t : Session} {c : Call} {answer : Except ParseError Expr}

theorem source_eq (h : s.Step c answer t) : t.source = s.source := by
  cases h <;> rfl

theorem tokens_eq (h : s.Step c answer t) : t.tokens = s.tokens := by
  cases h <;> rfl

theorem rest_suffix (h : s.Step c answer t) : t.rest <:+ s.rest := by
  cases h with
  | read hts _ => exact hts ▸ List.suffix_append _ _
  | trailing hts _ => exact hts ▸ List.suffix_append _ _
  | stopped hin => exact hin.rest_suffix

theorem room_le (h : s.Step c answer t) : t.room ≤ s.room := by
  cases h with
  | read _ _ => exact Nat.le_refl _
  | trailing _ _ => exact Nat.le_refl _
  | stopped _ => exact Nat.sub_le _ _

theorem kept (h : s.Step c answer t) (hs : s.Kept) : t.Kept where
  rest_suffix := by
    rw [h.tokens_eq]
    exact h.rest_suffix.trans hs.rest_suffix
  room_le := Nat.le_trans h.room_le hs.room_le

end Session.Step

theorem Session.kept_ofTokens (source : List Char) (tokens : List Token) :
    (ofTokens source tokens).Kept :=
  ⟨List.suffix_refl _, Nat.le_refl _⟩

/-- A session over a text has the tokens of a lexer that the text leads to. -/
theorem Session.Over.tokens {text : List Char} {s : Session} (h : Over text s) :
    s.source = text ∧ s.Kept ∧ ∃ l, Lexer.Visits text l ∧ l.tokens = .ok s.tokens := by
  induction h with
  | @new l s hl hs =>
    obtain ⟨tokens, htokens, hs⟩ := bind_eq_ok.mp hs
    obtain rfl := pure_eq_ok.mp hs
    exact ⟨rfl, kept_ofTokens text tokens, l, hl, htokens⟩
  | @call s c _ ih =>
    obtain ⟨hsource, hkept, l, hl, htokens⟩ := ih
    have hstep := s.steps c
    exact ⟨hstep.source_eq.trans hsource, hstep.kept hkept, l, hl, hstep.tokens_eq ▸ htokens⟩

theorem Session.over_ofTokens {text : List Char} {tokens : List Token}
    (h : tokenize text = .ok tokens) : Over text (ofTokens text tokens) := by
  have hnew : ofLexer text (.ofText text) = .ok (ofTokens text tokens) :=
    bind_eq_ok.mpr ⟨tokens, h, rfl⟩
  exact .new .start hnew

end RowFilter
