import RowFilter.Proofs.Reparsed

namespace RowFilter

def TokenKind.isConnective : TokenKind → Bool
  | keyword .and => true
  | keyword .or => true
  | _ => false

/-- The kinds of tokens that stand between operands. -/
def TokenKind.isOperator (kind : TokenKind) : Bool :=
  kind.isConnective || (Reader.testOfKind? kind).isSome

namespace Grammar

/-- No token of these kinds stands outside the parentheses. -/
def TopFree (key : TokenKind → Bool) (ts : List Token) : Prop :=
  ∀ us t vs, ts = us ++ t :: vs → depth us = 0 → key t.kind = false

variable {key : TokenKind → Bool} {ts us : List Token}

theorem TopFree.connective (h : TopFree TokenKind.isOperator ts) :
    TopFree TokenKind.isConnective ts := by
  intro us t vs hts hdepth
  have hoperator := h us t vs hts hdepth
  exact (Bool.or_eq_false_iff.mp hoperator).1

theorem topFree_of_forall (h : ∀ t ∈ ts, key t.kind = false) : TopFree key ts := by
  rintro us t vs rfl _
  exact h t (by simp)

theorem TopFree.append (hzero : depth ts = 0) (hts : TopFree key ts) (hus : TopFree key us) :
    TopFree key (ts ++ us) := by
  intro vs t ws heq hdepth
  rcases List.append_eq_append_iff.mp heq with ⟨xs, rfl, hxs⟩ | ⟨xs, rfl, hxs⟩
  · rw [depth_append] at hdepth
    exact hus xs t ws hxs (by omega)
  · cases xs with
    | nil =>
      rw [List.nil_append] at hxs
      exact hus [] t ws hxs.symm rfl
    | cons x xs =>
      obtain ⟨rfl, _⟩ := List.cons.inj hxs
      exact hts vs t xs rfl hdepth

/-- A part of what stands between a pair of parentheses leaves the pair open. -/
theorem depth_pos_of_prefix {t u x : Token} {vs ws : List Token} (ht : t.kind = .mark .openParen)
    (hts : Balanced ts) (h : t :: ts ++ [u] = t :: vs ++ x :: ws) : 0 < depth (t :: vs) := by
  have hrest : ts ++ [u] = vs ++ x :: ws := (List.cons.inj h).2
  have hlength := congrArg List.length hrest
  simp only [List.length_append, List.length_cons, List.length_nil] at hlength
  have hpre : vs <+: ts ++ [u] := ⟨x :: ws, hrest.symm⟩
  have hinside : vs <+: ts :=
    List.prefix_of_prefix_length_le hpre (List.prefix_append ts [u]) (by omega)
  have hnonneg := hts.nonneg vs hinside
  rw [depth_cons, opens_of_openParen ht]
  omega

theorem topFree_parens {t u : Token} (ht : t.kind = .mark .openParen)
    (hkey : key (.mark .openParen) = false) (hts : Balanced ts) : TopFree key (t :: ts ++ [u]) := by
  intro vs x ws heq hdepth
  cases vs with
  | nil =>
    obtain ⟨rfl, _⟩ := List.cons.inj heq
    rwa [ht]
  | cons v vs =>
    obtain ⟨rfl, _⟩ := List.cons.inj heq
    have hpos := depth_pos_of_prefix ht hts heq
    omega

/-- A token that is the only one of its kinds outside the parentheses splits the others. -/
theorem TopFree.split {a b c d : List Token} {k l : Token} (ha : TopFree key a)
    (hb : TopFree key b) (hl : key l.kind = true) (hflat : opens k = 0) (hdepth : depth a = 0)
    (hother : depth c = 0) (h : a ++ k :: b = c ++ l :: d) : a = c ∧ b = d := by
  rcases List.append_eq_append_iff.mp h with ⟨xs, rfl, hxs⟩ | ⟨xs, rfl, hxs⟩
  · cases xs with
    | nil => exact ⟨by simp, (List.cons.inj hxs).2⟩
    | cons x xs =>
      obtain ⟨rfl, hb'⟩ := List.cons.inj hxs
      simp only [depth_append, depth_cons] at hother
      have hfree := hb xs l d hb' (by omega)
      rw [hl] at hfree
      cases hfree
  · cases xs with
    | nil => exact ⟨by simp, (List.cons.inj hxs).2.symm⟩
    | cons x xs =>
      obtain ⟨rfl, _⟩ := List.cons.inj hxs
      have hfree := ha c l xs rfl hother
      rw [hl] at hfree
      cases hfree

end Grammar

theorem BinaryOp.words_ordinary {op : BinaryOp} (h : op.isConnective = false) :
    ∀ t ∈ op.words, t.kind.isConnective = false := by
  cases op with
  | comparison c => cases c <;> decide
  | connective c => cases h
  | like negated => cases negated <;> decide
  | among negated => cases negated <;> decide

namespace Expr

open Grammar

/-- An operand that stands in parentheses if it is binary has no operator outside them. -/
theorem topFree_operator (e : Expr) :
    TopFree TokenKind.isOperator (groupedWords e.isBinary e.words) := by
  induction e with
  | property name => exact topFree_of_forall (List.forall_mem_singleton.mpr rfl)
  | literal l => exact topFree_of_forall (List.forall_mem_singleton.mpr (by cases l <;> rfl))
  | array ls =>
    exact topFree_parens rfl rfl (balanced_of_flat (Literal.flat_listWords ls))
  | unary op e ih =>
    have hzero := (balanced_grouped e.isBinary e.balanced_words).depth_eq
    cases op with
    | not =>
      have hnot : TopFree TokenKind.isOperator [Keyword.not.word] := topFree_of_forall (by decide)
      exact hnot.append rfl ih
    | isNull => exact ih.append hzero (topFree_of_forall (by decide))
    | isNotNull => exact ih.append hzero (topFree_of_forall (by decide))
  | binary op l r _ _ => exact topFree_parens rfl rfl (balanced_words _)

/-- An operand that stands in parentheses if it has a connective at the top has none outside
them. -/
theorem topFree_connective (e : Expr) :
    TopFree TokenKind.isConnective (groupedWords e.isConnective e.words) := by
  cases e with
  | binary op l r =>
    cases hop : op.isConnective with
    | true =>
      simp only [isConnective, hop]
      exact topFree_parens rfl rfl (balanced_words _)
    | false =>
      have hwords := topFree_of_forall (BinaryOp.words_ordinary hop)
      have hl := l.topFree_operator.connective
      have hr := r.topFree_operator.connective
      have hleft := balanced_grouped l.isBinary l.balanced_words
      have hboth := (hleft.append (balanced_of_flat op.flat_words)).depth_eq
      simp only [isConnective, hop, words_of_not_connective hop]
      exact (hl.append hleft.depth_eq hwords).append hboth hr
  | property name => exact (topFree_operator (property name)).connective
  | literal l => exact (topFree_operator (literal l)).connective
  | array ls => exact (topFree_operator (array ls)).connective
  | unary op e => exact (topFree_operator (unary op e)).connective

end Expr

end RowFilter
