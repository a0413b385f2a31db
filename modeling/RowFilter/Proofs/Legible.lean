import RowFilter.Proofs.Accepted
import RowFilter.Proofs.Written

namespace RowFilter

/-- A literal as it can be read: its numbers have no sign. -/
def Literal.Legible : Literal → Prop
  | number d => 0 ≤ d.coefficient
  | _ => True

/-- A tree of names and literals that can be read, without empty arrays. -/
def Expr.Legible : Expr → Prop
  | property name => IsName name.toList
  | literal l => l.Legible
  | array ls => ls ≠ [] ∧ ∀ l ∈ ls, l.Legible
  | unary _ e => e.Legible
  | binary _ l r => l.Legible ∧ r.Legible

namespace Grammar

variable {t : Token} {ts : List Token} {l : Literal} {ls : List Literal} {e : Expr}

theorem IsLiteral.legible (h : IsLiteral t l) (ht : Lexeme t.kind t.text) : l.Legible := by
  cases h with
  | number hkind hd =>
    rw [hkind] at ht
    exact Decimal.nonneg_of_read? ht.numeral hd
  | _ => trivial

theorem Elements.legible (h : Elements ts ls) (hlexeme : ∀ t ∈ ts, Lexeme t.kind t.text) :
    ls ≠ [] ∧ ∀ l ∈ ls, l.Legible := by
  induction h with
  | one hl =>
    have hlegible := hl.legible (hlexeme _ (List.mem_singleton.mpr rfl))
    exact ⟨List.cons_ne_nil _ _, List.forall_mem_singleton.mpr hlegible⟩
  | more hl _ _ ih =>
    obtain ⟨ht, hrest⟩ := List.forall_mem_cons.mp hlexeme
    obtain ⟨_, hrest⟩ := List.forall_mem_cons.mp hrest
    exact ⟨List.cons_ne_nil _ _, List.forall_mem_cons.mpr ⟨hl.legible ht, (ih hrest).2⟩⟩

theorem Item.legible (h : Item ts e) (hlexeme : ∀ t ∈ ts, Lexeme t.kind t.text) :
    e.Legible := by
  cases h with
  | @property t ht =>
    have hname := hlexeme t (List.mem_singleton.mpr rfl)
    rw [ht] at hname
    simpa [Expr.Legible] using hname.isName
  | literal hl => exact hl.legible (hlexeme _ (List.mem_singleton.mpr rfl))
  | array _ hls _ => exact hls.legible fun t ht => hlexeme t (by simp [ht])

theorem Derives.legible {layer : Layer} (h : Derives layer ts e)
    (hlexeme : ∀ t ∈ ts, Lexeme t.kind t.text) : e.Legible := by
  induction h with
  | item h => exact h.legible hlexeme
  | parens _ _ _ ih => exact ih fun t ht => hlexeme t (by simp [ht])
  | factor _ ih => exact ih hlexeme
  | not _ _ ih => exact ih fun t ht => hlexeme t (by simp [ht])
  | negation _ ih => exact ih hlexeme
  | isNull _ _ _ ih => exact ih fun t ht => hlexeme t (by simp [ht])
  | isNotNull _ _ _ _ ih => exact ih fun t ht => hlexeme t (by simp [ht])
  | operand _ ih => exact ih hlexeme
  | test _ _ _ ihl ihr =>
    exact ⟨ihl fun t ht => hlexeme t (by simp [ht]), ihr fun t ht => hlexeme t (by simp [ht])⟩
  | comparison _ ih => exact ih hlexeme
  | connective _ _ _ ihl ihr =>
    exact ⟨ihl fun t ht => hlexeme t (by simp [ht]), ihr fun t ht => hlexeme t (by simp [ht])⟩

end Grammar

theorem legible_of_parseWhere {text : List Char} {e : Expr} (h : parseWhere text = .ok e) :
    e.Legible := by
  obtain ⟨ts, hts, hw⟩ := parseWhere_eq_ok.mp h
  exact hw.derives.legible (tokenize_eq_ok.mp hts).lexeme

end RowFilter
