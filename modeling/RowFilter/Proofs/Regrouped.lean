import RowFilter.Proofs.Legible
import RowFilter.Proofs.TopLevel

namespace RowFilter

/-- A literal that SQL writes as the source does. -/
def Literal.Verbatim : Literal → Prop
  | boolean _ => False
  | string s => '\'' ∉ s.toList
  | _ => True

/-- A tree without boolean literals, arrays and strings with a quote inside. -/
def Expr.Verbatim : Expr → Prop
  | property _ => True
  | literal l => l.Verbatim
  | array _ => False
  | unary _ e => e.Verbatim
  | binary _ l r => l.Verbatim ∧ r.Verbatim

namespace Grammar

/-- Tokens in parentheses that derive a tree. -/
def Enclosed (ts : List Token) (e : Expr) : Prop :=
  ∃ t us u, ts = t :: us ++ [u] ∧ t.kind = .mark .openParen ∧ Derives .expression us e

/-- The last step of a derivation that ends in no parentheses. -/
def Direct (ts : List Token) : Expr → Prop
  | .unary .not e => ∃ t us, ts = t :: us ∧ Derives .factor us e
  | .unary .isNull e => ∃ us t u, ts = us ++ [t, u] ∧ Derives .negation us e
  | .unary .isNotNull e => ∃ us t u v, ts = us ++ [t, u, v] ∧ Derives .negation us e
  | .binary (.connective c) l r => ∃ us t vs, ts = us ++ [t] ++ vs ∧
      t.kind = .keyword c.keyword ∧ Derives .expression us l ∧ Derives .comparison vs r
  | .binary op l r => ∃ us os vs, ts = us ++ os ++ vs ∧ Test os op ∧
      Derives .comparison us l ∧ Derives .operand vs r
  | _ => True

theorem Derives.enclosed_or_direct {layer : Layer} {ts : List Token} {e : Expr}
    (h : Derives layer ts e) : Enclosed ts e ∨ Direct ts e := by
  induction h with
  | item h => cases h <;> exact .inr trivial
  | parens ht hts _ _ => exact .inl ⟨_, _, _, rfl, ht, hts⟩
  | factor _ ih => exact ih
  | not _ hts _ => exact .inr ⟨_, _, rfl, hts⟩
  | negation _ ih => exact ih
  | isNull hts _ _ _ => exact .inr ⟨_, _, _, rfl, hts⟩
  | isNotNull hts _ _ _ _ => exact .inr ⟨_, _, _, _, rfl, hts⟩
  | operand _ ih => exact ih
  | @test ts os us l r op hl ho hr _ _ =>
    cases op with
    | connective c => cases ho
    | _ => exact .inr ⟨ts, os, us, rfl, ho, hl, hr⟩
  | comparison _ ih => exact ih
  | connective hl ht hr _ _ => exact .inr ⟨_, _, _, rfl, ht, hl, hr⟩

theorem Derives.ne_nil {layer : Layer} {ts : List Token} {e : Expr} (h : Derives layer ts e) :
    ts ≠ [] := by
  induction h with
  | item h => cases h <;> simp
  | factor _ ih => exact ih
  | negation _ ih => exact ih
  | operand _ ih => exact ih
  | comparison _ ih => exact ih
  | test _ _ _ ih _ => simp [ih]
  | _ => simp

/-- A factor with an operator at the top stands in parentheses. -/
theorem Derives.enclosed_of_factor {ts : List Token} {op : UnaryOp} {e : Expr}
    (h : Derives .factor ts (.unary op e)) : Enclosed ts (.unary op e) := by
  cases h with
  | item h => cases h
  | parens ht hts _ => exact ⟨_, _, _, rfl, ht, hts⟩

theorem Derives.enclosed_of_negation {ts : List Token} {op : UnaryOp} {e : Expr} (hop : op ≠ .not)
    (h : Derives .negation ts (.unary op e)) : Enclosed ts (.unary op e) := by
  cases h with
  | factor h => exact h.enclosed_of_factor
  | not _ _ => exact absurd rfl hop

/-- Tokens of which a part closes all parentheses that it opens are not enclosed as a whole. -/
theorem not_enclosed_append {a b : List Token} {e : Expr} (ha : a ≠ []) (hb : b ≠ [])
    (hzero : depth a = 0) : ¬ Enclosed (a ++ b) e := by
  rintro ⟨t, us, u, heq, ht, hus⟩
  obtain ⟨x, xs, rfl⟩ := List.exists_cons_of_ne_nil ha
  obtain ⟨y, ys, rfl⟩ := List.exists_cons_of_ne_nil hb
  obtain ⟨rfl, _⟩ := List.cons.inj heq
  have hpos := depth_pos_of_prefix ht hus.balanced heq.symm
  omega

theorem Direct.test {ts : List Token} {op : BinaryOp} {l r : Expr} (hop : op.isConnective = false)
    (h : Direct ts (.binary op l r)) : ∃ us os vs, ts = us ++ os ++ vs ∧ Test os op ∧
      Derives .comparison us l ∧ Derives .operand vs r := by
  cases op with
  | connective c => cases hop
  | _ => exact h

theorem Test.operator {os : List Token} {op : BinaryOp} (h : Test os op) :
    ∃ front k, os = front ++ [k] ∧ k.kind.isOperator = true ∧ opens k = 0 ∧
      (∀ t ∈ front, t.kind.isOperator = false) ∧ (∀ t ∈ front, opens t = 0) ∧
      front.length + 1 = op.words.length := by
  have hflat := h.flat
  cases h with
  | @comparison t c ht =>
    refine ⟨[], t, rfl, ?_, hflat t (by simp), by simp, by simp, rfl⟩
    rw [ht]
    cases c <;> rfl
  | @like t ht => exact ⟨[], t, rfl, by rw [ht]; rfl, hflat t (by simp), by simp, by simp, rfl⟩
  | @among t ht => exact ⟨[], t, rfl, by rw [ht]; rfl, hflat t (by simp), by simp, by simp, rfl⟩
  | @notLike t u ht hu =>
    have hnot : ∀ v ∈ [t], v.kind.isOperator = false :=
      List.forall_mem_singleton.mpr (by rw [ht]; rfl)
    exact ⟨[t], u, rfl, by rw [hu]; rfl, hflat u (by simp), hnot,
      fun v hv => hflat v (by simp_all), rfl⟩
  | @notAmong t u ht hu =>
    have hnot : ∀ v ∈ [t], v.kind.isOperator = false :=
      List.forall_mem_singleton.mpr (by rw [ht]; rfl)
    exact ⟨[t], u, rfl, by rw [hu]; rfl, hflat u (by simp), hnot,
      fun v hv => hflat v (by simp_all), rfl⟩

/-- A direct step over two operands has the left one in front, with all its parentheses closed. -/
theorem Direct.left {ts : List Token} {op : BinaryOp} {l r : Expr}
    (h : Direct ts (.binary op l r)) : ∃ us x ws, ts = us ++ x :: ws ∧ us ≠ [] ∧ depth us = 0 := by
  cases hop : op.isConnective with
  | true =>
    cases op with
    | connective c =>
      obtain ⟨us, t, vs, rfl, _, hl, _⟩ := h
      exact ⟨us, t, vs, by simp, hl.ne_nil, hl.depth_eq⟩
    | _ => cases hop
  | false =>
    obtain ⟨us, os, vs, rfl, _, hl, hr⟩ := h.test hop
    have hne : os ++ vs ≠ [] := List.append_ne_nil_of_right_ne_nil os hr.ne_nil
    obtain ⟨x, xs, hx⟩ := List.exists_cons_of_ne_nil hne
    exact ⟨us, x, xs, by rw [List.append_assoc, hx], hl.ne_nil, hl.depth_eq⟩

end Grammar

open Grammar

namespace Expr

theorem grouped_ne_nil {ws : List Token} (group : Bool) (h : ws ≠ []) :
    groupedWords group ws ≠ [] := by
  cases group with
  | false => exact h
  | true => simp [groupedWords]

theorem words_ne_nil (e : Expr) : e.words ≠ [] := by
  induction e with
  | unary op e ih =>
    have hgrouped := grouped_ne_nil e.isBinary ih
    cases op <;> simp [words]
  | binary op l r ihl _ =>
    have hgrouped := grouped_ne_nil (needsGroup op l) ihl
    simp [words, hgrouped]
  | _ => simp [words]

/-- What is written for an operator over operands is not enclosed as a whole. -/
theorem not_enclosed_unary (op : UnaryOp) (e f : Expr) : ¬ Enclosed (unary op e).words f := by
  have hgrouped := grouped_ne_nil e.isBinary e.words_ne_nil
  have hzero := (balanced_grouped e.isBinary e.balanced_words).depth_eq
  cases op with
  | not =>
    have hflat : depth [Keyword.not.word] = 0 := rfl
    exact not_enclosed_append (by simp) hgrouped hflat
  | isNull => exact not_enclosed_append hgrouped (by simp) hzero
  | isNotNull => exact not_enclosed_append hgrouped (by simp) hzero

theorem not_enclosed_binary (op : BinaryOp) (l r f : Expr) :
    ¬ Enclosed (binary op l r).words f := by
  have hleft := grouped_ne_nil (needsGroup op l) l.words_ne_nil
  have hright := grouped_ne_nil (needsGroup op r) r.words_ne_nil
  have hbalanced := balanced_grouped (needsGroup op l) l.balanced_words
  have hzero := (hbalanced.append (balanced_of_flat op.flat_words)).depth_eq
  exact not_enclosed_append (by simp [hleft]) hright hzero

/-- A derivation of what is written for an operand goes through its parentheses. -/
theorem derives_of_grouped {layer : Layer} {e : Expr} {group : Bool}
    (h : Derives layer (groupedWords group e.words) e) (hgroup : group = true → e.isBinary = true) :
    ∃ below, Derives below e.words e := by
  cases group with
  | false => exact ⟨layer, h⟩
  | true =>
    cases e with
    | binary op l r =>
      rcases h.enclosed_or_direct with ⟨t, us, u, heq, _, hus⟩ | hdirect
      · have hrest := (List.cons.inj heq).2
        obtain ⟨rfl, _⟩ := List.append_inj' hrest rfl
        exact ⟨_, hus⟩
      · obtain ⟨us, x, ws, heq, hne, hzero⟩ := hdirect.left
        obtain ⟨y, ys, rfl⟩ := List.exists_cons_of_ne_nil hne
        obtain ⟨rfl, _⟩ := List.cons.inj heq
        have hpos := depth_pos_of_prefix rfl (balanced_words _) heq
        omega
    | _ => cases hgroup rfl

theorem lacksArray_of_among {op : BinaryOp} {r : Expr} (hr : r.Verbatim)
    (h : lacksArray op r = false) : op.isAmong = false := by
  cases op with
  | among negated =>
    cases r with
    | array ls => exact hr.elim
    | _ => cases h
  | _ => rfl

theorem nullTest_clash_free {op : UnaryOp} {e : Expr} (hop : op ≠ .not)
    (h : Derives .negation (groupedWords e.isBinary e.words) e) : op.clashes e = false := by
  cases e with
  | unary inner e =>
    by_cases hinner : inner = .not
    · subst hinner
      cases op with
      | not => exact absurd rfl hop
      | isNull => rfl
      | isNotNull => rfl
    · exact absurd (h.enclosed_of_negation hinner) (not_enclosed_unary inner e _)
  | _ => cases op <;> rfl

/-- The operands of a test are found where they are written. -/
theorem derives_of_test {op : BinaryOp} {l r : Expr} (hop : op.isConnective = false)
    (h : Direct (binary op l r).words (.binary op l r)) :
    Derives .comparison (groupedWords l.isBinary l.words) l ∧
      Derives .operand (groupedWords r.isBinary r.words) r := by
  obtain ⟨us, os, vs, heq, hos, hl, hr⟩ := h.test hop
  obtain ⟨front, k, hwords, _, hk, hfree, hflat, hlength⟩ := (BinaryOp.test_words hop).operator
  obtain ⟨front', k', rfl, hkey, _, _, hflat', hlength'⟩ := hos.operator
  have hzero := (balanced_grouped l.isBinary l.balanced_words).depth_eq
  have hleft : TopFree TokenKind.isOperator (groupedWords l.isBinary l.words ++ front) :=
    l.topFree_operator.append hzero (topFree_of_forall hfree)
  have hdepth : depth (groupedWords l.isBinary l.words ++ front) = 0 := by
    simp [hzero, depth_of_flat hflat]
  have hother : depth (us ++ front') = 0 := by simp [hl.depth_eq, depth_of_flat hflat']
  rw [words_of_not_connective hop, hwords] at heq
  have hsplit : (groupedWords l.isBinary l.words ++ front) ++ k :: groupedWords r.isBinary r.words =
      (us ++ front') ++ k' :: vs := by simpa using heq
  obtain ⟨hfront, rfl⟩ := hleft.split r.topFree_operator hkey hk hdepth hother hsplit
  obtain ⟨rfl, _⟩ := List.append_inj' hfront (by omega)
  exact ⟨hl, hr⟩

theorem derives_of_connective {c : Connective} {l r : Expr}
    (h : Direct (binary (.connective c) l r).words (.binary (.connective c) l r)) :
    Derives .expression (groupedWords l.isConnective l.words) l ∧
      Derives .comparison (groupedWords r.isConnective r.words) r := by
  obtain ⟨us, t, vs, heq, ht, hl, hr⟩ := h
  have hkey : t.kind.isConnective = true := by
    rw [ht]
    cases c <;> rfl
  have hzero := (balanced_grouped l.isConnective l.balanced_words).depth_eq
  rw [words_connective] at heq
  have hsplit : groupedWords l.isConnective l.words ++ c.keyword.word ::
      groupedWords r.isConnective r.words = us ++ t :: vs := by simpa using heq
  obtain ⟨rfl, rfl⟩ := l.topFree_connective.split r.topFree_connective hkey rfl hzero hl.depth_eq
    hsplit
  exact ⟨hl, hr⟩

/-- A tree whose words derive it is faithful. -/
theorem faithful_of_derives {e : Expr} {text : List Char} (hverbatim : e.Verbatim)
    (htext : e.plainSql = .ok text) {layer : Layer} (h : Derives layer e.words e) : e.Faithful := by
  induction e generalizing layer text with
  | property name => trivial
  | literal l => trivial
  | array ls => exact hverbatim.elim
  | unary op e ih =>
    obtain ⟨inner, hinner, _⟩ := plainSql_unary.mp htext
    have hdirect := h.enclosed_or_direct.resolve_left (not_enclosed_unary op e _)
    cases op with
    | not =>
      obtain ⟨t, us, heq, hus⟩ := hdirect
      obtain ⟨_, rfl⟩ := List.cons.inj heq
      obtain ⟨below, hbelow⟩ := derives_of_grouped hus id
      refine ⟨?_, ih hverbatim hinner hbelow⟩
      cases e with
      | unary op e => exact absurd hus.enclosed_of_factor (not_enclosed_unary op e _)
      | _ => rfl
    | isNull =>
      obtain ⟨us, t, u, heq, hus⟩ := hdirect
      obtain ⟨rfl, _⟩ := List.append_inj' heq rfl
      obtain ⟨below, hbelow⟩ := derives_of_grouped hus id
      exact ⟨nullTest_clash_free (by decide) hus, ih hverbatim hinner hbelow⟩
    | isNotNull =>
      obtain ⟨us, t, u, v, heq, hus⟩ := hdirect
      obtain ⟨rfl, _⟩ := List.append_inj' heq rfl
      obtain ⟨below, hbelow⟩ := derives_of_grouped hus id
      exact ⟨nullTest_clash_free (by decide) hus, ih hverbatim hinner hbelow⟩
  | binary op l r ihl ihr =>
    obtain ⟨harray, left, right, hleft, hright, _⟩ := plainSql_binary.mp htext
    have hdirect := h.enclosed_or_direct.resolve_left (not_enclosed_binary op l r _)
    have hamong := lacksArray_of_among hverbatim.2 harray
    cases hop : op.isConnective with
    | false =>
      obtain ⟨hl, hr⟩ := derives_of_test hop hdirect
      obtain ⟨_, hbelow⟩ := derives_of_grouped hl id
      obtain ⟨_, hbeside⟩ := derives_of_grouped hr id
      exact ⟨hamong, ihl hverbatim.1 hleft hbelow, ihr hverbatim.2 hright hbeside⟩
    | true =>
      cases op with
      | connective c =>
        obtain ⟨hl, hr⟩ := derives_of_connective hdirect
        obtain ⟨_, hbelow⟩ := derives_of_grouped hl isBinary_of_isConnective
        obtain ⟨_, hbeside⟩ := derives_of_grouped hr isBinary_of_isConnective
        exact ⟨hamong, ihl hverbatim.1 hleft hbelow, ihr hverbatim.2 hright hbeside⟩
      | _ => cases hop

end Expr

theorem Expr.Legible.plain {e : Expr} (h : e.Legible) (hverbatim : e.Verbatim) : e.Plain := by
  induction e with
  | property name => exact h
  | literal l =>
    cases l with
    | null => trivial
    | boolean b => exact hverbatim.elim
    | number d => exact h
    | string s => exact hverbatim
  | array ls => exact hverbatim.elim
  | unary op e ih => exact ih h hverbatim
  | binary op l r ihl ihr => exact ⟨ihl h.1 hverbatim.1, ihr h.2 hverbatim.2⟩

theorem plain_of_parseWhere {text : List Char} {e : Expr} (h : parseWhere text = .ok e)
    (hverbatim : e.Verbatim) : e.Plain :=
  (legible_of_parseWhere h).plain hverbatim

namespace Expr

theorem spellBits_of_verbatim {e : Expr} (h : e.Verbatim) : e.spellBits = e := by
  induction e with
  | property name => rfl
  | literal l =>
    cases l with
    | boolean b => exact h.elim
    | _ => rfl
  | array ls => exact h.elim
  | unary op e ih => simp [spellBits, ih h]
  | binary op l r ihl ihr => simp [spellBits, ihl h.1, ihr h.2]

/-- SQL without respelled literals is read back as the same tree if and only if the tree has no
membership test and no unary operator that clashes with its operand. -/
theorem plainSql_keeps_iff_faithful {text : List Char} {e : Expr} (h : parseWhere text = .ok e)
    (hverbatim : e.Verbatim) :
    (∃ sql, e.plainSql = .ok sql ∧ parseWhere sql = .ok e) ↔ e.Faithful := by
  have hplain := plain_of_parseWhere h hverbatim
  have hheight : e.height ≤ maxDepth := by
    obtain ⟨ts, _, hw⟩ := parseWhere_eq_ok.mp h
    exact hw.height_le
  constructor
  · rintro ⟨sql, hsql, hread⟩
    have hderives := (parseWhere_plainSql hplain hsql hheight rfl).mp hread
    exact faithful_of_derives hverbatim hsql hderives
  · intro hfaithful
    obtain ⟨sql, hsql⟩ := plainSql_of_faithful hfaithful
    have hderives := expression_of_words hplain hfaithful
    rw [spellBits_of_verbatim hverbatim] at hderives
    exact ⟨sql, hsql, (parseWhere_plainSql hplain hsql hheight rfl).mpr hderives⟩

theorem plainSql_keeps_iff_faithful_negation :
    let e : Expr := .unary .isNull (.unary .not (.property "A"))
    parseWhere "not A is null".toList = .ok e ∧ e.Verbatim ∧
      ((∃ sql, e.plainSql = .ok sql ∧ parseWhere sql = .ok e) ↔ e.Faithful) := by
  intro e
  have hread : parseWhere "not A is null".toList = .ok e := rfl
  have hverbatim : e.Verbatim := trivial
  exact ⟨hread, hverbatim, plainSql_keeps_iff_faithful hread hverbatim⟩

/-- The parentheses around a null test under `not` are lost, and the text is read as a null test
of a negation. -/
theorem plainSql_regroups_nullTest :
    let e : Expr := .unary .not (.unary .isNull (.property "A"))
    let other : Expr := .unary .isNull (.unary .not (.property "A"))
    parseWhere "not (A is null)".toList = .ok e ∧ e.Verbatim ∧
      e.plainSql = .ok "not A is null".toList ∧
      parseWhere "not A is null".toList = .ok other ∧ other ≠ e :=
  ⟨rfl, trivial, rfl, rfl, by decide⟩

end Expr

end RowFilter
