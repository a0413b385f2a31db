import RowFilter.Proofs.TopLevel

namespace RowFilter

namespace Grammar

/-- The tokens between a pair of parentheses that belong together. -/
def Inside (ts us : List Token) : Prop :=
  ∃ before t u behind, ts = before ++ t :: us ++ u :: behind ∧ t.kind = .mark .openParen ∧
    Balanced us ∧ u.kind = .mark .closeParen

/-- All the tokens, or those between a pair of parentheses. -/
def IsLevel (ts us : List Token) : Prop :=
  us = ts ∨ Inside ts us

/-- How many connectives stand at a depth of zero where the tokens begin at a depth of `d`. -/
def connectivesFrom (d : Int) : List Token → Nat
  | [] => 0
  | t :: ts =>
    (if d = 0 ∧ t.kind.isConnective = true then 1 else 0) + connectivesFrom (d + opens t) ts

/-- How many connectives stand outside the parentheses. -/
def levelConnectives (ts : List Token) : Nat :=
  connectivesFrom 0 ts

/-- There is at most one connective between any pair of parentheses, but for those in further
pairs. -/
def SparseInside (ts : List Token) : Prop :=
  ∀ us, Inside ts us → levelConnectives us ≤ 1

/-- There is at most one connective on each level. -/
def Sparse (ts : List Token) : Prop :=
  ∀ us, IsLevel ts us → levelConnectives us ≤ 1

variable {d : Int} {t u : Token} {ts us vs : List Token}

theorem connectivesFrom_append : connectivesFrom d (ts ++ us) =
    connectivesFrom d ts + connectivesFrom (d + depth ts) us := by
  induction ts generalizing d with
  | nil => simp [connectivesFrom]
  | cons t ts ih =>
    rw [List.cons_append, connectivesFrom, ih, connectivesFrom, depth_cons, Int.add_assoc]
    omega

theorem levelConnectives_append (h : depth ts = 0) (us : List Token) :
    levelConnectives (ts ++ us) = levelConnectives ts + levelConnectives us := by
  simp only [levelConnectives, connectivesFrom_append, h, Int.add_zero]

theorem connectivesFrom_eq_zero : connectivesFrom d ts = 0 ↔
    ∀ us t vs, ts = us ++ t :: vs → d + depth us = 0 → t.kind.isConnective = false := by
  induction ts generalizing d with
  | nil => simp [connectivesFrom]
  | cons t ts ih =>
    have hhead : (if d = 0 ∧ t.kind.isConnective = true then 1 else 0) = 0 ↔
        (d = 0 → t.kind.isConnective = false) := by
      split <;> simp_all
    rw [connectivesFrom, Nat.add_eq_zero_iff, ih, hhead]
    constructor
    · rintro ⟨hfirst, hrest⟩ us v vs heq hdepth
      cases us with
      | nil =>
        obtain ⟨rfl, _⟩ := List.cons.inj heq
        exact hfirst (by simpa using hdepth)
      | cons x xs =>
        obtain ⟨rfl, hrests⟩ := List.cons.inj heq
        rw [depth_cons] at hdepth
        exact hrest xs v vs hrests (by omega)
    · intro h
      refine ⟨fun hd => h [] t ts rfl (by simpa using hd), fun us v vs heq hdepth => ?_⟩
      refine h (t :: us) v vs (congrArg _ heq) ?_
      rw [depth_cons]
      omega

theorem levelConnectives_eq_zero :
    levelConnectives ts = 0 ↔ TopFree TokenKind.isConnective ts := by
  simp only [levelConnectives, connectivesFrom_eq_zero, Int.zero_add, TopFree]

theorem TopFree.levelConnectives_le (h : TopFree TokenKind.isConnective ts) :
    levelConnectives ts ≤ 1 := by
  rw [levelConnectives_eq_zero.mpr h]
  exact Nat.zero_le 1

theorem levelConnectives_connective (h : t.kind.isConnective = true) :
    levelConnectives [t] = 1 := by
  simp [levelConnectives, connectivesFrom, h]

theorem not_inside_of_flat (h : ∀ t ∈ ts, opens t = 0) : ¬ Inside ts us := by
  rintro ⟨before, t, u, behind, rfl, ht, _⟩
  have hflat := h t (by simp)
  rw [opens_of_openParen ht] at hflat
  cases hflat

theorem Inside.append_left (h : Inside ts vs) (us : List Token) : Inside (ts ++ us) vs := by
  obtain ⟨before, t, u, behind, rfl, ht, hvs, hu⟩ := h
  exact ⟨before, t, u, behind ++ us, by simp, ht, hvs, hu⟩

theorem Inside.append_right (h : Inside us vs) (ts : List Token) : Inside (ts ++ us) vs := by
  obtain ⟨before, t, u, behind, rfl, ht, hvs, hu⟩ := h
  exact ⟨ts ++ before, t, u, behind, by simp, ht, hvs, hu⟩

/-- A pair of parentheses does not reach over the end of what is balanced. -/
theorem inside_append (hts : Balanced ts) (h : Inside (ts ++ us) vs) :
    Inside ts vs ∨ Inside us vs := by
  obtain ⟨before, t, u, behind, heq, ht, hvs, hu⟩ := h
  have hopen := opens_of_openParen ht
  rw [List.append_assoc] at heq
  rcases List.append_eq_append_iff.mp heq with ⟨xs, rfl, rfl⟩ | ⟨xs, rfl, hxs⟩
  · exact .inr ⟨xs, t, u, behind, by simp, ht, hvs, hu⟩
  · cases xs with
    | nil => exact .inr ⟨[], t, u, behind, by simpa using hxs.symm, ht, hvs, hu⟩
    | cons x xs =>
      obtain ⟨rfl, hrest⟩ := List.cons.inj hxs
      have hbefore := hts.nonneg before (List.prefix_append _ _)
      have hzero := hts.depth_eq
      rw [depth_append, depth_cons, hopen] at hzero
      rcases List.append_eq_append_iff.mp hrest with ⟨ys, rfl, hys⟩ | ⟨ys, rfl, _⟩
      · cases ys with
        | nil =>
          have hinner := hvs.depth_eq
          rw [List.append_nil] at hzero
          omega
        | cons y ys =>
          obtain ⟨rfl, _⟩ := List.cons.inj hys
          exact .inl ⟨before, t, u, ys, by simp, ht, hvs, hu⟩
      · have hinner := hvs.nonneg xs (List.prefix_append _ _)
        omega

/-- The levels within a pair of parentheses are what stands there and its own levels. -/
theorem inside_parens {l m : Token} (hts : Balanced ts) (h : Inside (l :: ts ++ [m]) vs) :
    IsLevel ts vs := by
  obtain ⟨before, t, u, behind, heq, ht, hvs, hu⟩ := h
  have hzero := hts.depth_eq
  have hinner := hvs.depth_eq
  rcases List.eq_nil_or_concat behind with rfl | ⟨behind, x, rfl⟩
  · have hfront : l :: ts = before ++ t :: vs := (List.append_inj' heq rfl).1
    cases before with
    | nil => exact .inl (List.cons.inj hfront).2.symm
    | cons y before =>
      -- The parenthesis `t` would stay open.
      have hrest : ts = before ++ t :: vs := (List.cons.inj hfront).2
      have hbefore := hts.nonneg before ⟨t :: vs, hrest.symm⟩
      rw [hrest, depth_append, depth_cons, opens_of_openParen ht] at hzero
      omega
  · have hconcat : l :: ts ++ [m] = before ++ t :: vs ++ u :: behind ++ [x] := by simpa using heq
    have hfront : l :: ts = before ++ t :: vs ++ u :: behind := (List.append_inj' hconcat rfl).1
    cases before with
    | nil =>
      -- The parenthesis `u` would close one that is not open.
      have hrest : ts = vs ++ u :: behind := (List.cons.inj hfront).2
      have hclosed := hts.nonneg (vs ++ [u]) ⟨behind, by simp [hrest]⟩
      rw [depth_append, depth_cons, opens_of_closeParen hu, depth_nil] at hclosed
      omega
    | cons y before =>
      exact .inr ⟨before, t, u, behind, (List.cons.inj hfront).2, ht, hvs, hu⟩

theorem sparseInside_of_flat (h : ∀ t ∈ ts, opens t = 0) : SparseInside ts :=
  fun _ hus => absurd hus (not_inside_of_flat h)

theorem SparseInside.append (hbalanced : Balanced ts) (hts : SparseInside ts)
    (hus : SparseInside us) : SparseInside (ts ++ us) :=
  fun _ h => (inside_append hbalanced h).elim (hts _) (hus _)

theorem Sparse.parens {l m : Token} (hbalanced : Balanced ts) (h : Sparse ts) :
    SparseInside (l :: ts ++ [m]) :=
  fun us hus => h us (inside_parens hbalanced hus)

theorem SparseInside.sparse (h : SparseInside ts) (hts : levelConnectives ts ≤ 1) : Sparse ts := by
  rintro us (rfl | hus)
  · exact hts
  · exact h us hus

theorem Sparse.left (h : Sparse (ts ++ us)) : Sparse ts := by
  rintro vs (rfl | hvs)
  · have hall := h _ (.inl rfl)
    rw [levelConnectives, connectivesFrom_append] at hall
    exact Nat.le_of_add_right_le hall
  · exact h vs (.inr (hvs.append_left us))

theorem Sparse.right (h : Sparse (ts ++ us)) (hts : depth ts = 0) : Sparse us := by
  rintro vs (rfl | hvs)
  · have hall := h _ (.inl rfl)
    rw [levelConnectives_append hts] at hall
    omega
  · exact h vs (.inr (hvs.append_right ts))

theorem Sparse.tail (h : Sparse (t :: ts)) (ht : opens t = 0) : Sparse ts :=
  @Sparse.right [t] ts h (by simp [ht])

theorem Sparse.inner (h : Sparse (t :: ts ++ u :: us)) (ht : t.kind = .mark .openParen)
    (hts : Balanced ts) (hu : u.kind = .mark .closeParen) : Sparse ts := by
  rintro vs (rfl | hvs)
  · exact h _ (.inr ⟨[], t, u, us, rfl, ht, hts, hu⟩)
  · exact h vs (.inr ((hvs.append_right [t]).append_left (u :: us)))

theorem Sparse.behind_parens (h : Sparse (t :: ts ++ u :: us)) (ht : t.kind = .mark .openParen)
    (hts : Balanced ts) (hu : u.kind = .mark .closeParen) : Sparse us := by
  have hparens : Sparse (t :: ts ++ [u] ++ us) := by simpa using h
  exact hparens.right (hts.parens ht hu).depth_eq

/-- The only connective of a level has none on its sides. -/
theorem Sparse.sides (h : Sparse (ts ++ t :: us)) (hts : depth ts = 0)
    (ht : t.kind.isConnective = true) (hflat : opens t = 0) :
    TopFree TokenKind.isConnective ts ∧ TopFree TokenKind.isConnective us := by
  have hall := h _ (.inl rfl)
  have hone : levelConnectives ([t] ++ us) = levelConnectives [t] + levelConnectives us :=
    levelConnectives_append (by simp [hflat]) us
  rw [List.singleton_append, levelConnectives_connective ht] at hone
  rw [levelConnectives_append hts, hone] at hall
  exact ⟨levelConnectives_eq_zero.mp (by omega), levelConnectives_eq_zero.mp (by omega)⟩

end Grammar

theorem Literal.listWords_ordinary (ls : List Literal) :
    ∀ t ∈ listWords ls, t.kind.isConnective = false := by
  have hword : ∀ l : Literal, l.word.kind.isConnective = false := by
    intro l
    cases l <;> rfl
  induction ls with
  | nil => exact List.forall_mem_nil _
  | cons l ls ih =>
    cases ls with
    | nil => exact List.forall_mem_singleton.mpr (hword l)
    | cons m ls =>
      exact List.forall_mem_cons.mpr ⟨hword l, List.forall_mem_cons.mpr ⟨rfl, ih⟩⟩

namespace Expr

open Grammar

theorem sparseInside_grouped {ws : List Token} (group : Bool) (hbalanced : Balanced ws)
    (h : Sparse ws) : SparseInside (groupedWords group ws) := by
  cases group with
  | false => exact fun us hus => h us (.inr hus)
  | true => exact h.parens hbalanced

/-- A connective has none beside it, and all else has none outside parentheses. -/
theorem levelConnectives_words (e : Expr) : levelConnectives e.words ≤ 1 := by
  cases hconnective : e.isConnective with
  | false =>
    have hfree := e.topFree_connective
    rw [hconnective] at hfree
    exact hfree.levelConnectives_le
  | true =>
    cases e with
    | binary op l r =>
      obtain ⟨c, rfl⟩ := BinaryOp.eq_connective hconnective
      have hl := levelConnectives_eq_zero.mpr l.topFree_connective
      have hr := levelConnectives_eq_zero.mpr r.topFree_connective
      have hleft := balanced_grouped l.isConnective l.balanced_words
      have hop : levelConnectives [c.keyword.word] = 1 := by cases c <;> rfl
      have hone : Balanced [c.keyword.word] := balanced_of_flat (BinaryOp.connective c).flat_words
      have hboth := (hleft.append hone).depth_eq
      have hfront := levelConnectives_append hleft.depth_eq [c.keyword.word]
      rw [words_connective, levelConnectives_append hboth]
      omega
    | _ => cases hconnective

/-- What is written for a tree has one connective at most on each level. -/
theorem sparse_words (e : Expr) : Sparse e.words := by
  refine SparseInside.sparse ?_ e.levelConnectives_words
  induction e with
  | property name => exact sparseInside_of_flat (List.forall_mem_singleton.mpr rfl)
  | literal l => exact sparseInside_of_flat (List.forall_mem_singleton.mpr l.flat_word)
  | array ls =>
    have hflat := Literal.flat_listWords ls
    have hfree := topFree_of_forall (Literal.listWords_ordinary ls)
    have hsparse := (sparseInside_of_flat hflat).sparse hfree.levelConnectives_le
    exact hsparse.parens (balanced_of_flat hflat)
  | unary op e ih =>
    have hbalanced := balanced_grouped e.isBinary e.balanced_words
    have he := sparseInside_grouped e.isBinary e.balanced_words (ih.sparse e.levelConnectives_words)
    cases op with
    | not =>
      have hnot : SparseInside [Keyword.not.word] := sparseInside_of_flat (by decide)
      exact hnot.append (balanced_of_flat (by decide)) he
    | isNull => exact he.append hbalanced (sparseInside_of_flat (by decide))
    | isNotNull => exact he.append hbalanced (sparseInside_of_flat (by decide))
  | binary op l r ihl ihr =>
    have hleft := balanced_grouped (needsGroup op l) l.balanced_words
    have hl := sparseInside_grouped (needsGroup op l) l.balanced_words
      (ihl.sparse l.levelConnectives_words)
    have hr := sparseInside_grouped (needsGroup op r) r.balanced_words
      (ihr.sparse r.levelConnectives_words)
    have hop := hl.append hleft (sparseInside_of_flat op.flat_words)
    exact hop.append (hleft.append (balanced_of_flat op.flat_words)) hr

end Expr

end RowFilter
