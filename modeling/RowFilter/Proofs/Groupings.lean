import RowFilter.Proofs.Levels

namespace RowFilter

/-- A connective with what is grouped on its two sides. -/
inductive Grouping
  | joined (c : Connective) (left right : List Grouping)

/-- The connectives of a tree. Those that no connective joins stand in a row, from left to right. -/
def Expr.connectives : Expr → List Grouping
  | property _ => []
  | literal _ => []
  | array _ => []
  | unary _ e => e.connectives
  | binary (.connective c) l r => [.joined c l.connectives r.connectives]
  | binary _ l r => l.connectives ++ r.connectives

namespace Grammar

/-- No connective outside the parentheses binds less closely than `c`. -/
def Loosest (rank : Connective → Nat) (c : Connective) (ts : List Token) : Prop :=
  ∀ us u vs d, ts = us ++ u :: vs → depth us = 0 → u.kind = .keyword d.keyword → rank c ≤ rank d

/-- What a reader has in front of it: a level, which connectives may divide, or an operand. -/
inductive Span
  | level
  | operand

/-- How the connectives of some tokens are grouped by a reader to whom those of a higher rank bind
closer. -/
inductive Groups (rank : Connective → Nat) : Span → List Token → List Grouping → Prop
  | operand {ts : List Token} {gs : List Grouping} : Groups rank .operand ts gs →
      Groups rank .level ts gs
  | joined {c : Connective} {t : Token} {ts us : List Token} {left right : List Grouping} :
      t.kind = .keyword c.keyword → Loosest rank c (ts ++ t :: us) →
      Groups rank .level ts left → Groups rank .level us right →
      Groups rank .level (ts ++ t :: us) [.joined c left right]
  | nil : Groups rank .operand [] []
  | token {t : Token} {ts : List Token} {gs : List Grouping} : opens t = 0 →
      t.kind.isConnective = false → Groups rank .operand ts gs → Groups rank .operand (t :: ts) gs
  | parens {t u : Token} {ts us : List Token} {gs hs : List Grouping} :
      t.kind = .mark .openParen → Groups rank .level ts gs → u.kind = .mark .closeParen →
      Groups rank .operand us hs → Groups rank .operand (t :: ts ++ u :: us) (gs ++ hs)

variable {rank other : Connective → Nat} {span : Span} {c : Connective} {t u : Token}
variable {ts us vs : List Token} {gs hs : List Grouping}

theorem isConnective_keyword (h : t.kind = .keyword c.keyword) : t.kind.isConnective = true := by
  rw [h]
  cases c <;> rfl

theorem keyword_inj {d : Connective} (h : c.keyword = d.keyword) : c = d := by
  cases c <;> cases d <;> first | rfl | cases h

theorem Groups.balanced (h : Groups rank span ts gs) : Balanced ts := by
  induction h with
  | operand _ ih => exact ih
  | @joined c t _ _ _ _ ht _ _ _ ihl ihr =>
    have hone : Balanced [t] := balanced_of_flat (by simp [opens_connective ht])
    exact ihl.append (hone.append ihr)
  | nil => exact balanced_of_flat (List.forall_mem_nil _)
  | @token t _ _ ht _ _ ih =>
    have hone : Balanced [t] := balanced_of_flat (by simp [ht])
    exact hone.append ih
  | @parens t u ts us _ _ ht _ hu _ ihl ihr =>
    have hboth := (ihl.parens ht hu).append ihr
    rwa [List.append_assoc] at hboth

theorem Groups.topFree (h : Groups rank .operand ts gs) : TopFree TokenKind.isConnective ts := by
  generalize hspan : Span.operand = span at h
  induction h with
  | operand _ _ => cases hspan
  | joined _ _ _ _ _ _ => cases hspan
  | nil => exact topFree_of_forall (List.forall_mem_nil _)
  | @token t _ _ ht hconnective _ ih =>
    have hone : TopFree TokenKind.isConnective [t] :=
      topFree_of_forall (List.forall_mem_singleton.mpr hconnective)
    exact hone.append (by simp [ht]) (ih hspan)
  | @parens t u ts us _ _ ht hinner hu _ _ ih =>
    have hparens := hinner.balanced.parens ht hu
    have hfree : TopFree TokenKind.isConnective (t :: ts ++ [u]) :=
      topFree_parens ht rfl hinner.balanced
    have hboth := hfree.append hparens.depth_eq (ih hspan)
    rwa [List.append_assoc] at hboth

theorem Groups.append (h : Groups rank .operand ts gs) (hus : Groups rank .operand us hs) :
    Groups rank .operand (ts ++ us) (gs ++ hs) := by
  generalize hspan : Span.operand = span at h
  induction h with
  | operand _ _ => cases hspan
  | joined _ _ _ _ _ _ => cases hspan
  | nil => exact hus
  | token ht hconnective _ ih => exact .token ht hconnective (ih hspan)
  | parens ht hinner hu _ _ ih =>
    have hboth := Groups.parens ht hinner hu (ih hspan)
    simpa using hboth

theorem groups_ordinary (h : ∀ t ∈ ts, opens t = 0 ∧ t.kind.isConnective = false) :
    Groups rank .operand ts [] := by
  induction ts with
  | nil => exact .nil
  | cons t ts ih =>
    obtain ⟨⟨ht, hconnective⟩, hts⟩ := List.forall_mem_cons.mp h
    exact .token ht hconnective (ih hts)

theorem Groups.enclosed (h : Groups rank .level ts gs) (ht : t.kind = .mark .openParen)
    (hu : u.kind = .mark .closeParen) : Groups rank .operand (t :: ts ++ [u]) gs := by
  have hparens := Groups.parens ht h hu .nil
  rwa [List.append_nil] at hparens

/-- The only connective outside the parentheses is found in one place. -/
theorem only_connective {d : Connective} {ts' us' : List Token}
    (hts : TopFree TokenKind.isConnective ts) (hus : TopFree TokenKind.isConnective us)
    (hzero : depth ts = 0) (hother : depth ts' = 0) (ht : t.kind = .keyword c.keyword)
    (hu : u.kind = .keyword d.keyword) (h : ts ++ t :: us = ts' ++ u :: us') :
    ts = ts' ∧ us = us' ∧ c = d := by
  obtain ⟨rfl, rfl⟩ :=
    hts.split hus (isConnective_keyword hu) (opens_connective ht) hzero hother h
  have htokens : t = u := (List.cons.inj (List.append_cancel_left h)).1
  rw [htokens, hu] at ht
  exact ⟨rfl, rfl, (keyword_inj (TokenKind.keyword.inj ht)).symm⟩

/-- A closing parenthesis is found where the balance ends. -/
theorem balanced_close_unique {v : Token} {ws : List Token} (hts : Balanced ts)
    (hvs : Balanced vs) (hu : u.kind = .mark .closeParen) (hv : v.kind = .mark .closeParen)
    (h : ts ++ u :: us = vs ++ v :: ws) : ts = vs ∧ us = ws := by
  -- If one part were longer than the other, the parenthesis of the other would close too much.
  have hshorter : ∀ {as bs xs : List Token} {x : Token}, Balanced as → Balanced bs →
      x.kind = .mark .closeParen → as = bs ++ x :: xs → False := by
    rintro as bs xs x has hbs hx rfl
    have hclosed := has.nonneg (bs ++ [x]) ⟨xs, by simp⟩
    rw [depth_append, depth_cons, opens_of_closeParen hx, depth_nil, hbs.depth_eq] at hclosed
    omega
  rcases List.append_eq_append_iff.mp h with ⟨xs, hxs, hrest⟩ | ⟨xs, hxs, hrest⟩
  · cases xs with
    | nil => exact ⟨by simp [hxs], (List.cons.inj hrest).2⟩
    | cons x xs =>
      obtain ⟨rfl, _⟩ := List.cons.inj hrest
      exact (hshorter hvs hts hu hxs).elim
  · cases xs with
    | nil => exact ⟨by simp [hxs], (List.cons.inj hrest).2.symm⟩
    | cons x xs =>
      obtain ⟨rfl, _⟩ := List.cons.inj hrest
      exact (hshorter hts hvs hv hxs).elim

theorem Groups.level_cases (h : Groups rank .level ts gs) : Groups rank .operand ts gs ∨
    ∃ c t us vs left right, ts = us ++ t :: vs ∧ gs = [.joined c left right] ∧
      t.kind = .keyword c.keyword ∧ Groups rank .level us left ∧ Groups rank .level vs right := by
  cases h with
  | operand h => exact .inl h
  | joined ht _ hl hr => exact .inr ⟨_, _, _, _, _, _, rfl, rfl, ht, hl, hr⟩

theorem Groups.token_inv (h : Groups rank .operand (t :: ts) gs) (ht : opens t = 0) :
    Groups rank .operand ts gs := by
  generalize hts : t :: ts = us at h
  cases h with
  | nil => cases hts
  | token _ _ h =>
    obtain ⟨rfl, rfl⟩ := List.cons.inj hts
    exact h
  | parens hopen _ _ _ =>
    obtain ⟨rfl, _⟩ := List.cons.inj hts
    rw [opens_of_openParen hopen] at ht
    cases ht

theorem Groups.parens_inv (h : Groups rank .operand (t :: ts ++ u :: us) gs)
    (ht : t.kind = .mark .openParen) (hts : Balanced ts) (hu : u.kind = .mark .closeParen) :
    ∃ inner rest, gs = inner ++ rest ∧ Groups rank .level ts inner ∧
      Groups rank .operand us rest := by
  generalize hall : t :: ts ++ u :: us = vs at h
  cases h with
  | nil => cases hall
  | token hflat _ _ =>
    obtain ⟨rfl, _⟩ := List.cons.inj hall
    rw [opens_of_openParen ht] at hflat
    cases hflat
  | parens _ hinner hclose hrest =>
    obtain ⟨rfl, rfl⟩ :=
      balanced_close_unique hts hinner.balanced hu hclose (List.cons.inj hall).2
    exact ⟨_, _, rfl, hinner, hrest⟩

theorem Groups.not_joined (h : Groups rank .operand (ts ++ t :: us) gs)
    (ht : t.kind = .keyword c.keyword) (hts : Balanced ts) : False := by
  have hfree := h.topFree ts t us rfl hts.depth_eq
  rw [isConnective_keyword ht] at hfree
  cases hfree

/-- All readers group connectives alike if there is at most one on each level. -/
theorem Groups.unique (h : Groups rank span ts gs) (hts : Sparse ts)
    (hother : Groups other span ts hs) : gs = hs := by
  induction h generalizing hs with
  | operand h ih =>
    rcases hother.level_cases with hother | ⟨c, t, us, vs, _, _, rfl, _, ht, hl, _⟩
    · exact ih hts hother
    · exact (h.not_joined ht hl.balanced).elim
  | joined ht _ hl hr ihl ihr =>
    rcases hother.level_cases with hother | ⟨_, _, _, _, _, _, heq, rfl, hu, hl', hr'⟩
    · exact (hother.not_joined ht hl.balanced).elim
    · -- The connective is the only one of its level, so both readers divide the level there.
      have hzero := hl.balanced.depth_eq
      have hflat := opens_connective ht
      obtain ⟨hfreel, hfreer⟩ := hts.sides hzero (isConnective_keyword ht) hflat
      obtain ⟨rfl, rfl, rfl⟩ :=
        only_connective hfreel hfreer hzero hl'.balanced.depth_eq ht hu heq
      rw [ihl hts.left hl', ihr ((hts.right hzero).tail hflat) hr']
  | nil =>
    cases hother with
    | nil => rfl
  | token ht _ _ ih => exact ih (hts.tail ht) (hother.token_inv ht)
  | parens ht hinner hu _ ihl ihr =>
    obtain ⟨inner, rest, rfl, hinner', hrest'⟩ := hother.parens_inv ht hinner.balanced hu
    rw [ihl (hts.inner ht hinner.balanced hu) hinner',
      ihr (hts.behind_parens ht hinner.balanced hu) hrest']

theorem levelConnectives_of_kinds (h : us.map Token.kind = ts.map Token.kind) :
    levelConnectives us = levelConnectives ts := by
  have hfrom : ∀ d, connectivesFrom d us = connectivesFrom d ts := by
    induction ts generalizing us with
    | nil => simp [List.map_eq_nil_iff.mp h]
    | cons t ts ih =>
      obtain ⟨u, us, rfl, hu, hus⟩ := List.map_eq_cons_iff.mp h
      intro d
      rw [connectivesFrom, connectivesFrom, hu, opens_of_kind hu, ih hus]
  exact hfrom 0

theorem IsLevel.of_kinds (h : IsLevel ts vs) (hus : us.map Token.kind = ts.map Token.kind) :
    ∃ ws, IsLevel us ws ∧ ws.map Token.kind = vs.map Token.kind := by
  rcases h with rfl | ⟨before, t, u, behind, rfl, ht, hvs, hu⟩
  · exact ⟨us, .inl rfl, hus⟩
  · rw [List.map_append, List.map_append, List.map_cons, List.map_cons] at hus
    obtain ⟨front, xs, rfl, hfront, hxs⟩ := List.map_eq_append_iff.mp hus
    obtain ⟨before', ys, rfl, hbefore, hys⟩ := List.map_eq_append_iff.mp hfront
    obtain ⟨t', ws, rfl, ht', hws⟩ := List.map_eq_cons_iff.mp hys
    obtain ⟨u', behind', rfl, hu', _⟩ := List.map_eq_cons_iff.mp hxs
    exact ⟨ws, .inr ⟨before', t', u', behind', rfl, ht'.trans ht, balanced_of_kinds hvs hws,
      hu'.trans hu⟩, hws⟩

theorem Loosest.of_kinds (h : Loosest rank c ts) (hus : us.map Token.kind = ts.map Token.kind) :
    Loosest rank c us := by
  rintro before u behind d rfl hdepth hu
  obtain ⟨before', ys, rfl, hbefore, hys⟩ :=
    List.map_eq_append_iff.mp (hus.symm.trans List.map_append)
  obtain ⟨u', behind', rfl, hu', _⟩ := List.map_eq_cons_iff.mp hys
  exact h before' u' behind' d rfl ((depth_of_kinds hbefore).trans hdepth) (hu'.trans hu)

theorem Groups.of_kinds (h : Groups rank span ts gs)
    (hus : us.map Token.kind = ts.map Token.kind) : Groups rank span us gs := by
  induction h generalizing us with
  | operand _ ih => exact .operand (ih hus)
  | joined ht hloosest _ _ ihl ihr =>
    have hall := hloosest.of_kinds hus
    rw [List.map_append, List.map_cons] at hus
    obtain ⟨vs, xs, rfl, hvs, hxs⟩ := List.map_eq_append_iff.mp hus
    obtain ⟨t', ws, rfl, ht', hws⟩ := List.map_eq_cons_iff.mp hxs
    exact .joined (ht'.trans ht) hall (ihl hvs) (ihr hws)
  | nil =>
    rw [List.map_eq_nil_iff.mp hus]
    exact .nil
  | token ht hconnective _ ih =>
    obtain ⟨t', ws, rfl, ht', hws⟩ := List.map_eq_cons_iff.mp hus
    exact .token ((opens_of_kind ht').trans ht) (ht' ▸ hconnective) (ih hws)
  | parens ht _ hu _ ihl ihr =>
    rw [List.map_append, List.map_cons, List.map_cons] at hus
    obtain ⟨front, xs, rfl, hfront, hxs⟩ := List.map_eq_append_iff.mp hus
    obtain ⟨t', vs, rfl, ht', hvs⟩ := List.map_eq_cons_iff.mp hfront
    obtain ⟨u', ws, rfl, hu', hws⟩ := List.map_eq_cons_iff.mp hxs
    exact .parens (ht'.trans ht) (ihl hvs) (hu'.trans hu) (ihr hws)

end Grammar

namespace Expr

open Grammar

variable {rank : Connective → Nat}

theorem groups_grouped {e : Expr} (group : Bool) (hlevel : Groups rank .level e.words e.connectives)
    (hoperand : group = false → Groups rank .operand e.words e.connectives) :
    Groups rank .operand (groupedWords group e.words) e.connectives := by
  cases group with
  | false => exact hoperand rfl
  | true => exact hlevel.enclosed rfl rfl

theorem isConnective_of_not_binary {e : Expr} (h : e.isBinary = false) :
    e.isConnective = false := by
  cases hconnective : e.isConnective with
  | false => rfl
  | true =>
    rw [isBinary_of_isConnective hconnective] at h
    cases h

theorem groups_tokens {op : BinaryOp} (h : op.isConnective = false) :
    Groups rank .operand op.words [] := by
  exact groups_ordinary fun t ht => ⟨op.flat_words t ht, BinaryOp.words_ordinary h t ht⟩

/-- Every reader finds the connectives in what is written for a tree. If none of them joins the
whole tree, there is nothing to divide. -/
theorem groups_words (rank : Connective → Nat) (e : Expr) :
    Groups rank .level e.words e.connectives ∧
      (e.isConnective = false → Groups rank .operand e.words e.connectives) := by
  have hundivided : ∀ {ts gs} {p : Prop}, Groups rank .operand ts gs →
      Groups rank .level ts gs ∧ (p → Groups rank .operand ts gs) :=
    fun h => ⟨.operand h, fun _ => h⟩
  induction e with
  | property name => exact hundivided (.token rfl rfl .nil)
  | literal l =>
    refine hundivided (groups_ordinary (List.forall_mem_singleton.mpr ⟨l.flat_word, ?_⟩))
    cases l <;> rfl
  | array ls =>
    have hlist : Groups rank .operand (Literal.listWords ls) [] := groups_ordinary fun t ht =>
      ⟨Literal.flat_listWords ls t ht, Literal.listWords_ordinary ls t ht⟩
    exact hundivided (Groups.enclosed (.operand hlist) rfl rfl)
  | unary op e ih =>
    have he := groups_grouped e.isBinary ih.1 fun h => ih.2 (isConnective_of_not_binary h)
    have hbefore : ∀ {ts}, (∀ t ∈ ts, opens t = 0 ∧ t.kind.isConnective = false) →
        Groups rank .operand (groupedWords e.isBinary e.words ++ ts) e.connectives := by
      intro ts hts
      have hboth := he.append (groups_ordinary hts)
      rwa [List.append_nil] at hboth
    cases op with
    | not => exact hundivided (.token rfl rfl he)
    | isNull => exact hundivided (hbefore (by decide))
    | isNotNull => exact hundivided (hbefore (by decide))
  | binary op l r ihl ihr =>
    cases hop : op.isConnective with
    | false =>
      have hl := groups_grouped l.isBinary ihl.1 fun h => ihl.2 (isConnective_of_not_binary h)
      have hr := groups_grouped r.isBinary ihr.1 fun h => ihr.2 (isConnective_of_not_binary h)
      have hall := (hl.append (groups_tokens hop)).append hr
      rw [List.append_nil] at hall
      have hconnectives : (binary op l r).connectives = l.connectives ++ r.connectives := by
        cases op with
        | connective c => cases hop
        | _ => rfl
      rw [words_of_not_connective hop, hconnectives]
      exact hundivided hall
    | true =>
      obtain ⟨c, rfl⟩ := BinaryOp.eq_connective hop
      have hfreel := l.topFree_connective
      have hfreer := r.topFree_connective
      have hzero := (balanced_grouped l.isConnective l.balanced_words).depth_eq
      have hl := groups_grouped l.isConnective ihl.1 ihl.2
      have hr := groups_grouped r.isConnective ihr.1 ihr.2
      have hloosest : Loosest rank c (groupedWords l.isConnective l.words ++ c.keyword.word ::
          groupedWords r.isConnective r.words) := by
        intro before u behind d heq hdepth hu
        obtain ⟨_, _, rfl⟩ := only_connective hfreel hfreer hzero hdepth rfl hu heq
        exact Nat.le_refl _
      rw [words_connective, List.append_assoc]
      exact ⟨.joined rfl hloosest (.operand hl) (.operand hr), fun h => by cases h⟩

/-- The SQL of a tree depends on no precedence between connectives. It has tokens whose parentheses
belong together, and at most one connective on each level, outside of all parentheses or between a
pair of them; so whatever a reader takes to bind closer, the connectives are grouped as they are in
the tree, and in no other way. -/
theorem plainSql_needs_no_precedence {e : Expr} (hplain : e.Plain) {text : List Char}
    (htext : e.plainSql = .ok text) :
    ∃ ts, tokenize text = .ok ts ∧ Balanced ts ∧
      (∀ us, IsLevel ts us → levelConnectives us ≤ 1) ∧
      ∀ rank gs, Groups rank .level ts gs ↔ gs = e.connectives := by
  obtain ⟨ts, hts, hbare⟩ := (hplain.lexes htext).tokenize
  have hkinds : ts.map Token.kind = e.words.map Token.kind := by
    rw [← hbare, List.map_map]
    rfl
  refine ⟨ts, hts, balanced_of_kinds e.balanced_words hkinds, fun us hus => ?_,
    fun rank gs => ?_⟩
  · obtain ⟨ws, hws, hmap⟩ := hus.of_kinds hkinds.symm
    rw [← levelConnectives_of_kinds hmap]
    exact e.sparse_words ws hws
  · constructor
    · intro h
      exact (h.of_kinds hkinds.symm).unique e.sparse_words (e.groups_words rank).1
    · rintro rfl
      exact (e.groups_words rank).1.of_kinds hkinds

/-- Behind the connective that joins the whole tree stand two in a row. -/
theorem plainSql_needs_no_precedence_mixed :
    let a : Expr := .property "A"
    let both : Expr := .binary (.connective .and) a a
    let either : Expr := .binary (.connective .or) a a
    let left : Expr := .binary (.connective .or) a (.unary .not both)
    let right : Expr := .binary (.comparison .equal)
      (.binary (.among false) either (.array [.boolean true, .null])) (.unary .isNull both)
    let e : Expr := .binary (.connective .and) left right
    let text := "(A or not (A and A)) and ((A or A) in (1,null)) = (A and A) is null".toList
    e.Plain ∧ e.plainSql = .ok text ∧ ∃ ts, tokenize text = .ok ts ∧ Balanced ts ∧
      (∀ us, IsLevel ts us → levelConnectives us ≤ 1) ∧
      ∀ rank gs, Groups rank .level ts gs ↔
        gs = [.joined .and [.joined .or [] [.joined .and [] []]]
          [.joined .or [] [], .joined .and [] []]] := by
  intro a both either left right e text
  have hname : IsName "A".toList := ⟨by decide, by simp, by decide⟩
  have hlist : ∀ l ∈ [Literal.boolean true, Literal.null], l.Plain :=
    List.forall_mem_cons.mpr ⟨trivial, List.forall_mem_singleton.mpr trivial⟩
  have hplain : e.Plain :=
    ⟨⟨hname, hname, hname⟩, ⟨⟨hname, hname⟩, hlist⟩, hname, hname⟩
  have htext : e.plainSql = .ok text := by rfl
  exact ⟨hplain, htext, plainSql_needs_no_precedence hplain htext⟩

end Expr

end RowFilter
