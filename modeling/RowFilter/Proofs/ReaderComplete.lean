import RowFilter.Proofs.ReaderSound

namespace RowFilter.Reader

open Grammar

variable {limit room : Nat} {inner : Option Reader}

theorem elements_complete {ts : List Token} {ls : List Literal} (h : Elements ts ls) {u : Token}
    (hu : u.kind = .mark .closeBracket) (rest : List Token) :
    elements (ts ++ u :: rest) = .ok (ls, rest) := by
  induction h with
  | one hl => simp [elements, literal?_eq_some.mpr hl, hu]
  | more hl hcomma _ ih =>
    simp only [List.cons_append, elements, literal?_eq_some.mpr hl, hcomma, if_true, ih]
    rfl

theorem item_complete {ts : List Token} {e : Expr} (h : Item ts e) (rest : List Token) :
    item (ts ++ rest) = .ok (e, rest) := by
  cases h with
  | property ht => simp [item, ht]
  | literal hl =>
    have hread := literal?_eq_some.mpr hl
    cases hl with
    | _ ht => simp [item, ht, hread]
  | array ht hts hu =>
    have hread := elements_complete hts hu rest
    simp only [List.cons_append, List.append_assoc, List.nil_append, item, ht, hread, reduceCtorEq,
      if_false, if_true]
    rfl

/-- An item neither opens a parenthesis nor negates. -/
theorem head_of_item {ts : List Token} {e : Expr} (h : Item ts e) :
    ∃ t us, ts = t :: us ∧ t.kind ≠ .mark .openParen ∧ t.kind ≠ .keyword .not := by
  cases h with
  | property ht => exact ⟨_, _, rfl, by simp [ht], by simp [ht]⟩
  | literal hl =>
    cases hl with
    | _ ht => exact ⟨_, _, rfl, by simp [ht], by simp [ht]⟩
  | array ht _ _ => exact ⟨_, _, rfl, by simp [ht], by simp [ht]⟩

theorem head_of_factor {ts : List Token} {e : Expr} (h : Derives .factor ts e) :
    ∃ t us, ts = t :: us ∧ t.kind ≠ .keyword .not := by
  cases h with
  | item h =>
    obtain ⟨t, us, rfl, _, ht⟩ := head_of_item h
    exact ⟨t, us, rfl, ht⟩
  | parens ht _ _ => exact ⟨_, _, rfl, by simp [ht]⟩

/-- The reader of the expression inside parentheses. -/
def inside (limit : Nat) : Nat → Option Reader
  | 0 => none
  | room + 1 => some (expression limit room)

theorem expression_eq (limit room : Nat) (tokens : List Token) :
    expression limit room tokens = expressionWith limit (inside limit room) tokens := by
  cases room <;> rfl

/-- No null test begins here. -/
def PastNullTest (rest : List Token) : Prop :=
  ∀ t ∈ rest.head?, t.kind ≠ .keyword .is

theorem pastNullTest_of_head {t : Token} {rest : List Token} (h : t.kind ≠ .keyword .is) :
    PastNullTest (t :: rest) := by
  intro u hu
  obtain rfl := Option.some.inj hu
  exact h

theorem nullTest_past {rest : List Token} (h : PastNullTest rest) (e : Expr) :
    nullTest limit e rest = .ok (e, rest) := by
  cases rest with
  | nil => rfl
  | cons t rest => simp [nullTest, h t rfl]

theorem test?_complete {os : List Token} {op : BinaryOp} (h : Test os op) (rest : List Token) :
    test? (os ++ rest) = some (op, rest) := by
  cases h with
  | comparison c ht => cases c <;> simp [test?, testOfKind?, ht, Comparison.mark]
  | _ => simp_all [test?, testOfKind?]

theorem pastNullTest_of_test {os : List Token} {op : BinaryOp} (h : Test os op)
    (rest : List Token) : PastNullTest (os ++ rest) := by
  cases h <;> exact pastNullTest_of_head (by simp_all)

theorem pastNullTest_of_connective {t : Token} {c : Connective} (h : t.kind = .keyword c.keyword)
    (rest : List Token) : PastNullTest (t :: rest) := by
  apply pastNullTest_of_head
  cases c <;> simp [h, Connective.keyword]

theorem connective?_complete {t : Token} {c : Connective} (h : t.kind = .keyword c.keyword)
    (rest : List Token) : connective? (t :: rest) = some (.connective c, rest) := by
  cases c <;> simp_all [connective?, Connective.keyword]

theorem test?_connective {t : Token} {c : Connective} (h : t.kind = .keyword c.keyword)
    (rest : List Token) : test? (t :: rest) = none := by
  cases c <;> simp_all [test?, testOfKind?, Connective.keyword]

section Chain

variable {operator : List Token → Option (BinaryOp × List Token)} {operand : Reader}

theorem chain_done {levels : Nat} {e : Expr} {rest : List Token} (h : operator rest = none) :
    chain limit operator operand levels e rest = .ok (e, rest) := by
  unfold chain
  simp [h]

/-- A chain that has as many levels to go as its tree lacks takes one operand more. -/
theorem chain_step {levels : Nat} {op : BinaryOp} {l r : Expr} {tokens mid rest : List Token}
    (hop : operator tokens = some (op, mid)) (hr : operand mid = .ok (r, rest))
    (hlevels : limit ≤ levels + l.height) (hle : (Expr.binary op l r).height ≤ limit) :
    ∃ fewer, limit ≤ fewer + (Expr.binary op l r).height ∧
      chain limit operator operand levels l tokens =
        chain limit operator operand fewer (.binary op l r) rest := by
  have hheight : (Expr.binary op l r).height = max l.height r.height + 1 := rfl
  obtain ⟨fewer, rfl⟩ : ∃ fewer, levels = fewer + 1 := ⟨levels - 1, by omega⟩
  refine ⟨fewer, by omega, ?_⟩
  have hnot : ¬ limit < (Expr.binary op l r).height := by omega
  rw [chain]
  simp only [hop, hr]
  exact if_neg hnot

/-- What goes on as a chain goes on as one behind a further operator with its operand, too. -/
theorem chain_link {reader : Reader} {ts os us rest : List Token} {op : BinaryOp} {l r : Expr}
    (hl : ∃ levels, limit ≤ levels + l.height ∧ reader (ts ++ (os ++ (us ++ rest))) =
      chain limit operator operand levels l (os ++ (us ++ rest)))
    (hop : operator (os ++ (us ++ rest)) = some (op, us ++ rest))
    (hr : operand (us ++ rest) = .ok (r, rest)) (hle : (Expr.binary op l r).height ≤ limit) :
    ∃ levels, limit ≤ levels + (Expr.binary op l r).height ∧ reader (ts ++ os ++ us ++ rest) =
      chain limit operator operand levels (.binary op l r) rest := by
  obtain ⟨levels, hlevels, heq⟩ := hl
  obtain ⟨fewer, hfewer, hstep⟩ := chain_step hop hr hlevels hle
  refine ⟨fewer, hfewer, ?_⟩
  rw [List.append_assoc, List.append_assoc, heq, hstep]

end Chain

/-- What the readers do with the tokens of a layer: the outer three do it unless the layer goes
on, and the chains are left with as many levels as the tree may still grow. -/
def Reads (limit room : Nat) : Layer → List Token → Expr → Prop
  | .factor, ts, e => ∀ rest, factor (inside limit room) (ts ++ rest) = .ok (e, rest)
  | .negation, ts, e => ∀ rest, negation limit (inside limit room) (ts ++ rest) = .ok (e, rest)
  | .operand, ts, e => ∀ rest, PastNullTest rest →
      operand limit (inside limit room) (ts ++ rest) = .ok (e, rest)
  | .comparison, ts, e => ∀ rest, PastNullTest rest →
      ∃ levels, limit ≤ levels + e.height ∧ comparison limit (inside limit room) (ts ++ rest) =
        chain limit test? (operand limit (inside limit room)) levels e rest
  | .expression, ts, e => ∀ rest, PastNullTest rest → test? rest = none →
      ∃ levels, limit ≤ levels + e.height ∧ expression limit room (ts ++ rest) =
        chain limit connective? (comparison limit (inside limit room)) levels e rest

theorem Reads.comparison_ok {ts rest : List Token} {e : Expr}
    (h : Reads limit room .comparison ts e) (hpast : PastNullTest rest) (htest : test? rest = none) :
    comparison limit (inside limit room) (ts ++ rest) = .ok (e, rest) := by
  obtain ⟨levels, _, heq⟩ := h rest hpast
  rw [heq, chain_done htest]

theorem Reads.expression_ok {ts : List Token} {e : Expr} (h : Reads limit room .expression ts e)
    (rest : List Token) (hpast : PastNullTest rest) (htest : test? rest = none)
    (hconnective : connective? rest = none) :
    expression limit room (ts ++ rest) = .ok (e, rest) := by
  obtain ⟨levels, _, heq⟩ := h rest hpast htest
  rw [heq, chain_done hconnective]

theorem Reads.parens {t u : Token} {ts : List Token} {e : Expr}
    (h : Reads limit room .expression ts e) (ht : t.kind = .mark .openParen)
    (hu : u.kind = .mark .closeParen) : Reads limit (room + 1) .factor (t :: ts ++ [u]) e := by
  intro rest
  have hread := h.expression_ok (u :: rest) (pastNullTest_of_head (by simp [hu]))
    (by simp [test?, testOfKind?, hu]) (by simp [connective?, hu])
  have hassoc : t :: ts ++ [u] ++ rest = t :: (ts ++ u :: rest) := by simp
  rw [hassoc]
  simp [factor, ht, inside, hread, hu]

theorem Reads.not {t : Token} {ts : List Token} {e : Expr} (h : Reads limit room .factor ts e)
    (ht : t.kind = .keyword .not) (hle : (Expr.unary .not e).height ≤ limit) :
    Reads limit room .negation (t :: ts) (.unary .not e) := by
  intro rest
  have hread := h rest
  simp only [List.cons_append, negation, ht, if_true, hread]
  exact if_neg (Nat.not_lt.mpr hle)

/-- The words of a null test make one of what is read before them. -/
theorem Reads.nullTest {op : UnaryOp} {ts os : List Token} {e : Expr}
    (h : Reads limit room .negation ts e)
    (hos : ∀ rest, Reader.nullTest limit e (os ++ rest) = .ok (.unary op e, rest)) :
    Reads limit room .operand (ts ++ os) (.unary op e) := by
  intro rest _
  have hread := h (os ++ rest)
  simp only [Reader.operand, List.append_assoc, hread]
  exact hos rest

theorem nullTest_isNull {t u : Token} {e : Expr} (ht : t.kind = .keyword .is)
    (hu : u.kind = .keyword .null) (hle : (Expr.unary .isNull e).height ≤ limit)
    (rest : List Token) : nullTest limit e ([t, u] ++ rest) = .ok (.unary .isNull e, rest) := by
  simp [nullTest, ht, hu, Nat.not_lt.mpr hle]

/-- The height of both null tests is the same, and is looked at before they are told apart. -/
theorem nullTest_isNotNull {t u v : Token} {e : Expr} (ht : t.kind = .keyword .is)
    (hu : u.kind = .keyword .not) (hv : v.kind = .keyword .null)
    (hle : (Expr.unary .isNotNull e).height ≤ limit) (rest : List Token) :
    nullTest limit e ([t, u, v] ++ rest) = .ok (.unary .isNotNull e, rest) := by
  have hnot : ¬ limit < (Expr.unary .isNull e).height := Nat.not_lt.mpr hle
  simp [nullTest, ht, hu, hv, hnot]

theorem height_le_of_unary {op : UnaryOp} {e : Expr} (h : (Expr.unary op e).height ≤ limit) :
    e.height ≤ limit :=
  Nat.le_of_succ_le h

theorem height_le_of_binary {op : BinaryOp} {l r : Expr}
    (h : (Expr.binary op l r).height ≤ limit) : l.height ≤ limit ∧ r.height ≤ limit :=
  Nat.max_le.mp (Nat.le_of_succ_le h)

theorem reads_of_derives {layer : Layer} {ts : List Token} {e : Expr} (h : Derives layer ts e)
    (hle : e.height ≤ limit) (hnested : Nested room ts) : Reads limit room layer ts e := by
  -- The room is general: a pair of parentheses leaves less of it for what stands inside.
  induction h generalizing room with
  | item h =>
    intro rest
    obtain ⟨t, us, rfl, hopen, _⟩ := head_of_item h
    have hread := item_complete h rest
    rw [List.cons_append] at hread ⊢
    simp [factor, hopen, hread]
  | parens ht hts hu ih =>
    obtain ⟨less, rfl, hless⟩ := (nested_parens ht hu hts.depth_eq).mp hnested
    exact (ih hle hless).parens ht hu
  | factor hf ih =>
    intro rest
    obtain ⟨t, us, rfl, ht⟩ := head_of_factor hf
    have hread := ih hle hnested rest
    rw [List.cons_append] at hread ⊢
    simp [negation, ht, hread]
  | @not t ts e ht _ ih =>
    have hflat : opens t = 0 := by simp [opens, ht]
    exact (ih (height_le_of_unary hle) ((nested_cons_of_flat hflat).mp hnested)).not ht hle
  | @negation ts e _ ih =>
    intro rest hpast
    have hread := ih hle hnested rest
    simp only [operand, hread]
    exact nullTest_past hpast e
  | isNull hn ht hu ih =>
    have hread := ih (height_le_of_unary hle) ((nested_append hn.depth_eq).mp hnested).1
    exact hread.nullTest (nullTest_isNull ht hu hle)
  | isNotNull hn ht hu hv ih =>
    have hread := ih (height_le_of_unary hle) ((nested_append hn.depth_eq).mp hnested).1
    exact hread.nullTest (nullTest_isNotNull ht hu hv hle)
  | @operand ts e _ ih =>
    intro rest hpast
    have hread := ih hle hnested rest hpast
    refine ⟨limit, Nat.le_add_right _ _, ?_⟩
    simp only [comparison, hread]
    rfl
  | @test ts os us l r op hl ho _ ihl ihr =>
    intro rest hpast
    obtain ⟨hheightl, hheightr⟩ := height_le_of_binary hle
    obtain ⟨hleft, hright⟩ := hnested.sides hl.depth_eq (depth_of_flat ho.flat)
    have hread := ihl hheightl hleft (os ++ (us ++ rest)) (pastNullTest_of_test ho _)
    exact chain_link hread (test?_complete ho _) (ihr hheightr hright rest hpast) hle
  | @comparison ts e _ ih =>
    intro rest hpast htest
    have hread := (ih hle hnested).comparison_ok hpast htest
    refine ⟨limit, Nat.le_add_right _ _, ?_⟩
    rw [expression_eq]
    simp only [expressionWith, hread]
    rfl
  | @connective t ts us l r c hl ht _ ihl ihr =>
    intro rest hpast htest
    obtain ⟨hheightl, hheightr⟩ := height_le_of_binary hle
    obtain ⟨hleft, hright⟩ := hnested.sides hl.depth_eq (by simp [opens_connective ht])
    have hread := ihl hheightl hleft ([t] ++ (us ++ rest)) (pastNullTest_of_connective ht _)
      (test?_connective ht _)
    have hoperand := (ihr hheightr hright).comparison_ok hpast htest
    exact chain_link hread (connective?_complete ht _) hoperand hle

/-- Tokens that derive an expression are read to their end. -/
theorem expression_complete {ts : List Token} {e : Expr} (h : Within limit room .expression ts e) :
    expression limit room ts = .ok (e, []) := by
  have hread := (reads_of_derives h.derives h.height_le h.nested).expression_ok []
    (fun t ht => by cases ht) rfl rfl
  rwa [List.append_nil] at hread

end RowFilter.Reader
