import RowFilter.Proofs.Layers
import RowFilter.Proofs.Reparsed

namespace RowFilter

namespace Grammar

/-- Whether some tokens of a layer begin with these. -/
def Begins (layer : Layer) (ts : List Token) : Prop :=
  ∃ more e, Derives layer (ts ++ more) e

variable {layer a b : Layer} {t u : Token} {ts us : List Token} {e : Expr}

theorem Derives.begins (h : Derives layer ts e) : Begins layer ts :=
  ⟨[], e, by rwa [List.append_nil]⟩

theorem Begins.mono (h : Begins a ts) (hab : a.rank ≤ b.rank) : Begins b ts := by
  obtain ⟨more, e, he⟩ := h
  exact ⟨more, e, he.mono hab⟩

theorem begins_nil (layer : Layer) : Begins layer [] := by
  have hnull : Item [Keyword.null.word] (.literal .null) := .literal (.null rfl)
  exact ⟨_, _, (Derives.item hnull).mono (by cases layer <;> decide)⟩

theorem Begins.not (ht : t.kind = .keyword .not) (h : Begins .factor ts) :
    Begins .negation (t :: ts) := by
  obtain ⟨more, e, he⟩ := h
  exact ⟨more, _, .not ht he⟩

theorem Begins.parens (ht : t.kind = .mark .openParen) (h : Begins .expression ts) :
    Begins .factor (t :: ts) := by
  obtain ⟨more, e, he⟩ := h
  have hclosed : Derives .factor (t :: (ts ++ more) ++ [Mark.closeParen.word]) e :=
    .parens ht he rfl
  exact ⟨more ++ [Mark.closeParen.word], e, by simpa using hclosed⟩

theorem begins_isNull (h : Derives .negation ts e) (ht : t.kind = .keyword .is) :
    Begins .operand (ts ++ [t]) := by
  have hnull : Derives .operand (ts ++ [t, Keyword.null.word]) _ := .isNull h ht rfl
  exact ⟨[Keyword.null.word], _, by simpa using hnull⟩

theorem begins_isNotNull (h : Derives .negation ts e) (ht : t.kind = .keyword .is)
    (hu : u.kind = .keyword .not) : Begins .operand (ts ++ [t, u]) := by
  have hnull : Derives .operand (ts ++ [t, u, Keyword.null.word]) _ := .isNotNull h ht hu rfl
  exact ⟨[Keyword.null.word], _, by simpa using hnull⟩

end Grammar

namespace Reader

open Grammar

/-- Wherever a token is missing, what has been read is of some kind. -/
def ReadsOnly {α : Type} (C : List Token → Prop) (r : List Token → Except Stop (α × List Token)) :
    Prop :=
  ∀ tokens x rest opened, r tokens = .error ⟨.expected x, rest, opened⟩ →
    ∃ read, tokens = read ++ rest ∧ C read

section

variable {C D : List Token → Prop} {limit height : Nat} {kind : TokenKind} {r taken other : Reader}
  {f : Expr → Reader}

theorem ReadsOnly.imp (h : ReadsOnly C r) (hCD : ∀ read, C read → D read) : ReadsOnly D r := by
  intro tokens x rest opened hs
  obtain ⟨read, hread, hC⟩ := h _ _ _ _ hs
  exact ⟨read, hread, hCD read hC⟩

theorem ready_readsOnly (e : Expr) : ReadsOnly C (ready e) := by
  intro tokens x rest opened h
  cases h

theorem tooDeep_readsOnly : ReadsOnly C (stop .tooDeep : Reader) := by
  intro tokens x rest opened h
  cases h

theorem expected_readsOnly (h : C []) (x : Expected) :
    ReadsOnly C (stop (.expected x) : Reader) := by
  intro tokens y rest opened hs
  cases hs
  exact ⟨[], rfl, h⟩

theorem bounded_readsOnly (h : ReadsOnly C r) : ReadsOnly C (bounded limit height r) := by
  intro tokens x rest opened hs
  unfold bounded at hs
  split at hs
  next => cases hs
  next => exact h _ _ _ _ hs

theorem taking_readsOnly
    (htaken : ∀ t : Token, t.kind = kind → ReadsOnly (fun read => C (t :: read)) taken)
    (hother : ReadsOnly C other) : ReadsOnly C (taking kind taken other) := by
  intro tokens x rest opened hs
  rcases head_cases kind tokens with ⟨t, behind, ht, rfl⟩ | hnone
  · rw [taking_head ht] at hs
    obtain ⟨read, rfl, hC⟩ := htaken t ht _ _ _ _ hs
    exact ⟨t :: read, rfl, hC⟩
  · rw [taking_other hnone] at hs
    exact hother _ _ _ _ hs

/-- A second step goes on behind what the first one has taken. -/
theorem ReadsOnly.andThen {room : Nat} {layer : Layer} (hsound : Sound limit room layer r)
    (h : ReadsOnly C r)
    (hnext : ∀ us e, Derives layer us e → ReadsOnly (fun read => C (us ++ read)) (f e)) :
    ReadsOnly C (r.andThen f) := by
  intro tokens x rest opened hs
  rcases bind_eq_error.mp hs with herror | ⟨⟨e, behind⟩, hr, hf⟩
  · exact h _ _ _ _ herror
  · obtain ⟨us, rfl, hus⟩ := hsound _ _ _ hr
    obtain ⟨read, rfl, hC⟩ := hnext us e hus.derives _ _ _ _ hf
    exact ⟨us ++ read, by rw [List.append_assoc], hC⟩

/-- What an expression behind an open parenthesis has read it has read before it is closed. -/
theorem closing_readsOnly {room : Nat} (hsound : Sound limit room .expression r)
    (h : ReadsOnly (Begins .expression) r) :
    ReadsOnly (Begins .expression) fun tokens => closing (r tokens) := by
  intro tokens x rest opened hs
  simp only at hs
  cases hr : r tokens with
  | error s =>
    obtain ⟨reason, behind, n⟩ := s
    rw [hr] at hs
    cases hs
    exact h _ _ _ _ hr
  | ok result =>
    obtain ⟨e, behind⟩ := result
    obtain ⟨us, rfl, hus⟩ := hsound _ _ _ hr
    rw [hr] at hs
    have hclose : ReadsOnly (fun read => Begins .expression (us ++ read))
        (taking (.mark .closeParen) (ready e) (stop (.expected .closeParen))) := by
      refine taking_readsOnly (fun _ _ => ready_readsOnly e) (expected_readsOnly ?_ _)
      exact (List.append_nil us).symm ▸ hus.derives.begins
    obtain ⟨read, rfl, hC⟩ := hclose _ _ _ _ hs
    exact ⟨us ++ read, by rw [List.append_assoc], hC⟩

/-- Between a tree of a layer and one of the layer below stands an operator. -/
def Links (layer below : Layer) (operator : List Token → Option (BinaryOp × List Token)) : Prop :=
  ∀ tokens op rest, operator tokens = some (op, rest) → ∃ os, tokens = os ++ rest ∧
    ∀ ts us l r, Derives layer ts l → Derives below us r →
      Derives layer (ts ++ os ++ us) (.binary op l r)

theorem link_readsOnly {room : Nat} {layer below : Layer}
    {operator : List Token → Option (BinaryOp × List Token)} {ts : List Token} {left : Expr}
    (hlinks : Links layer below operator) (hsound : Sound limit room below r)
    (h : ReadsOnly (Begins below) r) (hts : Derives layer ts left)
    (hmore : ∀ us e, Derives layer us e → ReadsOnly (fun read => Begins layer (us ++ read)) (f e)) :
    ReadsOnly (fun read => Begins layer (ts ++ read)) (link limit operator r f left) := by
  intro tokens x rest opened hs
  unfold link at hs
  split at hs
  next => cases hs
  next op behind hop =>
    obtain ⟨os, rfl, hos⟩ := hlinks _ _ _ hop
    have hright : ReadsOnly (fun read => Begins layer (ts ++ os ++ read)) r := by
      refine h.imp fun read ⟨more, e, he⟩ => ?_
      have hbinary := hos _ _ _ _ hts he
      exact ⟨more, _, by rwa [List.append_assoc _ read]⟩
    have hfurther : ∀ us e, Derives below us e → ReadsOnly
        (fun read => Begins layer (ts ++ os ++ (us ++ read)))
        (bounded limit (Expr.binary op left e).height (f (.binary op left e))) := by
      intro us e hus
      refine bounded_readsOnly ((hmore _ _ (hos _ _ _ _ hts hus)).imp fun read hread => ?_)
      rwa [← List.append_assoc]
    obtain ⟨read, rfl, hread⟩ := hright.andThen hsound hfurther _ _ _ _ hs
    rw [List.append_assoc] at hread
    exact ⟨os ++ read, by rw [List.append_assoc], hread⟩

theorem chain_readsOnly {room : Nat} {layer below : Layer}
    {operator : List Token → Option (BinaryOp × List Token)} (hlinks : Links layer below operator)
    (hsound : Sound limit room below r) (h : ReadsOnly (Begins below) r) (levels : Nat)
    {ts : List Token} {left : Expr} (hts : Derives layer ts left) :
    ReadsOnly (fun read => Begins layer (ts ++ read)) (chain limit operator r levels left) := by
  induction levels generalizing ts left with
  | zero =>
    rw [chain_zero]
    exact link_readsOnly hlinks hsound h hts fun _ _ _ => tooDeep_readsOnly
  | succ levels ih =>
    rw [chain_succ]
    exact link_readsOnly hlinks hsound h hts fun _ _ => ih

end

variable {limit room : Nat} {inner : Option Reader}

theorem elements_readsOnly :
    ReadsOnly (fun read => ∃ more ls, Elements (read ++ more) ls) elements := by
  have hnull : ∃ more ls, Elements ([] ++ more) ls := ⟨[Keyword.null.word], _, .one (.null rfl)⟩
  intro tokens x rest opened h
  induction tokens using elements.induct with
  | case1 =>
    cases h
    exact ⟨[], rfl, hnull⟩
  | case2 t behind hl =>
    simp only [elements, hl] at h
    cases h
    exact ⟨[], rfl, hnull⟩
  | case3 t behind hl =>
    simp only [elements, hl] at h
    cases h
  | case4 t c hl =>
    simp only [elements, hl] at h
    cases h
    exact ⟨[t], rfl, [], _, .one (literal?_eq_some.mp hl)⟩
  | case5 t c hl u behind hu ih =>
    simp only [elements, hl, hu, if_true] at h
    rcases bind_eq_error.mp h with herror | ⟨_, _, hpure⟩
    · obtain ⟨read, rfl, more, ls, hmore⟩ := ih herror
      exact ⟨t :: u :: read, rfl, more, _, .more (literal?_eq_some.mp hl) hu hmore⟩
    · cases hpure
  | case6 t c hl u behind hcomma hu =>
    simp only [elements, hl, hu, if_true] at h
    simp at h
  | case7 t c hl u behind hcomma hclose =>
    simp only [elements, hl, hcomma, hclose, if_false] at h
    cases h
    exact ⟨[t], rfl, [], _, .one (literal?_eq_some.mp hl)⟩

theorem item_readsOnly : ReadsOnly (Begins .factor) item := by
  intro tokens x rest opened h
  unfold item at h
  split at h
  next =>
    cases h
    exact ⟨[], rfl, begins_nil _⟩
  next t behind =>
    split at h
    next => cases h
    next =>
      split at h
      next ht =>
        rcases bind_eq_error.mp h with herror | ⟨_, _, hpure⟩
        · obtain ⟨read, rfl, more, ls, hmore⟩ := elements_readsOnly _ _ _ _ herror
          have harray : Derives .factor (t :: (read ++ more) ++ [Mark.closeBracket.word]) _ :=
            .item (.array ht hmore rfl)
          exact ⟨t :: read, rfl, more ++ [Mark.closeBracket.word], _, by simpa using harray⟩
        · cases hpure
      next =>
        split at h
        next =>
          cases h
          exact ⟨[], rfl, begins_nil _⟩
        next => cases h
        next => cases h

/-- The reader inside parentheses stops behind tokens that expressions begin with. -/
def InsideReads (inner : Option Reader) : Prop :=
  ∀ r, inner = some r → ReadsOnly (Begins .expression) r

theorem factor_readsOnly (hsound : SoundInside limit room inner) (hinner : InsideReads inner) :
    ReadsOnly (Begins .factor) (factor inner) := by
  rw [factor_eq]
  refine taking_readsOnly (fun t ht => ?_) item_readsOnly
  cases inner with
  | none => exact tooDeep_readsOnly
  | some r =>
    obtain ⟨n, _, hr⟩ := hsound r rfl
    exact (closing_readsOnly hr (hinner r rfl)).imp fun _ => .parens ht

theorem negation_readsOnly (hlimit : 0 < limit) (hsound : SoundInside limit room inner)
    (hinner : InsideReads inner) : ReadsOnly (Begins .negation) (negation limit inner) := by
  have hfactor := factor_readsOnly hsound hinner
  rw [negation_eq]
  refine taking_readsOnly (fun t ht => ?_) (hfactor.imp fun _ h => h.mono (by decide))
  exact (hfactor.imp fun _ => .not ht).andThen (factor_sound hlimit hsound) fun _ _ _ =>
    bounded_readsOnly (ready_readsOnly _)

theorem nullTest_readsOnly {us : List Token} {e : Expr} (hus : Derives .negation us e) :
    ReadsOnly (fun read => Begins .operand (us ++ read)) (nullTest limit e) := by
  rw [nullTest_eq]
  refine taking_readsOnly (fun t ht => bounded_readsOnly ?_) (ready_readsOnly e)
  refine taking_readsOnly (fun _ _ => ready_readsOnly _) ?_
  refine taking_readsOnly (fun u hu => ?_) (expected_readsOnly (begins_isNull hus ht) _)
  exact taking_readsOnly (fun _ _ => ready_readsOnly _)
    (expected_readsOnly (begins_isNotNull hus ht hu) _)

theorem operand_readsOnly (hlimit : 0 < limit) (hsound : SoundInside limit room inner)
    (hinner : InsideReads inner) : ReadsOnly (Begins .operand) (operand limit inner) := by
  rw [operand_eq]
  exact ((negation_readsOnly hlimit hsound hinner).imp fun _ h => h.mono (by decide)).andThen
    (negation_sound hlimit hsound) fun _ _ => nullTest_readsOnly

theorem test?_links : Links .comparison .operand test? := by
  intro tokens op rest h
  obtain ⟨os, rfl, hos⟩ := test?_sound h
  exact ⟨os, rfl, fun _ _ _ _ hl hr => .test hl hos hr⟩

theorem connective?_links : Links .expression .comparison connective? := by
  intro tokens op rest h
  obtain ⟨t, c, rfl, rfl, ht⟩ := connective?_sound h
  exact ⟨[t], rfl, fun _ _ _ _ hl hr => .connective hl ht hr⟩

theorem comparison_readsOnly (hlimit : 0 < limit) (hsound : SoundInside limit room inner)
    (hinner : InsideReads inner) : ReadsOnly (Begins .comparison) (comparison limit inner) := by
  have hoperand := operand_readsOnly hlimit hsound hinner
  have hoperandSound := operand_sound hlimit hsound
  rw [comparison_eq]
  exact (hoperand.imp fun _ h => h.mono (by decide)).andThen hoperandSound fun _ _ hus =>
    chain_readsOnly test?_links hoperandSound hoperand limit (.operand hus)

theorem expressionWith_readsOnly (hlimit : 0 < limit) (hsound : SoundInside limit room inner)
    (hinner : InsideReads inner) :
    ReadsOnly (Begins .expression) (expressionWith limit inner) := by
  have hcomparison := comparison_readsOnly hlimit hsound hinner
  have hcomparisonSound := comparison_sound hlimit hsound
  rw [expressionWith_eq]
  exact (hcomparison.imp fun _ h => h.mono (by decide)).andThen hcomparisonSound fun _ _ hus =>
    chain_readsOnly connective?_links hcomparisonSound hcomparison limit (.comparison hus)

/-- Where a token is missing in an expression, what has been read can be completed. -/
theorem expression_readsOnly (hlimit : 0 < limit) (room : Nat) :
    ReadsOnly (Begins .expression) (expression limit room) := by
  induction room with
  | zero => exact expressionWith_readsOnly hlimit (soundInside_none limit 0) fun r hr => by cases hr
  | succ room ih =>
    refine expressionWith_readsOnly hlimit (soundInside_some (expression_sound hlimit)) ?_
    intro r hr
    obtain rfl := Option.some.inj hr
    exact ih

end Reader

end RowFilter
