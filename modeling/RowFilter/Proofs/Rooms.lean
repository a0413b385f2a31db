import RowFilter.Proofs.Stops

namespace RowFilter.Reader

open Grammar

/-- The tokens behind those that were read. -/
def left {α : Type} : Except Stop (α × List Token) → List Token
  | .ok (_, rest) => rest
  | .error s => s.rest

/-- Tokens are left behind some that are no parentheses. -/
inductive Skips : List Token → List Token → Prop
  | done (tokens : List Token) : Skips tokens tokens
  | token {t : Token} {tokens rest : List Token} : opens t = 0 → Skips tokens rest →
      Skips (t :: tokens) rest

/-- The outcome with less room beside the one with more: it is the same while the parentheses fit,
and too deep where a parenthesis does not fit. The wider reader is not too deep there. -/
inductive Narrows (room : Nat) (tokens : List Token) (narrow wide : Outcome) : Prop
  | same (read : List Token) : tokens = read ++ left wide → Nested room read → narrow = wide →
      Narrows room tokens narrow wide
  | refused (read more : List Token) : tokens = read ++ (more ++ left wide) →
      (room : Int) < depth read → narrow = .error ⟨.tooDeep, more ++ left wide, room⟩ →
      (∀ s, wide = .error s → s.reason = .tooDeep → more ≠ []) → Narrows room tokens narrow wide

/-- A reader with less room beside one with more. -/
def Narrower (room : Nat) (r q : Reader) : Prop :=
  ∀ tokens, Narrows room tokens (r tokens) (q tokens)

variable {limit room : Nat} {inner outer : Option Reader} {tokens rest : List Token}
  {narrow wide : Outcome} {r q : Reader}

theorem Skips.read (h : Skips tokens rest) :
    ∃ read, tokens = read ++ rest ∧ ∀ t ∈ read, opens t = 0 := by
  induction h with
  | done tokens => exact ⟨[], rfl, by simp⟩
  | token ht _ ih =>
    obtain ⟨read, rfl, hflat⟩ := ih
    exact ⟨_ :: read, rfl, List.forall_mem_cons.mpr ⟨ht, hflat⟩⟩

/-- What takes no parentheses needs no room. -/
theorem narrows_of_skips (h : Skips tokens (left wide)) : Narrows room tokens wide wide := by
  obtain ⟨read, htokens, hflat⟩ := h.read
  exact .same read htokens (nested_of_flat hflat) rfl

/-- Tokens in front that close all they open change nothing. -/
theorem Narrows.prepend {front : List Token} (h : Narrows room rest narrow wide)
    (hzero : depth front = 0) (hfront : Nested room front) :
    Narrows room (front ++ rest) narrow wide := by
  cases h with
  | same read hread hnested hsame =>
    refine .same (front ++ read) ?_ ((nested_append hzero).mpr ⟨hfront, hnested⟩) hsame
    rw [List.append_assoc, ← hread]
  | refused read more hread hdeep hnarrow hmore =>
    refine .refused (front ++ read) more ?_ ?_ hnarrow hmore
    · rw [List.append_assoc, ← hread]
    · rw [depth_append]
      omega

theorem Narrows.skips {more : List Token} (h : Narrows room rest narrow wide)
    (hskips : Skips more rest) : Narrows room more narrow wide := by
  obtain ⟨read, rfl, hflat⟩ := hskips.read
  exact h.prepend (depth_of_flat hflat) (nested_of_flat hflat)

theorem Narrows.left_suffix (h : Narrows room tokens narrow wide) : left wide <:+ tokens := by
  cases h with
  | same read hread _ _ => exact ⟨read, hread.symm⟩
  | refused read more hread _ _ _ => exact ⟨read ++ more, by rw [hread, List.append_assoc]⟩

/-- A second step behind a first one. Where the first one was refused, the wider reader still goes
on, as its tokens close what they open. -/
theorem Narrows.bind {f g : Expr × List Token → Outcome} (h : Narrows room tokens narrow wide)
    (hclosed : ∀ e rest, wide = .ok (e, rest) → ∃ ts, tokens = ts ++ rest ∧ depth ts = 0)
    (hstep : ∀ e rest, Narrows room rest (f (e, rest)) (g (e, rest))) :
    Narrows room tokens (narrow >>= f) (wide >>= g) := by
  cases hwide : wide with
  | error s =>
    subst hwide
    cases h with
    | same read hread hnested hsame => exact .same read hread hnested (by rw [hsame]; rfl)
    | refused read more hread hdeep hnarrow hmore =>
      exact .refused read more hread hdeep (by rw [hnarrow]; rfl) hmore
  | ok result =>
    obtain ⟨e, rest⟩ := result
    subst hwide
    obtain ⟨ts, hts, hzero⟩ := hclosed e rest rfl
    have hnext := hstep e rest
    cases h with
    | same read hread hnested hsame =>
      obtain rfl : read = ts := List.append_cancel_right (hread.symm.trans hts)
      rw [hsame, hread]
      exact hnext.prepend hzero hnested
    | refused read more hread hdeep hnarrow _ =>
      obtain ⟨behind, hbehind⟩ := hnext.left_suffix
      have hrest : left (.ok (e, rest)) = rest := rfl
      have hover : more ++ left (.ok (e, rest)) = (more ++ behind) ++ left (g (e, rest)) := by
        rw [hrest, List.append_assoc, hbehind]
      rw [hover] at hread hnarrow
      refine .refused read (more ++ behind) hread hdeep (by rw [hnarrow]; rfl) fun _ _ _ hnil => ?_
      -- The parentheses that were too many have been closed before the second step.
      have hmore : more = [] := (List.append_eq_nil_iff.mp hnil).1
      have hall : read = ts := by
        rw [← hover, hmore, List.nil_append, hrest] at hread
        exact List.append_cancel_right (hread.symm.trans hts)
      rw [hall, hzero] at hdeep
      omega

theorem Sound.closed {layer : Layer} (h : Sound limit room layer q) (e : Expr) (rest : List Token)
    (hq : q tokens = .ok (e, rest)) : ∃ ts, tokens = ts ++ rest ∧ depth ts = 0 := by
  obtain ⟨ts, hts, hwithin⟩ := h _ _ _ hq
  exact ⟨ts, hts, hwithin.derives.depth_eq⟩

theorem opens_of_literal? {t : Token} {l : Option Literal} (h : literal? t = some l) :
    opens t = 0 := by
  unfold literal? at h
  split at h <;> simp_all [opens]

/-- Making another value of what was read leaves the same tokens. -/
theorem left_map {α β : Type} (x : Except Stop (α × List Token)) (f : α → β) :
    left (do let (a, rest) ← x; return (f a, rest)) = left x := by
  cases x <;> rfl

theorem elements_skips (tokens : List Token) : Skips tokens (left (elements tokens)) := by
  induction tokens using elements.induct with
  | case1 => exact .done []
  | case2 t rest hl =>
    simp only [elements, hl]
    exact .done _
  | case3 t rest hl =>
    simp only [elements, hl]
    exact .token (opens_of_literal? hl) (.done rest)
  | case4 t c hl =>
    simp only [elements, hl]
    exact .token (opens_of_literal? hl) (.done [])
  | case5 t c hl u rest hu ih =>
    have hcomma : opens u = 0 := by simp [opens, hu]
    simp only [elements, hl, hu, if_true, left_map]
    exact .token (opens_of_literal? hl) (.token hcomma ih)
  | case6 t c hl u rest hcomma hu =>
    have hbracket : opens u = 0 := by simp [opens, hu]
    simp only [elements, hl, hu, if_true]
    exact .token (opens_of_literal? hl) (.token hbracket (.done rest))
  | case7 t c hl u rest hcomma hclose =>
    simp only [elements, hl, hcomma, hclose, if_false]
    exact .token (opens_of_literal? hl) (.done _)

theorem item_skips (tokens : List Token) : Skips tokens (left (item tokens)) := by
  unfold item
  split
  next => exact .done []
  next t rest =>
    split
    next ht => exact .token (by simp [opens, ht]) (.done rest)
    next =>
      split
      next ht =>
        rw [left_map]
        exact .token (by simp [opens, ht]) (elements_skips rest)
      next =>
        split
        next => exact .done _
        next hl => exact .token (opens_of_literal? hl) (.done rest)
        next hl => exact .token (opens_of_literal? hl) (.done rest)

/-- The reader inside parentheses, beside that of a wider reader. -/
inductive Nests (limit : Nat) : Nat → Option Reader → Option Reader → Prop
  | closed {room : Nat} {q : Reader} : Sound limit room .expression q → Stops room q →
      Nests limit 0 none (some q)
  | opened {room more : Nat} {r q : Reader} : Sound limit more .expression q →
      Narrower room r q → Nests limit (room + 1) (some r) (some q)

theorem closing_cases (w : Outcome) :
    (left (closing w) = left w ∧ ∀ s, closing w = .error s → s.reason = .tooDeep →
      ∃ d, w = .error d ∧ d.reason = .tooDeep) ∨
    ∃ e u rest, u.kind = .mark .closeParen ∧ w = .ok (e, u :: rest) ∧ closing w = .ok (e, rest) := by
  rcases w with d | ⟨e, tokens⟩
  · refine .inl ⟨rfl, fun s hs hdeep => ⟨d, rfl, ?_⟩⟩
    obtain rfl := Except.error.inj hs
    exact hdeep
  · rcases head_cases (.mark .closeParen) tokens with ⟨u, rest, hu, rfl⟩ | hother
    · exact .inr ⟨e, u, rest, hu, rfl, taking_head hu⟩
    · have hclosing : closing (.ok (e, tokens)) = stop (.expected .closeParen) tokens :=
        taking_other hother
      rw [hclosing]
      refine .inl ⟨rfl, fun s hs hdeep => ?_⟩
      obtain rfl := Except.error.inj hs
      cases hdeep

theorem nested_open {t : Token} {ts : List Token} (ht : t.kind = .mark .openParen)
    (h : Nested room ts) : Nested (room + 1) (t :: ts) := by
  intro us hus
  rcases List.prefix_cons_iff.mp hus with rfl | ⟨vs, rfl, hvs⟩
  · rw [depth_nil]
    omega
  · have hle := h vs hvs
    rw [depth_cons, opens_of_openParen ht]
    omega

/-- An open parenthesis takes one from the room. -/
theorem Narrows.parens {t : Token} (ht : t.kind = .mark .openParen)
    (hclosed : ∀ e rest, wide = .ok (e, rest) → ∃ ts, tokens = ts ++ rest ∧ depth ts = 0)
    (h : Narrows room tokens narrow wide) :
    Narrows (room + 1) (t :: tokens) (closing narrow) (closing wide) := by
  have hopens := opens_of_openParen ht
  rcases closing_cases wide with ⟨hleft, hdeep⟩ | ⟨e, u, rest, hu, hwide, hclosing⟩
  · cases h with
    | same read hread hnested hsame =>
      refine .same (t :: read) ?_ (nested_open ht hnested) (by rw [hsame])
      rw [hleft, List.cons_append, ← hread]
    | refused read more hread hover hnarrow hmore =>
      refine .refused (t :: read) more ?_ ?_ ?_ fun s hs hreason => ?_
      · rw [hleft, List.cons_append, ← hread]
      · rw [depth_cons, hopens]
        omega
      · rw [hnarrow, hleft]
        rfl
      · obtain ⟨d, hd, hdreason⟩ := hdeep s hs hreason
        exact hmore d hd hdreason
  · -- The wider reader takes the closing parenthesis as well.
    obtain ⟨ts, hts, hzero⟩ := hclosed e _ hwide
    have hbehind : left wide = u :: left (closing wide) := by
      rw [hclosing, hwide]
      rfl
    cases h with
    | same read hread hnested hsame =>
      have hall : read = ts := by
        rw [hwide] at hread
        exact List.append_cancel_right (hread.symm.trans hts)
      refine .same (t :: read ++ [u]) ?_ ?_ (by rw [hsame])
      · rw [hread, hbehind]
        simp
      · exact (nested_parens ht hu (hall ▸ hzero)).mpr ⟨room, rfl, hnested⟩
    | refused read more hread hover hnarrow hmore =>
      refine .refused (t :: read) (more ++ [u]) ?_ ?_ ?_ fun _ _ _ => by simp
      · rw [hread, hbehind]
        simp
      · rw [depth_cons, hopens]
        omega
      · rw [hnarrow, hbehind]
        simp [closing]

theorem left_suffix_of_stops {layer : Layer} (hsound : Sound limit room layer q)
    (hstops : Stops room q) (tokens : List Token) : left (q tokens) <:+ tokens := by
  cases hq : q tokens with
  | ok result => exact suffix_of_sound hsound hq
  | error s => exact (hstops _ _ hq).rest_suffix

/-- A parenthesis that does not fit is refused at once; a wider reader goes on behind it. -/
theorem narrows_of_stops {t : Token} {layer : Layer} (ht : t.kind = .mark .openParen)
    (hsound : Sound limit room layer q) (hstops : Stops room q) :
    Narrows 0 (t :: tokens) (stop .tooDeep tokens) (closing (q tokens)) := by
  have hsuffix : left (closing (q tokens)) <:+ tokens := by
    have hinside := left_suffix_of_stops hsound hstops tokens
    rcases closing_cases (q tokens) with ⟨hleft, _⟩ | ⟨e, u, rest, _, hq, hclosing⟩
    · rwa [hleft]
    · rw [hq] at hinside
      rw [hclosing]
      exact (List.suffix_cons u rest).trans hinside
  obtain ⟨more, hmore⟩ := hsuffix
  refine .refused [t] more ?_ ?_ ?_ fun s hs hdeep hnil => ?_
  · rw [hmore]
    rfl
  · simp [opens_of_openParen ht]
  · rw [hmore]
    rfl
  · rcases closing_cases (q tokens) with ⟨hleft, hinside⟩ | ⟨_, _, _, _, _, hclosing⟩
    · obtain ⟨d, hd, hreason⟩ := hinside s hs hdeep
      have hpassed := (hstops _ _ hd).passed hreason
      rw [hnil, List.nil_append, hleft, hd] at hmore
      have hrest : d.rest = tokens := hmore
      rw [hrest] at hpassed
      omega
    · rw [hclosing] at hs
      cases hs

theorem narrower_of_left (h : ∀ tokens, left (q tokens) = tokens) : Narrower room q q := by
  intro tokens
  have hskips : Skips tokens (left (q tokens)) := by
    rw [h]
    exact .done tokens
  exact narrows_of_skips hskips

theorem ready_narrower (e : Expr) : Narrower room (ready e) (ready e) :=
  narrower_of_left fun _ => rfl

theorem stop_narrower (reason : Reason) : Narrower room (stop reason) (stop reason) :=
  narrower_of_left fun _ => rfl

theorem bounded_narrower {height : Nat} (h : Narrower room r q) :
    Narrower room (bounded limit height r) (bounded limit height q) := by
  intro tokens
  unfold bounded
  split
  next => exact stop_narrower _ tokens
  next => exact h tokens

theorem Narrower.andThen {layer : Layer} {more : Nat} {f g : Expr → Reader}
    (h : Narrower room r q) (hsound : Sound limit more layer q)
    (hstep : ∀ e, Narrower room (f e) (g e)) : Narrower room (r.andThen f) (q.andThen g) :=
  fun tokens => (h tokens).bind hsound.closed hstep

theorem taking_narrower {kind : TokenKind} {taken other takenWide otherWide : Reader}
    (hkind : ∀ t : Token, t.kind = kind → opens t = 0) (htaken : Narrower room taken takenWide)
    (hother : Narrower room other otherWide) :
    Narrower room (taking kind taken other) (taking kind takenWide otherWide) := by
  intro tokens
  rcases head_cases kind tokens with ⟨t, rest, ht, rfl⟩ | hnone
  · rw [taking_head ht, taking_head ht]
    exact (htaken rest).skips (.token (hkind t ht) (.done rest))
  · rw [taking_other hnone, taking_other hnone]
    exact hother tokens

theorem opens_of_keyword {k : Keyword} (t : Token) (ht : t.kind = .keyword k) : opens t = 0 := by
  simp [opens, ht]

theorem factor_narrower (h : Nests limit room inner outer) :
    Narrower room (factor inner) (factor outer) := by
  intro tokens
  rw [factor_eq, factor_eq]
  rcases head_cases (.mark .openParen) tokens with ⟨t, rest, ht, rfl⟩ | hother
  · rw [taking_head ht, taking_head ht]
    cases h with
    | closed hsound hstops => exact narrows_of_stops ht hsound hstops
    | opened hsound hnarrower => exact (hnarrower rest).parens ht hsound.closed
  · rw [taking_other hother, taking_other hother]
    exact narrows_of_skips (item_skips tokens)

theorem Nests.soundInside (h : Nests limit room inner outer) :
    ∃ more, SoundInside limit more outer := by
  cases h with
  | closed hsound _ => exact ⟨_, soundInside_some hsound⟩
  | opened hsound _ => exact ⟨_, soundInside_some hsound⟩

theorem negation_narrower (hlimit : 0 < limit) (h : Nests limit room inner outer) :
    Narrower room (negation limit inner) (negation limit outer) := by
  obtain ⟨more, hinside⟩ := h.soundInside
  have hfactor := factor_narrower h
  rw [negation_eq, negation_eq]
  refine taking_narrower opens_of_keyword ?_ hfactor
  exact hfactor.andThen (factor_sound hlimit hinside) fun _ => bounded_narrower (ready_narrower _)

theorem nullTest_narrower (e : Expr) : Narrower room (nullTest limit e) (nullTest limit e) := by
  rw [nullTest_eq]
  refine taking_narrower opens_of_keyword (bounded_narrower ?_) (ready_narrower e)
  refine taking_narrower opens_of_keyword (ready_narrower _) ?_
  refine taking_narrower opens_of_keyword ?_ (stop_narrower _)
  exact taking_narrower opens_of_keyword (ready_narrower _) (stop_narrower _)

theorem operand_narrower (hlimit : 0 < limit) (h : Nests limit room inner outer) :
    Narrower room (operand limit inner) (operand limit outer) := by
  obtain ⟨more, hinside⟩ := h.soundInside
  rw [operand_eq, operand_eq]
  exact (negation_narrower hlimit h).andThen (negation_sound hlimit hinside) nullTest_narrower

/-- What stands between operands is no parenthesis. -/
def Between (operator : List Token → Option (BinaryOp × List Token)) : Prop :=
  ∀ tokens op rest, operator tokens = some (op, rest) → Skips tokens rest

theorem skips_append {read : List Token} (h : ∀ t ∈ read, opens t = 0) (rest : List Token) :
    Skips (read ++ rest) rest := by
  induction read with
  | nil => exact .done rest
  | cons t ts ih => exact .token (h t (by simp)) (ih fun u hu => h u (by simp [hu]))

theorem test?_between : Between test? := by
  intro tokens op rest h
  obtain ⟨os, rfl, hos⟩ := test?_sound h
  exact skips_append hos.flat rest

theorem connective?_between : Between connective? := by
  intro tokens op rest h
  obtain ⟨t, c, rfl, _, ht⟩ := connective?_sound h
  exact .token (opens_connective ht) (.done rest)

theorem link_narrower {operator : List Token → Option (BinaryOp × List Token)} {layer : Layer}
    {more : Nat} {f g : Expr → Reader} {left : Expr} (hbetween : Between operator)
    (hsound : Sound limit more layer q) (h : Narrower room r q)
    (hstep : ∀ e, Narrower room (f e) (g e)) :
    Narrower room (link limit operator r f left) (link limit operator q g left) := by
  intro tokens
  unfold link
  cases hop : operator tokens with
  | none => exact ready_narrower left tokens
  | some result =>
    obtain ⟨op, rest⟩ := result
    have hlink : Narrower room
        (r.andThen fun e => bounded limit (Expr.binary op left e).height (f (.binary op left e)))
        (q.andThen fun e => bounded limit (Expr.binary op left e).height (g (.binary op left e))) :=
      h.andThen hsound fun _ => bounded_narrower (hstep _)
    exact (hlink rest).skips (hbetween _ _ _ hop)

theorem chain_narrower {operator : List Token → Option (BinaryOp × List Token)} {layer : Layer}
    {more : Nat} (hbetween : Between operator) (hsound : Sound limit more layer q)
    (h : Narrower room r q) (levels : Nat) (left : Expr) :
    Narrower room (chain limit operator r levels left) (chain limit operator q levels left) := by
  induction levels generalizing left with
  | zero =>
    rw [chain_zero, chain_zero]
    exact link_narrower hbetween hsound h fun _ => stop_narrower .tooDeep
  | succ levels ih =>
    rw [chain_succ, chain_succ]
    exact link_narrower hbetween hsound h ih

theorem comparison_narrower (hlimit : 0 < limit) (h : Nests limit room inner outer) :
    Narrower room (comparison limit inner) (comparison limit outer) := by
  obtain ⟨more, hinside⟩ := h.soundInside
  have hsound := operand_sound hlimit hinside
  have hoperand := operand_narrower hlimit h
  rw [comparison_eq, comparison_eq]
  exact hoperand.andThen hsound (chain_narrower test?_between hsound hoperand limit)

theorem expressionWith_narrower (hlimit : 0 < limit) (h : Nests limit room inner outer) :
    Narrower room (expressionWith limit inner) (expressionWith limit outer) := by
  obtain ⟨more, hinside⟩ := h.soundInside
  have hsound := comparison_sound hlimit hinside
  have hcomparison := comparison_narrower hlimit h
  rw [expressionWith_eq, expressionWith_eq]
  exact hcomparison.andThen hsound (chain_narrower connective?_between hsound hcomparison limit)

/-- The reader of expressions with less room does what the one with more does until a parenthesis
does not fit. -/
theorem expression_narrower {more : Nat} (hlimit : 0 < limit) (hless : room < more) :
    Narrower room (expression limit room) (expression limit more) := by
  induction room generalizing more with
  | zero =>
    obtain ⟨n, rfl⟩ : ∃ n, more = n + 1 := ⟨more - 1, by omega⟩
    exact expressionWith_narrower hlimit
      (.closed (expression_sound hlimit) (expression_stops hlimit))
  | succ room ih =>
    obtain ⟨n, rfl⟩ : ∃ n, more = n + 1 := ⟨more - 1, by omega⟩
    have hinner := ih (Nat.lt_of_succ_lt_succ hless)
    exact expressionWith_narrower hlimit (.opened (expression_sound hlimit) hinner)

end RowFilter.Reader
