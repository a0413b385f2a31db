import RowFilter.Proofs.Layers

namespace RowFilter

/-- A stop in these tokens with at most `room` parentheses left open. A number is refused where it
stands, and a tree or a parenthesis is too deep only behind a token. -/
structure Stop.In (room : Nat) (tokens : List Token) (s : Stop) : Prop where
  rest_suffix : s.rest <:+ tokens
  opened_le : s.opened ≤ room
  number_mem : ∀ t, s.reason = .invalidNumber t → t ∈ tokens
  passed : s.reason = .tooDeep → s.rest.length < tokens.length

theorem Stop.In.mono {room : Nat} {ts tokens : List Token} {s : Stop} (h : s.In room ts)
    (hts : ts <:+ tokens) : s.In room tokens where
  rest_suffix := h.rest_suffix.trans hts
  opened_le := h.opened_le
  number_mem t ht := hts.subset (h.number_mem t ht)
  passed hdeep := by
    have hlt := h.passed hdeep
    have hle := hts.length_le
    omega

namespace Reader

open Grammar

variable {α : Type} {limit room : Nat} {inner : Option Reader} {tokens rest : List Token} {s : Stop}

theorem in_of_expected {e : Expected}
    (h : (stop (.expected e) rest : Except Stop α) = .error s) (hrest : rest <:+ tokens) :
    s.In room tokens := by
  cases h
  exact ⟨hrest, Nat.zero_le _, by simp, by simp⟩

theorem in_of_invalidNumber {t : Token}
    (h : (stop (.invalidNumber t) rest : Except Stop α) = .error s) (hrest : rest <:+ tokens)
    (ht : t ∈ tokens) : s.In room tokens := by
  cases h
  exact ⟨hrest, Nat.zero_le _, by simpa using ht, by simp⟩

theorem in_of_tooDeep (h : (stop .tooDeep rest : Except Stop α) = .error s)
    (hrest : rest <:+ tokens) (hpassed : rest.length < tokens.length) : s.In room tokens := by
  cases h
  exact ⟨hrest, Nat.zero_le _, by simp, fun _ => hpassed⟩

theorem elements_stops (h : elements tokens = .error s) : s.In room tokens := by
  induction tokens using elements.induct with
  | case1 => exact in_of_expected h (List.suffix_refl _)
  | case2 t rest hl =>
    simp only [elements, hl] at h
    exact in_of_expected h (List.suffix_refl _)
  | case3 t rest hl =>
    simp only [elements, hl] at h
    exact in_of_invalidNumber h (List.suffix_cons t rest) (by simp)
  | case4 t c hl =>
    simp only [elements, hl] at h
    exact in_of_expected h (List.suffix_cons t [])
  | case5 t c hl u rest hu ih =>
    simp only [elements, hl, hu, if_true] at h
    have hrest : rest <:+ t :: u :: rest := (List.suffix_cons u rest).trans (List.suffix_cons t _)
    rcases bind_eq_error.mp h with herror | ⟨_, _, hpure⟩
    · exact (ih herror).mono hrest
    · cases hpure
  | case6 t c hl u rest hcomma hu =>
    simp only [elements, hl, hu, if_true] at h
    simp at h
  | case7 t c hl u rest hcomma hclose =>
    simp only [elements, hl, hcomma, hclose, if_false] at h
    exact in_of_expected h (List.suffix_cons t _)

theorem item_stops (h : item tokens = .error s) : s.In room tokens := by
  unfold item at h
  split at h
  next => exact in_of_expected h (List.suffix_refl _)
  next t rest =>
    split at h
    next => cases h
    next =>
      split at h
      next =>
        rcases bind_eq_error.mp h with herror | ⟨_, _, hpure⟩
        · exact (elements_stops herror).mono (List.suffix_cons t rest)
        · cases hpure
      next =>
        split at h
        next => exact in_of_expected h (List.suffix_refl _)
        next => exact in_of_invalidNumber h (List.suffix_cons t rest) (by simp)
        next => cases h

/-- A reader that may open `room` parentheses stops only where it may. -/
def Stops (room : Nat) (r : Reader) : Prop :=
  ∀ tokens s, r tokens = .error s → s.In room tokens

/-- A reader that stops only where it may behind a token that was taken. -/
def StopsBehind (room : Nat) (r : Reader) : Prop :=
  ∀ tokens rest s, rest <:+ tokens → rest.length < tokens.length → r rest = .error s →
    s.In room tokens

/-- The reader inside parentheses takes what it should and stops where it may. -/
structure Inside (limit room : Nat) (inner : Option Reader) : Prop where
  sound : SoundInside limit room inner
  stops : ∀ r, inner = some r → ∃ n, room = n + 1 ∧ Stops n r

theorem suffix_of_sound {layer : Layer} {r : Reader} {e : Expr} (hr : Sound limit room layer r)
    (h : r tokens = .ok (e, rest)) : rest <:+ tokens := by
  obtain ⟨ts, hts, _⟩ := hr _ _ _ h
  exact ⟨ts, hts.symm⟩

section

variable {kind : TokenKind} {layer : Layer} {r taken other : Reader} {f : Expr → Reader}

theorem Stops.behind (h : Stops room r) : StopsBehind room r :=
  fun _ _ _ hrest _ hs => (h _ _ hs).mono hrest

theorem ready_stops (e : Expr) : Stops room (ready e) := by
  intro tokens s h
  cases h

theorem expected_stops (e : Expected) : Stops room (stop (.expected e)) :=
  fun tokens _ h => in_of_expected h (List.suffix_refl tokens)

theorem tooDeep_stops : StopsBehind room (stop .tooDeep) :=
  fun _ _ _ hrest hpassed h => in_of_tooDeep h hrest hpassed

theorem bounded_stops {height : Nat} (h : StopsBehind room r) :
    StopsBehind room (bounded limit height r) := by
  intro tokens rest s hrest hpassed hs
  unfold bounded at hs
  split at hs
  next => exact tooDeep_stops _ _ _ hrest hpassed hs
  next => exact h _ _ _ hrest hpassed hs

theorem taking_stops (htaken : StopsBehind room taken) (hother : Stops room other) :
    Stops room (taking kind taken other) := by
  intro tokens s h
  rcases head_cases kind tokens with ⟨t, rest, ht, rfl⟩ | hnone
  · rw [taking_head ht] at h
    exact htaken _ _ _ (List.suffix_cons t rest) (by simp) h
  · rw [taking_other hnone] at h
    exact hother _ _ h

theorem Stops.andThen (hsound : Sound limit room layer r) (h : Stops room r)
    (hnext : ∀ e, Stops room (f e)) : Stops room (r.andThen f) := by
  intro tokens s hs
  rcases bind_eq_error.mp hs with herror | ⟨⟨e, rest⟩, hr, hf⟩
  · exact h _ _ herror
  · exact (hnext e _ _ hf).mono (suffix_of_sound hsound hr)

theorem StopsBehind.andThen (hsound : Sound limit room layer r) (h : StopsBehind room r)
    (hnext : ∀ e, StopsBehind room (f e)) : StopsBehind room (r.andThen f) := by
  intro tokens rest s hrest hpassed hs
  rcases bind_eq_error.mp hs with herror | ⟨⟨e, after⟩, hr, hf⟩
  · exact h _ _ _ hrest hpassed herror
  · have hafter := suffix_of_sound hsound hr
    exact hnext e _ _ _ (hafter.trans hrest) (Nat.lt_of_le_of_lt hafter.length_le hpassed) hf

/-- A stop inside a parenthesis leaves that one open too. -/
theorem closing_stops (hsound : Sound limit room layer r) (h : Stops room r) :
    Stops (room + 1) fun tokens => closing (r tokens) := by
  intro tokens s hs
  simp only at hs
  cases hr : r tokens with
  | error d =>
    rw [hr] at hs
    obtain rfl := Except.error.inj hs
    have hin := h _ _ hr
    exact ⟨hin.rest_suffix, Nat.succ_le_succ hin.opened_le, hin.number_mem, hin.passed⟩
  | ok result =>
    obtain ⟨e, rest⟩ := result
    rw [hr] at hs
    exact (taking_stops (ready_stops e).behind (expected_stops _) _ _ hs).mono
      (suffix_of_sound hsound hr)

theorem link_stops {operator : List Token → Option (BinaryOp × List Token)} {left : Expr}
    (hoperator : ∀ tokens op rest, operator tokens = some (op, rest) →
      rest <:+ tokens ∧ rest.length < tokens.length)
    (hsound : Sound limit room layer r) (h : Stops room r) (hmore : ∀ e, StopsBehind room (f e)) :
    Stops room (link limit operator r f left) := by
  intro tokens s hs
  unfold link at hs
  split at hs
  next => cases hs
  next op rest hop =>
    obtain ⟨hrest, hpassed⟩ := hoperator _ _ _ hop
    have hlink : StopsBehind room (r.andThen fun right =>
        bounded limit (Expr.binary op left right).height (f (.binary op left right))) :=
      h.behind.andThen hsound fun _ => bounded_stops (hmore _)
    exact hlink _ _ _ hrest hpassed hs

end

theorem factor_stops (hinner : Inside limit room inner) : Stops room (factor inner) := by
  rw [factor_eq]
  refine taking_stops ?_ fun _ _ => item_stops
  cases inner with
  | none => exact tooDeep_stops
  | some r =>
    obtain ⟨n, rfl, hstops⟩ := hinner.stops r rfl
    obtain ⟨m, hm, hsound⟩ := hinner.sound r rfl
    obtain rfl := Nat.succ.inj hm
    exact (closing_stops hsound hstops).behind

theorem negation_stops (hlimit : 0 < limit) (hinner : Inside limit room inner) :
    Stops room (negation limit inner) := by
  have hfactor := factor_stops hinner
  rw [negation_eq]
  refine taking_stops ?_ hfactor
  exact hfactor.behind.andThen (factor_sound hlimit hinner.sound) fun e =>
    bounded_stops (ready_stops _).behind

theorem nullTest_stops (e : Expr) : Stops room (nullTest limit e) := by
  rw [nullTest_eq]
  refine taking_stops (bounded_stops (Stops.behind ?_)) (ready_stops e)
  refine taking_stops (ready_stops _).behind (taking_stops (Stops.behind ?_) (expected_stops _))
  exact taking_stops (ready_stops _).behind (expected_stops _)

theorem operand_stops (hlimit : 0 < limit) (hinner : Inside limit room inner) :
    Stops room (operand limit inner) := by
  rw [operand_eq]
  exact (negation_stops hlimit hinner).andThen (negation_sound hlimit hinner.sound) nullTest_stops

theorem test?_shorter {op : BinaryOp} (h : test? tokens = some (op, rest)) :
    rest <:+ tokens ∧ rest.length < tokens.length := by
  obtain ⟨os, rfl, hos⟩ := test?_sound h
  refine ⟨List.suffix_append os rest, ?_⟩
  cases hos <;> simp only [List.cons_append, List.nil_append, List.length_cons] <;> omega

theorem connective?_shorter {op : BinaryOp} (h : connective? tokens = some (op, rest)) :
    rest <:+ tokens ∧ rest.length < tokens.length := by
  obtain ⟨t, c, rfl, _, _⟩ := connective?_sound h
  exact ⟨List.suffix_cons t rest, by simp⟩

theorem chain_stops {operator : List Token → Option (BinaryOp × List Token)} {operand : Reader}
    {below : Layer} (hoperator : ∀ tokens op rest, operator tokens = some (op, rest) →
      rest <:+ tokens ∧ rest.length < tokens.length)
    (hsound : Sound limit room below operand) (hstops : Stops room operand) (levels : Nat)
    (left : Expr) : Stops room (chain limit operator operand levels left) := by
  induction levels generalizing left with
  | zero =>
    rw [chain_zero]
    exact link_stops hoperator hsound hstops fun _ => tooDeep_stops
  | succ levels ih =>
    rw [chain_succ]
    exact link_stops hoperator hsound hstops fun e => (ih e).behind

theorem comparison_stops (hlimit : 0 < limit) (hinner : Inside limit room inner) :
    Stops room (comparison limit inner) := by
  have hsound := operand_sound hlimit hinner.sound
  have hstops := operand_stops hlimit hinner
  rw [comparison_eq]
  exact hstops.andThen hsound (chain_stops (fun _ _ _ => test?_shorter) hsound hstops limit)

theorem expressionWith_stops (hlimit : 0 < limit) (hinner : Inside limit room inner) :
    Stops room (expressionWith limit inner) := by
  have hsound := comparison_sound hlimit hinner.sound
  have hstops := comparison_stops hlimit hinner
  rw [expressionWith_eq]
  exact hstops.andThen hsound (chain_stops (fun _ _ _ => connective?_shorter) hsound hstops limit)

/-- What the reader of expressions leaves open it had room for. -/
theorem expression_stops (hlimit : 0 < limit) : Stops room (expression limit room) := by
  induction room with
  | zero =>
    have hinner : Inside limit 0 none := ⟨soundInside_none limit 0, fun r hr => by cases hr⟩
    exact expressionWith_stops hlimit hinner
  | succ room ih =>
    have hinner : Inside limit (room + 1) (some (expression limit room)) := by
      refine ⟨soundInside_some (expression_sound hlimit), fun r hr => ?_⟩
      obtain rfl := Option.some.inj hr
      exact ⟨room, rfl, ih⟩
    exact expressionWith_stops hlimit hinner

end Reader

end RowFilter
