namespace RowFilter

variable {ε α β : Type}

/-- A sequence of two steps succeeds when the first one does and the second one does on its
result. -/
theorem bind_eq_ok {x : Except ε α} {f : α → Except ε β} {b : β} :
    (x >>= f) = .ok b ↔ ∃ a, x = .ok a ∧ f a = .ok b := by
  constructor
  · intro h
    cases x with
    | error e => cases h
    | ok a => exact ⟨a, rfl, h⟩
  · rintro ⟨a, rfl, h⟩
    exact h

/-- A sequence of two steps fails where the first one does, or the second one on its result. -/
theorem bind_eq_error {x : Except ε α} {f : α → Except ε β} {e : ε} :
    (x >>= f) = .error e ↔ x = .error e ∨ ∃ a, x = .ok a ∧ f a = .error e := by
  cases x with
  | error d => simp [bind, Except.bind]
  | ok a => simp [bind, Except.bind]

theorem pure_eq_ok {a b : α} : (pure a : Except ε α) = .ok b ↔ a = b :=
  ⟨Except.ok.inj, congrArg Except.ok⟩

section States

variable {σ : Type} {x : ExceptT ε (StateM σ) α} {f : α → ExceptT ε (StateM σ) β}
variable {before between behind : σ}

theorem run_bind_of_ok {a : α} (h : x.run.run before = (.ok a, between)) :
    (x >>= f).run.run before = (f a).run.run between := by
  rw [ExceptT.run_bind, StateT.run_bind, h]
  rfl

theorem run_bind_of_error {e : ε} (h : x.run.run before = (.error e, behind)) :
    (x >>= f).run.run before = (.error e, behind) := by
  rw [ExceptT.run_bind, StateT.run_bind, h]
  rfl

/-- With a state, the second of two steps begins where the first one has ended. -/
theorem run_bind_eq_ok {b : β} : (x >>= f).run.run before = (.ok b, behind) ↔
    ∃ a between, x.run.run before = (.ok a, between) ∧
      (f a).run.run between = (.ok b, behind) := by
  constructor
  · intro h
    cases hx : x.run.run before with
    | mk result between =>
      cases result with
      | error e =>
        rw [run_bind_of_error hx] at h
        cases h
      | ok a =>
        rw [run_bind_of_ok hx] at h
        exact ⟨a, between, rfl, h⟩
  · rintro ⟨a, between, hx, h⟩
    rw [run_bind_of_ok hx, h]

/-- The second of two steps is taken only if the first one has not failed. -/
theorem run_bind_eq_error {e : ε} : (x >>= f).run.run before = (.error e, behind) ↔
    x.run.run before = (.error e, behind) ∨
      ∃ a between, x.run.run before = (.ok a, between) ∧
        (f a).run.run between = (.error e, behind) := by
  constructor
  · intro h
    cases hx : x.run.run before with
    | mk result between =>
      cases result with
      | error d =>
        rw [run_bind_of_error hx] at h
        cases h
        exact .inl rfl
      | ok a =>
        rw [run_bind_of_ok hx] at h
        exact .inr ⟨a, between, rfl, h⟩
  · rintro (hx | ⟨a, between, hx, h⟩)
    · exact run_bind_of_error hx
    · rw [run_bind_of_ok hx, h]

end States

end RowFilter
