/-! # Computations in sequence

A sequence of computations succeeds only if both parts do, and fails where its first part fails. -/
namespace TreeLowering
set_option autoImplicit false

theorem exists_of_bind_eq_ok {ε α β : Type} {x : Except ε α} {f : α → Except ε β} {b : β}
    (h : x >>= f = .ok b) : ∃ a, x = .ok a ∧ f a = .ok b := by
  cases x with
  | error e => cases h
  | ok a => exact ⟨a, rfl, h⟩

theorem exists_of_map_eq_ok {ε α β : Type} {x : Except ε α} {f : α → β} {b : β} (h : x.map f = .ok b) :
    ∃ a, x = .ok a ∧ f a = b := by
  cases x with
  | error e => cases h
  | ok a =>
    cases h
    exact ⟨a, rfl, rfl⟩

theorem error_cases_of_bind {ε α β : Type} {x : Except ε α} {f : α → Except ε β} {e : ε}
    (h : x >>= f = .error e) : x = .error e ∨ ∃ a, x = .ok a ∧ f a = .error e := by
  cases x with
  | error e' =>
    cases h
    exact .inl rfl
  | ok a => exact .inr ⟨a, rfl, h⟩

theorem eq_error_of_map {ε α β : Type} {x : Except ε α} {f : α → β} {e : ε} (h : x.map f = .error e) :
    x = .error e := by
  cases x with
  | error e' =>
    cases h
    rfl
  | ok a => cases h

theorem exists_of_run_eq_ok {ε σ α β : Type} {m : EStateM ε σ α} {k : α → EStateM ε σ β} {s t : σ}
    {b : β} (h : (m >>= k) s = .ok b t) : ∃ a u, m s = .ok a u ∧ k a u = .ok b t := by
  cases hRun : m s with
  | ok a u => exact ⟨a, u, rfl, by simpa [bind, EStateM.bind, hRun] using h⟩
  | error e u => simp [bind, EStateM.bind, hRun] at h

theorem run_bind_of_ok {ε σ α β : Type} {m : EStateM ε σ α} {s t : σ} {a : α} (h : m s = .ok a t)
    (k : α → EStateM ε σ β) : (m >>= k) s = k a t := by
  simp only [bind, EStateM.bind, h]

theorem run_bind_of_error {ε σ α β : Type} {m : EStateM ε σ α} {s t : σ} {e : ε} (h : m s = .error e t)
    (k : α → EStateM ε σ β) : (m >>= k) s = .error e t := by
  simp only [bind, EStateM.bind, h]

end TreeLowering
