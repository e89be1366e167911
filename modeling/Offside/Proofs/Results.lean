/-!
# Results — how steps that may fail compose

This file takes runs of composed steps apart and puts them together again.  Parsers, steps of a machine
and steps of a frame are all of this kind.
-/

namespace Offside

variable {ε σ α β : Type}

theorem bind_of_ok {p : EStateM ε σ α} {f : α → EStateM ε σ β} {s u : σ} {x : α}
    (h : p s = .ok x u) : (p >>= f) s = f x u := by
  show EStateM.bind p f s = f x u
  rw [EStateM.bind, h]

theorem bind_of_error {p : EStateM ε σ α} {f : α → EStateM ε σ β} {s u : σ} {e : ε}
    (h : p s = .error e u) : (p >>= f) s = .error e u := by
  show EStateM.bind p f s = .error e u
  rw [EStateM.bind, h]

theorem bind_eq_ok {p : EStateM ε σ α} {f : α → EStateM ε σ β} {s t : σ} {y : β}
    (h : (p >>= f) s = .ok y t) : ∃ x u, p s = .ok x u ∧ f x u = .ok y t := by
  cases hp : p s with
  | ok x u =>
      rw [bind_of_ok hp] at h
      exact ⟨x, u, rfl, h⟩
  | error e u =>
      rw [bind_of_error hp] at h
      cases h

theorem bind_eq_error {p : EStateM ε σ α} {f : α → EStateM ε σ β} {s t : σ} {e : ε}
    (h : (p >>= f) s = .error e t) :
    p s = .error e t ∨ ∃ x u, p s = .ok x u ∧ f x u = .error e t := by
  cases hp : p s with
  | ok x u =>
      rw [bind_of_ok hp] at h
      exact .inr ⟨x, u, rfl, h⟩
  | error e' u =>
      rw [bind_of_error hp] at h
      cases h
      exact .inl rfl

@[simp] theorem pure_eq_ok_iff {x y : α} {s t : σ} :
    (pure x : EStateM ε σ α) s = .ok y t ↔ x = y ∧ s = t := by
  simp [pure, EStateM.pure]

theorem eq_of_pure_eq_ok {x y : α} {s t : σ} (h : (pure x : EStateM ε σ α) s = .ok y t) :
    x = y ∧ s = t :=
  pure_eq_ok_iff.mp h

/-- The state in which a step ends, whether it fails or not. -/
def endOf : EStateM.Result ε σ α → σ
  | .ok _ s => s
  | .error _ s => s

/-- The same result in another state. -/
def mapEnd (f : σ → σ) : EStateM.Result ε σ α → EStateM.Result ε σ α
  | .ok x s => .ok x (f s)
  | .error e s => .error e (f s)

end Offside
