import Star9.Base.Prog

/-!
# Loops with a measure

A loop that takes one step after another until a step leaves it. A step that goes on
decreases a measure, so the loop comes back if it is allowed more steps than that, and what
every step keeps still holds then.
-/
namespace Base
variable {σ ε β : Type}

/-- At most so many steps. A step fails, goes on from a new state, or leaves with a value. -/
def iterate (step : σ → Outcome ε (σ ⊕ β)) : Nat → σ → Outcome ε β
  | 0, _ => .abort
  | fuel + 1, s =>
    match step s with
    | .ok (.inl s') => iterate step fuel s'
    | .ok (.inr b) => .ok b
    | .err e => .err e
    | .abort => .abort

/-- Every step comes back, and one that goes on decreases the measure. -/
structure Decreases (step : σ → Outcome ε (σ ⊕ β)) (size : σ → Nat) : Prop where
  returns : ∀ s, step s ≠ .abort
  less : ∀ s s', step s = .ok (.inl s') → size s' < size s

section
variable {step : σ → Outcome ε (σ ⊕ β)} {size : σ → Nat}

theorem iterate_of_step {s s' : σ} (h : step s = .ok (.inl s')) (fuel : Nat) : iterate step (fuel + 1) s = iterate step fuel s' := by
  rw [iterate, h]

theorem iterate_of_leave {s : σ} {b : β} (h : step s = .ok (.inr b)) (fuel : Nat) : iterate step (fuel + 1) s = .ok b := by
  rw [iterate, h]

theorem iterate_of_error {s : σ} {e : ε} (h : step s = .err e) (fuel : Nat) : iterate step (fuel + 1) s = .err e := by
  rw [iterate, h]

theorem iterate_returns (hstep : Decreases step size) {fuel : Nat} {s : σ} (h : size s < fuel) : iterate step fuel s ≠ .abort := by
  induction fuel generalizing s with
  | zero => exact absurd h (Nat.not_lt_zero _)
  | succ fuel ih =>
    cases hs : step s with
    | err e =>
      rw [iterate_of_error hs]
      exact Outcome.err_ne_abort
    | abort => exact absurd hs (hstep.returns s)
    | ok next =>
      cases next with
      | inl s' =>
        rw [iterate_of_step hs]
        exact ih (Nat.lt_of_lt_of_le (hstep.less s s' hs) (Nat.le_of_lt_succ h))
      | inr b =>
        rw [iterate_of_leave hs]
        exact Outcome.ok_ne_abort

/-- What every step keeps holds of what the loop comes back with. -/
theorem iterate_invariant {P : σ → Prop} {Q : β → Prop} (hgo : ∀ s s', P s → step s = .ok (.inl s') → P s')
    (hleave : ∀ s b, P s → step s = .ok (.inr b) → Q b) {fuel : Nat} {s : σ} (hs : P s) {b : β} (h : iterate step fuel s = .ok b) : Q b := by
  induction fuel generalizing s with
  | zero => cases h
  | succ fuel ih =>
    cases hstep : step s with
    | err e =>
      rw [iterate_of_error hstep] at h
      cases h
    | abort =>
      rw [iterate, hstep] at h
      cases h
    | ok next =>
      cases next with
      | inl s' =>
        rw [iterate_of_step hstep] at h
        exact ih (hgo s s' hs hstep) h
      | inr b' =>
        rw [iterate_of_leave hstep] at h
        cases h
        exact hleave s b hs hstep

end
end Base
