import Mathlib

/-!
# Runs of a step function

A system is a step function on states and actions. An invariant that every
allowed step keeps holds in every state that a run of allowed steps goes through.
-/
namespace Base

variable {S A : Type} (step : S → A → S)

def run (s : S) (as : List A) : S := as.foldl step s

/-- Every step of the run is taken in a state that allows it. -/
def StepsMeet (ok : S → A → Prop) : S → List A → Prop
  | _, [] => True
  | s, a :: as => ok s a ∧ StepsMeet ok (step s a) as

instance StepsMeet.decidable (ok : S → A → Prop) [∀ s a, Decidable (ok s a)] :
    ∀ (s : S) (as : List A), Decidable (StepsMeet step ok s as)
  | _, [] => isTrue trivial
  | s, a :: as => @instDecidableAnd _ _ _ (StepsMeet.decidable ok (step s a) as)

variable {step}

@[simp] theorem run_nil (s : S) : run step s [] = s := rfl

@[simp] theorem run_cons (s : S) (a : A) (as : List A) : run step s (a :: as) = run step (step s a) as := rfl

theorem StepsMeet.take {ok : S → A → Prop} {s : S} {as : List A} (h : StepsMeet step ok s as) (k : Nat) :
    StepsMeet step ok s (as.take k) := by
  induction as generalizing s k with
  | nil => simpa using h
  | cons a as ih =>
    cases k with
    | zero => trivial
    | succ k => exact ⟨h.1, ih h.2 k⟩

theorem StepsMeet.allowed {ok : S → A → Prop} {s : S} {as : List A} (h : StepsMeet step ok s as) {k : Nat} {a : A}
    (hk : as[k]? = some a) : ok (run step s (as.take k)) a := by
  induction as generalizing s k with
  | nil => cases hk
  | cons b as ih =>
    cases k with
    | zero =>
      cases hk
      exact h.1
    | succ k => exact ih h.2 hk

theorem run_invariant {ok : S → A → Prop} {I : S → Prop} (hstep : ∀ s a, I s → ok s a → I (step s a))
    {s : S} {as : List A} (hs : I s) (h : StepsMeet step ok s as) : I (run step s as) := by
  induction as generalizing s with
  | nil => exact hs
  | cons a as ih => exact ih (hstep s a hs h.1) h.2

/-- When a step keeps the invariant exactly if it is allowed, so does a run with all its states. -/
theorem forall_take_iff_stepsMeet {ok : S → A → Prop} {I : S → Prop}
    (hstep : ∀ s a, I s → (I (step s a) ↔ ok s a)) {s : S} (hs : I s) (as : List A) :
    (∀ k, I (run step s (as.take k))) ↔ StepsMeet step ok s as := by
  constructor
  · intro h
    induction as generalizing s with
    | nil => trivial
    | cons a as ih =>
      have hnext : I (step s a) := h 1
      exact ⟨(hstep s a hs).mp hnext, ih hnext fun k => h (k + 1)⟩
  · intro h k
    exact run_invariant (fun s a hs hok => (hstep s a hs).mpr hok) hs (h.take k)

/-- The same where a step is allowed in every state or in none. -/
theorem run_invariant_of_mem {ok : A → Prop} {I : S → Prop} (hstep : ∀ s a, I s → ok a → I (step s a)) {s : S} (hs : I s)
    {as : List A} (h : ∀ a ∈ as, ok a) : I (run step s as) := by
  induction as generalizing s with
  | nil => exact hs
  | cons a as ih =>
    rw [List.forall_mem_cons] at h
    exact ih (hstep s a hs h.1) h.2

theorem run_invariant_of_step {I : S → Prop} (hstep : ∀ s a, I s → I (step s a)) {s : S} (hs : I s)
    (as : List A) : I (run step s as) := by
  induction as generalizing s with
  | nil => exact hs
  | cons a as ih => exact ih (hstep s a hs)

end Base
