import Star9.Base.Prog

/-!
# Runs that do not come back

When a program aborts, as a condition on the state it starts from. The rules follow
the constructs of programs, so that the condition of a long program is put together
from those of its calls. A calm program never aborts.
-/
namespace Base.Prog
variable {S T ε α β : Type}

def Aborts (p : Prog S ε α) (s : S) : Prop := (p s).1 = .abort

def Calm (p : Prog S ε α) : Prop := ∀ s, ¬ Aborts p s

section
variable {p q : Prog S ε α} {f : α → Prog S ε β} {s : S}

theorem Calm.not_aborts (h : Calm p) (s : S) : ¬ Aborts p s := h s

theorem calm_pure (a : α) : Calm (pure a : Prog S ε α) := fun _ => Outcome.ok_ne_abort

theorem calm_throw (e : ε) : Calm (throw e : Prog S ε α) := fun _ => Outcome.err_ne_abort

theorem calm_get : Calm (get : Prog S ε S) := fun _ => Outcome.ok_ne_abort

theorem calm_modify (g : S → S) : Calm (modify g : Prog S ε Unit) := fun _ => Outcome.ok_ne_abort

theorem calm_ofExcept (x : Except ε α) : Calm (ofExcept x : Prog S ε α) := by
  cases x with
  | ok a => exact calm_pure a
  | error e => exact calm_throw e

theorem calm_ofOption (e : ε) (o : Option α) : Calm (ofOption e o : Prog S ε α) := by
  cases o with
  | some a => exact calm_pure a
  | none => exact calm_throw e

theorem aborts_abort (s : S) : Aborts (abort : Prog S ε α) s := rfl

/-- A sequence aborts in its first half, or in its second after the first has returned. -/
theorem aborts_bind : Aborts (p >>= f) s ↔ Aborts p s ∨ ∃ a s₁, p s = (.ok a, s₁) ∧ Aborts (f a) s₁ := by
  unfold Aborts
  rw [bind_apply]
  rcases p s with ⟨a | e | _, s₁⟩ <;> simp

theorem aborts_bind_of_ok {a : α} {s₁ : S} (h : p s = (.ok a, s₁)) : Aborts (p >>= f) s ↔ Aborts (f a) s₁ := by
  unfold Aborts
  rw [bind_ok h]

theorem not_aborts_bind_of_err {e : ε} {s₁ : S} (h : p s = (.err e, s₁)) : ¬ Aborts (p >>= f) s := by
  unfold Aborts
  rw [bind_err h]
  exact Outcome.err_ne_abort

theorem aborts_bind_calm (hf : ∀ a, Calm (f a)) : Aborts (p >>= f) s ↔ Aborts p s := by
  rw [aborts_bind]
  refine ⟨?_, Or.inl⟩
  rintro (h | ⟨a, s₁, -, h⟩)
  · exact h
  · exact absurd h (hf a s₁)

/-- Behind a calm first half the run aborts exactly when the second half does. -/
theorem aborts_calm_bind (hp : Calm p) : Aborts (p >>= f) s ↔ ∃ a s₁, p s = (.ok a, s₁) ∧ Aborts (f a) s₁ := by
  rw [aborts_bind, or_iff_right (hp s)]

theorem calm_bind (hp : Calm p) (hf : ∀ a, Calm (f a)) : Calm (p >>= f) := by
  intro s h
  rw [aborts_bind_calm hf] at h
  exact hp s h

theorem aborts_get_bind {f : S → Prog S ε β} : Aborts (get >>= f) s ↔ Aborts (f s) s := Iff.rfl

theorem aborts_ofExcept_bind {x : Except ε α} : Aborts (ofExcept x >>= f) s ↔ ∃ a, x = .ok a ∧ Aborts (f a) s := by
  cases x with
  | ok a => exact ⟨fun h => ⟨a, rfl, h⟩, fun ⟨b, hb, h⟩ => by cases hb; exact h⟩
  | error e => exact iff_of_false Outcome.err_ne_abort fun ⟨b, hb, _⟩ => by cases hb

theorem aborts_ofOption_bind {e : ε} {o : Option α} : Aborts (ofOption e o >>= f) s ↔ ∃ a, o = some a ∧ Aborts (f a) s := by
  cases o with
  | some a => exact ⟨fun h => ⟨a, rfl, h⟩, fun ⟨b, hb, h⟩ => by cases hb; exact h⟩
  | none => exact iff_of_false Outcome.err_ne_abort fun ⟨b, hb, _⟩ => by cases hb

theorem aborts_ite {c : Prop} [Decidable c] : Aborts (if c then p else q) s ↔ (c ∧ Aborts p s) ∨ (¬ c ∧ Aborts q s) := by
  by_cases hc : c
  · rw [if_pos hc, and_iff_right hc, or_iff_left fun h => h.1 hc]
  · rw [if_neg hc, and_iff_right hc, or_iff_right fun h => hc h.1]

/-- A guard that throws lets only the other states abort. -/
theorem aborts_guard {c : Prop} [Decidable c] (hp : Calm p) : Aborts (if c then p else q) s ↔ ¬ c ∧ Aborts q s := by
  rw [aborts_ite, or_iff_right fun h => hp s h.2]

theorem calm_ite {c : Prop} [Decidable c] (hp : Calm p) (hq : Calm q) : Calm (if c then p else q) := by
  split
  · exact hp
  · exact hq

theorem aborts_attempt : Aborts (attempt p) s ↔ Aborts p s := by
  unfold Aborts attempt
  rcases p s with ⟨a | e | _, s₁⟩ <;> simp

theorem calm_attempt (hp : Calm p) : Calm (attempt p) := fun s h => hp s (aborts_attempt.mp h)

end

theorem calm_zoom {get : S → T} {set : T → S → S} {p : Prog T ε α} (hp : Calm p) : Calm (zoom get set p) :=
  fun s => hp (get s)

end Base.Prog
