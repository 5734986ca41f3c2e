import Star9.Base.Prog

/-!
# Programs with a log

A program whose state holds more than that of another one, such as a log, does what
the other one does when it has the same result and, seen through `view`, the same state.
-/
namespace Base.Prog

variable {S T ε α β : Type} {view : S → T}

def Erases (view : S → T) (q : Prog S ε α) (p : Prog T ε α) : Prop := ∀ x, ((q x).1, view (q x).2) = p (view x)

theorem erases_pure (a : α) : Erases view (pure a : Prog S ε α) (pure a) := fun _ => rfl

theorem erases_throw (e : ε) : Erases view (throw e : Prog S ε α) (throw e) := fun _ => rfl

theorem erases_bind {q : Prog S ε α} {p : Prog T ε α} {g : α → Prog S ε β} {f : α → Prog T ε β}
    (hp : Erases view q p) (hf : ∀ a, Erases view (g a) (f a)) : Erases view (q >>= g) (p >>= f) := by
  intro x
  have hx := hp x
  rw [bind_apply, bind_apply, ← hx]
  rcases q x with ⟨a | e | _, x'⟩
  · exact hf a x'
  · rfl
  · rfl

theorem erases_attempt {q : Prog S ε α} {p : Prog T ε α} (hp : Erases view q p) : Erases view (attempt q) (attempt p) := by
  intro x
  have hx := hp x
  unfold attempt
  rw [← hx]
  rcases q x with ⟨a | e | _, x'⟩ <;> rfl

end Base.Prog
