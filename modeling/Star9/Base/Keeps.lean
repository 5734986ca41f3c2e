import Star9.Base.Prog

/-!
# What a run that returns has kept

A run that returns a value leaves the observation as it was. So does a run that throws, if
the program may throw at all. Nothing is said about a run that does not come back.
-/
namespace Base.Prog
variable {S ε α β γ : Type}

structure Keeps (throws : Prop) (obs : S → γ) (p : Prog S ε α) : Prop where
  returned : ∀ s a s', p s = (.ok a, s') → obs s' = obs s
  thrown : ∀ s e s', p s = (.err e, s') → throws ∧ obs s' = obs s

section
variable {T U : Prop} {obs : S → γ} {p q : Prog S ε α} {f : α → Prog S ε β}

theorem Keeps.mono (h : Keeps T obs p) (hU : T → U) : Keeps U obs p :=
  ⟨h.returned, fun s e s' hrun => ⟨hU (h.thrown s e s' hrun).1, (h.thrown s e s' hrun).2⟩⟩

/-- A program that never throws is one that may. -/
theorem Keeps.may (h : Keeps False obs p) : Keeps U obs p := h.mono False.elim

theorem keeps_of_preserves (h : Preserves obs p) : Keeps True obs p := by
  constructor
  · intro s a s' hrun
    rw [← h s, hrun]
  · intro s e s' hrun
    exact ⟨trivial, by rw [← h s, hrun]⟩

theorem keeps_pure (a : α) : Keeps T obs (pure a : Prog S ε α) := by
  constructor
  · intro s b s' hrun
    cases hrun
    rfl
  · intro s e s' hrun
    cases hrun

theorem keeps_throw (e : ε) : Keeps True obs (throw e : Prog S ε α) := keeps_of_preserves (preserves_throw e)

theorem keeps_abort : Keeps T obs (abort : Prog S ε α) := by
  constructor
  · intro s a s' hrun
    cases hrun
  · intro s e s' hrun
    cases hrun

theorem keeps_get : Keeps T obs (get : Prog S ε S) := by
  constructor
  · intro s b s' hrun
    cases hrun
    rfl
  · intro s e s' hrun
    cases hrun

theorem keeps_modify {g : S → S} (h : ∀ s, obs (g s) = obs s) : Keeps T obs (modify g : Prog S ε Unit) := by
  constructor
  · intro s b s' hrun
    cases hrun
    exact h s
  · intro s e s' hrun
    cases hrun

theorem keeps_ofExcept (x : Except ε α) : Keeps True obs (ofExcept x : Prog S ε α) := keeps_of_preserves (preserves_ofExcept x)

theorem keeps_bind (hp : Keeps T obs p) (hf : ∀ a, Keeps T obs (f a)) : Keeps T obs (p >>= f) := by
  constructor
  · intro s b s' hrun
    obtain ⟨a, s₁, hfirst, hlast⟩ := bind_eq_ok.mp hrun
    exact ((hf a).returned s₁ b s' hlast).trans (hp.returned s a s₁ hfirst)
  · intro s e s' hrun
    rcases bind_eq_err.mp hrun with hfirst | ⟨a, s₁, hfirst, hlast⟩
    · exact hp.thrown s e s' hfirst
    · obtain ⟨hT, hobs⟩ := (hf a).thrown s₁ e s' hlast
      exact ⟨hT, hobs.trans (hp.returned s a s₁ hfirst)⟩

/-- A state that is put back with a change that the observation does not see. -/
theorem keeps_get_set {g : S → S} {k : S → Prog S ε α} (hg : ∀ s, obs (g s) = obs s) (hk : ∀ s, Keeps T obs (k s)) :
    Keeps T obs (get >>= fun s => set (g s) >>= fun _ => k s) := by
  constructor
  · intro s b s' hrun
    exact ((hk s).returned (g s) b s' hrun).trans (hg s)
  · intro s e s' hrun
    obtain ⟨hT, hobs⟩ := (hk s).thrown (g s) e s' hrun
    exact ⟨hT, hobs.trans (hg s)⟩

theorem keeps_map (hp : Keeps T obs p) (g : α → β) : Keeps T obs (g <$> p) := by
  rw [← bind_pure_comp]
  exact keeps_bind hp fun a => keeps_pure (g a)

theorem keeps_attempt (hp : Keeps T obs p) : Keeps U obs (attempt p) := by
  constructor
  · intro s r s' hrun
    rcases hfirst : p s with ⟨a | e | _, s₁⟩
    · rw [attempt_ok hfirst] at hrun
      cases hrun
      exact hp.returned s a s' hfirst
    · rw [attempt_err hfirst] at hrun
      cases hrun
      exact (hp.thrown s e s' hfirst).2
    · rw [attempt_abort hfirst] at hrun
      cases hrun
  · intro s e s' hrun
    rcases hfirst : p s with ⟨a | e₁ | _, s₁⟩
    · rw [attempt_ok hfirst] at hrun
      cases hrun
    · rw [attempt_err hfirst] at hrun
      cases hrun
    · rw [attempt_abort hfirst] at hrun
      cases hrun

theorem keeps_ite {c : Prop} [Decidable c] (hp : Keeps T obs p) (hq : Keeps T obs q) : Keeps T obs (if c then p else q) := by
  split
  · exact hp
  · exact hq

theorem keeps_option {k : Option β → Prog S ε α} (hnone : Keeps T obs (k none)) (hsome : ∀ b, Keeps T obs (k (some b))) (found : Option β) :
    Keeps T obs (k found) := by
  cases found with
  | none => exact hnone
  | some b => exact hsome b

theorem keeps_mapM {items : List α} (hf : ∀ a, Keeps T obs (f a)) : Keeps T obs (items.mapM f) := by
  induction items with
  | nil => exact keeps_pure []
  | cons a items ih =>
    rw [List.mapM_cons]
    exact keeps_bind (hf a) fun b => keeps_bind ih fun bs => keeps_pure (b :: bs)

theorem keeps_foldlM {g : β → α → Prog S ε β} (items : List α) (hg : ∀ b a, Keeps T obs (g b a)) (b : β) :
    Keeps T obs (items.foldlM g b) := by
  induction items generalizing b with
  | nil => exact keeps_pure b
  | cons a items ih =>
    rw [List.foldlM_cons]
    exact keeps_bind (hg b a) ih

end
end Base.Prog
