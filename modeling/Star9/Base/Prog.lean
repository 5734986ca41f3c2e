import Mathlib

/-!
# Stateful programs that return, fail, or never return

A program reads and writes one state and ends in one of three ways: a value, an
error that the caller may catch, or an abort that nobody catches (a panic or an
unbounded recursion). The state reached is kept in all three cases, so a frame
or an invariant can be stated about failing runs as well.
-/
namespace Base

inductive Outcome (ε α : Type) where
  | ok (value : α)
  | err (error : ε)
  | abort
  deriving DecidableEq, Repr

namespace Outcome
variable {ε α : Type}

def isOk : Outcome ε α → Bool
  | .ok _ => true
  | _ => false

theorem err_ne_ok {e : ε} {a : α} : (.err e : Outcome ε α) ≠ .ok a := by simp

theorem abort_ne_ok {a : α} : (.abort : Outcome ε α) ≠ .ok a := by simp

theorem ok_ne_abort {a : α} : (.ok a : Outcome ε α) ≠ .abort := by simp

theorem err_ne_abort {e : ε} : (.err e : Outcome ε α) ≠ .abort := by simp

/-- The run came back to its caller, with a value or with an error. -/
def returned : Outcome ε α → Bool
  | .abort => false
  | _ => true

def toOption : Outcome ε α → Option α
  | .ok a => some a
  | _ => none

def map {β : Type} (f : α → β) : Outcome ε α → Outcome ε β
  | .ok a => .ok (f a)
  | .err e => .err e
  | .abort => .abort

@[simp] theorem isOk_ok (a : α) : (ok a : Outcome ε α).isOk = true := rfl
@[simp] theorem isOk_err (e : ε) : (err e : Outcome ε α).isOk = false := rfl
@[simp] theorem isOk_abort : (abort : Outcome ε α).isOk = false := rfl

instance decidableExistsOk {P : α → Prop} [DecidablePred P] : ∀ {x : Outcome ε α}, Decidable (∃ a, x = .ok a ∧ P a)
  | .ok a => decidable_of_iff (P a) ⟨fun h => ⟨a, rfl, h⟩, fun ⟨_, hx, h⟩ => Outcome.ok.inj hx ▸ h⟩
  | .err _ => isFalse nofun
  | .abort => isFalse nofun

instance : Monad (Outcome ε) where
  pure := .ok
  bind x f := match x with
    | .ok a => f a
    | .err e => .err e
    | .abort => .abort

variable {β : Type}

def ofExcept : Except ε α → Outcome ε α
  | .ok a => .ok a
  | .error e => .err e

@[simp] theorem ofExcept_ok (a : α) : ofExcept (.ok a : Except ε α) = .ok a := rfl
@[simp] theorem ok_bind (a : α) (f : α → Outcome ε β) : (Outcome.ok a >>= f) = f a := rfl
@[simp] theorem err_bind (e : ε) (f : α → Outcome ε β) : (Outcome.err e >>= f) = .err e := rfl
@[simp] theorem pure_eq_ok (a : α) : (pure a : Outcome ε α) = .ok a := rfl

end Outcome

def Prog (S ε α : Type) : Type := S → Outcome ε α × S

namespace Prog
variable {S T ε α β γ : Type}

protected def pure (a : α) : Prog S ε α := fun s => (.ok a, s)

protected def bind (p : Prog S ε α) (f : α → Prog S ε β) : Prog S ε β := fun s =>
  match p s with
  | (.ok a, s') => f a s'
  | (.err e, s') => (.err e, s')
  | (.abort, s') => (.abort, s')

instance : Monad (Prog S ε) where
  pure := Prog.pure
  bind := Prog.bind

/-- Every catchable error is caught; an abort passes through the handler. -/
protected def tryCatch (p : Prog S ε α) (handler : ε → Prog S ε α) : Prog S ε α := fun s =>
  match p s with
  | (.ok a, s') => (.ok a, s')
  | (.err e, s') => handler e s'
  | (.abort, s') => (.abort, s')

instance : MonadExcept ε (Prog S ε) where
  throw e := fun s => (.err e, s)
  tryCatch := Prog.tryCatch

/-- The run never comes back: a panic, or a recursion without end. -/
def abort : Prog S ε α := fun s => (.abort, s)

def get : Prog S ε S := fun s => (.ok s, s)

def set (s' : S) : Prog S ε Unit := fun _ => (.ok (), s')

def modify (f : S → S) : Prog S ε Unit := fun s => (.ok (), f s)

/-- A program that only looks at the state. -/
def reads (f : S → Outcome ε α) : Prog S ε α := fun s => (f s, s)

/-- The result of a call as a value, for a caller that inspects it. -/
def attempt (p : Prog S ε α) : Prog S ε (Except ε α) := fun s =>
  match p s with
  | (.ok a, s') => (.ok (.ok a), s')
  | (.err e, s') => (.ok (.error e), s')
  | (.abort, s') => (.abort, s')

def ofExcept : Except ε α → Prog S ε α
  | .ok a => pure a
  | .error e => throw e

def ofOption (e : ε) : Option α → Prog S ε α
  | some a => pure a
  | none => throw e

/-- Run a program on a part of the state. -/
def zoom (get : S → T) (set : T → S → S) (p : Prog T ε α) : Prog S ε α := fun s =>
  ((p (get s)).1, set (p (get s)).2 s)

@[simp] theorem pure_apply (a : α) (s : S) : (pure a : Prog S ε α) s = (.ok a, s) := rfl

@[simp] theorem throw_apply (e : ε) (s : S) : (throw e : Prog S ε α) s = (.err e, s) := rfl

@[simp] theorem abort_apply (s : S) : (abort : Prog S ε α) s = (.abort, s) := rfl

@[simp] theorem get_apply (s : S) : (get : Prog S ε S) s = (.ok s, s) := rfl

@[simp] theorem set_apply (s s' : S) : (set s' : Prog S ε Unit) s = (.ok (), s') := rfl

@[simp] theorem modify_apply (f : S → S) (s : S) : (modify f : Prog S ε Unit) s = (.ok (), f s) := rfl

@[simp] theorem reads_apply (f : S → Outcome ε α) (s : S) : reads f s = (f s, s) := rfl

@[simp] theorem ofExcept_ok (a : α) : (ofExcept (.ok a) : Prog S ε α) = pure a := rfl

@[simp] theorem ofExcept_error (e : ε) : (ofExcept (.error e) : Prog S ε α) = throw e := rfl

@[simp] theorem ofOption_some (e : ε) (a : α) : (ofOption e (some a) : Prog S ε α) = pure a := rfl

@[simp] theorem ofOption_none (e : ε) : (ofOption e none : Prog S ε α) = throw e := rfl

theorem zoom_apply (get : S → T) (set : T → S → S) (p : Prog T ε α) (s : S) :
    zoom get set p s = ((p (get s)).1, set (p (get s)).2 s) := rfl

theorem bind_apply (p : Prog S ε α) (f : α → Prog S ε β) (s : S) :
    (p >>= f) s = match p s with
      | (.ok a, s') => f a s'
      | (.err e, s') => (.err e, s')
      | (.abort, s') => (.abort, s') := rfl

theorem map_apply (f : α → β) (p : Prog S ε α) (s : S) :
    (f <$> p) s = match p s with
      | (.ok a, s') => (.ok (f a), s')
      | (.err e, s') => (.err e, s')
      | (.abort, s') => (.abort, s') := rfl

theorem branch_apply (c : Prop) [Decidable c] (p q : Prog S ε α) (s : S) :
    (if c then p else q) s = if c then p s else q s := by
  split <;> rfl

theorem get_bind (f : S → Prog S ε β) (s : S) : (get >>= f) s = f s s := rfl

theorem modify_bind (g : S → S) (f : Unit → Prog S ε β) (s : S) : (modify g >>= f) s = f () (g s) := rfl

theorem bind_ok {p : Prog S ε α} {f : α → Prog S ε β} {s s' : S} {a : α} (h : p s = (.ok a, s')) :
    (p >>= f) s = f a s' := by
  rw [bind_apply, h]

theorem bind_err {p : Prog S ε α} {f : α → Prog S ε β} {s s' : S} {e : ε} (h : p s = (.err e, s')) :
    (p >>= f) s = (.err e, s') := by
  rw [bind_apply, h]

theorem bind_abort {p : Prog S ε α} {f : α → Prog S ε β} {s s' : S} (h : p s = (.abort, s')) :
    (p >>= f) s = (.abort, s') := by
  rw [bind_apply, h]

instance : LawfulMonad (Prog S ε) := by
  refine LawfulMonad.mk' _ ?_ ?_ ?_
  · intro α p
    funext s
    rw [map_apply]
    rcases p s with ⟨a | e | _, s'⟩ <;> rfl
  · exact fun _ _ => rfl
  · intro α β γ p f g
    funext s
    simp only [bind_apply]
    rcases p s with ⟨a | e | _, s'⟩ <;> rfl

theorem attempt_state (p : Prog S ε α) (s : S) : (attempt p s).2 = (p s).2 := by
  unfold attempt
  rcases p s with ⟨a | e | _, s'⟩ <;> rfl

/-- A second half that leaves the state alone leaves it where the first one did. -/
theorem bind_state {p : Prog S ε α} {f : α → Prog S ε β} (hf : ∀ a s, (f a s).2 = s) (s : S) :
    ((p >>= f) s).2 = (p s).2 := by
  rw [bind_apply]
  rcases p s with ⟨a | e | _, s'⟩
  · exact hf a s'
  · rfl
  · rfl

theorem bind_fst_abort {p : Prog S ε α} (f : α → Prog S ε β) {s : S} (h : (p s).1 = .abort) :
    ((p >>= f) s).1 = .abort := by
  have hp : p s = (.abort, (p s).2) := Prod.ext h rfl
  rw [bind_abort hp]

theorem ofExcept_state (x : Except ε α) (s : S) : (ofExcept x s).2 = s := by
  cases x <;> rfl

theorem ofExcept_eq_ok {x : Except ε α} {s s' : S} {a : α} :
    ofExcept x s = (.ok a, s') ↔ x = .ok a ∧ s' = s := by
  cases x with
  | ok b => simp [eq_comm]
  | error e => simp

theorem attempt_ok {p : Prog S ε α} {s s' : S} {a : α} (h : p s = (.ok a, s')) :
    attempt p s = (.ok (.ok a), s') := by
  rw [attempt, h]

theorem attempt_err {p : Prog S ε α} {s s' : S} {e : ε} (h : p s = (.err e, s')) :
    attempt p s = (.ok (.error e), s') := by
  rw [attempt, h]

theorem attempt_abort {p : Prog S ε α} {s s' : S} (h : p s = (.abort, s')) :
    attempt p s = (.abort, s') := by
  rw [attempt, h]

/-- A first half that leaves the state alone only decides how the run goes on. -/
theorem bind_of_state {p : Prog S ε α} {f : α → Prog S ε β} {s : S} (h : (p s).2 = s) :
    (p >>= f) s = match (p s).1 with
      | .ok a => f a s
      | .err e => (.err e, s)
      | .abort => (.abort, s) := by
  rw [bind_apply]
  rcases hp : p s with ⟨a | e | _, s₁⟩ <;> rw [hp] at h <;> subst h <;> rfl

/-- A sequence that fails has failed in its first half, or in the second after the first has returned. -/
theorem bind_eq_err {p : Prog S ε α} {f : α → Prog S ε β} {s s' : S} {e : ε} :
    (p >>= f) s = (.err e, s') ↔ p s = (.err e, s') ∨ ∃ a s₁, p s = (.ok a, s₁) ∧ f a s₁ = (.err e, s') := by
  rw [bind_apply]
  rcases hp : p s with ⟨a | e₁ | _, s₁⟩ <;> simp

/-- A sequence returns a value exactly when both of its halves do. -/
theorem bind_eq_ok {p : Prog S ε α} {f : α → Prog S ε β} {s s' : S} {b : β} :
    (p >>= f) s = (.ok b, s') ↔ ∃ a s₁, p s = (.ok a, s₁) ∧ f a s₁ = (.ok b, s') := by
  rw [bind_apply]
  rcases h : p s with ⟨a | e | _, s₁⟩
  · constructor
    · intro hf
      exact ⟨a, s₁, rfl, hf⟩
    · rintro ⟨a', s', heq, hf⟩
      cases heq
      exact hf
  · simp
  · simp

theorem bind_fst_eq_ok {p : Prog S ε α} {f : α → Prog S ε β} {s : S} {b : β} :
    ((p >>= f) s).1 = .ok b ↔ ∃ a s₁, p s = (.ok a, s₁) ∧ (f a s₁).1 = .ok b := by
  constructor
  · intro h
    obtain ⟨a, s₁, hp, hf⟩ := bind_eq_ok.mp (Prod.ext h rfl : (p >>= f) s = (.ok b, ((p >>= f) s).2))
    exact ⟨a, s₁, hp, by rw [hf]⟩
  · rintro ⟨a, s₁, hp, hf⟩
    rw [bind_ok hp, hf]

/-- What a run does not touch: the observation has the same value afterwards,
whichever way the run ends. -/
def Preserves (obs : S → β) (p : Prog S ε α) : Prop := ∀ s, obs (p s).2 = obs s

section Preserves
variable {δ : Type} {obs : S → δ}

theorem Preserves.map {p : Prog S ε α} (h : Preserves obs p) (g : δ → β) :
    Preserves (fun s => g (obs s)) p := fun s => congrArg g (h s)

theorem preserves_pure (a : α) : Preserves obs (pure a : Prog S ε α) := fun _ => rfl

theorem preserves_throw (e : ε) : Preserves obs (throw e : Prog S ε α) := fun _ => rfl

theorem preserves_abort : Preserves obs (abort : Prog S ε α) := fun _ => rfl

theorem preserves_get : Preserves obs (get : Prog S ε S) := fun _ => rfl

theorem preserves_reads (f : S → Outcome ε α) : Preserves obs (reads f) := fun _ => rfl

theorem preserves_ofOption (e : ε) (o : Option α) : Preserves obs (ofOption e o : Prog S ε α) := by
  cases o <;> exact fun _ => rfl

theorem preserves_ofExcept (x : Except ε α) : Preserves obs (ofExcept x : Prog S ε α) := by
  cases x <;> exact fun _ => rfl

theorem preserves_modify {f : S → S} (h : ∀ s, obs (f s) = obs s) :
    Preserves obs (modify f : Prog S ε Unit) := h

theorem preserves_bind {p : Prog S ε α} {f : α → Prog S ε β} (hp : Preserves obs p)
    (hf : ∀ a, Preserves obs (f a)) : Preserves obs (p >>= f) := by
  intro s
  have hs := hp s
  rw [bind_apply]
  rcases h : p s with ⟨a | e | _, s₁⟩
  · rw [h] at hs
    exact (hf a s₁).trans hs
  · simpa [h] using hs
  · simpa [h] using hs

theorem preserves_attempt {p : Prog S ε α} (hp : Preserves obs p) : Preserves obs (attempt p) := by
  intro s
  have hs := hp s
  unfold attempt
  rcases h : p s with ⟨a | e | _, s₁⟩ <;> simpa [h] using hs

theorem preserves_ite {c : Prop} [Decidable c] {p q : Prog S ε α} (hp : Preserves obs p)
    (hq : Preserves obs q) : Preserves obs (if c then p else q) := by
  split
  · exact hp
  · exact hq

theorem preserves_mapM {items : List β} {f : β → Prog S ε α} (hf : ∀ b ∈ items, Preserves obs (f b)) :
    Preserves obs (items.mapM f) := by
  induction items with
  | nil => exact preserves_pure _
  | cons b items ih =>
    rw [List.mapM_cons]
    refine preserves_bind (hf b List.mem_cons_self) fun a => ?_
    exact preserves_bind (ih fun c hc => hf c (List.mem_cons_of_mem b hc)) fun _ => preserves_pure _

end Preserves

/-- The state a run ends in is related to the one it starts from, whichever way it ends. -/
def Evolves (R : S → S → Prop) (p : Prog S ε α) : Prop := ∀ s, R s (p s).2

section Evolves
variable {R : S → S → Prop} [IsPreorder S R]

theorem evolves_of_state {p : Prog S ε α} (h : ∀ s, (p s).2 = s) : Evolves R p := by
  intro s
  rw [h s]
  exact refl_of R s

theorem evolves_pure (a : α) : Evolves R (pure a : Prog S ε α) := evolves_of_state fun _ => rfl

theorem evolves_throw (e : ε) : Evolves R (throw e : Prog S ε α) := evolves_of_state fun _ => rfl

theorem evolves_abort : Evolves R (abort : Prog S ε α) := evolves_of_state fun _ => rfl

theorem evolves_get : Evolves R (get : Prog S ε S) := evolves_of_state fun _ => rfl

theorem evolves_ofExcept (x : Except ε α) : Evolves R (ofExcept x : Prog S ε α) :=
  evolves_of_state (preserves_ofExcept x : Preserves id _)

theorem evolves_bind {p : Prog S ε α} {f : α → Prog S ε β} (hp : Evolves R p) (hf : ∀ a, Evolves R (f a)) :
    Evolves R (p >>= f) := by
  intro s
  have hs := hp s
  rw [bind_apply]
  rcases h : p s with ⟨a | e | _, s₁⟩ <;> rw [h] at hs
  · exact trans_of R hs (hf a s₁)
  · exact hs
  · exact hs

omit [IsPreorder S R] in
theorem evolves_ite {c : Prop} [Decidable c] {p q : Prog S ε α} (hp : c → Evolves R p)
    (hq : ¬c → Evolves R q) : Evolves R (if c then p else q) := by
  split
  · exact hp ‹_›
  · exact hq ‹_›

theorem evolves_forM {items : List β} {f : β → Prog S ε PUnit} (hf : ∀ b ∈ items, Evolves R (f b)) :
    Evolves R (items.forM f) := by
  induction items with
  | nil => exact evolves_pure _
  | cons b items ih =>
    exact evolves_bind (hf b List.mem_cons_self) fun _ => ih fun c hc => hf c (List.mem_cons_of_mem b hc)

end Evolves

/-- From a state where `I` holds the run ends in one where it holds again, and a
value it returns satisfies `V`. -/
def Safe (I : S → Prop) (V : α → Prop) (p : Prog S ε α) : Prop :=
  ∀ s, I s → I (p s).2 ∧ ∀ a, (p s).1 = .ok a → V a

section Safe
variable {I : S → Prop} {V : α → Prop} {W : β → Prop}

theorem safe_pure {a : α} (h : V a) : Safe I V (pure a : Prog S ε α) := by
  intro s hs
  exact ⟨hs, fun b hb => by cases hb; exact h⟩

theorem safe_throw (e : ε) : Safe I V (throw e : Prog S ε α) := fun _ hs => ⟨hs, fun _ hb => by cases hb⟩

theorem safe_get : Safe I I (get : Prog S ε S) := fun _ hs => ⟨hs, fun _ hb => by cases hb; exact hs⟩

theorem safe_reads {f : S → Outcome ε α} (h : ∀ s a, I s → f s = .ok a → V a) : Safe I V (reads f) :=
  fun s hs => ⟨hs, fun a ha => h s a hs ha⟩

theorem safe_modify {f : S → S} (h : ∀ s, I s → I (f s)) :
    Safe I (fun _ => True) (modify f : Prog S ε Unit) :=
  fun s hs => ⟨h s hs, fun _ _ => trivial⟩

theorem safe_mono {V' : α → Prop} {p : Prog S ε α} (hp : Safe I V p) (h : ∀ a, V a → V' a) :
    Safe I V' p := fun s hs => ⟨(hp s hs).1, fun a ha => h a ((hp s hs).2 a ha)⟩

theorem safe_of_preserves {δ : Type} {obs : S → δ} {P : δ → Prop} {p : Prog S ε α} (h : Preserves obs p) :
    Safe (fun s => P (obs s)) (fun _ => True) p := by
  intro s hs
  have hP : P (obs (p s).2) := by
    rw [h s]
    exact hs
  exact ⟨hP, fun _ _ => trivial⟩

theorem safe_bind {p : Prog S ε α} {f : α → Prog S ε β} (hp : Safe I V p)
    (hf : ∀ a, V a → Safe I W (f a)) : Safe I W (p >>= f) := by
  intro s hs
  obtain ⟨hI, hV⟩ := hp s hs
  rw [bind_apply]
  rcases h : p s with ⟨a | e | _, s₁⟩
  · rw [h] at hI hV
    exact hf a (hV a rfl) s₁ hI
  · rw [h] at hI
    exact ⟨hI, fun b hb => by cases hb⟩
  · rw [h] at hI
    exact ⟨hI, fun b hb => by cases hb⟩

theorem safe_attempt {p : Prog S ε α} (hp : Safe I V p) :
    Safe I (fun r => ∀ a, r = .ok a → V a) (attempt p) := by
  intro s hs
  obtain ⟨hI, hV⟩ := hp s hs
  unfold attempt
  rcases h : p s with ⟨a | e | _, s₁⟩ <;> rw [h] at hI hV
  · exact ⟨hI, fun r hr b hb => by cases hr; cases hb; exact hV a rfl⟩
  · exact ⟨hI, fun r hr b hb => by cases hr; cases hb⟩
  · exact ⟨hI, fun r hr => by cases hr⟩

theorem safe_ite {c : Prop} [Decidable c] {p q : Prog S ε α} (hp : c → Safe I V p)
    (hq : ¬c → Safe I V q) : Safe I V (if c then p else q) := by
  split
  · exact hp ‹_›
  · exact hq ‹_›

end Safe

/-- Whatever the run starts from, a value it returns satisfies `V`. -/
def Returns (V : α → Prop) (p : Prog S ε α) : Prop := ∀ s a, (p s).1 = .ok a → V a

section Returns
variable {V : α → Prop} {W : β → Prop}

theorem returns_pure {a : α} (h : V a) : Returns V (pure a : Prog S ε α) := fun _ b hb => by
  cases hb
  exact h

theorem returns_throw (e : ε) : Returns V (throw e : Prog S ε α) := fun _ _ hb => by cases hb

theorem returns_abort : Returns V (abort : Prog S ε α) := fun _ _ hb => by cases hb

theorem returns_bind {p : Prog S ε α} {f : α → Prog S ε β} (hf : ∀ a, Returns W (f a)) :
    Returns W (p >>= f) := by
  intro s b hb
  rw [bind_apply] at hb
  rcases h : p s with ⟨a | e | _, s₁⟩ <;> rw [h] at hb
  · exact hf a s₁ b hb
  · cases hb
  · cases hb

theorem returns_ite {c : Prop} [Decidable c] {p q : Prog S ε α} (hp : Returns V p) (hq : Returns V q) :
    Returns V (if c then p else q) := by
  split
  · exact hp
  · exact hq

theorem returns_mono {V' : α → Prop} {p : Prog S ε α} (hp : Returns V p) (h : ∀ a, V a → V' a) :
    Returns V' p := fun s a ha => h a (hp s a ha)

/-- A sequence returns what its second half does on a value of the first. -/
theorem returns_then {p : Prog S ε α} {f : α → Prog S ε β} (hp : Returns V p)
    (hf : ∀ a, V a → Returns W (f a)) : Returns W (p >>= f) := by
  intro s b hb
  obtain ⟨a, s₁, hpa, hfa⟩ := bind_fst_eq_ok.mp hb
  exact hf a (hp s a (by rw [hpa])) s₁ b hfa

end Returns

end Prog
end Base
