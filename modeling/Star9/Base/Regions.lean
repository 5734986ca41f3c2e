import Star9.Base.Prog

/-!
# Programs cut into atomic regions

A thread that shares its state with others runs as a chain of atomic regions: each
reads and writes the state in one step, and between two of them the other threads
may change it. Run without the others the chain is an ordinary program again.
-/
namespace Base

/-- A thread: it has ended, or it waits to run its next region. What comes after a
region depends on the state that the region found. -/
inductive Regions (S ε α : Type) where
  | done (result : Outcome ε α)
  | region (update : S → S) (next : S → Regions S ε α)

namespace Regions
variable {S ε α β : Type}

protected def bind : Regions S ε α → (α → Regions S ε β) → Regions S ε β
  | .done (.ok a), f => f a
  | .done (.err e), _ => .done (.err e)
  | .done .abort, _ => .done .abort
  | .region update next, f => .region update fun s => (next s).bind f

instance : Monad (Regions S ε) where
  pure a := .done (.ok a)
  bind := Regions.bind

/-- A failure outside of the regions. -/
def fail (e : ε) : Regions S ε α := .done (.err e)

def ofExcept : Except ε α → Regions S ε α
  | .ok a => pure a
  | .error e => fail e

/-- The whole program in one region. -/
def atomic (p : Prog S ε α) : Regions S ε α :=
  .region (fun s => (p s).2) fun s => .done (p s).1

/-- The thread run to its end with nobody between its regions. -/
def alone : Regions S ε α → Prog S ε α
  | .done result => fun s => (result, s)
  | .region update next => fun s => (next s).alone (update s)

@[simp] theorem alone_pure (a : α) : (pure a : Regions S ε α).alone = pure a := rfl

@[simp] theorem alone_fail (e : ε) : (fail e : Regions S ε α).alone = throw e := rfl

@[simp] theorem alone_ofExcept (x : Except ε α) : (ofExcept x : Regions S ε α).alone = Prog.ofExcept x := by
  cases x <;> rfl

@[simp] theorem alone_atomic (p : Prog S ε α) : (atomic p).alone = p := rfl

@[simp] theorem alone_bind (r : Regions S ε α) (f : α → Regions S ε β) :
    (r >>= f).alone = r.alone >>= fun a => (f a).alone := by
  induction r with
  | done result =>
    cases result with
    | ok a => rfl
    | err e => rfl
    | abort => rfl
  | region update next ih =>
    funext s
    exact congrFun (ih s) (update s)

@[simp] theorem alone_ite (c : Prop) [Decidable c] (r q : Regions S ε α) :
    (if c then r else q).alone = if c then r.alone else q.alone := by
  split <;> rfl

/-- The thread has ended with a value. -/
def succeeded : Regions S ε α → Bool
  | .done result => result.isOk
  | .region .. => false

/-- The thread has a region left. -/
def waiting : Regions S ε α → Bool
  | .done _ => false
  | .region .. => true

/-! ## What every region keeps -/

/-- Each region keeps the property of the shared state, whatever the other threads
have made of the rest. -/
def Keeps (I : S → Prop) : Regions S ε α → Prop
  | .done _ => True
  | .region update next => ∀ s, (I s → I (update s)) ∧ (next s).Keeps I

section Keeps
variable {I : S → Prop}

theorem keeps_pure (a : α) : (pure a : Regions S ε α).Keeps I := trivial

theorem keeps_ofExcept (x : Except ε α) : (ofExcept x : Regions S ε α).Keeps I := by
  cases x <;> trivial

theorem keeps_atomic {p : Prog S ε α} (h : ∀ s, I s → I (p s).2) : (atomic p).Keeps I :=
  fun s => ⟨h s, trivial⟩

theorem keeps_bind {r : Regions S ε α} {f : α → Regions S ε β} (hr : r.Keeps I) (hf : ∀ a, (f a).Keeps I) :
    (r >>= f).Keeps I := by
  induction r with
  | done result =>
    cases result with
    | ok a => exact hf a
    | err e => trivial
    | abort => trivial
  | region update next ih =>
    intro s
    exact ⟨(hr s).1, ih s (hr s).2⟩

theorem keeps_ite {c : Prop} [Decidable c] {r q : Regions S ε α} (hr : r.Keeps I) (hq : q.Keeps I) :
    (if c then r else q).Keeps I := by
  split
  · exact hr
  · exact hq

end Keeps

/-! ## What the last region leaves -/

/-- The region that ends the thread with a value leaves a state where `P` holds. -/
def EndsIn (P : S → Prop) : Regions S ε α → Prop
  | .done _ => True
  | .region update next => ∀ s, ((next s).succeeded = true → P (update s)) ∧ (next s).EndsIn P

section EndsIn
variable {P : S → Prop}

theorem endsIn_atomic {p : Prog S ε α} (h : ∀ s, (p s).1.isOk = true → P (p s).2) : (atomic p).EndsIn P :=
  fun s => ⟨h s, trivial⟩

/-- The second part decides the end, when it cannot end well without a region of its own. -/
theorem endsIn_bind {r : Regions S ε α} {f : α → Regions S ε β}
    (hf : ∀ a, (f a).succeeded = false ∧ (f a).EndsIn P) : (r >>= f).succeeded = false ∧ (r >>= f).EndsIn P := by
  induction r with
  | done result =>
    cases result with
    | ok a => exact hf a
    | err e => exact ⟨rfl, trivial⟩
    | abort => exact ⟨rfl, trivial⟩
  | region update next ih =>
    refine ⟨rfl, fun s => ⟨fun h => ?_, (ih s).2⟩⟩
    rw [show ((next s).bind f).succeeded = false from (ih s).1] at h
    cases h

end EndsIn

end Regions
end Base
