import Star9.Base.Prog

/-!
# Loops and triples

Rules for the programs that go through a list: an invariant that every round keeps
holds after the loop, whichever way the loop ends. A triple says more: from its
precondition the program returns a value, and the postcondition holds of it.
-/
namespace Base
namespace Prog
variable {S T ε α β : Type}

section Safe
variable {I : S → Prop} {V : α → Prop}

theorem safe_abort : Safe I V (abort : Prog S ε α) := fun _ hs => ⟨hs, fun _ hb => by cases hb⟩

theorem safe_ofExcept (x : Except ε α) : Safe I (fun _ => True) (ofExcept x : Prog S ε α) := by
  cases x with
  | ok a => exact safe_pure trivial
  | error e => exact safe_throw e

theorem safe_then {W : β → Prop} {p : Prog S ε α} {f : α → Prog S ε β} (hp : Safe I (fun _ => True) p)
    (hf : ∀ a, Safe I W (f a)) : Safe I W (p >>= f) := safe_bind hp fun a _ => hf a

theorem safe_forM {items : List β} {f : β → Prog S ε PUnit} (hf : ∀ b ∈ items, Safe I (fun _ => True) (f b)) :
    Safe I (fun _ => True) (items.forM f) := by
  induction items with
  | nil => exact safe_pure trivial
  | cons b items ih =>
    exact safe_then (hf b List.mem_cons_self) fun _ => ih fun c hc => hf c (List.mem_cons_of_mem b hc)

theorem safe_mapM {items : List β} {f : β → Prog S ε α} (hf : ∀ b ∈ items, Safe I V (f b)) :
    Safe I (fun as => ∀ a ∈ as, V a) (items.mapM f) := by
  induction items with
  | nil => exact safe_pure (by simp)
  | cons b items ih =>
    rw [List.mapM_cons]
    refine safe_bind (hf b List.mem_cons_self) fun a ha => ?_
    refine safe_bind (ih fun c hc => hf c (List.mem_cons_of_mem b hc)) fun as has => safe_pure ?_
    rintro x (_ | ⟨_, hx⟩)
    · exact ha
    · exact has x hx

/-- A loop that returns has gone through every round. -/
theorem ok_of_mapM_ok {items : List β} {f : β → Prog S ε α} (hf : ∀ b ∈ items, Safe I V (f b)) {s : S} (hs : I s)
    (h : (items.mapM f s).1.isOk = true) : ∀ b ∈ items, ∃ s', I s' ∧ (f b s').1.isOk = true := by
  induction items generalizing s with
  | nil => nofun
  | cons b items ih =>
    rw [List.mapM_cons, bind_apply] at h
    have hb := (hf b List.mem_cons_self s hs).1
    rcases hr : f b s with ⟨a | e | _, s'⟩ <;> rw [hr] at h hb
    · have hrest : (items.mapM f s').1.isOk = true := by
        dsimp only at h
        rw [bind_apply] at h
        rcases hm : items.mapM f s' with ⟨as | e | _, s''⟩ <;> rw [hm] at h
        · rfl
        · cases h
        · cases h
      intro c hc
      rcases List.mem_cons.mp hc with rfl | hc
      · exact ⟨s, hs, by rw [hr]; rfl⟩
      · exact ih (fun d hd => hf d (List.mem_cons_of_mem b hd)) hb hrest c hc
    · cases h
    · cases h

theorem safe_foldlM {items : List β} {f : α → β → Prog S ε α} (hf : ∀ a, V a → ∀ b ∈ items, Safe I V (f a b))
    {a : α} (ha : V a) : Safe I V (items.foldlM f a) := by
  induction items generalizing a with
  | nil => exact safe_pure ha
  | cons b items ih =>
    rw [List.foldlM_cons]
    refine safe_bind (hf a ha b List.mem_cons_self) fun a' ha' => ?_
    exact ih (fun c hc d hd => hf c hc d (List.mem_cons_of_mem b hd)) ha'

end Safe

/-- From a state where `P` holds the run returns, with `Q` of the value and of the state it ends in. -/
def Triple (P : S → Prop) (p : Prog S ε α) (Q : α → S → Prop) : Prop := ∀ s, P s → ∃ a s', p s = (.ok a, s') ∧ Q a s'

section Triple
variable {P : S → Prop} {Q : α → S → Prop} {R : β → S → Prop}

theorem triple_pure {a : α} (h : ∀ s, P s → Q a s) : Triple P (pure a : Prog S ε α) Q := fun s hs => ⟨a, s, rfl, h s hs⟩

theorem triple_bind {p : Prog S ε α} {f : α → Prog S ε β} (hp : Triple P p Q) (hf : ∀ a, Triple (Q a) (f a) R) :
    Triple P (p >>= f) R := by
  intro s hs
  obtain ⟨a, s₁, hpa, hQ⟩ := hp s hs
  obtain ⟨b, s₂, hfb, hR⟩ := hf a s₁ hQ
  exact ⟨b, s₂, by rw [bind_ok hpa, hfb], hR⟩

theorem triple_ofExcept {x : Except ε α} {a : α} (hx : x = .ok a) (h : ∀ s, P s → Q a s) :
    Triple P (ofExcept x : Prog S ε α) Q := by
  subst hx
  exact triple_pure h

theorem triple_mapM {items : List β} {f : β → Prog S ε α} (hf : ∀ b ∈ items, Triple P (f b) fun _ s => P s) :
    Triple P (items.mapM f) fun _ s => P s := by
  induction items with
  | nil => exact triple_pure fun _ hs => hs
  | cons b items ih =>
    rw [List.mapM_cons]
    refine triple_bind (hf b List.mem_cons_self) fun a => ?_
    exact triple_bind (ih fun c hc => hf c (List.mem_cons_of_mem b hc)) fun _ => triple_pure fun _ hs => hs

/-- Each of the results has what its own step gives. -/
theorem triple_mapM_forall₂ {R : β → α → Prop} {items : List β} {f : β → Prog S ε α}
    (hf : ∀ b ∈ items, Triple P (f b) fun a s => P s ∧ R b a) : Triple P (items.mapM f) fun as s => P s ∧ List.Forall₂ R items as := by
  induction items with
  | nil => exact triple_pure fun _ hs => ⟨hs, .nil⟩
  | cons b items ih =>
    intro s hs
    obtain ⟨a, s₁, hhead, hs₁, hR⟩ := hf b List.mem_cons_self s hs
    obtain ⟨as, s₂, htail, hs₂, hRs⟩ := ih (fun c hc => hf c (List.mem_cons_of_mem b hc)) s₁ hs₁
    refine ⟨a :: as, s₂, ?_, hs₂, .cons hR hRs⟩
    rw [List.mapM_cons, bind_ok hhead, bind_ok htail]
    rfl

end Triple

end Prog
end Base
