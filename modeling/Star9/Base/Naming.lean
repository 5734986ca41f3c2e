import Mathlib

/-!
# Names and the table that finds an owner by name

Every owner has a name, or the blank when it has none, and names may be shared.
The table keeps one owner for a name. An owner that takes a new name gives up its
old entry and claims the new one, without looking at who else has the old name.
-/
namespace Base

variable {κ ν : Type} [DecidableEq κ] [DecidableEq ν] {blank : ν} {name : κ → Option ν} {table : ν → Option κ}

/-- The table lists the names in use, the blank apart, and every entry is an owner of its name. -/
structure Owned (blank : ν) (name : κ → Option ν) (table : ν → Option κ) : Prop where
  listed : ∀ a k, a ≠ blank → name k = some a → (table a).isSome = true
  owner : ∀ a k, a ≠ blank → table a = some k → name k = some a

omit [DecidableEq κ] [DecidableEq ν] in
theorem Owned.isSome_iff (h : Owned blank name table) {a : ν} (ha : a ≠ blank) :
    (table a).isSome = true ↔ ∃ k, name k = some a := by
  constructor
  · intro hs
    obtain ⟨k, hk⟩ := Option.isSome_iff_exists.mp hs
    exact ⟨k, h.owner a k ha hk⟩
  · rintro ⟨k, hk⟩
    exact h.listed a k ha hk

def retable (blank : ν) (k : κ) (old new : ν) (table : ν → Option κ) : ν → Option κ :=
  let table := if old = blank then table else Function.update table old none
  if new = blank then table else Function.update table new (some k)

omit [DecidableEq κ] in
theorem retable_apply {a : ν} (ha : a ≠ blank) (k : κ) (old new : ν) :
    retable blank k old new table a = if a = new then some k else if a = old then none else table a := by
  have hold : (if old = blank then table else Function.update table old none) a = if a = old then none else table a := by
    by_cases h : old = blank
    · rw [if_pos h, if_neg (fun heq => ha (heq.trans h))]
    · rw [if_neg h, Function.update_apply]
  unfold retable
  by_cases h : new = blank
  · rw [if_pos h, hold, if_neg (fun heq : a = new => ha (heq.trans h))]
  · rw [if_neg h, Function.update_apply, hold]

omit [DecidableEq ν] in
/-- A new owner comes without a name. -/
theorem Owned.add (h : Owned blank name table) {k : κ} (hk : name k = none) :
    Owned blank (Function.update name k (some blank)) table := by
  constructor
  · intro a j ha hj
    rw [Function.update_apply] at hj
    split at hj
    · exact absurd (Option.some.inj hj).symm ha
    · exact h.listed a j ha hj
  · intro a j ha hj
    have hname := h.owner a j ha hj
    have hne : j ≠ k := by
      intro heq
      rw [heq, hk] at hname
      cases hname
    rw [Function.update_of_ne hne]
    exact hname

/-- The name that is given up must have been the owner's alone. -/
theorem Owned.retable_iff (h : Owned blank name table) {k : κ} {old new : ν} (hk : name k = some old) :
    Owned blank (Function.update name k (some new)) (retable blank k old new table) ↔
      (old ≠ blank → old ≠ new → ∀ j, name j = some old → j = k) := by
  constructor
  · intro h' hblank hne j hj
    by_contra hjk
    have hlisted := h'.listed old j hblank (by rw [Function.update_of_ne hjk]; exact hj)
    rw [retable_apply hblank, if_neg hne, if_pos rfl] at hlisted
    cases hlisted
  · intro halone
    constructor
    · intro a j ha hj
      rw [retable_apply ha]
      by_cases hnew : a = new
      · rw [if_pos hnew]
        rfl
      · rw [if_neg hnew]
        rw [Function.update_apply] at hj
        split at hj
        · exact absurd (Option.some.inj hj).symm hnew
        · rename_i hjk
          have hold : a ≠ old := by
            intro heq
            subst heq
            exact hjk (halone ha hnew j hj)
          rw [if_neg hold]
          exact h.listed a j ha hj
    · intro a j ha hj
      rw [retable_apply ha] at hj
      split at hj
      · rename_i hnew
        cases hj
        rw [Function.update_self, hnew]
      · rename_i hnew
        split at hj
        · cases hj
        · rename_i hold
          have hname := h.owner a j ha hj
          have hjk : j ≠ k := by
            intro heq
            rw [heq, hk] at hname
            exact hold (Option.some.inj hname).symm
          rw [Function.update_of_ne hjk]
          exact hname

end Base
