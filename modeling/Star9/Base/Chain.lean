import Mathlib

/-!
# Chains of a partial function

Following a partial function from a start gives a chain. When the function is
defined on finitely many points, the chain ends exactly when it never comes back
to a point, and it then ends within as many steps as there are points.
-/
namespace Base
variable {α : Type*}

section
variable (next : α → Option α)

/-- The point after `k` steps, if the chain is that long. -/
def follow : α → Nat → Option α
  | a, 0 => some a
  | a, k + 1 => (next a).bind fun b => follow b k

/-- The chain comes back to a point. -/
def Returning (a : α) : Prop := ∃ i j q, i < j ∧ follow next a i = some q ∧ follow next a j = some q

end

variable {next : α → Option α} {a : α}

@[simp] theorem follow_zero : follow next a 0 = some a := rfl

theorem follow_succ (k : Nat) : follow next a (k + 1) = (next a).bind fun b => follow next b k := rfl

theorem follow_succ_of_next {b : α} (h : next a = some b) (k : Nat) : follow next a (k + 1) = follow next b k := by
  rw [follow_succ, h]
  rfl

/-- The chain from a point of the chain is the rest of it. -/
theorem follow_add {i : Nat} {q : α} (h : follow next a i = some q) (k : Nat) : follow next a (i + k) = follow next q k := by
  induction i generalizing a with
  | zero =>
    cases h
    rw [Nat.zero_add]
  | succ i ih =>
    rw [follow_succ] at h
    cases hb : next a with
    | none =>
      rw [hb] at h
      cases h
    | some b =>
      rw [hb] at h
      rw [Nat.add_right_comm, follow_succ_of_next hb]
      exact ih h

theorem follow_succ_last {i : Nat} {q : α} (h : follow next a i = some q) : follow next a (i + 1) = next q := by
  rw [follow_add h 1, follow_succ]
  cases next q <;> rfl

theorem follow_isSome_of_le {i k : Nat} (hik : i ≤ k) (h : (follow next a k).isSome) : (follow next a i).isSome := by
  induction i generalizing a k with
  | zero => rfl
  | succ i ih =>
    cases k with
    | zero => omega
    | succ k =>
      rw [follow_succ] at h ⊢
      cases hb : next a with
      | none =>
        rw [hb] at h
        cases h
      | some b =>
        rw [hb] at h
        exact ih (Nat.le_of_succ_le_succ hik) h

/-- A chain that comes back goes on for ever. -/
theorem Returning.isSome (h : Returning next a) (k : Nat) : (follow next a k).isSome := by
  obtain ⟨i, j, q, hij, hi, hj⟩ := h
  have hround : ∀ n, follow next q (n * (j - i)) = some q := by
    have hq : follow next q (j - i) = some q := by
      rw [← follow_add hi, Nat.add_sub_cancel' hij.le]
      exact hj
    intro n
    induction n with
    | zero => rw [Nat.zero_mul, follow_zero]
    | succ n ih =>
      rw [Nat.succ_mul, follow_add ih]
      exact hq
  have hlong : k ≤ i + k * (j - i) := by
    have hle : k * 1 ≤ k * (j - i) := Nat.mul_le_mul_left k (by omega)
    omega
  refine follow_isSome_of_le hlong ?_
  rw [follow_add hi, hround k]
  rfl

/-- A chain of more steps than there are points comes back. -/
theorem returning_of_isSome {points : List α} (hpoints : ∀ q, (next q).isSome → q ∈ points)
    (h : (follow next a (points.length + 1)).isSome) : Returning next a := by
  classical
  have hmem : ∀ k ∈ Finset.range (points.length + 1), (follow next a k).getD a ∈ points.toFinset := by
    intro k hk
    have hlt := Finset.mem_range.mp hk
    obtain ⟨q, hq⟩ := Option.isSome_iff_exists.mp (follow_isSome_of_le hlt.le h)
    have hnext := follow_isSome_of_le (Nat.succ_le_of_lt hlt) h
    rw [Nat.succ_eq_add_one, follow_succ_last hq] at hnext
    rw [hq]
    exact List.mem_toFinset.mpr (hpoints q hnext)
  have hcard : points.toFinset.card < (Finset.range (points.length + 1)).card := by
    rw [Finset.card_range]
    exact Nat.lt_succ_of_le (List.toFinset_card_le points)
  obtain ⟨i, hi, j, hj, hne, heq⟩ := Finset.exists_ne_map_eq_of_card_lt_of_maps_to hcard hmem
  have hsome : ∀ k ∈ Finset.range (points.length + 1), follow next a k = some ((follow next a k).getD a) := by
    intro k hk
    obtain ⟨q, hq⟩ := Option.isSome_iff_exists.mp (follow_isSome_of_le (Finset.mem_range.mp hk).le h)
    rw [hq]
    rfl
  rcases Nat.lt_or_gt_of_ne hne with hlt | hlt
  · exact ⟨i, j, _, hlt, hsome i hi, heq ▸ hsome j hj⟩
  · exact ⟨j, i, _, hlt, hsome j hj, heq ▸ hsome i hi⟩

/-- The chain ends, within the number of points, exactly when it does not come back. -/
theorem follow_eq_none_iff {points : List α} (hpoints : ∀ q, (next q).isSome → q ∈ points) :
    (∃ k, follow next a k = none) ↔ ¬ Returning next a := by
  constructor
  · rintro ⟨k, hk⟩ hret
    have hsome := hret.isSome k
    rw [hk] at hsome
    cases hsome
  · intro hnot
    refine ⟨points.length + 1, ?_⟩
    by_contra hne
    exact hnot (returning_of_isSome hpoints (Option.isSome_iff_ne_none.mpr hne))

/-- Two functions that agree along the chain have the same chain. -/
theorem follow_congr {next' : α → Option α} (h : ∀ k q, follow next a k = some q → next' q = next q) (k : Nat) :
    follow next' a k = follow next a k := by
  induction k generalizing a with
  | zero => rfl
  | succ k ih =>
    have hfirst := h 0 a rfl
    rw [follow_succ, follow_succ, hfirst]
    cases hb : next a with
    | none => rfl
    | some b =>
      refine ih fun i q hi => h (i + 1) q ?_
      rw [follow_succ_of_next hb]
      exact hi

end Base
