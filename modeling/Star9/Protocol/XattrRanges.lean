import Star9.Protocol.XattrCommit

/-!
# The ranges of an attribute write

Over every run of writes that are taken, the recorded ranges stay separated and cover the places
written, so that one range for the whole buffer is left exactly when every place was written.
-/
namespace Star9
open Base

namespace XattrWriteState

/-- Writes one after the other, as long as they are taken. -/
def writeAll : List (UInt64 × Bytes) → XattrWriteState → Outcome Error XattrWriteState
  | [], w => .ok w
  | x :: xs, w => w.writeAt x.1 x.2 >>= writeAll xs

variable {w w' : XattrWriteState}

/-- A write that is taken is one more write of the buffer. -/
theorem After.of_writeAt {ws : List (Nat × Bytes)} (h : w.After ws) {offset : UInt64} {chunk : Bytes}
    (hok : w.writeAt offset chunk = .ok w') :
    w'.After (ws ++ [(offset.toNat, chunk)]) ∧ w'.expectedSize = w.expectedSize := by
  rcases writeAt_cases h offset chunk with ⟨-, w₁, hrun, hafter, -, hsize, -⟩ | ⟨-, hrefused⟩
  · rw [hrun, Outcome.ok.injEq] at hok
    subst hok
    exact ⟨hafter, hsize⟩
  · rw [hrefused] at hok
    exact absurd hok Outcome.err_ne_ok

theorem After.of_writeAll {ws : List (Nat × Bytes)} (h : w.After ws) {xs : List (UInt64 × Bytes)}
    (hok : w.writeAll xs = .ok w') :
    w'.After (ws ++ xs.map fun x => (x.1.toNat, x.2)) ∧ w'.expectedSize = w.expectedSize := by
  induction xs generalizing w ws with
  | nil =>
    rw [writeAll, Outcome.ok.injEq] at hok
    subst hok
    simpa using h
  | cons x xs ih =>
    rw [writeAll] at hok
    rcases writeAt_cases h x.1 x.2 with ⟨-, w₁, hfirst, -⟩ | ⟨-, hrefused⟩
    case inr =>
      rw [hrefused, Outcome.err_bind] at hok
      exact absurd hok Outcome.err_ne_ok
    rw [hfirst, Outcome.ok_bind] at hok
    obtain ⟨hone, hsize⟩ := h.of_writeAt hfirst
    obtain ⟨hall, hrestSize⟩ := ih hone hok
    rw [List.append_assoc, List.singleton_append] at hall
    exact ⟨hall, hrestSize.trans hsize⟩

/-- The recorded ranges after any writes that were taken: in order and apart, covering the places
written and no others, and complete when nothing is left out. -/
theorem writeAll_ranges {name : String} {flags : UInt32} {size : UInt64} (hnew : new name flags size = some w)
    (xs : List (UInt64 × Bytes)) (hok : w.writeAll xs = .ok w') :
    (∀ r ∈ w'.written, r.1 < r.2) ∧ w'.written.Pairwise (fun r q => r.2 < q.1) ∧
      (∀ i, (∃ r ∈ w'.written, r.1 ≤ i ∧ i < r.2) ↔ ∃ x ∈ xs, x.1.toNat ≤ i ∧ i < x.1.toNat + x.2.length) ∧
      (w'.isComplete = true ↔ ∀ i < size.toNat, ∃ x ∈ xs, x.1.toNat ≤ i ∧ i < x.1.toNat + x.2.length) := by
  obtain ⟨-, hsize, -, hempty⟩ := new_after hnew
  obtain ⟨hafter, hkept⟩ := hempty.of_writeAll hok
  have hcovered : ∀ i, Covered ([] ++ xs.map fun x => (x.1.toNat, x.2)) i ↔
      ∃ x ∈ xs, x.1.toNat ≤ i ∧ i < x.1.toNat + x.2.length := by
    intro i
    rw [List.nil_append]
    constructor
    · rintro ⟨y, hy, hi⟩
      obtain ⟨x, hx, rfl⟩ := List.mem_map.mp hy
      exact ⟨x, hx, hi⟩
    · rintro ⟨x, hx, hi⟩
      exact ⟨_, List.mem_map_of_mem hx, hi⟩
  refine ⟨hafter.separated.nonempty, hafter.separated.gaps, fun i => (hafter.places i).trans (hcovered i), ?_⟩
  rw [isComplete_iff hafter, hkept, hsize]
  simp only [hcovered]

/-- Two halves of four bytes, the second one first. -/
theorem writeAll_ranges_halves : ∃ w w' : XattrWriteState, new "user.a" 0 4 = some w ∧
    w.writeAll [(2, [3, 4]), (0, [1, 2])] = .ok w' ∧ w'.isComplete = true := by
  have hrun : ∃ w', ({ name := "user.a", flags := 0, expectedSize := 4, data := [0, 0, 0, 0], written := [], committed := false } :
      XattrWriteState).writeAll [(2, [3, 4]), (0, [1, 2])] = .ok w' := ⟨_, rfl⟩
  obtain ⟨w', hrun⟩ := hrun
  have hnew : new "user.a" 0 4 = some { name := "user.a", flags := 0, expectedSize := 4, data := [0, 0, 0, 0], written := [], committed := false } := rfl
  exact ⟨_, w', hnew, hrun, (writeAll_ranges hnew _ hrun).2.2.2.mpr (by decide)⟩

end XattrWriteState
end Star9
