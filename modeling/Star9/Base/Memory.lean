import Mathlib

/-!
# Cells of a memory

A memory is the list of its cells. A window of it is read and cells are put over it; both leave
what lies apart from them. A list of regions is read one after the other, and filled in order with
cells that may run out before the last region is full.
-/
namespace Base.Memory
variable {α : Type}

/-- The cells from a place on. -/
def window (mem : List α) (start len : Nat) : List α := (mem.drop start).take len

/-- The memory with cells put over those at a place. -/
def put (mem : List α) (start : Nat) (cells : List α) : List α := mem.take start ++ cells ++ mem.drop (start + cells.length)

/-! ## One window -/

theorem window_length {mem : List α} {start len : Nat} (h : start + len ≤ mem.length) : (window mem start len).length = len := by
  rw [window, List.length_take, List.length_drop]
  omega

theorem window_append (mem : List α) (start a b : Nat) :
    window mem start (a + b) = window mem start a ++ window mem (start + a) b := by
  simp only [window, List.take_add, List.drop_drop]

/-- A window onto two runs of cells is a window onto each. -/
theorem window_eq_append {mem : List α} {start : Nat} {a b : List α} (h : window mem start (a ++ b).length = a ++ b) :
    window mem start a.length = a ∧ window mem (start + a.length) b.length = b := by
  have hlen := congrArg List.length h
  rw [List.length_append, window_append] at h
  rw [List.length_append, window_append, List.length_append] at hlen
  have ha : (window mem start a.length).length ≤ a.length := List.length_take_le _ _
  have hb : (window mem (start + a.length) b.length).length ≤ b.length := List.length_take_le _ _
  exact List.append_inj h (by omega)

theorem getElem?_window (mem : List α) (start len i : Nat) :
    (window mem start len)[i]? = if i < len then mem[start + i]? else none := by
  simp only [window, List.getElem?_take, List.getElem?_drop]

@[simp] theorem put_nil (mem : List α) (start : Nat) : put mem start [] = mem := by
  simp [put]

theorem put_length {mem : List α} {start : Nat} {cells : List α} (h : start + cells.length ≤ mem.length) :
    (put mem start cells).length = mem.length := by
  simp only [put, List.length_append, List.length_take, List.length_drop]
  omega

theorem getElem?_put {mem : List α} {start : Nat} {cells : List α} (h : start + cells.length ≤ mem.length) (i : Nat) :
    (put mem start cells)[i]? = if start ≤ i ∧ i < start + cells.length then cells[i - start]? else mem[i]? := by
  have htake : (mem.take start).length = start := by
    rw [List.length_take]
    omega
  rw [put, List.append_assoc, List.getElem?_append, htake]
  by_cases hbefore : i < start
  · rw [if_pos hbefore, if_neg (by omega), List.getElem?_take, if_pos hbefore]
  · rw [if_neg hbefore, List.getElem?_append]
    by_cases hinside : i - start < cells.length
    · rw [if_pos hinside, if_pos (by omega)]
    · rw [if_neg hinside, if_neg (by omega), List.getElem?_drop]
      congr 1
      omega

/-- Cells put in two steps side by side. -/
theorem put_put {mem : List α} {start : Nat} {a b : List α} (h : start + a.length + b.length ≤ mem.length) :
    put (put mem start a) (start + a.length) b = put mem start (a ++ b) := by
  have ha : start + a.length ≤ mem.length := by omega
  apply List.ext_getElem?
  intro i
  rw [getElem?_put (by rw [put_length ha]; omega), getElem?_put ha, getElem?_put (by rw [List.length_append]; omega), List.length_append,
    List.getElem?_append]
  split_ifs
  any_goals omega
  · congr 1
    omega
  · rfl
  · rfl

theorem window_put_self {mem : List α} {start : Nat} {cells : List α} (h : start + cells.length ≤ mem.length) :
    window (put mem start cells) start cells.length = cells := by
  apply List.ext_getElem?
  intro i
  rw [getElem?_window, getElem?_put h]
  split_ifs
  · congr 1
    omega
  · omega
  · rw [List.getElem?_eq_none (by omega)]

/-! ## Regions -/

/-- A region is a place and a length. -/
def Covers (r : Nat × Nat) (i : Nat) : Prop := r.1 ≤ i ∧ i < r.1 + r.2

def Separate (r s : Nat × Nat) : Prop := ∀ i, Covers r i → ¬ Covers s i

theorem Separate.symm {r s : Nat × Nat} (h : Separate r s) : Separate s r := fun i hs hr => h i hr hs

theorem separate_of_le {r s : Nat × Nat} (h : r.1 + r.2 ≤ s.1) : Separate r s := by
  rintro i ⟨-, hr⟩ ⟨hs, -⟩
  omega

theorem getElem?_put_of_not_covers {mem : List α} {start : Nat} {cells : List α} (h : start + cells.length ≤ mem.length) {i : Nat}
    (hi : ¬ Covers (start, cells.length) i) : (put mem start cells)[i]? = mem[i]? := by
  rw [getElem?_put h]
  exact if_neg hi

/-- Two memories with the same cells in a region have the same window there. -/
theorem window_congr {mem mem' : List α} {r : Nat × Nat} (h : ∀ i, Covers r i → mem'[i]? = mem[i]?) :
    window mem' r.1 r.2 = window mem r.1 r.2 := by
  apply List.ext_getElem?
  intro i
  rw [getElem?_window, getElem?_window]
  split
  case isTrue hi => exact h _ ⟨by omega, by omega⟩
  case isFalse => rfl

/-- A window apart from the cells that are put is as it was. -/
theorem window_put_of_separate {mem : List α} {start : Nat} {cells : List α} (h : start + cells.length ≤ mem.length) {r : Nat × Nat}
    (hr : Separate r (start, cells.length)) : window (put mem start cells) r.1 r.2 = window mem r.1 r.2 :=
  window_congr fun i hi => getElem?_put_of_not_covers h (hr i hi)

/-- Cells put at separate places can be put in either order. -/
theorem put_comm {mem : List α} {i j : Nat} {a b : List α} (ha : i + a.length ≤ mem.length) (hb : j + b.length ≤ mem.length)
    (h : Separate (i, a.length) (j, b.length)) : put (put mem i a) j b = put (put mem j b) i a := by
  apply List.ext_getElem?
  intro k
  rw [getElem?_put (by rwa [put_length ha]), getElem?_put ha, getElem?_put (by rwa [put_length hb]), getElem?_put hb]
  by_cases hk : i ≤ k ∧ k < i + a.length
  · have hnot : ¬ (j ≤ k ∧ k < j + b.length) := h k hk
    simp only [hk, hnot, if_false]
  · simp only [hk, if_false]

/-- The cells of the regions one after the other. -/
def gather (mem : List α) (regions : List (Nat × Nat)) : List α := regions.flatMap fun r => window mem r.1 r.2

/-- The regions filled in order, as far as the cells go. -/
def scatter (mem : List α) : List (Nat × Nat) → List α → List α
  | [], _ => mem
  | r :: regions, cells => scatter (put mem r.1 (cells.take r.2)) regions (cells.drop r.2)

def total (regions : List (Nat × Nat)) : Nat := (regions.map Prod.snd).sum

theorem total_cons (r : Nat × Nat) (regions : List (Nat × Nat)) : total (r :: regions) = r.2 + total regions := by
  rw [total, List.map_cons, List.sum_cons, total]

theorem gather_cons (mem : List α) (r : Nat × Nat) (regions : List (Nat × Nat)) :
    gather mem (r :: regions) = window mem r.1 r.2 ++ gather mem regions := List.flatMap_cons

section
variable {mem : List α} {regions : List (Nat × Nat)}

theorem gather_length (h : ∀ r ∈ regions, r.1 + r.2 ≤ mem.length) : (gather mem regions).length = total regions := by
  induction regions with
  | nil => rfl
  | cons r regions ih =>
    rw [List.forall_mem_cons] at h
    rw [gather_cons, List.length_append, window_length h.1, ih h.2, total_cons]

theorem mem_gather_range {n : Nat} {i : Nat} (h : i ∈ gather (List.range n) regions) : i < n ∧ ∃ r ∈ regions, Covers r i := by
  rw [gather, List.mem_flatMap] at h
  obtain ⟨r, hr, hi⟩ := h
  obtain ⟨k, hk⟩ := List.getElem?_of_mem hi
  rw [getElem?_window] at hk
  split at hk
  case isTrue hlt =>
    obtain ⟨hrange, heq⟩ := List.getElem?_eq_some_iff.mp hk
    rw [List.getElem_range] at heq
    rw [List.length_range] at hrange
    exact ⟨by omega, r, hr, by omega, by omega⟩
  case isFalse => cases hk

/-- Regions of a memory that are apart are together no larger than it. -/
theorem total_le {n : Nat} (hinside : ∀ r ∈ regions, r.1 + r.2 ≤ n) (hapart : regions.Pairwise Separate) : total regions ≤ n := by
  have hnodup : (gather (List.range n) regions).Nodup := by
    induction regions with
    | nil => exact List.nodup_nil
    | cons r regions ih =>
      rw [List.forall_mem_cons] at hinside
      rw [List.pairwise_cons] at hapart
      rw [gather_cons, List.nodup_append']
      refine ⟨(List.nodup_range.drop).take, ih hinside.2 hapart.2, ?_⟩
      intro i hi hrest
      have hhere : i ∈ gather (List.range n) [r] := by rwa [gather_cons, gather, List.flatMap_nil, List.append_nil]
      obtain ⟨-, s, hs, hin⟩ := mem_gather_range hhere
      obtain ⟨-, t, ht, hin'⟩ := mem_gather_range hrest
      obtain rfl := List.mem_singleton.mp hs
      exact hapart.1 t ht i hin hin'
  have hsub : gather (List.range n) regions ⊆ List.range n := by
    intro i hi
    exact List.mem_range.mpr (mem_gather_range hi).1
  have hlen := (List.subperm_of_subset hnodup hsub).length_le
  rwa [gather_length (by simpa using hinside), List.length_range] at hlen

theorem scatter_nil : scatter mem regions [] = mem := by
  induction regions with
  | nil => rfl
  | cons r regions ih => rw [scatter, List.take_nil, List.drop_nil, put_nil, ih]

/-- No more cells are used than the regions hold. -/
theorem scatter_take (cells : List α) : scatter mem regions (cells.take (total regions)) = scatter mem regions cells := by
  induction regions generalizing mem cells with
  | nil => rfl
  | cons r regions ih =>
    rw [scatter, scatter, total_cons, List.take_take, Nat.min_eq_left (Nat.le_add_right _ _), List.drop_take, Nat.add_sub_cancel_left, ih]

theorem put_take_fits {r : Nat × Nat} (h : r.1 + r.2 ≤ mem.length) (cells : List α) : r.1 + (cells.take r.2).length ≤ mem.length :=
  Nat.le_trans (Nat.add_le_add_left (List.length_take_le _ _) _) h

theorem scatter_length (h : ∀ r ∈ regions, r.1 + r.2 ≤ mem.length) (cells : List α) :
    (scatter mem regions cells).length = mem.length := by
  induction regions generalizing mem cells with
  | nil => rfl
  | cons r regions ih =>
    rw [List.forall_mem_cons] at h
    have hlen := put_length (put_take_fits h.1 cells)
    rw [scatter, ih (by rw [hlen]; exact h.2), hlen]

theorem covers_take {r : Nat × Nat} {cells : List α} {i : Nat} (h : Covers (r.1, (cells.take r.2).length) i) : Covers r i := by
  have hle : (cells.take r.2).length ≤ r.2 := List.length_take_le _ _
  unfold Covers at h ⊢
  dsimp only at h
  omega

/-- Cells outside of the regions are as they were. -/
theorem getElem?_scatter_of_not_covers (h : ∀ r ∈ regions, r.1 + r.2 ≤ mem.length) {i : Nat} (hi : ∀ r ∈ regions, ¬ Covers r i)
    (cells : List α) : (scatter mem regions cells)[i]? = mem[i]? := by
  induction regions generalizing mem cells with
  | nil => rfl
  | cons r regions ih =>
    rw [List.forall_mem_cons] at h hi
    have hlen := put_length (put_take_fits h.1 cells)
    rw [scatter, ih (by rw [hlen]; exact h.2) hi.2, getElem?_put_of_not_covers (put_take_fits h.1 cells)]
    exact fun hin => hi.1 (covers_take hin)

theorem window_scatter_of_separate (h : ∀ r ∈ regions, r.1 + r.2 ≤ mem.length) {s : Nat × Nat} (hs : ∀ r ∈ regions, Separate s r) (cells : List α) :
    window (scatter mem regions cells) s.1 s.2 = window mem s.1 s.2 :=
  window_congr fun i hi => getElem?_scatter_of_not_covers h (fun r hr => hs r hr i hi) cells

theorem gather_put_of_separate {start : Nat} {cells : List α} (h : start + cells.length ≤ mem.length)
    (hapart : ∀ r ∈ regions, Separate r (start, cells.length)) : gather (put mem start cells) regions = gather mem regions :=
  List.flatMap_congr fun r hr => window_put_of_separate h (hapart r hr)

/-- The regions hold the cells, and behind them what they held before. -/
theorem gather_scatter (h : ∀ r ∈ regions, r.1 + r.2 ≤ mem.length) (hapart : regions.Pairwise Separate) (cells : List α) :
    gather (scatter mem regions cells) regions = cells.take (total regions) ++ (gather mem regions).drop cells.length := by
  induction regions generalizing mem cells with
  | nil => simp [gather, total]
  | cons r regions ih =>
    rw [List.forall_mem_cons] at h
    rw [List.pairwise_cons] at hapart
    have hfits := put_take_fits h.1 cells
    have hlen := put_length hfits
    have hwindow : window (put mem r.1 (cells.take r.2)) r.1 r.2 = cells.take r.2 ++ (window mem r.1 r.2).drop cells.length := by
      apply List.ext_getElem?
      intro i
      have htake : (cells.take r.2).length = min r.2 cells.length := List.length_take
      rw [getElem?_window, getElem?_put hfits, List.getElem?_append, htake, List.getElem?_drop, getElem?_window]
      split_ifs
      any_goals omega
      · congr 1
        omega
      · congr 1
        omega
      · rfl
    have hrest : gather (put mem r.1 (cells.take r.2)) regions = gather mem regions := by
      apply gather_put_of_separate hfits
      intro s hs i hin hin'
      exact hapart.1 s hs i (covers_take hin') hin
    rw [scatter, gather_cons, gather_cons, ih (by rw [hlen]; exact h.2) hapart.2, hrest,
      window_scatter_of_separate (by rw [hlen]; exact h.2) hapart.1, hwindow, List.length_drop, total_cons, List.take_add, List.drop_append,
      window_length h.1]
    by_cases hshort : cells.length ≤ r.2
    · rw [List.drop_of_length_le hshort, List.take_nil, List.nil_append, Nat.sub_eq_zero_of_le hshort, List.append_assoc, List.append_assoc,
        List.nil_append]
    · rw [List.drop_of_length_le (by rw [window_length h.1]; omega), List.append_nil, List.nil_append, List.append_assoc]

end

/-- Two regions are filled by the first three of four cells. -/
example : scatter [0, 0, 0, 0, 0, 0] [(4, 2), (1, 2)] [1, 2, 3] = [0, 3, 0, 0, 1, 2] := by decide

end Base.Memory
