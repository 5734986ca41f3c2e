import Mathlib

/-!
# Sets of places as separated ranges, and lists of writes

A set of natural numbers is kept as a list of half-open ranges in order, with a gap
between any two. Adding a range joins it with every range that it meets or touches.
A list of writes to a buffer covers the places of its writes, and leaves at every
place the byte of the last write that covers it.
-/
namespace Base

/-! ## Separated ranges -/

/-- The place lies in one of the ranges. -/
def InRanges (rs : List (Nat × Nat)) (i : Nat) : Prop := ∃ r ∈ rs, r.1 ≤ i ∧ i < r.2

/-- No range is empty, and there is a gap between any two. -/
structure Separated (rs : List (Nat × Nat)) : Prop where
  nonempty : ∀ r ∈ rs, r.1 < r.2
  gaps : rs.Pairwise fun r q => r.2 < q.1

def insertRange : Nat → Nat → List (Nat × Nat) → List (Nat × Nat)
  | start, stop, [] => [(start, stop)]
  | start, stop, r :: rs =>
    if r.2 < start then r :: insertRange start stop rs
    else if stop < r.1 then (start, stop) :: r :: rs
    else insertRange (min start r.1) (max stop r.2) rs

section
variable {rs : List (Nat × Nat)} {r : Nat × Nat} {start stop i : Nat}

@[simp] theorem inRanges_nil : ¬ InRanges [] i := by simp [InRanges]

@[simp] theorem inRanges_cons : InRanges (r :: rs) i ↔ (r.1 ≤ i ∧ i < r.2) ∨ InRanges rs i := by
  simp [InRanges]

theorem separated_nil : Separated [] := ⟨nofun, List.Pairwise.nil⟩

theorem separated_cons : Separated (r :: rs) ↔ r.1 < r.2 ∧ (∀ q ∈ rs, r.2 < q.1) ∧ Separated rs := by
  constructor
  · intro h
    obtain ⟨hfirst, hrest⟩ := List.pairwise_cons.mp h.gaps
    exact ⟨h.nonempty r List.mem_cons_self, hfirst, fun q hq => h.nonempty q (List.mem_cons_of_mem r hq), hrest⟩
  · rintro ⟨hr, hfirst, h⟩
    exact ⟨List.forall_mem_cons.mpr ⟨hr, h.nonempty⟩, List.pairwise_cons.mpr ⟨hfirst, h.gaps⟩⟩

/-- An added range does not reach below what is there and what it starts with. -/
theorem lt_of_mem_insertRange {b : Nat} (hstart : b < start) (hrs : ∀ q ∈ rs, b < q.1) :
    ∀ q ∈ insertRange start stop rs, b < q.1 := by
  induction rs generalizing start stop with
  | nil => simpa [insertRange] using hstart
  | cons r rs ih =>
    obtain ⟨hr, hrs⟩ := List.forall_mem_cons.mp hrs
    rw [insertRange]
    split
    · exact List.forall_mem_cons.mpr ⟨hr, ih hstart hrs⟩
    · split
      · exact List.forall_mem_cons.mpr ⟨hstart, List.forall_mem_cons.mpr ⟨hr, hrs⟩⟩
      · exact ih (by omega) hrs

theorem separated_insertRange (h : Separated rs) (hlt : start < stop) : Separated (insertRange start stop rs) := by
  induction rs generalizing start stop with
  | nil => exact separated_cons.mpr ⟨hlt, nofun, separated_nil⟩
  | cons r rs ih =>
    obtain ⟨hr, hfirst, hrs⟩ := separated_cons.mp h
    rw [insertRange]
    split
    case isTrue hbefore =>
      exact separated_cons.mpr ⟨hr, lt_of_mem_insertRange hbefore hfirst, ih hrs hlt⟩
    case isFalse =>
      split
      case isTrue hafter =>
        refine separated_cons.mpr ⟨hlt, List.forall_mem_cons.mpr ⟨hafter, fun q hq => ?_⟩, h⟩
        have hq := hfirst q hq
        omega
      case isFalse => exact ih hrs (by omega)

/-- The places of the new list are the old ones and those of the added range. -/
theorem inRanges_insertRange (h : Separated rs) (hlt : start < stop) :
    InRanges (insertRange start stop rs) i ↔ (start ≤ i ∧ i < stop) ∨ InRanges rs i := by
  induction rs generalizing start stop with
  | nil => simp [insertRange]
  | cons r rs ih =>
    obtain ⟨hr, -, hrs⟩ := separated_cons.mp h
    rw [insertRange]
    split
    · rw [inRanges_cons, ih hrs hlt, inRanges_cons]
      tauto
    · split
      · rw [inRanges_cons]
      · rw [ih hrs (by omega), inRanges_cons, ← or_assoc]
        refine or_congr_left ?_
        omega

/-- The whole buffer is covered exactly when one range is left, which is all of it. -/
theorem forall_inRanges_iff {n : Nat} (h : Separated rs) (hn : 0 < n) (hle : ∀ r ∈ rs, r.2 ≤ n) :
    (∀ i < n, InRanges rs i) ↔ rs = [(0, n)] := by
  constructor
  · intro hall
    cases rs with
    | nil => exact absurd (hall 0 hn) inRanges_nil
    | cons r rs =>
      obtain ⟨hr, hfirst, hrs⟩ := separated_cons.mp h
      -- a later range starts behind the end of the first one
      have hlater : ∀ i, i ≤ r.2 → ¬ InRanges rs i := by
        rintro i hi ⟨q, hq, hle, -⟩
        have hq := hfirst q hq
        omega
      have hzero : r.1 = 0 := by
        rcases inRanges_cons.mp (hall 0 hn) with hin | hin
        · omega
        · exact absurd hin (hlater 0 (Nat.zero_le _))
      have hend : r.2 = n := by
        have hrn := hle r List.mem_cons_self
        rcases Nat.eq_or_lt_of_le hrn with heq | hlt
        · exact heq
        · rcases inRanges_cons.mp (hall r.2 hlt) with hin | hin
          · omega
          · exact absurd hin (hlater r.2 le_rfl)
      have hnil : rs = [] := by
        rw [List.eq_nil_iff_forall_not_mem]
        intro q hq
        have hgap := hfirst q hq
        have hne := hrs.nonempty q hq
        have hqn := hle q (List.mem_cons_of_mem r hq)
        omega
      rw [hnil, ← hzero, ← hend]
  · rintro rfl i hi
    exact ⟨(0, n), List.mem_singleton_self _, Nat.zero_le _, hi⟩

end

/-! ## Writes to a buffer -/

section
variable {α : Type}

/-- A write covers the place. -/
def Covered (ws : List (Nat × List α)) (i : Nat) : Prop := ∃ w ∈ ws, w.1 ≤ i ∧ i < w.1 + w.2.length

instance (ws : List (Nat × List α)) (i : Nat) : Decidable (Covered ws i) :=
  inferInstanceAs (Decidable (∃ w ∈ ws, w.1 ≤ i ∧ i < w.1 + w.2.length))

/-- The byte that the writes leave at a place, in order. -/
def lastWritten (init : α) (ws : List (Nat × List α)) (i : Nat) : α :=
  ws.foldl (fun b w => if w.1 ≤ i then w.2.getD (i - w.1) b else b) init

/-- A buffer of the size after the writes. -/
def overlay (init : α) (size : Nat) (ws : List (Nat × List α)) : List α :=
  (List.range size).map (lastWritten init ws)

variable {init : α} {size : Nat} {ws : List (Nat × List α)}

@[simp] theorem overlay_length : (overlay init size ws).length = size := by simp [overlay]

theorem overlay_nil : overlay init size [] = List.replicate size init := by
  simp [overlay, show lastWritten init [] = fun _ => init from rfl]

theorem covered_append {w : Nat × List α} {i : Nat} :
    Covered (ws ++ [w]) i ↔ (w.1 ≤ i ∧ i < w.1 + w.2.length) ∨ Covered ws i := by
  simp [Covered, or_and_right, exists_or, or_comm]

theorem overlay_getElem? (i : Nat) : (overlay init size ws)[i]? = if i < size then some (lastWritten init ws i) else none := by
  rw [overlay, List.getElem?_map]
  split
  case isTrue h => rw [List.getElem?_range h, Option.map_some]
  case isFalse h => rw [List.getElem?_eq_none (by simpa using h), Option.map_none]

theorem lastWritten_append (offset : Nat) (chunk : List α) (i : Nat) : lastWritten init (ws ++ [(offset, chunk)]) i =
    if offset ≤ i then chunk.getD (i - offset) (lastWritten init ws i) else lastWritten init ws i := by
  rw [lastWritten, List.foldl_append]
  rfl

/-- One more write that fits the buffer replaces its bytes and leaves the others. -/
theorem overlay_append {offset : Nat} {chunk : List α} (hfit : offset + chunk.length ≤ size) :
    overlay init size (ws ++ [(offset, chunk)]) =
      (overlay init size ws).take offset ++ chunk ++ (overlay init size ws).drop (offset + chunk.length) := by
  have hhead : ((overlay init size ws).take offset).length = offset := by
    rw [List.length_take, overlay_length]
    omega
  refine List.ext_getElem? fun i => ?_
  rw [overlay_getElem?, lastWritten_append]
  rcases Nat.lt_or_ge i offset with hlt | hge
  · rw [List.append_assoc, List.getElem?_append_left (by omega), List.getElem?_take_of_lt hlt, overlay_getElem?,
      if_neg (Nat.not_le.mpr hlt)]
  · rw [if_pos hge]
    rcases Nat.lt_or_ge i (offset + chunk.length) with hin | hout
    · have hidx : i - offset < chunk.length := by omega
      rw [List.append_assoc, List.getElem?_append_right (by omega), hhead, List.getElem?_append_left hidx,
        if_pos (by omega), List.getD_eq_getElem?_getD, List.getElem?_eq_getElem hidx, Option.getD_some]
    · rw [List.getElem?_append_right (by simp; omega), List.getElem?_drop, List.length_append, hhead,
        show offset + chunk.length + (i - (offset + chunk.length)) = i by omega, overlay_getElem?,
        List.getD_eq_getElem?_getD, List.getElem?_eq_none (by omega), Option.getD_none]

end
end Base
