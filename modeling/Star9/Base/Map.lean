import Mathlib

/-!
# Ordered maps under repeated insertion and erasure

Look-ups in an extensional tree map after a list of keys has been erased, or a
list of entries inserted.
-/
namespace Base

variable {κ ν β : Type} {cmp : κ → κ → Ordering} [Std.TransCmp cmp] [Std.LawfulEqCmp cmp]

theorem getElem?_insert_eq [DecidableEq κ] (m : Std.ExtTreeMap κ ν cmp) (k : κ) (v : ν) (t : κ) :
    (m.insert k v)[t]? = if t = k then some v else m[t]? := by
  rw [Std.ExtTreeMap.getElem?_insert]
  by_cases ht : t = k
  · rw [if_pos ht, if_pos (by simp [ht])]
  · rw [if_neg ht, if_neg (by simpa using Ne.symm ht)]

/-- Inserting what is there. -/
theorem insert_same [DecidableEq κ] {m : Std.ExtTreeMap κ ν cmp} {k : κ} {v : ν} (h : m[k]? = some v) : m.insert k v = m := by
  apply Std.ExtTreeMap.ext_getElem?
  intro t
  rw [getElem?_insert_eq]
  split
  case isTrue ht => rw [ht, h]
  case isFalse => rfl

theorem insert_twice [DecidableEq κ] (m : Std.ExtTreeMap κ ν cmp) (k : κ) (v v' : ν) : (m.insert k v).insert k v' = m.insert k v' := by
  apply Std.ExtTreeMap.ext_getElem?
  intro t
  simp only [getElem?_insert_eq]
  split
  · rfl
  · rfl

theorem getElem?_erase_eq [DecidableEq κ] (m : Std.ExtTreeMap κ ν cmp) (k t : κ) :
    (m.erase k)[t]? = if t = k then none else m[t]? := by
  rw [Std.ExtTreeMap.getElem?_erase]
  by_cases ht : t = k
  · rw [if_pos ht, if_pos (by simp [ht])]
  · rw [if_neg ht, if_neg (by simpa using Ne.symm ht)]

theorem getElem?_foldl_erase [DecidableEq κ] (l : List κ) (m : Std.ExtTreeMap κ ν cmp) (k : κ) :
    (l.foldl (fun m a => m.erase a) m)[k]? = if k ∈ l then none else m[k]? := by
  induction l generalizing m with
  | nil => simp
  | cons a l ih =>
    rw [List.foldl_cons, ih, Std.ExtTreeMap.getElem?_erase]
    by_cases hkl : k ∈ l
    · simp [hkl]
    · by_cases hka : a = k
      · simp [hka]
      · simp [hkl, hka, Ne.symm hka]

theorem mem_map_foldl_erase [DecidableEq κ] (l : List κ) (m : Std.ExtTreeMap κ ν cmp) {k : κ} :
    k ∈ l.foldl (fun m a => m.erase a) m ↔ k ∈ m ∧ k ∉ l := by
  rw [← Std.ExtTreeMap.isSome_getElem?_iff_mem, getElem?_foldl_erase, ← Std.ExtTreeMap.isSome_getElem?_iff_mem]
  by_cases hk : k ∈ l <;> simp [hk]

theorem mem_map_foldl_insert (l : List (κ × ν)) (m : Std.ExtTreeMap κ ν cmp) {k : κ} :
    k ∈ l.foldl (fun m a => m.insert a.1 a.2) m ↔ (∃ a ∈ l, a.1 = k) ∨ k ∈ m := by
  induction l generalizing m with
  | nil => simp
  | cons a l ih =>
    rw [List.foldl_cons, ih, Std.ExtTreeMap.mem_insert, Std.LawfulEqCmp.compare_eq_iff_eq]
    simp only [List.mem_cons, exists_eq_or_imp]
    rw [← or_assoc, or_comm (a := ∃ b ∈ l, b.1 = k)]

theorem getElem?_foldl_insert_of_not_mem (l : List (κ × ν)) (m : Std.ExtTreeMap κ ν cmp) {k : κ}
    (h : ∀ a ∈ l, a.1 ≠ k) : (l.foldl (fun m a => m.insert a.1 a.2) m)[k]? = m[k]? := by
  induction l generalizing m with
  | nil => rfl
  | cons a l ih =>
    rw [List.foldl_cons, ih _ fun b hb => h b (List.mem_cons_of_mem a hb),
      Std.ExtTreeMap.getElem?_insert]
    have ha : cmp a.1 k ≠ .eq := by
      intro he
      exact h a List.mem_cons_self (Std.LawfulEqCmp.eq_of_compare he)
    rw [if_neg ha]

/-- A value in the map after the insertions was listed for its key, or was there before. -/
theorem mem_or_getElem?_of_foldl_insert (l : List (κ × ν)) (m : Std.ExtTreeMap κ ν cmp) {k : κ} {v : ν}
    (h : (l.foldl (fun m a => m.insert a.1 a.2) m)[k]? = some v) : (k, v) ∈ l ∨ m[k]? = some v := by
  induction l generalizing m with
  | nil => exact Or.inr h
  | cons a l ih =>
    rcases ih _ h with hl | hm
    · exact Or.inl (List.mem_cons_of_mem a hl)
    · rw [Std.ExtTreeMap.getElem?_insert] at hm
      split at hm
      · rename_i heq
        have hk := Std.LawfulEqCmp.eq_of_compare heq
        rw [Option.some.injEq] at hm
        subst hk hm
        exact Or.inl List.mem_cons_self
      · exact Or.inr hm

/-- With one value per key in the list, a listed key gets its listed value. -/
theorem getElem?_foldl_insert_of_mem [DecidableEq κ] (l : List (κ × ν)) (m : Std.ExtTreeMap κ ν cmp)
    {k : κ} {v : ν} (hkv : (k, v) ∈ l) (h : ∀ a ∈ l, a.1 = k → a.2 = v) :
    (l.foldl (fun m a => m.insert a.1 a.2) m)[k]? = some v := by
  induction l generalizing m with
  | nil => cases hkv
  | cons a l ih =>
    rw [List.foldl_cons]
    by_cases hrest : ∃ w, (k, w) ∈ l
    · obtain ⟨w, hw⟩ := hrest
      obtain rfl : w = v := h (k, w) (List.mem_cons_of_mem a hw) rfl
      exact ih _ hw fun b hb => h b (List.mem_cons_of_mem a hb)
    · have hak : a = (k, v) := by
        rcases List.mem_cons.mp hkv with h | h
        · exact h.symm
        · exact absurd ⟨v, h⟩ hrest
      subst hak
      rw [getElem?_foldl_insert_of_not_mem]
      · simp
      · rintro ⟨b, w⟩ hb rfl
        exact hrest ⟨w, hb⟩

/-- Keys that are missing are entered with a value of their own. -/
theorem getElem?_foldl_insertIfNew [DecidableEq κ] (f : κ → ν) (l : List κ) (m : Std.ExtTreeMap κ ν cmp) (k : κ) :
    (l.foldl (fun m k => m.insertIfNew k (f k)) m)[k]? = if k ∉ m ∧ k ∈ l then some (f k) else m[k]? := by
  induction l generalizing m with
  | nil => simp
  | cons a l ih =>
    rw [List.foldl_cons, ih]
    by_cases hak : a = k
    · subst hak
      have hin : a ∈ m.insertIfNew a (f a) := by simp
      rw [if_neg fun h => h.1 hin, Std.ExtTreeMap.getElem?_insertIfNew]
      by_cases hmem : a ∈ m <;> simp [hmem]
    · simp [Std.ExtTreeMap.getElem?_insertIfNew, hak, Ne.symm hak]

/-- Values are changed at the keys of a list; a second change at one key adds nothing. -/
theorem getElem?_foldl_modify [DecidableEq κ] {f : κ → ν → ν} (hf : ∀ k v, f k (f k v) = f k v) (l : List κ)
    (m : Std.ExtTreeMap κ ν cmp) (k : κ) :
    (l.foldl (fun m k => m.modify k (f k)) m)[k]? = if k ∈ l then (m[k]?).map (f k) else m[k]? := by
  induction l generalizing m with
  | nil => simp
  | cons a l ih =>
    rw [List.foldl_cons, ih]
    by_cases hak : a = k
    · subst hak
      have htwice : ((m[a]?).map (f a)).map (f a) = (m[a]?).map (f a) := by
        rw [Option.map_map]
        exact Option.map_congr fun v _ => hf a v
      simp [htwice]
    · simp [Std.ExtTreeMap.getElem?_modify, hak, Ne.symm hak]

end Base
