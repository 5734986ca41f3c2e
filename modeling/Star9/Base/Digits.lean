import Mathlib

/-!
# Numbers in a fixed width

Decimal numbers with zeros at the front. Texts of one length are in the order of the numbers that
they spell, and the order of concatenated texts is decided by the first parts that differ.
-/
namespace Base

/-- At least so many digits, with zeros at the front. -/
def padNat (width n : Nat) : List Char := List.replicate (width - (Nat.toDigits 10 n).length) '0' ++ Nat.toDigits 10 n

def spelled (digits : List Char) : Nat := Nat.ofDigitChars 10 digits 0

@[simp] theorem spelled_padNat (width n : Nat) : spelled (padNat width n) = n := by
  rw [spelled, padNat, Nat.ofDigitChars_append, Nat.ofDigitChars_replicate_zero, Nat.mul_zero, Nat.ofDigitChars_ten_toDigits]

theorem padNat_injective (width : Nat) : Function.Injective (padNat width) := by
  intro n m h
  rw [← spelled_padNat width n, h, spelled_padNat]

theorem isDigit_of_mem_padNat {width n : Nat} {c : Char} (hc : c ∈ padNat width n) : c.isDigit = true := by
  rcases List.mem_append.mp hc with hc | hc
  · rw [List.eq_of_mem_replicate hc]
    decide
  · exact Nat.isDigit_of_mem_toDigits (by decide) (by decide) hc

theorem length_padNat {width n : Nat} (hpos : 0 < width) (h : n < 10 ^ width) : (padNat width n).length = width := by
  have hle := (Nat.length_toDigits_le_iff (by decide : 1 < 10) hpos).mpr h
  rw [padNat, List.length_append, List.length_replicate]
  omega

theorem spelled_cons (c : Char) (cs : List Char) : spelled (c :: cs) = 10 ^ cs.length * (c.toNat - 48) + spelled cs := by
  rw [spelled, Nat.ofDigitChars_cons, Nat.ofDigitChars_eq_ofDigitChars_zero]
  simp [spelled]

theorem digit_bounds {c : Char} (h : c.isDigit = true) : 48 ≤ c.toNat ∧ c.toNat ≤ 57 := by
  simp only [Char.isDigit, Bool.and_eq_true, decide_eq_true_eq, ge_iff_le, UInt32.le_iff_toNat_le] at h
  exact h

theorem spelled_lt {cs : List Char} (h : ∀ c ∈ cs, c.isDigit = true) : spelled cs < 10 ^ cs.length := by
  induction cs with
  | nil => simp [spelled]
  | cons c cs ih =>
    have hc := digit_bounds (h c List.mem_cons_self)
    have hrest := ih fun d hd => h d (List.mem_cons_of_mem c hd)
    have hscale : 10 ^ cs.length * (c.toNat - 48) ≤ 10 ^ cs.length * 9 := Nat.mul_le_mul_left _ (by omega)
    rw [spelled_cons, List.length_cons, pow_succ]
    omega

/-- Texts of digits of one length are ordered as their numbers. -/
theorem digits_lt_iff {cs ds : List Char} (hlen : cs.length = ds.length) (hc : ∀ c ∈ cs, c.isDigit = true)
    (hd : ∀ c ∈ ds, c.isDigit = true) : cs < ds ↔ spelled cs < spelled ds := by
  induction cs generalizing ds with
  | nil =>
    cases ds with
    | nil => simp
    | cons d ds => cases hlen
  | cons c cs ih =>
    cases ds with
    | nil => cases hlen
    | cons d ds =>
      rw [List.length_cons, List.length_cons, Nat.add_right_cancel_iff] at hlen
      obtain ⟨hchar, hchars⟩ := List.forall_mem_cons.mp hc
      obtain ⟨hdhar, hdhars⟩ := List.forall_mem_cons.mp hd
      have hcb := digit_bounds hchar
      have hdb := digit_bounds hdhar
      have hcs := spelled_lt hchars
      have hds := spelled_lt hdhars
      have hltiff : c < d ↔ c.toNat < d.toNat := Iff.rfl
      have heqiff : c = d ↔ c.toNat = d.toNat := Char.toNat_inj.symm
      rw [List.cons_lt_cons_iff, ih hlen hchars hdhars, spelled_cons, spelled_cons, hltiff, heqiff, hlen]
      rw [hlen] at hcs
      constructor
      · rintro (hlt | ⟨heq, hlt⟩)
        · have hscale : 10 ^ ds.length * (c.toNat - 48) + 10 ^ ds.length ≤ 10 ^ ds.length * (d.toNat - 48) := by
            rw [← Nat.mul_succ]
            exact Nat.mul_le_mul_left _ (by omega)
          omega
        · rw [heq]
          omega
      · intro hlt
        rcases Nat.lt_trichotomy c.toNat d.toNat with h | h | h
        · exact Or.inl h
        · rw [h] at hlt
          exact Or.inr ⟨h, by omega⟩
        · have hscale : 10 ^ ds.length * (d.toNat - 48) + 10 ^ ds.length ≤ 10 ^ ds.length * (c.toNat - 48) := by
            rw [← Nat.mul_succ]
            exact Nat.mul_le_mul_left _ (by omega)
          omega

theorem append_lt_append_iff {xs ys us vs : List Char} (hlen : xs.length = ys.length) :
    xs ++ us < ys ++ vs ↔ xs < ys ∨ xs = ys ∧ us < vs := by
  induction xs generalizing ys with
  | nil =>
    cases ys with
    | nil => simp
    | cons y ys => cases hlen
  | cons x xs ih =>
    cases ys with
    | nil => cases hlen
    | cons y ys =>
      rw [List.length_cons, List.length_cons, Nat.add_right_cancel_iff] at hlen
      rw [List.cons_append, List.cons_append, List.cons_lt_cons_iff, List.cons_lt_cons_iff, ih hlen, List.cons.injEq]
      tauto

/-- Two numbers of one width, and what follows them. -/
theorem padNat_append_lt_iff {width n m : Nat} (hpos : 0 < width) (hn : n < 10 ^ width) (hm : m < 10 ^ width) {us vs : List Char} :
    padNat width n ++ us < padNat width m ++ vs ↔ n < m ∨ n = m ∧ us < vs := by
  have hlen : (padNat width n).length = (padNat width m).length := by rw [length_padNat hpos hn, length_padNat hpos hm]
  rw [append_lt_append_iff hlen, digits_lt_iff hlen (fun _ => isDigit_of_mem_padNat) (fun _ => isDigit_of_mem_padNat), spelled_padNat,
    spelled_padNat, (padNat_injective width).eq_iff]

end Base
