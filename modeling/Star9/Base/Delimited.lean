import Star9.Base.Line

/-!
# Delimited and escaped texts

Searching for a pattern whose first character stands nowhere else in it, such as a tag of a
markup text: an occurrence never runs over a place where that character stands. Splitting at a
separator, and decoding of percent escapes.
-/
namespace Base

/-! ## Searching for a tag -/

theorem splitAtText_self {pattern : List Char} (hne : pattern ≠ []) (rest : List Char) :
    splitAtText pattern (pattern ++ rest) = some ([], pattern ++ rest) := by
  cases pattern with
  | nil => exact absurd rfl hne
  | cons c cs => simp [splitAtText]

section Tag
variable {lead : Char} {body : List Char}

/-- No occurrence runs from a text into what follows it, when that begins with the lead. -/
theorem prefix_of_prefix_append (hbody : lead ∉ body) {a b : List Char} (hne : a ≠ []) (hb : ∀ c ∈ b.head?, c = lead)
    (h : (lead :: body) <+: (a ++ b)) : (lead :: body) <+: a := by
  by_cases hlen : (lead :: body).length ≤ a.length
  · exact List.prefix_of_prefix_length_le h (List.prefix_append a b) hlen
  · exfalso
    have ha : a <+: (lead :: body) := List.prefix_of_prefix_length_le (List.prefix_append a b) h (by omega)
    obtain ⟨t, ht⟩ := ha
    obtain ⟨u, hu⟩ := h
    rw [← ht, List.append_assoc, List.append_cancel_left_eq] at hu
    cases t with
    | nil => rw [List.append_nil] at ht; rw [ht] at hlen; exact hlen le_rfl
    | cons c t =>
      have hc : c = lead := hb c (by rw [← hu]; rfl)
      cases a with
      | nil => exact hne rfl
      | cons d a =>
        rw [List.cons_append, List.cons.injEq] at ht
        exact hbody (by rw [← ht.2, hc]; simp)

/-- The search passes over a text without the pattern. -/
theorem splitAtText_append (hbody : lead ∉ body) {a b : List Char} (ha : ¬ (lead :: body) <:+: a)
    (hb : ∀ c ∈ b.head?, c = lead) :
    splitAtText (lead :: body) (a ++ b) = (splitAtText (lead :: body) b).map fun found => (a ++ found.1, found.2) := by
  induction a with
  | nil => simp
  | cons c a ih =>
    have hnot : ¬ (lead :: body).isPrefixOf (c :: (a ++ b)) = true := by
      rw [List.isPrefixOf_iff_prefix]
      exact fun h => ha (prefix_of_prefix_append hbody (List.cons_ne_nil c a) hb h).isInfix
    rw [List.cons_append, splitAtText, if_neg hnot, ih fun h => ha (h.trans (List.suffix_cons c a).isInfix)]
    cases splitAtText (lead :: body) b <;> rfl

theorem splitAtText_none (hbody : lead ∉ body) {a : List Char} (ha : ¬ (lead :: body) <:+: a) : splitAtText (lead :: body) a = none := by
  have h := splitAtText_append hbody (b := []) ha (by simp)
  rwa [List.append_nil, splitAtText, if_neg (List.cons_ne_nil _ _), Option.map_none] at h

/-- The first tag is the one after a text without it. -/
theorem splitAtText_tag (hbody : lead ∉ body) {a : List Char} (ha : ¬ (lead :: body) <:+: a) (rest : List Char) :
    splitAtText (lead :: body) (a ++ (lead :: body ++ rest)) = some (a, lead :: body ++ rest) := by
  rw [splitAtText_append hbody ha (by simp), splitAtText_self (List.cons_ne_nil _ _)]
  simp

/-- A text with the pattern has it in one of two parts, when the second one begins with the lead. -/
theorem infix_append_of_lead (hbody : lead ∉ body) {a b : List Char} (hb : ∀ c ∈ b.head?, c = lead)
    (h : (lead :: body) <:+: (a ++ b)) : (lead :: body) <:+: a ∨ (lead :: body) <:+: b := by
  induction a with
  | nil => exact Or.inr h
  | cons c a ih =>
    rw [List.cons_append, List.infix_cons_iff] at h
    rcases h with h | h
    · exact Or.inl (prefix_of_prefix_append hbody (List.cons_ne_nil c a) hb h).isInfix
    · exact (ih h).imp_left fun h => h.trans (List.suffix_cons c a).isInfix

theorem not_infix_of_not_mem {a : List Char} (h : lead ∉ a) : ¬ (lead :: body) <:+: a :=
  fun hin => h (hin.subset List.mem_cons_self)

end Tag

theorem splitOnce_of_not_mem {sep : Char} {a : String} (h : sep ∉ a.toList) (b : String) :
    splitOnce sep (a ++ String.singleton sep ++ b) = some (a, b) := by
  have hlist : (a ++ String.singleton sep ++ b).toList = a.toList ++ sep :: b.toList := by simp
  have hspan : (a.toList ++ sep :: b.toList).span (· != sep) = (a.toList, sep :: b.toList) := by
    rw [List.span_eq_takeWhile_dropWhile, List.takeWhile_append_of_pos, List.dropWhile_append_of_pos]
    · simp
    · intro x hx
      exact bne_iff_ne.mpr fun he => h (he ▸ hx)
    · intro x hx
      exact bne_iff_ne.mpr fun he => h (he ▸ hx)
  unfold splitOnce
  rw [hlist, hspan]
  simp

/-! ## The bytes of a character -/

theorem utf8EncodeChar_ascii {c : Char} (h : c.toNat < 128) : String.utf8EncodeChar c = [UInt8.ofNat c.toNat] := by
  have hsize : c.utf8Size = 1 := by
    rw [Char.utf8Size_eq_one_iff]
    exact Nat.le_of_lt_succ h
  rw [String.utf8EncodeChar_eq_singleton hsize]
  rfl

/-! ## Percent escapes -/

def hexValue (c : Char) : Option Nat :=
  if '0' ≤ c ∧ c ≤ '9' then some (c.toNat - '0'.toNat)
  else if 'A' ≤ c ∧ c ≤ 'F' then some (c.toNat - 'A'.toNat + 10)
  else if 'a' ≤ c ∧ c ≤ 'f' then some (c.toNat - 'a'.toNat + 10)
  else none

/-- Each `%` with two hexadecimal digits is a byte; every other character stands for itself. -/
def percentDecode : List Char → Bytes
  | [] => []
  | '%' :: high :: low :: rest =>
    match hexValue high, hexValue low with
    | some h, some l => UInt8.ofNat (16 * h + l) :: percentDecode rest
    | _, _ => String.utf8EncodeChar '%' ++ percentDecode (high :: low :: rest)
  | c :: rest => String.utf8EncodeChar c ++ percentDecode rest

def hexUpper (n : Nat) : Char := if n < 10 then Char.ofNat (n + 48) else Char.ofNat (n + 55)

/-- A byte as an escape with two digits in upper case. -/
def percentByte (b : UInt8) : List Char := ['%', hexUpper (b.toNat / 16), hexUpper (b.toNat % 16)]

theorem percentDecode_cons {c : Char} (h : c ≠ '%') (rest : List Char) :
    percentDecode (c :: rest) = String.utf8EncodeChar c ++ percentDecode rest := by
  conv_lhs => unfold percentDecode
  split <;> simp_all

theorem hexValue_hexUpper : ∀ n < 16, hexValue (hexUpper n) = some n := by decide

theorem percentDecode_percentByte (b : UInt8) (rest : List Char) :
    percentDecode (percentByte b ++ rest) = b :: percentDecode rest := by
  have hb : b.toNat < 256 := b.toNat_lt
  have hhigh := hexValue_hexUpper (b.toNat / 16) (by omega)
  have hlow := hexValue_hexUpper (b.toNat % 16) (by omega)
  have hvalue : 16 * (b.toNat / 16) + b.toNat % 16 = b.toNat := by omega
  simp [percentByte, percentDecode, hhigh, hlow, hvalue]

end Base
