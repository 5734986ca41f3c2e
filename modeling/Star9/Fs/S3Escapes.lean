import Star9.Fs.S3Signer

/-!
# Escaped texts are encoded as they are

What the store encodes is a text of unreserved characters and escapes in upper case. The encoder of
the signer leaves such texts alone, and decoding gives back the bytes that were encoded.
-/
namespace Star9
open Base

/-! ## Bytes that stand for themselves -/

theorem isUnreserved_bounds {b : UInt8} (h : isUnreserved b = true) :
    b.toNat < 128 ∧ b ≠ 0x25 ∧ b ≠ 0x2f ∧ b ≠ 0x26 ∧ b ≠ 0x3d ∧ b ≠ 0x3f ∧ b ≠ 0x23 := by
  have hcases : ∀ n < 256, isUnreserved (UInt8.ofNat n) = true →
      n < 128 ∧ n ≠ 0x25 ∧ n ≠ 0x2f ∧ n ≠ 0x26 ∧ n ≠ 0x3d ∧ n ≠ 0x3f ∧ n ≠ 0x23 := by decide +kernel
  have hb := hcases b.toNat b.toNat_lt (by rwa [UInt8.ofNat_toNat])
  simp only [ne_eq, ← UInt8.toNat_inj]
  exact hb

theorem charOfByte_toNat {b : UInt8} (h : b.toNat < 128) : (Char.ofNat b.toNat).toNat = b.toNat := by
  have hvalid : b.toNat.isValidChar := Or.inl (by omega)
  rw [Char.ofNat, dif_pos hvalid]
  rfl

theorem utf8EncodeChar_byte {b : UInt8} (h : b.toNat < 128) : String.utf8EncodeChar (Char.ofNat b.toNat) = [b] := by
  rw [utf8EncodeChar_ascii (by rw [charOfByte_toNat h]; exact h), charOfByte_toNat h, UInt8.ofNat_toNat]

theorem charOfByte_ne {b c : UInt8} (hb : b.toNat < 128) (hc : c.toNat < 128) (h : b ≠ c) : Char.ofNat b.toNat ≠ Char.ofNat c.toNat := by
  intro heq
  have htoNat := congrArg Char.toNat heq
  rw [charOfByte_toNat hb, charOfByte_toNat hc] at htoNat
  exact h (UInt8.toNat_inj.mp htoNat)

/-! ## Escaped texts -/

/-- Characters that the encoder passes through, and escapes. -/
inductive Escaped (keepSlash : Bool) : List Char → Prop
  | nil : Escaped keepSlash []
  | plain (b : UInt8) {rest : List Char} : (isUnreserved b || (keepSlash && b == 0x2f)) = true → Escaped keepSlash rest →
      Escaped keepSlash (Char.ofNat b.toNat :: rest)
  | escape (b : UInt8) {rest : List Char} : Escaped keepSlash rest → Escaped keepSlash (percentByte b ++ rest)

variable {keepSlash : Bool}

theorem Escaped.append {xs ys : List Char} (hx : Escaped keepSlash xs) (hy : Escaped keepSlash ys) : Escaped keepSlash (xs ++ ys) := by
  induction hx with
  | nil => exact hy
  | plain b hb _ ih => exact .plain b hb ih
  | escape b _ ih =>
    rw [List.append_assoc]
    exact .escape b ih

theorem escaped_percentEncode (keepSlash : Bool) (bs : Bytes) : Escaped keepSlash (bs.flatMap percentEncodeByte) := by
  induction bs with
  | nil => exact .nil
  | cons b bs ih =>
    rw [List.flatMap_cons, percentEncodeByte]
    split
    case isTrue hb => exact .plain b (by rw [hb, Bool.true_or]) ih
    case isFalse => exact .escape b ih

theorem escaped_slash {rest : List Char} (h : Escaped true rest) : Escaped true ('/' :: rest) := .plain 0x2f rfl h

/-! ## The encoder of the signer -/

theorem passed_bounds {b : UInt8} (h : (isUnreserved b || (keepSlash && b == 0x2f)) = true) : b.toNat < 128 ∧ b ≠ 0x25 := by
  rw [Bool.or_eq_true, Bool.and_eq_true, beq_iff_eq] at h
  rcases h with h | ⟨-, rfl⟩
  · exact ⟨(isUnreserved_bounds h).1, (isUnreserved_bounds h).2.1⟩
  · decide

theorem awsEncodeBytes_cons {b : UInt8} (h : b ≠ 0x25) (rest : Bytes) :
    awsEncodeBytes keepSlash (b :: rest) = awsEncodeByte keepSlash b ++ awsEncodeBytes keepSlash rest := by
  cases rest with
  | nil => rfl
  | cons high rest =>
    cases rest with
    | nil => rfl
    | cons low rest => rw [awsEncodeBytes, if_neg fun hescape => h hescape.1]

/-- An upper-case hexadecimal digit is a byte that the encoder takes for one and keeps. -/
theorem hexUpper_kept : ∀ n < 16, String.utf8EncodeChar (hexUpper n) = [UInt8.ofNat (hexUpper n).toNat] ∧
    isHexDigit (UInt8.ofNat (hexUpper n).toNat) = true ∧ asciiUpper (UInt8.ofNat (hexUpper n).toNat) = hexUpper n := by
  decide

theorem awsEncodeBytes_escaped {cs : List Char} (h : Escaped keepSlash cs) :
    awsEncodeBytes keepSlash (cs.flatMap String.utf8EncodeChar) = cs := by
  induction h with
  | nil => rfl
  | plain b hb _ ih =>
    obtain ⟨hascii, hpercent⟩ := passed_bounds hb
    rw [List.flatMap_cons, utf8EncodeChar_byte hascii, List.singleton_append, awsEncodeBytes_cons hpercent, ih, awsEncodeByte, if_pos hb]
    rfl
  | escape b _ ih =>
    have hb : b.toNat < 256 := b.toNat_lt
    obtain ⟨hhigh, hhighHex, hhighUp⟩ := hexUpper_kept (b.toNat / 16) (by omega)
    obtain ⟨hlow, hlowHex, hlowUp⟩ := hexUpper_kept (b.toNat % 16) (by omega)
    have hpercent : String.utf8EncodeChar '%' = [0x25] := by decide
    rw [List.flatMap_append, percentByte, List.flatMap_cons, List.flatMap_cons, List.flatMap_cons, List.flatMap_nil, hpercent, hhigh, hlow]
    simp only [List.append_nil, List.cons_append, List.nil_append]
    rw [awsEncodeBytes, if_pos ⟨rfl, hhighHex, hlowHex⟩, hhighUp, hlowUp, ih]

theorem awsEncode_escaped {text : String} (h : Escaped keepSlash text.toList) : awsEncode keepSlash text = text := by
  rw [awsEncode, utf8Bytes_eq_flatMap, awsEncodeBytes_escaped h, String.ofList_toList]

/-! ## Decoding -/

theorem percentDecode_percentEncodeByte (b : UInt8) (rest : List Char) :
    percentDecode (percentEncodeByte b ++ rest) = b :: percentDecode rest := by
  rw [percentEncodeByte]
  split
  case isTrue hb =>
    obtain ⟨hascii, hpercent, -⟩ := isUnreserved_bounds hb
    have hne : Char.ofNat b.toNat ≠ '%' := @charOfByte_ne b 0x25 hascii (by decide) hpercent
    rw [List.singleton_append, percentDecode_cons hne, utf8EncodeChar_byte hascii, List.singleton_append]
  case isFalse => exact percentDecode_percentByte b rest

theorem percentDecode_percentEncode (bs : Bytes) (rest : List Char) :
    percentDecode (bs.flatMap percentEncodeByte ++ rest) = bs ++ percentDecode rest := by
  induction bs with
  | nil => rfl
  | cons b bs ih => rw [List.flatMap_cons, List.append_assoc, percentDecode_percentEncodeByte, ih, List.cons_append]

/-! ## Characters that escapes keep out -/

/-- Encoded text has only unreserved characters, percent signs and digits. -/
theorem mem_percentEncodeByte {b : UInt8} {c : Char} (hc : c ∈ percentEncodeByte b) :
    c ≠ '/' ∧ c ≠ '&' ∧ c ≠ '=' ∧ c ≠ '?' ∧ c ≠ '#' := by
  rw [percentEncodeByte] at hc
  split at hc
  case isTrue hb =>
    obtain ⟨hascii, -, hslash, hamp, heq, hquestion, hhash⟩ := isUnreserved_bounds hb
    rw [List.mem_singleton] at hc
    subst hc
    exact ⟨@charOfByte_ne b 0x2f hascii (by decide) hslash, @charOfByte_ne b 0x26 hascii (by decide) hamp,
      @charOfByte_ne b 0x3d hascii (by decide) heq, @charOfByte_ne b 0x3f hascii (by decide) hquestion,
      @charOfByte_ne b 0x23 hascii (by decide) hhash⟩
  case isFalse =>
    have hdigit : ∀ n < 16, hexUpper n ≠ '/' ∧ hexUpper n ≠ '&' ∧ hexUpper n ≠ '=' ∧ hexUpper n ≠ '?' ∧ hexUpper n ≠ '#' := by decide
    have hb : b.toNat < 256 := b.toNat_lt
    simp only [percentByte, List.mem_cons, List.not_mem_nil, or_false] at hc
    rcases hc with rfl | rfl | rfl
    · decide
    · exact hdigit _ (by omega)
    · exact hdigit _ (by omega)

theorem mem_percentEncode {value : String} {c : Char} (hc : c ∈ (percentEncode value).toList) :
    c ≠ '/' ∧ c ≠ '&' ∧ c ≠ '=' ∧ c ≠ '?' ∧ c ≠ '#' := by
  rw [percentEncode, String.toList_ofList] at hc
  obtain ⟨b, -, hb⟩ := List.mem_flatMap.mp hc
  exact mem_percentEncodeByte hb

theorem percentEncode_ne_empty {value : String} (h : value ≠ "") : percentEncode value ≠ "" := by
  intro heq
  have hempty : (utf8Bytes value).flatMap percentEncodeByte = [] := by
    rw [← String.toList_ofList (l := (utf8Bytes value).flatMap percentEncodeByte), ← percentEncode, heq, String.toList_empty]
  have hdecode := percentDecode_percentEncode (utf8Bytes value) []
  rw [hempty, List.nil_append, percentDecode, List.append_nil] at hdecode
  exact h (utf8Bytes_injective hdecode.symm)

/-! ## Slashes around encoded texts -/

theorem rdropWhile_append_of_last {p : Char → Bool} {xs ys : List Char} (h : ∀ c ∈ xs.getLast?, p c = false) :
    (xs ++ ys).rdropWhile p = xs ++ ys.rdropWhile p := by
  induction ys using List.reverseRecOn with
  | nil =>
    rw [List.append_nil, List.rdropWhile_nil, List.append_nil, List.rdropWhile_eq_self_iff]
    intro hne hlast
    have hfalse := h _ (List.getLast?_eq_some_getLast hne)
    rw [hfalse] at hlast
    exact absurd hlast Bool.false_ne_true
  | append_singleton ys y ih =>
    rw [← List.append_assoc]
    by_cases hy : p y = true
    · rw [List.rdropWhile_concat_pos _ _ _ hy, List.rdropWhile_concat_pos _ _ _ hy, ih]
    · rw [List.rdropWhile_concat_neg _ _ _ hy, List.rdropWhile_concat_neg _ _ _ hy, List.append_assoc]

theorem trimSlashesEnd_toList (s : String) : (trimSlashesEnd s).toList = s.toList.rdropWhile (· == '/') := String.toList_ofList

theorem trimSlashesEnd_append {s t : String} (h : ∀ c ∈ s.toList.getLast?, c ≠ '/') : trimSlashesEnd (s ++ t) = s ++ trimSlashesEnd t := by
  apply String.toList_inj.mp
  rw [trimSlashesEnd_toList, String.toList_append, rdropWhile_append_of_last fun c hc => beq_eq_false_iff_ne.mpr (h c hc), String.toList_append,
    trimSlashesEnd_toList]

theorem trimSlashesEnd_trimSlashesEnd (s : String) : trimSlashesEnd (trimSlashesEnd s) = trimSlashesEnd s := by
  apply String.toList_inj.mp
  rw [trimSlashesEnd_toList, trimSlashesEnd_toList, List.rdropWhile_idempotent]

theorem trimSlashesEnd_append_percentEncode (s : String) {value : String} (h : value ≠ "") :
    trimSlashesEnd (s ++ percentEncode value) = s ++ percentEncode value := by
  have hne : (percentEncode value).toList ≠ [] := fun heq => percentEncode_ne_empty h (String.toList_eq_nil_iff.mp heq)
  apply String.toList_inj.mp
  rw [trimSlashesEnd_toList, String.toList_append, List.rdropWhile_eq_self_iff]
  intro hnil hlast
  rw [List.getLast_append_of_ne_nil _ hne, beq_iff_eq] at hlast
  exact (mem_percentEncode (List.getLast_mem hne)).1 hlast

theorem trimStartSlash_percentEncode (value : String) : trimStartSlash (percentEncode value) = percentEncode value := by
  apply String.toList_inj.mp
  rw [trimStartSlash, String.toList_ofList]
  cases hcs : (percentEncode value).toList with
  | nil => rfl
  | cons c cs =>
    have hmem : c ∈ (percentEncode value).toList := by
      rw [hcs]
      exact List.mem_cons_self
    have hc : c ≠ '/' := (mem_percentEncode hmem).1
    rw [List.dropWhile_cons, if_neg (by simpa using hc)]

end Star9
