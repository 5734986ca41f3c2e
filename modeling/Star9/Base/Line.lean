import Star9.Base.Bytes
import Star9.Base.Text

/-!
# Lines of text and their bytes

The bytes below 128 of a text are its characters in the ASCII range, so the
ends of lines can be looked for in the bytes. A text whose lines end in a
carriage return and a newline is read back line by line.
-/
namespace Base

/-! ## Bytes of a text -/

theorem utf8Bytes_eq_flatMap (s : String) : utf8Bytes s = s.toList.flatMap String.utf8EncodeChar := by
  have hdata : s.toUTF8 = s.toList.utf8Encode := String.utf8Encode_toList.symm
  rw [utf8Bytes, hdata, List.utf8Encode]
  simp

theorem utf8Bytes_append (s t : String) : utf8Bytes (s ++ t) = utf8Bytes s ++ utf8Bytes t := by
  simp [utf8Bytes_eq_flatMap]

/-- A byte below 128 is a character of its own. -/
theorem utf8EncodeChar_of_mem {c : Char} {b : UInt8} (hb : b.toNat < 128) (h : b ∈ String.utf8EncodeChar c) :
    c.toNat = b.toNat ∧ String.utf8EncodeChar c = [b] := by
  have hlow : ∀ n, 128 ≤ n → n < 256 → b ≠ UInt8.ofNat n := by
    rintro n hn hlt rfl
    rw [UInt8.toNat_ofNat'] at hb
    omega
  unfold String.utf8EncodeChar at h ⊢
  dsimp only at h ⊢
  split at h
  · rename_i hsmall
    rw [List.mem_singleton] at h
    rw [if_pos hsmall, h]
    refine ⟨?_, rfl⟩
    rw [UInt8.toNat_ofNat']
    change c.val.toNat = _
    omega
  · exfalso
    split at h
    · simp only [List.mem_cons, List.not_mem_nil, or_false] at h
      rcases h with h | h
      · exact hlow _ (by omega) (by omega) h
      · exact hlow _ (by omega) (by omega) h
    · split at h
      · simp only [List.mem_cons, List.not_mem_nil, or_false] at h
        rcases h with h | h | h
        · exact hlow _ (by omega) (by omega) h
        · exact hlow _ (by omega) (by omega) h
        · exact hlow _ (by omega) (by omega) h
      · simp only [List.mem_cons, List.not_mem_nil, or_false] at h
        rcases h with h | h | h | h
        · exact hlow _ (by omega) (by omega) h
        · exact hlow _ (by omega) (by omega) h
        · exact hlow _ (by omega) (by omega) h
        · exact hlow _ (by omega) (by omega) h

theorem newline_mem_of_mem_utf8Bytes {s : String} (h : (10 : UInt8) ∈ utf8Bytes s) : '\n' ∈ s.toList := by
  rw [utf8Bytes_eq_flatMap, List.mem_flatMap] at h
  obtain ⟨c, hc, hb⟩ := h
  have hcode := (utf8EncodeChar_of_mem (by decide) hb).1
  have hchar : c = '\n' := Char.toNat_inj.mp hcode
  rwa [← hchar]

theorem return_last_of_utf8Bytes {s : String} (h : (utf8Bytes s).getLast? = some 13) : s.toList.getLast? = some '\r' := by
  rw [utf8Bytes_eq_flatMap] at h
  rcases List.eq_nil_or_concat' s.toList with hnil | ⟨l, c, hl⟩
  · rw [hnil] at h
    cases h
  · rw [hl, List.flatMap_append, List.flatMap_singleton, List.getLast?_append] at h
    have hlast : (String.utf8EncodeChar c).getLast? = some 13 := by
      cases henc : (String.utf8EncodeChar c).getLast? with
      | none => exact absurd (List.getLast?_eq_none_iff.mp henc) String.utf8EncodeChar_ne_nil
      | some b =>
        rw [henc] at h
        exact h
    have hcode := (utf8EncodeChar_of_mem (by decide) (List.mem_of_getLast? hlast)).1
    have hchar : c = '\r' := Char.toNat_inj.mp hcode
    rw [hl, hchar, List.getLast?_concat]

/-! ## Lines that end in a carriage return and a newline -/

theorem chompReturn_append (cs : List Char) : chompReturn (cs ++ ['\r']) = cs := by
  rw [chompReturn, List.getLast?_concat, if_pos rfl, List.dropLast_concat]

theorem lines_cons {text : String} (h : '\n' ∉ text.toList) (rest : String) :
    lines (text ++ "\r\n" ++ rest) = text :: lines rest := by
  have hlist : (text ++ "\r\n" ++ rest).toList = (text.toList ++ ['\r']) ++ '\n' :: rest.toList := by simp
  have hfull : '\n' ∉ text.toList ++ ['\r'] := by simpa using h
  unfold lines
  rw [hlist, List.splitOn_append_cons_self, List.splitOn_eq_singleton hfull, List.singleton_append,
    linesOf_cons (List.splitOn_ne_nil _ _), List.map_cons, chompReturn_append, String.ofList_toList]

theorem lines_single {text : String} (h : '\n' ∉ text.toList) (hne : text ≠ "") : lines text = [text] := by
  have hchars : text.toList ≠ [] := by simpa using hne
  simp [lines, List.splitOn_eq_singleton h, linesOf, hchars]

/-! ## Trimmed texts -/

theorem trim_space {s : String} (h : trim s = s) : trim (" " ++ s) = s := by
  have hlist : (" " ++ s).toList = ' ' :: s.toList := by simp
  have hdrop : (' ' :: s.toList).dropWhile isWhiteSpace = s.toList.dropWhile isWhiteSpace :=
    List.dropWhile_cons_of_pos (by decide)
  unfold trim trimWith at h ⊢
  rw [hlist, hdrop]
  exact h

/-- A trimmed text does not end in white space. -/
theorem not_isWhiteSpace_last {s : String} (h : trim s = s) {c : Char} (hc : s.toList.getLast? = some c) :
    isWhiteSpace c = false := by
  have hlist : (s.toList.dropWhile isWhiteSpace).rdropWhile isWhiteSpace = s.toList := by
    rw [← String.toList_ofList (l := (s.toList.dropWhile isWhiteSpace).rdropWhile isWhiteSpace)]
    exact congrArg String.toList h
  rw [← hlist] at hc
  obtain ⟨_, hne⟩ := List.mem_getLast?_eq_getLast hc
  rw [hne]
  simpa using List.rdropWhile_last_not isWhiteSpace (s.toList.dropWhile isWhiteSpace) _

end Base
