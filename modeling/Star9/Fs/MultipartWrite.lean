import Star9.Base.Delimited
import Star9.Base.Map
import Star9.Fs.Multipart

/-!
# Writing a multipart body

What the server writes part by part is read back part by part, when the names and
values of the headers stay on one line and no line of a body begins with the
delimiter. The parser looks for an empty line behind the headers, so a part
without headers is read back only when it is empty.
-/
namespace Star9
open Base

/-! ## The writer -/

def appendMultipartPart (body : Bytes) (boundary : String) (headers : Headers) (partBody : Bytes) : Bytes :=
  let body := body ++ utf8Bytes ("--" ++ boundary ++ "\r\n")
  let body := headers.toList.foldl (fun body kv => body ++ utf8Bytes (kv.1 ++ ": " ++ kv.2 ++ "\r\n")) body
  let body := body ++ utf8Bytes "\r\n"
  let body := body ++ partBody
  body ++ utf8Bytes "\r\n"

/-- The parts one after another, and the closing delimiter. -/
def writeMultipart (boundary : String) (parts : List HttpMultipartPart) : Bytes :=
  parts.foldl (fun body part => appendMultipartPart body boundary part.headers part.body) []
    ++ utf8Bytes ("--" ++ boundary ++ "--\r\n")

def headerLine (kv : String × String) : String := kv.1 ++ ": " ++ kv.2

/-- The header lines with the end of the last one left open. -/
def headerText : List (String × String) → String
  | [] => ""
  | [kv] => headerLine kv
  | kv :: kv' :: kvs => headerLine kv ++ "\r\n" ++ headerText (kv' :: kvs)

/-- A newline has no other newline close behind it. -/
def Spaced (l : Bytes) : Prop := ∀ i : Nat, l[i]? = some 10 → l[i + 1]? ≠ some 10 ∧ l[i + 2]? ≠ some 10

variable {body delimiter : Bytes} {c start n : Nat}

theorem drop_of_drop {a b : Bytes} (h : body.drop c = a ++ b) : body.drop (c + a.length) = b := by
  rw [← List.drop_drop, h, List.drop_left]

theorem getElem?_of_drop {a : Bytes} (h : body.drop c = a) (i : Nat) : body[c + i]? = a[i]? := by
  rw [← List.getElem?_drop, h]

/-- A line before the others keeps the newlines apart. -/
theorem Spaced.line {x l : Bytes} (hx : 10 ∉ x) (hl : Spaced l) (h0 : l[0]? ≠ some 10) (h1 : l[1]? ≠ some 10) :
    Spaced (x ++ 13 :: 10 :: l) := by
  intro i hi
  rcases Nat.lt_trichotomy i (x.length + 1) with hlt | rfl | hlt
  · exfalso
    rcases Nat.lt_or_eq_of_le (Nat.le_of_lt_succ hlt) with hin | rfl
    · rw [List.getElem?_append_left hin] at hi
      exact hx (List.mem_of_getElem? hi)
    · rw [List.getElem?_append_right le_rfl, Nat.sub_self] at hi
      cases hi
  · refine ⟨?_, ?_⟩
    · rw [List.getElem?_append_right (by omega), show x.length + 1 + 1 - x.length = 2 by omega]
      exact h0
    · rw [List.getElem?_append_right (by omega), show x.length + 1 + 2 - x.length = 3 by omega]
      exact h1
  · obtain ⟨j, rfl⟩ := Nat.exists_eq_add_of_le (show x.length + 2 ≤ i by omega)
    have hshift : ∀ k, (x ++ 13 :: 10 :: l)[x.length + 2 + k]? = l[k]? := by
      intro k
      rw [List.getElem?_append_right (by omega), show x.length + 2 + k - x.length = k + 2 by omega]
      rfl
    rw [hshift] at hi
    exact ⟨by rw [Nat.add_assoc, hshift]; exact (hl j hi).1, by rw [Nat.add_assoc, hshift]; exact (hl j hi).2⟩

/-- The first empty line ends the headers. -/
theorem partHeaderEnd_written {l z : Bytes} (hl : Spaced (l ++ [13, 10, 13])) (h : body.drop c = l ++ 13 :: 10 :: 13 :: 10 :: z) :
    partHeaderEnd body c = some (c + l.length, c + l.length + 4) := by
  have hhead : ∀ k, k < l.length + 3 → body[c + k]? = (l ++ [13, 10, 13])[k]? := by
    intro k hk
    rw [getElem?_of_drop h, show l ++ 13 :: 10 :: 13 :: 10 :: z = l ++ [13, 10, 13] ++ 10 :: z by simp,
      List.getElem?_append_left (by simpa using hk)]
  have hcrlf : findBytes body [13, 10, 13, 10] c = some (c + l.length) := by
    refine (findBytes_eq_some_iff (by simp)).mpr ⟨by omega, ?_, fun j hj hlt hpre => ?_⟩
    · rw [drop_of_drop h]
      exact ⟨z, rfl⟩
    · obtain ⟨k, rfl⟩ := Nat.exists_eq_add_of_le hj
      have hfirst := getElem?_of_prefix_drop hpre (k := 1) (by decide)
      have hsecond := getElem?_of_prefix_drop hpre (k := 3) (by decide)
      rw [Nat.add_assoc, hhead (k + 1) (by omega)] at hfirst
      rw [Nat.add_assoc, hhead (k + 3) (by omega)] at hsecond
      exact (hl (k + 1) hfirst).2 hsecond
  have hlf : ∀ i, findBytes body [10, 10] c = some i → c + l.length ≤ i := by
    intro i hi
    obtain ⟨hle, hpre, -⟩ := (findBytes_eq_some_iff (by simp)).mp hi
    obtain ⟨k, rfl⟩ := Nat.exists_eq_add_of_le hle
    by_contra hlt
    have hfirst := getElem?_of_prefix_drop hpre (k := 0) (by decide)
    have hsecond := getElem?_of_prefix_drop hpre (k := 1) (by decide)
    rw [Nat.add_assoc, hhead (k + 0) (by omega)] at hfirst
    rw [Nat.add_assoc, hhead (k + 1) (by omega)] at hsecond
    exact (hl k hfirst).1 hsecond
  unfold partHeaderEnd
  rw [hcrlf]
  cases hfind : findBytes body [10, 10] c with
  | none => rfl
  | some i =>
    dsimp only
    rw [if_pos (hlf i hfind)]

/-- Before the closing delimiter no line of the body begins with the delimiter, the end of the text
and the line end behind it included. -/
theorem not_delimiter_before {text tail : Bytes} (hdelim : ∃ d, delimiter = 45 :: d) (hnl : 10 ∉ delimiter)
    (hcr : delimiter.getLast? ≠ some 13) (hclear : ∀ k, k = 0 ∨ text[k - 1]? = some 10 → ¬ delimiter <+: text.drop k)
    (h : body.drop c = text ++ 13 :: 10 :: (delimiter ++ tail)) {k : Nat} (hk : k < text.length + 2)
    (hline : k = 0 ∨ body[c + k - 1]? = some 10) : ¬ delimiter <+: body.drop (c + k) := by
  intro hpre
  have hat : ∀ i, i < delimiter.length → (text ++ 13 :: 10 :: (delimiter ++ tail))[k + i]? = delimiter[i]? := by
    intro i hi
    rw [← getElem?_of_drop h, ← Nat.add_assoc]
    exact getElem?_of_prefix_drop hpre hi
  have hreturn : (text ++ 13 :: 10 :: (delimiter ++ tail))[text.length]? = some 13 := by
    rw [List.getElem?_append_right le_rfl, Nat.sub_self]
    rfl
  have hnewline : (text ++ 13 :: 10 :: (delimiter ++ tail))[text.length + 1]? = some 10 := by
    rw [List.getElem?_append_right (by omega), Nat.add_sub_cancel_left]
    rfl
  obtain ⟨d, hd⟩ := hdelim
  have hfirst : (text ++ 13 :: 10 :: (delimiter ++ tail))[k]? = some 45 := by
    have hzero := hat 0 (by rw [hd]; exact Nat.succ_pos _)
    rw [hd] at hzero ⊢
    exact hzero
  have hlt : k < text.length := by
    by_contra hge
    rcases Nat.eq_or_lt_of_le (not_lt.mp hge) with rfl | hgt
    · rw [hreturn] at hfirst
      cases hfirst
    · rw [show k = text.length + 1 by omega, hnewline] at hfirst
      cases hfirst
  rcases Nat.lt_trichotomy delimiter.length (text.length - k + 1) with hshort | hlast | hlong
  · -- the delimiter ends inside the text
    refine hclear k ?_ ?_
    · rcases hline with rfl | hline
      · exact Or.inl rfl
      · rcases Nat.eq_zero_or_pos k with rfl | hpos
        · exact Or.inl rfl
        · rw [show c + k - 1 = c + (k - 1) by omega, getElem?_of_drop h, List.getElem?_append_left (by omega)] at hline
          exact Or.inr hline
    · have hdrop : body.drop (c + k) = text.drop k ++ 13 :: 10 :: (delimiter ++ tail) := by
        rw [← List.drop_drop, h, List.drop_append_of_le_length hlt.le]
      rw [hdrop] at hpre
      refine List.prefix_of_prefix_length_le hpre (List.prefix_append _ _) ?_
      rw [List.length_drop]
      omega
  · -- the delimiter ends in the carriage return
    refine hcr ?_
    have hend := hat (text.length - k) (by omega)
    rw [show k + (text.length - k) = text.length by omega, hreturn] at hend
    rw [List.getLast?_eq_getElem?, hlast, Nat.add_sub_cancel]
    exact hend.symm
  · -- the delimiter goes on behind the line end
    have hend := hat (text.length - k + 1) hlong
    rw [show k + (text.length - k + 1) = text.length + 1 by omega, hnewline] at hend
    exact hnl (List.mem_of_getElem? hend.symm)

theorem findMultipartBodyEnd_written {text tail : Bytes} (hdelim : ∃ d, delimiter = 45 :: d) (hnl : 10 ∉ delimiter)
    (hcr : delimiter.getLast? ≠ some 13) (hclear : ∀ k, k = 0 ∨ text[k - 1]? = some 10 → ¬ delimiter <+: text.drop k)
    (h : body.drop c = text ++ 13 :: 10 :: (delimiter ++ tail)) :
    findMultipartBodyEnd body delimiter c = some (c + text.length, c + text.length + 2) := by
  have hbefore := fun k => not_delimiter_before hdelim hnl hcr hclear h (k := k)
  have hne : delimiter ≠ [] := by
    obtain ⟨d, rfl⟩ := hdelim
    nofun
  have hend : body.drop (c + text.length) = 13 :: 10 :: (delimiter ++ tail) := drop_of_drop h
  have hat : DelimiterAt body delimiter (c + text.length + 2) := by
    refine ⟨?_, by omega, ?_⟩
    · rw [← List.drop_drop, hend]
      exact ⟨tail, rfl⟩
    · rw [show c + text.length + 2 - 1 = c + text.length + 1 by omega, getElem?_of_drop hend]
      rfl
  have hback : lineEnd body (c + text.length + 2) = c + text.length := by
    unfold lineEnd
    rw [Nat.add_sub_cancel, hend, if_pos ⟨by omega, rfl⟩]
  unfold findMultipartBodyEnd
  rw [if_neg]
  · rw [findBodyEndFrom_of_delimiterAt hne hat ?_ (by omega) ?_, hback]
    · intro j hj hlt hdj
      obtain ⟨k, rfl⟩ := Nat.exists_eq_add_of_le hj
      exact hbefore k (by omega) (Or.inr hdj.2.2) hdj.1
    · have hroom := length_of_prefix_drop hat.1 hne
      omega
  · intro hpre
    exact hbefore 0 (by omega) (Or.inl rfl) (List.isPrefixOf_iff_prefix.mp hpre)

/-! ## The header lines -/

/-- A header that a part can carry: no colon in the name, no white space around, one line. -/
structure HeaderFits (kv : String × String) : Prop where
  key_trim : trim kv.1 = kv.1
  key_colon : ':' ∉ kv.1.toList
  value_trim : trim kv.2 = kv.2
  value_line : '\n' ∉ kv.2.toList

theorem headerLine_toList (kv : String × String) : (headerLine kv).toList = kv.1.toList ++ ':' :: ' ' :: kv.2.toList := by
  simp [headerLine]

theorem HeaderFits.rdropWhile {kv : String × String} (h : HeaderFits kv) :
    (headerLine kv).toList.rdropWhile (· == '\r') = (headerLine kv).toList := by
  rw [List.rdropWhile_eq_self_iff, headerLine_toList]
  intro hne hreturn
  have hlast : (kv.1.toList ++ ':' :: ' ' :: kv.2.toList).getLast? = some '\r' := by
    rw [List.getLast?_eq_some_getLast hne, eq_of_beq hreturn]
  rw [List.getLast?_append, List.getLast?_cons_cons, List.getLast?_cons] at hlast
  cases hvalue : kv.2.toList.getLast? with
  | none =>
    rw [hvalue] at hlast
    cases hlast
  | some c =>
    rw [hvalue] at hlast
    have hc : c = '\r' := Option.some.inj hlast
    have hspace := not_isWhiteSpace_last h.value_trim hvalue
    rw [hc] at hspace
    revert hspace
    decide

theorem HeaderFits.parse {kv : String × String} (h : HeaderFits kv) (headers : Headers) :
    parsePartHeaderLine headers (headerLine kv) = headers.insert kv.1 kv.2 := by
  have hsplit : splitOnce ':' (headerLine kv) = some (kv.1, " " ++ kv.2) := by
    have hline : headerLine kv = kv.1 ++ String.singleton ':' ++ (" " ++ kv.2) := by
      rw [← String.toList_inj, headerLine_toList]
      simp
    rw [hline]
    exact splitOnce_of_not_mem h.key_colon _
  unfold parsePartHeaderLine
  rw [h.rdropWhile, String.ofList_toList, hsplit]
  dsimp only
  rw [h.key_trim, trim_space h.value_trim]

theorem headerLine_line {kv : String × String} (h : HeaderFits kv) (hkey : '\n' ∉ kv.1.toList) : '\n' ∉ (headerLine kv).toList := by
  simp [headerLine_toList, hkey, h.value_line]

theorem headerLine_ne (kv : String × String) : headerLine kv ≠ "" := by
  intro he
  have hlist := congrArg String.toList he
  rw [headerLine_toList] at hlist
  simp at hlist

theorem two_le_headerLine (kv : String × String) : 2 ≤ (utf8Bytes (headerLine kv)).length := by
  have hsep : utf8Bytes ": " = [58, 32] := by decide
  rw [headerLine, utf8Bytes_append, utf8Bytes_append, hsep, List.length_append, List.length_append]
  simp only [List.length_cons, List.length_nil]
  omega

theorem spaced_return : Spaced [13] := by
  intro i hi
  cases i with
  | zero => cases hi
  | succ i => cases hi

section
variable {kvs : List (String × String)} (h : ∀ kv ∈ kvs, HeaderFits kv ∧ '\n' ∉ kv.1.toList)
include h

theorem lines_headerText : lines (headerText kvs) = kvs.map headerLine := by
  induction kvs with
  | nil => rfl
  | cons kv kvs ih =>
    have hline := headerLine_line (h kv List.mem_cons_self).1 (h kv List.mem_cons_self).2
    have hrest := ih fun kv hkv => h kv (List.mem_cons_of_mem _ hkv)
    cases kvs with
    | nil => exact lines_single hline (headerLine_ne kv)
    | cons kv' kvs =>
      rw [headerText, lines_cons hline, hrest]
      rfl

theorem spaced_headerText : Spaced (utf8Bytes (headerText kvs) ++ [13, 10, 13]) ∧
    (kvs ≠ [] → (utf8Bytes (headerText kvs) ++ [13, 10, 13])[0]? ≠ some 10 ∧
      (utf8Bytes (headerText kvs) ++ [13, 10, 13])[1]? ≠ some 10) := by
  induction kvs with
  | nil =>
    refine ⟨?_, fun hne => absurd rfl hne⟩
    show Spaced ([] ++ 13 :: 10 :: [13])
    exact spaced_return.line (by simp) (by simp) (by simp)
  | cons kv kvs ih =>
    obtain ⟨hspaced, hstart⟩ := ih fun kv hkv => h kv (List.mem_cons_of_mem _ hkv)
    have hline := headerLine_line (h kv List.mem_cons_self).1 (h kv List.mem_cons_self).2
    have hx : 10 ∉ utf8Bytes (headerLine kv) := fun hmem => hline (newline_mem_of_mem_utf8Bytes hmem)
    have hlen := two_le_headerLine kv
    have hfront : ∀ l : Bytes, (utf8Bytes (headerLine kv) ++ l)[0]? ≠ some 10 ∧ (utf8Bytes (headerLine kv) ++ l)[1]? ≠ some 10 := by
      intro l
      constructor
      · rw [List.getElem?_append_left (by omega)]
        exact fun hmem => hx (List.mem_of_getElem? hmem)
      · rw [List.getElem?_append_left (by omega)]
        exact fun hmem => hx (List.mem_of_getElem? hmem)
    cases kvs with
    | nil => exact ⟨spaced_return.line hx (by simp) (by simp), fun _ => hfront _⟩
    | cons kv' kvs =>
      obtain ⟨h0, h1⟩ := hstart nofun
      have hbytes : utf8Bytes (headerText (kv :: kv' :: kvs)) ++ [13, 10, 13] =
          utf8Bytes (headerLine kv) ++ 13 :: 10 :: (utf8Bytes (headerText (kv' :: kvs)) ++ [13, 10, 13]) := by
        rw [headerText, utf8Bytes_append, utf8Bytes_append, List.append_assoc, List.append_assoc]
        rfl
      rw [hbytes]
      exact ⟨hspaced.line hx h0 h1, fun _ => hfront _⟩

/-- The headers are read back from their lines. -/
theorem parse_headerText (headers : Headers) :
    (lines (headerText kvs)).foldl parsePartHeaderLine headers = kvs.foldl (fun m kv => m.insert kv.1 kv.2) headers := by
  rw [lines_headerText h]
  induction kvs generalizing headers with
  | nil => rfl
  | cons kv kvs ih =>
    rw [List.map_cons, List.foldl_cons, List.foldl_cons, (h kv List.mem_cons_self).1.parse]
    exact ih (fun kv hkv => h kv (List.mem_cons_of_mem _ hkv)) _

end

theorem foldl_insert_toList (headers : Headers) : headers.toList.foldl (fun m kv => m.insert kv.1 kv.2) ∅ = headers := by
  apply Std.ExtTreeMap.ext_getElem?
  intro k
  cases hk : headers[k]? with
  | some v =>
    refine getElem?_foldl_insert_of_mem _ _ (Std.ExtTreeMap.mem_toList_iff_getElem?_eq_some.mpr hk) fun kv hkv hkey => ?_
    have hget := Std.ExtTreeMap.mem_toList_iff_getElem?_eq_some.mp (hkey ▸ hkv : (k, kv.2) ∈ headers.toList)
    rw [hk] at hget
    exact (Option.some.inj hget).symm
  | none =>
    rw [getElem?_foldl_insert_of_not_mem]
    · simp
    · rintro ⟨k', v⟩ hkv rfl
      rw [Std.ExtTreeMap.mem_toList_iff_getElem?_eq_some.mp hkv] at hk
      cases hk

/-! ## Parts are read back -/

/-- The bytes of one part. -/
def partBytes (delimiter : Bytes) (part : HttpMultipartPart) : Bytes :=
  delimiter ++ 13 :: 10 :: (part.headers.toList.flatMap (fun kv => utf8Bytes (headerLine kv) ++ [13, 10]) ++
    13 :: 10 :: (part.body ++ [13, 10]))

theorem utf8Bytes_lineEnd (s : String) : utf8Bytes (s ++ "\r\n") = utf8Bytes s ++ [13, 10] := by
  have hend : utf8Bytes "\r\n" = [13, 10] := by decide
  rw [utf8Bytes_append, hend]

theorem appendMultipartPart_eq (body : Bytes) (boundary : String) (part : HttpMultipartPart) :
    appendMultipartPart body boundary part.headers part.body = body ++ partBytes (utf8Bytes ("--" ++ boundary)) part := by
  have hend : utf8Bytes "\r\n" = [13, 10] := by decide
  unfold appendMultipartPart partBytes
  dsimp only
  rw [List.foldl_append_eq_append, hend, utf8Bytes_lineEnd]
  simp only [headerLine, utf8Bytes_lineEnd, List.append_assoc, List.cons_append, List.nil_append, List.flatMap_def]

theorem writeMultipart_eq (boundary : String) (parts : List HttpMultipartPart) :
    writeMultipart boundary parts =
      parts.flatMap (partBytes (utf8Bytes ("--" ++ boundary))) ++ (utf8Bytes ("--" ++ boundary) ++ [45, 45, 13, 10]) := by
  have hend : utf8Bytes "--\r\n" = [45, 45, 13, 10] := by decide
  unfold writeMultipart
  simp only [appendMultipartPart_eq]
  rw [List.foldl_append_eq_append, utf8Bytes_append ("--" ++ boundary), hend]
  rfl

theorem headerBytes_eq {kvs : List (String × String)} (hne : kvs ≠ []) :
    kvs.flatMap (fun kv => utf8Bytes (headerLine kv) ++ [13, 10]) = utf8Bytes (headerText kvs) ++ [13, 10] := by
  induction kvs with
  | nil => exact absurd rfl hne
  | cons kv kvs ih =>
    rw [List.flatMap_cons]
    cases kvs with
    | nil => simp [headerText]
    | cons kv' kvs =>
      rw [ih nofun, headerText, utf8Bytes_append, utf8Bytes_lineEnd, List.append_assoc _ _ [13, 10]]

namespace HttpMultipartPart

variable (delimiter) in
/-- No line of the body begins with the delimiter, and the headers fit the format. -/
structure Writable (part : HttpMultipartPart) : Prop where
  headers : ∀ kv ∈ part.headers.toList, HeaderFits kv
  clear : ∀ k, k = 0 ∨ part.body[k - 1]? = some 10 → ¬ delimiter <+: part.body.drop k

/-- The names of the headers stay on one line, and a part without headers has no body. -/
structure Headed (part : HttpMultipartPart) : Prop where
  key_line : ∀ kv ∈ part.headers.toList, '\n' ∉ kv.1.toList
  body_nil : part.headers.toList = [] → part.body = []

variable {part : HttpMultipartPart}

theorem Writable.fits (h : part.Writable delimiter) (hh : part.Headed) : ∀ kv ∈ part.headers.toList, HeaderFits kv ∧ '\n' ∉ kv.1.toList :=
  fun kv hkv => ⟨h.headers kv hkv, hh.key_line kv hkv⟩

end HttpMultipartPart

section
variable {part : HttpMultipartPart} {tail : Bytes} (hdelim : ∃ d, delimiter = 45 :: d) (hnl : 10 ∉ delimiter)
  (hcr : delimiter.getLast? ≠ some 13) (hpart : part.Writable delimiter) (hh : part.Headed)

include hpart hh in
theorem parseHttpPartHeaders_written {z : Bytes}
    (h : body.drop c = utf8Bytes (headerText part.headers.toList) ++ 13 :: 10 :: 13 :: 10 :: z) :
    parseHttpPartHeaders body c = .ok (part.headers, c + (utf8Bytes (headerText part.headers.toList)).length + 4) := by
  have hfits := hpart.fits hh
  have htext : (body.take (c + (utf8Bytes (headerText part.headers.toList)).length)).drop c = utf8Bytes (headerText part.headers.toList) := by
    rw [← List.take_drop, h, List.take_left']
    rfl
  unfold parseHttpPartHeaders
  rw [partHeaderEnd_written (spaced_headerText hfits).1 h]
  dsimp only
  rw [htext, utf8Lossy_utf8Bytes, parse_headerText hfits, foldl_insert_toList]

/-- What stands behind the headers of a written part. -/
theorem drop_partBytes (h : body.drop c = partBytes delimiter part ++ (delimiter ++ tail)) :
    body.drop (c + delimiter.length) = 13 :: 10 :: (part.headers.toList.flatMap (fun kv => utf8Bytes (headerLine kv) ++ [13, 10]) ++
      13 :: 10 :: (part.body ++ 13 :: 10 :: (delimiter ++ tail))) := by
  refine drop_of_drop ?_
  rw [h, partBytes]
  simp only [List.append_assoc, List.cons_append, List.nil_append]

include hdelim hnl hcr hpart hh in
/-- One turn reads one written part. -/
theorem multipartPartsFrom_written (h : body.drop c = partBytes delimiter part ++ (delimiter ++ tail)) :
    multipartPartsFrom body delimiter (n + 1) c =
      (multipartPartsFrom body delimiter n (c + (partBytes delimiter part).length)).map (part :: ·) := by
  have hpre : delimiter.isPrefixOf (body.drop c) = true := by
    rw [List.isPrefixOf_iff_prefix, h, partBytes, List.append_assoc]
    exact List.prefix_append _ _
  have hline := drop_partBytes h
  have hconsume : consumeMultipartNewline body (c + delimiter.length) = some (c + delimiter.length + 2) := by
    unfold consumeMultipartNewline
    rw [hline]
    rfl
  have hhead : body.drop (c + delimiter.length + 2) = part.headers.toList.flatMap (fun kv => utf8Bytes (headerLine kv) ++ [13, 10]) ++
      13 :: 10 :: (part.body ++ 13 :: 10 :: (delimiter ++ tail)) := drop_of_drop (a := [13, 10]) hline
  have hturn : ∀ s z, parseHttpPartHeaders body (c + delimiter.length + 2) = .ok (part.headers, s) →
      body.drop s = part.body ++ z → findMultipartBodyEnd body delimiter s = some (s + part.body.length, c + (partBytes delimiter part).length) →
      multipartPartsFrom body delimiter (n + 1) c =
        (multipartPartsFrom body delimiter n (c + (partBytes delimiter part).length)).map (part :: ·) := by
    intro s z hheaders hbody hend
    have htext : (body.take (s + part.body.length)).drop s = part.body := by
      rw [← List.take_drop, hbody, List.take_left']
      rfl
    rw [multipartPartsFrom, hpre]
    dsimp only [Bool.not_true]
    rw [hconsume, hline, if_neg (by simp), if_neg (by simp)]
    dsimp only
    rw [hheaders, except_ok_bind]
    dsimp only
    rw [hend]
    dsimp only
    rw [htext]
    rfl
  by_cases hnone : part.headers.toList = []
  · -- the empty line and the line end behind the empty body end the headers
    have hempty := hh.body_nil hnone
    rw [hnone, hempty] at hhead
    have htext : utf8Bytes (headerText part.headers.toList) = [] := by
      rw [hnone]
      rfl
    have hdrop : body.drop (c + delimiter.length + 2) = utf8Bytes (headerText part.headers.toList) ++ 13 :: 10 :: 13 :: 10 :: (delimiter ++ tail) := by
      rw [hhead, htext]
      rfl
    have hbody : body.drop (c + delimiter.length + 2 + 0 + 4) = delimiter ++ tail := drop_of_drop (a := [13, 10, 13, 10]) hhead
    have hheaders := parseHttpPartHeaders_written hpart hh hdrop
    rw [htext] at hheaders
    refine hturn _ (delimiter ++ tail) hheaders (by rw [hempty]; exact hbody) ?_
    unfold findMultipartBodyEnd
    rw [if_pos]
    · have hlen : (partBytes delimiter part).length = delimiter.length + 6 := by
        simp [partBytes, hnone, hempty]
      rw [hlen, hempty]
      rfl
    · rw [List.isPrefixOf_iff_prefix]
      refine List.IsPrefix.trans (List.prefix_append _ tail) ?_
      rw [← hbody]
      rfl
  · rw [headerBytes_eq hnone, List.append_assoc] at hhead
    have hdrop : body.drop (c + delimiter.length + 2 + (utf8Bytes (headerText part.headers.toList)).length + 4)
        = part.body ++ 13 :: 10 :: (delimiter ++ tail) :=
      drop_of_drop (a := [13, 10, 13, 10]) (drop_of_drop hhead)
    refine hturn _ _ (parseHttpPartHeaders_written hpart hh hhead) hdrop ?_
    rw [findMultipartBodyEnd_written hdelim hnl hcr hpart.clear hdrop]
    have hlen : (partBytes delimiter part).length =
        delimiter.length + 2 + (utf8Bytes (headerText part.headers.toList)).length + 4 + part.body.length + 2 := by
      rw [partBytes, headerBytes_eq hnone]
      simp only [List.length_append, List.length_cons, List.length_nil]
      omega
    rw [hlen]
    simp only [Nat.add_assoc]

end

variable (delimiter) in
/-- Something stands first in every written body: the delimiter. -/
theorem exists_writeMultipart_eq (parts : List HttpMultipartPart) (tail : Bytes) :
    ∃ rest, parts.flatMap (partBytes delimiter) ++ (delimiter ++ tail) = delimiter ++ rest := by
  cases parts with
  | nil => exact ⟨tail, rfl⟩
  | cons part parts =>
    simp only [List.flatMap_cons, partBytes, List.append_assoc]
    exact ⟨_, rfl⟩

variable (delimiter) in
theorem length_le_flatMap_partBytes (parts : List HttpMultipartPart) : parts.length ≤ (parts.flatMap (partBytes delimiter)).length := by
  induction parts with
  | nil => exact Nat.zero_le _
  | cons part parts ih =>
    rw [List.flatMap_cons, List.length_append, List.length_cons, partBytes, List.length_append, List.length_cons]
    omega

/-- The parts that are left are read back one by one. -/
theorem multipartPartsFrom_rest {parts : List HttpMultipartPart} {tail : Bytes} (hdelim : ∃ d, delimiter = 45 :: d) (hnl : 10 ∉ delimiter)
    (hcr : delimiter.getLast? ≠ some 13) (hparts : ∀ part ∈ parts, part.Writable delimiter ∧ part.Headed)
    (h : body.drop c = parts.flatMap (partBytes delimiter) ++ (delimiter ++ 45 :: 45 :: tail)) (hn : parts.length < n) :
    multipartPartsFrom body delimiter n c = .ok parts := by
  induction parts generalizing c n with
  | nil =>
    obtain ⟨n, rfl⟩ := Nat.exists_eq_add_of_lt hn
    have hclose : body.drop (c + delimiter.length) = 45 :: 45 :: tail := drop_of_drop h
    rw [List.length_nil, Nat.zero_add, multipartPartsFrom, h]
    dsimp only
    rw [List.flatMap_nil, List.nil_append, if_neg, hclose]
    · rfl
    · simp
  | cons part parts ih =>
    rw [List.length_cons] at hn
    obtain ⟨n, rfl⟩ := Nat.exists_eq_add_of_lt hn
    obtain ⟨hpart, hh⟩ := hparts part List.mem_cons_self
    rw [List.flatMap_cons, List.append_assoc] at h
    have hrest := ih (fun part hp => hparts part (List.mem_cons_of_mem _ hp)) (drop_of_drop h) (by omega : parts.length < parts.length + 1 + n)
    obtain ⟨rest, hstart⟩ := exists_writeMultipart_eq delimiter parts (45 :: 45 :: tail)
    rw [hstart] at h
    rw [multipartPartsFrom_written hdelim hnl hcr hpart hh h, hrest]
    rfl

/-- A boundary on one line. -/
structure LineFree (boundary : String) : Prop where
  newline : '\n' ∉ boundary.toList
  last : boundary.toList.getLast? ≠ some '\r'

section
variable {boundary : String}

theorem LineFree.dash (boundary : String) : ∃ d, utf8Bytes ("--" ++ boundary) = 45 :: d := by
  have hdash : utf8Bytes "--" = [45, 45] := by decide
  rw [utf8Bytes_append, hdash]
  exact ⟨_, rfl⟩

theorem LineFree.not_mem (h : LineFree boundary) : 10 ∉ utf8Bytes ("--" ++ boundary) := by
  intro hnl
  have hmem := newline_mem_of_mem_utf8Bytes hnl
  simp [h.newline] at hmem

theorem LineFree.getLast (h : LineFree boundary) : (utf8Bytes ("--" ++ boundary)).getLast? ≠ some 13 := by
  intro hcr
  have hlast := return_last_of_utf8Bytes hcr
  have hlist : ("--" ++ boundary).toList = '-' :: '-' :: boundary.toList := by simp
  rw [hlist, List.getLast?_cons_cons, List.getLast?_cons] at hlast
  cases hb : boundary.toList.getLast? with
  | none =>
    rw [hb] at hlast
    cases hlast
  | some ch =>
    rw [hb] at hlast
    exact h.last (hb.trans hlast)

end

/-- Parsing never leaves the body, and reads back what the writer writes. -/
theorem multipart_safe_and_inverse (boundary : String) : (∀ body, SafeParse body boundary) ∧
    (LineFree boundary → ∀ parts : List HttpMultipartPart,
      (∀ part ∈ parts, part.Writable (utf8Bytes ("--" ++ boundary)) ∧ part.Headed) →
      parseHttpMultipart (writeMultipart boundary parts) boundary = .ok parts) := by
  refine ⟨fun body => safeParse body boundary, fun hb parts hparts => ?_⟩
  have hwrite := writeMultipart_eq boundary parts
  obtain ⟨rest, hrest⟩ := exists_writeMultipart_eq (utf8Bytes ("--" ++ boundary)) parts [45, 45, 13, 10]
  have hfirst : findBytes (writeMultipart boundary parts) (utf8Bytes ("--" ++ boundary)) 0 = some 0 := by
    refine (findBytes_eq_some_iff (delimiter_ne_nil boundary)).mpr ⟨le_rfl, ?_, fun j _ hj => absurd hj (Nat.not_lt_zero j)⟩
    rw [hwrite, hrest, List.drop_zero]
    exact List.prefix_append _ _
  have hcount : parts.length < (writeMultipart boundary parts).length + 1 := by
    have hle := length_le_flatMap_partBytes (utf8Bytes ("--" ++ boundary)) parts
    rw [hwrite, List.length_append]
    omega
  unfold parseHttpMultipart
  dsimp only
  rw [hfirst]
  exact multipartPartsFrom_rest (LineFree.dash boundary) hb.not_mem hb.getLast hparts (by rw [List.drop_zero, hwrite]) hcount

/-- A part with one header. -/
def onePart (key value : String) (body : Bytes) : HttpMultipartPart := { headers := (∅ : Headers).insert key value, body }

theorem onePart_writable {key value : String} {body : Bytes} (h : HeaderFits (key, value)) (hlen : body.length < delimiter.length) :
    (onePart key value body).Writable delimiter := by
  refine ⟨fun kv hkv => ?_, fun k _ hpre => ?_⟩
  · have hget := Std.ExtTreeMap.mem_toList_iff_getElem?_eq_some.mp (show (kv.1, kv.2) ∈ _ from hkv)
    change ((∅ : Headers).insert key value)[kv.1]? = some kv.2 at hget
    rw [getElem?_insert_eq] at hget
    split at hget
    · rename_i hkey
      cases hget
      rwa [← hkey] at h
    · simp at hget
  · have hle := hpre.length_le
    rw [List.length_drop] at hle
    change delimiter.length ≤ body.length - k at hle
    omega

/-- The first body is how the boundary begins. -/
theorem multipart_safe_and_inverse_twoParts : SafeParse [45, 45, 98] "b" ∧ LineFree "b" ∧
    parseHttpMultipart (writeMultipart "b" [onePart "k" "v" [45, 45], onePart "l" "w" [13, 10]]) "b" =
      .ok [onePart "k" "v" [45, 45], onePart "l" "w" [13, 10]] := by
  have hb : LineFree "b" := ⟨by decide, by decide⟩
  obtain ⟨hsafe, hback⟩ := multipart_safe_and_inverse "b"
  refine ⟨hsafe _, hb, hback hb _ fun part hpart => ?_⟩
  rcases List.mem_pair.mp hpart with rfl | rfl
  · exact ⟨onePart_writable ⟨by decide, by decide, by decide, by decide⟩ (by decide), by decide +kernel, by decide +kernel⟩
  · exact ⟨onePart_writable ⟨by decide, by decide, by decide, by decide⟩ (by decide), by decide +kernel, by decide +kernel⟩

/-- A name on two lines, a part with a body and no headers, and a boundary that ends in a carriage return. -/
theorem multipart_not_inverse :
    ((onePart "a\nb" "v" []).Writable (utf8Bytes "--b") ∧
      parseHttpMultipart (writeMultipart "b" [onePart "a\nb" "v" []]) "b" ≠ .ok [onePart "a\nb" "v" []]) ∧
    (HttpMultipartPart.Writable (utf8Bytes "--b") { headers := ∅, body := [120] } ∧
      parseHttpMultipart (writeMultipart "b" [{ headers := ∅, body := [120] }]) "b" ≠ .ok [{ headers := ∅, body := [120] }]) ∧
    ((onePart "k" "v" [45, 45, 98]).Writable (utf8Bytes "--b\r") ∧
      parseHttpMultipart (writeMultipart "b\r" [onePart "k" "v" [45, 45, 98]]) "b\r" ≠ .ok [onePart "k" "v" [45, 45, 98]]) := by
  refine ⟨⟨onePart_writable ⟨by decide, by decide, by decide, by decide⟩ (by decide), fun he => ?_⟩, ⟨⟨?_, ?_⟩, fun he => ?_⟩,
    ⟨onePart_writable ⟨by decide, by decide, by decide, by decide⟩ (by decide), fun he => ?_⟩⟩
  · have hkeys := congrArg (fun r => r.toOption.map fun parts => parts.map (·.headers.toList)) he
    revert hkeys
    decide +kernel
  · simp
  · intro k _ hpre
    have hle := hpre.length_le
    rw [List.length_drop] at hle
    have hlen : (utf8Bytes "--b").length = 3 := by decide
    simp only [List.length_cons, List.length_nil] at hle
    omega
  · have hkeys := congrArg (fun r => r.toOption.map fun parts => parts.map (·.headers.toList)) he
    revert hkeys
    decide +kernel
  · have hkeys := congrArg (fun r => r.toOption.map fun parts => parts.map (·.headers.toList)) he
    revert hkeys
    decide +kernel

end Star9
