import Star9.Protocol.Message

/-!
# The wire codec is a bijection

Encoding a message succeeds with a frame exactly when decoding that frame gives
the message back. Every primitive reader is exact for its writer, and the message
arms are compared field by field.
-/
namespace Star9
open Base

/-! ## Words, strings and counted data -/

theorem u8_exact : Exact Decoder.u8 (fun _ => True) putU8 := by
  have h : Exact Decoder.u8 (fun _ => True) (fun a => leBytes 1 a.toNat) :=
    readLe_exact (fun a => a.toNat_lt) (fun a => UInt8.ofNat_toNat)
      (fun v hv => UInt8.toNat_ofNat_of_lt' (by simpa using hv))
  have henc : (fun a : UInt8 => leBytes 1 a.toNat) = putU8 := by
    funext a
    simp [leBytes, putU8]
  rwa [henc] at h

theorem u16_exact : Exact Decoder.u16 (fun _ => True) putU16 :=
  readLe_exact (fun a => a.toNat_lt) (fun a => UInt16.ofNat_toNat)
    (fun v hv => UInt16.toNat_ofNat_of_lt' (by simpa using hv))

theorem u32_exact : Exact Decoder.u32 (fun _ => True) putU32 :=
  readLe_exact (fun a => a.toNat_lt) (fun a => UInt32.ofNat_toNat)
    (fun v hv => UInt32.toNat_ofNat_of_lt' (by simpa using hv))

theorem u64_exact : Exact Decoder.u64 (fun _ => True) putU64 :=
  readLe_exact (fun a => a.toNat_lt) (fun a => UInt64.ofNat_toNat)
    (fun v hv => UInt64.toNat_ofNat_of_lt' (by simpa using hv))

/-- A string whose byte length fits its two-byte length field. -/
def StringFits (s : String) : Prop := (utf8Bytes s).length < 2 ^ 16

def encodeString (s : String) : Bytes := putU16 (UInt16.ofNat (utf8Bytes s).length) ++ utf8Bytes s

theorem putString_eq_ok {s : String} {b : Bytes} :
    putString s = .ok b ↔ StringFits s ∧ b = encodeString s := by
  simp only [putString, StringFits, encodeString]
  split
  · simp_all [eq_comm]
  · simp_all

theorem putString_of_fits {s : String} (h : StringFits s) : putString s = .ok (encodeString s) :=
  putString_eq_ok.mpr ⟨h, rfl⟩

theorem string_exact : Exact Decoder.string StringFits encodeString := by
  intro s v rest
  simp only [Decoder.string, u16_exact.bind_eq_ok, reader_bind_eq_ok, Decoder.bytes, readBytes_eq_ok,
    true_and]
  constructor
  · rintro ⟨len, _, rfl, b, _, ⟨hlen, rfl⟩, hm⟩
    cases hs : utf8String? b with
    | none =>
      rw [hs] at hm
      cases hm
    | some v' =>
      rw [hs] at hm
      obtain ⟨rfl, rfl⟩ := reader_pure_eq_ok.mp hm
      obtain rfl := utf8String?_eq_some.mp hs
      refine ⟨by rw [StringFits, hlen]; exact len.toNat_lt, ?_⟩
      rw [encodeString, hlen, UInt16.ofNat_toNat, List.append_assoc]
  · rintro ⟨hfits, rfl⟩
    refine ⟨UInt16.ofNat (utf8Bytes v).length, utf8Bytes v ++ rest, by simp [encodeString],
      utf8Bytes v, rest, ⟨?_, rfl⟩, ?_⟩
    · exact (UInt16.toNat_ofNat_of_lt' hfits).symm
    · rw [utf8String?_eq_some.mpr rfl]
      exact reader_pure_eq_ok.mpr ⟨rfl, rfl⟩

theorem putStrings_eq_ok {names : List String} {b : Bytes} :
    putStrings names = .ok b ↔ (∀ n ∈ names, StringFits n) ∧ b = names.flatMap encodeString := by
  induction names generalizing b with
  | nil => simp [putStrings, eq_comm]
  | cons name names ih =>
    simp only [putStrings, except_bind_eq_ok, putString_eq_ok, ih, Except.ok.injEq]
    constructor
    · rintro ⟨_, ⟨h1, rfl⟩, _, ⟨h2, rfl⟩, rfl⟩
      simpa [h1] using h2
    · rintro ⟨h, rfl⟩
      exact ⟨_, ⟨h name (by simp), rfl⟩, _, ⟨fun n hn => h n (by simp [hn]), rfl⟩, by simp⟩

theorem putCount_eq_ok {n : Nat} {b : Bytes} :
    putCount n = .ok b ↔ n < 2 ^ 16 ∧ b = putU16 (UInt16.ofNat n) := by
  unfold putCount
  split
  · simp_all [eq_comm]
  · simp_all

def DataFits (data : Bytes) : Prop := data.length < 2 ^ 32

def encodeData (data : Bytes) : Bytes := putU32 (UInt32.ofNat data.length) ++ data

theorem putCountedData_eq_ok {data b : Bytes} :
    putCountedData data = .ok b ↔ DataFits data ∧ b = encodeData data := by
  unfold putCountedData DataFits encodeData
  split
  · simp_all [eq_comm]
  · simp_all

theorem countedData_exact : Exact Decoder.countedData DataFits encodeData := by
  intro s data rest
  simp only [Decoder.countedData, u32_exact.bind_eq_ok, Decoder.bytes, readBytes_eq_ok, true_and]
  constructor
  · rintro ⟨len, _, rfl, hlen, rfl⟩
    rw [DataFits, encodeData, hlen]
    exact ⟨len.toNat_lt, by simp⟩
  · rintro ⟨hlen, rfl⟩
    exact ⟨UInt32.ofNat data.length, data ++ rest, by simp [encodeData],
      (UInt32.toNat_ofNat_of_lt' hlen).symm, rfl⟩

/-! ## Records -/

theorem qid_exact : Exact Decoder.qid (fun _ => True) encodeQid := by
  intro s q rest
  simp only [Decoder.qid, u8_exact.bind_eq_ok, u32_exact.bind_eq_ok, u64_exact.bind_eq_ok,
    reader_pure_eq_ok, true_and]
  constructor
  · rintro ⟨_, _, rfl, _, _, rfl, _, _, rfl, rfl, rfl⟩
    simp [encodeQid]
  · rintro rfl
    exact ⟨_, _, by simp [encodeQid], _, _, rfl, _, _, rfl, rfl, rfl⟩

theorem attr_exact : Exact Decoder.attr (fun _ => True) encodeAttr := by
  intro s a rest
  unfold encodeAttr Decoder.attr
  simp only [List.append_assoc, true_and]
  constructor
  · intro h
    -- Field by field: unfolding all twenty reads at once is needlessly slow.
    rw [u64_exact.bind_eq_ok] at h
    obtain ⟨_, _, ⟨-, rfl⟩, h⟩ := h
    rw [qid_exact.bind_eq_ok] at h
    obtain ⟨_, _, ⟨-, rfl⟩, h⟩ := h
    iterate 3
      rw [u32_exact.bind_eq_ok] at h
      obtain ⟨_, _, ⟨-, rfl⟩, h⟩ := h
    iterate 15
      rw [u64_exact.bind_eq_ok] at h
      obtain ⟨_, _, ⟨-, rfl⟩, h⟩ := h
    obtain ⟨rfl, rfl⟩ := reader_pure_eq_ok.mp h
    rfl
  · rintro rfl
    simp only [u32_exact.bind_append trivial, u64_exact.bind_append trivial,
      qid_exact.bind_append trivial]
    rfl

theorem setattr_exact : Exact Decoder.setattr (fun _ => True) encodeSetattr := by
  intro s a rest
  unfold encodeSetattr Decoder.setattr
  simp only [List.append_assoc, true_and]
  constructor
  · intro h
    iterate 4
      rw [u32_exact.bind_eq_ok] at h
      obtain ⟨_, _, ⟨-, rfl⟩, h⟩ := h
    iterate 5
      rw [u64_exact.bind_eq_ok] at h
      obtain ⟨_, _, ⟨-, rfl⟩, h⟩ := h
    obtain ⟨rfl, rfl⟩ := reader_pure_eq_ok.mp h
    rfl
  · rintro rfl
    simp only [u32_exact.bind_append trivial, u64_exact.bind_append trivial]
    rfl

/-! ## Message bodies -/

theorem putStrings_of_fits {names : List String} (h : ∀ n ∈ names, StringFits n) :
    putStrings names = .ok (names.flatMap encodeString) :=
  putStrings_eq_ok.mpr ⟨h, rfl⟩

theorem putCountedData_of_fits {data : Bytes} (h : DataFits data) :
    putCountedData data = .ok (encodeData data) :=
  putCountedData_eq_ok.mpr ⟨h, rfl⟩

theorem putCount_of_eq {n : Nat} {c : UInt16} (h : n = c.toNat) : putCount n = .ok (putU16 c) := by
  subst h
  exact putCount_eq_ok.mpr ⟨c.toNat_lt, by rw [UInt16.ofNat_toNat]⟩

/-- The names of a walk, after their two-byte count. -/
theorem walk_names_exact (n : UInt16) :
    Exact (readMany Decoder.string n.toNat)
      (fun names => names.length = n.toNat ∧ ∀ a ∈ names, StringFits a)
      (fun names => names.flatMap encodeString) :=
  readMany_exact string_exact n.toNat

theorem walk_qids_exact (n : UInt16) :
    Exact (readMany Decoder.qid n.toNat) (fun qids => qids.length = n.toNat ∧ ∀ a ∈ qids, True)
      (fun qids => qids.flatMap encodeQid) :=
  readMany_exact qid_exact n.toNat

theorem encodeRequestBody_of_decode {typ : UInt8} {s rest : Bytes} {r : NinePRequest}
    (h : decodeRequestBody typ s = .ok (r, rest)) :
    ∃ b, encodeRequestBody r = .ok (typ, b) ∧ s = b ++ rest := by
  revert h
  unfold decodeRequestBody
  split
  case h_23 =>
    intro h
    cases h
  all_goals simp only [u16_exact.bind_eq_ok, u32_exact.bind_eq_ok, u64_exact.bind_eq_ok,
    string_exact.bind_eq_ok, countedData_exact.bind_eq_ok, setattr_exact.bind_eq_ok,
    (walk_names_exact _).bind_eq_ok, reader_pure_eq_ok, true_and]
  case h_12 | h_13 | h_20 | h_21 | h_22 =>
    rintro ⟨_, _, rfl, rfl, rfl⟩
    simp [encodeRequestBody]
  case h_4 | h_6 | h_7 =>
    rintro ⟨_, _, rfl, _, _, rfl, rfl, rfl⟩
    simp [encodeRequestBody]
  case h_10 | h_16 =>
    rintro ⟨_, _, rfl, _, _, rfl, _, _, rfl, rfl, rfl⟩
    simp [encodeRequestBody]
  case h_1 =>
    rintro ⟨_, _, rfl, _, _, ⟨h, rfl⟩, rfl, rfl⟩
    simp [encodeRequestBody, putString_of_fits h]
  case h_2 =>
    rintro ⟨_, _, rfl, _, _, rfl, _, _, ⟨hu, rfl⟩, _, _, ⟨ha, rfl⟩, _, _, rfl, rfl, rfl⟩
    simp [encodeRequestBody, putString_of_fits hu, putString_of_fits ha]
  case h_3 =>
    rintro ⟨_, _, rfl, _, _, rfl, n, _, rfl, names, _, ⟨⟨hn, h⟩, rfl⟩, rfl, rfl⟩
    simp [encodeRequestBody, putCount_of_eq hn, putStrings_of_fits h]
  case h_5 =>
    rintro ⟨_, _, rfl, _, _, ⟨h, rfl⟩, _, _, rfl, _, _, rfl, _, _, rfl, rfl, rfl⟩
    simp [encodeRequestBody, putString_of_fits h]
  case h_8 | h_15 =>
    rintro ⟨_, _, rfl, _, _, rfl, _, _, ⟨h, rfl⟩, rfl, rfl⟩
    simp [encodeRequestBody, putString_of_fits h]
  case h_9 | h_14 =>
    rintro ⟨_, _, rfl, _, _, ⟨h, rfl⟩, _, _, rfl, _, _, rfl, rfl, rfl⟩
    simp [encodeRequestBody, putString_of_fits h]
  case h_11 =>
    rintro ⟨_, _, rfl, _, _, rfl, _, _, ⟨h, rfl⟩, rfl, rfl⟩
    simp [encodeRequestBody, putCountedData_of_fits h]
  case h_17 =>
    rintro ⟨_, _, rfl, _, _, ⟨ho, rfl⟩, _, _, rfl, _, _, ⟨hn, rfl⟩, rfl, rfl⟩
    simp [encodeRequestBody, putString_of_fits ho, putString_of_fits hn]
  case h_18 =>
    rintro ⟨_, _, rfl, _, _, ⟨h, rfl⟩, _, _, rfl, rfl, rfl⟩
    simp [encodeRequestBody, putString_of_fits h]
  case h_19 =>
    rintro ⟨_, _, rfl, _, _, ⟨hn, rfl⟩, _, _, ⟨ht, rfl⟩, _, _, rfl, rfl, rfl⟩
    simp [encodeRequestBody, putString_of_fits hn, putString_of_fits ht]

theorem decodeRequestBody_of_encode {typ : UInt8} {b : Bytes} {r : NinePRequest} (rest : Bytes)
    (h : encodeRequestBody r = .ok (typ, b)) : decodeRequestBody typ (b ++ rest) = .ok (r, rest) := by
  revert h
  cases r <;> simp only [encodeRequestBody, except_bind_eq_ok, putString_eq_ok, putStrings_eq_ok,
    putCount_eq_ok, putCountedData_eq_ok, Except.ok.injEq, Prod.mk.injEq]
  case walk fid newfid names =>
    rintro ⟨_, ⟨hn, rfl⟩, _, ⟨h, rfl⟩, rfl, rfl⟩
    have hlen : names.length = (UInt16.ofNat names.length).toNat :=
      (UInt16.toNat_ofNat_of_lt' hn).symm
    change decodeRequestBody ⟨_⟩ _ = _
    simp only [decodeRequestBody, List.append_assoc, u32_exact.bind_append trivial,
      u16_exact.bind_append trivial, (walk_names_exact _).bind_append ⟨hlen, h⟩]
    rfl
  case attach | renameAt | symlink =>
    rintro ⟨_, ⟨h₁, rfl⟩, _, ⟨h₂, rfl⟩, rfl, rfl⟩
    change decodeRequestBody ⟨_⟩ _ = _
    simp only [decodeRequestBody, List.append_assoc, u32_exact.bind_append trivial,
      string_exact.bind_append h₁, string_exact.bind_append h₂]
    rfl
  case version | lcreate | xattrWalk | xattrCreate | mkdir | link | unlinkAt =>
    rintro ⟨_, ⟨h, rfl⟩, rfl, rfl⟩
    change decodeRequestBody ⟨_⟩ _ = _
    simp only [decodeRequestBody, List.append_assoc, u32_exact.bind_append trivial,
      u64_exact.bind_append trivial, string_exact.bind_append h]
    rfl
  case write =>
    rintro ⟨_, ⟨h, rfl⟩, rfl, rfl⟩
    change decodeRequestBody ⟨_⟩ _ = _
    simp only [decodeRequestBody, List.append_assoc, u32_exact.bind_append trivial,
      u64_exact.bind_append trivial, countedData_exact.bind_append h]
    rfl
  all_goals
    rintro ⟨rfl, rfl⟩
    change decodeRequestBody ⟨_⟩ _ = _
    simp only [decodeRequestBody, List.append_assoc, u16_exact.bind_append trivial,
      u32_exact.bind_append trivial, u64_exact.bind_append trivial, setattr_exact.bind_append trivial]
    rfl

theorem encodeResponseBody_of_decode {typ : UInt8} {s rest : Bytes} {r : NinePResponse}
    (h : decodeResponseBody typ s = .ok (r, rest)) :
    ∃ b, encodeResponseBody r = .ok (typ, b) ∧ s = b ++ rest := by
  revert h
  unfold decodeResponseBody
  split
  case h_24 =>
    intro h
    cases h
  all_goals simp only [u16_exact.bind_eq_ok, u32_exact.bind_eq_ok, u64_exact.bind_eq_ok,
    string_exact.bind_eq_ok, countedData_exact.bind_eq_ok, qid_exact.bind_eq_ok,
    attr_exact.bind_eq_ok, (walk_qids_exact _).bind_eq_ok, reader_pure_eq_ok, true_and]
  case h_8 | h_10 | h_13 | h_14 | h_16 | h_18 | h_19 | h_22 | h_23 =>
    rintro ⟨rfl, rfl⟩
    simp [encodeResponseBody]
  case h_1 | h_3 | h_9 | h_12 | h_15 | h_20 =>
    rintro ⟨_, _, rfl, rfl, rfl⟩
    simp [encodeResponseBody]
  case h_7 =>
    rintro ⟨attr, _, h, rfl, rfl⟩
    exact ⟨encodeAttr attr, by rw [encodeResponseBody]; rfl, h⟩
  case h_5 | h_6 =>
    rintro ⟨_, _, rfl, _, _, rfl, rfl, rfl⟩
    simp [encodeResponseBody]
  case h_2 =>
    rintro ⟨_, _, rfl, _, _, ⟨h, rfl⟩, rfl, rfl⟩
    simp [encodeResponseBody, putString_of_fits h]
  case h_4 =>
    rintro ⟨n, _, rfl, qids, _, ⟨⟨hn, -⟩, rfl⟩, rfl, rfl⟩
    simp [encodeResponseBody, putCount_of_eq hn]
  case h_11 | h_17 =>
    rintro ⟨_, _, ⟨h, rfl⟩, rfl, rfl⟩
    simp [encodeResponseBody, putCountedData_of_fits h]
  case h_21 =>
    rintro ⟨_, _, ⟨h, rfl⟩, rfl, rfl⟩
    simp [encodeResponseBody, putString_of_fits h]

theorem decodeResponseBody_of_encode {typ : UInt8} {b : Bytes} {r : NinePResponse} (rest : Bytes)
    (h : encodeResponseBody r = .ok (typ, b)) : decodeResponseBody typ (b ++ rest) = .ok (r, rest) := by
  revert h
  cases r <;> simp only [encodeResponseBody, except_bind_eq_ok, putString_eq_ok, putCount_eq_ok,
    putCountedData_eq_ok, Except.ok.injEq, Prod.mk.injEq]
  case walk qids =>
    rintro ⟨_, ⟨hn, rfl⟩, rfl, rfl⟩
    have hlen : qids.length = (UInt16.ofNat qids.length).toNat :=
      (UInt16.toNat_ofNat_of_lt' hn).symm
    change decodeResponseBody ⟨_⟩ _ = _
    simp only [decodeResponseBody, List.append_assoc, u16_exact.bind_append trivial,
      (walk_qids_exact _).bind_append ⟨hlen, fun _ _ => trivial⟩]
    rfl
  case version | readlink =>
    rintro ⟨_, ⟨h, rfl⟩, rfl, rfl⟩
    change decodeResponseBody ⟨_⟩ _ = _
    simp only [decodeResponseBody, List.append_assoc, u32_exact.bind_append trivial,
      string_exact.bind_append h]
    rfl
  case read | readdir =>
    rintro ⟨_, ⟨h, rfl⟩, rfl, rfl⟩
    change decodeResponseBody ⟨_⟩ _ = _
    simp only [decodeResponseBody, countedData_exact.bind_append h]
    rfl
  all_goals
    rintro ⟨rfl, rfl⟩
    change decodeResponseBody ⟨_⟩ _ = _
    simp only [decodeResponseBody, List.append_assoc, u32_exact.bind_append trivial,
      u64_exact.bind_append trivial, qid_exact.bind_append trivial, attr_exact.bind_append trivial]
    rfl

/-! ## Frames -/

theorem decodeFrame_append (w t body : Bytes) (typ : UInt8) (hw : w.length = 4) (ht : t.length = 2) :
    decodeFrame (w ++ typ :: (t ++ body)) =
      if leValue w = 7 + body.length then .ok (typ, UInt16.ofNat (leValue t), body)
      else .error (.kind .invalid) := by
  match w, t, hw, ht with
  | [b0, b1, b2, b3], [t0, t1], _, _ =>
    simp only [decodeFrame, List.cons_append, List.nil_append, List.length_cons]
    split <;> split <;> first | rfl | omega

theorem decodeFrame_eq_ok {typ : UInt8} {tag : UInt16} {body frame : Bytes} :
    decodeFrame frame = .ok (typ, tag, body) ↔
      7 + body.length < 2 ^ 32 ∧
      frame = putU32 (UInt32.ofNat (7 + body.length)) ++ putU8 typ ++ putU16 tag ++ body := by
  constructor
  · intro h
    match frame with
    | b0 :: b1 :: b2 :: b3 :: typ' :: t0 :: t1 :: body' =>
      have hdec := decodeFrame_append [b0, b1, b2, b3] [t0, t1] body' typ' rfl rfl
      have hword : leValue [b0, b1, b2, b3] < 2 ^ 32 := by simpa using leValue_lt [b0, b1, b2, b3]
      have htag : leValue [t0, t1] < 2 ^ 16 := by simpa using leValue_lt [t0, t1]
      have h4 : leBytes 4 (leValue [b0, b1, b2, b3]) = _ := leBytes_leValue [b0, b1, b2, b3]
      have h2 : leBytes 2 (leValue [t0, t1]) = _ := leBytes_leValue [t0, t1]
      simp only [List.cons_append, List.nil_append, h] at hdec
      split at hdec
      · rename_i hsize
        simp only [Except.ok.injEq, Prod.mk.injEq] at hdec
        obtain ⟨rfl, rfl, rfl⟩ := hdec
        refine ⟨hsize ▸ hword, ?_⟩
        simp [putU32, putU8, putU16, ← hsize, UInt32.toNat_ofNat_of_lt' hword,
          UInt16.toNat_ofNat_of_lt' htag, h4, h2]
      · cases hdec
    | [] | [_] | [_, _] | [_, _, _] | [_, _, _, _] | [_, _, _, _, _] | [_, _, _, _, _, _] => cases h
  · rintro ⟨hlen, rfl⟩
    have hdec := decodeFrame_append (putU32 (UInt32.ofNat (7 + body.length))) (putU16 tag) body typ
      (leBytes_length 4 _) (leBytes_length 2 _)
    have hword : leValue (putU32 (UInt32.ofNat (7 + body.length))) = 7 + body.length := by
      rw [putU32, leValue_leBytes, UInt32.toNat_ofNat_of_lt' hlen]
      exact Nat.mod_eq_of_lt (by simpa using hlen)
    have htag : UInt16.ofNat (leValue (putU16 tag)) = tag := by
      rw [putU16, leValue_leBytes, Nat.mod_eq_of_lt (show tag.toNat < 256 ^ 2 from tag.toNat_lt), UInt16.ofNat_toNat]
    rw [hword, htag, if_pos rfl] at hdec
    simpa [putU8] using hdec

theorem encodeFrame_eq_ok {typ : UInt8} {tag : UInt16} {body frame : Bytes} :
    encodeFrame typ tag body = .ok frame ↔ decodeFrame frame = .ok (typ, tag, body) := by
  rw [decodeFrame_eq_ok]
  simp only [encodeFrame]
  split
  · rename_i h
    simp only [Except.ok.injEq, h, true_and]
    exact eq_comm
  · rename_i h
    simp only [reduceCtorEq, h, false_and]

theorem decode_finish_eq_ok {α : Type} {p : Reader Error α} {body : Bytes} {a : α} :
    Decoder.finish p body = .ok a ↔ p body = .ok (a, []) := by
  simp only [Decoder.finish, except_bind_eq_ok, Prod.exists]
  constructor
  · rintro ⟨a', rest, h, h'⟩
    split at h' <;> simp_all
  · intro h
    exact ⟨a, [], h, rfl⟩

theorem encodeRequest_eq_ok_iff {tag : UInt16} {r : NinePRequest} {frame : Bytes} :
    encodeRequest tag r = .ok frame ↔ decodeRequest frame = .ok (tag, r) := by
  simp only [encodeRequest, decodeRequest, except_bind_eq_ok, Prod.exists, encodeFrame_eq_ok,
    decode_finish_eq_ok, Except.ok.injEq, Prod.mk.injEq]
  constructor
  · rintro ⟨typ, body, hr, hf⟩
    have h := decodeRequestBody_of_encode [] hr
    rw [List.append_nil] at h
    exact ⟨typ, tag, body, hf, r, h, rfl, rfl⟩
  · rintro ⟨typ, _, body, hf, _, h, rfl, rfl⟩
    obtain ⟨b, hr, rfl⟩ := encodeRequestBody_of_decode h
    rw [List.append_nil] at hf
    exact ⟨typ, b, hr, hf⟩

theorem encodeResponse_eq_ok_iff {tag : UInt16} {r : NinePResponse} {frame : Bytes} :
    encodeResponse tag r = .ok frame ↔ decodeResponse frame = .ok (tag, r) := by
  simp only [encodeResponse, decodeResponse, except_bind_eq_ok, Prod.exists, encodeFrame_eq_ok,
    decode_finish_eq_ok, Except.ok.injEq, Prod.mk.injEq]
  constructor
  · rintro ⟨typ, body, hr, hf⟩
    have h := decodeResponseBody_of_encode [] hr
    rw [List.append_nil] at h
    exact ⟨typ, tag, body, hf, r, h, rfl, rfl⟩
  · rintro ⟨typ, _, body, hf, _, h, rfl, rfl⟩
    obtain ⟨b, hr, rfl⟩ := encodeResponseBody_of_decode h
    rw [List.append_nil] at hf
    exact ⟨typ, b, hr, hf⟩

/-! ## Directory entries -/

/-- One entry of a Readdir payload. -/
def encodeDirent (d : NinePDirent) : Bytes :=
  encodeQid d.qid ++ putU64 d.offset ++ putU8 d.typ ++ encodeString d.name

theorem encodeDirents_cons {d : NinePDirent} {ds : List NinePDirent} {data : Bytes} (h : encodeDirents (d :: ds) = .ok data) :
    ∃ rest, StringFits d.name ∧ encodeDirents ds = .ok rest ∧
      data = (encodeQid d.qid ++ putU64 d.offset ++ putU8 d.typ ++ encodeString d.name) ++ rest := by
  unfold encodeDirents at h
  obtain ⟨name, hname, h⟩ := except_bind_eq_ok.mp h
  obtain ⟨rest, hrest, h⟩ := except_bind_eq_ok.mp h
  obtain ⟨hfits, rfl⟩ := putString_eq_ok.mp hname
  cases h
  exact ⟨rest, hfits, hrest, rfl⟩

theorem encodeDirents_of_fits {ds : List NinePDirent} (h : ∀ d ∈ ds, StringFits d.name) :
    encodeDirents ds = .ok (ds.flatMap encodeDirent) := by
  induction ds with
  | nil => rfl
  | cons d ds ih =>
    rw [encodeDirents, putString_of_fits (h d List.mem_cons_self), except_ok_bind,
      ih fun e he => h e (List.mem_cons_of_mem d he)]
    rfl

theorem encodeDirent_length (d : NinePDirent) : (encodeDirent d).length = 24 + (utf8Bytes d.name).length := by
  simp [encodeDirent, encodeQid, encodeString, putU8, putU16, putU32, putU64, leBytes_length]
  omega

/-- The reader of one entry, as `decodeDirents` runs it. -/
theorem dirent_read {d : NinePDirent} (h : StringFits d.name) (rest : Bytes) :
    (do
      let qid ← Decoder.qid
      let offset ← Decoder.u64
      let typ ← Decoder.u8
      let name ← Decoder.string
      pure ({ qid, offset, typ, name } : NinePDirent) : Reader Error NinePDirent) (encodeDirent d ++ rest) =
      .ok (d, rest) := by
  simp only [qid_exact.bind_eq_ok, u64_exact.bind_eq_ok, u8_exact.bind_eq_ok, string_exact.bind_eq_ok,
    reader_pure_eq_ok, true_and]
  exact ⟨_, _, by simp only [encodeDirent, List.append_assoc], _, _, rfl, _, _, rfl, _, _, ⟨h, rfl⟩, rfl, rfl⟩

theorem decodeDirents_go {ds : List NinePDirent} (hfits : ∀ d ∈ ds, StringFits d.name) {n : Nat} (hn : ds.length ≤ n) :
    decodeDirents.go n (ds.flatMap encodeDirent) = .ok ds := by
  induction ds generalizing n with
  | nil => cases n <;> rfl
  | cons d ds ih =>
    cases n with
    | zero => simp at hn
    | succ n =>
      have htail := ih (fun e he => hfits e (List.mem_cons_of_mem d he)) (by simpa using hn)
      have hread := dirent_read (hfits d List.mem_cons_self) (ds.flatMap encodeDirent)
      rw [List.flatMap_cons]
      have hlen : (encodeDirent d ++ ds.flatMap encodeDirent).length ≠ 0 := by
        rw [List.length_append, encodeDirent_length]
        omega
      generalize hb : encodeDirent d ++ ds.flatMap encodeDirent = data at hread hlen
      cases data with
      | nil => exact absurd rfl hlen
      | cons x data =>
        rw [decodeDirents.go, hread, except_ok_bind]
        · dsimp only
          rw [htail]
          rfl
        · exact List.cons_ne_nil x data

/-- The entries of a payload are read back. -/
theorem decodeDirents_flatMap {ds : List NinePDirent} (hfits : ∀ d ∈ ds, StringFits d.name) :
    decodeDirents (ds.flatMap encodeDirent) = .ok ds := by
  refine decodeDirents_go hfits ?_
  rw [List.length_flatMap]
  refine le_of_eq_of_le (by simp) (List.sum_le_sum (f := fun _ => 1) fun d _ => ?_)
  rw [encodeDirent_length]
  omega

/-- The codec is a bijection between the messages that encode and the frames that
decode, for requests and for responses. -/
theorem codec_bijective :
    (∀ tag r frame, encodeRequest tag r = .ok frame ↔ decodeRequest frame = .ok (tag, r)) ∧
    (∀ tag r frame, encodeResponse tag r = .ok frame ↔ decodeResponse frame = .ok (tag, r)) :=
  ⟨fun _ _ _ => encodeRequest_eq_ok_iff, fun _ _ _ => encodeResponse_eq_ok_iff⟩

end Star9
