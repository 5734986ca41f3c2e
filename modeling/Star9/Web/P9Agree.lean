import Star9.Protocol.Codec
import Star9.Web.P9Codec

/-!
# The two codecs agree

What the mount of the browser writes is what the protocol crate would have written for
the same request, and what the protocol crate writes the mount reads back field by field.
They part where a number does not fit: a fid of more than 32 bits, a frame whose length
is negative in 32 signed bits; and where a text begins with a byte order mark.
-/
namespace Star9
namespace P9Mount
open Base P9Port

/-! ## Words -/

theorem byteAt_eq {shift : Nat} (hshift : shift ≤ 24) (value : Nat) : byteAt value shift = UInt8.ofNat (value / 2 ^ shift) := by
  apply UInt8.toBitVec_inj.mp
  apply BitVec.eq_of_getLsbD_eq
  intro i hi
  have hbit : shift + i < 32 := by omega
  have hside : ¬(32 : Nat) ≤ i := by omega
  simp only [byteAt, UInt8.toBitVec_ofNat', BitVec.getLsbD_setWidth, BitVec.getLsbD_sshiftRight, BitVec.getLsbD_ofNat, hi, hbit,
    hside, decide_true, decide_false, Bool.true_and, Bool.not_false, if_true, Nat.testBit_div_two_pow]
  rw [Nat.add_comm]

theorem u16_eq (value : Nat) : P9Writer.u16 value = leBytes 2 value := by
  unfold P9Writer.u16
  rw [byteAt_eq (by decide), byteAt_eq (by decide)]
  simp only [leBytes, pow_zero, Nat.div_one]
  rfl

theorem u32_eq (value : Nat) : P9Writer.u32 value = leBytes 4 value := by
  unfold P9Writer.u32
  rw [byteAt_eq (by decide), byteAt_eq (by decide), byteAt_eq (by decide), byteAt_eq (by decide)]
  simp only [leBytes, pow_zero, Nat.div_one, Nat.div_div_eq_div_mul]
  rfl

theorem u64_eq (value : Nat) : P9Writer.u64 value = leBytes 8 value := by
  have hmask : ∀ v : Nat, UInt8.ofNat (v &&& 0xff) = UInt8.ofNat v := by
    intro v
    apply UInt8.toNat_inj.mp
    rw [UInt8.toNat_ofNat', UInt8.toNat_ofNat', show (0xff : Nat) = 2 ^ 8 - 1 from rfl, Nat.and_two_pow_sub_one_eq_mod, Nat.mod_mod]
  unfold P9Writer.u64
  simp only [hmask, Nat.shiftRight_eq_div_pow, List.range, List.range.loop, List.map_cons, List.map_nil, leBytes,
    Nat.div_div_eq_div_mul]
  norm_num

theorem shiftByte_toNat {shift : Nat} (hshift : shift ≤ 24) (byte : UInt8) : (shiftByte byte shift).toNat = byte.toNat * 2 ^ shift := by
  have hbyte : byte.toNat < 256 := byte.toNat_lt
  have hpow : 2 ^ shift ≤ 2 ^ 24 := Nat.pow_le_pow_right (by decide) hshift
  have hsmall : byte.toNat * 2 ^ shift < 2 ^ 32 := by
    calc byte.toNat * 2 ^ shift ≤ 255 * 2 ^ 24 := Nat.mul_le_mul (by omega) hpow
      _ < 2 ^ 32 := by decide
  have hword : byte.toNat % 2 ^ 32 = byte.toNat := Nat.mod_eq_of_lt (by omega)
  unfold shiftByte
  rw [BitVec.toNat_shiftLeft, BitVec.toNat_ofNat, hword, Nat.shiftLeft_eq, Nat.mod_eq_of_lt hsmall]

theorem or_shifted {low : Nat} {shift : Nat} (hlow : low < 2 ^ shift) (high : Nat) : low ||| high * 2 ^ shift = low + high * 2 ^ shift := by
  rw [Nat.or_comm, ← Nat.shiftLeft_eq, ← Nat.shiftLeft_add_eq_or_of_lt hlow, Nat.add_comm]

theorem u16_or (b₀ b₁ : UInt8) : (shiftByte b₀ 0 ||| shiftByte b₁ 8).toNat = leValue [b₀, b₁] := by
  have h₀ : b₀.toNat < 256 := b₀.toNat_lt
  rw [BitVec.toNat_or, shiftByte_toNat (by decide), shiftByte_toNat (by decide), or_shifted (by omega)]
  simp only [leValue]
  omega

theorem u32_or (b₀ b₁ b₂ b₃ : UInt8) :
    (shiftByte b₀ 0 ||| shiftByte b₁ 8 ||| shiftByte b₂ 16 ||| shiftByte b₃ 24).toNat = leValue [b₀, b₁, b₂, b₃] := by
  have h₀ : b₀.toNat < 256 := b₀.toNat_lt
  have h₁ : b₁.toNat < 256 := b₁.toNat_lt
  have h₂ : b₂.toNat < 256 := b₂.toNat_lt
  rw [BitVec.toNat_or, BitVec.toNat_or, u16_or, shiftByte_toNat (by decide), shiftByte_toNat (by decide)]
  simp only [leValue]
  have hlow : b₀.toNat + 256 * (b₁.toNat + 256 * 0) ||| b₂.toNat * 2 ^ 16 =
      b₀.toNat + 256 * (b₁.toNat + 256 * 0) + b₂.toNat * 2 ^ 16 := or_shifted (by omega) _
  rw [hlow, or_shifted (by omega)]
  omega

/-- The bytes of a big integer, or-ed in from the lowest on. -/
theorem foldl_or_eq (b : Bytes) :
    (List.range b.length).foldl (fun value index => value ||| ((b.getD index 0).toNat <<< (index * 8))) 0 = leValue b := by
  induction b using List.reverseRecOn with
  | nil => rfl
  | append_singleton b x ih =>
    have hsame : (List.range b.length).foldl (fun value index => value ||| (((b ++ [x]).getD index 0).toNat <<< (index * 8))) 0 =
        leValue b := by
      rw [← ih]
      refine List.foldl_ext _ _ _ fun value index hindex => ?_
      rw [List.getD_append _ _ _ _ (List.mem_range.mp hindex)]
    have hlast : (b ++ [x]).getD b.length 0 = x := by
      rw [List.getD_append_right _ _ _ _ (Nat.le_refl _), Nat.sub_self]
      rfl
    have hlow : leValue b < 2 ^ (b.length * 8) := by
      have h := leValue_lt b
      rwa [show (256 : Nat) = 2 ^ 8 from rfl, ← pow_mul, Nat.mul_comm] at h
    rw [List.length_append, List.length_singleton, List.range_succ, List.foldl_append, hsame, List.foldl_cons, List.foldl_nil, hlast,
      Nat.shiftLeft_eq, or_shifted hlow, leValue_append]
    simp only [leValue]
    rw [Nat.mul_comm b.length 8, pow_mul, Nat.mul_comm x.toNat]
    rfl

theorem number_of_lt {v : Nat} (h : v < 2 ^ 53) : number v = v := if_pos h

/-! ## Reading what the protocol crate writes -/

theorem reads_bytes (b : Bytes) : Base.Reads (P9Reader.bytes b.length) b b := reads_readBytes _ b

theorem reads_u8 (v : UInt8) : Base.Reads P9Reader.u8 (putU8 v) v.toNat :=
  (reads_bytes [v]).map fun b => (b.getD 0 0).toNat

theorem reads_u16 (v : UInt16) : Base.Reads P9Reader.u16 (putU16 v) v.toNat := by
  have hvalue : leValue (putU16 v) = v.toNat := by
    unfold putU16
    rw [leValue_leBytes, Nat.mod_eq_of_lt (show v.toNat < 256 ^ 2 from v.toNat_lt)]
  have hread := (reads_bytes (putU16 v)).map fun b => (shiftByte (b.getD 0 0) 0 ||| shiftByte (b.getD 1 0) 8).toNat
  rw [← hvalue]
  have hbytes : (shiftByte ((putU16 v).getD 0 0) 0 ||| shiftByte ((putU16 v).getD 1 0) 8).toNat = leValue (putU16 v) := u16_or _ _
  rwa [hbytes] at hread

theorem reads_u32 (v : UInt32) : Base.Reads P9Reader.u32 (putU32 v) v.toNat := by
  have hvalue : leValue (putU32 v) = v.toNat := by
    unfold putU32
    rw [leValue_leBytes, Nat.mod_eq_of_lt (show v.toNat < 256 ^ 4 from v.toNat_lt)]
  have hread := (reads_bytes (putU32 v)).map fun b =>
    (shiftByte (b.getD 0 0) 0 ||| shiftByte (b.getD 1 0) 8 ||| shiftByte (b.getD 2 0) 16 ||| shiftByte (b.getD 3 0) 24).toNat
  have hbytes : (shiftByte ((putU32 v).getD 0 0) 0 ||| shiftByte ((putU32 v).getD 1 0) 8 ||| shiftByte ((putU32 v).getD 2 0) 16 |||
      shiftByte ((putU32 v).getD 3 0) 24).toNat = leValue (putU32 v) := u32_or _ _ _ _
  rw [← hvalue]
  rwa [hbytes] at hread

theorem reads_u64 {v : UInt64} (h : v.toNat < 2 ^ 53) : Base.Reads P9Reader.u64 (putU64 v) v.toNat := by
  have hvalue : leValue (putU64 v) = v.toNat := by
    unfold putU64
    rw [leValue_leBytes, Nat.mod_eq_of_lt (show v.toNat < 256 ^ 8 from v.toNat_lt)]
  have hread := (reads_bytes (putU64 v)).map fun b =>
    number ((List.range 8).foldl (fun value index => value ||| ((b.getD index 0).toNat <<< (index * 8))) 0)
  have hbytes := foldl_or_eq (putU64 v)
  rw [show (putU64 v).length = 8 from leBytes_length _ _, hvalue] at hbytes
  rwa [hbytes, number_of_lt h] at hread

theorem reads_string {s : String} (h : StringFits s) : Base.Reads P9Reader.string (encodeString s) (dropByteOrderMark s) := by
  have hlen : (UInt16.ofNat (utf8Bytes s).length).toNat = (utf8Bytes s).length := UInt16.toNat_ofNat_of_lt' h
  have hcount := reads_u16 (UInt16.ofNat (utf8Bytes s).length)
  rw [hlen] at hcount
  have hrest := (reads_bytes (utf8Bytes s)).map textDecode
  have hdecode : textDecode (utf8Bytes s) = dropByteOrderMark s := by
    unfold textDecode
    rw [utf8Lossy_utf8Bytes]
  rw [hdecode] at hrest
  exact hcount.bind hrest

/-! ## Records -/

def qidOf (q : Qid) : P9Qid := ⟨q.typ.toNat, q.version.toNat, q.path.toNat⟩

def attrOf (a : NinePAttr) : P9Attr :=
  { valid := a.valid.toNat, qid := qidOf a.qid, mode := a.mode.toNat, uid := a.uid.toNat, gid := a.gid.toNat, nlink := a.nlink.toNat
    rdev := a.rdev.toNat, size := a.size.toNat, blksize := a.blksize.toNat, blocks := a.blocks.toNat
    atimeSeconds := a.atimeSeconds.toNat, atimeNanoseconds := a.atimeNanoseconds.toNat, mtimeSeconds := a.mtimeSeconds.toNat
    mtimeNanoseconds := a.mtimeNanoseconds.toNat, ctimeSeconds := a.ctimeSeconds.toNat, ctimeNanoseconds := a.ctimeNanoseconds.toNat
    btimeSeconds := a.btimeSeconds.toNat, btimeNanoseconds := a.btimeNanoseconds.toNat, gen := a.gen.toNat
    dataVersion := a.dataVersion.toNat }

/-- The entry with its name as `text` makes it. -/
def direntOf (text : String → String) (d : NinePDirent) : P9Dirent :=
  { qid := qidOf d.qid, offset := d.offset.toNat, type := d.typ.toNat, name := text d.name }

/-- The response with its texts as `text` makes them, for the kinds that the mount waits for. -/
def responseOf (text : String → String) : NinePResponse → Option P9Response
  | .lerror ecode => some (.lerror ecode.toNat)
  | .version msize version => some (.version msize.toNat (text version))
  | .attach qid => some (.attach (qidOf qid))
  | .walk qids => some (.walk (qids.map qidOf))
  | .lopen qid iounit => some (.lopen (qidOf qid) iounit.toNat)
  | .lcreate qid iounit => some (.lcreate (qidOf qid) iounit.toNat)
  | .getAttr attr => some (.getAttr (attrOf attr))
  | .read data => some (.read data)
  | .write count => some (.write count.toNat)
  | .readdir data => some (.readdir data)
  | .mkdir qid => some (.mkdir (qidOf qid))
  | .unlinkAt => some .unlinkAt
  | .clunk => some .clunk
  | _ => none

def attrWords (a : NinePAttr) : List UInt64 :=
  [a.valid, a.qid.path, a.nlink, a.rdev, a.size, a.blksize, a.blocks, a.atimeSeconds, a.atimeNanoseconds, a.mtimeSeconds,
    a.mtimeNanoseconds, a.ctimeSeconds, a.ctimeNanoseconds, a.btimeSeconds, a.btimeNanoseconds, a.gen, a.dataVersion]

/-- The words of 64 bits in a response. -/
def responseWords : NinePResponse → List UInt64
  | .attach qid => [qid.path]
  | .walk qids => qids.map Qid.path
  | .lopen qid _ => [qid.path]
  | .lcreate qid _ => [qid.path]
  | .getAttr attr => attrWords attr
  | .mkdir qid => [qid.path]
  | _ => []

def responseTexts : NinePResponse → List String
  | .version _ version => [version]
  | _ => []

theorem reads_qid {q : Qid} (h : q.path.toNat < 2 ^ 53) : Base.Reads P9Reader.qid (encodeQid q) (qidOf q) := by
  unfold encodeQid
  rw [List.append_assoc]
  exact (reads_u8 q.typ).bind ((reads_u32 q.version).bind ((reads_u64 h).map _))

/-- The last reader of a body finds the end of the input. -/
theorem bind_last {ε α β : Type} {p : Reader ε α} {f : α → Reader ε β} {b : Bytes} {a : α} {c : β} (hp : Base.Reads p b a)
    (hf : f a [] = .ok (c, [])) : (p >>= f) b = .ok (c, []) := by
  have h := Base.Reads.bind_whole hp hf
  rwa [List.append_nil] at h

theorem attr_whole {a : NinePAttr} (h : ∀ v ∈ attrWords a, v.toNat < 2 ^ 53) : P9Reader.attr (encodeAttr a) = .ok (attrOf a, []) := by
  unfold encodeAttr P9Reader.attr
  simp only [List.append_assoc]
  simp only [attrWords, List.forall_mem_cons] at h
  obtain ⟨hvalid, hpath, hnlink, hrdev, hsize, hblksize, hblocks, has, han, hms, hmn, hcs, hcn, hbs, hbn, hgen, hdata, -⟩ := h
  refine Base.Reads.bind_whole (reads_u64 hvalid) (Base.Reads.bind_whole (reads_qid hpath) ?_)
  refine Base.Reads.bind_whole (reads_u32 a.mode) (Base.Reads.bind_whole (reads_u32 a.uid) (Base.Reads.bind_whole (reads_u32 a.gid) ?_))
  refine Base.Reads.bind_whole (reads_u64 hnlink) (Base.Reads.bind_whole (reads_u64 hrdev) (Base.Reads.bind_whole (reads_u64 hsize) ?_))
  refine Base.Reads.bind_whole (reads_u64 hblksize) (Base.Reads.bind_whole (reads_u64 hblocks) ?_)
  refine Base.Reads.bind_whole (reads_u64 has) (Base.Reads.bind_whole (reads_u64 han) (Base.Reads.bind_whole (reads_u64 hms) (Base.Reads.bind_whole (reads_u64 hmn) ?_)))
  refine Base.Reads.bind_whole (reads_u64 hcs) (Base.Reads.bind_whole (reads_u64 hcn) (Base.Reads.bind_whole (reads_u64 hbs) (Base.Reads.bind_whole (reads_u64 hbn) ?_)))
  refine Base.Reads.bind_whole (reads_u64 hgen) ?_
  exact bind_last (f := fun dataVersion => do P9Reader.finish; pure { attrOf a with dataVersion }) (reads_u64 hdata) rfl

theorem countedData_whole {data : Bytes} (h : DataFits data) : P9Reader.countedData (encodeData data) = .ok (data, []) := by
  have hlen : (UInt32.ofNat data.length).toNat = data.length := UInt32.toNat_ofNat_of_lt' h
  have hcount := reads_u32 (UInt32.ofNat data.length)
  rw [hlen] at hcount
  refine Base.Reads.bind_whole hcount ?_
  exact bind_last (f := fun value => do P9Reader.finish; pure value) (reads_bytes data) rfl

theorem reads_dirent {d : NinePDirent} (hpath : d.qid.path.toNat < 2 ^ 53) (hoffset : d.offset.toNat < 2 ^ 53) (hname : StringFits d.name) :
    Base.Reads P9Reader.dirent (encodeQid d.qid ++ putU64 d.offset ++ putU8 d.typ ++ encodeString d.name) (direntOf dropByteOrderMark d) := by
  simp only [List.append_assoc]
  exact (reads_qid hpath).bind ((reads_u64 hoffset).bind ((reads_u8 d.typ).bind ((reads_string hname).map _)))

/-! ## Responses -/

theorem finish_whole {α : Type} {p : Reader String α} {b : Bytes} {a : α} (hp : Base.Reads p b a) (g : α → P9Response) :
    (do let x ← p; P9Reader.finish; return g x : Reader String P9Response) b = .ok (g a, []) := by
  exact bind_last (f := fun x => do P9Reader.finish; return g x) hp rfl

theorem map_whole {α : Type} {p : Reader String α} {b : Bytes} {a : α} (hp : p b = .ok (a, [])) (g : α → P9Response) :
    (do return g (← p) : Reader String P9Response) b = .ok (g a, []) := by
  change (p b >>= fun r => Except.ok (g r.1, r.2)) = _
  rw [hp]
  rfl

theorem readBody_whole {response : NinePResponse} {value : P9Response} (hvalue : responseOf dropByteOrderMark response = some value)
    (hwords : ∀ v ∈ responseWords response, v.toNat < 2 ^ 53) {typ : UInt8} {body : Bytes}
    (henc : encodeResponseBody response = .ok (typ, body)) : readBody typ.toNat body = .ok (value, []) := by
  cases response <;> simp only [encodeResponseBody, except_bind_eq_ok, putString_eq_ok, putCount_eq_ok, putCountedData_eq_ok,
    Except.ok.injEq, Prod.mk.injEq] at henc <;> cases hvalue
  case lerror ecode =>
    obtain ⟨rfl, rfl⟩ := henc
    exact map_whole (reads_u32 ecode).whole .lerror
  case version msize version =>
    obtain ⟨_, ⟨hfits, rfl⟩, rfl, rfl⟩ := henc
    exact Base.Reads.bind_whole (reads_u32 msize) (finish_whole (reads_string hfits) (.version msize.toNat))
  case attach qid =>
    obtain ⟨rfl, rfl⟩ := henc
    exact map_whole (reads_qid (hwords _ List.mem_cons_self)).whole .attach
  case walk qids =>
    obtain ⟨_, ⟨hcount, rfl⟩, rfl, rfl⟩ := henc
    have hlen : (UInt16.ofNat qids.length).toNat = qids.length := UInt16.toNat_ofNat_of_lt' hcount
    have hread := reads_u16 (UInt16.ofNat qids.length)
    rw [hlen] at hread
    have hqids : ∀ q ∈ qids, Base.Reads P9Reader.qid (encodeQid q) (qidOf q) := fun q hq => reads_qid (hwords _ (List.mem_map_of_mem hq))
    exact Base.Reads.bind_whole hread (finish_whole (reads_readMany hqids) .walk)
  case lopen qid iounit =>
    obtain ⟨rfl, rfl⟩ := henc
    exact Base.Reads.bind_whole (reads_qid (hwords _ List.mem_cons_self)) (map_whole (reads_u32 iounit).whole (.lopen (qidOf qid)))
  case lcreate qid iounit =>
    obtain ⟨rfl, rfl⟩ := henc
    exact Base.Reads.bind_whole (reads_qid (hwords _ List.mem_cons_self)) (map_whole (reads_u32 iounit).whole (.lcreate (qidOf qid)))
  case getAttr attr =>
    obtain ⟨rfl, rfl⟩ := henc
    exact map_whole (attr_whole hwords) .getAttr
  case read data =>
    obtain ⟨_, ⟨hfits, rfl⟩, rfl, rfl⟩ := henc
    exact map_whole (countedData_whole hfits) .read
  case write count =>
    obtain ⟨rfl, rfl⟩ := henc
    exact map_whole (reads_u32 count).whole .write
  case clunk =>
    obtain ⟨rfl, rfl⟩ := henc
    rfl
  case mkdir qid =>
    obtain ⟨rfl, rfl⟩ := henc
    exact map_whole (reads_qid (hwords _ List.mem_cons_self)).whole .mkdir
  case readdir data =>
    obtain ⟨_, ⟨hfits, rfl⟩, rfl, rfl⟩ := henc
    exact map_whole (countedData_whole hfits) .readdir
  case unlinkAt =>
    obtain ⟨rfl, rfl⟩ := henc
    rfl

/-- The two writers of a frame, on a body that fits. -/
theorem encodeFrame_eq {typ : UInt8} {tag : UInt16} {body frame : Bytes} (h : encodeFrame typ tag body = .ok frame) :
    frame = encodeP9Frame typ.toNat tag.toNat body := by
  unfold encodeFrame at h
  dsimp only at h
  split at h
  · rename_i hsize
    cases h
    have htyp : leBytes 1 typ.toNat = putU8 typ := by
      simp [leBytes, putU8]
    unfold encodeP9Frame
    rw [putU32, UInt32.toNat_ofNat_of_lt' hsize, htyp, putU16]
  · cases h

theorem cloneFrameBytes_length {frame frame' : Bytes} {label : String} (h : cloneFrameBytes (some frame) label = .ok frame') :
    frame.length < 2 ^ 31 := by
  unfold cloneFrameBytes at h
  dsimp only at h
  cases hshape : validateFrameShape frame label with
  | error e =>
    rw [hshape] at h
    cases h
  | ok u =>
    unfold validateFrameShape at hshape
    split at hshape
    · cases hshape
    · split at hshape
      · cases hshape
      · rename_i hne
        have hlt := leValue_lt (frame.take 4)
        have htake : (frame.take 4).length ≤ 4 := List.length_take_le _ _
        have hword : leValue (frame.take 4) < 2 ^ 32 := by
          calc leValue (frame.take 4) < 256 ^ (frame.take 4).length := hlt
            _ ≤ 256 ^ 4 := Nat.pow_le_pow_right (by decide) htake
            _ = 2 ^ 32 := by norm_num
        rw [not_not] at hne
        unfold signed32 at hne
        split at hne
        · omega
        · omega

theorem readResponse_eq {tag : UInt16} {response : NinePResponse} {value : P9Response} {frame : Bytes}
    (hvalue : responseOf dropByteOrderMark response = some value) (hwords : ∀ v ∈ responseWords response, v.toNat < 2 ^ 53)
    (henc : encodeResponse tag response = .ok frame) (hsmall : frame.length < 2 ^ 31) :
    readResponse frame = .ok (tag.toNat, value) := by
  unfold encodeResponse at henc
  obtain ⟨⟨typ, body⟩, hbody, hframe⟩ := except_bind_eq_ok.mp henc
  cases encodeFrame_eq hframe
  rw [encodeP9Frame_length] at hsmall
  have hdrop : (encodeP9Frame typ.toNat tag.toNat body).drop 7 = body := by
    have hhead : (leBytes 4 (7 + body.length) ++ leBytes 1 typ.toNat ++ leBytes 2 tag.toNat).length = 7 := by simp
    exact List.drop_left' hhead
  have htyp : typ.toNat % 256 = typ.toNat := Nat.mod_eq_of_lt typ.toNat_lt
  have htag : tag.toNat % 65536 = tag.toNat := Nat.mod_eq_of_lt tag.toNat_lt
  unfold readResponse decodeP9Frame
  rw [cloneFrameBytes_encodeP9Frame _ _ _ hsmall, except_ok_bind, except_ok_bind]
  rw [hdrop, frameType_encodeP9Frame, frameTag_encodeP9Frame, htyp, htag]
  dsimp only
  rw [readBody_whole hvalue hwords hbody, except_ok_bind]

/-! ## Texts with a byte order mark -/

/-- The text decoder leaves the text as it is. -/
def Unmarked (s : String) : Prop := s.toList.head? ≠ some byteOrderMark

theorem dropByteOrderMark_eq_self {s : String} : dropByteOrderMark s = s ↔ Unmarked s := by
  unfold dropByteOrderMark Unmarked
  constructor
  · intro h hmark
    rw [if_pos hmark] at h
    have hlen := congrArg (fun t : String => t.toList.length) h
    cases hs : s.toList with
    | nil =>
      rw [hs] at hmark
      cases hmark
    | cons c cs =>
      rw [hs] at hlen
      simp at hlen
  · intro h
    exact if_neg h

theorem responseOf_drop {response : NinePResponse} {value : P9Response} (hvalue : responseOf id response = some value) :
    responseOf dropByteOrderMark response = some value ↔ ∀ text ∈ responseTexts response, Unmarked text := by
  cases response <;> cases hvalue
  case version msize version =>
    constructor
    · intro h text htext
      cases List.mem_singleton.mp htext
      exact dropByteOrderMark_eq_self.mp (P9Response.version.inj (Option.some.inj h)).2
    · intro h
      have hsame : dropByteOrderMark version = version := dropByteOrderMark_eq_self.mpr (h version List.mem_cons_self)
      exact congrArg (fun text => some (P9Response.version msize.toNat text)) hsame
  all_goals exact ⟨fun _ => nofun, fun _ => rfl⟩

theorem readResponse_iff {tag : UInt16} {response : NinePResponse} {value : P9Response} {frame : Bytes}
    (hvalue : responseOf id response = some value) (hwords : ∀ v ∈ responseWords response, v.toNat < 2 ^ 53)
    (henc : encodeResponse tag response = .ok frame) :
    readResponse frame = .ok (tag.toNat, value) ↔ frame.length < 2 ^ 31 ∧ ∀ text ∈ responseTexts response, Unmarked text := by
  obtain ⟨received, hreceived⟩ : ∃ received, responseOf dropByteOrderMark response = some received := by
    cases response <;> first | cases hvalue; done | exact ⟨_, rfl⟩
  rw [← responseOf_drop hvalue]
  constructor
  · intro hread
    have hsmall : frame.length < 2 ^ 31 := by
      unfold readResponse decodeP9Frame at hread
      cases hclone : cloneFrameBytes (some frame) "9P response frame" with
      | ok bytes => exact cloneFrameBytes_length hclone
      | error e =>
        rw [hclone] at hread
        cases hread
    have hsame := readResponse_eq hreceived hwords henc hsmall
    rw [hread] at hsame
    cases hsame
    exact ⟨hsmall, hreceived⟩
  · rintro ⟨hsmall, hvalue'⟩
    exact readResponse_eq hvalue' hwords henc hsmall

/-! ## Directory entries -/

theorem decodeDirents_go {ds : List NinePDirent} {data : Bytes} {n : Nat} (hn : data.length ≤ n)
    (hwords : ∀ d ∈ ds, d.qid.path.toNat < 2 ^ 53 ∧ d.offset.toNat < 2 ^ 53) (henc : encodeDirents ds = .ok data) :
    decodeDirents.go n data = .ok (ds.map (direntOf dropByteOrderMark)) := by
  induction ds generalizing data n with
  | nil =>
    cases henc
    cases n <;> rfl
  | cons d ds ih =>
    obtain ⟨rest, hfits, hrest, rfl⟩ := encodeDirents_cons henc
    obtain ⟨hpath, hoffset⟩ := hwords d List.mem_cons_self
    have hread := reads_dirent hpath hoffset hfits rest
    have hqid : 0 < (encodeQid d.qid).length := by
      simp [encodeQid, putU8]
    cases n with
    | zero =>
      simp only [List.length_append] at hn
      omega
    | succ n =>
      have hrestn : rest.length ≤ n := by
        simp only [List.length_append] at hn
        omega
      have htail := ih hrestn (fun e he => hwords e (List.mem_cons_of_mem d he)) hrest
      generalize hb : (encodeQid d.qid ++ putU64 d.offset ++ putU8 d.typ ++ encodeString d.name) ++ rest = data at hread hn
      cases data with
      | nil =>
        have hlen := congrArg List.length hb
        simp only [List.length_append, List.length_nil] at hlen
        omega
      | cons x data =>
        rw [decodeDirents.go, hread, except_ok_bind]
        · dsimp only
          rw [htail]
          rfl
        · intro hnil
          cases hnil

theorem decodeDirents_iff {ds : List NinePDirent} {data : Bytes}
    (hwords : ∀ d ∈ ds, d.qid.path.toNat < 2 ^ 53 ∧ d.offset.toNat < 2 ^ 53) (henc : encodeDirents ds = .ok data) :
    decodeDirents data = .ok (ds.map (direntOf id)) ↔ ∀ d ∈ ds, Unmarked d.name := by
  unfold decodeDirents
  rw [decodeDirents_go (Nat.le_refl _) hwords henc, Except.ok.injEq, List.map_inj_left]
  refine forall₂_congr fun d _ => ?_
  rw [← dropByteOrderMark_eq_self]
  simp [direntOf]

/-! ## Requests -/

/-- The fields of a request of the kinds that a mount sends. -/
def callOf : NinePRequest → Option P9Call
  | .version msize version => some (.version msize.toNat version)
  | .attach fid afid uname aname nUname => some (.attach fid.toNat afid.toNat uname aname nUname.toNat)
  | .walk fid newfid names => some (.walk fid.toNat newfid.toNat names)
  | .lopen fid flags => some (.lopen fid.toNat flags.toNat)
  | .lcreate fid name flags mode gid => some (.lcreate fid.toNat name flags.toNat mode.toNat gid.toNat)
  | .getAttr fid requestMask => some (.getAttr fid.toNat requestMask.toNat)
  | .read fid offset count => some (.read fid.toNat offset.toNat count.toNat)
  | .write fid offset data => some (.write fid.toNat offset.toNat data)
  | .readdir fid offset count => some (.readdir fid.toNat offset.toNat count.toNat)
  | .mkdir fid name mode gid => some (.mkdir fid.toNat name mode.toNat gid.toNat)
  | .unlinkAt dirfid name flags => some (.unlinkAt dirfid.toNat name flags.toNat)
  | .clunk fid => some (.clunk fid.toNat)
  | _ => none

/-- The request that the bytes of a call stand for: every number is cut to the width of its field. -/
def requestOf : P9Call → NinePRequest
  | .version msize version => .version (.ofNat msize) version
  | .attach fid afid uname aname nUname => .attach (.ofNat fid) (.ofNat afid) uname aname (.ofNat nUname)
  | .walk fid newfid names => .walk (.ofNat fid) (.ofNat newfid) names
  | .lopen fid flags => .lopen (.ofNat fid) (.ofNat flags)
  | .lcreate fid name flags mode gid => .lcreate (.ofNat fid) name (.ofNat flags) (.ofNat mode) (.ofNat gid)
  | .getAttr fid requestMask => .getAttr (.ofNat fid) (.ofNat requestMask)
  | .read fid offset count => .read (.ofNat fid) (.ofNat offset) (.ofNat count)
  | .write fid offset data => .write (.ofNat fid) (.ofNat offset) data
  | .readdir fid offset count => .readdir (.ofNat fid) (.ofNat offset) (.ofNat count)
  | .mkdir fid name mode gid => .mkdir (.ofNat fid) name (.ofNat mode) (.ofNat gid)
  | .unlinkAt dirfid name flags => .unlinkAt (.ofNat dirfid) name (.ofNat flags)
  | .clunk fid => .clunk (.ofNat fid)

def callFids : P9Call → List Nat
  | .version _ _ => []
  | .attach fid afid _ _ _ => [fid, afid]
  | .walk fid newfid _ => [fid, newfid]
  | .lopen fid _ => [fid]
  | .lcreate fid _ _ _ _ => [fid]
  | .getAttr fid _ => [fid]
  | .read fid _ _ => [fid]
  | .write fid _ _ => [fid]
  | .readdir fid _ _ => [fid]
  | .mkdir fid _ _ _ => [fid]
  | .unlinkAt dirfid _ _ => [dirfid]
  | .clunk fid => [fid]

/-- The texts and the data of a call fit their length fields. -/
def CallFits : P9Call → Prop
  | .version _ version => StringFits version
  | .attach _ _ uname aname _ => StringFits uname ∧ StringFits aname
  | .walk _ _ names => names.length < 2 ^ 16 ∧ ∀ name ∈ names, StringFits name
  | .lcreate _ name _ _ _ => StringFits name
  | .write _ _ data => DataFits data
  | .mkdir _ name _ _ => StringFits name
  | .unlinkAt _ name _ => StringFits name
  | _ => True

theorem putU32_ofNat (value : Nat) : putU32 (.ofNat value) = leBytes 4 value := by
  unfold putU32
  rw [UInt32.toNat_ofNat']
  exact leBytes_mod 4 value

theorem putU64_ofNat (value : Nat) : putU64 (.ofNat value) = leBytes 8 value := by
  unfold putU64
  rw [UInt64.toNat_ofNat']
  exact leBytes_mod 8 value

theorem putU16_ofNat (value : Nat) : putU16 (.ofNat value) = leBytes 2 value := by
  unfold putU16
  rw [UInt16.toNat_ofNat']
  exact leBytes_mod 2 value

theorem string_eq {s : String} (h : StringFits s) : P9Writer.string s = .ok (encodeString s) := by
  unfold StringFits at h
  unfold P9Writer.string encodeString
  dsimp only
  rw [if_neg (by omega), u16_eq, putU16_ofNat]

theorem strings_eq {names : List String} (h : ∀ name ∈ names, StringFits name) :
    P9Writer.strings names = .ok (names.flatMap encodeString) := by
  induction names with
  | nil => rfl
  | cons name names ih =>
    rw [P9Writer.strings, string_eq (h name List.mem_cons_self), ih fun n hn => h n (List.mem_cons_of_mem name hn)]
    rfl

theorem countedData_eq (data : Bytes) : P9Writer.countedData data = encodeData data := by
  unfold P9Writer.countedData encodeData
  rw [u32_eq, putU32_ofNat]

/-- The two writers give the same bytes for a call and for its request. -/
theorem buildBody_eq {call : P9Call} (hfits : CallFits call) :
    ∃ typ body, encodeRequestBody (requestOf call) = .ok (typ, body) ∧ buildBody call = .ok (typ.toNat, body) := by
  cases call with
  | version msize version =>
    refine ⟨_, _, by rw [requestOf, encodeRequestBody, putString_of_fits hfits]; rfl, ?_⟩
    rw [buildBody, string_eq hfits, u32_eq, putU32_ofNat]
    rfl
  | attach fid afid uname aname nUname =>
    refine ⟨_, _, by rw [requestOf, encodeRequestBody, putString_of_fits hfits.1, putString_of_fits hfits.2]; rfl, ?_⟩
    rw [buildBody, string_eq hfits.1, string_eq hfits.2]
    simp only [u32_eq, putU32_ofNat]
    rfl
  | walk fid newfid names =>
    have hcount : putCount names.length = .ok (putU16 (.ofNat names.length)) := putCount_eq_ok.mpr ⟨hfits.1, rfl⟩
    refine ⟨_, _, by rw [requestOf, encodeRequestBody, hcount, putStrings_of_fits hfits.2]; rfl, ?_⟩
    rw [buildBody, strings_eq hfits.2]
    simp only [u32_eq, u16_eq, putU32_ofNat, putU16_ofNat]
    rfl
  | lopen fid flags =>
    refine ⟨_, _, rfl, ?_⟩
    rw [buildBody, u32_eq, u32_eq, putU32_ofNat, putU32_ofNat]
    rfl
  | lcreate fid name flags mode gid =>
    refine ⟨_, _, by rw [requestOf, encodeRequestBody, putString_of_fits hfits]; rfl, ?_⟩
    rw [buildBody, string_eq hfits]
    simp only [u32_eq, putU32_ofNat]
    rfl
  | getAttr fid requestMask =>
    refine ⟨_, _, rfl, ?_⟩
    rw [buildBody, u32_eq, u64_eq, putU32_ofNat, putU64_ofNat]
    rfl
  | read fid offset count =>
    refine ⟨_, _, rfl, ?_⟩
    simp only [buildBody, u32_eq, u64_eq, putU32_ofNat, putU64_ofNat]
    rfl
  | write fid offset data =>
    refine ⟨_, _, by rw [requestOf, encodeRequestBody, putCountedData_of_fits hfits]; rfl, ?_⟩
    rw [buildBody, countedData_eq, u32_eq, u64_eq, putU32_ofNat, putU64_ofNat]
    rfl
  | readdir fid offset count =>
    refine ⟨_, _, rfl, ?_⟩
    simp only [buildBody, u32_eq, u64_eq, putU32_ofNat, putU64_ofNat]
    rfl
  | mkdir fid name mode gid =>
    refine ⟨_, _, by rw [requestOf, encodeRequestBody, putString_of_fits hfits]; rfl, ?_⟩
    rw [buildBody, string_eq hfits]
    simp only [u32_eq, putU32_ofNat]
    rfl
  | unlinkAt dirfid name flags =>
    refine ⟨_, _, by rw [requestOf, encodeRequestBody, putString_of_fits hfits]; rfl, ?_⟩
    rw [buildBody, string_eq hfits]
    simp only [u32_eq, putU32_ofNat]
    rfl
  | clunk fid =>
    refine ⟨_, _, rfl, ?_⟩
    rw [buildBody, u32_eq, putU32_ofNat]
    rfl

theorem decodeRequest_buildFrame {call : P9Call} (hfits : CallFits call) (tag : Nat) :
    ∃ built, buildFrame tag call = .ok built ∧ (built.length < 2 ^ 31 → decodeRequest built = .ok (.ofNat tag, requestOf call)) := by
  obtain ⟨typ, body, hrust, hjs⟩ := buildBody_eq hfits
  refine ⟨encodeP9Frame typ.toNat tag body, by rw [buildFrame, hjs]; rfl, fun hsmall => ?_⟩
  rw [encodeP9Frame_length] at hsmall
  apply encodeRequest_eq_ok_iff.mp
  unfold encodeRequest
  rw [hrust, except_ok_bind]
  have htyp : leBytes 1 typ.toNat = putU8 typ := by
    simp [leBytes, putU8]
  unfold encodeFrame encodeP9Frame
  dsimp only
  rw [if_pos (by omega), putU32_ofNat, putU16_ofNat, htyp]

theorem allocTag_lt (n : Nat) : allocTag n < 65536 := by
  suffices h : allocTag n ≤ 0xfffe by omega
  induction n with
  | zero => decide
  | succ n ih =>
    rw [allocTag]
    split <;> omega

/-! ## The names of a path -/

def keptNames (path : String) : List String := (splitSlash path).filter fun part => part ≠ "" ∧ part ≠ "."

theorem keepParts_eq_ok {path : String} {parts kept : List String} (h : keepParts path parts = .ok kept) :
    kept = parts.filter (fun part => part ≠ "" ∧ part ≠ ".") ∧ ".." ∉ parts := by
  induction parts generalizing kept with
  | nil =>
    cases h
    exact ⟨rfl, List.not_mem_nil⟩
  | cons part parts ih =>
    rw [keepParts] at h
    by_cases hskip : part = "" ∨ part = "."
    · rw [if_pos hskip] at h
      obtain ⟨hkept, hdots⟩ := ih h
      have hne : part ≠ ".." := by
        rcases hskip with rfl | rfl <;> decide
      refine ⟨?_, fun hmem => ?_⟩
      · rw [List.filter_cons_of_neg (by simpa [or_iff_not_imp_left] using hskip), hkept]
      · rcases List.mem_cons.mp hmem with heq | hmem
        · exact hne heq.symm
        · exact hdots hmem
    · rw [if_neg hskip] at h
      rw [not_or] at hskip
      by_cases hdots : part = ".."
      · rw [if_pos hdots] at h
        cases h
      · rw [if_neg hdots] at h
        obtain ⟨rest, hrest, h⟩ := except_bind_eq_ok.mp h
        cases h
        obtain ⟨rfl, hnot⟩ := ih hrest
        refine ⟨by rw [List.filter_cons_of_pos (by simpa using hskip)], fun hmem => ?_⟩
        rcases List.mem_cons.mp hmem with heq | hmem
        · exact hdots heq.symm
        · exact hnot hmem

theorem normalizeP9Path_eq_ok {path cleanPath : String} (h : normalizeP9Path path = .ok cleanPath) :
    cleanPath = ofComponents (keptNames path) ∧ ∀ c ∈ keptNames path, ValidName c := by
  unfold normalizeP9Path at h
  by_cases hroot : path = "" ∨ path = "."
  · rw [if_pos hroot] at h
    cases h
    have hnone : keptNames path = [] := by
      rcases hroot with rfl | rfl <;> decide
    rw [hnone]
    exact ⟨rfl, nofun⟩
  · rw [if_neg hroot] at h
    split at h
    · cases h
    · obtain ⟨parts, hparts, h⟩ := except_bind_eq_ok.mp h
      cases h
      obtain ⟨rfl, hdots⟩ := keepParts_eq_ok hparts
      refine ⟨rfl, fun c hc => ?_⟩
      obtain ⟨hmem, hkeep⟩ := List.mem_filter.mp hc
      have hkeep : c ≠ "" ∧ c ≠ "." := of_decide_eq_true hkeep
      exact ⟨hkeep.1, hkeep.2, fun heq => hdots (heq ▸ hmem), slash_not_mem_of_mem_splitSlash hmem⟩

theorem pathNames_eq_components : pathNames = components := rfl

theorem names_of_clean {path cleanPath : String} (h : normalizeP9Path path = .ok cleanPath) :
    components cleanPath = keptNames path ∧ validPath cleanPath = true := by
  obtain ⟨rfl, hvalid⟩ := normalizeP9Path_eq_ok h
  exact ⟨components_ofComponents hvalid, validPath_ofComponents hvalid⟩

/-- A clean path is its own normal form. -/
theorem normalizeP9Path_of_valid {path cleanPath : String} (hvalid : validPath path = true) (h : normalizeP9Path path = .ok cleanPath) :
    cleanPath = path := by
  obtain ⟨rfl, -⟩ := normalizeP9Path_eq_ok h
  have hkept : keptNames path = components path := by
    unfold keptNames components
    by_cases hdot : path = "."
    · rw [if_pos hdot, hdot]
      decide
    · rw [if_neg hdot]
      refine List.filter_eq_self.mpr fun c hc => ?_
      have hname := validName_of_mem_components hvalid (show c ∈ components path by rw [components, if_neg hdot]; exact hc)
      exact decide_eq_true ⟨hname.1, hname.2.1⟩
  rw [hkept, ofComponents_components]

def NamesFit (names : List String) : Prop := names.length < 2 ^ 16 ∧ ∀ name ∈ names, StringFits name

theorem namesFit_of_clean {path cleanPath : String} (hfits : PathFits path) (h : normalizeP9Path path = .ok cleanPath) :
    NamesFit (components cleanPath) := by
  rw [(names_of_clean h).1]
  refine ⟨?_, fun name hname => hfits.2 name (List.mem_filter.mp hname).1⟩
  have hle := List.length_filter_le (fun part => decide (part ≠ "" ∧ part ≠ ".")) (splitSlash path)
  have hlen := hfits.1
  unfold keptNames
  omega

theorem namesFit_of_parent {path cleanPath parent : String} (hfits : PathFits path) (h : normalizeP9Path path = .ok cleanPath)
    (hparent : parentPath cleanPath = .ok parent) : NamesFit (components parent) := by
  have hnames := namesFit_of_clean hfits h
  have hvalid := (names_of_clean h).2
  unfold parentPath at hparent
  obtain ⟨again, hagain, hparent⟩ := except_bind_eq_ok.mp hparent
  cases normalizeP9Path_of_valid hvalid hagain
  have hcore : parent = Star9.parentPath cleanPath := by
    unfold Star9.parentPath
    rw [cleanPath_of_valid hvalid]
    exact (Except.ok.inj hparent).symm
  rw [hcore, components_parentPath hvalid]
  refine ⟨?_, fun name hname => hnames.2 name (List.mem_of_mem_dropLast hname)⟩
  have hlen := hnames.1
  rw [List.length_dropLast]
  omega

theorem fits_of_baseName {path cleanPath name : String} (hfits : PathFits path) (h : normalizeP9Path path = .ok cleanPath)
    (hname : baseName cleanPath = .ok name) : StringFits name := by
  have hnames := namesFit_of_clean hfits h
  have hvalid := (names_of_clean h).2
  unfold baseName at hname
  obtain ⟨again, hagain, hname⟩ := except_bind_eq_ok.mp hname
  cases normalizeP9Path_of_valid hvalid hagain
  cases hname
  by_cases hdot : cleanPath = "."
  · rw [if_pos hdot]
    unfold StringFits
    decide
  · rw [if_neg hdot]
    have hcomponents : components cleanPath = splitSlash cleanPath := if_neg hdot
    refine hnames.2 _ ?_
    rw [hcomponents]
    have hne := splitSlash_ne_nil cleanPath
    have hjoin := joinSlash_splitSlash cleanPath
    unfold rsplitOnceSlash
    dsimp only
    by_cases hone : (splitSlash cleanPath).length ≤ 1
    · obtain ⟨part, hpart⟩ := List.length_eq_one_iff.mp (Nat.le_antisymm hone (List.length_pos_iff.mpr hne))
      rw [hpart] at hjoin
      have hself : part = cleanPath := by
        rw [← hjoin]
        simp [joinSlash]
      rw [if_pos hone, hpart, hself]
      exact List.mem_cons_self
    · rw [if_neg hone, List.getLast?_eq_getLast_of_ne_nil hne]
      exact List.getLast_mem hne

/-! ## Agreement -/

theorem Sends.fits {msize : Nat} {call : P9Call} (h : Sends msize call) : CallFits call := by
  have hchunk : ∀ header, chunkSize msize header ≤ 32768 := by
    intro header
    unfold chunkSize
    omega
  cases h with
  | version =>
    unfold CallFits StringFits
    decide
  | attach =>
    unfold CallFits StringFits
    decide
  | walk n hfits hclean => exact namesFit_of_clean hfits hclean
  | walkParent n hfits hclean hparent => exact namesFit_of_parent hfits hclean hparent
  | lopen n => trivial
  | lcreate n hfits hclean hname => exact fits_of_baseName hfits hclean hname
  | getAttr n => trivial
  | read n hoffset => trivial
  | write n hoffset hlen =>
    have h := hchunk 23
    change _ < 2 ^ 32
    omega
  | readdir n hoffset => trivial
  | mkdir n hfits hclean hname => exact fits_of_baseName hfits hclean hname
  | unlinkAt n hfits hclean hname isDir => exact fits_of_baseName hfits hclean hname
  | clunk n => trivial

/-- Of the numbers in a call only a fid may be too wide for its field. -/
theorem Sends.carried {msize : Nat} {call : P9Call} (h : Sends msize call) :
    callOf (requestOf call) = some call ↔ ∀ fid ∈ callFids call, fid < 2 ^ 32 := by
  have hchunk : chunkSize msize 11 < 4294967296 := by
    unfold chunkSize
    omega
  cases h with
  | read n hoffset | readdir n hoffset =>
    simp only [callOf, requestOf, callFids, UInt32.toNat_ofNat', UInt64.toNat_ofNat', Option.some.injEq, P9Call.read.injEq,
      P9Call.readdir.injEq, List.mem_singleton, forall_eq]
    omega
  | write n hoffset hlen =>
    simp only [callOf, requestOf, callFids, UInt32.toNat_ofNat', UInt64.toNat_ofNat', Option.some.injEq, P9Call.write.injEq,
      and_true, List.mem_singleton, forall_eq]
    omega
  | unlinkAt n hfits hclean hname isDir => cases isDir <;> simp [callOf, requestOf, callFids]
  | _ => simp [callOf, requestOf, callFids]

/-- The protocol crate decodes the frame to the tag and the fields of the call. -/
def Received (frame : Bytes) (tag : Nat) (call : P9Call) : Prop :=
  ∃ tag' request, decodeRequest frame = .ok (tag', request) ∧ tag'.toNat = tag ∧ callOf request = some call

theorem received_iff {msize n : Nat} {call : P9Call} (h : Sends msize call) :
    ∃ frame, buildFrame (allocTag n) call = .ok frame ∧
      ∀ sent, cloneFrameBytes (some frame) "9P request frame" = .ok sent →
        (Received sent (allocTag n) call ↔ ∀ fid ∈ callFids call, fid < 2 ^ 32) := by
  obtain ⟨frame, hbuild, hdecode⟩ := decodeRequest_buildFrame h.fits (allocTag n)
  refine ⟨frame, hbuild, fun sent hsent => ?_⟩
  have hsmall := cloneFrameBytes_length hsent
  cases cloneFrameBytes_eq_ok hsent
  have htag : (UInt16.ofNat (allocTag n)).toNat = allocTag n := UInt16.toNat_ofNat_of_lt' (allocTag_lt n)
  rw [← h.carried]
  constructor
  · rintro ⟨tag', request, hrequest, -, hcall⟩
    rw [hdecode hsmall] at hrequest
    cases hrequest
    exact hcall
  · intro hcall
    exact ⟨_, _, hdecode hsmall, htag, hcall⟩

/-- The codecs of the browser mount and of the protocol crate agree on the requests of a mount, on the responses it
waits for and on directory entries, up to fids of more than 32 bits, frames from 2 GiB on, and texts that begin with
a byte order mark. -/
theorem codecs_agree (msize n : Nat) (call : P9Call) (tag : UInt16) (response : NinePResponse) (value : P9Response)
    (frame : Bytes) (dirents : List NinePDirent) (data : Bytes) :
    (Sends msize call → ∃ request, buildFrame (allocTag n) call = .ok request ∧
      ∀ sent, cloneFrameBytes (some request) "9P request frame" = .ok sent →
        (Received sent (allocTag n) call ↔ ∀ fid ∈ callFids call, fid < 2 ^ 32)) ∧
    (responseOf id response = some value → (∀ v ∈ responseWords response, v.toNat < 2 ^ 53) →
      encodeResponse tag response = .ok frame →
        (readResponse frame = .ok (tag.toNat, value) ↔
          frame.length < 2 ^ 31 ∧ ∀ text ∈ responseTexts response, Unmarked text)) ∧
    ((∀ d ∈ dirents, d.qid.path.toNat < 2 ^ 53 ∧ d.offset.toNat < 2 ^ 53) → encodeDirents dirents = .ok data →
      (decodeDirents data = .ok (dirents.map (direntOf id)) ↔ ∀ d ∈ dirents, Unmarked d.name)) :=
  ⟨fun h => received_iff h, fun hvalue hwords henc => readResponse_iff hvalue hwords henc,
    fun hwords henc => decodeDirents_iff hwords henc⟩

def plainDirent : NinePDirent := { qid := ⟨0x80, 0, 7⟩, offset := 1, typ := 4, name := "café" }

theorem codecs_agree_plainDirent : ∃ request frame data,
    (buildFrame 1 (.clunk 2) = .ok request ∧ Received request 1 (.clunk 2)) ∧
    (encodeResponse 3 (.lopen ⟨0x80, 0, 7⟩ 0) = .ok frame ∧ readResponse frame = .ok (3, .lopen ⟨0x80, 0, 7⟩ 0)) ∧
    encodeDirents [plainDirent] = .ok data ∧
      decodeDirents data = .ok [{ qid := ⟨0x80, 0, 7⟩, offset := 1, type := 4, name := "café" }] := by
  obtain ⟨hcall, hresponse, hdirents⟩ := codecs_agree 8192 0 (.clunk (allocFid 0)) 3 (.lopen ⟨0x80, 0, 7⟩ 0)
    (.lopen ⟨0x80, 0, 7⟩ 0) _ [plainDirent] _
  obtain ⟨request, hbuild, hsent⟩ := hcall (.clunk 0)
  cases hbuild
  refine ⟨_, _, _, ⟨rfl, (hsent _ rfl).mpr (by decide)⟩, ⟨rfl, (hresponse rfl ?_ rfl).mpr ⟨?_, ?_⟩⟩,
    rfl, (hdirents ?_ rfl).mpr ?_⟩
  · intro v hv
    cases List.mem_singleton.mp hv
    decide
  · decide +kernel
  · exact List.forall_mem_nil _
  · intro d hd
    cases List.mem_singleton.mp hd
    decide
  · intro d hd
    cases List.mem_singleton.mp hd
    unfold Unmarked
    decide

/-- A file whose name begins with a byte order mark is listed without it. -/
theorem decodeDirents_marked : ¬∀ (dirents : List NinePDirent) (data : Bytes),
    (∀ d ∈ dirents, d.qid.path.toNat < 2 ^ 53 ∧ d.offset.toNat < 2 ^ 53) → encodeDirents dirents = .ok data →
      decodeDirents data = .ok (dirents.map (direntOf id)) := by
  intro hall
  have hlisted := hall [{ qid := ⟨0, 0, 7⟩, offset := 1, typ := 8, name := "\uFEFFa" }] _ (by decide) rfl
  exact absurd hlisted (by decide +kernel)

end P9Mount
end Star9
