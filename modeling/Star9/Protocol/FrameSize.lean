import Star9.Fs.MemFs
import Star9.Protocol.Codec
import Star9.Protocol.Server

/-!
# The size of a response frame

A stream accepts frames from 7 to 65536 bytes, and a session frames up to the
negotiated message size. The size of a reply is a function of the message, so
whether a request can be answered is a question about the reply alone.
-/
namespace Star9
open Base Prog

/-! ## Frames on a stream -/

def validateFrameSize (size : Nat) : Bool := 7 ≤ size && size ≤ maxStreamFrameSize

def encodedFrameSize (frame : Bytes) : Except Error Nat :=
  if frame.length < 4 then .error (.kind .invalid) else .ok (leValue (frame.take 4))

/-- The bytes that are put on the stream for a frame. -/
def writeFrame (frame : Bytes) : Except Error Bytes := do
  let size ← encodedFrameSize frame
  if !validateFrameSize size || size ≠ frame.length then .error (.kind .invalid) else .ok frame

/-- One frame off the front of a stream; an empty stream has ended. -/
def readFrame (input : Bytes) : Except Error (Option (Bytes × Bytes)) :=
  if input = [] then .ok none
  else if input.length < 4 then .error (.kind .unexpectedEof)
  else
    let size := leValue (input.take 4)
    if !validateFrameSize size then .error (.kind .invalid)
    else if input.length < size then .error (.kind .unexpectedEof)
    else .ok (some (input.take size, input.drop size))

/-! ## Sizes of responses -/

def responseSize : NinePResponse → Nat
  | .lerror _ => 11
  | .version _ v => 13 + (utf8Bytes v).length
  | .attach _ => 20
  | .walk qids => 9 + 13 * qids.length
  | .lopen _ _ => 24
  | .lcreate _ _ => 24
  | .getAttr _ => 160
  | .xattrWalk _ => 15
  | .read data => 11 + data.length
  | .write _ => 11
  | .mkdir _ => 20
  | .readdir data => 11 + data.length
  | .symlink _ => 20
  | .readlink target => 9 + (utf8Bytes target).length
  | .setAttr | .xattrCreate | .clunk | .remove | .link | .renameAt | .unlinkAt | .fsync | .flush => 7

@[simp] theorem putU8_length (v : UInt8) : (putU8 v).length = 1 := rfl

@[simp] theorem putU16_length (v : UInt16) : (putU16 v).length = 2 := leBytes_length 2 _

@[simp] theorem putU32_length (v : UInt32) : (putU32 v).length = 4 := leBytes_length 4 _

@[simp] theorem putU64_length (v : UInt64) : (putU64 v).length = 8 := leBytes_length 8 _

@[simp] theorem encodeQid_length (q : Qid) : (encodeQid q).length = 13 := by simp [encodeQid]

theorem encodeAttr_length (a : NinePAttr) : (encodeAttr a).length = 153 := by
  unfold encodeAttr
  simp only [List.length_append, putU32_length, putU64_length, encodeQid_length]

theorem flatMap_encodeQid_length (qids : List Qid) : (qids.flatMap encodeQid).length = 13 * qids.length := by
  induction qids with
  | nil => rfl
  | cons q qids ih =>
    rw [List.flatMap_cons, List.length_append, ih, encodeQid_length, List.length_cons]
    omega

theorem encodeResponseBody_length {r : NinePResponse} {typ : UInt8} {body : Bytes}
    (h : encodeResponseBody r = .ok (typ, body)) : 7 + body.length = responseSize r := by
  revert h
  cases r <;> simp only [encodeResponseBody, except_bind_eq_ok, putString_eq_ok, putCount_eq_ok,
    putCountedData_eq_ok, Except.ok.injEq, Prod.mk.injEq]
  case walk qids =>
    rintro ⟨_, ⟨-, rfl⟩, -, rfl⟩
    rw [List.length_append, flatMap_encodeQid_length, putU16_length, responseSize]
    omega
  case getAttr attr =>
    rintro ⟨-, h⟩
    rw [← h, encodeAttr_length]
    rfl
  case version | readlink =>
    rintro ⟨_, ⟨-, rfl⟩, -, rfl⟩
    simp only [encodeString, List.length_append, putU16_length, putU32_length, responseSize]
    omega
  case read | readdir =>
    rintro ⟨_, ⟨-, rfl⟩, -, rfl⟩
    simp only [encodeData, List.length_append, putU32_length, responseSize]
    omega
  all_goals
    rintro ⟨-, rfl⟩
    simp [responseSize]

theorem encodeResponseBody_of_small {r : NinePResponse} (h : responseSize r ≤ maxStreamFrameSize) :
    ∃ typ body, encodeResponseBody r = .ok (typ, body) := by
  have hmax : maxStreamFrameSize = 65536 := rfl
  cases r with
  | version msize v =>
    have hfits : StringFits v := by
      simp only [responseSize] at h
      rw [StringFits]
      omega
    exact ⟨_, _, by rw [encodeResponseBody, putString_of_fits hfits]; rfl⟩
  | readlink target =>
    have hfits : StringFits target := by
      simp only [responseSize] at h
      rw [StringFits]
      omega
    exact ⟨_, _, by rw [encodeResponseBody, putString_of_fits hfits]; rfl⟩
  | walk qids =>
    simp only [responseSize] at h
    have hcount : putCount qids.length = .ok (putU16 (UInt16.ofNat qids.length)) :=
      putCount_eq_ok.mpr ⟨by omega, rfl⟩
    exact ⟨_, _, by rw [encodeResponseBody, hcount]; rfl⟩
  | read data =>
    have hfits : DataFits data := by
      simp only [responseSize] at h
      rw [DataFits]
      omega
    exact ⟨_, _, by rw [encodeResponseBody, putCountedData_of_fits hfits]; rfl⟩
  | readdir data =>
    have hfits : DataFits data := by
      simp only [responseSize] at h
      rw [DataFits]
      omega
    exact ⟨_, _, by rw [encodeResponseBody, putCountedData_of_fits hfits]; rfl⟩
  | _ => exact ⟨_, _, rfl⟩

/-- The encoded frame of a response has the size of the response. -/
theorem encodeResponse_length {tag : UInt16} {r : NinePResponse} {frame : Bytes}
    (h : encodeResponse tag r = .ok frame) : frame.length = responseSize r := by
  simp only [encodeResponse, except_bind_eq_ok, Prod.exists] at h
  obtain ⟨typ, body, hbody, hframe⟩ := h
  rw [encodeFrame_eq_ok, decodeFrame_eq_ok] at hframe
  rw [hframe.2, ← encodeResponseBody_length hbody]
  simp only [List.length_append, putU32_length, putU8_length, putU16_length]

theorem responseSize_pos (r : NinePResponse) : 7 ≤ responseSize r := by
  cases r <;> simp only [responseSize] <;> omega

theorem encodeResponse_of_small {tag : UInt16} {r : NinePResponse}
    (h : responseSize r ≤ maxStreamFrameSize) : ∃ frame, encodeResponse tag r = .ok frame := by
  obtain ⟨typ, body, hbody⟩ := encodeResponseBody_of_small h
  have hlen := encodeResponseBody_length hbody
  have hmax : maxStreamFrameSize = 65536 := rfl
  have hsize : 7 + body.length < 2 ^ 32 := by omega
  exact ⟨putU32 (UInt32.ofNat (7 + body.length)) ++ putU8 typ ++ putU16 tag ++ body, by
    simp only [encodeResponse, hbody, except_ok_bind, encodeFrame, if_pos hsize]⟩

/-- A stream takes the encoded frames up to its limit, unchanged. -/
theorem writeFrame_encodeResponse {tag : UInt16} {r : NinePResponse} {frame : Bytes}
    (h : encodeResponse tag r = .ok frame) :
    writeFrame frame = .ok frame ↔ responseSize r ≤ maxStreamFrameSize := by
  have hlen := encodeResponse_length h
  have hword : frame.length < 2 ^ 32 ∧ leValue (frame.take 4) = frame.length := by
    simp only [encodeResponse, except_bind_eq_ok, Prod.exists] at h
    obtain ⟨typ, body, -, hframe⟩ := h
    rw [encodeFrame_eq_ok, decodeFrame_eq_ok] at hframe
    have htotal : frame.length = 7 + body.length := by
      rw [hframe.2]
      simp only [List.length_append, putU32_length, putU8_length, putU16_length]
    refine ⟨htotal ▸ hframe.1, ?_⟩
    rw [htotal, hframe.2, List.append_assoc, List.append_assoc, List.take_left' (putU32_length _),
      putU32, leValue_leBytes, UInt32.toNat_ofNat_of_lt' hframe.1]
    exact Nat.mod_eq_of_lt (by simpa using hframe.1)
  have hpos := responseSize_pos r
  have hfour : ¬ frame.length < 4 := by omega
  simp only [writeFrame, encodedFrameSize, if_neg hfour, hword.2, except_ok_bind, validateFrameSize,
    ← hlen] at hpos ⊢
  simp [hpos]

/-! ## What a request calls for -/

namespace NinePServer
variable {σ η : Type} (fs : FileSystem σ η)

/-- The largest reply the peer takes: a stream frame, and after the version
exchange a message of the negotiated size. -/
def replyLimit (s : ServerState σ η) : NinePRequest → Nat
  | .version _ _ => maxStreamFrameSize
  | _ => min s.msize.toNat maxStreamFrameSize

/-- The request is answered with a frame that the stream takes and that keeps to
the limit. -/
def Deliverable (request : NinePRequest) (frame : Bytes) (s : ServerState σ η) : Prop :=
  ∃ reply, (handleFrame fs frame s).1 = .ok reply ∧ writeFrame reply = .ok reply ∧
    reply.length ≤ replyLimit s request

/-- How many names of a walk are there. -/
def walkCount : String → List String → σ → Nat
  | _, [], _ => 0
  | path, name :: names, fsys =>
    match qidFor fs (walkJoin path name) fsys with
    | (.ok _, fsys') => walkCount (walkJoin path name) names fsys' + 1
    | _ => 0

/-- The bytes of the entries that fit the count, on top of those in use. -/
def packedSize (count : Nat) : Nat → List DirEntry → Nat
  | used, [] => used
  | used, entry :: entries =>
    let size := 24 + (utf8Bytes entry.name).length
    if count < used + size then used else packedSize count (used + size) entries

def listedSize (path : String) (offset : UInt64) (count : UInt32) (fsys : σ) : Nat :=
  match (fs.readDir FsContext.new path fsys).1 with
  | .ok entries => packedSize count.toNat 0 (entries.drop offset.toNat)
  | _ => 0

/-- The bytes that the handle of a fid holds at an offset, up to a count. -/
def readableSize (handle : FidHandle η) (offset : UInt64) (count : UInt32) (fsys : σ) : Nat :=
  match handle with
  | .file f =>
    match (fs.file.readAt count.toNat offset (f, fsys)).1 with
    | .ok data => min count.toNat data.length
    | _ => 0
  | .xattrRead data => min count.toNat (data.length - offset.toNat)
  | _ => 0

def targetSize (path : String) (fsys : σ) : Nat :=
  match (fs.readlink path fsys).1 with
  | .ok target => (utf8Bytes target).length
  | _ => 0

/-- The size of the answer to a request that is served, from the tables and the
backing file system as they are before it. -/
def replySize (s : ServerState σ η) : NinePRequest → Nat
  | .version _ v => if "9P2000".toList <+: v.toList then 21 else 20
  | .attach .. | .mkdir .. | .symlink .. => 20
  | .walk fid _ names =>
    match s.fids fid with
    | some st => 9 + 13 * walkCount fs st.path names s.fsys
    | none => 9
  | .lopen .. | .lcreate .. => 24
  | .getAttr .. => 160
  | .xattrWalk .. => 15
  | .read fid offset count =>
    match s.fids fid with
    | some st => 11 + readableSize fs st.handle offset count s.fsys
    | none => 11
  | .write .. => 11
  | .readdir fid offset count =>
    match s.fids fid with
    | some st => 11 + listedSize fs st.path offset count s.fsys
    | none => 11
  | .readlink fid =>
    match s.fids fid with
    | some st => 9 + targetSize fs st.path s.fsys
    | none => 9
  | .setAttr .. | .xattrCreate .. | .clunk .. | .remove .. | .link .. | .renameAt .. | .unlinkAt .. | .fsync ..
  | .flush .. => 7

/-- The handler comes back, and the limit has room for an error number if the
request is refused and for what it calls for if it is served. -/
def ReplyFits (request : NinePRequest) (s : ServerState σ η) : Prop :=
  match (handle fs request s).1 with
  | .ok _ => replySize fs s request ≤ replyLimit s request
  | .err _ => 11 ≤ replyLimit s request
  | .abort => False

/-! ## The answers have that size -/

theorem getFid_eq_ok {fid : UInt32} {s s' : ServerState σ η} {st : FidState η} :
    getFid fid s = (.ok st, s') ↔ s.fids fid = some st ∧ s' = s := by
  rw [getFid, get_bind]
  cases h : s.fids fid with
  | none => simp
  | some st' => simp [eq_comm]

theorem fidPath_eq_ok {fid : UInt32} {s s' : ServerState σ η} {path : String} :
    fidPath fid s = (.ok path, s') ↔ ∃ st, s.fids fid = some st ∧ st.path = path ∧ s' = s := by
  rw [fidPath, bind_eq_ok]
  constructor
  · rintro ⟨st, s₁, hst, hpure⟩
    obtain ⟨hfid, rfl⟩ := getFid_eq_ok.mp hst
    cases hpure
    exact ⟨st, hfid, rfl, rfl⟩
  · rintro ⟨st, hfid, rfl, rfl⟩
    exact ⟨st, s', getFid_eq_ok.mpr ⟨hfid, rfl⟩, rfl⟩

theorem onFs_eq_ok {α : Type} {p : Prog σ Error α} {s s' : ServerState σ η} {a : α} :
    onFs p s = (.ok a, s') ↔ (p s.fsys).1 = .ok a ∧ s' = { s with fsys := (p s.fsys).2 } := by
  rw [onFs, zoom_apply, Prod.mk.injEq]
  exact and_congr_right fun _ => eq_comm

theorem onFs_attempt {α : Type} (p : Prog σ Error α) : 
    attempt (onFs p : Prog (ServerState σ η) Error α) = onFs (attempt p) := by
  funext s
  simp only [attempt, onFs, zoom_apply]
  rcases p s.fsys with ⟨a | e | _, fsys⟩ <;> rfl

theorem walkLoop_length {names : List String} {path path' : String} {qids qids' : List Qid}
    {s : ServerState σ η} (h : (walkLoop fs path qids names s).1 = .ok (path', qids')) :
    qids'.length = qids.length + walkCount fs path names s.fsys := by
  induction names generalizing path qids s with
  | nil =>
    cases h
    rfl
  | cons name names ih =>
    rw [walkLoop, branch_apply] at h
    split at h
    · cases h
    rw [bind_fst_eq_ok] at h
    obtain ⟨result, s₁, hqid, h⟩ := h
    rw [onFs_attempt, onFs_eq_ok] at hqid
    obtain ⟨hqid, rfl⟩ := hqid
    rw [walkCount]
    rcases hq : qidFor fs (walkJoin path name) s.fsys with ⟨qid | err | _, fsys'⟩
    · rw [attempt_ok hq] at hqid h
      cases hqid
      simp only [ih h, List.length_append, List.length_singleton]
      omega
    · rw [attempt_err hq] at hqid
      cases hqid
      simp only [branch_apply] at h
      split at h
      · cases h
      · cases h
        rfl
    · rw [attempt_abort hq] at hqid
      cases hqid

theorem encodeDirents_one_length {dirent : NinePDirent} {data : Bytes}
    (h : encodeDirents [dirent] = .ok data) : data.length = 24 + (utf8Bytes dirent.name).length := by
  simp only [encodeDirents, except_bind_eq_ok, putString_eq_ok, except_ok_bind, Except.ok.injEq] at h
  obtain ⟨name, ⟨-, rfl⟩, rfl⟩ := h
  simp only [encodeString, List.length_append, List.append_nil, encodeQid_length, putU64_length,
    putU8_length, putU16_length]
  omega

theorem readdirLoop_length {path : String} {offset count index : Nat} {entries : List DirEntry}
    {data out : Bytes} {s : ServerState σ η}
    (h : (readdirLoop fs path offset count index entries data s).1 = .ok out) :
    out.length = packedSize count data.length (entries.drop (offset - index)) := by
  induction entries generalizing index data s with
  | nil =>
    cases h
    rw [List.drop_nil, packedSize]
  | cons entry entries ih =>
    rw [readdirLoop, branch_apply] at h
    split at h
    case isTrue hskip =>
      have hdrop : offset - index = offset - (index + 1) + 1 := by omega
      rw [ih h, hdrop, List.drop_succ_cons]
    case isFalse hskip =>
      have hdrop : offset - index = 0 ∧ offset - (index + 1) = 0 := by omega
      rw [hdrop.1, List.drop_zero, packedSize]
      rw [bind_fst_eq_ok] at h
      obtain ⟨qid, s₁, -, h⟩ := h
      rw [bind_fst_eq_ok] at h
      obtain ⟨encoded, s₂, hencoded, h⟩ := h
      have hlen : encoded.length = 24 + (utf8Bytes entry.name).length :=
        encodeDirents_one_length (ofExcept_eq_ok.mp hencoded).1
      rw [branch_apply, hlen] at h
      by_cases hfull : count < data.length + (24 + (utf8Bytes entry.name).length)
      · rw [if_pos hfull] at h ⊢
        cases h
        rfl
      · rw [if_neg hfull] at h ⊢
        rw [ih h, hdrop.2, List.drop_zero, List.length_append, hlen]

theorem walk_size {fid newfid : UInt32} {names : List String} {s : ServerState σ η} {r : NinePResponse}
    (h : (walk fs fid newfid names s).1 = .ok r) :
    responseSize r = replySize fs s (.walk fid newfid names) := by
  rw [walk, bind_fst_eq_ok] at h
  obtain ⟨base, s₁, hbase, h⟩ := h
  rw [bind_fst_eq_ok] at h
  obtain ⟨⟨path, qids⟩, s₂, hloop, h⟩ := h
  cases h
  rw [walkBase, get_bind, branch_apply] at hbase
  split at hbase
  · cases hbase
  obtain ⟨st, hfid, rfl, rfl⟩ := fidPath_eq_ok.mp hbase
  have hlen := walkLoop_length fs (congrArg Prod.fst hloop)
  simp only [replySize, hfid, responseSize]
  rw [hlen, List.length_nil, Nat.zero_add]

theorem read_size {fid : UInt32} {offset : UInt64} {count : UInt32} {s : ServerState σ η}
    {r : NinePResponse} (h : (read fs fid offset count s).1 = .ok r) :
    responseSize r = replySize fs s (.read fid offset count) := by
  rw [read, bind_fst_eq_ok] at h
  obtain ⟨st, s₁, hst, h⟩ := h
  obtain ⟨hfid, rfl⟩ := getFid_eq_ok.mp hst
  simp only [replySize, hfid, readableSize]
  cases hhandle : st.handle with
  | none =>
    simp only [hhandle] at h
    cases h
  | xattrWrite write =>
    simp only [hhandle] at h
    cases h
  | xattrRead data =>
    simp only [hhandle] at h
    cases h
    rw [responseSize, List.length_take, List.length_drop]
  | file f =>
    simp only [hhandle] at h
    rw [bind_fst_eq_ok] at h
    obtain ⟨data, s₂, hread, h⟩ := h
    cases h
    have hdata : (fs.file.readAt count.toNat offset (f, s₁.fsys)).1 = .ok data := congrArg Prod.fst hread
    simp only [hdata, responseSize, List.length_take]

theorem readdir_size {fid : UInt32} {offset : UInt64} {count : UInt32} {s : ServerState σ η}
    {r : NinePResponse} (h : (readdir fs fid offset count s).1 = .ok r) :
    responseSize r = replySize fs s (.readdir fid offset count) := by
  rw [readdir, bind_fst_eq_ok] at h
  obtain ⟨path, s₁, hpath, h⟩ := h
  obtain ⟨st, hfid, rfl, rfl⟩ := fidPath_eq_ok.mp hpath
  rw [bind_fst_eq_ok] at h
  obtain ⟨entries, s₂, hentries, h⟩ := h
  rw [bind_fst_eq_ok] at h
  obtain ⟨data, s₃, hloop, h⟩ := h
  cases h
  have hlen := readdirLoop_length fs (congrArg Prod.fst hloop)
  simp only [replySize, hfid, responseSize, listedSize, (onFs_eq_ok.mp hentries).1]
  rw [hlen, List.length_nil, Nat.sub_zero]

theorem readlink_size {fid : UInt32} {s : ServerState σ η} {r : NinePResponse}
    (h : (readlink fs fid s).1 = .ok r) : responseSize r = replySize fs s (.readlink fid) := by
  rw [readlink, bind_fst_eq_ok] at h
  obtain ⟨path, s₁, hpath, h⟩ := h
  obtain ⟨st, hfid, rfl, rfl⟩ := fidPath_eq_ok.mp hpath
  rw [bind_fst_eq_ok] at h
  obtain ⟨target, s₂, htarget, h⟩ := h
  cases h
  simp only [replySize, hfid, responseSize, targetSize, (onFs_eq_ok.mp htarget).1]

/-! The remaining handlers end in one kind of answer, which has one size. -/

theorem attach_size (fid : UInt32) : Returns (responseSize · = 20) (attach fs fid) :=
  returns_bind fun _ => returns_bind fun _ => returns_pure rfl

theorem lopen_size (fid flags : UInt32) : Returns (responseSize · = 24) (lopen fs fid flags) :=
  returns_bind fun _ => returns_bind fun _ => returns_bind fun _ => returns_bind fun _ =>
    returns_bind fun _ => returns_pure rfl

theorem lcreate_size (fid : UInt32) (name : String) (flags mode : UInt32) :
    Returns (responseSize · = 24) (lcreate fs fid name flags mode) :=
  returns_bind fun _ => returns_bind fun _ => returns_bind fun _ => returns_bind fun _ =>
    returns_bind fun _ => returns_bind fun _ => returns_pure rfl

theorem getattr_size (fid : UInt32) (mask : UInt64) : Returns (responseSize · = 160) (getattr fs fid mask) :=
  returns_bind fun _ => returns_bind fun _ => returns_bind fun _ => returns_pure rfl

theorem setattr_size (fid : UInt32) (attr : SetAttr) :
    Returns (responseSize · = 7) (setattr fs fid attr) :=
  returns_bind fun _ => returns_bind fun _ => returns_bind fun _ => returns_bind fun _ =>
    returns_bind fun _ => returns_pure rfl

theorem xattrwalk_size (fid newfid : UInt32) (name : String) :
    Returns (responseSize · = 15) (xattrwalk fs fid newfid name) :=
  returns_bind fun _ => returns_bind fun _ => returns_bind fun _ => returns_pure rfl

theorem xattrcreate_size (fid : UInt32) (name : String) (size : UInt64) (flags : UInt32) :
    Returns (responseSize · = 7) (xattrcreate fid name size flags : Prog (ServerState σ η) _ _) := by
  refine returns_ite (returns_throw _) (returns_bind fun st => ?_)
  split
  · exact returns_abort
  · exact returns_bind fun _ => returns_pure rfl

theorem write_size (fid : UInt32) (offset : UInt64) (data : Bytes) :
    Returns (responseSize · = 11) (write fs fid offset data) :=
  returns_bind fun _ => returns_bind fun _ => returns_ite (returns_pure rfl) (returns_throw _)

theorem mkdir_size (fid : UInt32) (name : String) (mode : UInt32) :
    Returns (responseSize · = 20) (mkdir fs fid name mode) :=
  returns_bind fun _ => returns_bind fun _ => returns_bind fun _ => returns_bind fun _ => returns_pure rfl

theorem symlink_size (fid : UInt32) (name target : String) :
    Returns (responseSize · = 20) (symlink fs fid name target) :=
  returns_bind fun _ => returns_bind fun _ => returns_bind fun _ => returns_bind fun _ => returns_pure rfl

theorem link_size (fid newdirfid : UInt32) (name : String) :
    Returns (responseSize · = 7) (link fs fid newdirfid name) :=
  returns_bind fun _ => returns_bind fun _ => returns_bind fun _ => returns_bind fun _ => returns_pure rfl

theorem renameAt_size (olddirfid : UInt32) (oldname : String) (newdirfid : UInt32) (newname : String) :
    Returns (responseSize · = 7) (renameAt fs olddirfid oldname newdirfid newname) :=
  returns_bind fun _ => returns_bind fun _ => returns_bind fun _ => returns_bind fun _ =>
    returns_bind fun _ => returns_pure rfl

theorem remove_size (fid : UInt32) : Returns (responseSize · = 7) (remove fs fid) :=
  returns_bind fun _ => returns_bind fun _ => returns_ite (returns_throw _)
    (returns_bind fun _ => returns_bind fun _ => returns_pure rfl)

theorem unlinkAt_size (dirfid : UInt32) (name : String) (flags : UInt32) :
    Returns (responseSize · = 7) (unlinkAt fs dirfid name flags) := by
  refine returns_bind fun dir => returns_bind fun path => returns_bind fun metadata =>
    returns_bind fun refused => ?_
  split
  · exact returns_throw _
  · exact returns_bind fun _ => returns_pure rfl

theorem fsync_size (fid : UInt32) : Returns (responseSize · = 7) (fsync fs fid) := by
  refine returns_bind fun st => ?_
  cases st.handle with
  | file f =>
    refine returns_bind fun result => ?_
    split
    · exact returns_pure rfl
    · exact returns_pure rfl
    · exact returns_throw _
  | xattrWrite write => exact returns_bind fun _ => returns_bind fun _ => returns_pure rfl
  | none => exact returns_pure rfl
  | xattrRead data => exact returns_pure rfl

theorem handle_size {request : NinePRequest} {s : ServerState σ η} {r : NinePResponse}
    (h : (handle fs request s).1 = .ok r) : responseSize r = replySize fs s request := by
  cases request with
  | version msize v =>
    cases h
    rw [responseSize, replySize]
    split <;> rfl
  | attach fid => exact attach_size fs fid s r h
  | walk fid newfid names => exact walk_size fs h
  | lopen fid flags => exact lopen_size fs fid flags s r h
  | lcreate fid name flags mode gid => exact lcreate_size fs fid name flags mode s r h
  | getAttr fid mask => exact getattr_size fs fid mask s r h
  | setAttr fid attr => exact setattr_size fs fid attr s r h
  | xattrWalk fid newfid name => exact xattrwalk_size fs fid newfid name s r h
  | xattrCreate fid name size flags => exact xattrcreate_size fid name size flags s r h
  | read fid offset count => exact read_size fs h
  | write fid offset data => exact write_size fs fid offset data s r h
  | clunk fid =>
    obtain ⟨_, _, _, h⟩ := bind_fst_eq_ok.mp h
    cases h
    rfl
  | remove fid => exact remove_size fs fid s r h
  | mkdir fid name mode gid => exact mkdir_size fs fid name mode s r h
  | link fid newdirfid name => exact link_size fs fid newdirfid name s r h
  | readdir fid offset count => exact readdir_size fs h
  | renameAt olddirfid oldname newdirfid newname =>
    exact renameAt_size fs olddirfid oldname newdirfid newname s r h
  | unlinkAt dirfid name flags => exact unlinkAt_size fs dirfid name flags s r h
  | symlink fid name target gid => exact symlink_size fs fid name target s r h
  | readlink fid => exact readlink_size fs h
  | fsync fid => exact fsync_size fs fid s r h
  | flush oldtag =>
    cases h
    rfl

/-! ## When a request is answered -/

theorem respond_fst (request : NinePRequest) (s : ServerState σ η) :
    (respond fs request s).1 = match (handle fs request s).1 with
      | .ok r => .ok r
      | .err e => .ok (.lerror (errnoForError e))
      | .abort => .abort := by
  rw [respond, bind_apply, attempt]
  rcases handle fs request s with ⟨r | e | _, s'⟩ <;> rfl

theorem replyLimit_le (s : ServerState σ η) (request : NinePRequest) :
    replyLimit s request ≤ maxStreamFrameSize := by
  cases request
  case version => exact le_rfl
  all_goals exact Nat.min_le_right _ _

/-- An answer that is ready is delivered exactly when it keeps to the limit. -/
theorem deliverable_of_response {frame : Bytes} {tag : UInt16} {request : NinePRequest}
    (hd : decodeRequest frame = .ok (tag, request)) {s : ServerState σ η} {r : NinePResponse}
    (hr : (respond fs request s).1 = .ok r) :
    Deliverable fs request frame s ↔ responseSize r ≤ replyLimit s request := by
  have hframe : (handleFrame fs frame s).1 =
      ((Prog.ofExcept (encodeResponse tag r) : Prog (ServerState σ η) Error Bytes) (respond fs request s).2).1 := by
    rw [handleFrame, hd, ofExcept_ok, bind_ok (pure_apply _ _)]
    have hs : respond fs request s = (.ok r, (respond fs request s).2) := Prod.ext hr rfl
    simp only [bind_ok hs]
  have hmax := replyLimit_le s request
  constructor
  · rintro ⟨reply, hok, -, hlen⟩
    rw [hframe] at hok
    cases henc : encodeResponse tag r with
    | error e => rw [henc] at hok; cases hok
    | ok reply' =>
      rw [henc] at hok
      cases hok
      rw [← encodeResponse_length henc]
      exact hlen
  · intro hsize
    have hsmall : ∃ reply, encodeResponse tag r = .ok reply := encodeResponse_of_small (hsize.trans hmax)
    obtain ⟨reply, henc⟩ := hsmall
    exact ⟨reply, by rw [hframe, henc]; rfl, (writeFrame_encodeResponse henc).mpr (hsize.trans hmax),
      by rw [encodeResponse_length henc]; exact hsize⟩

/-- A decoded request gets a frame that the stream and the session take exactly
when the answer it calls for fits. -/
theorem deliverable_iff_replyFits {frame : Bytes} {tag : UInt16} {request : NinePRequest}
    (hd : decodeRequest frame = .ok (tag, request)) (s : ServerState σ η) :
    Deliverable fs request frame s ↔ ReplyFits fs request s := by
  have hrespond := respond_fst fs request s
  unfold ReplyFits
  cases hh : (handle fs request s).1 with
  | ok r =>
    rw [hh] at hrespond
    rw [deliverable_of_response fs hd hrespond, handle_size fs hh]
  | err e =>
    rw [hh] at hrespond
    rw [deliverable_of_response fs hd hrespond]
    rfl
  | abort =>
    rw [hh] at hrespond
    rw [iff_false]
    rintro ⟨reply, hok, -⟩
    rw [handleFrame, hd, ofExcept_ok, bind_ok (pure_apply _ _)] at hok
    obtain ⟨r, s₁, hr, -⟩ := bind_fst_eq_ok.mp hok
    rw [hr] at hrespond
    cases hrespond

/-- A server over an empty file system whose fid 0 is attached to the root. -/
def attachedServer : ServerState MemFs MemFile :=
  { (new (MemFs.new fun _ => 0) fun _ => 0 : ServerState MemFs MemFile) with
    fids := Function.update (fun _ => none) 0 (some (.unopened ".")) }

def getattrFrame : Bytes := [19, 0, 0, 0, 24, 1, 0, 0, 0, 0, 0, 255, 255, 0, 0, 0, 0, 0, 0]

theorem deliverable_getattr_root :
    decodeRequest getattrFrame = .ok (1, .getAttr 0 0xffff) ∧
      Deliverable memFs (.getAttr 0 0xffff) getattrFrame attachedServer := by
  have hd : decodeRequest getattrFrame = .ok (1, .getAttr 0 0xffff) := by decide +kernel
  have hsize : replySize memFs attachedServer (.getAttr 0 0xffff) ≤
      replyLimit attachedServer (.getAttr 0 0xffff) := by decide
  have hok : (handle memFs (.getAttr 0 0xffff) attachedServer).1.isOk = true := by decide +kernel
  refine ⟨hd, (deliverable_iff_replyFits memFs hd attachedServer).mpr ?_⟩
  unfold ReplyFits
  revert hok
  cases (handle memFs (.getAttr 0 0xffff) attachedServer).1 with
  | ok r => exact fun _ => hsize
  | err e => exact nofun
  | abort => exact nofun

/-- A read of an open in-memory file returns as much as the count asks for. -/
theorem handle_read_node {fid : UInt32} {offset : UInt64} {count : UInt32} {s : ServerState MemFs MemFile}
    {st : FidState MemFile} {f : NodeFile} (hfid : s.fids fid = some st)
    (hhandle : st.handle = .file (.node f)) (hoffset : offset.toNat ≤ f.data.length) :
    (handle memFs (.read fid offset count) s).1 =
      .ok (.read (((f.data.drop offset.toNat).take count.toNat).take count.toNat)) := by
  have hread : (memFs.file.readAt count.toNat offset (.node f, s.fsys)).1 =
      .ok ((f.data.drop offset.toNat).take count.toNat) := by
    simp only [memFs, MemFile.handle, MemFile.dispatch, NodeFile.readAt, if_neg (Nat.not_lt.mpr hoffset)]
  rw [handle, read, bind_ok (getFid_eq_ok.mpr ⟨hfid, rfl⟩)]
  simp only [hhandle]
  rw [bind_fst_eq_ok]
  exact ⟨_, _, Prod.ext hread rfl, rfl⟩

def zerosNode : NodeInner := NodeInner.file "zeros" (List.replicate 65536 0) (FileMode.fromPerm 0o644)

def zerosFid : FidState MemFile :=
  { path := "zeros"
    handle := .file (.node { node := 1, metadata := zerosNode.metadata, data := zerosNode.data, offset := 0,
                             dirty := false, closed := false })
    flags := 0 }

/-- Fid 0 is open on a file of 65536 zeros. -/
def zerosServer : ServerState MemFs MemFile :=
  { (new ((MemFs.new fun _ => 0).insertNew "zeros" zerosNode) fun _ => 0 : ServerState MemFs MemFile) with
    fids := Function.update (fun _ => none) 0 (some zerosFid) }

def readFrame65536 : Bytes := [23, 0, 0, 0, 116, 1, 0, 0, 0, 0, 0, 0, 0, 0, 0, 0, 0, 0, 0, 0, 0, 1, 0]

theorem zerosServer_read : (handle memFs (.read 0 0 65536) zerosServer).1 =
    .ok (.read (((zerosNode.data.drop (0 : UInt64).toNat).take (65536 : UInt32).toNat).take
      (65536 : UInt32).toNat)) :=
  handle_read_node (show zerosServer.fids 0 = some zerosFid from rfl) rfl (Nat.zero_le _)

theorem not_deliverable_read : ¬ ∀ (s : ServerState MemFs MemFile) (input frame rest : Bytes) (tag : UInt16)
    (request : NinePRequest), readFrame input = .ok (some (frame, rest)) →
      decodeRequest frame = .ok (tag, request) → Deliverable memFs request frame s := by
  intro h
  have hd : decodeRequest readFrame65536 = .ok (1, .read 0 0 65536) := by decide +kernel
  have hdel := h zerosServer readFrame65536 readFrame65536 [] 1 _ (by decide +kernel) hd
  have hhandle := zerosServer_read
  have hrespond := respond_fst memFs (.read 0 0 65536) zerosServer
  rw [hhandle] at hrespond
  rw [deliverable_of_response memFs hd hrespond] at hdel
  have hsize : ∀ data : Bytes, data.length = 65536 →
      responseSize (.read (((data.drop (0 : UInt64).toNat).take (65536 : UInt32).toNat).take
        (65536 : UInt32).toNat)) = 65547 := by
    intro data hdata
    simp [responseSize, hdata]
  rw [hsize zerosNode.data List.length_replicate] at hdel
  revert hdel
  decide

end NinePServer
end Star9
