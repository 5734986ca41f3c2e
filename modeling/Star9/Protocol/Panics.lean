import Star9.Fs.MemAborts
import Star9.Protocol.Confinement
import Star9.Protocol.FidFrame
import Star9.Protocol.XattrCommit

/-!
# Requests that take the server down

The server over an in-memory file system answers every request with a response or an
error, apart from those whose numbers reach an unchecked allocation or time, and
those that follow a chain of symlinks which comes back to a name. The condition of
each request is read off the state before it.
-/
namespace Star9
open Base Prog

namespace MemFs

/-- What the server's stat of a path finds. -/
def nodeMetadata (fs : MemFs) (path : String) : Option Metadata :=
  if validPath path then (fs.nodes[path]?).map fun id => (fs.heap id).metadata else none

theorem lstat_eq (path : String) (fs : MemFs) : memFs.lstat FsContext.new.noFollow path fs =
    (match fs.nodeMetadata path with
      | some m => .ok m
      | none => .err (.path "stat" path .notFound), fs) := by
  refine Prod.ext ?_ rfl
  change fs.statAt (fs.nodes.size + 1) FsContext.new.noFollow.noFollow path = _
  unfold nodeMetadata
  cases hname : validPath path with
  | false =>
    rw [statAt, if_pos (by simp [hname])]
    rfl
  | true =>
    rw [statAt_succ hname, show fs.nextLink FsContext.new.noFollow.noFollow path = none from rfl, statHere]
    cases fs.nodes[path]? <;> rfl

/-- A time that the clock of the machine cannot hold is given to a node that is there,
or a node would grow past the largest allocation. -/
def SetAttrPanics (fs : MemFs) (path : String) (attr : SetAttr) : Prop :=
  (attr.valid &&& setattrSize ≠ 0 ∧ fs.TruncateFails path attr.size) ∨
  (attr.valid &&& setattrMtime ≠ 0 ∧ attr.valid &&& setattrMtimeSet ≠ 0 ∧
    epochPlus attr.mtimeSeconds attr.mtimeNanoseconds = none ∧
    (attr.valid &&& setattrSize ≠ 0 → fs.nodes[cleanPath path]?.isSome = true) ∧
    (attr.valid &&& setattrMode ≠ 0 → fs.nodes[cleanPath path]?.isSome = true) ∧
    (attr.valid &&& (setattrUid ||| setattrGid) ≠ 0 → (fs.nodeMetadata path).isSome = true))

/-- The state with the pending writes of a file that is closed. -/
def flushed (fs : MemFs) : MemFile → MemFs
  | .node f => if !f.closed && f.dirty then fs.setData f.node f.data else fs
  | .dir _ => fs

end MemFs

namespace FidState

/-- What a `getattr` of a fid reads the kind from. -/
def heldMetadata (st : FidState MemFile) (fs : MemFs) : Option Metadata :=
  match st.handle with
  | .file (.node f) => some f.metadata
  | .file (.dir f) => some f.metadata
  | .none => fs.nodeMetadata st.path
  | _ => none

/-- A write that a fid refuses with a panic: the file would grow past the largest
allocation, or the buffer of an attribute is shorter than its announced size. -/
def WritePanics (st : FidState MemFile) (offset : UInt64) (len : Nat) : Prop :=
  match st.handle with
  | .file f => f.WriteFails offset len
  | .xattrWrite w => offset.toNat + len < 2 ^ 64 ∧ offset.toNat + len ≤ w.expectedSize.toNat ∧ w.data.length < offset.toNat + len
  | _ => False

/-- The state in which a `remove` of the fid reaches the file system. -/
def afterClose (st : FidState MemFile) (fs : MemFs) : MemFs :=
  match st.handle with
  | .file f => fs.flushed f
  | _ => fs

end FidState

namespace NinePServer

/-- The requests that a state does not answer. -/
def Panics (s : ServerState MemFs MemFile) : NinePRequest → Prop
  | .lopen fid flags => ∃ st, s.fids fid = some st ∧ s.fsys.OpenLoops st.path (openFlagsFrom9p flags)
  | .lcreate fid name flags _ _ => ∃ st path, s.fids fid = some st ∧ checkedJoin st.path name = .ok path ∧
      s.fsys.OpenLoops path (openFlagsFrom9p flags ||| .create)
  | .getAttr fid _ => ∃ st m, s.fids fid = some st ∧ st.heldMetadata s.fsys = some m ∧ m.isDir = true ∧ s.fsys.LoopsFrom st.path
  | .setAttr fid attr => ∃ st, s.fids fid = some st ∧ s.fsys.SetAttrPanics st.path attr
  | .xattrCreate fid name size _ => name ≠ "" ∧ (∃ st, s.fids fid = some st) ∧ 2 ^ 63 ≤ size.toNat
  | .write fid offset data => ∃ st, s.fids fid = some st ∧ st.WritePanics offset data.length
  | .remove fid => ∃ st, s.fids fid = some st ∧ st.path ≠ "." ∧ cleanPath st.path ≠ "." ∧
      s.fsys.nodes[cleanPath st.path]?.isSome = true ∧ (st.afterClose s.fsys).LoopsFrom (cleanPath st.path)
  | .mkdir fid name _ _ => ∃ st path, s.fids fid = some st ∧ checkedJoin st.path name = .ok path ∧
      s.fsys.nodes[path]? = none ∧ s.fsys.ParentLoops path
  | .link fid newdirfid name => (∃ st, s.fids fid = some st) ∧ ∃ dir path, s.fids newdirfid = some dir ∧
      checkedJoin dir.path name = .ok path ∧ s.fsys.nodes[path]? = none ∧ s.fsys.ParentLoops path
  | .readdir fid _ _ => ∃ st, s.fids fid = some st ∧ s.fsys.LoopsFrom st.path
  | .renameAt olddirfid oldname newdirfid newname => ∃ olddir old, s.fids olddirfid = some olddir ∧
      checkedJoin olddir.path oldname = .ok old ∧ ∃ newdir new, s.fids newdirfid = some newdir ∧
      checkedJoin newdir.path newname = .ok new ∧ old ≠ new ∧ s.fsys.ParentLoops new
  | .unlinkAt dirfid name flags => ∃ dir path m, s.fids dirfid = some dir ∧ checkedJoin dir.path name = .ok path ∧
      s.fsys.nodeMetadata path = some m ∧ (m.isDir = true ↔ flags &&& atRemovedir ≠ 0) ∧
      (m.isDir = true ∨ path ≠ ".") ∧ s.fsys.LoopsFrom path
  | .symlink fid name _ _ => ∃ dir path, s.fids fid = some dir ∧ checkedJoin dir.path name = .ok path ∧
      s.fsys.ParentLoops path
  | _ => False

section
variable {σ η α β : Type} {s : ServerState σ η} {fid : UInt32}

/-! ## The building blocks -/

theorem aborts_getFid_bind {f : FidState η → Prog (ServerState σ η) Error β} :
    Aborts (getFid fid >>= f) s ↔ ∃ st, s.fids fid = some st ∧ Aborts (f st) s := by
  rw [getFid, bind_assoc, aborts_get_bind, aborts_ofOption_bind]

theorem aborts_fidPath_bind {f : String → Prog (ServerState σ η) Error β} :
    Aborts (fidPath fid >>= f) s ↔ ∃ st, s.fids fid = some st ∧ Aborts (f st.path) s := by
  rw [fidPath, bind_assoc, aborts_getFid_bind]
  rfl

theorem calm_getFid (fid : UInt32) : Calm (getFid fid : Prog (ServerState σ η) Error _) :=
  calm_bind calm_get fun _ => calm_ofOption _ _

theorem calm_fidPath (fid : UInt32) : Calm (fidPath fid : Prog (ServerState σ η) Error _) :=
  calm_bind (calm_getFid fid) fun _ => calm_pure _

theorem calm_setFid (fid : UInt32) (st : Option (FidState η)) : Calm (setFid fid st : Prog (ServerState σ η) Error Unit) :=
  calm_modify _

theorem aborts_onFs {p : Prog σ Error α} : Aborts (onFs p : Prog (ServerState σ η) Error α) s ↔ Aborts p s.fsys := Iff.rfl

theorem aborts_onFs_bind {p : Prog σ Error α} {f : α → Prog (ServerState σ η) Error β} (hf : ∀ a, Calm (f a)) :
    Aborts (onFs p >>= f) s ↔ Aborts p s.fsys := aborts_bind_calm hf

theorem calm_onFs {p : Prog σ Error α} (h : Calm p) : Calm (onFs p : Prog (ServerState σ η) Error α) := calm_zoom h

theorem aborts_onFile {st : FidState η} {f : η} {p : Prog (η × σ) Error α} :
    Aborts (onFile fid st f p : Prog (ServerState σ η) Error α) s ↔ Aborts p (f, s.fsys) := Iff.rfl

theorem calm_onFile {st : FidState η} {f : η} {p : Prog (η × σ) Error α} (h : Calm p) :
    Calm (onFile fid st f p : Prog (ServerState σ η) Error α) := fun s => h (f, s.fsys)

theorem calm_withFile {f : η} {p : Prog (η × σ) Error α} (h : Calm p) : Calm (withFile f p) :=
  fun s hs => h (f, s) (aborts_withFile.mp hs)

theorem calm_walkBase (fid newfid : UInt32) : Calm (walkBase fid newfid : Prog (ServerState σ η) Error String) :=
  calm_bind calm_get fun _ => calm_ite (calm_throw _) (calm_fidPath fid)

end

section
variable {s : ServerState MemFs MemFile} {fid : UInt32}

theorem calm_qidFor (path : String) : Calm (qidFor memFs path) := calm_bind (MemFs.calm_lstat _ _) fun _ => calm_pure _

theorem calm_walkLoop (path : String) (qids : List Qid) (names : List String) : Calm (walkLoop memFs path qids names) := by
  induction names generalizing path qids with
  | nil => exact calm_pure _
  | cons name names ih =>
    refine calm_ite (calm_throw _) (calm_bind (calm_attempt (calm_onFs (calm_qidFor _))) fun r => ?_)
    cases r with
    | ok qid => exact ih _ _
    | error err => exact calm_ite (calm_throw _) (calm_pure _)

theorem calm_readdirLoop (path : String) (offset count index : Nat) (entries : List DirEntry) (data : Bytes) :
    Calm (readdirLoop memFs path offset count index entries data) := by
  induction entries generalizing index data with
  | nil => exact calm_pure _
  | cons entry entries ih =>
    refine calm_ite (ih _ _) (calm_bind (calm_onFs (calm_qidFor _)) fun _ => ?_)
    exact calm_bind (calm_ofExcept _) fun _ => calm_ite (calm_pure _) (ih _ _)

theorem calm_commitXattr (path : String) (write : XattrWriteState) : Calm (commitXattr memFs path write) :=
  calm_ite (calm_pure _) (calm_ite (calm_throw _) (calm_bind (calm_onFs (MemFs.calm_setXattr _ _ _)) fun _ => calm_pure _))

theorem calm_closeFile (f : MemFile) : Calm (onFs (withFile f memFs.file.close) : Prog (ServerState MemFs MemFile) Error _) :=
  calm_onFs (calm_withFile MemFile.calm_close)

/-! ## Handlers that always answer -/

theorem calm_xattrData (path name : String) : Calm (xattrData memFs path name) :=
  calm_ite (calm_bind (MemFs.calm_listXattrs _) fun _ => calm_pure _) (MemFs.calm_getXattr _ _)

theorem calm_read (fid : UInt32) (offset : UInt64) (count : UInt32) : Calm (read memFs fid offset count) := by
  refine calm_bind (calm_getFid fid) fun st => ?_
  split
  · exact calm_bind (calm_onFile (MemFile.calm_readAt _ _)) fun _ => calm_pure _
  · exact calm_pure _
  · exact calm_throw _
  · exact calm_throw _

theorem calm_clunk (fid : UInt32) : Calm (clunk memFs fid) := by
  refine calm_bind (calm_getFid fid) fun st => calm_bind (calm_setFid _ _) fun _ => ?_
  split
  · exact calm_bind (calm_commitXattr _ _) fun _ => calm_pure _
  · exact calm_bind (calm_closeFile _) fun _ => calm_ofExcept _
  · exact calm_pure _

theorem calm_fsync (fid : UInt32) : Calm (fsync memFs fid) := by
  refine calm_bind (calm_getFid fid) fun st => ?_
  split
  · refine calm_bind (calm_attempt (calm_onFile MemFile.calm_sync)) fun r => ?_
    split
    · exact calm_pure _
    · exact calm_pure _
    · exact calm_throw _
  · exact calm_bind (calm_commitXattr _ _) fun _ => calm_bind (calm_setFid _ _) fun _ => calm_pure _
  · exact calm_pure _

/-! ## Handlers with a condition -/

theorem aborts_lopen {flags : UInt32} : Aborts (lopen memFs fid flags) s ↔ Panics s (.lopen fid flags) := by
  rw [lopen, aborts_fidPath_bind]
  refine exists_congr fun st => and_congr_right fun _ => ?_
  refine (aborts_onFs_bind fun f => ?_).trans MemFs.aborts_openFile
  exact calm_bind (calm_onFs (calm_qidFor _)) fun _ => calm_bind (calm_getFid _) fun _ =>
    calm_bind (calm_setFid _ _) fun _ => calm_pure _

theorem aborts_joined {parent name : String} {f : String → Prog (ServerState MemFs MemFile) Error β} :
    Aborts (Prog.ofExcept (checkedJoin parent name) >>= f) s ↔ ∃ path, checkedJoin parent name = .ok path ∧ Aborts (f path) s :=
  aborts_ofExcept_bind

theorem aborts_lcreate {name : String} {flags mode gid : UInt32} :
    Aborts (lcreate memFs fid name flags mode) s ↔ Panics s (.lcreate fid name flags mode gid) := by
  rw [lcreate, aborts_fidPath_bind]
  refine exists_congr fun st => ?_
  rw [aborts_joined, ← exists_and_left]
  refine exists_congr fun path => and_congr_right fun _ => and_congr_right fun _ => ?_
  refine (aborts_onFs_bind fun f => ?_).trans MemFs.aborts_openFile
  exact calm_bind (calm_onFs (calm_qidFor _)) fun _ => calm_bind (calm_getFid _) fun _ =>
    calm_bind (calm_setFid _ _) fun _ => calm_pure _

theorem aborts_mkdir {name : String} {mode gid : UInt32} :
    Aborts (mkdir memFs fid name mode) s ↔ Panics s (.mkdir fid name mode gid) := by
  rw [mkdir, aborts_fidPath_bind]
  refine exists_congr fun st => ?_
  rw [aborts_joined, ← exists_and_left]
  refine exists_congr fun path => and_congr_right fun _ => and_congr_right fun hpath => ?_
  refine (aborts_onFs_bind fun _ => ?_).trans ?_
  · exact calm_bind (calm_onFs (calm_qidFor _)) fun _ => calm_pure _
  · rw [show memFs.mkdir = MemFs.mkdir from rfl, MemFs.aborts_mkdir, cleanPath_of_valid (checkedJoin_valid hpath)]

theorem aborts_symlink {name target : String} {gid : UInt32} :
    Aborts (symlink memFs fid name target) s ↔ Panics s (.symlink fid name target gid) := by
  rw [symlink, aborts_fidPath_bind]
  refine exists_congr fun st => ?_
  rw [aborts_joined, ← exists_and_left]
  refine exists_congr fun path => and_congr_right fun _ => and_congr_right fun hpath => ?_
  refine (aborts_onFs_bind fun _ => ?_).trans ?_
  · exact calm_bind (calm_onFs (calm_qidFor _)) fun _ => calm_pure _
  · rw [show memFs.symlink = MemFs.symlink from rfl, MemFs.aborts_symlink, cleanPath_of_valid (checkedJoin_valid hpath)]

theorem aborts_link {newdirfid : UInt32} {name : String} :
    Aborts (link memFs fid newdirfid name) s ↔ Panics s (.link fid newdirfid name) := by
  rw [link, aborts_fidPath_bind]
  simp only [aborts_fidPath_bind, aborts_joined]
  rw [Panics, ← exists_and_right]
  refine exists_congr fun st => and_congr_right fun _ => exists_congr fun dir => ?_
  rw [← exists_and_left]
  refine exists_congr fun path => and_congr_right fun _ => and_congr_right fun hpath => ?_
  refine (aborts_onFs_bind fun _ => calm_pure _).trans ?_
  rw [show memFs.link = MemFs.link from rfl, MemFs.aborts_link, cleanPath_of_valid (checkedJoin_valid hpath)]

theorem aborts_renameAt {oldname : String} {newdirfid : UInt32} {newname : String} :
    Aborts (renameAt memFs fid oldname newdirfid newname) s ↔ Panics s (.renameAt fid oldname newdirfid newname) := by
  rw [renameAt, aborts_fidPath_bind]
  simp only [aborts_fidPath_bind, aborts_joined]
  refine exists_congr fun olddir => ?_
  rw [← exists_and_left]
  refine exists_congr fun old => and_congr_right fun _ => and_congr_right fun hold => exists_congr fun newdir => ?_
  rw [← exists_and_left]
  refine exists_congr fun new => and_congr_right fun _ => and_congr_right fun hnew => ?_
  refine (aborts_onFs_bind fun _ => calm_pure _).trans ?_
  rw [show memFs.rename = MemFs.rename from rfl, MemFs.aborts_rename, cleanPath_of_valid (checkedJoin_valid hold),
    cleanPath_of_valid (checkedJoin_valid hnew)]

theorem aborts_readdir {offset : UInt64} {count : UInt32} :
    Aborts (readdir memFs fid offset count) s ↔ Panics s (.readdir fid offset count) := by
  rw [readdir, aborts_fidPath_bind]
  refine exists_congr fun st => and_congr_right fun _ => ?_
  refine (aborts_onFs_bind fun _ => ?_).trans MemFs.aborts_readDir
  exact calm_bind (calm_readdirLoop _ _ _ _ _ _) fun _ => calm_pure _

theorem aborts_xattrcreate {name : String} {size : UInt64} {flags : UInt32} :
    Aborts (xattrcreate fid name size flags) s ↔ Panics s (.xattrCreate fid name size flags) := by
  rw [xattrcreate, aborts_guard (calm_throw _), aborts_getFid_bind, Panics, ← exists_and_right]
  refine and_congr_right fun _ => exists_congr fun st => and_congr_right fun _ => ?_
  rw [XattrWriteState.new]
  by_cases hsize : 2 ^ 63 ≤ size.toNat
  · rw [if_pos hsize]
    exact iff_of_true rfl hsize
  · rw [if_neg hsize]
    exact iff_of_false (calm_bind (calm_setFid _ _) (fun _ => calm_pure _) s) hsize

theorem aborts_xattrWrite {w : XattrWriteState} {offset : UInt64} {data : Bytes} : w.writeAt offset data = .abort ↔
    offset.toNat + data.length < 2 ^ 64 ∧ offset.toNat + data.length ≤ w.expectedSize.toNat ∧
      w.data.length < offset.toNat + data.length := by
  rw [XattrWriteState.writeAt]
  dsimp only
  split
  · exact iff_of_false Outcome.err_ne_abort (by omega)
  · split
    · exact iff_of_true rfl (by omega)
    · exact iff_of_false Outcome.ok_ne_abort (by omega)

theorem aborts_write {offset : UInt64} {data : Bytes} : Aborts (write memFs fid offset data) s ↔ Panics s (.write fid offset data) := by
  rw [write, aborts_getFid_bind]
  refine exists_congr fun st => and_congr_right fun _ => ?_
  refine (aborts_bind_calm fun _ => calm_ite (calm_pure _) (calm_throw _)).trans ?_
  unfold writeHandle FidState.WritePanics
  cases st.handle with
  | file f => exact aborts_onFile.trans MemFile.aborts_writeAt
  | xattrWrite w =>
    exact (aborts_bind_calm fun _ => calm_bind (calm_setFid _ _) fun _ => calm_pure _).trans aborts_xattrWrite
  | xattrRead data => exact iff_of_false (calm_throw _ s) not_false
  | none => exact iff_of_false (calm_throw _ s) not_false

theorem aborts_attrFor {path : String} {m : Metadata} {mask : UInt64} {fs : MemFs} :
    Aborts (attrFor memFs path m mask) fs ↔ m.isDir = true ∧ fs.LoopsFrom path := by
  rw [attrFor, aborts_bind_calm fun _ => calm_pure _, nlinkFor, aborts_ite, or_iff_left fun h => calm_pure _ _ h.2]
  refine and_congr_right fun _ => ?_
  refine (aborts_bind_calm fun r => ?_).trans (aborts_attempt.trans MemFs.aborts_readDir)
  cases r <;> exact calm_pure _

/-- Only the kind of what the fid holds decides whether its path is listed. -/
theorem aborts_getattr {mask : UInt64} : Aborts (getattr memFs fid mask) s ↔ Panics s (.getAttr fid mask) := by
  rw [getattr, aborts_getFid_bind]
  refine exists_congr fun st => ?_
  rw [exists_and_left]
  refine and_congr_right fun _ => ?_
  have hattr : ∀ {m : Metadata} {s₁ : ServerState MemFs MemFile}, s₁.fsys = s.fsys →
      (Aborts (onFs (attrFor memFs st.path m mask) >>= fun attr => pure (.getAttr attr) : Prog _ _ NinePResponse) s₁ ↔
        m.isDir = true ∧ s.fsys.LoopsFrom st.path) := by
    intro m s₁ hs
    rw [aborts_onFs_bind fun _ => calm_pure _, aborts_attrFor, hs]
  have hfile : ∀ n perm, (Metadata.file "xattr" perm n).isDir = false := by
    intro n perm
    change ((FileMode.fromPerm perm).typeBits ||| FileMode.fromPerm (FileMode.fromPerm perm).perm).isDir = false
    simp
  rw [FidState.heldMetadata, fidMetadata]
  cases st.handle with
  | file f =>
    cases f with
    | node f =>
      obtain ⟨s₁, hrun, hs₁⟩ : ∃ s₁, onFile fid st (.node f) memFs.file.stat s = (.ok f.metadata, s₁) ∧ s₁.fsys = s.fsys :=
        ⟨_, rfl, rfl⟩
      rw [aborts_bind_of_ok hrun, hattr hs₁]
      simp
    | dir f =>
      obtain ⟨s₁, hrun, hs₁⟩ : ∃ s₁, onFile fid st (.dir f) memFs.file.stat s = (.ok f.metadata, s₁) ∧ s₁.fsys = s.fsys :=
        ⟨_, rfl, rfl⟩
      rw [aborts_bind_of_ok hrun, hattr hs₁]
      simp
  | none =>
    have hlstat := MemFs.lstat_eq st.path s.fsys
    cases hm : s.fsys.nodeMetadata st.path with
    | some m =>
      rw [hm] at hlstat
      have hrun : onFs (memFs.lstat FsContext.new.noFollow st.path) s = (.ok m, s) := by rw [onFs, zoom_apply, hlstat]
      rw [aborts_bind_of_ok hrun, hattr rfl]
      simp
    | none =>
      rw [hm] at hlstat
      have hrun : onFs (memFs.lstat FsContext.new.noFollow st.path) s = (.err (.path "stat" st.path .notFound), s) := by
        rw [onFs, zoom_apply, hlstat]
      exact iff_of_false (not_aborts_bind_of_err hrun) (by simp)
  | xattrRead data =>
    rw [pure_bind, hattr rfl, hfile]
    simp
  | xattrWrite w =>
    rw [pure_bind, hattr rfl, hfile]
    simp

/-- A close leaves the path map, and writes what the file has pending. -/
theorem closeQuietly_run (st : FidState MemFile) :
    closeQuietly memFs st s = (.ok (), { s with fsys := st.afterClose s.fsys }) := by
  unfold closeQuietly FidState.afterClose
  cases st.handle with
  | file f =>
    cases f with
    | dir f => rfl
    | node f =>
      obtain ⟨node, metadata, data, offset, dirty, closed⟩ := f
      cases dirty <;> cases closed <;> rfl
  | _ => rfl

theorem afterClose_nodes (st : FidState MemFile) (fs : MemFs) : (st.afterClose fs).nodes = fs.nodes := by
  unfold FidState.afterClose MemFs.flushed
  split
  · split
    · split
      · rfl
      · rfl
    · rfl
  · rfl

theorem aborts_remove : Aborts (remove memFs fid) s ↔ Panics s (.remove fid) := by
  rw [remove, aborts_getFid_bind]
  refine exists_congr fun st => and_congr_right fun _ => ?_
  have hset : setFid fid none s = (.ok (), { s with fids := Function.update s.fids fid none }) := rfl
  rw [aborts_bind_of_ok hset, aborts_guard (calm_throw _), aborts_bind_of_ok (closeQuietly_run st)]
  refine and_congr_right fun _ => ?_
  rw [aborts_onFs_bind fun _ => calm_pure _, show memFs.remove = MemFs.remove from rfl, MemFs.aborts_remove]
  dsimp only
  rw [afterClose_nodes]

/-- A directory is listed before it is unlinked, anything else is only looked up. -/
theorem aborts_unlinkAt {name : String} {flags : UInt32} :
    Aborts (unlinkAt memFs fid name flags) s ↔ Panics s (.unlinkAt fid name flags) := by
  rw [unlinkAt, aborts_fidPath_bind]
  refine exists_congr fun dir => ?_
  rw [aborts_joined, ← exists_and_left]
  refine exists_congr fun path => ?_
  rw [exists_and_left, exists_and_left]
  refine and_congr_right fun _ => and_congr_right fun hpath => ?_
  have hlstat := MemFs.lstat_eq path s.fsys
  have hclean := cleanPath_of_valid (checkedJoin_valid hpath)
  cases hm : s.fsys.nodeMetadata path with
  | none =>
    rw [hm] at hlstat
    have hrun : onFs (memFs.lstat FsContext.new.noFollow path) s = (.err (.path "stat" path .notFound), s) := by
      rw [onFs, zoom_apply, hlstat]
    exact iff_of_false (not_aborts_bind_of_err hrun) (by simp)
  | some m =>
    rw [hm] at hlstat
    have hrun : onFs (memFs.lstat FsContext.new.noFollow path) s = (.ok m, s) := by rw [onFs, zoom_apply, hlstat]
    have hthere : s.fsys.nodes[path]?.isSome = true := by
      unfold MemFs.nodeMetadata at hm
      split at hm
      · obtain ⟨id, hid, -⟩ := Option.map_eq_some_iff.mp hm
        rw [hid]
        rfl
      · cases hm
    have hremove : ∀ {s₁ : ServerState MemFs MemFile}, s₁.fsys.shape = s.fsys.shape →
        (Aborts (onFs (memFs.remove path) >>= fun _ => pure .unlinkAt : Prog _ _ NinePResponse) s₁ ↔
          path ≠ "." ∧ s.fsys.LoopsFrom path) := by
      intro s₁ hs₁
      rw [aborts_onFs_bind fun _ => calm_pure _, show memFs.remove = MemFs.remove from rfl, MemFs.aborts_remove, hclean]
      rw [show s₁.fsys.nodes = s.fsys.nodes from congrArg Shape.nodes hs₁, and_iff_right hthere]
      exact and_congr_right fun _ => MemFs.loops_of_shape hs₁
    rw [aborts_bind_of_ok hrun]
    simp only [Option.some.injEq, exists_eq_left']
    unfold unlinkRefused
    by_cases hflag : flags &&& atRemovedir = 0
    · cases hdir : m.isDir with
      | true =>
        simp only [hflag, Bool.true_and, decide_true, if_true]
        exact iff_of_false (calm_throw _ s) (by simp)
      | false =>
        simp only [hflag, Bool.false_and, Bool.false_eq_true, if_false, ne_eq, not_true_eq_false, decide_false, Bool.and_false]
        refine (hremove rfl).trans ?_
        simp
    · cases hdir : m.isDir with
      | false =>
        simp only [Bool.false_and, Bool.false_eq_true, if_false, Bool.not_false, Bool.true_and, ne_eq, hflag, not_false_eq_true,
          decide_true, if_true]
        exact iff_of_false (calm_throw _ s) (by simp)
      | true =>
        simp only [hflag, Bool.true_and, decide_false, Bool.false_eq_true, if_false, Bool.not_true, Bool.false_and, if_true]
        have hlist : Aborts (memFs.readDir FsContext.new path >>= fun entries =>
            pure (if entries.isEmpty then none else some ErrorKind.notEmpty) : Prog _ _ (Option ErrorKind)) s.fsys ↔
            s.fsys.LoopsFrom path := (aborts_bind_calm fun _ => calm_pure _).trans MemFs.aborts_readDir
        rw [aborts_bind, aborts_onFs, hlist]
        simp only [ne_eq, hflag, not_false_eq_true, true_or, true_and]
        rw [or_iff_left_iff_imp]
        rintro ⟨r, s₁, hlisted, h⟩
        have hshape : s₁.fsys.shape = s.fsys.shape := by
          have hkept := preserves_bind (MemFs.preserves_readDir FsContext.new path) (fun entries =>
            preserves_pure (if entries.isEmpty then none else some ErrorKind.notEmpty)) s.fsys
          have hstate := congrArg (fun r => r.2.fsys.shape) hlisted
          exact hstate.symm.trans hkept
        cases r with
        | some kind => exact absurd h (calm_throw _ _)
        | none => exact ((hremove hshape).mp h).2

/-! ## Attributes -/

/-- A part of a `setattr` keeps the path map, and lets the rest run exactly when a condition holds. -/
structure Passes (s : ServerState MemFs MemFile) (p : Prog (ServerState MemFs MemFile) Error Unit) (c : Prop) : Prop where
  nodes : (p s).2.fsys.nodes = s.fsys.nodes
  goes : ¬ Aborts p s → ((p s).1 = .ok () ↔ c)

section
variable {p : Prog (ServerState MemFs MemFile) Error Unit} {q : Prog (ServerState MemFs MemFile) Error NinePResponse} {c d : Prop}
  {b : Bool} {path : String} {attr : SetAttr}

theorem aborts_passes (hp : Passes s p c) (hq : ∀ s', s'.fsys.nodes = s.fsys.nodes → (Aborts q s' ↔ d)) :
    Aborts (p >>= fun _ => q) s ↔ Aborts p s ∨ (c ∧ d) := by
  by_cases habort : Aborts p s
  · exact iff_of_true (aborts_bind.mpr (Or.inl habort)) (Or.inl habort)
  · rw [aborts_bind, or_iff_right habort, or_iff_right habort]
    constructor
    · rintro ⟨a, s₁, hrun, h⟩
      have hnodes := hp.nodes
      rw [hrun] at hnodes
      exact ⟨(hp.goes habort).mp (by rw [hrun]), (hq s₁ hnodes).mp h⟩
    · rintro ⟨hc, hd⟩
      exact ⟨(), (p s).2, Prod.ext ((hp.goes habort).mpr hc) rfl, (hq _ hp.nodes).mpr hd⟩

theorem Passes.of_iff (hp : Passes s p c) (h : c ↔ d) : Passes s p d := ⟨hp.nodes, fun hcalm => (hp.goes hcalm).trans h⟩

theorem aborts_whenSet : Aborts (whenSet b p) s ↔ b = true ∧ Aborts p s := by
  rw [whenSet, aborts_ite, or_iff_left fun h => calm_pure _ _ h.2]

theorem passes_whenSet (hp : Passes s p c) : Passes s (whenSet b p) (b = true → c) := by
  cases b with
  | true =>
    refine ⟨hp.nodes, fun h => (hp.goes h).trans ?_⟩
    exact ⟨fun hc _ => hc, fun hc => hc rfl⟩
  | false => exact ⟨rfl, fun _ => iff_of_true rfl (by simp)⟩

theorem passes_nodeOr {op : String} {f : NodeId → Prog MemFs Error Unit}
    (hf : ∀ id fs, (f id fs).2.nodes = fs.nodes ∧ (¬ Aborts (f id) fs → (f id fs).1 = .ok ())) :
    Passes s (onFs (MemFs.nodeOr op (cleanPath path) >>= f)) (s.fsys.nodes[cleanPath path]?.isSome = true) := by
  have hrun : ∀ answer, (Prog.ofOption (.path op (cleanPath path) .notFound) s.fsys.nodes[cleanPath path]? >>= f) s.fsys = answer →
      (onFs (MemFs.nodeOr op (cleanPath path) >>= f) : Prog (ServerState MemFs MemFile) Error Unit) s = (answer.1, { s with fsys := answer.2 }) := by
    rintro _ rfl
    rw [onFs, zoom_apply, MemFs.nodeOr, bind_assoc, get_bind]
  cases hid : s.fsys.nodes[cleanPath path]? with
  | none =>
    have hrun := hrun (.err (.path op (cleanPath path) .notFound), s.fsys) (by rw [hid]; rfl)
    refine ⟨by rw [hrun], fun _ => ?_⟩
    rw [hrun]
    simp
  | some id =>
    have hrun := hrun (f id s.fsys) (by rw [hid]; rfl)
    refine ⟨by rw [hrun]; exact (hf id s.fsys).1, fun h => ?_⟩
    rw [Aborts, hrun] at h
    rw [hrun]
    exact iff_of_true ((hf id s.fsys).2 h) rfl

theorem passes_truncate {size : UInt64} : Passes s (onFs (memFs.truncate path size)) (s.fsys.nodes[cleanPath path]?.isSome = true) := by
  refine passes_nodeOr fun id fs => ?_
  rw [Aborts, get_bind, branch_apply]
  split
  · exact ⟨rfl, fun h => absurd rfl h⟩
  · exact ⟨rfl, fun _ => rfl⟩

theorem passes_chmod {mode : FileMode} : Passes s (onFs (memFs.chmod path mode)) (s.fsys.nodes[cleanPath path]?.isSome = true) :=
  passes_nodeOr fun _ _ => ⟨rfl, fun _ => rfl⟩

theorem passes_chown {uid gid : UInt32} : Passes s (onFs (memFs.chown path uid gid)) (s.fsys.nodes[cleanPath path]?.isSome = true) :=
  passes_nodeOr fun _ _ => ⟨rfl, fun _ => rfl⟩

theorem passes_setOwner : Passes s (setOwner memFs path attr) ((s.fsys.nodeMetadata path).isSome = true) := by
  have hlstat := MemFs.lstat_eq path s.fsys
  cases hm : s.fsys.nodeMetadata path with
  | none =>
    rw [hm] at hlstat
    have hrun : setOwner memFs path attr s = (.err (.path "stat" path .notFound), s) := by
      rw [setOwner]
      exact bind_err (by rw [onFs, zoom_apply, hlstat])
    refine ⟨by rw [hrun], fun _ => ?_⟩
    rw [hrun]
    simp
  | some m =>
    rw [hm] at hlstat
    have hrun : onFs (memFs.lstat FsContext.new.noFollow path) s = (.ok m, s) := by rw [onFs, zoom_apply, hlstat]
    have hthere : s.fsys.nodes[cleanPath path]?.isSome = true := by
      unfold MemFs.nodeMetadata at hm
      split at hm
      case isTrue hpath =>
        obtain ⟨id, hid, -⟩ := Option.map_eq_some_iff.mp hm
        rw [cleanPath_of_valid hpath, hid]
        rfl
      case isFalse => cases hm
    rw [setOwner]
    have hchown := @passes_chown s path (if attr.valid &&& setattrUid ≠ 0 then attr.uid else m.uid)
      (if attr.valid &&& setattrGid ≠ 0 then attr.gid else m.gid)
    refine ⟨?_, fun h => ?_⟩
    · rw [bind_ok hrun]
      exact hchown.nodes
    · rw [aborts_bind_of_ok hrun] at h
      rw [bind_ok hrun]
      exact (hchown.goes h).trans (iff_of_true hthere rfl)

theorem calm_setOwner : Calm (setOwner memFs path attr) :=
  calm_bind (calm_onFs (MemFs.calm_lstat _ _)) fun _ => calm_onFs (MemFs.calm_chown _ _ _)

theorem aborts_setMtime : Aborts (setMtime memFs path attr) s ↔
    attr.valid &&& setattrMtimeSet ≠ 0 ∧ epochPlus attr.mtimeSeconds attr.mtimeNanoseconds = none := by
  have hchtimes : ∀ mtime, Calm (onFs (memFs.chtimes path mtime) : Prog (ServerState MemFs MemFile) Error Unit) :=
    fun mtime => calm_onFs (MemFs.calm_chtimes path mtime)
  rw [setMtime, aborts_bind_calm hchtimes, mtimeFor, aborts_ite, or_iff_left fun h => absurd h.2 Outcome.ok_ne_abort]
  refine and_congr_right fun _ => ?_
  cases epochPlus attr.mtimeSeconds attr.mtimeNanoseconds with
  | some mtime => exact iff_of_false (calm_pure _ s) (by simp)
  | none => exact iff_of_true rfl rfl

theorem aborts_setattr : Aborts (setattr memFs fid attr) s ↔ Panics s (.setAttr fid attr) := by
  rw [setattr, aborts_fidPath_bind]
  refine exists_congr fun st => and_congr_right fun _ => ?_
  have hmeta : ∀ {s' : ServerState MemFs MemFile}, s'.fsys.nodes = s.fsys.nodes →
      ((s'.fsys.nodeMetadata st.path).isSome = true ↔ (s.fsys.nodeMetadata st.path).isSome = true) := by
    intro s' hs'
    unfold MemFs.nodeMetadata
    rw [hs']
    split
    · simp
    · rfl
  -- From the last part back to the first, each seen from the state before the request.
  have hmtime : ∀ s', Aborts (whenSet (attr.valid &&& setattrMtime ≠ 0) (setMtime memFs st.path attr) >>= fun _ =>
      pure .setAttr : Prog _ _ NinePResponse) s' ↔ _ := fun s' =>
    (aborts_bind_calm fun _ => calm_pure _).trans (aborts_whenSet.trans (and_congr_right fun _ => aborts_setMtime))
  have howner : ∀ s' : ServerState MemFs MemFile, s'.fsys.nodes = s.fsys.nodes →
      (Aborts (whenSet (attr.valid &&& (setattrUid ||| setattrGid) ≠ 0) (setOwner memFs st.path attr) >>= fun _ => whenSet (attr.valid &&& setattrMtime ≠ 0) (setMtime memFs st.path attr) >>= fun _ =>
      pure .setAttr : Prog _ _ NinePResponse) s' ↔ _) := fun s' hs' =>
    (aborts_passes ((passes_whenSet passes_setOwner).of_iff (imp_congr_right fun _ => hmeta hs')) fun s'' _ => hmtime s'').trans
      (or_iff_right fun h => calm_setOwner _ (aborts_whenSet.mp h).2)
  have hmode : ∀ s' : ServerState MemFs MemFile, s'.fsys.nodes = s.fsys.nodes → (Aborts (whenSet (attr.valid &&& setattrMode ≠ 0)
      (onFs (memFs.chmod st.path (FileMode.fromPerm (attr.mode &&& 0o777)))) >>= fun _ =>
      whenSet (attr.valid &&& (setattrUid ||| setattrGid) ≠ 0)
      (setOwner memFs st.path attr) >>= fun _ => whenSet (attr.valid &&& setattrMtime ≠ 0) (setMtime memFs st.path attr) >>= fun _ =>
      pure .setAttr : Prog _ _ NinePResponse) s' ↔ _) := fun s' hs' =>
    (aborts_passes ((passes_whenSet passes_chmod).of_iff (imp_congr_right fun _ => by rw [hs'])) fun s'' hs'' =>
      howner s'' (hs''.trans hs')).trans
      (or_iff_right fun h => calm_onFs (MemFs.calm_chmod _ _) _ (aborts_whenSet.mp h).2)
  rw [aborts_passes (passes_whenSet passes_truncate) hmode, aborts_whenSet, aborts_onFs,
    show memFs.truncate = MemFs.truncate from rfl, MemFs.aborts_truncate]
  simp only [decide_eq_true_eq, MemFs.SetAttrPanics]
  tauto

end

end

/-- A `setattr` of fid 1 that sets the modification time 2^63 seconds after the epoch. -/
def lateSetattrFrame : Bytes :=
  [67, 0, 0, 0, 26, 7, 0, 1, 0, 0, 0, 0x20, 1, 0, 0] ++ List.replicate 43 0 ++ [128] ++ List.replicate 8 0

end NinePServer
end Star9
