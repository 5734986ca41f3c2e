import Star9.Base.Regions
import Star9.Base.Triple
import Star9.Protocol.Async
import Star9.Protocol.FidFrame

/-!
# The workers of the asynchronous server

`AsyncNinePServer` gives every accepted request a thread of its own. Here the
handlers of `NinePServer` are cut where those threads can meet: a region is what is
done under one lock of the fid table, or one call of the backing file system, or one
reading of the clock. A worker that is alone computes what the handler computes.
-/
namespace Star9
open Base Prog

namespace NinePServer
namespace Worker
open Regions (atomic)
variable {σ η α : Type} (fs : FileSystem σ η)

/-! ## Handlers cut into regions -/

def attach (fid : UInt32) : Regions (ServerState σ η) Error NinePResponse := do
  let qid ← atomic (onFs (qidFor fs "."))
  atomic (setFid fid (some (.unopened ".")) >>= fun _ => pure (.attach qid))

def walkLoop : String → List Qid → List String → Regions (ServerState σ η) Error (String × List Qid)
  | path, qids, [] => pure (path, qids)
  | path, qids, name :: names =>
    if hasSlash name || name = "" then .fail (.kind .invalid)
    else do
      let nextPath := walkJoin path name
      match ← atomic (Prog.attempt (onFs (qidFor fs nextPath))) with
      | .ok qid => walkLoop nextPath (qids ++ [qid]) names
      | .error err => if qids.isEmpty then .fail err else pure (path, qids)

/-- The check that the new fid is free and its insertion are regions of their own. -/
def walk (fid newfid : UInt32) (names : List String) : Regions (ServerState σ η) Error NinePResponse := do
  let base ← atomic (walkBase fid newfid)
  let (path, qids) ← walkLoop fs base [] names
  atomic (setFid newfid (some (.unopened path)) >>= fun _ => pure (.walk qids))

def lopen (fid flags : UInt32) : Regions (ServerState σ η) Error NinePResponse := do
  let path ← atomic (fidPath fid)
  let f ← atomic (onFs (fs.openFile path (openFlagsFrom9p flags) (FileMode.fromPerm 0o666)))
  let qid ← atomic (onFs (qidFor fs path))
  atomic do
    let st ← getFid fid
    setFid fid (some { st with handle := .file f, flags })
    pure (.lopen qid 0)

def lcreate (fid : UInt32) (name : String) (flags mode : UInt32) :
    Regions (ServerState σ η) Error NinePResponse := do
  let parent ← atomic (fidPath fid)
  let path ← Regions.ofExcept (checkedJoin parent name)
  let f ← atomic (onFs (fs.openFile path (openFlagsFrom9p flags ||| .create) (FileMode.fromPerm (mode &&& 0o777))))
  let qid ← atomic (onFs (qidFor fs path))
  atomic do
    let _ ← getFid fid
    setFid fid (some { path, handle := .file f, flags })
    pure (.lcreate qid 0)

/-- The metadata of the fid are asked for under the lock. -/
def getattr (fid : UInt32) (requestMask : UInt64) : Regions (ServerState σ η) Error NinePResponse := do
  let (st, metadata) ← atomic do
    let st ← getFid fid
    let metadata ← fidMetadata fs fid st
    pure (st, metadata)
  let attr ← atomic (onFs (attrFor fs st.path metadata requestMask))
  pure (.getAttr attr)

def setOwner (path : String) (attr : SetAttr) : Regions (ServerState σ η) Error Unit := do
  let metadata ← atomic (onFs (fs.lstat FsContext.new.noFollow path))
  let uid := if attr.valid &&& setattrUid ≠ 0 then attr.uid else metadata.uid
  let gid := if attr.valid &&& setattrGid ≠ 0 then attr.gid else metadata.gid
  atomic (onFs (fs.chown path uid gid))

def setMtime (path : String) (attr : SetAttr) : Regions (ServerState σ η) Error Unit := do
  let mtime ← atomic (mtimeFor attr)
  atomic (onFs (fs.chtimes path mtime))

def whenSet (c : Bool) (r : Regions (ServerState σ η) Error Unit) : Regions (ServerState σ η) Error Unit :=
  if c then r else pure ()

def setattr (fid : UInt32) (attr : SetAttr) : Regions (ServerState σ η) Error NinePResponse := do
  let path ← atomic (fidPath fid)
  whenSet (attr.valid &&& setattrSize ≠ 0) (atomic (onFs (fs.truncate path attr.size)))
  whenSet (attr.valid &&& setattrMode ≠ 0) (atomic (onFs (fs.chmod path (FileMode.fromPerm (attr.mode &&& 0o777)))))
  whenSet (attr.valid &&& (setattrUid ||| setattrGid) ≠ 0) (setOwner fs path attr)
  whenSet (attr.valid &&& setattrMtime ≠ 0) (setMtime fs path attr)
  pure .setAttr

def xattrwalk (fid newfid : UInt32) (name : String) : Regions (ServerState σ η) Error NinePResponse := do
  let path ← atomic (walkBase fid newfid)
  let data ← atomic (onFs (xattrData fs path name))
  atomic do
    setFid newfid (some { path, handle := .xattrRead data, flags := OpenFlags.rdonly.bits })
    pure (.xattrWalk (UInt64.ofNat data.length))

/-- The fid leaves the table under the lock, and its handle comes along. -/
def takeFid (fid : UInt32) : Prog (ServerState σ η) Error (FidState η) := do
  let st ← getFid fid
  setFid fid none
  pure st

def clunk (fid : UInt32) : Regions (ServerState σ η) Error Unit := do
  let st ← atomic (takeFid fid)
  match st.handle with
  | .xattrWrite write => do
    let _ ← atomic (commitXattr fs st.path write)
    pure ()
  | .file f => do
    let (r, _) ← atomic (onFs (withFile f fs.file.close))
    Regions.ofExcept r
  | _ => pure ()

def remove (fid : UInt32) : Regions (ServerState σ η) Error NinePResponse := do
  let st ← atomic (takeFid fid)
  if st.path = "." then .fail (.kind .invalid)
  else do
    atomic (closeQuietly fs st)
    atomic (onFs (fs.remove st.path))
    pure .remove

def mkdir (fid : UInt32) (name : String) (mode : UInt32) : Regions (ServerState σ η) Error NinePResponse := do
  let parent ← atomic (fidPath fid)
  let path ← Regions.ofExcept (checkedJoin parent name)
  atomic (onFs (fs.mkdir path (FileMode.dir ||| FileMode.fromPerm (mode &&& 0o777))))
  let qid ← atomic (onFs (qidFor fs path))
  pure (.mkdir qid)

def link (fid newdirfid : UInt32) (name : String) : Regions (ServerState σ η) Error NinePResponse := do
  let old ← atomic (fidPath fid)
  let dir ← atomic (fidPath newdirfid)
  let new ← Regions.ofExcept (checkedJoin dir name)
  atomic (onFs (fs.link old new))
  pure .link

def readdirLoop (path : String) (offset count : Nat) :
    Nat → List DirEntry → Bytes → Regions (ServerState σ η) Error Bytes
  | _, [], data => pure data
  | index, entry :: entries, data =>
    let cursor := index + 1
    if cursor ≤ offset then readdirLoop path offset count (index + 1) entries data
    else do
      let qid ← atomic (onFs (qidFor fs (joinPath path entry.name)))
      let encoded ← Regions.ofExcept (encodeDirents
        [{ qid, offset := UInt64.ofNat cursor, typ := direntType entry.metadata.mode, name := entry.name }])
      if count < data.length + encoded.length then pure data
      else readdirLoop path offset count (index + 1) entries (data ++ encoded)

def readdir (fid : UInt32) (offset : UInt64) (count : UInt32) : Regions (ServerState σ η) Error NinePResponse := do
  let path ← atomic (fidPath fid)
  let entries ← atomic (onFs (fs.readDir FsContext.new path))
  let data ← readdirLoop fs path offset.toNat count.toNat 0 entries []
  pure (.readdir data)

def renameAt (olddirfid : UInt32) (oldname : String) (newdirfid : UInt32) (newname : String) :
    Regions (ServerState σ η) Error NinePResponse := do
  let olddir ← atomic (fidPath olddirfid)
  let old ← Regions.ofExcept (checkedJoin olddir oldname)
  let newdir ← atomic (fidPath newdirfid)
  let new ← Regions.ofExcept (checkedJoin newdir newname)
  atomic (onFs (fs.rename old new))
  pure .renameAt

def unlinkAt (dirfid : UInt32) (name : String) (flags : UInt32) :
    Regions (ServerState σ η) Error NinePResponse := do
  let dir ← atomic (fidPath dirfid)
  let path ← Regions.ofExcept (checkedJoin dir name)
  let metadata ← atomic (onFs (fs.lstat FsContext.new.noFollow path))
  match ← atomic (onFs (unlinkRefused fs path metadata flags)) with
  | some kind => .fail (.kind kind)
  | none => do
    atomic (onFs (fs.remove path))
    pure .unlinkAt

def symlink (fid : UInt32) (name target : String) : Regions (ServerState σ η) Error NinePResponse := do
  let dir ← atomic (fidPath fid)
  let path ← Regions.ofExcept (checkedJoin dir name)
  atomic (onFs (fs.symlink target path))
  let qid ← atomic (onFs (qidFor fs path))
  pure (.symlink qid)

def readlink (fid : UInt32) : Regions (ServerState σ η) Error NinePResponse := do
  let path ← atomic (fidPath fid)
  let target ← atomic (onFs (fs.readlink path))
  pure (.readlink target)

/-- The requests that hold the lock all the time are one region. -/
def handle : NinePRequest → Regions (ServerState σ η) Error NinePResponse
  | .version msize v => atomic (version msize v)
  | .attach fid _ _ _ _ => attach fs fid
  | .walk fid newfid names => walk fs fid newfid names
  | .lopen fid flags => lopen fs fid flags
  | .lcreate fid name flags mode _ => lcreate fs fid name flags mode
  | .getAttr fid requestMask => getattr fs fid requestMask
  | .setAttr fid attr => setattr fs fid attr
  | .xattrWalk fid newfid name => xattrwalk fs fid newfid name
  | .xattrCreate fid name size flags => atomic (xattrcreate fid name size flags)
  | .read fid offset count => atomic (read fs fid offset count)
  | .write fid offset data => atomic (write fs fid offset data)
  | .clunk fid => do
    clunk fs fid
    pure .clunk
  | .remove fid => remove fs fid
  | .mkdir fid name mode _ => mkdir fs fid name mode
  | .link fid newdirfid name => link fs fid newdirfid name
  | .readdir fid offset count => readdir fs fid offset count
  | .renameAt olddirfid oldname newdirfid newname => renameAt fs olddirfid oldname newdirfid newname
  | .unlinkAt dirfid name flags => unlinkAt fs dirfid name flags
  | .symlink fid name target _ => symlink fs fid name target
  | .readlink fid => readlink fs fid
  | .fsync fid => atomic (fsync fs fid)
  | .flush _ => pure .flush

/-! ## A worker that is alone -/

theorem alone_walkLoop (path : String) (qids : List Qid) (names : List String) :
    (walkLoop fs path qids names).alone = NinePServer.walkLoop fs path qids names := by
  induction names generalizing path qids with
  | nil => rfl
  | cons name names ih =>
    simp only [walkLoop, NinePServer.walkLoop, Regions.alone_ite, Regions.alone_fail, Regions.alone_bind,
      Regions.alone_atomic]
    congr 2
    funext r
    cases r with
    | ok qid => exact ih _ _
    | error err => simp

theorem alone_readdirLoop (path : String) (offset count index : Nat) (entries : List DirEntry) (data : Bytes) :
    (readdirLoop fs path offset count index entries data).alone =
      NinePServer.readdirLoop fs path offset count index entries data := by
  induction entries generalizing index data with
  | nil => rfl
  | cons entry entries ih => simp [readdirLoop, NinePServer.readdirLoop, ih]

theorem alone_clunk (fid : UInt32) : (clunk fs fid).alone = NinePServer.clunk fs fid := by
  simp only [clunk, NinePServer.clunk, takeFid, Regions.alone_bind, Regions.alone_atomic, bind_assoc, pure_bind]
  congr 1
  funext st
  congr 1
  funext _
  cases st.handle <;> simp

theorem alone_handle (request : NinePRequest) : (handle fs request).alone = NinePServer.handle fs request := by
  cases request with
  | clunk fid => simp [handle, NinePServer.handle, alone_clunk]
  | walk fid newfid names =>
    simp [handle, NinePServer.handle, walk, NinePServer.walk, alone_walkLoop]
  | readdir fid offset count =>
    simp [handle, NinePServer.handle, readdir, NinePServer.readdir, alone_readdirLoop]
  | setAttr fid attr =>
    simp [handle, NinePServer.handle, setattr, NinePServer.setattr, whenSet, NinePServer.whenSet, setOwner,
      NinePServer.setOwner, setMtime, NinePServer.setMtime]
  | unlinkAt dirfid name flags =>
    simp only [handle, NinePServer.handle, unlinkAt, NinePServer.unlinkAt, Regions.alone_bind, Regions.alone_atomic,
      Regions.alone_ofExcept]
    congr 1; funext dir
    congr 1; funext path
    congr 1; funext metadata
    congr 1; funext refused
    cases refused <;> simp
  | _ =>
    simp [handle, NinePServer.handle, attach, NinePServer.attach, lopen, NinePServer.lopen, lcreate,
      NinePServer.lcreate, getattr, NinePServer.getattr, xattrwalk, NinePServer.xattrwalk, remove,
      NinePServer.remove, takeFid, mkdir, NinePServer.mkdir, link, NinePServer.link, renameAt,
      NinePServer.renameAt, symlink, NinePServer.symlink, readlink, NinePServer.readlink]

end Worker

/-! ## A fid that is bound stays bound -/

/-- The fid stands in the table. -/
def Bound (n : UInt32) (s : ServerState σ η) : Prop := (s.fids n).isSome = true

section Bound
variable {σ η α : Type} {n fid : UInt32}

/-- The run does not take the fid out of the table. -/
def KeepsBound (n : UInt32) (p : Prog (ServerState σ η) Error α) : Prop := Safe (Bound n) (fun _ => True) p

theorem keepsBound_of_keeps {p : Prog (ServerState σ η) Error α} (h : Keeps n p) : KeepsBound n p :=
  safe_of_preserves (P := fun st : Option (FidState η) => st.isSome = true) h

theorem keepsBound_onFs (p : Prog σ Error α) : KeepsBound n (onFs p : Prog (ServerState σ η) Error α) :=
  keepsBound_of_keeps (keeps_onFs p)

theorem keepsBound_getFid (fid : UInt32) : KeepsBound n (getFid fid : Prog (ServerState σ η) Error _) :=
  keepsBound_of_keeps (keeps_getFid fid)

theorem keepsBound_fidPath (fid : UInt32) : KeepsBound n (fidPath fid : Prog (ServerState σ η) Error _) :=
  keepsBound_of_keeps (keeps_fidPath fid)

theorem bound_update {s : ServerState σ η} (h : Bound n s) (fid : UInt32) (st : FidState η) :
    (Function.update s.fids fid (some st) n).isSome = true := by
  by_cases hn : n = fid
  · rw [hn, Function.update_self]
    rfl
  · rw [Function.update_of_ne hn]
    exact h

theorem keepsBound_setFid (fid : UInt32) (st : FidState η) :
    KeepsBound n (setFid fid (some st) : Prog (ServerState σ η) Error Unit) :=
  safe_modify fun _ h => bound_update h fid st

theorem keepsBound_onFile (fid : UInt32) (st : FidState η) (f : η) (p : Prog (η × σ) Error α) :
    KeepsBound n (onFile fid st f p) := by
  intro s h
  rw [onFile]
  exact ⟨bound_update h fid _, fun _ _ => trivial⟩

end Bound

namespace Worker
open Regions (atomic)
variable {σ η α : Type} (fs : FileSystem σ η) {n : UInt32}

theorem keeps_atomic {p : Prog (ServerState σ η) Error α} (h : KeepsBound n p) : (atomic p).Keeps (Bound n) :=
  Regions.keeps_atomic fun s hs => (h s hs).1

theorem keeps_onFs (p : Prog σ Error α) : (atomic (onFs p : Prog (ServerState σ η) Error α)).Keeps (Bound n) :=
  keeps_atomic (keepsBound_onFs p)

theorem keeps_fidPath (fid : UInt32) : (atomic (fidPath fid : Prog (ServerState σ η) Error _)).Keeps (Bound n) :=
  keeps_atomic (keepsBound_fidPath fid)

theorem keeps_walkLoop (path : String) (qids : List Qid) (names : List String) :
    (walkLoop fs path qids names).Keeps (Bound n) := by
  induction names generalizing path qids with
  | nil => trivial
  | cons name names ih =>
    refine Regions.keeps_ite trivial (Regions.keeps_bind ?_ fun r => ?_)
    · exact keeps_atomic (keepsBound_of_keeps (preserves_attempt (NinePServer.keeps_onFs _)))
    · cases r with
      | ok qid => exact ih _ _
      | error err => exact Regions.keeps_ite trivial trivial

theorem keeps_readdirLoop (path : String) (offset count index : Nat) (entries : List DirEntry) (data : Bytes) :
    (readdirLoop fs path offset count index entries data).Keeps (Bound n) := by
  induction entries generalizing index data with
  | nil => trivial
  | cons entry entries ih =>
    refine Regions.keeps_ite (ih _ _) (Regions.keeps_bind (keeps_onFs _) fun _ => ?_)
    exact Regions.keeps_bind (Regions.keeps_ofExcept _) fun _ => Regions.keeps_ite trivial (ih _ _)

theorem keeps_takeFid {fid : UInt32} (h : n ≠ fid) :
    (atomic (takeFid fid : Prog (ServerState σ η) Error _)).Keeps (Bound n) :=
  keeps_atomic (keepsBound_of_keeps (preserves_bind (NinePServer.keeps_getFid fid) fun _ =>
    preserves_bind (keeps_setFid h _) fun _ => preserves_pure _))

theorem keeps_clunk {fid : UInt32} (h : n ≠ fid) : (clunk fs fid).Keeps (Bound n) := by
  refine Regions.keeps_bind (keeps_takeFid h) fun st => ?_
  split
  · exact Regions.keeps_bind (keeps_atomic (keepsBound_of_keeps (keeps_commitXattr fs _ _))) fun _ => trivial
  · exact Regions.keeps_bind (keeps_onFs _) fun _ => Regions.keeps_ofExcept _
  · trivial

theorem keeps_remove {fid : UInt32} (h : n ≠ fid) : (remove fs fid).Keeps (Bound n) := by
  refine Regions.keeps_bind (keeps_takeFid h) fun st => Regions.keeps_ite trivial ?_
  refine Regions.keeps_bind (keeps_atomic (keepsBound_of_keeps ?_)) fun _ => ?_
  · unfold closeQuietly
    split
    · exact preserves_bind (NinePServer.keeps_onFs _) fun _ => preserves_pure _
    · exact preserves_pure _
  · exact Regions.keeps_bind (keeps_onFs _) fun _ => trivial

theorem keeps_whenSet (c : Bool) {r : Regions (ServerState σ η) Error Unit} (h : r.Keeps (Bound n)) :
    (whenSet c r).Keeps (Bound n) := Regions.keeps_ite h trivial

theorem keeps_setattr (fid : UInt32) (attr : SetAttr) : (setattr fs fid attr).Keeps (Bound n) := by
  refine Regions.keeps_bind (keeps_fidPath fid) fun path => ?_
  refine Regions.keeps_bind (keeps_whenSet _ (keeps_onFs _)) fun _ => ?_
  refine Regions.keeps_bind (keeps_whenSet _ (keeps_onFs _)) fun _ => ?_
  refine Regions.keeps_bind (keeps_whenSet _ (Regions.keeps_bind (keeps_onFs _) fun _ => keeps_onFs _)) fun _ => ?_
  refine Regions.keeps_bind (keeps_whenSet _ (Regions.keeps_bind (keeps_atomic (keepsBound_of_keeps ?_)) fun _ =>
    keeps_onFs _)) fun _ => trivial
  refine preserves_ite ?_ fun _ => rfl
  split
  · exact preserves_pure _
  · exact preserves_abort

/-- The lock of `getattr` covers the call of the file. -/
theorem keeps_getattr (fid : UInt32) (mask : UInt64) : (getattr fs fid mask).Keeps (Bound n) := by
  refine Regions.keeps_bind (keeps_atomic ?_) fun _ => Regions.keeps_bind (keeps_onFs _) fun _ => trivial
  refine safe_then (keepsBound_getFid fid) fun st => safe_then ?_ fun _ => safe_pure trivial
  unfold fidMetadata
  split
  · exact keepsBound_onFile _ _ _ _
  · exact keepsBound_onFs _
  · exact safe_pure trivial
  · exact safe_pure trivial

theorem keepsBound_read (fid : UInt32) (offset : UInt64) (count : UInt32) :
    KeepsBound n (NinePServer.read fs fid offset count) := by
  refine safe_then (keepsBound_getFid fid) fun st => ?_
  split
  · exact safe_then (keepsBound_onFile _ _ _ _) fun _ => safe_pure trivial
  · exact safe_pure trivial
  · exact safe_throw _
  · exact safe_throw _

theorem keepsBound_write (fid : UInt32) (offset : UInt64) (data : Bytes) :
    KeepsBound n (NinePServer.write fs fid offset data) := by
  refine safe_then (keepsBound_getFid fid) fun st => safe_then ?_ fun _ =>
    safe_ite (fun _ => safe_pure trivial) fun _ => safe_throw _
  unfold writeHandle
  split
  · exact keepsBound_onFile _ _ _ _
  · exact safe_then (safe_reads fun _ _ _ _ => trivial) fun _ => safe_then (keepsBound_setFid _ _) fun _ => safe_pure trivial
  · exact safe_throw _
  · exact safe_throw _

theorem keepsBound_xattrcreate (fid : UInt32) (name : String) (size : UInt64) (flags : UInt32) :
    KeepsBound n (NinePServer.xattrcreate fid name size flags : Prog (ServerState σ η) Error _) := by
  refine safe_ite (fun _ => safe_throw _) fun _ => safe_then (keepsBound_getFid fid) fun st => ?_
  split
  · exact safe_abort
  · exact safe_then (keepsBound_setFid _ _) fun _ => safe_pure trivial

theorem keepsBound_fsync (fid : UInt32) : KeepsBound n (NinePServer.fsync fs fid) := by
  refine safe_then (keepsBound_getFid fid) fun st => ?_
  split
  · refine safe_then (safe_mono (safe_attempt (keepsBound_onFile _ _ _ _)) fun _ _ => trivial) fun r => ?_
    split
    · exact safe_pure trivial
    · exact safe_pure trivial
    · exact safe_throw _
  · exact safe_then (keepsBound_of_keeps (keeps_commitXattr fs _ _)) fun _ =>
      safe_then (keepsBound_setFid _ _) fun _ => safe_pure trivial
  · exact safe_pure trivial

/-- Only a clunk and a remove of the fid take it out of the table. -/
theorem keeps_handle {request : NinePRequest} (hclunk : request ≠ .clunk n) (hremove : request ≠ .remove n) :
    (handle fs request).Keeps (Bound n) := by
  cases request with
  | version msize v => exact keeps_atomic (safe_then (safe_modify fun _ h => h) fun _ => safe_pure trivial)
  | attach fid =>
    exact Regions.keeps_bind (keeps_onFs _) fun _ => keeps_atomic (safe_then (keepsBound_setFid _ _) fun _ => safe_pure trivial)
  | walk fid newfid names =>
    refine Regions.keeps_bind (keeps_atomic (keepsBound_of_keeps (keeps_walkBase fid newfid))) fun _ => ?_
    exact Regions.keeps_bind (keeps_walkLoop fs _ _ _) fun _ =>
      keeps_atomic (safe_then (keepsBound_setFid _ _) fun _ => safe_pure trivial)
  | lopen fid flags =>
    refine Regions.keeps_bind (keeps_fidPath fid) fun _ => Regions.keeps_bind (keeps_onFs _) fun _ => ?_
    exact Regions.keeps_bind (keeps_onFs _) fun _ => keeps_atomic (safe_then (keepsBound_getFid fid) fun _ =>
      safe_then (keepsBound_setFid _ _) fun _ => safe_pure trivial)
  | lcreate fid name flags mode gid =>
    refine Regions.keeps_bind (keeps_fidPath fid) fun _ => Regions.keeps_bind (Regions.keeps_ofExcept _) fun _ => ?_
    refine Regions.keeps_bind (keeps_onFs _) fun _ => Regions.keeps_bind (keeps_onFs _) fun _ => ?_
    exact keeps_atomic (safe_then (keepsBound_getFid fid) fun _ => safe_then (keepsBound_setFid _ _) fun _ =>
      safe_pure trivial)
  | getAttr fid mask => exact keeps_getattr fs fid mask
  | setAttr fid attr => exact keeps_setattr fs fid attr
  | xattrWalk fid newfid name =>
    refine Regions.keeps_bind (keeps_atomic (keepsBound_of_keeps (keeps_walkBase fid newfid))) fun _ => ?_
    exact Regions.keeps_bind (keeps_onFs _) fun _ =>
      keeps_atomic (safe_then (keepsBound_setFid _ _) fun _ => safe_pure trivial)
  | xattrCreate fid name size flags => exact keeps_atomic (keepsBound_xattrcreate fid name size flags)
  | read fid offset count => exact keeps_atomic (keepsBound_read fs fid offset count)
  | write fid offset data => exact keeps_atomic (keepsBound_write fs fid offset data)
  | clunk fid =>
    have hne : n ≠ fid := fun h => hclunk (h ▸ rfl)
    exact Regions.keeps_bind (keeps_clunk fs hne) fun _ => trivial
  | remove fid =>
    have hne : n ≠ fid := fun h => hremove (h ▸ rfl)
    exact keeps_remove fs hne
  | mkdir fid name mode gid =>
    refine Regions.keeps_bind (keeps_fidPath fid) fun _ => Regions.keeps_bind (Regions.keeps_ofExcept _) fun _ => ?_
    exact Regions.keeps_bind (keeps_onFs _) fun _ => Regions.keeps_bind (keeps_onFs _) fun _ => trivial
  | link fid newdirfid name =>
    refine Regions.keeps_bind (keeps_fidPath fid) fun _ => Regions.keeps_bind (keeps_fidPath newdirfid) fun _ => ?_
    exact Regions.keeps_bind (Regions.keeps_ofExcept _) fun _ => Regions.keeps_bind (keeps_onFs _) fun _ => trivial
  | readdir fid offset count =>
    refine Regions.keeps_bind (keeps_fidPath fid) fun _ => Regions.keeps_bind (keeps_onFs _) fun _ => ?_
    exact Regions.keeps_bind (keeps_readdirLoop fs _ _ _ _ _ _) fun _ => trivial
  | renameAt olddirfid oldname newdirfid newname =>
    refine Regions.keeps_bind (keeps_fidPath _) fun _ => Regions.keeps_bind (Regions.keeps_ofExcept _) fun _ => ?_
    refine Regions.keeps_bind (keeps_fidPath _) fun _ => Regions.keeps_bind (Regions.keeps_ofExcept _) fun _ => ?_
    exact Regions.keeps_bind (keeps_onFs _) fun _ => trivial
  | unlinkAt dirfid name flags =>
    refine Regions.keeps_bind (keeps_fidPath _) fun _ => Regions.keeps_bind (Regions.keeps_ofExcept _) fun _ => ?_
    refine Regions.keeps_bind (keeps_onFs _) fun _ => Regions.keeps_bind (keeps_onFs _) fun refused => ?_
    cases refused with
    | some kind => trivial
    | none => exact Regions.keeps_bind (keeps_onFs _) fun _ => trivial
  | symlink fid name target gid =>
    refine Regions.keeps_bind (keeps_fidPath fid) fun _ => Regions.keeps_bind (Regions.keeps_ofExcept _) fun _ => ?_
    exact Regions.keeps_bind (keeps_onFs _) fun _ => Regions.keeps_bind (keeps_onFs _) fun _ => trivial
  | readlink fid =>
    exact Regions.keeps_bind (keeps_fidPath fid) fun _ => Regions.keeps_bind (keeps_onFs _) fun _ => trivial
  | fsync fid => exact keeps_atomic (keepsBound_fsync fs fid)
  | flush oldtag => trivial

/-! ## What a walk does with its new fid -/

/-- A walk that ends well has its new fid in the table right after its last region. -/
theorem walk_endsIn (fid newfid : UInt32) (names : List String) :
    (walk fs fid newfid names).EndsIn (Bound newfid) := by
  have hinsert : ∀ found : String × List Qid,
      (atomic (setFid newfid (some (.unopened found.1)) >>= fun _ => pure (.walk found.2)) :
        Regions (ServerState σ η) Error NinePResponse).EndsIn (Bound newfid) := by
    intro found
    refine Regions.endsIn_atomic fun s _ => ?_
    show (Function.update s.fids newfid _ newfid).isSome = true
    rw [Function.update_self]
    rfl
  refine (Regions.endsIn_bind fun base => ?_).2
  exact Regions.endsIn_bind fun found => ⟨rfl, hinsert found⟩

/-- The first region of a walk is the check of its fids. -/
theorem walk_eq (fid newfid : UInt32) (names : List String) :
    ∃ f, walk fs fid newfid names = .region (fun s => (walkBase fid newfid s).2) fun s => .done (walkBase fid newfid s).1 >>= f :=
  ⟨_, rfl⟩

/-- The check of a walk: with its new fid in the table it ends in an error. -/
theorem walkBase_bound {fid newfid : UInt32} {s : ServerState σ η} (hne : fid ≠ newfid) (h : Bound newfid s) :
    walkBase fid newfid s = (.err (.kind .invalid), s) := by
  have hcond : (decide (newfid ≠ fid) && (s.fids newfid).isSome) = true := by
    simpa [Bound] using And.intro (Ne.symm hne) h
  rw [walkBase, get_bind, if_pos hcond]
  rfl

end Worker
end NinePServer
end Star9
