import Star9.Fs.FileSystem
import Star9.Protocol.Message

/-!
# The 9P server

`NinePServer` over an arbitrary backing file system. The state is the negotiated
message size, the fid table, the backing file system and the system clock. An
abort stands for a panic of the handler.
-/
namespace Star9
open Base

def atRemovedir : UInt32 := 0x200

def qtDir : UInt8 := 0x80
def qtSymlink : UInt8 := 0x02

def dtDir : UInt8 := 4
def dtReg : UInt8 := 8
def dtLnk : UInt8 := 10

def attrBasic : UInt64 := 0x6ff

def setattrMode : UInt32 := 0x001
def setattrUid : UInt32 := 0x002
def setattrGid : UInt32 := 0x004
def setattrSize : UInt32 := 0x008
def setattrMtime : UInt32 := 0x020
def setattrMtimeSet : UInt32 := 0x100

def errnoForKind : ErrorKind → UInt32
  | .notFound => 2
  | .alreadyExists => 17
  | .invalid => 22
  | .permissionDenied => 13
  | .notSupported => 38
  | .notEmpty => 39
  | .closed => 9
  | .notDir => 20
  | .isDir => 21
  | .unexpectedEof => 5
  | .other => 5

def errnoForError (err : Error) : UInt32 := errnoForKind err.errorKind

/-! ## Names, flags and attributes -/

def joinPath (base name : String) : String := cleanPath (childPath base name)

def walkJoin (base name : String) : String :=
  if name = "." then base else if name = ".." then parentPath base else joinPath base name

def hasSlash (name : String) : Bool := name.toList.contains '/'

def checkedJoin (base name : String) : Except Error String :=
  if name = "" || hasSlash name || name = "." || name = ".." then .error (.kind .invalid)
  else .ok (joinPath base name)

def openFlagsFrom9p (flags : UInt32) : OpenFlags :=
  let out : OpenFlags := match flags &&& 3 with
    | 1 => .wronly
    | 2 => .rdwr
    | _ => .rdonly
  [OpenFlags.create, .excl, .trunc, .append].foldl
    (fun out flag => if flags &&& flag.bits ≠ 0 then out ||| flag else out) out

def fnv1a64 (bytes : Bytes) : UInt64 :=
  bytes.foldl (fun hash byte => (hash ^^^ byte.toUInt64) * 0x00000100000001b3) 0xcbf29ce484222325

def qidFromMeta (path : String) (metadata : Metadata) : Qid :=
  { typ := if metadata.mode.isDir then qtDir else if metadata.mode.isSymlink then qtSymlink else 0
    version := 0
    path := fnv1a64 (utf8Bytes path) }

/-- Whole seconds and nanoseconds since the epoch; an earlier time counts as the epoch. -/
def systemTimeParts (time : SystemTime) : Nat × Nat :=
  (time.toNat / 1000000000, time.toNat % 1000000000)

/-- `UNIX_EPOCH + Duration::new(secs, nanos)`, which panics past the last second. -/
def epochPlus (secs nanos : UInt64) : Option SystemTime :=
  let nanos := nanos.toNat % 2 ^ 32
  if secs.toNat + nanos / 1000000000 < 2 ^ 63 then some (secs.toNat * 1000000000 + nanos : Nat) else none

def direntType (mode : FileMode) : UInt8 :=
  if mode.isDir then dtDir else if mode.isSymlink then dtLnk else dtReg

/-- The names in order, each closed by a zero byte. -/
def encodeXattrNames (names : List String) : Bytes :=
  (names.mergeSort fun a b => (compare a b).isLE).flatMap fun name => utf8Bytes name ++ [0]

/-! ## Fids -/

structure XattrWriteState where
  name : String
  flags : UInt32
  expectedSize : UInt64
  data : Bytes
  written : List (Nat × Nat)
  committed : Bool

namespace XattrWriteState

/-- `none` is the failed allocation of an oversized buffer. -/
def new (name : String) (flags : UInt32) (expectedSize : UInt64) : Option XattrWriteState :=
  if 2 ^ 63 ≤ expectedSize.toNat then none
  else some { name, flags, expectedSize, data := List.replicate expectedSize.toNat 0, written := [],
              committed := false }

def isComplete (w : XattrWriteState) : Bool :=
  w.expectedSize == 0 || w.written == [(0, w.expectedSize.toNat)]

/-- One existing range of the merge loop: it stays before or after the new range,
or is swallowed by it. -/
def mergeStep (acc : Nat × Nat × Bool × List (Nat × Nat)) (existing : Nat × Nat) :
    Nat × Nat × Bool × List (Nat × Nat) :=
  let (start, stop, inserted, merged) := acc
  if existing.2 < start then (start, stop, inserted, merged ++ [existing])
  else if stop < existing.1 then
    (start, stop, true, (if inserted then merged else merged ++ [(start, stop)]) ++ [existing])
  else (min start existing.1, max stop existing.2, inserted, merged)

def recordWrite (start stop : Nat) (w : XattrWriteState) : XattrWriteState :=
  if stop ≤ start then w
  else
    let (start, stop, inserted, merged) := w.written.foldl mergeStep (start, stop, false, [])
    { w with written := if inserted then merged else merged ++ [(start, stop)] }

/-- A range past the end of the buffer fails the slice. -/
def writeAt (w : XattrWriteState) (offset : UInt64) (chunk : Bytes) : Outcome Error XattrWriteState :=
  let stop := offset.toNat + chunk.length
  if 2 ^ 64 ≤ stop ∨ w.expectedSize.toNat < stop then .err (.kind .invalid)
  else if w.data.length < stop then .abort
  else
    let data := w.data.take offset.toNat ++ chunk ++ w.data.drop stop
    .ok (recordWrite offset.toNat stop { w with data })

end XattrWriteState

inductive FidHandle (η : Type) where
  | none
  | file (f : η)
  | xattrRead (data : Bytes)
  | xattrWrite (write : XattrWriteState)

structure FidState (η : Type) where
  path : String
  handle : FidHandle η
  flags : UInt32

def FidState.unopened {η : Type} (path : String) : FidState η := { path, handle := .none, flags := 0 }

structure ServerState (σ η : Type) where
  msize : UInt32
  fids : UInt32 → Option (FidState η)
  fsys : σ
  clock : Nat → SystemTime
  ticks : Nat

namespace NinePServer
variable {σ η α : Type}

def new (fsys : σ) (clock : Nat → SystemTime) : ServerState σ η :=
  { msize := defaultMsize, fids := fun _ => none, fsys, clock, ticks := 0 }

def onFs (p : Prog σ Error α) : Prog (ServerState σ η) Error α :=
  Prog.zoom (·.fsys) (fun fsys s => { s with fsys }) p

def setFid (fid : UInt32) (st : Option (FidState η)) : Prog (ServerState σ η) Error Unit :=
  Prog.modify fun s => { s with fids := Function.update s.fids fid st }

def getFid (fid : UInt32) : Prog (ServerState σ η) Error (FidState η) := do
  Prog.ofOption (.kind .invalid) ((← Prog.get).fids fid)

def fidPath (fid : UInt32) : Prog (ServerState σ η) Error String := do
  pure (← getFid fid).path

/-- A call on the file of a fid, which keeps its changes in the table. -/
def onFile (fid : UInt32) (st : FidState η) (f : η) (p : Prog (η × σ) Error α) :
    Prog (ServerState σ η) Error α := fun s =>
  let (r, f, fsys) := p (f, s.fsys)
  (r, { s with fsys, fids := Function.update s.fids fid (some { st with handle := .file f }) })

def currentTime : Prog (ServerState σ η) Error SystemTime := fun s =>
  (.ok (s.clock s.ticks), { s with ticks := s.ticks + 1 })

variable (fs : FileSystem σ η)

def qidFor (path : String) : Prog σ Error Qid := do
  let metadata ← fs.lstat FsContext.new.noFollow path
  pure (qidFromMeta path metadata)

/-- A directory counts its entries, and none if they cannot be listed. -/
def nlinkFor (path : String) (metadata : Metadata) : Prog σ Error UInt64 :=
  if metadata.isDir then do
    match ← Prog.attempt (fs.readDir FsContext.new path) with
    | .ok entries => pure (2 + UInt64.ofNat entries.length)
    | .error _ => pure 2
  else pure 1

def attrWith (path : String) (metadata : Metadata) (requestMask nlink : UInt64) : NinePAttr :=
  let (secs, nanos) := systemTimeParts metadata.modified
  { valid := requestMask &&& attrBasic
    qid := qidFromMeta path metadata
    mode := metadata.mode.unixTypeAndPerm
    uid := metadata.uid
    gid := metadata.gid
    nlink
    rdev := 0
    size := UInt64.ofNat metadata.size
    blksize := 65536
    blocks := UInt64.ofNat ((metadata.size + 65535) / 65536)
    atimeSeconds := UInt64.ofNat secs
    atimeNanoseconds := UInt64.ofNat nanos
    mtimeSeconds := UInt64.ofNat secs
    mtimeNanoseconds := UInt64.ofNat nanos
    ctimeSeconds := UInt64.ofNat secs
    ctimeNanoseconds := UInt64.ofNat nanos
    btimeSeconds := 0
    btimeNanoseconds := 0
    gen := 0
    dataVersion := 0 }

def attrFor (path : String) (metadata : Metadata) (requestMask : UInt64) : Prog σ Error NinePAttr := do
  let nlink ← nlinkFor fs path metadata
  pure (attrWith path metadata requestMask nlink)

/-! ## Handlers -/

def attach (fid : UInt32) : Prog (ServerState σ η) Error NinePResponse := do
  let qid ← onFs (qidFor fs ".")
  setFid fid (some (.unopened "."))
  pure (.attach qid)

/-- The path a walk or an xattr walk starts from; the new fid must be free. -/
def walkBase (fid newfid : UInt32) : Prog (ServerState σ η) Error String := do
  let s ← Prog.get
  if newfid ≠ fid && (s.fids newfid).isSome then throw (.kind .invalid)
  else fidPath fid

/-- The walk stops at the first missing name, and fails if that is the first one. -/
def walkLoop : String → List Qid → List String → Prog (ServerState σ η) Error (String × List Qid)
  | path, qids, [] => pure (path, qids)
  | path, qids, name :: names =>
    if hasSlash name || name = "" then throw (.kind .invalid)
    else do
      let nextPath := walkJoin path name
      match ← Prog.attempt (onFs (qidFor fs nextPath)) with
      | .ok qid => walkLoop nextPath (qids ++ [qid]) names
      | .error err => if qids.isEmpty then throw err else pure (path, qids)

def walk (fid newfid : UInt32) (names : List String) : Prog (ServerState σ η) Error NinePResponse := do
  let base ← walkBase fid newfid
  let (path, qids) ← walkLoop fs base [] names
  setFid newfid (some (.unopened path))
  pure (.walk qids)

def lopen (fid flags : UInt32) : Prog (ServerState σ η) Error NinePResponse := do
  let path ← fidPath fid
  let f ← onFs (fs.openFile path (openFlagsFrom9p flags) (FileMode.fromPerm 0o666))
  let qid ← onFs (qidFor fs path)
  let st ← getFid fid
  setFid fid (some { st with handle := .file f, flags })
  pure (.lopen qid 0)

def lcreate (fid : UInt32) (name : String) (flags mode : UInt32) :
    Prog (ServerState σ η) Error NinePResponse := do
  let parent ← fidPath fid
  let path ← Prog.ofExcept (checkedJoin parent name)
  let f ← onFs (fs.openFile path (openFlagsFrom9p flags ||| .create) (FileMode.fromPerm (mode &&& 0o777)))
  let qid ← onFs (qidFor fs path)
  let _ ← getFid fid
  setFid fid (some { path, handle := .file f, flags })
  pure (.lcreate qid 0)

def fidMetadata (fid : UInt32) (st : FidState η) : Prog (ServerState σ η) Error Metadata :=
  match st.handle with
  | .file f => onFile fid st f fs.file.stat
  | .none => onFs (fs.lstat FsContext.new.noFollow st.path)
  | .xattrRead data => pure (Metadata.file "xattr" 0o444 data.length)
  | .xattrWrite write => pure (Metadata.file "xattr" 0o200 write.expectedSize.toNat)

def getattr (fid : UInt32) (requestMask : UInt64) : Prog (ServerState σ η) Error NinePResponse := do
  let st ← getFid fid
  let metadata ← fidMetadata fs fid st
  let attr ← onFs (attrFor fs st.path metadata requestMask)
  pure (.getAttr attr)

def setOwner (path : String) (attr : SetAttr) : Prog (ServerState σ η) Error Unit := do
  let metadata ← onFs (fs.lstat FsContext.new.noFollow path)
  let uid := if attr.valid &&& setattrUid ≠ 0 then attr.uid else metadata.uid
  let gid := if attr.valid &&& setattrGid ≠ 0 then attr.gid else metadata.gid
  onFs (fs.chown path uid gid)

def mtimeFor (attr : SetAttr) : Prog (ServerState σ η) Error SystemTime :=
  if attr.valid &&& setattrMtimeSet ≠ 0 then
    match epochPlus attr.mtimeSeconds attr.mtimeNanoseconds with
    | some mtime => pure mtime
    | none => Prog.abort
  else currentTime

def setMtime (path : String) (attr : SetAttr) : Prog (ServerState σ η) Error Unit := do
  let mtime ← mtimeFor attr
  onFs (fs.chtimes path mtime)

/-- Run a part of a request only when its bit is set. -/
def whenSet (c : Bool) (p : Prog (ServerState σ η) Error Unit) : Prog (ServerState σ η) Error Unit :=
  if c then p else pure ()

def setattr (fid : UInt32) (attr : SetAttr) : Prog (ServerState σ η) Error NinePResponse := do
  let path ← fidPath fid
  whenSet (attr.valid &&& setattrSize ≠ 0) (onFs (fs.truncate path attr.size))
  whenSet (attr.valid &&& setattrMode ≠ 0) (onFs (fs.chmod path (FileMode.fromPerm (attr.mode &&& 0o777))))
  whenSet (attr.valid &&& (setattrUid ||| setattrGid) ≠ 0) (setOwner fs path attr)
  whenSet (attr.valid &&& setattrMtime ≠ 0) (setMtime fs path attr)
  pure .setAttr

/-- The empty name asks for the list of names. -/
def xattrData (path name : String) : Prog σ Error Bytes :=
  if name = "" then do
    let names ← fs.listXattrs path
    pure (encodeXattrNames names)
  else fs.getXattr path name

def xattrwalk (fid newfid : UInt32) (name : String) : Prog (ServerState σ η) Error NinePResponse := do
  let path ← walkBase fid newfid
  let data ← onFs (xattrData fs path name)
  setFid newfid (some { path, handle := .xattrRead data, flags := OpenFlags.rdonly.bits })
  pure (.xattrWalk (UInt64.ofNat data.length))

def xattrcreate (fid : UInt32) (name : String) (size : UInt64) (flags : UInt32) :
    Prog (ServerState σ η) Error NinePResponse :=
  if name = "" then throw (.kind .invalid)
  else do
    let st ← getFid fid
    match XattrWriteState.new name flags size with
    | none => Prog.abort
    | some write => do
      setFid fid (some { st with handle := .xattrWrite write, flags := OpenFlags.wronly.bits })
      pure .xattrCreate

def read (fid : UInt32) (offset : UInt64) (count : UInt32) : Prog (ServerState σ η) Error NinePResponse := do
  let st ← getFid fid
  match st.handle with
  | .file f => do
    let data ← onFile fid st f (fs.file.readAt count.toNat offset)
    pure (.read (data.take count.toNat))
  | .xattrRead data => pure (.read ((data.drop offset.toNat).take count.toNat))
  | .xattrWrite _ => throw (.kind .permissionDenied)
  | .none => throw (.kind .invalid)

def writeHandle (fid : UInt32) (st : FidState η) (offset : UInt64) (data : Bytes) :
    Prog (ServerState σ η) Error Nat :=
  match st.handle with
  | .file f => onFile fid st f (fs.file.writeAt data offset)
  | .xattrWrite write => do
    let write ← Prog.reads fun _ => write.writeAt offset data
    setFid fid (some { st with handle := .xattrWrite write })
    pure data.length
  | .xattrRead _ => throw (.kind .permissionDenied)
  | .none => throw (.kind .invalid)

def write (fid : UInt32) (offset : UInt64) (data : Bytes) : Prog (ServerState σ η) Error NinePResponse := do
  let st ← getFid fid
  let count ← writeHandle fs fid st offset data
  if count < 2 ^ 32 then pure (.write (UInt32.ofNat count)) else throw (.kind .invalid)

/-- Returns the write state with its commit noted. -/
def commitXattr (path : String) (write : XattrWriteState) : Prog (ServerState σ η) Error XattrWriteState :=
  if write.committed then pure write
  else if !write.isComplete then throw (.kind .invalid)
  else do
    onFs (fs.setXattr path write.name write.data)
    pure { write with committed := true }

/-- The fid is gone whatever the commit or the close returns. -/
def clunk (fid : UInt32) : Prog (ServerState σ η) Error Unit := do
  let st ← getFid fid
  setFid fid none
  match st.handle with
  | .xattrWrite write => do
    let _ ← commitXattr fs st.path write
    pure ()
  | .file f => do
    let (r, _) ← onFs (withFile f fs.file.close)
    Prog.ofExcept r
  | _ => pure ()

/-- Close the file of a fid that has left the table, whatever the close returns. -/
def closeQuietly (st : FidState η) : Prog (ServerState σ η) Error Unit :=
  match st.handle with
  | .file f => do
    let _ ← onFs (withFile f fs.file.close)
    pure ()
  | _ => pure ()

def remove (fid : UInt32) : Prog (ServerState σ η) Error NinePResponse := do
  let st ← getFid fid
  setFid fid none
  if st.path = "." then throw (.kind .invalid)
  else do
    closeQuietly fs st
    onFs (fs.remove st.path)
    pure .remove

def mkdir (fid : UInt32) (name : String) (mode : UInt32) : Prog (ServerState σ η) Error NinePResponse := do
  let parent ← fidPath fid
  let path ← Prog.ofExcept (checkedJoin parent name)
  onFs (fs.mkdir path (FileMode.dir ||| FileMode.fromPerm (mode &&& 0o777)))
  let qid ← onFs (qidFor fs path)
  pure (.mkdir qid)

def link (fid newdirfid : UInt32) (name : String) : Prog (ServerState σ η) Error NinePResponse := do
  let old ← fidPath fid
  let dir ← fidPath newdirfid
  let new ← Prog.ofExcept (checkedJoin dir name)
  onFs (fs.link old new)
  pure .link

/-- Entries after the offset are packed while the next one still fits the count. -/
def readdirLoop (path : String) (offset count : Nat) :
    Nat → List DirEntry → Bytes → Prog (ServerState σ η) Error Bytes
  | _, [], data => pure data
  | index, entry :: entries, data =>
    let cursor := index + 1
    if cursor ≤ offset then readdirLoop path offset count (index + 1) entries data
    else do
      let qid ← onFs (qidFor fs (joinPath path entry.name))
      let encoded ← Prog.ofExcept (encodeDirents
        [{ qid, offset := UInt64.ofNat cursor, typ := direntType entry.metadata.mode, name := entry.name }])
      if count < data.length + encoded.length then pure data
      else readdirLoop path offset count (index + 1) entries (data ++ encoded)

def readdir (fid : UInt32) (offset : UInt64) (count : UInt32) : Prog (ServerState σ η) Error NinePResponse := do
  let path ← fidPath fid
  let entries ← onFs (fs.readDir FsContext.new path)
  let data ← readdirLoop fs path offset.toNat count.toNat 0 entries []
  pure (.readdir data)

def renameAt (olddirfid : UInt32) (oldname : String) (newdirfid : UInt32) (newname : String) :
    Prog (ServerState σ η) Error NinePResponse := do
  let olddir ← fidPath olddirfid
  let old ← Prog.ofExcept (checkedJoin olddir oldname)
  let newdir ← fidPath newdirfid
  let new ← Prog.ofExcept (checkedJoin newdir newname)
  onFs (fs.rename old new)
  pure .renameAt

/-- A directory that still lists entries is not unlinked. -/
def unlinkRefused (path : String) (metadata : Metadata) (flags : UInt32) : Prog σ Error (Option ErrorKind) :=
  if metadata.isDir && flags &&& atRemovedir = 0 then pure (some .isDir)
  else if !metadata.isDir && flags &&& atRemovedir ≠ 0 then pure (some .notDir)
  else if metadata.isDir then do
    let entries ← fs.readDir FsContext.new path
    pure (if entries.isEmpty then none else some .notEmpty)
  else pure none

def unlinkAt (dirfid : UInt32) (name : String) (flags : UInt32) :
    Prog (ServerState σ η) Error NinePResponse := do
  let dir ← fidPath dirfid
  let path ← Prog.ofExcept (checkedJoin dir name)
  let metadata ← onFs (fs.lstat FsContext.new.noFollow path)
  match ← onFs (unlinkRefused fs path metadata flags) with
  | some kind => throw (.kind kind)
  | none => do
    onFs (fs.remove path)
    pure .unlinkAt

def symlink (fid : UInt32) (name target : String) : Prog (ServerState σ η) Error NinePResponse := do
  let dir ← fidPath fid
  let path ← Prog.ofExcept (checkedJoin dir name)
  onFs (fs.symlink target path)
  let qid ← onFs (qidFor fs path)
  pure (.symlink qid)

def readlink (fid : UInt32) : Prog (ServerState σ η) Error NinePResponse := do
  let path ← fidPath fid
  let target ← onFs (fs.readlink path)
  pure (.readlink target)

def fsync (fid : UInt32) : Prog (ServerState σ η) Error NinePResponse := do
  let st ← getFid fid
  match st.handle with
  | .file f => do
    match ← Prog.attempt (onFile fid st f fs.file.sync) with
    | .ok () => pure .fsync
    | .error (.kind .notSupported) => pure .fsync
    | .error err => throw err
  | .xattrWrite write => do
    let write ← commitXattr fs st.path write
    setFid fid (some { st with handle := .xattrWrite write })
    pure .fsync
  | _ => pure .fsync

def version (msize : UInt32) (version : String) : Prog (ServerState σ η) Error NinePResponse := do
  let negotiated := min msize defaultMsize
  Prog.modify fun s => { s with msize := negotiated }
  pure (.version negotiated
    (if "9P2000".toList <+: version.toList then version9P else "unknown"))

def handle : NinePRequest → Prog (ServerState σ η) Error NinePResponse
  | .version msize v => version msize v
  | .attach fid _ _ _ _ => attach fs fid
  | .walk fid newfid names => walk fs fid newfid names
  | .lopen fid flags => lopen fs fid flags
  | .lcreate fid name flags mode _ => lcreate fs fid name flags mode
  | .getAttr fid requestMask => getattr fs fid requestMask
  | .setAttr fid attr => setattr fs fid attr
  | .xattrWalk fid newfid name => xattrwalk fs fid newfid name
  | .xattrCreate fid name size flags => xattrcreate fid name size flags
  | .read fid offset count => read fs fid offset count
  | .write fid offset data => write fs fid offset data
  | .clunk fid => do
    clunk fs fid
    pure .clunk
  | .remove fid => remove fs fid
  | .mkdir fid name mode _ => mkdir fs fid name mode
  | .link fid newdirfid name => link fs fid newdirfid name
  | .readdir fid offset count => readdir fs fid offset count
  | .renameAt olddirfid oldname newdirfid newname => renameAt fs olddirfid oldname newdirfid newname
  | .unlinkAt dirfid name flags => unlinkAt fs dirfid name flags
  | .symlink fid name target _ => symlink fs fid name target
  | .readlink fid => readlink fs fid
  | .fsync fid => fsync fs fid
  | .flush _ => pure .flush

/-- A failed request is answered with its error number. -/
def respond (request : NinePRequest) : Prog (ServerState σ η) Error NinePResponse := do
  match ← Prog.attempt (handle fs request) with
  | .ok response => pure response
  | .error err => pure (.lerror (errnoForError err))

def handleFrame (frame : Bytes) : Prog (ServerState σ η) Error Bytes := do
  let (tag, request) ← Prog.ofExcept (decodeRequest frame)
  let response ← respond fs request
  Prog.ofExcept (encodeResponse tag response)

end NinePServer
end Star9
