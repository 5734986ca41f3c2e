import Star9.Protocol.Server

/-!
# The 9P client file system

`NinePClientFs` over an arbitrary transport, with its open files. The state is
the state of the transport and the three counters of the connection. A file that
goes out of scope is dropped, which clunks its fid if it was not closed.
-/
namespace Star9
open Base

structure NinePTransport (τ : Type) where
  roundTrip : Bytes → Prog τ Error Bytes

def loopbackTransport {σ η : Type} (fs : FileSystem σ η) : NinePTransport (ServerState σ η) where
  roundTrip request := NinePServer.handleFrame fs request

structure ClientState (τ : Type) where
  transport : τ
  msize : UInt32
  nextTag : UInt16
  nextFid : UInt32

def rootFid : UInt32 := 1

/-- A client before its first call. -/
def ClientState.new {τ : Type} (transport : τ) : ClientState τ :=
  { transport, msize := defaultMsize, nextTag := 1, nextFid := 2 }

structure NinePFile where
  fid : UInt32
  path : String
  offset : UInt64
  closed : Bool
  dirCache : Option (List DirEntry)
  dirOffset : Nat

def NinePFile.new (fid : UInt32) (path : String) : NinePFile :=
  { fid, path, offset := 0, closed := false, dirCache := none, dirOffset := 0 }

def errnoToError (errno : UInt32) : Error :=
  match errno.toNat with
  | 1 => .kind .permissionDenied
  | 2 => .kind .notFound
  | 9 => .kind .invalid
  | 13 => .kind .permissionDenied
  | 17 => .kind .alreadyExists
  | 20 => .kind .notDir
  | 21 => .kind .isDir
  | 22 => .kind .invalid
  | 38 => .kind .notSupported
  | 39 => .kind .notEmpty
  | _ => .kind .other

def modeFromUnix (mode : UInt32) : FileMode :=
  let kind : FileMode := match (mode &&& 0o170000).toNat with
    | 0o040000 => .dir
    | 0o120000 => .symlink
    | 0o010000 => .namedPipe
    | 0o140000 => .socket
    | _ => .empty
  kind ||| FileMode.fromPerm (mode &&& 0o777)

def modeFromDirentType (typ : UInt8) : FileMode :=
  if typ = dtDir then .dir ||| FileMode.fromPerm 0o755
  else if typ = dtLnk then .symlink ||| FileMode.fromPerm 0o777
  else FileMode.fromPerm 0o644

/-- `none` is the overflow of the modification time, which panics. -/
def metadataFromAttr (path : String) (attr : NinePAttr) : Option Metadata :=
  (epochPlus attr.mtimeSeconds attr.mtimeNanoseconds).map fun modified =>
    { name := baseName path
      mode := modeFromUnix attr.mode
      size := attr.size.toNat
      modified
      uid := attr.uid
      gid := attr.gid }

def direntEntry (dirent : NinePDirent) : DirEntry :=
  { name := dirent.name
    metadata := { name := dirent.name, mode := modeFromDirentType dirent.typ, size := 0,
                  modified := unixEpoch, uid := 0, gid := 0 } }

def decodeXattrNames (data : Bytes) : Except Error (List String) :=
  if data = [] then .ok []
  else if data.getLast? ≠ some 0 then .error (.kind .invalid)
  else (data.dropLast.splitOn 0).mapM fun name =>
    match utf8String? name with
    | some name => .ok name
    | none => .error (.kind .invalid)

def validatedClientPath (op name : String) : Except Error String :=
  if name = "" || startsWithSlash name || (splitSlash name).any (· == "..") then
    .error (.path op name .invalid)
  else if !validPath (cleanPath name) then .error (.path op (cleanPath name) .invalid)
  else .ok (cleanPath name)

def saturatingSub (a b : UInt32) : UInt32 := if b ≤ a then a - b else 0

namespace NinePClientFs
variable {τ α : Type}

/-! ## Calls -/

def allocTag : Prog (ClientState τ) Error UInt16 := fun s =>
  if s.nextTag = notag then (.ok (s.nextTag + 1), { s with nextTag := s.nextTag + 2 })
  else (.ok s.nextTag, { s with nextTag := s.nextTag + 1 })

def allocFid : Prog (ClientState τ) Error UInt32 := fun s =>
  (.ok s.nextFid, { s with nextFid := s.nextFid + 1 })

def onTransport (p : Prog τ Error α) : Prog (ClientState τ) Error α :=
  Prog.zoom (·.transport) (fun transport s => { s with transport }) p

variable (t : NinePTransport τ)

/-- An error number of the server is an error of the call. -/
def received : NinePResponse → Prog (ClientState τ) Error NinePResponse
  | .lerror ecode => throw (errnoToError ecode)
  | response => pure response

def call (request : NinePRequest) : Prog (ClientState τ) Error NinePResponse := do
  let tag ← allocTag
  let frame ← Prog.ofExcept (encodeRequest tag request)
  let response ← onTransport (t.roundTrip frame)
  let (responseTag, response) ← Prog.ofExcept (decodeResponse response)
  if responseTag ≠ tag then throw (.kind .invalid) else received response

/-- The version exchange and the attach of the root fid. -/
def connect : Prog (ClientState τ) Error Unit := do
  match ← call t (.version defaultMsize version9P) with
  | .version msize version =>
    if version = version9P then Prog.modify fun s => { s with msize } else throw (.kind .invalid)
  | _ => throw (.kind .invalid)
  match ← call t (.attach rootFid nofid "star9" "" 0) with
  | .attach _ => pure ()
  | _ => throw (.kind .invalid)

def clunkFid (fid : UInt32) : Prog (ClientState τ) Error Unit := do
  match ← call t (.clunk fid) with
  | .clunk => pure ()
  | _ => throw (.kind .invalid)

/-- Do the work on a fid, then clunk it; an error of the work comes first. -/
def thenClunk (fid : UInt32) (p : Prog (ClientState τ) Error α) : Prog (ClientState τ) Error α := do
  let result ← Prog.attempt p
  let clunk ← Prog.attempt (clunkFid t fid)
  let a ← Prog.ofExcept result
  Prog.ofExcept clunk
  pure a

/-- Give the fid up and report the error. -/
def clunkAndThrow (fid : UInt32) (err : Error) : Prog (ClientState τ) Error α := do
  let _ ← Prog.attempt (clunkFid t fid)
  throw err

def walkNames (name : String) : List String := if name = "." then [] else splitSlash name

/-- The answer of a walk counts only if it has a qid for every name. -/
def walked (fid : UInt32) (name : String) (expectedQids : Nat) : NinePResponse →
    Prog (ClientState τ) Error UInt32
  | .walk qids =>
    if qids.length = expectedQids then pure fid else clunkAndThrow t fid (.path "walk" name .notFound)
  | _ => throw (.kind .invalid)

def walkFid (name : String) : Prog (ClientState τ) Error UInt32 := do
  let name ← Prog.ofExcept (validatedClientPath "walk" name)
  let fid ← allocFid
  let names := walkNames name
  let response ← call t (.walk rootFid fid names)
  walked t fid name names.length response

/-- A call whose answer is only checked for its kind. -/
def expect (accepts : NinePResponse → Bool) (request : NinePRequest) : Prog (ClientState τ) Error Unit := do
  let response ← call t request
  if accepts response then pure () else throw (.kind .invalid)

def getattrFid (fid : UInt32) (path : String) : Prog (ClientState τ) Error Metadata := do
  match ← call t (.getAttr fid attrBasic) with
  | .getAttr attr =>
    match metadataFromAttr path attr with
    | some metadata => pure metadata
    | none => Prog.abort
  | _ => throw (.kind .invalid)

def isLopen : NinePResponse → Bool
  | .lopen _ _ => true
  | _ => false

def isLcreate : NinePResponse → Bool
  | .lcreate _ _ => true
  | _ => false

def isMkdir : NinePResponse → Bool
  | .mkdir _ => true
  | _ => false

def isSymlinkReply : NinePResponse → Bool
  | .symlink _ => true
  | _ => false

/-- Open or create on a walked fid; the fid is given up if that fails. -/
def openFid (accepts : NinePResponse → Bool) (request : NinePRequest) (fid : UInt32) (path : String) :
    Prog (ClientState τ) Error NinePFile := do
  match ← Prog.attempt (expect t accepts request) with
  | .ok () => pure (NinePFile.new fid path)
  | .error err => clunkAndThrow t fid err

def openExisting (name : String) (flags : UInt32) : Prog (ClientState τ) Error NinePFile := do
  let path ← Prog.ofExcept (validatedClientPath "open" name)
  let fid ← walkFid t path
  openFid t isLopen (.lopen fid flags) fid path

def setAttr (path : String) (attr : SetAttr) : Prog (ClientState τ) Error Unit := do
  let fid ← walkFid t path
  thenClunk t fid (expect t (· == .setAttr) (.setAttr fid attr))

def xattrwalkCall (fid newfid : UInt32) (attr : String) : Prog (ClientState τ) Error (UInt32 × UInt64) := do
  match ← call t (.xattrWalk fid newfid attr) with
  | .xattrWalk size => pure (newfid, size)
  | _ => throw (.kind .invalid)

/-- The walked fid is clunked in any case, the new one only after an error. -/
def xattrwalkOn (fid newfid : UInt32) (attr : String) : Prog (ClientState τ) Error (UInt32 × UInt64) := do
  match ← Prog.attempt (thenClunk t fid (xattrwalkCall t fid newfid attr)) with
  | .ok value => pure value
  | .error err => clunkAndThrow t newfid err

def xattrwalkFid (path attr : String) : Prog (ClientState τ) Error (UInt32 × UInt64) := do
  let fid ← walkFid t path
  let newfid ← allocFid
  xattrwalkOn t fid newfid attr

/-- One round of `read_all_fid`. -/
def readChunk (fid : UInt32) (offset : UInt64) (count : UInt32) : Prog (ClientState τ) Error Bytes := do
  match ← call t (.read fid offset count) with
  | .read data => pure data
  | _ => throw (.kind .invalid)

/-- Every round reads at least one byte, so as many rounds as there are bytes
to read are enough. -/
def readAllLoop (fid : UInt32) (size : UInt64) (count : UInt32) :
    Nat → UInt64 → Bytes → Prog (ClientState τ) Error Bytes
  | 0, _, data => pure data
  | rounds + 1, offset, data =>
    if offset < size then do
      let remaining := size - offset
      let chunk ← readChunk t fid offset (min count (UInt32.ofNat (min remaining.toNat (2 ^ 32 - 1))))
      if chunk = [] then throw (.kind .unexpectedEof)
      else if 2 ^ 64 ≤ offset.toNat + chunk.length then throw (.kind .invalid)
      else readAllLoop fid size count rounds (offset + UInt64.ofNat chunk.length) (data ++ chunk)
    else pure data

def readAllFid (fid : UInt32) (size : UInt64) : Prog (ClientState τ) Error Bytes := do
  let s ← Prog.get
  readAllLoop t fid size (max (saturatingSub s.msize 11) 1) size.toNat 0 []

def writeChunk (fid : UInt32) (offset : UInt64) (chunk : Bytes) : Prog (ClientState τ) Error Unit := do
  match ← call t (.write fid offset chunk) with
  | .write count =>
    if count.toNat ≠ chunk.length then throw (.kind .unexpectedEof)
    else if 2 ^ 64 ≤ offset.toNat + chunk.length then throw (.kind .invalid)
    else pure ()
  | _ => throw (.kind .invalid)

/-- The chunks of `data` in order; every chunk has at least one byte. -/
def writeAllLoop (fid : UInt32) (count : Nat) : Nat → UInt64 → Bytes → Prog (ClientState τ) Error Unit
  | 0, _, _ => pure ()
  | rounds + 1, offset, data =>
    if data = [] then pure ()
    else do
      let chunk := data.take count
      writeChunk t fid offset chunk
      writeAllLoop fid count rounds (offset + UInt64.ofNat chunk.length) (data.drop count)

def writeAllFid (fid : UInt32) (data : Bytes) : Prog (ClientState τ) Error Unit := do
  let s ← Prog.get
  writeAllLoop t fid (max (saturatingSub s.msize 23) 1).toNat data.length 0 data

end NinePClientFs

/-! ## Open files -/

namespace NinePFile
open NinePClientFs
variable {τ α : Type} (t : NinePTransport τ)

def onClient (p : Prog (ClientState τ) Error α) : Prog (NinePFile × ClientState τ) Error α :=
  Prog.zoom (·.2) (fun s fs => (fs.1, s)) p

def file : Prog (NinePFile × ClientState τ) Error NinePFile := Prog.reads fun fs => .ok fs.1

def update (g : NinePFile → NinePFile) : Prog (NinePFile × ClientState τ) Error Unit :=
  Prog.modify fun fs => (g fs.1, fs.2)

def ensureOpen : Prog (NinePFile × ClientState τ) Error Unit := do
  if (← file).closed then throw (.kind .closed) else pure ()

/-- The bytes a read puts into a buffer of length `len`; more than fit panic. -/
def readFrom (offset : UInt64) (len : Nat) : Prog (NinePFile × ClientState τ) Error Bytes := do
  let f ← file
  if 2 ^ 32 ≤ len then throw (.kind .invalid)
  else do
    let data ← onClient (readChunk t f.fid offset (UInt32.ofNat len))
    if len < data.length then Prog.abort else pure data

/-- The offset of a file wraps, as where overflows are not checked. -/
def read (len : Nat) : Prog (NinePFile × ClientState τ) Error Bytes := do
  ensureOpen
  let data ← readFrom t (← file).offset len
  update fun f => { f with offset := f.offset + UInt64.ofNat data.length }
  pure data

def readAt (len : Nat) (offset : UInt64) : Prog (NinePFile × ClientState τ) Error Bytes := do
  ensureOpen
  readFrom t offset len

def writeTo (offset : UInt64) (data : Bytes) : Prog (NinePFile × ClientState τ) Error Nat := do
  let f ← file
  match ← onClient (call t (.write f.fid offset data)) with
  | .write count => pure count.toNat
  | _ => throw (.kind .invalid)

def write (data : Bytes) : Prog (NinePFile × ClientState τ) Error Nat := do
  ensureOpen
  let count ← writeTo t (← file).offset data
  update fun f => { f with offset := f.offset + UInt64.ofNat count }
  pure count

def writeAt (data : Bytes) (offset : UInt64) : Prog (NinePFile × ClientState τ) Error Nat := do
  ensureOpen
  writeTo t offset data

def stat : Prog (NinePFile × ClientState τ) Error Metadata := do
  ensureOpen
  let f ← file
  onClient (getattrFid t f.fid f.path)

def seekTarget : SeekFrom → Prog (NinePFile × ClientState τ) Error Int
  | .start pos => pure pos.toNat
  | .current delta => do pure ((← file).offset.toNat + delta)
  | .fromEnd delta => do pure ((← stat t).size + delta)

def seek (pos : SeekFrom) : Prog (NinePFile × ClientState τ) Error UInt64 := do
  ensureOpen
  let next ← seekTarget t pos
  if next < 0 then throw (.kind .invalid)
  else do
    let offset := UInt64.ofNat next.toNat
    update fun f => { f with offset }
    pure offset

def readdirChunk (fid : UInt32) (offset : UInt64) (count : UInt32) : Prog (ClientState τ) Error Bytes := do
  match ← call t (.readdir fid offset count) with
  | .readdir data => pure data
  | _ => throw (.kind .invalid)

/-- `rounds` bounds the calls, which end when the server has no more entries. -/
def readDirLoop (fid : UInt32) (count : UInt32) :
    Nat → UInt64 → List DirEntry → Prog (ClientState τ) Error (List DirEntry)
  | 0, _, _ => Prog.abort
  | rounds + 1, offset, entries => do
    let data ← readdirChunk t fid offset count
    if data = [] then pure entries
    else do
      let dirents ← Prog.ofExcept (decodeDirents data)
      match dirents.getLast? with
      | none => pure entries
      | some last => readDirLoop fid count rounds last.offset (entries ++ dirents.map direntEntry)

/-- The entries of the directory, fetched once and then kept in the handle. -/
def cachedEntries (rounds : Nat) : Prog (NinePFile × ClientState τ) Error (List DirEntry) := do
  let f ← file
  match f.dirCache with
  | some entries => pure entries
  | none => do
    let s ← onClient Prog.get
    let entries ← onClient (readDirLoop t f.fid (saturatingSub s.msize 24) rounds 0 [])
    update fun f => { f with dirCache := some entries }
    pure entries

def readDir (rounds : Nat) (count : Int) : Prog (NinePFile × ClientState τ) Error (List DirEntry) := do
  ensureOpen
  let entries ← cachedEntries t rounds
  let f ← file
  if count < 0 then do
    update fun f => { f with dirOffset := entries.length }
    pure entries
  else if entries.length ≤ f.dirOffset then pure []
  else do
    let stop := if count = 0 then entries.length else min (f.dirOffset + count.toNat) entries.length
    update fun f => { f with dirOffset := stop }
    pure ((entries.take stop).drop f.dirOffset)

def sync : Prog (NinePFile × ClientState τ) Error Unit := do
  ensureOpen
  let f ← file
  onClient (expect t (· == .fsync) (.fsync f.fid))

/-- A close that fails leaves the handle open, and the drop clunks again. -/
def close : Prog (NinePFile × ClientState τ) Error Unit := do
  ensureOpen
  let f ← file
  onClient (clunkFid t f.fid)
  update fun f => { f with closed := true }

def drop (f : NinePFile) : Prog (ClientState τ) Error Unit :=
  if f.closed then pure ()
  else do
    let _ ← Prog.attempt (clunkFid t f.fid)
    pure ()

def handle (rounds : Nat) : FileHandle (ClientState τ) NinePFile where
  read := read t
  write := write t
  readAt := readAt t
  writeAt := writeAt t
  seek := seek t
  stat := stat t
  readDir := readDir t rounds
  sync := sync t
  close := close t

end NinePFile

/-! ## The file system -/

namespace NinePClientFs
variable {τ α : Type} (t : NinePTransport τ)

def open_ (name : String) : Prog (ClientState τ) Error NinePFile := do
  match ← Prog.attempt (openExisting t name OpenFlags.rdwr.bits) with
  | .ok f => pure f
  | .error _ => openExisting t name OpenFlags.rdonly.bits

def stat (name : String) : Prog (ClientState τ) Error Metadata := do
  let name ← Prog.ofExcept (validatedClientPath "stat" name)
  let fid ← walkFid t name
  thenClunk t fid (getattrFid t fid name)

/-- Close a file that then goes out of scope; what was read from it comes first. -/
def closing (f : NinePFile) (result : Except Error α) : Prog (ClientState τ) Error α := do
  let (close, f) ← withFile f (NinePFile.close t)
  f.drop t
  let a ← Prog.ofExcept result
  Prog.ofExcept close
  pure a

def readDir (rounds : Nat) (name : String) : Prog (ClientState τ) Error (List DirEntry) := do
  let f ← openExisting t name OpenFlags.rdonly.bits
  let (entries, f) ← withFile f (NinePFile.readDir t rounds (-1))
  closing t f entries

/-- An opened file goes out of scope when a later step of the open fails. -/
def orDrop (f : NinePFile) (p : Prog (ClientState τ) Error α) : Prog (ClientState τ) Error α := do
  match ← Prog.attempt p with
  | .ok a => pure a
  | .error err => do
    f.drop t
    throw err

def appending (flags : OpenFlags) (f : NinePFile) : Prog (ClientState τ) Error NinePFile :=
  if flags.contains .append then do
    let (r, f) ← withFile f (NinePFile.seek t (.fromEnd 0))
    let _ ← orDrop t f (Prog.ofExcept r)
    pure f
  else pure f

def truncating (flags : OpenFlags) (path : String) (f : NinePFile) : Prog (ClientState τ) Error Unit :=
  if flags.contains .trunc then orDrop t f (setAttr t path { valid := setattrSize, size := 0 })
  else pure ()

def openFile (name : String) (flags : OpenFlags) (perm : FileMode) : Prog (ClientState τ) Error NinePFile := do
  let path ← Prog.ofExcept (validatedClientPath "open" name)
  if path = "." then throw (.path "open" path .invalid)
  else if flags.contains .create then do
    let fid ← walkFid t (parentPath path)
    let f ← openFid t isLcreate (.lcreate fid (baseName path) flags.bits perm.perm 0) fid path
    appending t flags f
  else do
    let f ← openExisting t path flags.bits
    truncating t flags path f
    appending t flags f

def create (name : String) : Prog (ClientState τ) Error NinePFile :=
  openFile t name (.rdwr ||| .create ||| .trunc) (FileMode.fromPerm 0o644)

def mkdir (name : String) (perm : FileMode) : Prog (ClientState τ) Error Unit := do
  let path ← Prog.ofExcept (validatedClientPath "mkdir" name)
  if path = "." then throw (.path "mkdir" path .invalid)
  else do
    let fid ← walkFid t (parentPath path)
    thenClunk t fid (expect t isMkdir (.mkdir fid (baseName path) perm.perm 0))

def remove (name : String) : Prog (ClientState τ) Error Unit := do
  let path ← Prog.ofExcept (validatedClientPath "remove" name)
  if path = "." then throw (.path "remove" path .invalid)
  else do
    let metadata ← stat t path
    let fid ← walkFid t (parentPath path)
    thenClunk t fid (expect t (· == .unlinkAt)
      (.unlinkAt fid (baseName path) (if metadata.isDir then atRemovedir else 0)))

def rename (old new : String) : Prog (ClientState τ) Error Unit := do
  let old ← Prog.ofExcept (validatedClientPath "rename" old)
  let new ← Prog.ofExcept (validatedClientPath "rename" new)
  let oldParent ← walkFid t (parentPath old)
  let newParent ← walkFid t (parentPath new)
  thenClunk t newParent (thenClunk t oldParent
    (expect t (· == .renameAt) (.renameAt oldParent (baseName old) newParent (baseName new))))

def link (old new : String) : Prog (ClientState τ) Error Unit := do
  let old ← Prog.ofExcept (validatedClientPath "link" old)
  let new ← Prog.ofExcept (validatedClientPath "link" new)
  if old = "." ∨ new = "." then throw (.path "link" new .invalid)
  else do
    let oldFid ← walkFid t old
    let newParent ← walkFid t (parentPath new)
    thenClunk t newParent (thenClunk t oldFid
      (expect t (· == .link) (.link oldFid newParent (baseName new))))

def chmod (name : String) (mode : FileMode) : Prog (ClientState τ) Error Unit :=
  setAttr t name { valid := setattrMode, mode := mode.perm }

def chown (name : String) (uid gid : UInt32) : Prog (ClientState τ) Error Unit :=
  setAttr t name { valid := setattrUid ||| setattrGid, uid, gid }

def chtimes (name : String) (mtime : SystemTime) : Prog (ClientState τ) Error Unit :=
  let (secs, nanos) := systemTimeParts mtime
  setAttr t name { valid := setattrMtime ||| setattrMtimeSet, mtimeSeconds := UInt64.ofNat secs,
                   mtimeNanoseconds := UInt64.ofNat nanos }

def truncate (name : String) (size : UInt64) : Prog (ClientState τ) Error Unit :=
  setAttr t name { valid := setattrSize, size }

def symlink (old new : String) : Prog (ClientState τ) Error Unit := do
  let new ← Prog.ofExcept (validatedClientPath "symlink" new)
  let parent ← walkFid t (parentPath new)
  thenClunk t parent (expect t isSymlinkReply (.symlink parent (baseName new) old 0))

def readlinkFid (fid : UInt32) : Prog (ClientState τ) Error String := do
  match ← call t (.readlink fid) with
  | .readlink target => pure target
  | _ => throw (.kind .invalid)

def readlink (name : String) : Prog (ClientState τ) Error String := do
  let fid ← walkFid t name
  thenClunk t fid (readlinkFid t fid)

def writeXattr (fid : UInt32) (attr : String) (data : Bytes) : Prog (ClientState τ) Error Unit := do
  expect t (· == .xattrCreate) (.xattrCreate fid attr (UInt64.ofNat data.length) 0)
  writeAllFid t fid data

def setXattr (name attr : String) (data : Bytes) : Prog (ClientState τ) Error Unit := do
  let path ← Prog.ofExcept (validatedClientPath "setxattr" name)
  let fid ← walkFid t path
  thenClunk t fid (writeXattr t fid attr data)

def getXattr (name attr : String) : Prog (ClientState τ) Error Bytes := do
  let path ← Prog.ofExcept (validatedClientPath "getxattr" name)
  let (fid, size) ← xattrwalkFid t path attr
  thenClunk t fid (readAllFid t fid size)

def readNames (fid : UInt32) (size : UInt64) : Prog (ClientState τ) Error (List String) := do
  let data ← readAllFid t fid size
  Prog.ofExcept (decodeXattrNames data)

def listXattrs (name : String) : Prog (ClientState τ) Error (List String) := do
  let path ← Prog.ofExcept (validatedClientPath "listxattrs" name)
  let (fid, size) ← xattrwalkFid t path ""
  thenClunk t fid (readNames t fid size)

end NinePClientFs

/-- The trait implementation; `rounds` bounds the calls of one directory listing. -/
def clientFs {τ : Type} (t : NinePTransport τ) (rounds : Nat) : FileSystem (ClientState τ) NinePFile where
  open_ _ name := NinePClientFs.open_ t name
  stat _ name := NinePClientFs.stat t name
  lstat _ name := NinePClientFs.stat t name
  readDir _ name := NinePClientFs.readDir t rounds name
  create := NinePClientFs.create t
  openFile := NinePClientFs.openFile t
  mkdir := NinePClientFs.mkdir t
  remove := NinePClientFs.remove t
  rename := NinePClientFs.rename t
  link := NinePClientFs.link t
  chmod := NinePClientFs.chmod t
  chown := NinePClientFs.chown t
  chtimes := NinePClientFs.chtimes t
  truncate := NinePClientFs.truncate t
  symlink := NinePClientFs.symlink t
  readlink := NinePClientFs.readlink t
  setXattr := NinePClientFs.setXattr t
  getXattr := NinePClientFs.getXattr t
  listXattrs := NinePClientFs.listXattrs t
  removeXattr _ _ := throw (.kind .notSupported)
  file := NinePFile.handle t rounds

end Star9
