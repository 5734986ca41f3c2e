import Star9.Runtime.Wasi

/-!
# Descriptor imports of a guest

The imports of the first preview of the system interface that work on open descriptors and on
buffers in the memory of the guest. Arguments are signed words; an addition or a multiplication
on them that leaves their range aborts, as does an allocation of a negative length, which is past
the largest one once it is cast.
-/
namespace Star9
open Base Prog

namespace Errno

def again : Errno := 6

def fromFdLookupError (err : Error) : Errno := if err.errorKind = .invalid then badf else fromError err

end Errno

namespace WasiCaller
variable {σ η α : Type}

/-! ## Words -/

/-- An unsigned word cast to a signed one. -/
def asI32 (n : Nat) : Int := (n : Int).bmod (2 ^ 32)

/-- A signed word cast to an unsigned one. -/
def asU32 (n : Int) : Nat := (n % 2 ^ 32).toNat

def checkedI32 (n : Int) : Prog (WasiCaller σ η) Errno Int := if n < -2 ^ 31 ∨ 2 ^ 31 ≤ n then abort else pure n

/-- `base + index * size` -/
def element (base index size : Int) : Prog (WasiCaller σ η) Errno Int := do
  let scaled ← checkedI32 (index * size)
  checkedI32 (base + scaled)

def saturatingAddU32 (a b : Nat) : Nat := min (a + b % 2 ^ 32) (2 ^ 32 - 1)

def saturatingAddU64 (a b : Nat) : Nat := min (a + b) (2 ^ 64 - 1)

/-- `vec![0; len as usize]` -/
def allocate (len : Int) : Prog (WasiCaller σ η) Errno Nat := if len < 0 then abort else pure len.toNat

def readLe (width : Nat) (ptr : Int) : Prog (WasiCaller σ η) Errno Nat := do
  let w ← get
  ofOption Errno.inval ((w.readBytes ptr width).map leValue)

def writeU16 (ptr : Int) (value : Nat) : Prog (WasiCaller σ η) Errno Unit := writeBytes ptr (leBytes 2 value)

/-! ## Buffers of a guest -/

def readIovDescriptorsFrom (ptr : Int) : Nat → Nat → Prog (WasiCaller σ η) Errno (List (Int × Int))
  | 0, _ => pure []
  | count + 1, index => do
    let offset ← element ptr index 8
    let dataPtr ← readLe 4 offset
    let dataLen ← readLe 4 (← checkedI32 (offset + 4))
    let rest ← readIovDescriptorsFrom ptr count (index + 1)
    pure ((asI32 dataPtr, asI32 dataLen) :: rest)

def readIovDescriptors (ptr len : Int32) : Prog (WasiCaller σ η) Errno (List (Int × Int)) :=
  if len < 0 then throw Errno.inval else readIovDescriptorsFrom ptr.toInt len.toInt.toNat 0

def readIovBytes : List (Int × Int) → Prog (WasiCaller σ η) Errno (List Bytes)
  | [] => pure []
  | (ptr, len) :: iovs => do
    let w ← get
    let bytes ← ofOption Errno.inval (w.readBytes ptr len)
    let rest ← readIovBytes iovs
    pure (bytes :: rest)

def readIovs (ptr len : Int32) : Prog (WasiCaller σ η) Errno (List Bytes) := do
  let iovs ← readIovDescriptors ptr len
  readIovBytes iovs

def writeStringArrayFrom (ptrsPtr : Int) : List String → Nat → Int → Prog (WasiCaller σ η) Errno Unit
  | [], _, _ => pure ()
  | value :: strings, index, cursor => do
    let bytes := utf8Bytes value
    writeU32 (← element ptrsPtr (asI32 index) 4) (asU32 cursor)
    writeBytes cursor bytes
    let cursor ← checkedI32 (cursor + asI32 bytes.length)
    writeBytes cursor [0]
    let cursor ← checkedI32 (cursor + 1)
    writeStringArrayFrom ptrsPtr strings (index + 1) cursor

/-! ## Open files -/

def fdError (fd : Int32) : Error := .path "fd" (toString fd.toUInt32.toNat) .invalid

/-- A call on an open file. The table keeps what the call made of the handle. -/
def withFdMut (fd : Int32) (p : Prog (η × σ) Error α) : Prog (WasiCaller σ η) Errno α := fun w =>
  match w.files[fd.toUInt32.toNat]? with
  | none => (.err (Errno.fromError (fdError fd)), w)
  | some file =>
    let keep (handle : η) (ns : σ) : WasiCaller σ η := { w with ns, files := w.files.insert fd.toUInt32.toNat { file with file := handle } }
    match p (file.file, w.ns) with
    | (.ok a, handle, ns) => (.ok a, keep handle ns)
    | (.err e, handle, ns) => (.err (Errno.fromError e), keep handle ns)
    | (.abort, handle, ns) => (.abort, keep handle ns)

def fdPathOf (fd : Int32) : Prog (WasiCaller σ η) Errno String := do
  let w ← get
  ofOption (Errno.fromError (fdError fd)) (w.fdPath fd)

end WasiCaller

/-! ## Handles -/

namespace FileHandle
variable {σ η α : Type} (file : FileHandle σ η)

def syncIgnoringUnsupported : Prog (η × σ) Error Unit := do
  match ← attempt file.sync with
  | .ok () => pure ()
  | .error err => if err.errorKind = .notSupported then pure () else throw err

/-- The offset is put back after the operation where there was one before. -/
def withPreservedOffset (op : Prog (η × σ) Error α) : Prog (η × σ) Error α := do
  let original ← attempt (file.seek (.current 0))
  let result ← attempt op
  match original with
  | .error _ => Prog.ofExcept result
  | .ok original =>
    match ← attempt (file.seek (.start original)) with
    | .ok _ => Prog.ofExcept result
    | .error err =>
      match result with
      | .ok _ => throw err
      | .error e => throw e

end FileHandle

/-! ## The imports -/

namespace Wasi
variable {σ η : Type} (ns : FileSystem σ η)
open WasiCaller

def writeBuffers (fd : Int32) : List Bytes → Nat → Prog (WasiCaller σ η) Errno Nat
  | [], written => pure written
  | data :: buffers, written => do
    let n ← withFdMut fd do
      let n ← ns.file.write data
      ns.file.syncIgnoringUnsupported
      pure n
    writeBuffers fd buffers (saturatingAddU32 written n)

def fdWrite (fd iovsPtr iovsLen nwrittenPtr : Int32) : Prog (WasiCaller σ η) Errno Unit := do
  let buffers ← readIovs iovsPtr iovsLen
  let written ← writeBuffers ns fd buffers 0
  writeU32 nwrittenPtr.toInt written

/-- `&buf[..n]`: a handle reads at most what was asked for. -/
def filled (len : Nat) (bytes : Bytes) : Prog (WasiCaller σ η) Errno Bytes := if len < bytes.length then abort else pure bytes

def readBuffers (fd : Int32) : List (Int × Int) → Nat → Prog (WasiCaller σ η) Errno Nat
  | [], total => pure total
  | (ptr, len) :: iovs, total => do
    let size ← allocate len
    let bytes ← filled size (← withFdMut fd (ns.file.read size))
    writeBytes ptr bytes
    let total := saturatingAddU32 total bytes.length
    if bytes.length < size then pure total else readBuffers fd iovs total

def fdRead (fd iovsPtr iovsLen nreadPtr : Int32) : Prog (WasiCaller σ η) Errno Unit := do
  let iovs ← readIovDescriptors iovsPtr iovsLen
  let total ← readBuffers ns fd iovs 0
  writeU32 nreadPtr.toInt total

def pwriteBuffers (fd : Int32) : List Bytes → Nat → Nat → Prog (WasiCaller σ η) Errno Nat
  | [], written, _ => pure written
  | data :: buffers, written, currentOffset => do
    let n ← withFdMut fd <| ns.file.withPreservedOffset do
      let n ← ns.file.writeAt data (UInt64.ofNat currentOffset)
      ns.file.syncIgnoringUnsupported
      pure n
    let written := saturatingAddU32 written n
    if n < data.length then pure written else pwriteBuffers fd buffers written (saturatingAddU64 currentOffset n)

def fdPwrite (fd iovsPtr iovsLen : Int32) (offset : Int64) (nwrittenPtr : Int32) : Prog (WasiCaller σ η) Errno Unit :=
  if offset < 0 then throw Errno.inval
  else do
    let buffers ← readIovs iovsPtr iovsLen
    let written ← pwriteBuffers ns fd buffers 0 offset.toInt.toNat
    writeU32 nwrittenPtr.toInt written

def preadBuffers (fd : Int32) : List (Int × Int) → Nat → Nat → Prog (WasiCaller σ η) Errno Nat
  | [], total, _ => pure total
  | (ptr, len) :: iovs, total, currentOffset => do
    let size ← allocate len
    let bytes ← filled size (← withFdMut fd (ns.file.withPreservedOffset (ns.file.readAt size (UInt64.ofNat currentOffset))))
    writeBytes ptr bytes
    let total := saturatingAddU32 total bytes.length
    if bytes.length < size then pure total else preadBuffers fd iovs total (saturatingAddU64 currentOffset bytes.length)

def fdPread (fd iovsPtr iovsLen : Int32) (offset : Int64) (nreadPtr : Int32) : Prog (WasiCaller σ η) Errno Unit :=
  if offset < 0 then throw Errno.inval
  else do
    let iovs ← readIovDescriptors iovsPtr iovsLen
    let total ← preadBuffers ns fd iovs 0 offset.toInt.toNat
    writeU32 nreadPtr.toInt total

def whenceSet : Int32 := 0
def whenceCur : Int32 := 1
def whenceEnd : Int32 := 2

def seekFrom (offset : Int64) (whence : Int32) : Option SeekFrom :=
  if whence = whenceSet ∧ 0 ≤ offset then some (.start offset.toUInt64)
  else if whence = whenceCur then some (.current offset.toInt)
  else if whence = whenceEnd then some (.fromEnd offset.toInt)
  else none

def fdSeek (fd : Int32) (offset : Int64) (whence newOffsetPtr : Int32) : Prog (WasiCaller σ η) Errno Unit := do
  let pos ← ofOption Errno.inval (seekFrom offset whence)
  let newOffset ← withFdMut fd (ns.file.seek pos)
  writeU64 newOffsetPtr.toInt newOffset.toNat

def fdTell (fd offsetPtr : Int32) : Prog (WasiCaller σ η) Errno Unit := do
  let offset ← withFdMut fd (ns.file.seek (.current 0))
  writeU64 offsetPtr.toInt offset.toNat

/-- `fd_sync` and `fd_datasync` -/
def syncTaskFd (fd : Int32) : Prog (WasiCaller σ η) Errno Unit := withFdMut fd ns.file.syncIgnoringUnsupported

/-- The descriptor is free whatever closing its file answers. -/
def fdClose (fd : Int32) : Prog (WasiCaller σ η) Errno Unit := fun w =>
  match w.files[fd.toUInt32.toNat]? with
  | none => (.err (Errno.fromError (.path "closefd" (toString fd.toUInt32.toNat) .invalid)), w)
  | some file =>
    let keep (ns : σ) : WasiCaller σ η := { w with ns, files := w.files.erase fd.toUInt32.toNat }
    match ns.file.close (file.file, w.ns) with
    | (.ok (), _, ns) => (.ok (), keep ns)
    | (.err e, _, ns) => (.err (Errno.fromError e), keep ns)
    | (.abort, _, ns) => (.abort, keep ns)

def renumberError (fd : Int32) : Errno := Errno.fromError (.path "renumberfd" (toString fd.toUInt32.toNat) .invalid)

def fdRenumber (source target : Int32) : Prog (WasiCaller σ η) Errno Unit := fun w =>
  match w.files[source.toUInt32.toNat]? with
  | none => (.err (renumberError source), w)
  | some file =>
    if source = target then (.ok (), w)
    else
      match w.files[target.toUInt32.toNat]? with
      | none => (.err (renumberError target), w)
      | some _ =>
        match withFdMut target ns.file.close w with
        | (.ok (), w) => (.ok (), { w with files := (w.files.erase source.toUInt32.toNat).insert target.toUInt32.toNat file })
        | (.err e, w) => (.err e, w)
        | (.abort, w) => (.abort, w)

def fdAllocate (fd : Int32) (offset len : Int64) : Prog (WasiCaller σ η) Errno Unit :=
  if offset < 0 ∨ len < 0 then throw Errno.inval
  else
    let limit := offset.toInt.toNat + len.toInt.toNat
    withFdMut fd do
      let metadata ← ns.file.stat
      if metadata.size < limit then
        ns.file.withPreservedOffset do
          let _ ← ns.file.writeAt [0] (UInt64.ofNat (limit - 1))
          ns.file.syncIgnoringUnsupported
      else pure ()

def fdFilestatGet (fd statPtr : Int32) : Prog (WasiCaller σ η) Errno Unit := do
  let metadata ← withFdMut fd ns.file.stat
  writeFilestat statPtr.toInt metadata.mode metadata.size

def fdFilestatSetSize (fd : Int32) (size : Int64) : Prog (WasiCaller σ η) Errno Unit :=
  if size < 0 then throw Errno.inval
  else do
    let path ← fdPathOf fd
    call (ns.truncate path size.toUInt64)

/-! ### Directories -/

structure DirentRecord where
  next : Nat
  inode : UInt64
  type : UInt8
  name : Bytes
  deriving DecidableEq

def direntHeadSize : Nat := 24

def DirentRecord.headBytes (record : DirentRecord) : Bytes :=
  leBytes 8 record.next ++ leBytes 8 record.inode.toNat ++ leBytes 4 record.name.length ++ [record.type, 0, 0, 0]

/-- The records of a directory: itself, its parent and its entries, numbered from one. -/
def direntRecords (inode : String → UInt64) (path : String) (entries : List DirEntry) : List DirentRecord :=
  ⟨1, inode path, 3, utf8Bytes "."⟩ :: ⟨2, inode (parentWasiPath path), 3, utf8Bytes ".."⟩ ::
    entries.zipIdx.map fun entry =>
      ⟨entry.2 + 3, inode (joinWasiPath path entry.1.name), filetype entry.1.metadata.mode, utf8Bytes entry.1.name⟩

/-- `inode` hashes a path. -/
def wasiReaddirEntries (inode : String → UInt64) (fd : Int32) : Prog (WasiCaller σ η) Errno (List DirentRecord) := do
  let path ← fdPathOf fd
  let metadata ← call (ns.stat FsContext.new path)
  if !metadata.isDir then throw (Errno.fromError (.path "readdir" path .notDir))
  else do
    let entries ← call (ns.readDir FsContext.new path)
    pure (direntRecords inode path entries)

/-- The records that fit; a record that does not fit makes the buffer count as used. -/
def writeDirents (bufLen : Nat) : List DirentRecord → Int → Nat → Prog (WasiCaller σ η) Errno Nat
  | [], _, bufused => pure bufused
  | record :: records, cursor, bufused =>
    if bufLen - bufused < direntHeadSize then pure bufLen
    else do
      writeBytes cursor record.headBytes
      let cursor ← checkedI32 (cursor + direntHeadSize)
      let bufused := bufused + direntHeadSize
      if bufLen - bufused < record.name.length then pure bufLen
      else do
        writeBytes cursor record.name
        let cursor ← checkedI32 (cursor + asI32 record.name.length)
        writeDirents bufLen records cursor (bufused + record.name.length)

def fdReaddir (inode : String → UInt64) (fd bufPtr bufLen : Int32) (cookie : Int64) (bufusedPtr : Int32) :
    Prog (WasiCaller σ η) Errno Unit :=
  if bufLen < 0 ∨ cookie < 0 then throw Errno.inval
  else do
    let records ← wasiReaddirEntries ns inode fd
    let bufused ← writeDirents bufLen.toInt.toNat (records.drop cookie.toInt.toNat) bufPtr.toInt 0
    writeU32 bufusedPtr.toInt bufused

def preopenGuestPath (path : String) : String := if normalizeTaskPath path = "." then "/" else "/" ++ normalizeTaskPath path

def fdPrestatGet (fd prestatPtr : Int32) : Prog (WasiCaller σ η) Errno Unit := do
  let path ← fdPathOf fd
  writeBytes prestatPtr.toInt [0, 0, 0, 0]
  writeU32 (← checkedI32 (prestatPtr.toInt + 4)) (utf8Bytes (preopenGuestPath path)).length

/-! ### Arguments, environment and events -/

def stringsSize (strings : List String) : Nat := (strings.map fun value => (utf8Bytes value).length + 1).sum

def argsSizesGet (args : List String) (countPtr sizePtr : Int32) : Prog (WasiCaller σ η) Errno Unit := do
  writeU32 countPtr.toInt (asU32 args.length)
  writeU32 sizePtr.toInt (asU32 (stringsSize args))

def argsGet (args : List String) (argvPtr argvBufPtr : Int32) : Prog (WasiCaller σ η) Errno Unit :=
  writeStringArrayFrom argvPtr.toInt args 0 argvBufPtr.toInt

def renderEnv (env : List (String × String)) : List String := env.map fun entry => entry.1 ++ "=" ++ entry.2

def environSizesGet (env : List (String × String)) (countPtr sizePtr : Int32) : Prog (WasiCaller σ η) Errno Unit :=
  argsSizesGet (renderEnv env) countPtr sizePtr

def environGet (env : List (String × String)) (envPtr envBufPtr : Int32) : Prog (WasiCaller σ η) Errno Unit :=
  writeStringArrayFrom envPtr.toInt (renderEnv env) 0 envBufPtr.toInt

def writeEvent (ptr : Int) (userdata : Nat) (eventType : UInt8) (nbytes : Nat) : Prog (WasiCaller σ η) Errno Unit := do
  writeU64 ptr userdata
  writeU16 (← checkedI32 (ptr + 8)) 0
  writeBytes (← checkedI32 (ptr + 10)) [eventType]
  if eventType = 1 ∨ eventType = 2 then do
    writeU64 (← checkedI32 (ptr + 16)) nbytes
    writeU16 (← checkedI32 (ptr + 24)) 0
  else pure ()

/-- `base.checked_add(index.saturating_mul(size))` -/
def checkedElement (base : Int) (index size : Nat) : Prog (WasiCaller σ η) Errno Int :=
  let ptr := base + min (index * size) (2 ^ 31 - 1)
  if 2 ^ 31 ≤ ptr then throw Errno.inval else pure ptr

/-- The two clocks read the time of the host; the wait has no effect on the guest. -/
def pollClock (subscription : Int) : Prog (WasiCaller σ η) Errno Unit := do
  let clockId ← readLe 4 (← checkedI32 (subscription + 16))
  let _ ← readLe 8 (← checkedI32 (subscription + 24))
  let flags ← readLe 2 (← checkedI32 (subscription + 36))
  if 1 < flags ∨ 1 < clockId then throw Errno.inval else pure ()

def pollFd (subscription : Int) (eventType : UInt8) : Prog (WasiCaller σ η) Errno Nat := do
  let fd ← readLe 4 (← checkedI32 (subscription + 16))
  if eventType = 1 then do
    let metadata ← withFdMut (Int32.ofNat fd) ns.file.stat
    pure metadata.size
  else do
    let _ ← fdPathOf (Int32.ofNat fd)
    pure (2 ^ 31)

def pollFrom (inPtr outPtr : Int) : Nat → Nat → Prog (WasiCaller σ η) Errno Unit
  | 0, _ => pure ()
  | count + 1, index => do
    let subscription ← checkedElement inPtr index 48
    let event ← checkedElement outPtr index 32
    let userdata ← readLe 8 subscription
    let eventType ← readLe 1 (← checkedI32 (subscription + 8))
    if eventType = 0 then do
      pollClock subscription
      writeEvent event userdata 0 0
      pollFrom inPtr outPtr count (index + 1)
    else if eventType = 1 ∨ eventType = 2 then do
      let nbytes ← pollFd ns subscription (UInt8.ofNat eventType)
      writeEvent event userdata (UInt8.ofNat eventType) nbytes
      pollFrom inPtr outPtr count (index + 1)
    else throw Errno.notsup

def pollOneoff (inPtr outPtr nsubscriptions neventsPtr : Int32) : Prog (WasiCaller σ η) Errno Unit :=
  if nsubscriptions ≤ 0 then throw Errno.inval
  else do
    pollFrom ns inPtr.toInt outPtr.toInt nsubscriptions.toInt.toNat 0
    writeU32 neventsPtr.toInt nsubscriptions.toInt.toNat

/-! ### Connections -/

def netListenerIdFromPath (path : String) : Option String :=
  match splitSlash (cleanPath path) with
  | ["#net", id, "listen"] => if id = "" then none else some id
  | _ => none

def sockAccept (fd fdPtr : Int32) : Prog (WasiCaller σ η) Errno Unit := do
  let w ← get
  let path ← ofOption (Errno.fromFdLookupError (fdError fd)) (w.fdPath fd)
  if netListenerIdFromPath path = none then throw Errno.notsup
  else do
    let accepted ← withFdMut fd (ns.file.read 64)
    if accepted = [] then throw Errno.again
    else do
      let acceptedId ← ofOption Errno.inval ((utf8String? accepted).map trim)
      if acceptedId = "" then throw Errno.again
      else do
        let dataPath := "#net/" ++ acceptedId ++ "/data"
        let file ← call (ns.open_ FsContext.new dataPath)
        let acceptedFd ← openFd file dataPath
        writeU32 fdPtr.toInt acceptedFd

end Wasi
end Star9
