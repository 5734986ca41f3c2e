import Star9.Base.Text
import Star9.Fs.FileSystem
import Star9.Runtime.Worker

/-!
# Path imports of a guest

The imports of the first preview of the system interface that take a path. A path
of the guest is relative to a directory descriptor of its task; it is joined with
the path under which the descriptor was opened and passed to the namespace of the
task. The namespace is any file system `ns`.
-/
namespace Star9
open Base Prog

abbrev Errno := Int32

namespace Errno

def badf : Errno := 8
def exist : Errno := 20
def inval : Errno := 28
def io : Errno := 29
def isdir : Errno := 31
def noent : Errno := 44
def notdir : Errno := 54
def notempty : Errno := 55
def notsup : Errno := 58
def perm : Errno := 63

def fromError (err : Error) : Errno :=
  match err.errorKind with
  | .notFound => noent
  | .alreadyExists => exist
  | .invalid | .unexpectedEof => inval
  | .permissionDenied => perm
  | .notSupported => notsup
  | .notDir => notdir
  | .isDir => isdir
  | .closed => badf
  | .notEmpty => notempty
  | .other => io

end Errno

/-! ## Paths -/

def normalizeTaskPath (path : String) : String :=
  let trimmed := trim path
  if trimmed = "" ∨ trimmed = "/" then "." else cleanPath (trimStartSlash trimmed)

def joinWasiPath (base rel : String) : String :=
  let rel := cleanPath (trimStartSlash rel)
  let base := normalizeTaskPath base
  if base = "." then rel
  else if rel = "." then base
  else cleanPath (base ++ "/" ++ rel)

def parentWasiPath (path : String) : String :=
  let path := normalizeTaskPath path
  if path = "." then path
  else
    match rsplitOnceSlash path with
    | some (parent, _) => if parent = "" then "." else parent
    | none => "."

/-- What a symlink at `path` names; it is taken from the root of the namespace, or from the directory of the link. -/
def linkTarget (path target : String) : String :=
  if startsWithSlash target then cleanPath (trimStartSlash target)
  else cleanPath (parentWasiPath path ++ "/" ++ target)

/-! ## The guest and its task -/

/-- `memory` is the exported memory of the guest, if it has one. -/
structure WasiCaller (σ η : Type) where
  ns : σ
  files : Std.ExtTreeMap Nat (OpenFile η)
  nextFd : Nat
  memory : Option Bytes

/-- A string in the memory of the guest. -/
structure GuestString where
  ptr : Int
  len : Int

namespace WasiCaller
variable {σ η α : Type}

def fdPath (w : WasiCaller σ η) (fd : Int32) : Option String := (w.files[fd.toUInt32.toNat]?).map OpenFile.path

def readBytes (w : WasiCaller σ η) (ptr len : Int) : Option Bytes :=
  if ptr < 0 ∨ len < 0 then none
  else
    match w.memory with
    | none => none
    | some data => if (data.length : Int) < ptr + len then none else some ((data.drop ptr.toNat).take len.toNat)

def writeBytes (ptr : Int) (bytes : Bytes) : Prog (WasiCaller σ η) Errno Unit := do
  let w ← get
  if ptr < 0 then throw Errno.inval
  else
    match w.memory with
    | none => throw Errno.inval
    | some data =>
      if (data.length : Int) < ptr + bytes.length then throw Errno.inval
      else set { w with memory := some (data.take ptr.toNat ++ bytes ++ data.drop (ptr.toNat + bytes.length)) }

def writeU32 (ptr : Int) (value : Nat) : Prog (WasiCaller σ η) Errno Unit := writeBytes ptr (leBytes 4 value)

def writeU64 (ptr : Int) (value : Nat) : Prog (WasiCaller σ η) Errno Unit := writeBytes ptr (leBytes 8 value)

/-- A pointer past the largest signed word is an overflow. -/
def offset (ptr : Int) (n : Nat) : Prog (WasiCaller σ η) Errno Int :=
  if 2 ^ 31 ≤ ptr + n then abort else pure (ptr + n)

def filetype (mode : FileMode) : UInt8 :=
  if mode.isDir then 3
  else if mode.isSymlink then 7
  else if mode.contains ⟨0x20000000⟩ then 2
  else if mode.typeBits = FileMode.empty then 4
  else 0

def writeFilestat (ptr : Int) (mode : FileMode) (size : Nat) : Prog (WasiCaller σ η) Errno Unit := do
  writeU64 ptr 0
  writeU64 (← offset ptr 8) 0
  writeBytes (← offset ptr 16) [filetype mode]
  writeU64 (← offset ptr 24) 1
  writeU64 (← offset ptr 32) size
  writeU64 (← offset ptr 40) 0
  writeU64 (← offset ptr 48) 0
  writeU64 (← offset ptr 56) 0

def readString (s : GuestString) : Prog (WasiCaller σ η) Errno String := do
  let w ← get
  if s.len < 0 then throw Errno.inval
  else
    match w.readBytes s.ptr s.len with
    | none => throw Errno.inval
    | some bytes => ofOption Errno.inval (utf8String? bytes)

/-- An unknown descriptor is an invalid path in the task. -/
def readWasiPath (fd : Int32) (s : GuestString) : Prog (WasiCaller σ η) Errno String := do
  let rel ← readString s
  let w ← get
  let base ← ofOption (Errno.fromError (.path "fd" (toString fd.toUInt32.toNat) .invalid)) (w.fdPath fd)
  pure (joinWasiPath base rel)

/-- The descriptors of a task are counted by a word. -/
def openFd (file : η) (path : String) : Prog (WasiCaller σ η) Errno Nat := do
  let w ← get
  if w.nextFd = 0xffffffff then abort
  else do
    set { w with nextFd := w.nextFd + 1, files := w.files.insert w.nextFd ⟨file, path⟩ }
    pure w.nextFd

/-- A call of the namespace of the task. -/
def call (p : Prog σ Error α) : Prog (WasiCaller σ η) Errno α := fun w =>
  match p w.ns with
  | (.ok a, s) => (.ok a, { w with ns := s })
  | (.err e, s) => (.err (Errno.fromError e), { w with ns := s })
  | (.abort, s) => (.abort, { w with ns := s })

end WasiCaller

/-! ## The imports -/

def oflagsCreate : Int32 := 1
def oflagsDirectory : Int32 := 2
def oflagsTruncate : Int32 := 8
def lookupflagsSymlinkFollow : Int32 := 1
def fdflagsAppend : Int32 := 1
def fstflagsAtim : Int32 := 1
def fstflagsAtimNow : Int32 := 2
def fstflagsMtim : Int32 := 4
def fstflagsMtimNow : Int32 := 8
def fstflagsAll : Int32 := fstflagsAtim ||| fstflagsAtimNow ||| fstflagsMtim ||| fstflagsMtimNow
def rightsFdRead : Int64 := 2
def rightsFdWrite : Int64 := 64

def openFlags (oflags fdflags : Int32) (rightsBase : Int64) : OpenFlags :=
  let flags := if rightsBase &&& rightsFdWrite ≠ 0 then OpenFlags.rdwr else OpenFlags.rdonly
  let flags := if rightsBase &&& rightsFdRead = 0 ∧ rightsBase &&& rightsFdWrite ≠ 0 then OpenFlags.wronly else flags
  let flags := if oflags &&& oflagsCreate ≠ 0 then flags ||| OpenFlags.create else flags
  let flags := if oflags &&& oflagsTruncate ≠ 0 then flags ||| OpenFlags.trunc else flags
  if fdflags &&& fdflagsAppend ≠ 0 then flags ||| OpenFlags.append else flags

/-- The time to set, if any; `now` is the clock of the host. -/
def wasiMtimeFromFlags (now : SystemTime) (atim mtim : Int64) (flags : Int32) : Except Errno (Option SystemTime) :=
  if flags &&& ~~~fstflagsAll ≠ 0 then .error Errno.inval
  else if flags &&& fstflagsAtim ≠ 0 ∧ flags &&& fstflagsAtimNow ≠ 0 then .error Errno.inval
  else if flags &&& fstflagsMtim ≠ 0 ∧ flags &&& fstflagsMtimNow ≠ 0 then .error Errno.inval
  else if flags &&& fstflagsAtim ≠ 0 ∧ atim < 0 then .error Errno.inval
  else if flags &&& fstflagsMtimNow ≠ 0 then .ok (some now)
  else if flags &&& fstflagsMtim ≠ 0 then
    if mtim < 0 then .error Errno.inval else .ok (some mtim.toInt)
  else .ok none

section
variable {σ η : Type} (ns : FileSystem σ η)
open WasiCaller

def pathOpen (fd : Int32) (path : GuestString) (oflags : Int32) (rightsBase : Int64) (fdflags : Int32)
    (openedFdPtr : Int) : Prog (WasiCaller σ η) Errno Unit := do
  let path ← readWasiPath fd path
  let file ← if oflags &&& oflagsDirectory ≠ 0 then call (ns.open_ FsContext.new path)
    else call (ns.openFile path (openFlags oflags fdflags rightsBase) (FileMode.fromPerm 0o666))
  let openedFd ← openFd file path
  writeU32 openedFdPtr openedFd

def pathCreateDirectory (fd : Int32) (path : GuestString) : Prog (WasiCaller σ η) Errno Unit := do
  let path ← readWasiPath fd path
  call (ns.mkdir path (FileMode.dir ||| FileMode.fromPerm 0o755))

def pathFilestatGet (fd : Int32) (path : GuestString) (statPtr : Int) : Prog (WasiCaller σ η) Errno Unit := do
  let path ← readWasiPath fd path
  let metadata ← call (ns.stat FsContext.new path)
  writeFilestat statPtr metadata.mode metadata.size

def pathFilestatSetTimes (fd : Int32) (path : GuestString) (atim mtim : Int64) (fstFlags : Int32) (now : SystemTime) :
    Prog (WasiCaller σ η) Errno Unit := do
  let mtime ← Prog.ofExcept (wasiMtimeFromFlags now atim mtim fstFlags)
  let path ← readWasiPath fd path
  match mtime with
  | some mtime => call (ns.chtimes path mtime)
  | none => do
    let _ ← call (ns.stat FsContext.new path)

/-- The old path of a link, followed through one symlink when the guest asks for it. -/
def followedPath (oldFlags : Int32) (oldPath : String) : Prog (WasiCaller σ η) Errno String :=
  if oldFlags &&& lookupflagsSymlinkFollow ≠ 0 then do
    let metadata ← call (ns.lstat FsContext.new oldPath)
    if metadata.mode.isSymlink then do
      let target ← call (ns.readlink oldPath)
      pure (linkTarget oldPath target)
    else pure oldPath
  else pure oldPath

def pathLink (oldFd oldFlags : Int32) (oldPath : GuestString) (newFd : Int32) (newPath : GuestString) :
    Prog (WasiCaller σ η) Errno Unit :=
  if oldFlags &&& ~~~lookupflagsSymlinkFollow ≠ 0 then throw Errno.inval
  else do
    let oldPath ← readWasiPath oldFd oldPath
    let newPath ← readWasiPath newFd newPath
    let oldPath ← followedPath ns oldFlags oldPath
    call (ns.link oldPath newPath)

def pathUnlinkFile (fd : Int32) (path : GuestString) : Prog (WasiCaller σ η) Errno Unit := do
  let path ← readWasiPath fd path
  let metadata ← call (ns.lstat FsContext.new path)
  if metadata.isDir then throw Errno.isdir
  else call (ns.remove path)

def pathRemoveDirectory (fd : Int32) (path : GuestString) : Prog (WasiCaller σ η) Errno Unit := do
  let path ← readWasiPath fd path
  let metadata ← call (ns.lstat FsContext.new path)
  if !metadata.isDir then throw Errno.notdir
  else do
    let entries ← call (ns.readDir FsContext.new path)
    if !entries.isEmpty then throw (Errno.fromError (.kind .notEmpty))
    else call (ns.remove path)

def pathRename (oldFd : Int32) (oldPath : GuestString) (newFd : Int32) (newPath : GuestString) :
    Prog (WasiCaller σ η) Errno Unit := do
  let oldPath ← readWasiPath oldFd oldPath
  let newPath ← readWasiPath newFd newPath
  call (ns.rename oldPath newPath)

/-- The text of the link is passed on as the guest gives it. -/
def pathSymlink (oldPath : GuestString) (fd : Int32) (newPath : GuestString) : Prog (WasiCaller σ η) Errno Unit := do
  let oldPath ← readString oldPath
  let newPath ← readWasiPath fd newPath
  call (ns.symlink oldPath newPath)

def pathReadlink (fd : Int32) (path : GuestString) (bufPtr bufLen usedPtr : Int) : Prog (WasiCaller σ η) Errno Unit :=
  if bufLen < 0 then throw Errno.inval
  else do
    let path ← readWasiPath fd path
    let target ← call (ns.readlink path)
    let bytes := (utf8Bytes target).take bufLen.toNat
    writeBytes bufPtr bytes
    writeU32 usedPtr bytes.length

end

inductive PathImport where
  | open_ (fd : Int32) (path : GuestString) (oflags : Int32) (rightsBase : Int64) (fdflags : Int32) (openedFdPtr : Int)
  | createDirectory (fd : Int32) (path : GuestString)
  | filestatGet (fd : Int32) (path : GuestString) (statPtr : Int)
  | filestatSetTimes (fd : Int32) (path : GuestString) (atim mtim : Int64) (fstFlags : Int32) (now : SystemTime)
  | link (oldFd oldFlags : Int32) (oldPath : GuestString) (newFd : Int32) (newPath : GuestString)
  | unlinkFile (fd : Int32) (path : GuestString)
  | removeDirectory (fd : Int32) (path : GuestString)
  | rename (oldFd : Int32) (oldPath : GuestString) (newFd : Int32) (newPath : GuestString)
  | symlink (oldPath : GuestString) (fd : Int32) (newPath : GuestString)
  | readlink (fd : Int32) (path : GuestString) (bufPtr bufLen usedPtr : Int)

namespace PathImport
variable {σ η : Type}

def run (ns : FileSystem σ η) : PathImport → Prog (WasiCaller σ η) Errno Unit
  | .open_ fd path oflags rightsBase fdflags openedFdPtr => pathOpen ns fd path oflags rightsBase fdflags openedFdPtr
  | .createDirectory fd path => pathCreateDirectory ns fd path
  | .filestatGet fd path statPtr => pathFilestatGet ns fd path statPtr
  | .filestatSetTimes fd path atim mtim fstFlags now => pathFilestatSetTimes ns fd path atim mtim fstFlags now
  | .link oldFd oldFlags oldPath newFd newPath => pathLink ns oldFd oldFlags oldPath newFd newPath
  | .unlinkFile fd path => pathUnlinkFile ns fd path
  | .removeDirectory fd path => pathRemoveDirectory ns fd path
  | .rename oldFd oldPath newFd newPath => pathRename ns oldFd oldPath newFd newPath
  | .symlink oldPath fd newPath => pathSymlink ns oldPath fd newPath
  | .readlink fd path bufPtr bufLen usedPtr => pathReadlink ns fd path bufPtr bufLen usedPtr

/-- The descriptor of the path, and of the second path where there is one. -/
def fd : PathImport → Int32
  | .open_ fd .. => fd
  | .createDirectory fd _ => fd
  | .filestatGet fd .. => fd
  | .filestatSetTimes fd .. => fd
  | .link oldFd .. => oldFd
  | .unlinkFile fd _ => fd
  | .removeDirectory fd _ => fd
  | .rename oldFd .. => oldFd
  | .symlink _ fd _ => fd
  | .readlink fd .. => fd

def newFd : PathImport → Int32
  | .link _ _ _ newFd _ => newFd
  | .rename _ _ newFd _ => newFd
  | op => op.fd

end PathImport

end Star9
