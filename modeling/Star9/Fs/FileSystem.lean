import Star9.Base.Bytes
import Star9.Core.Basic
import Star9.Core.Path

/-!
# File systems and file handles

The two traits of the file-system crate as records of programs: `FileSystem` over
the state `σ` of the file system, `FileHandle` over the pair of an open handle
`η` and that state. The provided methods of the traits and the free functions
built from them are stated over the methods they call.
-/
namespace Star9
open Base

inductive SeekFrom where
  | start (pos : UInt64)
  | fromEnd (off : Int)
  | current (off : Int)
  deriving DecidableEq, Repr

/-- `read n` and `readAt n off` return the bytes put into a buffer of length `n`. -/
structure FileHandle (σ η : Type) where
  read : Nat → Prog (η × σ) Error Bytes
  write : Bytes → Prog (η × σ) Error Nat
  readAt : Nat → UInt64 → Prog (η × σ) Error Bytes
  writeAt : Bytes → UInt64 → Prog (η × σ) Error Nat
  seek : SeekFrom → Prog (η × σ) Error UInt64
  stat : Prog (η × σ) Error Metadata
  readDir : Int → Prog (η × σ) Error (List DirEntry)
  sync : Prog (η × σ) Error Unit
  close : Prog (η × σ) Error Unit

structure FileSystem (σ η : Type) where
  open_ : FsContext → String → Prog σ Error η
  stat : FsContext → String → Prog σ Error Metadata
  lstat : FsContext → String → Prog σ Error Metadata
  readDir : FsContext → String → Prog σ Error (List DirEntry)
  create : String → Prog σ Error η
  openFile : String → OpenFlags → FileMode → Prog σ Error η
  mkdir : String → FileMode → Prog σ Error Unit
  remove : String → Prog σ Error Unit
  rename : String → String → Prog σ Error Unit
  link : String → String → Prog σ Error Unit
  chmod : String → FileMode → Prog σ Error Unit
  chown : String → UInt32 → UInt32 → Prog σ Error Unit
  chtimes : String → SystemTime → Prog σ Error Unit
  truncate : String → UInt64 → Prog σ Error Unit
  symlink : String → String → Prog σ Error Unit
  readlink : String → Prog σ Error String
  setXattr : String → String → Bytes → Prog σ Error Unit
  getXattr : String → String → Prog σ Error Bytes
  listXattrs : String → Prog σ Error (List String)
  removeXattr : String → String → Prog σ Error Unit
  file : FileHandle σ η

section
variable {σ η α : Type}

/-- Call a method of a handle held by the caller. The handle keeps the changes
the call made to it, also when the call fails. -/
def withFile (h : η) (p : Prog (η × σ) Error α) : Prog σ Error (Except Error α × η) := fun s =>
  match p (h, s) with
  | (.ok a, h', s') => (.ok (.ok a, h'), s')
  | (.err e, h', s') => (.ok (.error e, h'), s')
  | (.abort, _, s') => (.abort, s')

/-! ## Provided methods of `FileHandle` -/

namespace FileHandle

def defaultReadAt (seek : SeekFrom → Prog (η × σ) Error UInt64) (read : Nat → Prog (η × σ) Error Bytes)
    (len : Nat) (offset : UInt64) : Prog (η × σ) Error Bytes := do
  let _ ← seek (.start offset)
  read len

def defaultWriteAt (seek : SeekFrom → Prog (η × σ) Error UInt64) (write : Bytes → Prog (η × σ) Error Nat)
    (data : Bytes) (offset : UInt64) : Prog (η × σ) Error Nat := do
  let _ ← seek (.start offset)
  write data

def defaultReadDir (stat : Prog (η × σ) Error Metadata) (_count : Int) :
    Prog (η × σ) Error (List DirEntry) := do
  let metadata ← stat
  throw (.path "readdir" metadata.name .notSupported)

end FileHandle

/-! ## Provided methods of `FileSystem` -/

namespace FileSystem

def defaultLstat (stat : FsContext → String → Prog σ Error Metadata) (ctx : FsContext) (name : String) :
    Prog σ Error Metadata :=
  stat ctx.noFollow name

def sortEntries (entries : List DirEntry) : List DirEntry :=
  entries.mergeSort fun a b => (compare a.name b.name).isLE

def defaultReadDir (open_ : FsContext → String → Prog σ Error η) (file : FileHandle σ η)
    (ctx : FsContext) (name : String) : Prog σ Error (List DirEntry) := do
  let f ← open_ (ctx.setReadOnly.withOrigin name "readdir") name
  let (entries, _) ← withFile f (file.readDir (-1))
  let entries ← Prog.ofExcept entries
  pure (sortEntries entries)

/-- `chmod` on an opened file, where a backend without modes is let through. -/
def chmodSupported (chmod : String → FileMode → Prog σ Error Unit) (name : String) (perm : FileMode) :
    Prog σ Error Unit := do
  match ← Prog.attempt (chmod name perm) with
  | .ok () => pure ()
  | .error (.kind .notSupported) => pure ()
  | .error err => throw err

section OpenFile
variable (open_ : FsContext → String → Prog σ Error η) (create : String → Prog σ Error η)
  (chmod : String → FileMode → Prog σ Error Unit) (file : FileHandle σ η)
  (name : String) (flags : OpenFlags) (perm : FileMode)

/-- The file, and whether it had to be created. -/
def openOrCreate : Prog σ Error (η × Bool) := do
  match ← Prog.attempt (open_ FsContext.new name) with
  | .ok f => pure (f, false)
  | .error err =>
    if flags.contains .create && err.errorKind == .notFound then do
      let f ← create name
      pure (f, true)
    else throw err

def openTruncated (f : η) (created : Bool) : Prog σ Error η :=
  if flags.contains .trunc && !created then do
    let _ ← withFile f file.close
    create name
  else pure f

def openWithPerm (f : η) : Prog σ Error η :=
  if perm.bits ≠ 0 then do
    let _ ← withFile f file.close
    chmodSupported chmod name perm
    open_ FsContext.new name
  else pure f

def openAppending (f : η) : Prog σ Error η :=
  if flags.contains .append then do
    let (r, f) ← withFile f (file.seek (.fromEnd 0))
    let _ ← Prog.ofExcept r
    pure f
  else pure f

def defaultOpenFile : Prog σ Error η :=
  if flags.isWrite then do
    let (f, created) ← openOrCreate open_ create name flags
    let f ← openTruncated create file name flags f created
    let f ← openWithPerm open_ chmod file name perm f
    openAppending file flags f
  else open_ FsContext.new name

end OpenFile

/-! ## Free functions -/

def existsWith (stat : FsContext → String → Prog σ Error Metadata) (name : String) :
    Prog σ Error Bool := do
  match ← Prog.attempt (stat (FsContext.new.withOrigin name "stat") name) with
  | .ok _ => pure true
  | .error err => if err.errorKind = .notFound then pure false else throw err

def isDirWith (stat : FsContext → String → Prog σ Error Metadata) (name : String) :
    Prog σ Error Bool := do
  let metadata ← stat (FsContext.new.withOrigin name "stat") name
  pure metadata.isDir

def isEmptyWith (readDir : FsContext → String → Prog σ Error (List DirEntry)) (name : String) :
    Prog σ Error Bool := do
  let entries ← readDir (FsContext.new.withOrigin name "readdir") name
  pure entries.isEmpty

variable (fs : FileSystem σ η)

def freeLstat (name : String) : Prog σ Error Metadata := fs.lstat (FsContext.new.withOrigin name "stat") name

def freeReadDir (name : String) : Prog σ Error (List DirEntry) :=
  fs.readDir (FsContext.new.withOrigin name "readdir") name

/-- The read loop of `read_file`, 8192 bytes at a time; `rounds` bounds the calls. -/
def readLoop : Nat → η → Bytes → Prog σ Error (Bytes × η)
  | 0, _, _ => Prog.abort
  | rounds + 1, f, out => do
    let (r, f) ← withFile f (fs.file.read 8192)
    match r with
    | .ok [] => pure (out, f)
    | .ok data =>
      -- A count past the end of the buffer fails the slice.
      if 8192 < data.length then Prog.abort else readLoop rounds f (out ++ data)
    | .error err => if err.errorKind = .unexpectedEof then pure (out, f) else throw err

def readFile (rounds : Nat) (name : String) : Prog σ Error Bytes := do
  let f ← fs.open_ (FsContext.new.withOrigin name "open") name
  let (out, f) ← fs.readLoop rounds f []
  let _ ← withFile f fs.file.close
  pure out

def writeFile (name : String) (data : Bytes) (perm : FileMode) : Prog σ Error Unit := do
  let f ← fs.openFile name (.wronly ||| .create ||| .trunc) perm
  let (r, f) ← withFile f (fs.file.write data)
  let _ ← Prog.ofExcept r
  let (r, _) ← withFile f fs.file.close
  Prog.ofExcept r

def appendFile (name : String) (data : Bytes) : Prog σ Error Unit := do
  let f ← fs.openFile name (.wronly ||| .create ||| .append) (FileMode.fromPerm 0o644)
  let (r, f) ← withFile f (fs.file.write data)
  let _ ← Prog.ofExcept r
  let (r, _) ← withFile f fs.file.close
  Prog.ofExcept r

def mkdirAllLoop (perm : FileMode) : String → List String → Prog σ Error Unit
  | _, [] => pure ()
  | cur, part :: parts => do
    let cur := if cur = "" then part else cur ++ "/" ++ part
    match ← Prog.attempt (fs.mkdir cur perm) with
    | .ok () => mkdirAllLoop perm cur parts
    | .error err =>
      if err.errorKind = .alreadyExists then mkdirAllLoop perm cur parts else throw err

def mkdirAll (name : String) (perm : FileMode) : Prog σ Error Unit :=
  if name = "." then pure () else fs.mkdirAllLoop perm "" (splitSlash (cleanPath name))

/-- `depth` bounds the nesting of the recursive calls. -/
def removeAll : Nat → String → Prog σ Error Unit
  | 0, _ => Prog.abort
  | depth + 1, name => do
    let metadata ← fs.stat (FsContext.new.withOrigin name "stat") name
    if metadata.isDir then do
      let entries ← fs.readDir (FsContext.new.withOrigin name "readdir") name
      entries.forM fun entry => removeAll depth (childPath name entry.name)
      fs.remove name
    else fs.remove name

/-- `copy_fs` within one file system; `depth` bounds the nesting of the recursive calls. -/
def copyAll (rounds : Nat) : Nat → String → String → Prog σ Error Unit
  | 0, _, _ => Prog.abort
  | depth + 1, src, dst => do
    let metadata ← fs.freeLstat src
    if metadata.mode.isSymlink then do
      let target ← fs.readlink src
      fs.symlink target dst
    else if metadata.isDir then do
      fs.mkdir dst metadata.mode
      let entries ← fs.freeReadDir src
      entries.forM fun entry => copyAll rounds depth (childPath src entry.name) (childPath dst entry.name)
    else do
      let data ← fs.readFile rounds src
      fs.writeFile dst data metadata.mode

end FileSystem
end

end Star9
