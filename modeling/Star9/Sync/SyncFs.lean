import Star9.Fs.FileSystem
import Star9.Sync.State

/-!
# The synchronising file system

`SyncFs` hands every call to its local file system and marks the paths that
changed. What `create` and `open_file` return is wrapped, so that a file is
marked when it is closed; what `open` returns is the local handle itself.
-/
namespace Star9
open Base Prog

/-- The local file system and the marks of a `SyncFs`. -/
structure SyncStore (σ : Type) where
  localFs : σ
  marks : SyncState

structure SyncFile (η : Type) where
  path : String
  inner : η
  dirty : Bool
  markOnClose : Bool

inductive SyncHandle (η : Type) where
  | plain (file : η)
  | tracked (file : SyncFile η)

section
variable {σ η α : Type}

def SyncStore.mark (path : String) (change : DirtyChange) (s : SyncStore σ) : SyncStore σ :=
  { s with marks := s.marks.markDirty path change }

def onLocal (p : Prog σ Error α) : Prog (SyncStore σ) Error α :=
  zoom (fun s => s.localFs) (fun fs s => { s with localFs := fs }) p

def markDirty (path : String) (change : DirtyChange) : Prog (SyncStore σ) Error Unit :=
  modify (SyncStore.mark path change)

namespace SyncFile

def new (path : String) (inner : η) (markOnClose : Bool) : SyncFile η :=
  { path := cleanPath path, inner, dirty := false, markOnClose }

end SyncFile

namespace SyncHandle

def inner : SyncHandle η → η
  | plain file => file
  | tracked file => file.inner

def setInner (inner : η) : SyncHandle η → SyncHandle η
  | plain _ => plain inner
  | tracked file => tracked { file with inner }

def setDirty : SyncHandle η → SyncHandle η
  | plain file => plain file
  | tracked file => tracked { file with dirty := true }

/-- The path that closing the handle marks. -/
def marks : SyncHandle η → Option String
  | plain _ => none
  | tracked file => if file.markOnClose || file.dirty then some file.path else none

/-- A call on the handle of the local file system. -/
def onInner (p : Prog (η × σ) Error α) : Prog (SyncHandle η × SyncStore σ) Error α := fun (h, s) =>
  ((p (h.inner, s.localFs)).1, h.setInner (p (h.inner, s.localFs)).2.1,
    { s with localFs := (p (h.inner, s.localFs)).2.2 })

/-- A write that stored a byte makes the file dirty. -/
def noteWritten (p : Prog (η × σ) Error Nat) : Prog (SyncHandle η × SyncStore σ) Error Nat := do
  let written ← onInner p
  if 0 < written then do
    modify fun (h, s) => (h.setDirty, s)
    pure written
  else pure written

def markClosed : Prog (SyncHandle η × SyncStore σ) Error Unit :=
  modify fun (h, s) =>
    match h.marks with
    | some path => (h, s.mark path .upsert)
    | none => (h, s)

def handle (file : FileHandle σ η) : FileHandle (SyncStore σ) (SyncHandle η) where
  read len := onInner (file.read len)
  write data := noteWritten (file.write data)
  readAt len offset := onInner (file.readAt len offset)
  writeAt data offset := noteWritten (file.writeAt data offset)
  seek pos := onInner (file.seek pos)
  stat := onInner file.stat
  readDir count := onInner (file.readDir count)
  sync := onInner file.sync
  close := do
    onInner file.close
    markClosed

end SyncHandle

/-! ## Operations on paths -/

namespace SyncFs
variable (fs : FileSystem σ η)

/-- `remove` and `rename` note whether the path is a directory, a failed look counting as no. -/
def wasDir (name : String) : Prog (SyncStore σ) Error Bool := do
  match ← attempt (onLocal (fs.lstat (FsContext.new.withOrigin name "stat") name)) with
  | .ok metadata => pure metadata.isDir
  | .error _ => pure false

def create (name : String) : Prog (SyncStore σ) Error (SyncHandle η) := do
  let file ← onLocal (fs.create name)
  pure (.tracked (.new name file true))

def openFile (name : String) (flags : OpenFlags) (perm : FileMode) :
    Prog (SyncStore σ) Error (SyncHandle η) := do
  let file ← onLocal (fs.openFile name flags perm)
  pure (.tracked (.new name file (flags.contains .create || flags.contains .trunc)))

/-- The operations that change one path and mark it. -/
def marking (p : Prog σ Error Unit) (path : String) : Prog (SyncStore σ) Error Unit := do
  onLocal p
  markDirty path .upsert

def remove (name : String) : Prog (SyncStore σ) Error Unit := do
  let recursive ← wasDir fs name
  onLocal (fs.remove name)
  markDirty name (.remove recursive)

def rename (old new : String) : Prog (SyncStore σ) Error Unit := do
  let recursive ← wasDir fs old
  onLocal (fs.rename old new)
  markDirty old (.remove recursive)
  markDirty new .upsert

end SyncFs

def syncFs (fs : FileSystem σ η) : FileSystem (SyncStore σ) (SyncHandle η) where
  open_ ctx name := do
    let file ← onLocal (fs.open_ ctx name)
    pure (.plain file)
  stat ctx name := onLocal (fs.stat ctx name)
  lstat ctx name := onLocal (fs.lstat ctx name)
  readDir ctx name := onLocal (fs.readDir ctx name)
  create := SyncFs.create fs
  openFile := SyncFs.openFile fs
  mkdir name perm := SyncFs.marking (fs.mkdir name perm) name
  remove := SyncFs.remove fs
  rename := SyncFs.rename fs
  link old new := SyncFs.marking (fs.link old new) new
  chmod name mode := SyncFs.marking (fs.chmod name mode) name
  chown name uid gid := SyncFs.marking (fs.chown name uid gid) name
  chtimes name mtime := SyncFs.marking (fs.chtimes name mtime) name
  truncate name size := SyncFs.marking (fs.truncate name size) name
  symlink old new := SyncFs.marking (fs.symlink old new) new
  readlink name := onLocal (fs.readlink name)
  setXattr name attr data := SyncFs.marking (fs.setXattr name attr data) name
  getXattr name attr := onLocal (fs.getXattr name attr)
  listXattrs name := onLocal (fs.listXattrs name)
  removeXattr name attr := SyncFs.marking (fs.removeXattr name attr) name
  file := SyncHandle.handle fs.file

end

end Star9
