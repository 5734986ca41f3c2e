import Star9.Fs.FileSystem

/-!
# Watching a file system

A file system that keeps a history of the paths its methods are called with. The
calls themselves are those of the file system that is watched.
-/
namespace Star9
open Base Prog

/-- The path of a call, and the second path of a call that takes two. -/
structure PathCall where
  path : String
  new : Option String
  deriving DecidableEq, Repr

section
variable {σ η α : Type}

def watch (call : PathCall) (p : Prog σ Error α) : Prog (σ × List PathCall) Error α := fun s =>
  ((p s.1).1, (p s.1).2, s.2 ++ [call])

/-- A method of a handle takes no path. -/
def onHandle (p : Prog (η × σ) Error α) : Prog (η × σ × List PathCall) Error α :=
  zoom (fun s => (s.1, s.2.1)) (fun t s => (t.1, t.2, s.2.2)) p

def FileHandle.watched (file : FileHandle σ η) : FileHandle (σ × List PathCall) η where
  read len := onHandle (file.read len)
  write data := onHandle (file.write data)
  readAt len offset := onHandle (file.readAt len offset)
  writeAt data offset := onHandle (file.writeAt data offset)
  seek pos := onHandle (file.seek pos)
  stat := onHandle file.stat
  readDir count := onHandle (file.readDir count)
  sync := onHandle file.sync
  close := onHandle file.close

/-- The text of a symlink is not a path of the call that makes it. -/
def FileSystem.watched (fs : FileSystem σ η) : FileSystem (σ × List PathCall) η where
  open_ ctx name := watch ⟨name, none⟩ (fs.open_ ctx name)
  stat ctx name := watch ⟨name, none⟩ (fs.stat ctx name)
  lstat ctx name := watch ⟨name, none⟩ (fs.lstat ctx name)
  readDir ctx name := watch ⟨name, none⟩ (fs.readDir ctx name)
  create name := watch ⟨name, none⟩ (fs.create name)
  openFile name flags perm := watch ⟨name, none⟩ (fs.openFile name flags perm)
  mkdir name perm := watch ⟨name, none⟩ (fs.mkdir name perm)
  remove name := watch ⟨name, none⟩ (fs.remove name)
  rename old new := watch ⟨old, some new⟩ (fs.rename old new)
  link old new := watch ⟨old, some new⟩ (fs.link old new)
  chmod name mode := watch ⟨name, none⟩ (fs.chmod name mode)
  chown name uid gid := watch ⟨name, none⟩ (fs.chown name uid gid)
  chtimes name mtime := watch ⟨name, none⟩ (fs.chtimes name mtime)
  truncate name size := watch ⟨name, none⟩ (fs.truncate name size)
  symlink old new := watch ⟨new, none⟩ (fs.symlink old new)
  readlink name := watch ⟨name, none⟩ (fs.readlink name)
  setXattr name attr data := watch ⟨name, none⟩ (fs.setXattr name attr data)
  getXattr name attr := watch ⟨name, none⟩ (fs.getXattr name attr)
  listXattrs name := watch ⟨name, none⟩ (fs.listXattrs name)
  removeXattr name attr := watch ⟨name, none⟩ (fs.removeXattr name attr)
  file := fs.file.watched

end

end Star9
