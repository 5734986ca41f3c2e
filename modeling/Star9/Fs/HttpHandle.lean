import Star9.Fs.R2

/-!
# The HTTP and object store file systems as file systems

The two share their file handles. What a backend does not implement is refused by
the provided methods of the trait.
-/
namespace Star9
open Base Prog

namespace HttpFile
variable {σ : Type}

def read (len : Nat) : Prog (HttpFile × σ) Error Bytes := fun (f, fs) =>
  if f.closed then (.err (.kind .closed), f, fs)
  else
    let out := (f.data.drop f.position).take len
    (.ok out, { f with position := f.position + out.length }, fs)

/-- The position is put back after the read. -/
def readAt (len : Nat) (offset : UInt64) : Prog (HttpFile × σ) Error Bytes := fun (f, fs) =>
  if f.closed then (.err (.kind .closed), f, fs) else (.ok ((f.data.drop offset.toNat).take len), f, fs)

/-- The position may lie past the end, but not outside of 64 bits. -/
def seek (pos : SeekFrom) : Prog (HttpFile × σ) Error UInt64 := fun (f, fs) =>
  let next : Int := match pos with
    | .start pos => pos.toNat
    | .fromEnd off => f.data.length + off
    | .current off => f.position + off
  if f.closed then (.err (.kind .closed), f, fs)
  else if next < 0 ∨ 2 ^ 64 ≤ next then (.err (.kind .invalid), f, fs)
  else (.ok (UInt64.ofNat next.toNat), { f with position := next.toNat }, fs)

def stat : Prog (HttpFile × σ) Error Metadata := Prog.reads fun (f, _) => .ok f.metadata

def close : Prog (HttpFile × σ) Error Unit := fun (f, fs) =>
  if f.closed then (.err (.kind .closed), f, fs) else (.ok (), { f with closed := true }, fs)

end HttpFile

namespace HttpWriteFile
variable {σ : Type}

def stat : Prog (HttpWriteFile × σ) Error Metadata := Prog.reads fun (f, _) => .ok f.metadata

end HttpWriteFile

namespace HttpHandle
variable {σ α : Type}

/-- A method call goes to the implementation of the handle's own type. -/
def dispatch (pf : Prog (HttpFile × σ) Error α) (pd : Prog (DirFile × σ) Error α) (pw : Prog (HttpWriteFile × σ) Error α) :
    Prog (HttpHandle × σ) Error α := fun (f, fs) =>
  match f with
  | .file f => ((pf (f, fs)).1, .file (pf (f, fs)).2.1, (pf (f, fs)).2.2)
  | .dir f => ((pd (f, fs)).1, .dir (pd (f, fs)).2.1, (pd (f, fs)).2.2)
  | .write f => ((pw (f, fs)).1, .write (pw (f, fs)).2.1, (pw (f, fs)).2.2)

variable {τ : Type}

def denied : Prog (τ × σ) Error α := throw (.kind .permissionDenied)

def unsupported {S : Type} : Prog S Error α := throw (.kind .notSupported)

def readDirectory : Prog (DirFile × σ) Error Bytes := do throw (.path "read" (← DirFile.stat).name .invalid)

/-- The handles; only `close` of a file opened for writing differs between the backends. -/
def handle (close : Prog (HttpWriteFile × σ) Error Unit) : FileHandle σ HttpHandle where
  read len := dispatch (HttpFile.read len) readDirectory denied
  write data := dispatch denied denied (HttpWriteFile.write data)
  readAt len offset := dispatch (HttpFile.readAt len offset)
    (FileHandle.defaultReadAt (fun _ => unsupported) (fun _ => readDirectory) len offset)
    (FileHandle.defaultReadAt HttpWriteFile.seek (fun _ => denied) len offset)
  writeAt data offset := dispatch (FileHandle.defaultWriteAt HttpFile.seek (fun _ => denied) data offset)
    (FileHandle.defaultWriteAt (fun _ => unsupported) (fun _ => denied) data offset)
    (HttpWriteFile.writeAt data offset)
  seek pos := dispatch (HttpFile.seek pos) unsupported (HttpWriteFile.seek pos)
  stat := dispatch HttpFile.stat DirFile.stat HttpWriteFile.stat
  readDir count := dispatch (FileHandle.defaultReadDir HttpFile.stat count) (DirFile.readDir count)
    (FileHandle.defaultReadDir HttpWriteFile.stat count)
  sync := dispatch unsupported unsupported unsupported
  close := dispatch HttpFile.close (pure ()) close

end HttpHandle

open HttpHandle (unsupported)

def httpFs (transport : HttpTransport) : FileSystem HttpFs HttpHandle where
  open_ := HttpFs.open_ transport
  stat := HttpFs.stat transport
  lstat := FileSystem.defaultLstat (HttpFs.stat transport)
  readDir := HttpFs.readDir transport
  create := HttpFs.create transport
  openFile := HttpFs.openFile transport
  mkdir := HttpFs.mkdir transport
  remove := HttpFs.remove transport
  rename := HttpFs.rename transport
  link _ _ := unsupported
  chmod _ _ := unsupported
  chown _ _ _ := unsupported
  chtimes _ _ := unsupported
  truncate _ _ := unsupported
  symlink := HttpFs.symlink transport
  readlink := HttpFs.readlink transport
  setXattr _ _ _ := unsupported
  getXattr _ _ := unsupported
  listXattrs _ := unsupported
  removeXattr _ _ := unsupported
  file := HttpHandle.handle (HttpWriteFile.close transport)

/-- `rounds` bounds the links that are followed. -/
def r2Fs (fs : R2Fs) (rounds : Nat) : FileSystem InMemoryObjectStore HttpHandle where
  open_ := R2Fs.open_ fs rounds
  stat := R2Fs.stat fs rounds
  lstat := FileSystem.defaultLstat (R2Fs.stat fs rounds)
  readDir := FileSystem.defaultReadDir (R2Fs.open_ fs rounds) (HttpHandle.handle (R2Fs.close fs))
  create := R2Fs.create fs rounds
  openFile := R2Fs.openFile fs rounds
  mkdir := R2Fs.mkdir fs
  remove := R2Fs.remove fs
  rename := R2Fs.rename fs
  link _ _ := unsupported
  chmod _ _ := unsupported
  chown _ _ _ := unsupported
  chtimes _ _ := unsupported
  truncate _ _ := unsupported
  symlink := R2Fs.symlink fs
  readlink := R2Fs.readlink fs
  setXattr _ _ _ := unsupported
  getXattr _ _ := unsupported
  listXattrs _ := unsupported
  removeXattr _ _ := unsupported
  file := HttpHandle.handle (R2Fs.close fs)

end Star9
