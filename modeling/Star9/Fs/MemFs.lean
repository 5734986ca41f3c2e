import Star9.Fs.FileSystem

/-!
# The in-memory file system

Paths map to shared nodes, so the state keeps a heap of nodes beside the path
map and two names of one file are two keys with the same node. The clock is a
stream that every reading advances. Following symlinks is bounded by the number
of nodes: a longer chain repeats a name, and the recursion of the source then
never returns.
-/
namespace Star9
open Base

/-- The largest length a byte vector can be grown to. -/
def isizeMax : Nat := 2 ^ 63 - 1

structure NodeInner where
  metadata : Metadata
  data : Bytes
  xattrs : Std.ExtTreeMap String Bytes

namespace NodeInner

def file (name : String) (data : Bytes) (mode : FileMode) : NodeInner :=
  { metadata := { Metadata.file name mode.perm data.length with mode }, data, xattrs := ∅ }

def dir (name : String) (mode : FileMode) : NodeInner :=
  { metadata := { Metadata.dir name mode.perm with mode := mode ||| FileMode.dir }, data := [],
    xattrs := ∅ }

def symlink (name target : String) : NodeInner :=
  { metadata := Metadata.symlink name (utf8Bytes target).length, data := utf8Bytes target,
    xattrs := ∅ }

def setName (name : String) (n : NodeInner) : NodeInner :=
  { n with metadata := { n.metadata with name } }

def setSize (size : Nat) (n : NodeInner) : NodeInner :=
  { n with metadata := { n.metadata with size } }

def setMode (mode : FileMode) (n : NodeInner) : NodeInner :=
  { n with metadata := { n.metadata with mode } }

def setModified (modified : SystemTime) (n : NodeInner) : NodeInner :=
  { n with metadata := { n.metadata with modified } }

def setOwner (uid gid : UInt32) (n : NodeInner) : NodeInner :=
  { n with metadata := { n.metadata with uid, gid } }

def setData (data : Bytes) (now : SystemTime) (n : NodeInner) : NodeInner :=
  { n with metadata := { n.metadata with size := data.length, modified := now }, data }

def setXattr (attr : String) (value : Bytes) (n : NodeInner) : NodeInner :=
  { n with xattrs := n.xattrs.insert attr value }

def removeXattr (attr : String) (n : NodeInner) : NodeInner :=
  { n with xattrs := n.xattrs.erase attr }

end NodeInner

abbrev NodeId := Nat

structure MemFs where
  nodes : Std.ExtTreeMap String NodeId
  heap : NodeId → NodeInner
  next : NodeId
  clock : Nat → SystemTime
  ticks : Nat

structure NodeFile where
  node : NodeId
  metadata : Metadata
  data : Bytes
  offset : UInt64
  dirty : Bool
  closed : Bool

structure DirFile where
  metadata : Metadata
  entries : List DirEntry
  offset : Nat
  deriving DecidableEq

inductive MemFile where
  | node (f : NodeFile)
  | dir (f : DirFile)

/-! ## Byte vectors -/

/-- The bytes after `Vec::resize(n, 0)`. -/
def resize (data : Bytes) (n : Nat) : Bytes := data.take n ++ List.replicate (n - data.length) 0

/-- Growing past the largest allocation is a panic. -/
def resizeFails (data : Bytes) (n : Nat) : Bool := data.length < n && isizeMax < n

def overwrite (data : Bytes) (start : Nat) (new : Bytes) : Bytes :=
  data.take start ++ new ++ data.drop (start + new.length)

/-! ## Directory listings -/

/-- A `BTreeMap` keyed by name keeps the last entry of each name, in name order;
names that begin with `#` are hidden. -/
def dedupeSortHide (entries : List DirEntry) : List DirEntry :=
  (entries.foldl (fun (m : Std.ExtTreeMap String DirEntry) e =>
    if e.name.toList.head? == some '#' then m else m.insert e.name e) ∅).toList.map (·.2)

def DirFile.new (metadata : Metadata) (entries : List DirEntry) : DirFile :=
  let metadata := { metadata with mode := metadata.mode ||| FileMode.dir }
  { metadata := { metadata with
      size := if metadata.size = 0 then 2 + entries.length else metadata.size }
    entries := dedupeSortHide entries
    offset := 0 }

namespace MemFs

def new (clock : Nat → SystemTime) : MemFs :=
  { nodes := (∅ : Std.ExtTreeMap String NodeId).insert "." 0
    heap := fun _ => NodeInner.dir "." (FileMode.dir ||| FileMode.fromPerm 0o755)
    next := 1
    clock
    ticks := 0 }

def updateNode (id : NodeId) (f : NodeInner → NodeInner) (fs : MemFs) : MemFs :=
  { fs with heap := Function.update fs.heap id (f (fs.heap id)) }

def insertNode (name : String) (id : NodeId) (fs : MemFs) : MemFs :=
  { fs with nodes := fs.nodes.insert name id }

def eraseNode (name : String) (fs : MemFs) : MemFs := { fs with nodes := fs.nodes.erase name }

/-- Insert a node that no handle and no other path shares. -/
def insertNew (name : String) (node : NodeInner) (fs : MemFs) : MemFs :=
  { fs with
    nodes := fs.nodes.insert name fs.next
    heap := Function.update fs.heap fs.next node
    next := fs.next + 1 }

def setData (id : NodeId) (data : Bytes) (fs : MemFs) : MemFs :=
  { fs.updateNode id (NodeInner.setData data (fs.clock fs.ticks)) with ticks := fs.ticks + 1 }

def resolveSymlink (ctx : FsContext) (name target : String) : String :=
  if startsWithSlash target then cleanPath (trimStartSlash target)
  else if ctx.filepath = some name ∨ ctx.filepath = none then
    cleanPath (parentPath name ++ "/" ++ target)
  else cleanPath target

/-- The part of a key below a directory. -/
def relativeTo (name fname : String) : Option String :=
  if name = "." then if fname = "." then none else some fname
  else stripPrefix (name ++ "/") fname

def childStep (fs : MemFs) (name : String) (acc : List DirEntry × Std.ExtTreeSet String)
    (kv : String × NodeId) : List DirEntry × Std.ExtTreeSet String :=
  match relativeTo name kv.1 with
  | none => acc
  | some rest =>
    match splitOnceSlash rest with
    | some (head, _) => (acc.1, acc.2.insert head)
    | none => (acc.1 ++ [{ name := rest, metadata := { (fs.heap kv.2).metadata with name := rest } }], acc.2)

/-- The direct children that have a node, and the names that only longer keys need. -/
def childrenFor (fs : MemFs) (name : String) : List DirEntry × Std.ExtTreeSet String :=
  let (entries, need) := fs.nodes.toList.foldl (fs.childStep name) ([], ∅)
  (entries, entries.foldl (fun need e => need.erase e.name) need)

def dirKeys (fs : MemFs) : List String :=
  (fs.nodes.toList.filter fun kv => (fs.heap kv.2).metadata.isDir).map (·.1)

def recomputeDirSize (fs : MemFs) (dir : String) : MemFs :=
  let (entries, need) := fs.childrenFor dir
  match fs.nodes[dir]? with
  | some id => fs.updateNode id (NodeInner.setSize (2 + entries.length + need.size))
  | none => fs

def recomputeDirSizes (fs : MemFs) : MemFs := fs.dirKeys.foldl recomputeDirSize fs

/-! ## Opening and stat -/

def openNode (id : NodeId) : Prog MemFs Error MemFile := do
  let fs ← Prog.get
  let inner := fs.heap id
  pure (.node { node := id, metadata := inner.metadata, data := inner.data, offset := 0,
                dirty := false, closed := false })

def openDir (name : String) : Prog MemFs Error MemFile := do
  let fs ← Prog.get
  let node := fs.nodes[name]?
  let (entries, need) := fs.childrenFor name
  if node.isNone && entries.isEmpty && need.isEmpty && name ≠ "." then
    throw (.path "open" name .notFound)
  else do
    let entries := entries ++ need.toList.map fun dir => { name := dir, metadata := Metadata.dir dir 0o755 }
    let metadata := match node with
      | some id => (fs.heap id).metadata
      | none => Metadata.dir (baseName name) 0o755
    pure (.dir (DirFile.new metadata entries))

def openAt : Nat → FsContext → String → Prog MemFs Error MemFile
  | 0, _, _ => Prog.abort
  | depth + 1, ctx, name =>
    if !validPath name then throw (.path "open" name .notFound)
    else do
      let name := cleanPath name
      let fs ← Prog.get
      match fs.nodes[name]? with
      | some id =>
        let inner := fs.heap id
        if ctx.followSymlinks && inner.metadata.mode.isSymlink then
          openAt depth ctx (resolveSymlink ctx name (utf8Lossy inner.data))
        else if !inner.metadata.isDir then do
          Prog.modify (updateNode id (NodeInner.setName (baseName name)))
          openNode id
        else openDir name
      | none => openDir name

def open_ (ctx : FsContext) (name : String) : Prog MemFs Error MemFile := do
  let fs ← Prog.get
  openAt (fs.nodes.size + 1) ctx name

def statAt (fs : MemFs) : Nat → FsContext → String → Outcome Error Metadata
  | 0, _, _ => .abort
  | depth + 1, ctx, name =>
    if !validPath name then .err (.path "stat" name .notFound)
    else
      let name := cleanPath name
      match fs.nodes[name]? with
      | none => .err (.path "stat" name .notFound)
      | some id =>
        let inner := fs.heap id
        if ctx.followSymlinks && inner.metadata.mode.isSymlink then
          fs.statAt depth ctx (resolveSymlink ctx name (utf8Lossy inner.data))
        else .ok inner.metadata

def stat (ctx : FsContext) (name : String) : Prog MemFs Error Metadata :=
  Prog.reads fun fs => fs.statAt (fs.nodes.size + 1) ctx name

end MemFs

/-! ## Open files -/

namespace NodeFile

def read (len : Nat) : Prog (NodeFile × MemFs) Error Bytes := fun (f, fs) =>
  if f.closed then (.err (.kind .closed), f, fs)
  else if f.metadata.mode.isDir then (.err (.path "read" f.metadata.name .invalid), f, fs)
  else
    let start := f.offset.toNat
    if f.data.length ≤ start then (.ok [], f, fs)
    else
      let out := (f.data.drop start).take len
      (.ok out, { f with offset := f.offset + UInt64.ofNat out.length }, fs)

def write (new : Bytes) : Prog (NodeFile × MemFs) Error Nat := fun (f, fs) =>
  if f.closed then (.err (.kind .closed), f, fs)
  else if f.metadata.mode.isDir then (.err (.path "write" f.metadata.name .isDir), f, fs)
  else
    let start := f.offset.toNat
    let stop := min (start + new.length) (2 ^ 64 - 1)
    if resizeFails f.data start then (.abort, f, fs)
    else
      let data := if f.data.length < start then resize f.data start else f.data
      if resizeFails data stop then (.abort, { f with data }, fs)
      else
        let data := overwrite (if data.length < stop then resize data stop else data) start new
        (.ok new.length,
          { f with
            data
            offset := UInt64.ofNat stop
            metadata := { f.metadata with size := data.length, modified := fs.clock fs.ticks }
            dirty := true },
          { fs with ticks := fs.ticks + 1 })

def readAt (len : Nat) (offset : UInt64) : Prog (NodeFile × MemFs) Error Bytes := fun (f, fs) =>
  if f.data.length < offset.toNat then (.err (.path "read" f.metadata.name .invalid), f, fs)
  else (.ok ((f.data.drop offset.toNat).take len), f, fs)

def writeAt (new : Bytes) (offset : UInt64) : Prog (NodeFile × MemFs) Error Nat := fun (f, fs) =>
  write new ({ f with offset }, fs)

def seek (pos : SeekFrom) : Prog (NodeFile × MemFs) Error UInt64 := fun (f, fs) =>
  let next : Int := match pos with
    | .start pos => pos.toNat
    | .fromEnd off => f.data.length + off
    | .current off => f.offset.toNat + off
  if next < 0 ∨ f.data.length < next then (.err (.path "seek" f.metadata.name .invalid), f, fs)
  else
    let offset := UInt64.ofNat next.toNat
    (.ok offset, { f with offset }, fs)

def stat : Prog (NodeFile × MemFs) Error Metadata := Prog.reads fun (f, _) => .ok f.metadata

def sync : Prog (NodeFile × MemFs) Error Unit := fun (f, fs) =>
  if f.dirty then (.ok (), { f with dirty := false }, fs.setData f.node f.data)
  else (.ok (), f, fs)

def close : Prog (NodeFile × MemFs) Error Unit := fun (f, fs) =>
  if f.closed then (.err (.kind .closed), f, fs)
  else
    let (r, f, fs) := sync (f, fs)
    (r, { f with closed := true }, fs)

end NodeFile

namespace DirFile

variable {σ : Type}

def stat : Prog (DirFile × σ) Error Metadata := Prog.reads fun (f, _) => .ok f.metadata

def readDir (count : Int) : Prog (DirFile × σ) Error (List DirEntry) := fun (f, fs) =>
  if count < 0 then (.ok f.entries, { f with offset := f.entries.length }, fs)
  else if f.entries.length ≤ f.offset then (.ok [], f, fs)
  else
    let stop := if count = 0 then f.entries.length else min (f.offset + count.toNat) f.entries.length
    (.ok ((f.entries.take stop).drop f.offset), { f with offset := stop }, fs)

end DirFile

namespace MemFile
variable {α : Type}

/-- A method call goes to the implementation of the handle's own type. -/
def dispatch (pn : Prog (NodeFile × MemFs) Error α) (pd : Prog (DirFile × MemFs) Error α) :
    Prog (MemFile × MemFs) Error α := fun (f, fs) =>
  match f with
  | .node f => ((pn (f, fs)).1, .node (pn (f, fs)).2.1, (pn (f, fs)).2.2)
  | .dir f => ((pd (f, fs)).1, .dir (pd (f, fs)).2.1, (pd (f, fs)).2.2)

/-- Directory handles override only `read`, `stat` and `read_dir`. -/
def handle : FileHandle MemFs MemFile where
  read len := dispatch (NodeFile.read len)
    (do throw (.path "read" (← DirFile.stat).name .invalid))
  write data := dispatch (NodeFile.write data) (throw (.kind .permissionDenied))
  readAt len offset := dispatch (NodeFile.readAt len offset)
    (FileHandle.defaultReadAt (fun _ => throw (.kind .notSupported))
      (fun _ => do throw (.path "read" (← DirFile.stat).name .invalid)) len offset)
  writeAt data offset := dispatch (NodeFile.writeAt data offset)
    (FileHandle.defaultWriteAt (fun _ => throw (.kind .notSupported))
      (fun _ => throw (.kind .permissionDenied)) data offset)
  seek pos := dispatch (NodeFile.seek pos) (throw (.kind .notSupported))
  stat := dispatch NodeFile.stat DirFile.stat
  readDir count := dispatch (FileHandle.defaultReadDir NodeFile.stat count) (DirFile.readDir count)
  sync := dispatch NodeFile.sync (throw (.kind .notSupported))
  close := dispatch NodeFile.close (pure ())

end MemFile

/-! ## Operations on paths -/

namespace MemFs

def readDir (ctx : FsContext) (name : String) : Prog MemFs Error (List DirEntry) :=
  FileSystem.defaultReadDir open_ MemFile.handle ctx name

/-- The guard of `create`, `mkdir` and `symlink`: the parent must exist. -/
def parentExists (name : String) : Prog MemFs Error Bool :=
  if parentPath name = "." then pure true else FileSystem.existsWith stat (parentPath name)

/-- The guard of `rename` and `link`: the parent must be a directory. -/
def parentIsDir (name : String) : Prog MemFs Error Bool :=
  if parentPath name = "." then pure true
  else do
    match ← Prog.attempt (FileSystem.isDirWith stat (parentPath name)) with
    | .ok b => pure b
    | .error _ => pure false

def create (name : String) : Prog MemFs Error MemFile :=
  let name := cleanPath name
  if !validPath name then throw (.path "create" name .notFound)
  else do
    if !(← parentExists name) then throw (.path "create" name .notFound)
    else do
      let id := (← Prog.get).next
      Prog.modify (insertNew name (NodeInner.file (baseName name) [] (FileMode.fromPerm 0o644)))
      Prog.modify recomputeDirSizes
      openNode id

def mkdir (name : String) (perm : FileMode) : Prog MemFs Error Unit :=
  let name := cleanPath name
  if !validPath name then throw (.path "mkdir" name .notFound)
  else do
    if (← Prog.get).nodes[name]?.isSome then throw (.path "mkdir" name .alreadyExists)
    else if !(← parentExists name) then throw (.path "mkdir" name .notFound)
    else do
      Prog.modify (insertNew name (NodeInner.dir (baseName name) (FileMode.dir ||| perm)))
      Prog.modify recomputeDirSizes

/-- A directory that still lists a child may not be removed. -/
def isNonEmptyDir (name : String) : Prog MemFs Error Bool := do
  if ← FileSystem.isDirWith stat name then
    pure !(← FileSystem.isEmptyWith readDir name)
  else pure false

def remove (name : String) : Prog MemFs Error Unit :=
  let name := cleanPath name
  if name = "." then throw (.path "remove" name .invalid)
  else do
    if (← Prog.get).nodes[name]?.isNone then throw (.path "remove" name .notFound)
    else if ← isNonEmptyDir name then throw (.path "remove" name .notEmpty)
    else do
      Prog.modify (eraseNode name)
      Prog.modify recomputeDirSizes

/-- The keys that move with a directory, with their new names. -/
def toMove (fs : MemFs) (old new : String) : List (String × String × NodeId) :=
  (fs.nodes.toList.filter fun kv => kv.1 == old || (stripPrefix (old ++ "/") kv.1).isSome).map
    fun kv => (kv.1, new ++ (stripPrefix old kv.1).getD "", kv.2)

def moveTree (old new : String) (fs : MemFs) : MemFs :=
  let moved := fs.toMove old new
  let fs := moved.foldl (fun fs m => fs.eraseNode m.1) fs
  moved.foldl (fun fs m => fs.insertNode m.2.1 m.2.2) fs

def moveNode (old new : String) (id : NodeId) (fs : MemFs) : MemFs :=
  ((fs.eraseNode new).eraseNode old).insertNode new id

/-- The destination of a rename is a directory with something below it. -/
def renameOccupied (fs : MemFs) (new : String) : Bool :=
  match fs.nodes[new]? with
  | some existing => (fs.heap existing).metadata.isDir &&
      fs.nodes.keys.any fun path => (stripPrefix (new ++ "/") path).isSome
  | none => false

def rename (old new : String) : Prog MemFs Error Unit :=
  let old := cleanPath old
  let new := cleanPath new
  if !validPath old || !validPath new then throw (.path "rename" old .notFound)
  else if old = new then pure ()
  else do
    if !(← parentIsDir new) then throw (.path "rename" new .notFound)
    else do
      let fs ← Prog.get
      let id ← Prog.ofOption (.path "rename" old .notFound) fs.nodes[old]?
      if fs.renameOccupied new then throw (.path "rename" new .alreadyExists)
      else do
        if (fs.heap id).metadata.isDir then Prog.modify (moveTree old new)
        else Prog.modify (moveNode old new id)
        Prog.modify recomputeDirSizes

def link (old new : String) : Prog MemFs Error Unit :=
  let old := cleanPath old
  let new := cleanPath new
  if !validPath old || !validPath new then throw (.path "link" old .notFound)
  else do
    if (← Prog.get).nodes[new]?.isSome then throw (.path "link" new .alreadyExists)
    else if !(← parentIsDir new) then throw (.path "link" new .notFound)
    else do
      let fs ← Prog.get
      let id ← Prog.ofOption (.path "link" old .notFound) fs.nodes[old]?
      if (fs.heap id).metadata.isDir then throw (.path "link" old .permissionDenied)
      else do
        Prog.modify (insertNode new id)
        Prog.modify recomputeDirSizes

/-- Look up a node, or fail in the name of the operation. -/
def nodeOr (op name : String) : Prog MemFs Error NodeId := do
  Prog.ofOption (.path op name .notFound) (← Prog.get).nodes[name]?

def chmod (name : String) (mode : FileMode) : Prog MemFs Error Unit := do
  let id ← nodeOr "chmod" (cleanPath name)
  let current := ((← Prog.get).heap id).metadata.mode
  Prog.modify (updateNode id (NodeInner.setMode (current.typeBits ||| FileMode.fromPerm mode.perm)))

def chown (name : String) (uid gid : UInt32) : Prog MemFs Error Unit := do
  let id ← nodeOr "chown" (cleanPath name)
  Prog.modify (updateNode id (NodeInner.setOwner uid gid))

def chtimes (name : String) (mtime : SystemTime) : Prog MemFs Error Unit := do
  let id ← nodeOr "chtimes" (cleanPath name)
  Prog.modify (updateNode id (NodeInner.setModified mtime))

def truncate (name : String) (size : UInt64) : Prog MemFs Error Unit := do
  let id ← nodeOr "truncate" (cleanPath name)
  let data := ((← Prog.get).heap id).data
  if resizeFails data size.toNat then Prog.abort
  else Prog.modify (setData id (resize data size.toNat))

def symlink (old new : String) : Prog MemFs Error Unit :=
  let new := cleanPath new
  if !validPath new then throw (.path "symlink" new .invalid)
  else do
    if !(← parentExists new) then throw (.path "symlink" new .notFound)
    else do
      Prog.modify (insertNew new (NodeInner.symlink (baseName new) old))
      Prog.modify recomputeDirSizes

def readlink (name : String) : Prog MemFs Error String := do
  let id ← nodeOr "readlink" (cleanPath name)
  let inner := (← Prog.get).heap id
  if !inner.metadata.mode.isSymlink then throw (.path "readlink" (cleanPath name) .invalid)
  else pure (utf8Lossy inner.data)

def setXattr (name attr : String) (data : Bytes) : Prog MemFs Error Unit := do
  let id ← nodeOr "setxattr" (cleanPath name)
  Prog.modify (updateNode id (NodeInner.setXattr attr data))

def getXattr (name attr : String) : Prog MemFs Error Bytes := do
  let id ← nodeOr "getxattr" (cleanPath name)
  Prog.ofOption (.path "getxattr" attr .notFound) ((← Prog.get).heap id).xattrs[attr]?

def listXattrs (name : String) : Prog MemFs Error (List String) := do
  let id ← nodeOr "listxattrs" (cleanPath name)
  pure ((← Prog.get).heap id).xattrs.keys

def removeXattr (name attr : String) : Prog MemFs Error Unit := do
  let id ← nodeOr "removexattr" (cleanPath name)
  if ((← Prog.get).heap id).xattrs[attr]?.isSome then
    Prog.modify (updateNode id (NodeInner.removeXattr attr))
  else throw (.path "removexattr" attr .notFound)

end MemFs

def memFs : FileSystem MemFs MemFile where
  open_ := MemFs.open_
  stat := MemFs.stat
  lstat := FileSystem.defaultLstat MemFs.stat
  readDir := MemFs.readDir
  create := MemFs.create
  openFile := FileSystem.defaultOpenFile MemFs.open_ MemFs.create MemFs.chmod MemFile.handle
  mkdir := MemFs.mkdir
  remove := MemFs.remove
  rename := MemFs.rename
  link := MemFs.link
  chmod := MemFs.chmod
  chown := MemFs.chown
  chtimes := MemFs.chtimes
  truncate := MemFs.truncate
  symlink := MemFs.symlink
  readlink := MemFs.readlink
  setXattr := MemFs.setXattr
  getXattr := MemFs.getXattr
  listXattrs := MemFs.listXattrs
  removeXattr := MemFs.removeXattr
  file := MemFile.handle

end Star9
