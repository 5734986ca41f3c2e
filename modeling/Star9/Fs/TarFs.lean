import Star9.Fs.HttpFs
import Star9.Sync.Patch

/-!
# Archives

A tree is written to an archive in preorder, and an archive is read into a file system of its own.
An archive is modelled by the list of its entries; the fields of a header hold only so much, so what
the header of an entry has for a path or a link name need not be what was appended.
-/
namespace Star9
open Base Prog

inductive TarEntryType where
  | directory
  | symlink
  | regular
  deriving DecidableEq, Repr

/-- The header of an entry and the data behind it. A number without valid digits is `none`. -/
structure TarEntry where
  path : Except Error String
  entryType : TarEntryType
  mode : Option UInt32
  mtime : Option UInt64
  uid : Option UInt64
  gid : Option UInt64
  linkName : Except Error (Option String)
  data : Except Error Bytes

/-- The builder, and what the header of an appended entry has for its path and its link name. -/
structure TarFormat extends TarBuilder where
  headerPath : String → String
  headerLinkName : String → String

/-! ## Writing -/

section
variable {σ η : Type} (fs : FileSystem σ η) (format : TarFormat) (rounds : Nat)

def tarEntry (metadata : Metadata) (path : String) (entryType : TarEntryType) (linkName : Option String) (data : Bytes) : TarEntry where
  path := .ok (format.headerPath path)
  entryType := entryType
  mode := some metadata.mode.perm
  mtime := some (UInt64.ofNat (HttpFs.unixSecs metadata.modified))
  uid := some metadata.uid.toUInt64
  gid := some metadata.gid.toUInt64
  linkName := .ok (linkName.map format.headerLinkName)
  data := .ok data

/-- The entries of a path and of everything below it. `depth` bounds the nesting, `rounds` the calls that read one file. -/
def appendTarPath : Nat → String → Prog σ Error (List TarEntry)
  | 0, _ => abort
  | depth + 1, path => do
    let metadata ← fs.freeLstat path
    if metadata.mode.isSymlink then do
      let target ← fs.readlink path
      Prog.ofExcept (format.setLinkName target)
      Prog.ofExcept (format.appendData path)
      pure [tarEntry format metadata path .symlink (some target) []]
    else if metadata.isDir then do
      Prog.ofExcept (format.appendData path)
      let entries ← fs.freeReadDir path
      let children ← entries.mapM fun entry => appendTarPath depth (childPath path entry.name)
      pure (tarEntry format metadata path .directory none [] :: children.flatten)
    else do
      let data ← fs.readFile rounds path
      Prog.ofExcept (format.appendData path)
      pure [tarEntry format metadata path .regular none data]

def archiveToWriter (depth : Nat) : Prog σ Error (List TarEntry) := appendTarPath fs format rounds depth "."

end

/-! ## Reading -/

structure TarNode where
  metadata : Metadata
  data : Bytes
  linkname : Option String
  deriving DecidableEq, Repr

abbrev TarNodes := Std.ExtTreeMap String TarNode

structure TarFs where
  nodes : TarNodes

def TarNode.dir (path : String) : TarNode := ⟨Metadata.dir (baseName path) 0o755, [], none⟩

/-- The directories above a path, the innermost first. A path has fewer of them than parts. -/
def tarParentDirs : Nat → String → List String
  | 0, _ => []
  | fuel + 1, path => if parentPath path = "." then [] else parentPath path :: tarParentDirs fuel (parentPath path)

def ensureTarParentDirs (nodes : TarNodes) (path : String) : TarNodes :=
  (tarParentDirs (splitSlash path).length path).reverse.foldl (fun nodes dir => nodes.insertIfNew dir (.dir dir)) nodes

/-- What the other paths have behind a directory and its slash. -/
def tarRests (nodes : TarNodes) (dir : String) : List String :=
  nodes.keys.filterMap fun path =>
    if path = dir ∨ path = "." then none else stripPrefix (if dir = "." then "" else dir ++ "/") path

def tarChildName (rest : String) : String := (splitSlash rest).headD ""

def TarNode.setSize (size : Nat) (node : TarNode) : TarNode := { node with metadata := { node.metadata with size } }

/-- Setting a size changes no key, so the children can be counted before. -/
def recomputeTarDirSizes (nodes : TarNodes) : TarNodes :=
  (nodes.keys.filter fun path => (nodes[path]?).any (·.metadata.isDir)).foldl
    (fun sized dir => sized.modify dir (TarNode.setSize (2 + ((tarRests nodes dir).map tarChildName).eraseDups.length))) nodes

namespace TarEntry

def modified (entry : TarEntry) : Outcome Error SystemTime :=
  match entry.mtime with
  | some secs => epochPlusSecs secs.toNat
  | none => .ok unixEpoch

def metadata (entry : TarEntry) (path : String) (mode : FileMode) (size : Nat) (modified : SystemTime) : Metadata where
  name := baseName path
  mode := mode
  size := size
  modified := modified
  uid := (entry.uid.getD 0).toUInt32
  gid := (entry.gid.getD 0).toUInt32

def node (entry : TarEntry) (path : String) : Outcome Error TarNode := do
  let perm := entry.mode.getD 0o644 &&& 0o777
  let modified ← entry.modified
  match entry.entryType with
  | .directory => pure ⟨entry.metadata path (FileMode.dir ||| FileMode.fromPerm perm) 2 modified, [], none⟩
  | .symlink => do
    let linkname ← Outcome.ofExcept entry.linkName
    let data := utf8Bytes (linkname.getD "")
    pure ⟨entry.metadata path (FileMode.symlink ||| FileMode.fromPerm 0o777) data.length modified, data, linkname⟩
  | .regular => do
    let data ← Outcome.ofExcept entry.data
    pure ⟨entry.metadata path (FileMode.fromPerm perm) data.length modified, data, none⟩

end TarEntry

def readTarEntry (nodes : TarNodes) (entry : TarEntry) : Outcome Error TarNodes := do
  let rawPath ← Outcome.ofExcept entry.path
  let path := cleanPath (trimStartSlash rawPath)
  if path = "." ∨ validPath path = false then pure nodes
  else do
    let node ← entry.node path
    pure ((ensureTarParentDirs nodes path).insert path node)

def readTarEntries (nodes : TarNodes) : List TarEntry → Outcome Error TarNodes
  | [] => pure nodes
  | entry :: entries => do
    let nodes ← readTarEntry nodes entry
    readTarEntries nodes entries

namespace TarFs

def root : TarNodes := (∅ : TarNodes).insert "." ⟨Metadata.dir "." 0o755, [], none⟩

def fromReader (entries : List TarEntry) : Outcome Error TarFs := do
  let nodes ← readTarEntries root entries
  pure ⟨recomputeTarDirSizes nodes⟩

/-! ## Looking up -/

variable (fs : TarFs)

def childrenFor (name : String) : List DirEntry :=
  (((tarRests fs.nodes name).filter (· ≠ "")).map tarChildName).eraseDups.map fun child =>
    ⟨child, ((fs.nodes[childPath name child]?).map TarNode.metadata).getD (Metadata.dir child 0o755)⟩

end TarFs
end Star9
