import Star9.Fs.MemList

/-!
# Layers of in-memory file systems

A union has its layers in order. A path is what the first layer that has it says; opening it
merges the directories of all layers, and the first layer with something else there ends the
merge. Layers are shared, so the state has the file systems under their numbers.
-/
namespace Star9
open Base Prog

inductive FileKind where
  | dir
  | symlink
  | namedPipe
  | socket
  | file
  deriving DecidableEq, Repr

/-- The types are tested in the order of `unixTypeAndPerm`. -/
def Metadata.kind (m : Metadata) : FileKind :=
  if m.isDir then .dir
  else if m.mode.isSymlink then .symlink
  else if m.mode.contains FileMode.namedPipe then .namedPipe
  else if m.mode.contains FileMode.socket then .socket
  else .file

abbrev LayerWorld := Nat → MemFs

def onLayer {α : Type} (i : Nat) (p : Prog MemFs Error α) : Prog LayerWorld Error α :=
  zoom (fun w => w i) (fun fs w => Function.update w i fs) p

inductive UnionFile where
  | layer (i : Nat) (f : MemFile)
  | dir (f : DirFile)

/-- What an open file says of itself. -/
def UnionFile.metadata : UnionFile → Metadata
  | .layer _ (.node f) => f.metadata
  | .layer _ (.dir f) => f.metadata
  | .dir f => f.metadata

structure UnionFs where
  layers : List Nat

namespace UnionFs

/-- Directories are merged; a layer with something else is asked to open it. -/
def openLayers (ctx : FsContext) (name : String) : List Nat → List DirEntry → Prog LayerWorld Error UnionFile
  | [], entries =>
    if entries ≠ [] ∨ name = "." then pure (.dir (DirFile.new (Metadata.dir (baseName name) 0o555) entries))
    else throw (.path "open" name .notFound)
  | i :: layers, entries => do
    match ← attempt (onLayer i (MemFs.stat ctx name)) with
    | .ok metadata =>
      if metadata.isDir then do
        let found ← attempt (onLayer i (MemFs.readDir ctx name))
        openLayers ctx name layers (entries ++ found.toOption.getD [])
      else do
        let f ← onLayer i (MemFs.open_ ctx name)
        pure (.layer i f)
    | .error err => if err.errorKind = .notFound then openLayers ctx name layers entries else throw err

def open_ (u : UnionFs) (ctx : FsContext) (name : String) : Prog LayerWorld Error UnionFile := openLayers ctx name u.layers []

def statLayers (ctx : FsContext) (name : String) : List Nat → Prog LayerWorld Error Metadata
  | [] => throw (.path "stat" name .notFound)
  | i :: layers => do
    match ← attempt (onLayer i (MemFs.stat ctx name)) with
    | .ok metadata => pure metadata
    | .error err => if err.errorKind = .notFound then statLayers ctx name layers else throw err

def stat (u : UnionFs) (ctx : FsContext) (name : String) : Prog LayerWorld Error Metadata := statLayers ctx name u.layers

def readDirFile : UnionFile → Prog LayerWorld Error (List DirEntry)
  | .layer i f => onLayer i do
      let (entries, _) ← withFile f (MemFile.handle.readDir (-1))
      Prog.ofExcept entries
  | .dir f => pure f.entries

/-- The provided method: the whole listing of the opened directory, sorted. -/
def readDir (u : UnionFs) (ctx : FsContext) (name : String) : Prog LayerWorld Error (List DirEntry) := do
  let f ← u.open_ (ctx.setReadOnly.withOrigin name "readdir") name
  let entries ← readDirFile f
  pure (FileSystem.sortEntries entries)

end UnionFs
end Star9
