import Star9.Fs.MemFs

/-!
# Namespaces

A namespace maps paths to layers of bound directories and files. Its methods call
those of the bound file systems, which are given as `fs` for the references that a
binding keeps; a namespace may be bound in a namespace, also in itself. Reading
goes through the layers of a name from the longest bind path to the shortest and
merges directories; writing goes to the first layer that takes it.
-/
namespace Star9
open Base Prog

inductive BindMode where
  | after
  | replace
  | before
  deriving DecidableEq, Repr

structure BindTarget (R : Type) where
  fs : R
  path : String
  metadata : Metadata
  valid : validPath path = true
  deriving DecidableEq

/-- Bind paths are valid, and one without a layer is taken out. -/
structure Namespace (R : Type) where
  bindings : Std.ExtTreeMap String (List (BindTarget R))
  valid : ∀ dst targets, bindings[dst]? = some targets → validPath dst = true ∧ targets ≠ []

namespace Namespace
variable {R : Type}

def new : Namespace R := { bindings := ∅, valid := fun _ _ h => by simp at h }

/-! ## The table -/

/-- The layers at a path are replaced. -/
def setTargets (ns : Namespace R) (dst : String) (hdst : validPath dst = true) (targets : List (BindTarget R)) :
    Namespace R where
  bindings := if targets.isEmpty then ns.bindings.erase dst else ns.bindings.insert dst targets
  valid d ts h := by
    split at h
    · rw [Std.ExtTreeMap.getElem?_erase] at h
      split at h
      · cases h
      · exact ns.valid d ts h
    · rename_i hne
      rw [Std.ExtTreeMap.getElem?_insert] at h
      split at h
      · rename_i heq
        cases h
        rw [compare_eq_iff_eq] at heq
        exact ⟨heq ▸ hdst, by simpa using hne⟩
      · exact ns.valid d ts h

def targetsAt (ns : Namespace R) (dst : String) : List (BindTarget R) := (ns.bindings[dst]?).getD []

def addTarget (ns : Namespace R) (dst : String) (hdst : validPath dst = true) (target : BindTarget R) (mode : BindMode) :
    Namespace R :=
  match mode with
  | .after => ns.setTargets dst hdst (target :: ns.targetsAt dst)
  | .before => ns.setTargets dst hdst (ns.targetsAt dst ++ [target])
  | .replace => ns.setTargets dst hdst [target]

def unbind [DecidableEq R] (ns : Namespace R) (src : R) (srcPath dstPath : String) : Except Error (Namespace R) :=
  if !validPath srcPath then .error (.path "unbind" srcPath .notFound)
  else if !validPath dstPath then .error (.path "unbind" dstPath .notFound)
  else
    let srcPath := cleanPath srcPath
    .ok (ns.setTargets (cleanPath dstPath) (cleanPath_valid dstPath)
      ((ns.targetsAt (cleanPath dstPath)).filter fun target => !(target.fs = src && target.path = srcPath)))

/-! ## Resolving a name -/

def matchesName (bindPath name : String) : Bool :=
  bindPath == "." || bindPath == name || (stripPrefix (bindPath ++ "/") name).isSome

/-- The bind paths that a name is at or below, the longest first; the root counts as a path of one byte. -/
def matchingTargets (ns : Namespace R) (name : String) : List (String × List (BindTarget R)) :=
  (ns.bindings.toList.filter fun entry => matchesName entry.1 name).insertionSort
    fun a b => b.1.utf8ByteSize ≤ a.1.utf8ByteSize

def targetPath (bindPath target name : String) : String :=
  if bindPath = name then cleanPath target
  else if bindPath = "." then
    if target = "." then cleanPath name else cleanPath (target ++ "/" ++ name)
  else
    let rel := (stripPrefix (bindPath ++ "/") name).getD "."
    if target = "." then cleanPath rel else cleanPath (target ++ "/" ++ rel)

/-- A layer of a name: a target, with the path that the name has there. -/
def layersOf (name : String) (entries : List (String × List (BindTarget R))) : List (BindTarget R × String) :=
  entries.flatMap fun entry => entry.2.map fun target => (target, targetPath entry.1 target.path name)

def layers (ns : Namespace R) (name : String) : List (BindTarget R × String) := layersOf name (ns.matchingTargets name)

/-- The layers of the bind paths above a name. -/
def outerLayers (ns : Namespace R) (name : String) : List (BindTarget R × String) :=
  layersOf name ((ns.matchingTargets name).filter fun entry => entry.1 ≠ name)

section
variable {σ η : Type} (fs : R → FileSystem σ η)

def bind (ns : Namespace R) (src : R) (srcPath dstPath : String) (mode : BindMode) : Prog σ Error (Namespace R) :=
  if !validPath srcPath then throw (.path "bind" srcPath .notFound)
  else if !validPath dstPath then throw (.path "bind" dstPath .notFound)
  else do
    let metadata ← (fs src).stat (FsContext.new.withOrigin (cleanPath srcPath) "stat") (cleanPath srcPath)
    let target := { fs := src, path := cleanPath srcPath, metadata, valid := cleanPath_valid srcPath }
    pure (ns.addTarget (cleanPath dstPath) (cleanPath_valid dstPath) target mode)

/-- What a target is now, or what it was when it was bound. -/
def targetMetadata (ctx : FsContext) (target : BindTarget R) : Prog σ Error Metadata := do
  match ← attempt ((fs target.fs).stat ctx target.path) with
  | .ok metadata => pure metadata
  | .error _ => pure target.metadata

/-! ## Parents of bind paths -/

def boundEntry (ctx : FsContext) (child : String) (target : BindTarget R) : Prog σ Error DirEntry := do
  let metadata ← targetMetadata fs ctx target
  pure { name := child, metadata := { metadata with name := child } }

/-- Entries for the bind paths right below a name, and the names that only deeper bind paths need. -/
def boundStep (ctx : FsContext) (name : String) (acc : List DirEntry × Std.ExtTreeSet String)
    (binding : String × List (BindTarget R)) : Prog σ Error (List DirEntry × Std.ExtTreeSet String) :=
  match MemFs.relativeTo name binding.1 with
  | none => pure acc
  | some rest =>
    match splitOnceSlash rest with
    | some (head, _) => pure (acc.1, acc.2.insert head)
    | none => do
      let entries ← binding.2.mapM (boundEntry fs ctx rest)
      pure (acc.1 ++ entries, acc.2)

def synthesizeEntries (ns : Namespace R) (ctx : FsContext) (name : String) : Prog σ Error (List DirEntry) := do
  let (entries, need) ← ns.bindings.toList.foldlM (boundStep fs ctx name) ([], ∅)
  let need := entries.foldl (fun need e => need.erase e.name) need
  pure (entries ++ need.toList.map fun dir => { name := dir, metadata := Metadata.dir dir 0o755 })

/-! ## Reading -/

/-- The directory that the layers seen so far make. -/
structure Merged where
  dirMeta : Option Metadata
  entries : List DirEntry

def Merged.addDir (acc : Merged) (metadata : Metadata) (entries : List DirEntry) : Merged :=
  { dirMeta := acc.dirMeta.or (some metadata), entries := acc.entries ++ entries }

/-- The layers at the name itself; a file ends the search. -/
def openDirect (ctx : FsContext) : Merged → List (BindTarget R) → Prog σ Error (η ⊕ Merged)
  | acc, [] => pure (.inr acc)
  | acc, target :: rest => do
    let metadata ← targetMetadata fs ctx target
    if metadata.isDir then do
      let entries ← (fs target.fs).readDir ctx target.path
      openDirect ctx (acc.addDir metadata entries) rest
    else do
      let f ← (fs target.fs).open_ ctx target.path
      pure (.inl f)

/-- The layers of the bind paths above the name; those that do not have it are passed over. -/
def openLayers (ctx : FsContext) : Merged → List (BindTarget R × String) → Prog σ Error (η ⊕ Merged)
  | acc, [] => pure (.inr acc)
  | acc, (target, full) :: rest => do
    match ← attempt ((fs target.fs).stat ctx full) with
    | .ok metadata =>
      if metadata.isDir then do
        let entries ← (fs target.fs).readDir ctx full
        openLayers ctx (acc.addDir metadata entries) rest
      else do
        let f ← (fs target.fs).open_ ctx full
        pure (.inl f)
    | .error err => if err.errorKind = .notFound then openLayers ctx acc rest else throw err

/-- The directory of all layers and of the bind paths below the name. -/
def openMerged (ofDir : DirFile → η) (ns : Namespace R) (ctx : FsContext) (name : String) (acc : Merged) : Prog σ Error η := do
  let more ← synthesizeEntries fs ns ctx name
  let entries := acc.entries ++ more
  if !entries.isEmpty || acc.dirMeta.isSome || name = "." then
    pure (ofDir (DirFile.new (acc.dirMeta.getD (Metadata.dir (baseName name) 0o755)) entries))
  else throw (.path "open" name .notFound)

def open_ (ofDir : DirFile → η) (ns : Namespace R) (ctx : FsContext) (name : String) : Prog σ Error η :=
  if !validPath name then throw (.path "open" name .notFound)
  else do
    let ctx := ctx.withOrigin name "open"
    let name := cleanPath name
    match ← openDirect fs ctx ⟨none, []⟩ (ns.targetsAt name) with
    | .inl f => pure f
    | .inr acc =>
      match ← openLayers fs ctx acc (ns.outerLayers name) with
      | .inl f => pure f
      | .inr acc => openMerged fs ofDir ns ctx name acc

/-- The first target at the name itself that answers. -/
def statDirect (ctx : FsContext) : List (BindTarget R) → Prog σ Error (Option Metadata)
  | [] => pure none
  | target :: rest => do
    match ← attempt ((fs target.fs).stat ctx target.path) with
    | .ok metadata => pure (some metadata)
    | .error _ => statDirect ctx rest

def statLayers (ctx : FsContext) : List (BindTarget R × String) → Prog σ Error (Option Metadata)
  | [] => pure none
  | (target, full) :: rest => do
    match ← attempt ((fs target.fs).stat ctx full) with
    | .ok metadata => pure (some metadata)
    | .error err => if err.errorKind = .notFound then statLayers ctx rest else throw err

def stat (ns : Namespace R) (ctx : FsContext) (name : String) : Prog σ Error Metadata :=
  if !validPath name then throw (.path "stat" name .notFound)
  else do
    let ctx := ctx.withOrigin name "stat"
    let name := cleanPath name
    if name = "." then pure (Metadata.dir "." 0o755)
    else do
      match ← statDirect fs ctx (ns.targetsAt name) with
      | some metadata => pure { metadata with name := baseName name }
      | none =>
        match ← statLayers fs ctx (ns.outerLayers name) with
        | some metadata => pure { metadata with name := baseName name }
        | none => do
          let entries ← synthesizeEntries fs ns ctx name
          if !entries.isEmpty then pure (Metadata.dir (baseName name) 0o755)
          else throw (.path "stat" name .notFound)

/-! ## Writing -/

section
variable {α : Type} (f : BindTarget R → String → Prog σ Error α)

/-- At the name itself only a target that does not support the call is passed over. -/
def writeDirect : Error → List (BindTarget R) → Prog σ Error α
  | last, [] => throw last
  | _, target :: rest => do
    match ← attempt (f target target.path) with
    | .ok a => pure a
    | .error err => if err.errorKind = .notSupported then writeDirect err rest else throw err

def writeLayers (failed : Error) : List (BindTarget R × String) → Prog σ Error α
  | [] => throw failed
  | (target, full) :: rest => do
    match ← attempt (f target full) with
    | .ok a => pure a
    | .error err =>
      if err.errorKind = .notFound ∨ err.errorKind = .notSupported ∨ err.errorKind = .notDir then writeLayers failed rest
      else throw err

def routeWrite (ns : Namespace R) (op name : String) : Prog σ Error α :=
  let name := cleanPath name
  match ns.bindings[name]? with
  | some targets => writeDirect f (.kind .notSupported) targets
  | none => writeLayers f (.path op name .notFound) (ns.layers name)

end

/-- The operations that make a name are passed on to a layer that has its parent. -/
def withParent {α : Type} (op : String) (f : BindTarget R → String → Prog σ Error α) (target : BindTarget R) (full : String) :
    Prog σ Error α := do
  match ← attempt ((fs target.fs).stat FsContext.new (parentPath full)) with
  | .ok _ => f target full
  | .error _ => throw (.path op full .notFound)

variable (ns : Namespace R)

def create (name : String) : Prog σ Error η :=
  routeWrite (withParent fs "create" fun target full => (fs target.fs).create full) ns "create" name

def mkdir (name : String) (perm : FileMode) : Prog σ Error Unit :=
  routeWrite (withParent fs "mkdir" fun target full => (fs target.fs).mkdir full perm) ns "mkdir" name

def remove (name : String) : Prog σ Error Unit :=
  routeWrite (fun target full => (fs target.fs).remove full) ns "remove" name

/-- The new name is resolved against the first bind path of the old one that has a
target of the same file system. -/
def renameTarget [DecidableEq R] (old new : String) (target : BindTarget R) : String :=
  let bindPath := match (ns.matchingTargets old).find? fun entry => entry.2.any fun candidate => candidate.fs = target.fs with
    | some entry => entry.1
    | none => "."
  targetPath bindPath target.path new

def rename [DecidableEq R] (old new : String) : Prog σ Error Unit :=
  routeWrite (fun target full => (fs target.fs).rename full (ns.renameTarget old new target)) ns "rename" old

/-- The pairs of layers of one file system that a link may be made in. -/
def linkPairs [DecidableEq R] (old new : String) : List (BindTarget R × String × String) :=
  (ns.layers new).flatMap fun newLayer =>
    ((ns.layers old).filter fun oldLayer => oldLayer.1.fs = newLayer.1.fs).map fun oldLayer =>
      (newLayer.1, oldLayer.2, newLayer.2)

def linkFirst : Error → List (BindTarget R × String × String) → Prog σ Error Unit
  | last, [] => throw last
  | _, (target, old, new) :: rest => do
    match ← attempt ((fs target.fs).link old new) with
    | .ok () => pure ()
    | .error err =>
      if err.errorKind = .notFound ∨ err.errorKind = .notSupported ∨ err.errorKind = .notDir then linkFirst err rest
      else throw err

def link [DecidableEq R] (old new : String) : Prog σ Error Unit :=
  linkFirst fs (.path "link" (cleanPath new) .notFound) (ns.linkPairs (cleanPath old) (cleanPath new))

def chmod (name : String) (mode : FileMode) : Prog σ Error Unit :=
  routeWrite (fun target full => (fs target.fs).chmod full mode) ns "chmod" name

def chown (name : String) (uid gid : UInt32) : Prog σ Error Unit :=
  routeWrite (fun target full => (fs target.fs).chown full uid gid) ns "chown" name

def chtimes (name : String) (mtime : SystemTime) : Prog σ Error Unit :=
  routeWrite (fun target full => (fs target.fs).chtimes full mtime) ns "chtimes" name

def truncate (name : String) (size : UInt64) : Prog σ Error Unit :=
  routeWrite (fun target full => (fs target.fs).truncate full size) ns "truncate" name

def symlink (old new : String) : Prog σ Error Unit :=
  routeWrite (fun target full => (fs target.fs).symlink old full) ns "symlink" new

def readlink (name : String) : Prog σ Error String :=
  routeWrite (fun target full => (fs target.fs).readlink full) ns "readlink" name

/-- A namespace as a file system; what it does not define itself is provided by the trait. -/
def fileSystem [DecidableEq R] (ofDir : DirFile → η) (file : FileHandle σ η) : FileSystem σ η where
  open_ := open_ fs ofDir ns
  stat := stat fs ns
  lstat := FileSystem.defaultLstat (stat fs ns)
  readDir := FileSystem.defaultReadDir (open_ fs ofDir ns) file
  create := create fs ns
  openFile := FileSystem.defaultOpenFile (open_ fs ofDir ns) (create fs ns) (chmod fs ns) file
  mkdir := mkdir fs ns
  remove := remove fs ns
  rename := rename fs ns
  link := link fs ns
  chmod := chmod fs ns
  chown := chown fs ns
  chtimes := chtimes fs ns
  truncate := truncate fs ns
  symlink := symlink fs ns
  readlink := readlink fs ns
  setXattr _ _ _ := throw (.kind .notSupported)
  getXattr _ _ := throw (.kind .notSupported)
  listXattrs _ := throw (.kind .notSupported)
  removeXattr _ _ := throw (.kind .notSupported)
  file := file

end

end Namespace
end Star9
