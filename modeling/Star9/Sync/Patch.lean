import Star9.Sync.SyncFs

/-!
# Patches

A push sends the remote a tar archive with the present state of every marked path.
The archive is modelled by its list of entries; the tar builder may refuse the path
or the link name of an entry. Applying a patch goes through its entries in order.
-/
namespace Star9
open Base Prog

/-- What the tar builder says to a link name and to the path of an entry. -/
structure TarBuilder where
  setLinkName : String → Except Error Unit
  appendData : String → Except Error Unit

/-- The permission bits, type and contents of an entry, or its pax records. -/
inductive PatchChange where
  | dir (mode : UInt32)
  | symlink (mode : UInt32) (target : String)
  | file (mode : UInt32) (data : Bytes)
  | delete (recursive : Bool)
  deriving DecidableEq, Repr

structure PatchEntry where
  path : String
  change : PatchChange
  deriving DecidableEq, Repr

section
variable {σ η : Type} (fs : FileSystem σ η)

/-! ## Building -/

variable (tar : TarBuilder) (rounds : Nat)

/-- The entries of a path and of everything below it. `depth` bounds the nesting,
`rounds` the calls that read one file. -/
def appendPatchPath : Nat → String → Prog σ Error (List PatchEntry)
  | 0, _ => abort
  | depth + 1, path => do
    let metadata ← fs.freeLstat path
    let archivePath := cleanPath path
    if metadata.mode.isSymlink then do
      let target ← fs.readlink path
      Prog.ofExcept (tar.setLinkName target)
      Prog.ofExcept (tar.appendData archivePath)
      pure [⟨archivePath, .symlink metadata.mode.perm target⟩]
    else if metadata.isDir then do
      Prog.ofExcept (tar.appendData archivePath)
      let entries ← fs.freeReadDir path
      let children ← entries.mapM fun entry => appendPatchPath depth (childPath path entry.name)
      pure (⟨archivePath, .dir metadata.mode.perm⟩ :: children.flatten)
    else do
      let data ← fs.readFile rounds path
      Prog.ofExcept (tar.appendData archivePath)
      pure [⟨archivePath, .file metadata.mode.perm data⟩]

def appendDeleteMarker (path : String) (recursive : Bool) : Prog σ Error (List PatchEntry) := do
  Prog.ofExcept (tar.appendData (cleanPath path))
  pure [⟨cleanPath path, .delete recursive⟩]

def appendMark (depth : Nat) (mark : String × DirtyEntry) : Prog σ Error (List PatchEntry) :=
  match mark.2.change with
  | .upsert => appendPatchPath fs tar rounds depth mark.1
  | .remove recursive => appendDeleteMarker tar mark.1 recursive

def buildPatch (depth : Nat) (dirty : DirtyMap) : Prog σ Error (List PatchEntry) := do
  let parts ← dirty.toList.mapM (appendMark fs tar rounds depth)
  pure parts.flatten

/-! ## Applying -/

variable (depth : Nat)

def syncPatchPathExists (path : String) : Prog σ Error Bool := do
  match ← attempt (fs.freeLstat path) with
  | .ok _ => pure true
  | .error err => if err.errorKind = .notFound then pure false else throw err

/-- Remove a path whatever it is. -/
def removeAnyPath (path : String) : Prog σ Error Unit := do
  let metadata ← fs.freeLstat path
  if metadata.isDir then fs.removeAll depth path else fs.remove path

def removeSyncPatchPath (path : String) : Prog σ Error Unit := do
  if ← syncPatchPathExists fs path then removeAnyPath fs depth path else pure ()

def ensureParentStep (current : String) : Prog σ Error Unit := do
  match ← attempt (fs.freeLstat current) with
  | .ok metadata =>
    if metadata.isDir then pure ()
    else do
      removeSyncPatchPath fs depth current
      fs.mkdir current (FileMode.fromPerm 0o755)
  | .error err =>
    if err.errorKind = .notFound then fs.mkdir current (FileMode.fromPerm 0o755) else throw err

def ensureParentsFrom : String → List String → Prog σ Error Unit
  | _, [] => pure ()
  | current, part :: parts => do
    let current := if current = "" then part else current ++ "/" ++ part
    ensureParentStep fs depth current
    ensureParentsFrom current parts

def ensureSyncPatchParentDirs (path : String) : Prog σ Error Unit :=
  if parentPath path = "." then pure ()
  else ensureParentsFrom fs depth "" (splitSlash (cleanPath (parentPath path)))

def applySyncPatchDelete (path : String) (recursive : Bool) : Prog σ Error Unit := do
  if ← syncPatchPathExists fs path then do
    let metadata ← fs.freeLstat path
    if recursive && metadata.isDir then fs.removeAll depth path else fs.remove path
  else pure ()

def mkdirUnlessExists (path : String) (mode : FileMode) : Prog σ Error Unit := do
  match ← attempt (fs.mkdir path mode) with
  | .ok () => pure ()
  | .error err => if err.errorKind = .alreadyExists then pure () else throw err

/-- Whatever stands at the path and is not a directory goes. -/
def clearForDir (path : String) : Prog σ Error Unit := do
  if ← syncPatchPathExists fs path then do
    let metadata ← fs.freeLstat path
    if metadata.isDir then pure () else removeSyncPatchPath fs depth path
  else pure ()

def chmodIfSupported (path : String) (mode : FileMode) : Prog σ Error Unit := do
  match ← attempt (fs.chmod path mode) with
  | .ok () => pure ()
  | .error err => if err.errorKind = .notSupported then pure () else throw err

def applySyncPatchDir (path : String) (mode : FileMode) : Prog σ Error Unit := do
  ensureSyncPatchParentDirs fs depth path
  clearForDir fs depth path
  mkdirUnlessExists fs path mode
  chmodIfSupported fs path mode

def applySyncPatchSymlink (path target : String) : Prog σ Error Unit := do
  ensureSyncPatchParentDirs fs depth path
  removeSyncPatchPath fs depth path
  fs.symlink target path

/-- A directory or a symlink at the path goes. -/
def clearForFile (path : String) : Prog σ Error Unit := do
  if ← syncPatchPathExists fs path then do
    let metadata ← fs.freeLstat path
    if metadata.isDir || metadata.mode.isSymlink then removeSyncPatchPath fs depth path else pure ()
  else pure ()

def applySyncPatchFile (path : String) (data : Bytes) (mode : FileMode) : Prog σ Error Unit := do
  ensureSyncPatchParentDirs fs depth path
  clearForFile fs depth path
  fs.writeFile path data mode

def applyPatchEntry (entry : PatchEntry) : Prog σ Error Unit :=
  let path := cleanPath entry.path
  match entry.change with
  | .delete recursive => applySyncPatchDelete fs depth path recursive
  | .dir mode => applySyncPatchDir fs depth path (FileMode.fromPerm mode)
  | .symlink _ target => applySyncPatchSymlink fs depth path target
  | .file mode data => applySyncPatchFile fs depth path data (FileMode.fromPerm mode)

def applySyncPatch : List PatchEntry → Prog σ Error Unit
  | [] => pure ()
  | entry :: entries => do
    applyPatchEntry fs depth entry
    applySyncPatch entries

/-! ## Pushing -/

/-- A push to a remote with state `ρ`. The archive is never empty: the tar builder
ends it with two blocks of zeros. -/
def SyncFs.push {ρ : Type} (apply : List PatchEntry → Prog ρ Error Unit) : Prog (SyncStore σ × ρ) Error Unit := do
  let (s, _) ← get
  let dirty := s.marks.dirty
  if dirty.isEmpty then pure ()
  else do
    let patch ← zoom Prod.fst (fun s w => (s, w.2)) (onLocal (buildPatch fs tar rounds depth dirty))
    zoom Prod.snd (fun r w => (w.1, r)) (apply patch)
    modify fun w => ({ w.1 with marks := w.1.marks.clearPushed dirty }, w.2)

end

end Star9
