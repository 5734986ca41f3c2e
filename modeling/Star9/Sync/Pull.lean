import Star9.Sync.Patch

/-!
# Pulling

A pull makes the local tree like the tree the remote shows. It first removes, from
the leaves up, the local paths that the remote does not have, and then brings over
the remote's paths from the root down. A path that a dirty mark overlaps is a
conflict, and the policy says which side gives way.
-/
namespace Star9
open Base Prog

inductive PullConflictPolicy where
  | keepLocal
  | preferRemote
  deriving DecidableEq

inductive PullPathAction where
  | deleteLocal
  | syncRemoteDir
  | syncRemoteLeaf
  deriving DecidableEq

/-! ## Paths -/

section
variable {σ η : Type} (fs : FileSystem σ η)

/-- The paths of the tree below a path, in the order of the walk. `depth` bounds the nesting. -/
def collectPathsFrom : Nat → String → Prog σ Error (List String)
  | 0, _ => abort
  | depth + 1, path => do
    let here := if path = "." then [] else [path]
    let metadata ← fs.freeLstat path
    if metadata.isDir then do
      let entries ← fs.freeReadDir path
      let children ← entries.mapM fun entry => collectPathsFrom depth (childPath path entry.name)
      pure (here ++ children.flatten)
    else pure here

/-- Shorter paths come first, and paths of one length in the order of strings. -/
def pathLe (a b : String) : Bool :=
  ((compare (splitSlash a).length (splitSlash b).length).then (compare a b)).isLE

def collectPaths (depth : Nat) : Prog σ Error (List String) := do
  let out ← collectPathsFrom fs depth "."
  pure (out.mergeSort pathLe)

def pathContains (ancestor descendant : String) : Bool :=
  cleanPath descendant == cleanPath ancestor ||
    (stripPrefix (cleanPath ancestor ++ "/") (cleanPath descendant)).isSome

def pathsOverlap (left right : String) : Bool := pathContains left right || pathContains right left

/-! ## Conflicts -/

def localIsDir (path : String) : Prog σ Error Bool := do
  if ← FileSystem.existsWith fs.stat path then do
    let metadata ← fs.freeLstat path
    pure metadata.isDir
  else pure false

def overlapping (dirty : DirtyMap) (path : String) : List String := dirty.keys.filter fun k => pathsOverlap k path

def conflictingDirtyPaths (dirty : DirtyMap) (path : String) (action : PullPathAction) :
    Prog σ Error (List String) :=
  let path := cleanPath path
  match action with
  | .deleteLocal => pure (overlapping dirty path)
  | .syncRemoteLeaf => pure (overlapping dirty path)
  | .syncRemoteDir => do
    if ← localIsDir fs path then pure (dirty.keys.filter fun k => pathContains k path)
    else pure (overlapping dirty path)

def recordConflicts (retained : Std.ExtTreeMap String DirtyChange) (dirty : DirtyMap) (conflicts : List String) :
    Std.ExtTreeMap String DirtyChange :=
  conflicts.foldl (fun retained path =>
    match dirty[path]? with
    | some entry => retained.insert path entry.change
    | none => retained) retained

def clearDirtySubtree (dirty : DirtyMap) (path : String) : DirtyMap :=
  (dirty.keys.filter fun k => pathContains path k).foldl (fun dirty k => dirty.erase k) dirty

def clearDirtyPathsForRemoteSync (dirty : DirtyMap) (path : String) (action : PullPathAction) : DirtyMap :=
  match action with
  | .deleteLocal | .syncRemoteLeaf => clearDirtySubtree dirty path
  | .syncRemoteDir => dirty.erase path

/-! ## One path -/

variable (rounds depth : Nat)

def removeLocalPath (path : String) : Prog σ Error Unit := removeAnyPath fs depth path

/-- The local side of a directory of the remote. -/
def syncDirHere (path : String) (mode : FileMode) : Prog σ Error Unit := do
  if ← FileSystem.existsWith fs.stat path then do
    let metadata ← fs.freeLstat path
    if metadata.isDir then pure ()
    else do
      removeLocalPath fs depth path
      fs.mkdirAll path mode
  else fs.mkdirAll path mode

def removeIfExists (path : String) : Prog σ Error Unit := do
  if ← FileSystem.existsWith fs.stat path then removeLocalPath fs depth path else pure ()

/-- Make way for a file of the remote, and say whether it has to be written. -/
def prepareFile (path : String) (data : Bytes) : Prog σ Error Bool := do
  if ← FileSystem.existsWith fs.stat path then do
    let metadata ← fs.freeLstat path
    if metadata.isDir || metadata.mode.isSymlink then do
      removeLocalPath fs depth path
      pure true
    else do
      let current ← fs.readFile rounds path
      pure (current != data)
  else do
    fs.mkdirAll (parentPath path) (FileMode.fromPerm 0o755)
    pure true

def syncFileHere (path : String) (data : Bytes) (mode : FileMode) : Prog σ Error Unit := do
  if ← prepareFile fs rounds depth path data then fs.writeFile path data mode else pure ()

end

/-! ## The whole tree -/

section
variable {σ τ η θ α : Type} (fs : FileSystem σ η) (remote : FileSystem τ θ)

def onHere (p : Prog σ Error α) : Prog (σ × τ) Error α := zoom Prod.fst (fun s w => (s, w.2)) p

def onThere (p : Prog τ Error α) : Prog (σ × τ) Error α := zoom Prod.snd (fun t w => (w.1, t)) p

/-- A directory is brought over as a directory, and everything else as a leaf. -/
def pullPathAction (path : String) : Prog (σ × τ) Error PullPathAction := do
  let metadata ← onThere (remote.freeLstat path)
  if metadata.isDir then pure .syncRemoteDir
  else if metadata.mode.isSymlink then pure .syncRemoteLeaf
  else do
    let _ ← onHere (localIsDir fs path)
    pure .syncRemoteLeaf

variable (rounds depth : Nat)

def syncPathFromRemote (path : String) : Prog (σ × τ) Error Unit := do
  let metadata ← onThere (remote.freeLstat path)
  if metadata.isDir then onHere (syncDirHere fs depth path metadata.mode)
  else if metadata.mode.isSymlink then do
    onHere (removeIfExists fs depth path)
    onHere (fs.mkdirAll (parentPath path) (FileMode.fromPerm 0o755))
    let target ← onThere (remote.readlink path)
    onHere (fs.symlink target path)
  else do
    let data ← onThere (remote.readFile rounds path)
    onHere (syncFileHere fs rounds depth path data metadata.mode)

/-- What a pull carries along: its copy of the dirty map, and the conflicts it kept. -/
structure PullState where
  dirty : DirtyMap
  retained : Std.ExtTreeMap String DirtyChange

/-- Do to one path what the pull wants, or leave it and keep the conflict. -/
def resolving (policy : PullConflictPolicy) (st : PullState) (conflicts : List String)
    (act : Prog (σ × τ) Error Unit) (cleared : DirtyMap) : Prog (σ × τ) Error PullState :=
  if conflicts.isEmpty then do
    act
    pure st
  else
    match policy with
    | .keepLocal => pure { st with retained := recordConflicts st.retained st.dirty conflicts }
    | .preferRemote => do
      act
      pure { st with dirty := cleared }

variable (policy : PullConflictPolicy)

def deleteStep (remotePaths : List String) (st : PullState) (path : String) : Prog (σ × τ) Error PullState :=
  if remotePaths.contains path then pure st
  else do
    let conflicts ← onHere (conflictingDirtyPaths fs st.dirty path .deleteLocal)
    resolving policy st conflicts (onHere (removeLocalPath fs depth path)) (clearDirtySubtree st.dirty path)

def syncStep (st : PullState) (path : String) : Prog (σ × τ) Error PullState := do
  let action ← pullPathAction fs remote path
  let conflicts ← onHere (conflictingDirtyPaths fs st.dirty path action)
  resolving policy st conflicts (syncPathFromRemote fs remote rounds depth path)
    (clearDirtyPathsForRemoteSync st.dirty path action)

/-- The two passes over the trees. -/
def pullPasses (dirty : DirtyMap) : Prog (σ × τ) Error PullState := do
  let remotePaths ← onThere (collectPaths remote depth)
  let localPaths ← onHere (collectPaths fs depth)
  let st ← localPaths.reverse.foldlM (deleteStep fs depth policy remotePaths) { dirty, retained := ∅ }
  remotePaths.foldlM (syncStep fs remote rounds depth policy) st

/-- A pull from a remote whose `index` gives the file system `remote`. -/
def SyncFs.pull (index : Prog τ Error Unit) (retain : Bool) : Prog (SyncStore σ × τ) Error Unit := do
  zoom Prod.snd (fun t w => (w.1, t)) index
  let (s, _) ← get
  let st ← zoom (fun w => (w.1.localFs, w.2)) (fun v w => ({ w.1 with localFs := v.1 }, v.2))
    (pullPasses fs remote rounds depth policy s.marks.dirty)
  modify fun w => ({ w.1 with
    marks := w.1.marks.clearPulled s.marks.dirty st.dirty (if retain then st.retained else ∅) }, w.2)

end

end Star9
