import Star9.Fs.HttpFs

/-!
# The object store file system

A directory is an object whose body lists its children, one name and mode a line.
An operation changes an object and the listing of its parent in separate calls of
the store; a listing is changed by reading it and swapping it for the new one. The
calls of the store are the atomic steps, and every reading of the clock advances it.
-/
namespace Star9
open Base Prog

structure Object where
  metadata : Headers
  body : Bytes
  deriving DecidableEq

/-- The objects, with the clock that the file systems over them read. -/
structure InMemoryObjectStore where
  objects : Std.ExtTreeMap String Object
  clock : Nat → SystemTime
  ticks : Nat

namespace InMemoryObjectStore

def new (clock : Nat → SystemTime) : InMemoryObjectStore := { objects := ∅, clock, ticks := 0 }

def get (key : String) : Prog InMemoryObjectStore Error (Option Object) := fun s => (.ok s.objects[key]?, s)

def put (key : String) (object : Object) : Prog InMemoryObjectStore Error Unit := fun s =>
  (.ok (), { s with objects := s.objects.insert key object })

def compareAndSwap (key : String) (expected new : Option Object) : Prog InMemoryObjectStore Error Bool := fun s =>
  if s.objects[key]? ≠ expected then (.ok false, s)
  else
    match new with
    | some object => (.ok true, { s with objects := s.objects.insert key object })
    | none => (.ok true, { s with objects := s.objects.erase key })

def delete (key : String) : Prog InMemoryObjectStore Error Unit := fun s =>
  (.ok (), { s with objects := s.objects.erase key })

def listPrefix (pre : String) : Prog InMemoryObjectStore Error (List (String × Object)) := fun s =>
  (.ok (s.objects.toList.filter fun kv => pre.toList.isPrefixOf kv.1.toList), s)

def currentTime : Prog InMemoryObjectStore Error SystemTime := fun s =>
  (.ok (s.clock s.ticks), { s with ticks := s.ticks + 1 })

end InMemoryObjectStore

structure R2Fs where
  basePath : String

def normalizeR2BasePath (basePath : String) : String :=
  let trimmed := trimWith (· == '/') basePath
  if trimmed = "" ∨ trimmed = "." then "" else cleanPath trimmed

def R2Fs.withBasePath (basePath : String) : R2Fs := ⟨normalizeR2BasePath basePath⟩

/-! ## Objects and listings -/

def r2MetadataAt (contentType : String) (mode : FileMode) (len : Nat) (now : SystemTime) : Headers :=
  (∅ : Headers).insert "Content-Type" contentType
    |>.insert "Content-Mode" (formatHttpMode mode)
    |>.insert "Content-Length" (toString len)
    |>.insert "Content-Modified" (toString (HttpFs.unixSecs now))
    |>.insert "Content-Ownership" "0:0"

def parseR2Line (line : String) : Option (String × FileMode) :=
  match splitWhitespace line.toList with
  | name :: mode :: _ => some (name, parseHttpMode mode)
  | _ => none

/-- The entries as they stand in the body. -/
def r2Entries (body : Bytes) : List (String × FileMode) := (lines (utf8Lossy body)).filterMap parseR2Line

def parseR2Listing (body : Bytes) : Std.ExtTreeMap String FileMode := .ofList (r2Entries body)

def formatR2Line (entry : String × FileMode) : String := entry.1 ++ " " ++ formatHttpMode entry.2 ++ "\n"

def formatR2Listing (entries : List (String × FileMode)) : String :=
  String.join ((entries.insertionSort fun a b => a.1 ≤ b.1).map formatR2Line)

def directoryMode : FileMode := FileMode.dir ||| FileMode.fromPerm 0o755

/-- The object of a directory as it is made at a time. -/
def listingObjectAt (entries : List (String × FileMode)) (now : SystemTime) : Object :=
  { metadata := r2MetadataAt "application/x-directory" directoryMode 0 now
    body := utf8Bytes (formatR2Listing entries) }

def directoryListingObject (entries : List (String × FileMode)) : Prog InMemoryObjectStore Error Object := do
  let now ← InMemoryObjectStore.currentTime
  pure (listingObjectAt entries now)

structure R2Node where
  metadata : Metadata
  body : Bytes
  entries : List DirEntry
  deriving DecidableEq

def r2DirEntry (entry : String × FileMode) : DirEntry :=
  { name := entry.1
    metadata :=
      { name := entry.1, mode := entry.2, size := if entry.2.isDir then 2 else 0, modified := unixEpoch, uid := 0, gid := 0 } }

def parseObject (name : String) (object : Object) : Outcome Error R2Node :=
  (parseHttpMetadata name object.metadata object.body.length).map fun metadata =>
    { metadata
      body := object.body
      entries := if metadata.isDir then (parseR2Listing object.body).toList.map r2DirEntry else [] }

namespace R2Fs

def compareAndSwapRetries : Nat := 3

variable (fs : R2Fs)

def key (name : String) : String :=
  let path := cleanPath name
  if fs.basePath = "" then (if path = "." then "/" else "/" ++ path)
  else if path = "." then "/" ++ fs.basePath
  else "/" ++ fs.basePath ++ "/" ++ path

def getObject (name : String) : Prog InMemoryObjectStore Error Object := do
  match ← InMemoryObjectStore.get (fs.key name) with
  | some object => pure object
  | none => throw (.path "r2fs" name .notFound)

def putDirectoryObject (name : String) (entries : List (String × FileMode)) : Prog InMemoryObjectStore Error Unit := do
  let object ← directoryListingObject entries
  InMemoryObjectStore.put (fs.key name) object

/-- The listing with one child entered or taken out. -/
def updateListing (child : String) (childMode : Option FileMode) (entries : Std.ExtTreeMap String FileMode) :
    Std.ExtTreeMap String FileMode :=
  match childMode with
  | some mode => entries.insert child mode
  | none => entries.erase child

/-- The reading half of an attempt to change a listing. -/
def readParent (parent : String) : Prog InMemoryObjectStore Error Object := do
  match ← InMemoryObjectStore.get (fs.key parent) with
  | some object => pure object
  | none => if parent = "." then directoryListingObject [] else throw (.path "r2fs" parent .notFound)

/-- The swapping half of an attempt; the new object is made before the store is called. -/
def swapParent (parent child : String) (childMode : Option FileMode) (parentObject : Object) :
    Prog InMemoryObjectStore Error Bool := do
  let entries := updateListing child childMode (parseR2Listing parentObject.body)
  let next ← directoryListingObject entries.toList
  InMemoryObjectStore.compareAndSwap (fs.key parent) (some parentObject) (some next)

def updateConflict (parent : String) : Error := .message ("r2fs compare-and-swap conflict for " ++ parent)

def updateAttempts (parent child : String) (childMode : Option FileMode) : Nat → Prog InMemoryObjectStore Error Unit
  | 0 => throw (updateConflict parent)
  | n + 1 => do
    let parentObject ← readParent fs parent
    let swapped ← swapParent fs parent child childMode parentObject
    if swapped then pure () else updateAttempts parent child childMode n

def updateParentListing (name : String) (childMode : Option FileMode) : Prog InMemoryObjectStore Error Unit :=
  let child := baseName name
  if child = "." ∨ child = "" then pure ()
  else updateAttempts fs (parentPath name) child childMode compareAndSwapRetries

/-! ## Operations on paths -/

def putFileObject (name : String) (mode : FileMode) (body : Bytes) : Prog InMemoryObjectStore Error Unit := do
  let now ← InMemoryObjectStore.currentTime
  InMemoryObjectStore.put (fs.key name) { metadata := r2MetadataAt "application/octet-stream" mode body.length now, body }
  updateParentListing fs name (some mode)

def ensureRoot : Prog InMemoryObjectStore Error Unit := do
  match ← InMemoryObjectStore.get (fs.key ".") with
  | some _ => pure ()
  | none => putDirectoryObject fs "." []

def nodeOf (name : String) (object : Object) : Prog InMemoryObjectStore Error R2Node :=
  match parseObject name object with
  | .ok node => pure node
  | .err e => throw e
  | .abort => abort

def getNode (name : String) : Prog InMemoryObjectStore Error R2Node := do
  let object ← getObject fs name
  nodeOf name object

/-- Where the target of a link leads to from the directory of the link. -/
def resolveTarget (name target : String) : String :=
  if startsWithSlash target then cleanPath (trimStartSlash target) else cleanPath (parentPath name ++ "/" ++ target)

/-- Links are followed by the operation calling itself; links that lead back never end. -/
def followNode (op : String) (ctx : FsContext) : Nat → String → Prog InMemoryObjectStore Error R2Node
  | 0, _ => abort
  | rounds + 1, name =>
    if !validPath name then throw (.path op name .notFound)
    else do
      let name := cleanPath name
      let node ← getNode fs name
      if ctx.followSymlinks && node.metadata.mode.isSymlink then
        followNode op ctx rounds (resolveTarget name (utf8Lossy node.body))
      else pure node

def openNode (node : R2Node) : HttpHandle :=
  if node.metadata.isDir then .dir (DirFile.new node.metadata node.entries)
  else .file { metadata := node.metadata, data := node.body, position := 0, closed := false }

def open_ (rounds : Nat) (ctx : FsContext) (name : String) : Prog InMemoryObjectStore Error HttpHandle := do
  let node ← followNode fs "open" ctx rounds name
  pure (openNode node)

def stat (rounds : Nat) (ctx : FsContext) (name : String) : Prog InMemoryObjectStore Error Metadata := do
  let node ← followNode fs "stat" ctx rounds name
  pure node.metadata

def readFile (rounds : Nat) (name : String) : Prog InMemoryObjectStore Error Bytes := do
  match ← open_ fs rounds (FsContext.new.withOrigin name "open") name with
  | .file f => pure f.data
  | .dir f => throw (.path "read" f.metadata.name .invalid)
  | .write _ => throw (.kind .permissionDenied)

def writeBase (rounds : Nat) (name : String) (flags : OpenFlags) : Prog InMemoryObjectStore Error Bytes :=
  if flags.contains .trunc || flags.contains .create then pure []
  else do
    match ← attempt (readFile fs rounds name) with
    | .ok data => pure data
    | .error _ => pure []

/-- A file opened for writing is like the one of the HTTP file system until it is closed. -/
def openFile (rounds : Nat) (name : String) (flags : OpenFlags) (perm : FileMode) :
    Prog InMemoryObjectStore Error HttpHandle :=
  if !flags.isWrite then open_ fs rounds FsContext.new name
  else do
    let name := cleanPath name
    let data ← writeBase fs rounds name flags
    let offset := if flags.contains .append then data.length else 0
    let metadata := Metadata.file name (if perm.bits = 0 then 0o644 else perm.perm) data.length
    pure (.write { path := name, metadata, data, offset, closed := false })

def create (rounds : Nat) (name : String) : Prog InMemoryObjectStore Error HttpHandle :=
  openFile fs rounds name (.wronly ||| .create ||| .trunc) (FileMode.fromPerm 0o644)

def close : Prog (HttpWriteFile × InMemoryObjectStore) Error Unit := fun (f, s) =>
  if f.closed then (.err (.kind .closed), f, s)
  else
    match putFileObject fs f.path f.metadata.mode f.data s with
    | (.ok (), s) => (.ok (), { f with closed := true }, s)
    | (.err e, s) => (.err e, f, s)
    | (.abort, s) => (.abort, f, s)

/-- The operations that enter a name fail when its parent does not exist. -/
def parentMissing (op name : String) : Prog InMemoryObjectStore Error Unit := do
  match ← InMemoryObjectStore.get (fs.key (parentPath name)) with
  | some _ => pure ()
  | none => throw (.path op name .notFound)

def mkdir (name : String) (_perm : FileMode) : Prog InMemoryObjectStore Error Unit := do
  let name := cleanPath name
  parentMissing fs "mkdir" name
  putDirectoryObject fs name []
  updateParentListing fs name (some directoryMode)

def remove (name : String) : Prog InMemoryObjectStore Error Unit := do
  let name := cleanPath name
  let node ← getNode fs name
  if node.metadata.isDir && !node.entries.isEmpty then throw (.path "remove" name .notEmpty)
  else do
    InMemoryObjectStore.delete (fs.key name)
    updateParentListing fs name none

/-- Move the objects under a directory, one after the other. -/
def moveObjects (oldPrefix newPrefix : String) : List (String × Object) → Prog InMemoryObjectStore Error Unit
  | [] => pure ()
  | (key, object) :: rest => do
    let suffix := (stripPrefix oldPrefix key).getD ""
    InMemoryObjectStore.put (newPrefix ++ suffix) object
    InMemoryObjectStore.delete key
    moveObjects oldPrefix newPrefix rest

def moveBelow (oldKey newKey : String) : Prog InMemoryObjectStore Error Unit := do
  let objects ← InMemoryObjectStore.listPrefix (oldKey ++ "/")
  moveObjects (oldKey ++ "/") (newKey ++ "/") objects

def moveTree (node : R2Node) (oldKey newKey : String) : Prog InMemoryObjectStore Error Unit :=
  if node.metadata.isDir then moveBelow oldKey newKey else pure ()

def rename (old new : String) : Prog InMemoryObjectStore Error Unit := do
  let old := cleanPath old
  let new := cleanPath new
  parentMissing fs "rename" new
  let oldObject ← getObject fs old
  let oldNode ← nodeOf old oldObject
  InMemoryObjectStore.put (fs.key new) oldObject
  InMemoryObjectStore.delete (fs.key old)
  moveTree oldNode (fs.key old) (fs.key new)
  updateParentListing fs old none
  updateParentListing fs new (some oldNode.metadata.mode)

def linkMode : FileMode := FileMode.symlink ||| FileMode.fromPerm 0o777

def symlink (old new : String) : Prog InMemoryObjectStore Error Unit := do
  let new := cleanPath new
  parentMissing fs "symlink" new
  let now ← InMemoryObjectStore.currentTime
  InMemoryObjectStore.put (fs.key new)
    { metadata := r2MetadataAt "application/x-symlink" linkMode (utf8Bytes old).length now, body := utf8Bytes old }
  updateParentListing fs new (some linkMode)

def linkTarget (name : String) (node : R2Node) : Except Error String :=
  if !node.metadata.mode.isSymlink then .error (.path "readlink" name .invalid) else .ok (utf8Lossy node.body)

def readlink (name : String) : Prog InMemoryObjectStore Error String := do
  let node ← getNode fs name
  Prog.ofExcept (linkTarget name node)

end R2Fs
end Star9
