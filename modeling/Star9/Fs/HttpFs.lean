import Star9.Fs.Http
import Star9.Fs.MemFs

/-!
# The HTTP file system

Nodes and metadata are fetched with GET and HEAD and kept in two caches under the
name they were asked for. The transport answers a request in view of all exchanges
so far, so that any sequence of answers is the work of some transport. The clock is
a stream that every reading advances.
-/
namespace Star9
open Base Prog

inductive HttpFsCachePayload (α : Type) where
  | value (a : α)
  | notFound
  deriving DecidableEq

structure HttpFsCacheEntry (α : Type) where
  payload : HttpFsCachePayload α
  expiresAt : SystemTime
  validators : HttpValidators
  deriving DecidableEq

abbrev HttpFsEntries (α : Type) := Std.ExtTreeMap String (HttpFsCacheEntry α)

structure HttpFsCache where
  ttl : Nat
  stat : HttpFsEntries Metadata
  node : HttpFsEntries HttpNode

/-- A request and what the transport made of it. -/
structure Exchange where
  request : HttpRequest
  answer : Except Error HttpResponse

abbrev HttpTransport := List Exchange → HttpRequest → Except Error HttpResponse

structure HttpFs where
  baseUrl : String
  ignores : List String
  cache : HttpFsCache
  clock : Nat → SystemTime
  ticks : Nat
  exchanges : List Exchange

namespace HttpFs

def withCacheTtl (baseUrl : String) (ttl : Nat) (clock : Nat → SystemTime) : HttpFs :=
  { baseUrl := String.ofList (baseUrl.toList.rdropWhile (· == '/'))
    ignores := []
    cache := { ttl, stat := ∅, node := ∅ }
    clock
    ticks := 0
    exchanges := [] }

def currentTime : Prog HttpFs Error SystemTime := fun fs => (.ok (fs.clock fs.ticks), { fs with ticks := fs.ticks + 1 })

def setCacheTtl (ttl : Nat) : Prog HttpFs Error Unit := modify fun fs => { fs with cache := { ttl, stat := ∅, node := ∅ } }

def ignore (names : List String) : Prog HttpFs Error Unit := modify fun fs => { fs with ignores := fs.ignores ++ names }

def shouldIgnore (fs : HttpFs) (name : String) : Bool := fs.ignores.any (endsWith name)

def normalizeHttpPath (name : String) : String :=
  let cleaned := cleanPath name
  if cleaned = "." then "/" else "/" ++ cleaned

def buildUrl (fs : HttpFs) (name : String) : String := fs.baseUrl ++ normalizeHttpPath name

/-! ## The caches -/

/-- The type of what a cache keeps, with its place in the state. -/
structure CacheLens (α : Type) where
  get : HttpFs → HttpFsEntries α
  set : HttpFsEntries α → HttpFs → HttpFs

def statCache : CacheLens Metadata where
  get fs := fs.cache.stat
  set stat fs := { fs with cache := { fs.cache with stat } }

def nodeCache : CacheLens HttpNode where
  get fs := fs.cache.node
  set node fs := { fs with cache := { fs.cache with node } }

section
variable {α : Type} (lens : CacheLens α)

def cacheLookup (name : String) : Prog HttpFs Error (Option (HttpFsCachePayload α)) := do
  let now ← currentTime
  match (lens.get (← get))[name]? with
  | some entry => if now < entry.expiresAt then pure (some entry.payload) else pure none
  | none => pure none

def cacheStaleValue (name : String) : Prog HttpFs Error (Option (HttpFsCacheEntry α)) := do
  match (lens.get (← get))[name]? with
  | some entry =>
    match entry.payload with
    | .value _ => pure (some entry)
    | .notFound => pure none
  | none => pure none

def cacheStore (name : String) (payload : HttpFsCachePayload α) (validators : HttpValidators) : Prog HttpFs Error Unit := do
  let ttl := (← get).cache.ttl
  if ttl = 0 then pure ()
  else do
    let now ← currentTime
    modify fun fs => lens.set ((lens.get fs).insert name { payload, expiresAt := now + ttl, validators }) fs

/-- A cached answer: a value, or the error that a missing file has. -/
def cached (name : String) : Prog HttpFs Error (Option (Except Error α)) := do
  match ← cacheLookup lens name with
  | some (.value a) => pure (some (.ok a))
  | some .notFound => pure (some (.error (.path "httpfs" name .notFound)))
  | none => pure none

def cacheHttpResult (name : String) (result : Except Error α) (validators : HttpValidators) : Prog HttpFs Error Unit :=
  match result with
  | .ok a => cacheStore lens name (.value a) validators
  | .error err =>
    if err.errorKind = .notFound then cacheStore lens name .notFound .default else pure ()

end

def responseValidators {α : Type} (headers : Headers) (stale : Option (HttpFsCacheEntry α)) : HttpValidators :=
  let validators := validatorsFromHeaders headers
  if validators.isEmpty then
    match stale with
    | some entry => entry.validators
    | none => validators
  else validators

/-- The headers of a request for something of which a stale value is known. -/
def addStaleValidators {α : Type} (headers : Headers) (stale : Option (HttpFsCacheEntry α)) : Headers :=
  match stale with
  | some entry => addValidatorHeaders headers entry.validators
  | none => headers

def invalidateExact (cache : HttpFsCache) (name : String) : HttpFsCache :=
  { cache with stat := cache.stat.erase name, node := cache.node.erase name }

def invalidateTree (cache : HttpFsCache) (name : String) : HttpFsCache :=
  if name = "." then { cache with stat := ∅, node := ∅ }
  else
    let keep (path : String) : Bool := path != name && !(name ++ "/").toList.isPrefixOf path.toList
    { cache with stat := cache.stat.filter fun path _ => keep path, node := cache.node.filter fun path _ => keep path }

def invalidateWith (f : HttpFsCache → HttpFsCache) : Prog HttpFs Error Unit := modify fun fs => { fs with cache := f fs.cache }

/-- Putting, removing and patching invalidate the tree at the name and the entry of its parent. -/
def invalidateCacheAt (name : String) : Prog HttpFs Error Unit :=
  let name := cleanPath name
  invalidateWith fun cache => invalidateExact (invalidateTree cache name) (parentPath name)

def invalidateCacheAfterPut (name : String) : Prog HttpFs Error Unit := invalidateCacheAt name

def invalidateCacheAfterRemove (name : String) : Prog HttpFs Error Unit := invalidateCacheAt name

def invalidateCacheAfterPatch (name : String) : Prog HttpFs Error Unit := invalidateCacheAt name

def invalidateCacheAfterRename (old new : String) : Prog HttpFs Error Unit :=
  let old := cleanPath old
  let new := cleanPath new
  invalidateWith fun cache =>
    invalidateExact (invalidateExact (invalidateTree (invalidateTree cache old) new) (parentPath old)) (parentPath new)

/-! ## Requests -/

section
variable (transport : HttpTransport)

def rawRequest (method : Method) (name : String) (headers : Headers) (body : Bytes) : Prog HttpFs Error HttpResponse := do
  let fs ← get
  let request : HttpRequest := { method, url := fs.buildUrl name, headers, body }
  let answer := transport fs.exchanges request
  modify fun fs => { fs with exchanges := fs.exchanges ++ [{ request, answer }] }
  Prog.ofExcept answer

def responseStatusResult (name : String) (response : HttpResponse) : Except Error HttpResponse :=
  if 200 ≤ response.status ∧ response.status ≤ 299 then .ok response
  else if response.status = 404 then .error (.path "httpfs" name .notFound)
  else .error (.message ("httpfs " ++ name ++ " returned HTTP " ++ toString response.status.toNat))

def request (method : Method) (name : String) (headers : Headers) (body : Bytes) : Prog HttpFs Error HttpResponse := do
  let response ← rawRequest transport method name headers body
  Prog.ofExcept (responseStatusResult name response)

def normalizeMultipartPath (baseUrl raw : String) : String :=
  let trimmed := trim raw
  let withoutBase := (stripPrefix baseUrl trimmed).getD trimmed
  let path := match splitAtText "://".toList withoutBase.toList with
    | some (_, rest) =>
      let remainder := rest.drop 3
      match splitAtText ['/'] remainder with
      | some (_, path) => String.ofList path
      | none => "/"
    | none => withoutBase
  let cleaned := trimStartSlash (trimWith (· == '"') path)
  if cleaned = "" then "." else cleanPath cleaned

def multipartPartPath (baseUrl : String) (headers : Headers) : Option String :=
  match headerValue headers "Content-Location" with
  | some path => some (normalizeMultipartPath baseUrl path)
  | none =>
    (headerValue headers "Content-Disposition").bind fun disposition =>
      let params := (parseHeaderParameters disposition).2
      ((params["filename"]?).orElse fun _ => params["filename*"]?).map (normalizeMultipartPath baseUrl)

/-- The root of a multipart listing as far as it was found, and the entries so far. -/
structure MultipartListing where
  root : Option (Metadata × Bytes)
  entries : Std.ExtTreeMap String DirEntry

def multipartStep (baseUrl name : String) (acc : MultipartListing) (part : HttpMultipartPart) :
    Outcome Error MultipartListing :=
  match multipartPartPath baseUrl part.headers with
  | none => .ok acc
  | some partPath =>
    (parseHttpMetadata partPath part.headers part.body.length).map fun metadata =>
      if partPath = name then
        { root := some (metadata, part.body)
          entries := (parseHttpDirectory part.body).foldl (fun m entry => m.insert entry.name entry) acc.entries }
      else if parentPath partPath ≠ name then acc
      else
        let entryName := baseName partPath
        let entry : DirEntry := { name := entryName, metadata := { metadata with name := entryName } }
        { acc with entries := acc.entries.insert entryName entry }

def multipartSteps (baseUrl name : String) : MultipartListing → List HttpMultipartPart → Outcome Error MultipartListing
  | acc, [] => .ok acc
  | acc, part :: parts =>
    match multipartStep baseUrl name acc part with
    | .ok acc => multipartSteps baseUrl name acc parts
    | .err e => .err e
    | .abort => .abort

def parseMultipartNode (baseUrl name boundary : String) (body : Bytes) : Outcome Error HttpNode :=
  let name := cleanPath name
  match parseHttpMultipart body boundary with
  | .error e => .err e
  | .ok parts =>
    match multipartSteps baseUrl name { root := none, entries := ∅ } parts with
    | .err e => .err e
    | .abort => .abort
    | .ok listing =>
      match listing.root with
      | some (metadata, body) => .ok { metadata, body, entries := listing.entries.values }
      | none => .err (.message ("httpfs " ++ name ++ " returned malformed multipart directory listing"))

def parseNode (baseUrl name : String) (response : HttpResponse) : Outcome Error HttpNode :=
  match multipartBoundary response.headers with
  | some boundary => parseMultipartNode baseUrl name boundary response.body
  | none =>
    (parseHttpMetadata name response.headers response.body.length).map fun metadata =>
      { metadata, body := response.body
        entries := if metadata.isDir then parseHttpDirectory response.body else [] }

/-! ## Loading -/

/-- What a response other than 304 says. -/
def readResponse {α : Type} (parse : HttpResponse → Outcome Error α) (name : String) (response : HttpResponse) :
    Outcome Error α :=
  match responseStatusResult name response with
  | .ok response => parse response
  | .error err => .err err

def staleValue {α : Type} (missing : String) (stale : Option (HttpFsCacheEntry α)) : Outcome Error α :=
  match stale with
  | some { payload := .value a, .. } => .ok a
  | _ => .err (.message missing)

/-- Ask the server, revalidate what is stale, and keep what comes of it. -/
def revalidate {α : Type} (lens : CacheLens α) (method : Method) (parse : String → HttpResponse → Outcome Error α)
    (missing name : String) (headers : Headers) : Prog HttpFs Error α := do
  let stale ← cacheStaleValue lens name
  let response ← rawRequest transport method name (addStaleValidators headers stale) []
  let validators := responseValidators response.headers stale
  let fs ← get
  let result : Outcome Error α :=
    if response.status = 304 then staleValue missing stale else readResponse (parse fs.baseUrl) name response
  match result with
  | .ok a => do
    cacheHttpResult lens name (.ok a) validators
    pure a
  | .err err => do
    cacheHttpResult lens name (.error err) validators
    throw err
  | .abort => abort

/-- The common part of `load_node` and `load_metadata`. -/
def load {α : Type} (lens : CacheLens α) (method : Method) (op : String)
    (parse : String → HttpResponse → Outcome Error α) (missing name : String) (headers : Headers) : Prog HttpFs Error α := do
  match ← cached lens name with
  | some result => Prog.ofExcept result
  | none =>
    if (← get).shouldIgnore name then throw (.path op name .notFound)
    else revalidate transport lens method parse missing name headers

def loadNodeWithHeaders (name : String) (headers : Headers) : Prog HttpFs Error HttpNode :=
  load transport nodeCache .get "open" (fun baseUrl response => parseNode baseUrl name response)
    ("httpfs " ++ name ++ " returned HTTP 304 without a cached node") name headers

def loadNode (name : String) : Prog HttpFs Error HttpNode := loadNodeWithHeaders transport name ∅

def loadMetadata (name : String) : Prog HttpFs Error Metadata :=
  load transport statCache .head "stat" (fun _ response => parseHttpMetadata name response.headers response.body.length)
    ("httpfs " ++ name ++ " returned HTTP 304 without cached metadata") name ∅

/-! ## Writing -/

def unixSecs (time : SystemTime) : Nat := time.toNat / 1000000000

def unixMicros (time : SystemTime) : Nat := time.toNat / 1000

def insertChangeTimestamp (headers : Headers) : Prog HttpFs Error Headers := do
  let now ← currentTime
  pure (headers.insert "Change-Timestamp" (toString (unixMicros now)))

def putNode (name contentType : String) (mode : FileMode) (body : Bytes) : Prog HttpFs Error Unit := do
  let now ← currentTime
  let headers : Headers := (∅ : Headers).insert "Content-Type" contentType
    |>.insert "Content-Mode" (formatHttpMode mode)
    |>.insert "Content-Modified" (toString (unixSecs now))
    |>.insert "Content-Ownership" "0:0"
    |>.insert "Content-Length" (toString body.length)
  let headers ← insertChangeTimestamp headers
  let _ ← request transport .put name headers body
  invalidateCacheAfterPut name

def patchTar (name : String) (body : Bytes) : Prog HttpFs Error Unit :=
  if !validPath name then throw (.path "patch" name .notFound)
  else do
    let name := cleanPath name
    let headers : Headers := (∅ : Headers).insert "Content-Type" "application/x-tar"
      |>.insert "Content-Length" (toString body.length)
    let headers ← insertChangeTimestamp headers
    let _ ← request transport .patch name headers body
    invalidateCacheAfterPatch name

def mkdir (name : String) (perm : FileMode) : Prog HttpFs Error Unit :=
  putNode transport name "application/x-directory" (FileMode.dir ||| FileMode.fromPerm perm.perm) []

def remove (name : String) : Prog HttpFs Error Unit := do
  let headers ← insertChangeTimestamp ∅
  let _ ← request transport .delete name headers []
  invalidateCacheAfterRemove name

def rename (old new : String) : Prog HttpFs Error Unit := do
  let headers ← insertChangeTimestamp ((∅ : Headers).insert "Destination" (normalizeHttpPath new))
  let _ ← request transport .move old headers []
  invalidateCacheAfterRename old new

def symlink (old new : String) : Prog HttpFs Error Unit :=
  putNode transport new "application/x-symlink" (FileMode.symlink ||| FileMode.fromPerm 0o777) (utf8Bytes old)

end

end HttpFs

/-! ## Handles -/

structure HttpFile where
  metadata : Metadata
  data : Bytes
  position : Nat
  closed : Bool
  deriving DecidableEq

structure HttpWriteFile where
  path : String
  metadata : Metadata
  data : Bytes
  offset : Nat
  closed : Bool
  deriving DecidableEq

inductive HttpHandle where
  | file (f : HttpFile)
  | dir (f : DirFile)
  | write (f : HttpWriteFile)
  deriving DecidableEq

namespace HttpWriteFile
variable {σ : Type}

/-- A write grows the buffer to the end of what is written; no vector is longer than the largest allocation. -/
def write (new : Bytes) : Prog (HttpWriteFile × σ) Error Nat := fun (f, fs) =>
  if f.closed then (.err (.kind .closed), f, fs)
  else
    let stop := f.offset + new.length
    if 2 ^ 64 ≤ stop ∨ resizeFails f.data stop = true ∨ resizeFails f.data f.offset = true then (.abort, f, fs)
    else
      let data := overwrite (resize f.data (max f.data.length stop)) f.offset new
      (.ok new.length, { f with data, offset := stop, metadata := { f.metadata with size := data.length } }, fs)

def writeAt (new : Bytes) (offset : UInt64) : Prog (HttpWriteFile × σ) Error Nat := fun (f, fs) =>
  write new ({ f with offset := offset.toNat }, fs)

/-- The position may lie past the end; it wraps around where 64 bits do not hold it. -/
def seek (pos : SeekFrom) : Prog (HttpWriteFile × σ) Error UInt64 := fun (f, fs) =>
  let next : Int := match pos with
    | .start pos => pos.toNat
    | .fromEnd offset => f.data.length + offset
    | .current offset => f.offset + offset
  if next < 0 then (.err (.kind .invalid), f, fs)
  else
    let next := UInt64.ofNat next.toNat
    (.ok next, { f with offset := next.toNat }, fs)

def close (transport : HttpTransport) : Prog (HttpWriteFile × HttpFs) Error Unit := fun (f, fs) =>
  if f.closed then (.err (.kind .closed), f, fs)
  else
    match HttpFs.putNode transport f.path "application/octet-stream" f.metadata.mode f.data fs with
    | (.ok (), fs) => (.ok (), { f with closed := true }, fs)
    | (.err e, fs) => (.err e, f, fs)
    | (.abort, fs) => (.abort, f, fs)

end HttpWriteFile

/-! ## Operations on paths -/

namespace HttpFs
variable (transport : HttpTransport)

/-- The handle that `open` makes of a node. -/
def openNode (node : HttpNode) : HttpHandle :=
  if node.metadata.isDir then .dir (DirFile.new node.metadata node.entries)
  else .file { metadata := node.metadata, data := node.body, position := 0, closed := false }

def open_ (_ctx : FsContext) (name : String) : Prog HttpFs Error HttpHandle :=
  if !validPath name then throw (.path "open" name .notFound)
  else do
    let node ← loadNode transport (cleanPath name)
    pure (openNode node)

def stat (_ctx : FsContext) (name : String) : Prog HttpFs Error Metadata :=
  if !validPath name then throw (.path "stat" name .notFound)
  else loadMetadata transport (cleanPath name)

/-- The entries of a node, as `read_dir` returns them. -/
def listNode (name : String) (node : HttpNode) : Except Error (List DirEntry) :=
  if !node.metadata.isDir then .error (.path "readdir" name .invalid) else .ok (FileSystem.sortEntries node.entries)

def readDir (_ctx : FsContext) (name : String) : Prog HttpFs Error (List DirEntry) :=
  if !validPath name then throw (.path "readdir" name .notFound)
  else do
    let name := cleanPath name
    match ← cached nodeCache name with
    | some result => do
      let node ← Prog.ofExcept result
      Prog.ofExcept (listNode name node)
    | none => do
      let node ← loadNodeWithHeaders transport name ((∅ : Headers).insert "Accept" "multipart/mixed")
      Prog.ofExcept (listNode name node)

def linkTarget (name : String) (node : HttpNode) : Except Error String :=
  if !node.metadata.mode.isSymlink then .error (.path "readlink" name .invalid) else .ok (utf8Lossy node.body)

def readlink (name : String) : Prog HttpFs Error String := do
  let node ← loadNode transport name
  Prog.ofExcept (linkTarget name node)

/-- `read_file` on an HTTP file system: a file gives its bytes, a directory refuses to be read. -/
def readFile (name : String) : Prog HttpFs Error Bytes := do
  match ← open_ transport (FsContext.new.withOrigin name "open") name with
  | .file f => pure f.data
  | .dir f => throw (.path "read" f.metadata.name .invalid)
  | .write _ => throw (.kind .permissionDenied)

/-- What a file opened for writing starts from. -/
def writeBase (name : String) (flags : OpenFlags) : Prog HttpFs Error Bytes :=
  if flags.contains .trunc || flags.contains .create then pure []
  else do
    match ← attempt (readFile transport name) with
    | .ok data => pure data
    | .error _ => pure []

def openFile (name : String) (flags : OpenFlags) (perm : FileMode) : Prog HttpFs Error HttpHandle :=
  if !flags.isWrite then open_ transport FsContext.new name
  else do
    let name := cleanPath name
    let data ← writeBase transport name flags
    let offset := if flags.contains .append then data.length else 0
    let metadata := Metadata.file name (if perm.bits = 0 then 0o644 else perm.perm) data.length
    pure (.write { path := name, metadata, data, offset, closed := false })

def create (name : String) : Prog HttpFs Error HttpHandle :=
  openFile transport name (.wronly ||| .create ||| .trunc) (FileMode.fromPerm 0o644)

end HttpFs
end Star9
