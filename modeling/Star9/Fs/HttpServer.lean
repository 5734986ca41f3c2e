import Star9.Fs.HttpHandle
import Star9.Sync.Patch

/-!
# The HTTP server side

`HttpFsHandler` answers the requests of the HTTP file system over any file system.
Reading a tar archive is a parameter: the entries it yields, and the error it may
end with. Whatever fails while a request is handled becomes a response.
-/
namespace Star9
open Base Prog

/-! ## Targets and headers -/

structure RequestTarget where
  path : String
  hadTrailingSlash : Bool
  deriving DecidableEq, Repr

def textBefore (sep : Char) (s : String) : String := String.ofList (s.toList.takeWhile (· != sep))

/-- What follows the host of a URL. -/
def fromFirstSlash (remainder : List Char) : String :=
  match remainder.dropWhile (· != '/') with
  | [] => "/"
  | path => String.ofList path

def parseRequestTarget (url : String) : RequestTarget :=
  let withoutFragment := textBefore '#' (trim url)
  let path := match splitAtText "://".toList withoutFragment.toList with
    | some (_, rest) => fromFirstSlash (rest.drop 3)
    | none =>
      match stripPrefix "//" withoutFragment with
      | some remainder => fromFirstSlash remainder.toList
      | none => withoutFragment
  let path := textBefore '?' path
  let cleaned := trim (trimStartSlash path)
  { path := if cleaned = "" then "." else cleanPath cleaned, hadTrailingSlash := endsWith path "/" }

def acceptsMultipart (headers : Headers) : Bool :=
  match headerValue headers "Accept" with
  | some accept => (accept.toList.splitOn ',').any fun value => eqIgnoreAsciiCase (trim (String.ofList value)) "multipart/mixed"
  | none => false

def modeHeaderOrDefault (value : Option String) (default : FileMode) : FileMode :=
  match value.bind (parseUnsigned 32) with
  | none => default
  | some bits =>
    let bits := UInt32.ofNat bits
    let perm := bits &&& 0o777
    if bits &&& 0o170000 = 0o040000 then FileMode.dir ||| FileMode.fromPerm perm
    else if bits &&& 0o170000 = 0o120000 then FileMode.symlink ||| FileMode.fromPerm perm
    else FileMode.fromPerm perm

def parseOwnership (value : String) : UInt32 × UInt32 :=
  match splitOnce ':' value with
  | some (uid, gid) => (UInt32.ofNat ((parseUnsigned 32 uid).getD 0), UInt32.ofNat ((parseUnsigned 32 gid).getD 0))
  | none => (0, 0)

def contentTypeOf (mode : FileMode) : String :=
  if mode.isDir then "application/x-directory"
  else if mode.isSymlink then "application/x-symlink"
  else "application/octet-stream"

def entityTag (metadata : Metadata) (contentLength : Nat) : String :=
  "\"" ++ formatHttpMode metadata.mode ++ "-" ++ toString contentLength ++ "-" ++
    toString (HttpFs.unixSecs metadata.modified) ++ "\""

def metadataHeaders (metadata : Metadata) (contentLength : Nat) : Headers :=
  let modified := toString (HttpFs.unixSecs metadata.modified)
  (∅ : Headers).insert "Content-Type" (contentTypeOf metadata.mode)
    |>.insert "Content-Length" (toString contentLength)
    |>.insert "Content-Mode" (formatHttpMode metadata.mode)
    |>.insert "Content-Modified" modified
    |>.insert "Last-Modified" modified
    |>.insert "ETag" (entityTag metadata contentLength)
    |>.insert "Content-Ownership" (toString metadata.uid.toNat ++ ":" ++ toString metadata.gid.toNat)

/-- With a tag in the request, the date is not looked at. -/
def conditionalNotModified (requestHeaders responseHeaders : Headers) : Bool :=
  match headerValue requestHeaders "If-None-Match" with
  | some candidate =>
    match headerValue responseHeaders "ETag" with
    | some etag => (candidate.toList.splitOn ',').any fun value =>
        trim (String.ofList value) = "*" || trim (String.ofList value) = etag
    | none => false
  | none =>
    match headerValue requestHeaders "If-Modified-Since" with
    | some since => headerValue responseHeaders "Last-Modified" = some since
    | none => false

def notModifiedResponse (headers : Headers) : HttpResponse :=
  { status := 304
    headers := ["ETag", "Last-Modified", "Content-Modified"].foldl (fun (kept : Headers) key =>
      match headerValue headers key with
      | some value => kept.insert key value
      | none => kept) ∅
    body := [] }

def httpPath (name : String) : String := if name = "." then "/" else "/" ++ cleanPath name

/-- The path of an entry, cleaned. -/
def servedChildPath (parent name : String) : String := if parent = "." then cleanPath name else cleanPath (parent ++ "/" ++ name)

def multipartPart (boundary : String) (headers : Headers) (partBody : Bytes) : Bytes :=
  utf8Bytes ("--" ++ boundary ++ "\r\n") ++ headers.toList.flatMap (fun kv => utf8Bytes (kv.1 ++ ": " ++ kv.2 ++ "\r\n")) ++
    utf8Bytes "\r\n" ++ partBody ++ utf8Bytes "\r\n"

def serverBoundary : String := "star9-httpfs-boundary"

def okResponse : HttpResponse := { status := 200, headers := ∅, body := utf8Bytes "OK" }

def badRequest (message : String) : HttpResponse := { status := 400, headers := ∅, body := utf8Bytes message }

def ErrorKind.text : ErrorKind → String
  | .notFound => "not found"
  | .alreadyExists => "already exists"
  | .invalid => "invalid argument"
  | .permissionDenied => "permission denied"
  | .notSupported => "operation not supported"
  | .notEmpty => "directory not empty"
  | .closed => "file is closed"
  | .notDir => "not a directory"
  | .isDir => "is a directory"
  | .unexpectedEof => "unexpected eof"
  | .other => "other error"

def Error.text : Error → String
  | .path op name k => op ++ " " ++ name ++ ": " ++ k.text
  | .kind k => k.text
  | .message m => m

def responseFromError (err : Error) : HttpResponse :=
  let (status, body) : UInt16 × String := match err.errorKind with
    | .notFound => (404, "Not Found")
    | .permissionDenied => (403, "Permission Denied")
    | .alreadyExists => (409, err.text)
    | .invalid => (400, err.text)
    | .notEmpty => (409, err.text)
    | .notSupported => (501, err.text)
    | _ => (500, err.text)
  { status, headers := ∅, body := utf8Bytes body }

/-- A backend without modes, owners or times is let through. -/
def ignoreUnsupported {σ : Type} (p : Prog σ Error Unit) : Prog σ Error Unit := do
  match ← attempt p with
  | .ok () => pure ()
  | .error err => if err.errorKind = .notSupported then pure () else throw err

/-! ## The handler -/

/-- `rounds` bounds the reads of one file, `depth` the nesting of the directories that a patch removes. -/
structure HttpFsHandler (σ η : Type) where
  fsys : FileSystem σ η
  readTar : Bytes → List PatchEntry × Option Error
  rounds : Nat
  depth : Nat

namespace HttpFsHandler
variable {σ η : Type} (h : HttpFsHandler σ η)

def directoryLine (entry : DirEntry) : String := entry.name ++ " " ++ formatHttpMode entry.metadata.mode ++ "\n"

def directoryListing (name : String) : Prog σ Error Bytes := do
  let entries ← h.fsys.freeReadDir name
  pure (utf8Bytes (String.join (entries.map directoryLine)))

/-- The answer that carries a body, unless the request already has it. -/
def entityResponse (requestHeaders : Headers) (metadata : Metadata) (contentLength : Nat) (body : Bytes) : HttpResponse :=
  let responseHeaders := metadataHeaders metadata contentLength
  if conditionalNotModified requestHeaders responseHeaders then notModifiedResponse responseHeaders
  else { status := 200, headers := responseHeaders, body }

/-- A file has no listing, and only the size of its body is told. -/
def childPart (childName : String) : Prog σ Error Bytes := do
  let metadata ← h.fsys.freeLstat childName
  let headers := (metadataHeaders metadata metadata.size).insert "Content-Location" (httpPath childName)
  if metadata.isDir then do
    let listing ← directoryListing h childName
    pure (multipartPart serverBoundary headers listing)
  else
    pure (multipartPart serverBoundary
      ((headers.erase "Content-Length").insert "Content-Range" ("bytes 0-0/" ++ toString metadata.size)) [])

def multipartDirectoryResponse (name : String) : Prog σ Error HttpResponse := do
  let metadata ← h.fsys.freeLstat name
  let entries ← h.fsys.freeReadDir name
  let rootBody ← directoryListing h name
  let rootHeaders := (metadataHeaders metadata metadata.size).insert "Content-Location" (httpPath name)
  let parts ← entries.mapM fun entry => childPart h (servedChildPath name entry.name)
  let body := multipartPart serverBoundary rootHeaders rootBody ++ parts.flatten ++ utf8Bytes ("--" ++ serverBoundary ++ "--\r\n")
  pure
    { status := 200
      headers := (∅ : Headers).insert "Content-Type" ("multipart/mixed; boundary=" ++ serverBoundary)
        |>.insert "Content-Length" (toString body.length)
      body }

/-- The bytes that a GET answers with. -/
def entityBody (name : String) (metadata : Metadata) : Prog σ Error Bytes :=
  if metadata.mode.isSymlink then do
    let target ← h.fsys.readlink name
    pure (utf8Bytes target)
  else if metadata.isDir then directoryListing h name
  else h.fsys.readFile h.rounds name

def handleGet (name : String) (requestHeaders : Headers) : Prog σ Error HttpResponse := do
  let metadata ← h.fsys.freeLstat name
  if metadata.isDir && acceptsMultipart requestHeaders then multipartDirectoryResponse h name
  else do
    let body ← entityBody h name metadata
    pure (entityResponse requestHeaders metadata body.length body)

def handleHead (name : String) (requestHeaders : Headers) : Prog σ Error HttpResponse := do
  let metadata ← h.fsys.freeLstat name
  pure (entityResponse requestHeaders metadata metadata.size [])

def applyMode (name : String) (headers : Headers) : Prog σ Error Unit :=
  match headerValue headers "Content-Mode" with
  | some mode => ignoreUnsupported (h.fsys.chmod name (modeHeaderOrDefault (some mode) (FileMode.fromPerm 0o644)))
  | none => pure ()

def applyOwnership (name : String) (headers : Headers) : Prog σ Error Unit :=
  match headerValue headers "Content-Ownership" with
  | some ownership => ignoreUnsupported (h.fsys.chown name (parseOwnership ownership).1 (parseOwnership ownership).2)
  | none => pure ()

def applyModified (name : String) (headers : Headers) : Prog σ Error Unit :=
  match (headerValue headers "Content-Modified").bind (parseUnsigned 64) with
  | none => pure ()
  | some secs =>
    match (epochPlusSecs secs : Outcome Error SystemTime) with
    | .ok modified => ignoreUnsupported (h.fsys.chtimes name modified)
    | .err e => throw e
    | .abort => abort

def applyMetadataHeaders (name : String) (headers : Headers) : Prog σ Error Unit := do
  let _ ← h.fsys.freeLstat name
  applyMode h name headers
  applyOwnership h name headers
  applyModified h name headers

/-- A directory that is there already may be put again. -/
def putDirectory (name : String) (headers : Headers) : Prog σ Error Unit := do
  let mode := modeHeaderOrDefault (headerValue headers "Content-Mode") (FileMode.dir ||| FileMode.fromPerm 0o755)
  match ← attempt (h.fsys.mkdir name (FileMode.fromPerm mode.perm)) with
  | .ok () => pure ()
  | .error err =>
    if err.errorKind = .alreadyExists then do
      match ← attempt (h.fsys.freeLstat name) with
      | .ok metadata => if metadata.isDir then pure () else throw err
      | .error _ => throw err
    else throw err

def putFile (name : String) (request : HttpRequest) : Prog σ Error Unit :=
  let mode := modeHeaderOrDefault (headerValue request.headers "Content-Mode") (FileMode.fromPerm 0o644)
  h.fsys.writeFile name request.body (FileMode.fromPerm mode.perm)

def putContents (name : String) (hadTrailingSlash : Bool) (request : HttpRequest) : Prog σ Error Unit :=
  let contentType := (headerValue request.headers "Content-Type").getD ""
  if eqIgnoreAsciiCase contentType "application/x-symlink" then h.fsys.symlink (utf8Lossy request.body) name
  else if eqIgnoreAsciiCase contentType "application/x-directory" || hadTrailingSlash then putDirectory h name request.headers
  else putFile h name request

def handlePut (name : String) (hadTrailingSlash : Bool) (request : HttpRequest) : Prog σ Error HttpResponse := do
  putContents h name hadTrailingSlash request
  applyMetadataHeaders h name request.headers
  pure okResponse

def handleDelete (name : String) : Prog σ Error HttpResponse := do
  h.fsys.remove name
  pure okResponse

def handleMove (name : String) (request : HttpRequest) : Prog σ Error HttpResponse :=
  match headerValue request.headers "Destination" with
  | none => pure (badRequest "Destination header required")
  | some destination => do
    h.fsys.rename name (parseRequestTarget destination).path
    pure okResponse

def applyTar (patch : Bytes) : Prog σ Error Unit := do
  applySyncPatch h.fsys h.depth (h.readTar patch).1
  match (h.readTar patch).2 with
  | some err => throw err
  | none => pure ()

def isTarPatch (headers : Headers) : Bool :=
  match headerValue headers "Content-Type" with
  | some value => eqIgnoreAsciiCase value "application/x-tar"
  | none => false

def handlePatch (name : String) (request : HttpRequest) : Prog σ Error HttpResponse :=
  if isTarPatch request.headers then do
    applyTar h request.body
    pure okResponse
  else do
    applyMetadataHeaders h name request.headers
    pure okResponse

def dispatch (request : HttpRequest) : Prog σ Error HttpResponse :=
  let target := parseRequestTarget request.url
  match request.method with
  | .get => handleGet h target.path request.headers
  | .head => handleHead h target.path request.headers
  | .put => handlePut h target.path target.hadTrailingSlash request
  | .delete => handleDelete h target.path
  | .patch => handlePatch h target.path request
  | .move => handleMove h target.path request

def handle (request : HttpRequest) : Prog σ Error HttpResponse := do
  match ← attempt (dispatch h request) with
  | .ok response => pure response
  | .error err => pure (responseFromError err)

/-! ## Serving -/

/-- The file system that is served, after the requests of some exchanges. -/
def served (m : σ) (exchanges : List Exchange) : σ := exchanges.foldl (fun m x => (h.handle x.request m).2) m

/-- A client whose requests all go to the handler. A request that is never answered breaks the connection. -/
def transport (m : σ) : HttpTransport := fun exchanges request =>
  match (h.handle request (h.served m exchanges)).1 with
  | .ok response => .ok response
  | .err e => .error e
  | .abort => .error (.kind .unexpectedEof)

end HttpFsHandler
end Star9
