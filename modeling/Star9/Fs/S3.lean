import Star9.Base.Delimited
import Star9.Fs.R2

/-!
# The S3 object store

The object store that speaks to an S3 service over HTTP: how keys become URLs, and what it reads
out of the replies. The transport and the signer answer for a request alone; what one of them is
asked for does not change what it answers later.
-/
namespace Star9
open Base

abbrev HttpRequestSigner := HttpRequest → Except Error HttpRequest

abbrev S3Transport := HttpRequest → Except Error HttpResponse

structure S3ObjectStore where
  baseUrl : String
  bucket : String
  pre : Option String
  transport : S3Transport
  signer : HttpRequestSigner

/-! ## URLs -/

def trimSlashesEnd (s : String) : String := String.ofList (s.toList.rdropWhile (· == '/'))

def normalizePrefix (pre : Option String) : Option String :=
  pre.bind fun pre =>
    let trimmed := trimWith (· == '/') pre
    if trimmed = "" then none else some ("/" ++ trimmed)

def joinUrlPath (base segment : String) : String :=
  if base = "" then segment else trimSlashesEnd base ++ "/" ++ trimStartSlash segment

def isUnreserved (byte : UInt8) : Bool :=
  (0x41 ≤ byte && byte ≤ 0x5a) || (0x61 ≤ byte && byte ≤ 0x7a) || (0x30 ≤ byte && byte ≤ 0x39) ||
    byte == 0x2d || byte == 0x5f || byte == 0x2e || byte == 0x7e

def percentEncodeByte (byte : UInt8) : List Char :=
  if isUnreserved byte then [Char.ofNat byte.toNat] else percentByte byte

def percentEncode (value : String) : String := String.ofList ((utf8Bytes value).flatMap percentEncodeByte)

/-! ## Replies -/

def malformedListing : Error := .message "s3 object store returned malformed ListObjectsV2 XML"

def listingWithoutKey : Error := .message "s3 object store returned ListObjectsV2 XML without a Contents Key"

def unsupportedEntity (entity : List Char) : Error :=
  .message ("s3 object store returned unsupported XML entity &" ++ String.ofList entity ++ ";")

/-- The text in the first element with this tag, and the text after it. -/
def extractTagBody (tag xml : List Char) : Option (List Char × List Char) := do
  let (_, opened) ← splitAtText ('<' :: tag) xml
  let (_, content) ← splitAtText ['>'] (opened.drop (tag.length + 1))
  let close := '<' :: '/' :: (tag ++ ['>'])
  let (body, rest) ← splitAtText close (content.drop 1)
  pure (body, rest.drop close.length)

def entityChar (entity : List Char) : Option Char :=
  if entity = "amp".toList then some '&'
  else if entity = "lt".toList then some '<'
  else if entity = "gt".toList then some '>'
  else if entity = "apos".toList then some '\''
  else if entity = "quot".toList then some '"'
  else none

/-- An entity ends at the next semicolon, or with the text. -/
def xmlUnescapeFrom : Nat → List Char → Except Error (List Char)
  | 0, _ => .ok []
  | _, [] => .ok []
  | rounds + 1, ch :: chars =>
    if ch ≠ '&' then (xmlUnescapeFrom rounds chars).map (ch :: ·)
    else
      let entity := chars.takeWhile (· ≠ ';')
      match entityChar entity with
      | some c => (xmlUnescapeFrom rounds ((chars.dropWhile (· ≠ ';')).drop 1)).map (c :: ·)
      | none => .error (unsupportedEntity entity)

/-- Every round takes a character. -/
def xmlUnescape (value : List Char) : Except Error String :=
  (xmlUnescapeFrom value.length value).map String.ofList

/-- Every round takes at least the tag it found. -/
def parseKeysFrom : Nat → List Char → Except Error (List String)
  | 0, _ => .ok []
  | rounds + 1, remaining =>
    match splitAtText "<Contents".toList remaining with
    | none => .ok []
    | some (_, contents) =>
      match extractTagBody "Contents".toList contents with
      | none => .error malformedListing
      | some (block, rest) =>
        match extractTagBody "Key".toList block with
        | none => .error listingWithoutKey
        | some (key, _) => do
          let key ← xmlUnescape key
          let keys ← parseKeysFrom rounds rest
          pure (key :: keys)

def parseListObjectsV2Keys (body : Bytes) : Except Error (List String) :=
  let xml := (utf8Lossy body).toList
  parseKeysFrom (xml.length + 1) xml

/-! ## The store -/

def isSuccess (status : UInt16) : Bool := 200 ≤ status && status ≤ 299

def unexpectedS3Status (operation target : String) (status : UInt16) : Error :=
  .message ("s3 object store " ++ operation ++ " " ++ target ++ " returned HTTP " ++ toString status.toNat)

namespace S3ObjectStore

def withSigner (baseUrl bucket : String) (pre : Option String) (transport : S3Transport) (signer : HttpRequestSigner) : S3ObjectStore where
  baseUrl := trimSlashesEnd baseUrl
  bucket := trimWith (· == '/') bucket
  pre := normalizePrefix pre
  transport
  signer

variable (store : S3ObjectStore)

def bucketUrl : String := joinUrlPath store.baseUrl (percentEncode store.bucket)

def objectKey (key : String) : String :=
  match store.pre with
  | some pre =>
    if key = "" ∨ key = "/" then pre
    else if startsWithSlash key then pre ++ key
    else pre ++ "/" ++ key
  | none => if key = "" then "/" else key

def externalKey (objectKey : String) : Option String :=
  store.pre.bind fun pre =>
    if objectKey = pre then some "/"
    else
      (stripPrefix pre objectKey).map fun suffix =>
        if suffix = "" then "/"
        else if startsWithSlash suffix then suffix
        else "/" ++ suffix

def request (method : Method) (url : String) (headers : Headers) (body : Bytes) : Except Error HttpResponse := do
  let request ← store.signer { method, url, headers, body }
  store.transport request

/-- The URL of an object by its key in the bucket. -/
def objectUrl (objectKey : String) : String := joinUrlPath store.bucketUrl (percentEncode objectKey)

def listUrl (pre : String) : String := store.bucketUrl ++ "?list-type=2&prefix=" ++ percentEncode (store.objectKey pre)

def requestObject (method : Method) (key : String) (headers : Headers) (body : Bytes) : Except Error HttpResponse :=
  store.request method (store.objectUrl (store.objectKey key)) headers body

def requestEffectiveObject (method : Method) (objectKey : String) (headers : Headers) (body : Bytes) : Except Error HttpResponse :=
  store.request method (store.objectUrl objectKey) headers body

def requestList (pre : String) : Except Error HttpResponse := store.request .get (store.listUrl pre) ∅ []

def get (key : String) : Except Error (Option Object) := do
  let response ← store.requestObject .get key ∅ []
  if isSuccess response.status then pure (some ⟨response.headers, response.body⟩)
  else if response.status = 404 then pure none
  else throw (unexpectedS3Status "get" key response.status)

/-- The objects of the listed keys, under the keys that callers use. -/
def fetchListed : List String → Except Error (List (String × Object))
  | [] => pure []
  | objectKey :: rest => do
    let externalKey := (store.externalKey objectKey).getD objectKey
    let response ← store.requestEffectiveObject .get objectKey ∅ []
    if isSuccess response.status then do
      let objects ← fetchListed rest
      pure ((externalKey, ⟨response.headers, response.body⟩) :: objects)
    else throw (unexpectedS3Status "list-prefix-fetch" externalKey response.status)

def listPrefix (pre : String) : Except Error (List (String × Object)) := do
  let response ← store.requestList pre
  if !isSuccess response.status then throw (unexpectedS3Status "list-prefix" pre response.status)
  else do
    let keys ← parseListObjectsV2Keys response.body
    store.fetchListed keys

end S3ObjectStore
end Star9
