import Star9.Base.Text
import Star9.Fs.FileSystem

/-!
# HTTP messages

Requests and responses of the HTTP file system, and what it reads out of them:
metadata from headers, listings from bodies, and the parts of a multipart body.
A header that puts the modification time past the range of the clock is a panic.
-/
namespace Star9
open Base

abbrev Headers := Std.ExtTreeMap String String

inductive Method where
  | get
  | head
  | put
  | patch
  | delete
  | move
  deriving DecidableEq, Repr

structure HttpRequest where
  method : Method
  url : String
  headers : Headers
  body : Bytes

structure HttpResponse where
  status : UInt16
  headers : Headers
  body : Bytes

structure HttpNode where
  metadata : Metadata
  body : Bytes
  entries : List DirEntry
  deriving DecidableEq

structure HttpValidators where
  etag : Option String
  lastModified : Option String
  deriving DecidableEq

namespace HttpValidators

protected def default : HttpValidators := { etag := none, lastModified := none }

def isEmpty (v : HttpValidators) : Bool := v.etag.isNone && v.lastModified.isNone

end HttpValidators

/-! ## Headers -/

def headerValue (headers : Headers) (name : String) : Option String :=
  (headers.toList.find? fun kv => eqIgnoreAsciiCase kv.1 name).map (·.2)

/-- A header that no other one is spelled like. -/
theorem headerValue_of_unique {headers : Headers} {name value : String} (h : headers[name]? = some value)
    (hunique : ∀ key ∈ headers, eqIgnoreAsciiCase key name = true → key = name) : headerValue headers name = some value := by
  have hmem : (name, value) ∈ headers.toList := Std.ExtTreeMap.mem_toList_iff_getElem?_eq_some.mpr h
  have hfind : headers.toList.find? (fun kv => eqIgnoreAsciiCase kv.1 name) = some (name, value) := by
    obtain ⟨kv, hkv⟩ : ∃ kv, headers.toList.find? (fun kv => eqIgnoreAsciiCase kv.1 name) = some kv := by
      rw [← Option.isSome_iff_exists, List.find?_isSome]
      exact ⟨_, hmem, by simp [eqIgnoreAsciiCase]⟩
    have hget := Std.ExtTreeMap.mem_toList_iff_getElem?_eq_some.mp (List.mem_of_find?_eq_some hkv)
    obtain ⟨hcase, -⟩ := List.find?_eq_some_iff_append.mp hkv
    have hkey : kv.1 = name := hunique _ (Std.ExtTreeMap.mem_iff_isSome_getElem?.mpr (by rw [hget]; rfl)) hcase
    rw [hkv]
    rw [hkey, h] at hget
    exact congrArg some (Prod.ext hkey (Option.some.inj hget).symm)
  rw [headerValue, hfind]
  rfl

def validatorsFromHeaders (headers : Headers) : HttpValidators :=
  { etag := headerValue headers "ETag", lastModified := headerValue headers "Last-Modified" }

def addValidatorHeaders (headers : Headers) (v : HttpValidators) : Headers :=
  let headers := match v.etag with
    | some etag => headers.insert "If-None-Match" etag
    | none => headers
  match v.lastModified with
  | some lastModified => headers.insert "If-Modified-Since" lastModified
  | none => headers

def parseHttpMode (mode : String) : FileMode :=
  match parseUnsigned 32 mode with
  | none => FileMode.fromPerm 0o644
  | some bits =>
    let bits := UInt32.ofNat bits
    let perm := bits &&& 0o777
    if bits &&& 0o170000 = 0o040000 then FileMode.dir ||| FileMode.fromPerm perm
    else if bits &&& 0o170000 = 0o120000 then FileMode.symlink ||| FileMode.fromPerm perm
    else FileMode.fromPerm perm

def formatHttpMode (mode : FileMode) : String := toString mode.unixTypeAndPerm.toNat

def parseHttpContentRangeSize (value : String) : Option Nat :=
  (splitOnce '/' value).bind fun halves => parseUnsigned 64 (trim halves.2)

/-- `UNIX_EPOCH + Duration::from_secs(secs)`; seconds are kept in 64 bits with a sign. -/
def epochPlusSecs (secs : Nat) : Outcome Error SystemTime :=
  if secs < 2 ^ 63 then .ok (secs * 1000000000) else .abort

def parseHttpHeaderMode (headers : Headers) : FileMode :=
  match headerValue headers "Content-Mode" with
  | some mode => parseHttpMode mode
  | none =>
    match (headerValue headers "Content-Type").getD "" with
    | "application/x-directory" => FileMode.dir ||| FileMode.fromPerm 0o755
    | "application/x-symlink" => FileMode.symlink ||| FileMode.fromPerm 0o777
    | _ => FileMode.fromPerm 0o644

def parseHttpSize (headers : Headers) (bodyLen : Nat) : Nat :=
  (((headerValue headers "Content-Length").bind (parseUnsigned 64)).orElse fun _ =>
    (headerValue headers "Content-Range").bind parseHttpContentRangeSize).getD bodyLen

def parseHttpModified (headers : Headers) : Outcome Error SystemTime :=
  match (headerValue headers "Content-Modified").bind (parseUnsigned 64) with
  | some secs => epochPlusSecs secs
  | none => .ok unixEpoch

def parseHttpOwnership (headers : Headers) : UInt32 × UInt32 :=
  match (headerValue headers "Content-Ownership").bind (splitOnce ':') with
  | some (uid, gid) =>
    (UInt32.ofNat ((parseUnsigned 32 uid).getD 0), UInt32.ofNat ((parseUnsigned 32 gid).getD 0))
  | none => (0, 0)

def parseHttpMetadata (name : String) (headers : Headers) (bodyLen : Nat) : Outcome Error Metadata :=
  let mode := parseHttpHeaderMode headers
  let size := parseHttpSize headers bodyLen
  let (uid, gid) := parseHttpOwnership headers
  (parseHttpModified headers).map fun modified =>
    { name := baseName name, mode, size := if mode.isDir then max size 2 else size, modified, uid, gid }

/-! ## Bodies -/

def parseHttpDirectoryLine (line : String) : Option DirEntry :=
  match splitWhitespace line.toList with
  | [] => none
  | name :: rest =>
    let mode := match rest with
      | mode :: _ => parseHttpMode mode
      | [] =>
        if endsWith name "/" then FileMode.dir ||| FileMode.fromPerm 0o755 else FileMode.fromPerm 0o644
    let name := String.ofList (name.toList.rdropWhile (· == '/'))
    let metadata : Metadata :=
      { name, mode, size := if mode.isDir then 2 else 0, modified := unixEpoch, uid := 0, gid := 0 }
    some { name, metadata }

def parseHttpDirectory (body : Bytes) : List DirEntry := (lines (utf8Lossy body)).filterMap parseHttpDirectoryLine

/-- The parameters of a header value, with the names in lower case. -/
def parseHeaderParameters (value : String) : String × Std.ExtTreeMap String String :=
  match value.toList.splitOn ';' with
  | [] => ("", ∅)
  | media :: parts =>
    (toAsciiLowercase (trim (String.ofList media)),
      parts.foldl (fun params part =>
        match splitOnce '=' (trim (String.ofList part)) with
        | some (key, raw) => params.insert (toAsciiLowercase (trim key)) (trimWith (· == '"') (trim raw))
        | none => params) ∅)

def multipartBoundary (headers : Headers) : Option String :=
  (headerValue headers "Content-Type").bind fun contentType =>
    let (media, params) := parseHeaderParameters contentType
    if "multipart/".toList.isPrefixOf media.toList then params["boundary"]? else none

/-- The first place at or after `start` where the needle stands. -/
def findBytes (haystack needle : Bytes) (start : Nat) : Option Nat :=
  if needle = [] ∨ haystack.length < start ∨ haystack.length - start < needle.length then none
  else ((List.range (haystack.length - start - needle.length + 1)).find? fun offset =>
    needle.isPrefixOf (haystack.drop (start + offset))).map (start + ·)

def consumeMultipartNewline (body : Bytes) (cursor : Nat) : Option Nat :=
  if (body.drop cursor).take 2 = [13, 10] then some (cursor + 2)
  else if body[cursor]? = some 10 then some (cursor + 1)
  else none

def parsePartHeaderLine (headers : Headers) (line : String) : Headers :=
  match splitOnce ':' (String.ofList (line.toList.rdropWhile (· == '\r'))) with
  | some (key, value) => headers.insert (trim key) (trim value)
  | none => headers

/-- The end of the headers, and where the body starts. -/
def partHeaderEnd (body : Bytes) (start : Nat) : Option (Nat × Nat) :=
  match findBytes body [13, 10, 13, 10] start, findBytes body [10, 10] start with
  | some crlf, some lf => if crlf ≤ lf then some (crlf, crlf + 4) else some (lf, lf + 2)
  | some crlf, none => some (crlf, crlf + 4)
  | none, some lf => some (lf, lf + 2)
  | none, none => none

def parseHttpPartHeaders (body : Bytes) (start : Nat) : Except Error (Headers × Nat) :=
  match partHeaderEnd body start with
  | some (stop, next) =>
    .ok ((lines (utf8Lossy ((body.take stop).drop start))).foldl parsePartHeaderLine ∅, next)
  | none => .error (.message "multipart part missing header terminator")

/-- Where a part ends and where its closing delimiter stands; `n` bounds the delimiters looked at. -/
def findBodyEndFrom (body delimiter : Bytes) : Nat → Nat → Option (Nat × Nat)
  | 0, _ => none
  | n + 1, search =>
    match findBytes body delimiter search with
    | none => none
    | some found =>
      if 2 ≤ found ∧ (body.drop (found - 2)).take 2 = [13, 10] then some (found - 2, found)
      else if 1 ≤ found ∧ body[found - 1]? = some 10 then some (found - 1, found)
      else findBodyEndFrom body delimiter n (found + 1)

def findMultipartBodyEnd (body delimiter : Bytes) (start : Nat) : Option (Nat × Nat) :=
  if delimiter.isPrefixOf (body.drop start) then some (start, start)
  else findBodyEndFrom body delimiter (body.length + 1) start

structure HttpMultipartPart where
  headers : Headers
  body : Bytes

/-- The parts from a delimiter on. Every part is longer than nothing, so `n` is never used up. -/
def multipartPartsFrom (body delimiter : Bytes) : Nat → Nat → Except Error (List HttpMultipartPart)
  | 0, _ => .ok []
  | n + 1, cursor =>
    if !delimiter.isPrefixOf (body.drop cursor) then .error (.message "multipart body has invalid boundary")
    else
      let cursor := cursor + delimiter.length
      if (body.drop cursor).take 2 = [45, 45] then .ok []
      else
        match consumeMultipartNewline body cursor with
        | none => .error (.message "multipart body missing newline")
        | some cursor => do
          let (headers, start) ← parseHttpPartHeaders body cursor
          match findMultipartBodyEnd body delimiter start with
          | none => .error (.message "multipart part missing closing boundary")
          | some (stop, next) => do
            let rest ← multipartPartsFrom body delimiter n next
            .ok ({ headers, body := (body.take stop).drop start } :: rest)

def parseHttpMultipart (body : Bytes) (boundary : String) : Except Error (List HttpMultipartPart) :=
  let delimiter := utf8Bytes ("--" ++ boundary)
  match findBytes body delimiter 0 with
  | none => .error (.message "multipart body missing boundary")
  | some cursor => multipartPartsFrom body delimiter (body.length + 1) cursor

end Star9
