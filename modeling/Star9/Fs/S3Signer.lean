import Star9.Fs.S3
import Star9.Fs.S3Date

/-!
# Signing requests

The signature of a request is a keyed hash of its canonical form: the method, the path and the
query of the URL encoded once more, the headers in lower case and in order, and the hash of the
body. Parsing the URL and the hashes belong to other crates.
-/
namespace Star9
open Base

structure Uri where
  authority : Option String
  path : String
  query : Option String

/-- What the signer takes from other crates, and the clock. -/
structure SigningCrates where
  parseUri : String → Except String Uri
  sha256 : Bytes → Bytes
  hmacSha256 : Bytes → Bytes → Except String Bytes
  now : SystemTime

structure AwsSigV4Signer where
  accessKeyId : String
  secretAccessKey : String
  region : String
  service : String
  signingTime : Option SystemTime

def Method.asStr : Method → String
  | .get => "GET"
  | .head => "HEAD"
  | .put => "PUT"
  | .patch => "PATCH"
  | .delete => "DELETE"
  | .move => "MOVE"

/-! ## The canonical form -/

def isHexDigit (byte : UInt8) : Bool :=
  (0x30 ≤ byte && byte ≤ 0x39) || (0x41 ≤ byte && byte ≤ 0x46) || (0x61 ≤ byte && byte ≤ 0x66)

def asciiUpper (byte : UInt8) : Char := if 0x61 ≤ byte ∧ byte ≤ 0x7a then Char.ofNat (byte.toNat - 32) else Char.ofNat byte.toNat

def awsEncodeByte (keepSlash : Bool) (byte : UInt8) : List Char :=
  if isUnreserved byte || (keepSlash && byte == 0x2f) then [Char.ofNat byte.toNat] else percentByte byte

/-- An escape that is there already stays, with its digits in upper case. -/
def awsEncodeBytes (keepSlash : Bool) : Bytes → List Char
  | [] => []
  | byte :: high :: low :: rest =>
    if byte = 0x25 ∧ isHexDigit high ∧ isHexDigit low then
      '%' :: asciiUpper high :: asciiUpper low :: awsEncodeBytes keepSlash rest
    else awsEncodeByte keepSlash byte ++ awsEncodeBytes keepSlash (high :: low :: rest)
  | byte :: rest => awsEncodeByte keepSlash byte ++ awsEncodeBytes keepSlash rest

def awsEncode (keepSlash : Bool) (text : String) : String := String.ofList (awsEncodeBytes keepSlash (utf8Bytes text))

def canonicalUri (path : String) : String := awsEncode true (if path = "" then "/" else path)

/-- The order of pairs of strings. -/
def pairLe (a b : String × String) : Bool := a.1 < b.1 || (a.1 == b.1 && a.2 ≤ b.2)

def queryPair (part : String) : String × String := (splitOnce '=' part).getD (part, "")

def joinPairs (params : List (String × String)) : String := "&".intercalate (params.map fun param => param.1 ++ "=" ++ param.2)

def canonicalQuery (query : String) : String :=
  if query = "" then ""
  else
    let parts := (query.toList.splitOn '&').map String.ofList
    let params := parts.map fun part => (awsEncode false (queryPair part).1, awsEncode false (queryPair part).2)
    joinPairs (params.mergeSort pairLe)

def normalizeHeaderValue (value : String) : String := " ".intercalate (splitWhitespace value.toList)

/-- The values of each name in lower case, in the order of the headers. -/
def canonicalEntries (headers : Headers) : Std.ExtTreeMap String (List String) :=
  headers.toList.foldl (fun canonical header =>
    let name := toAsciiLowercase header.1
    canonical.insert name (canonical.getD name [] ++ [normalizeHeaderValue header.2])) ∅

def canonicalHeaderLine (entry : String × List String) : String := entry.1 ++ ":" ++ ",".intercalate entry.2

/-- The block of the header lines, and the names signed. -/
def canonicalHeaders (headers : Headers) : String × String :=
  let entries := (canonicalEntries headers).toList
  ("\n".intercalate (entries.map canonicalHeaderLine) ++ "\n", ";".intercalate (entries.map (·.1)))

def removeHeaderCaseInsensitive (headers : Headers) (name : String) : Headers :=
  (headers.keys.filter fun key => eqIgnoreAsciiCase key name).foldl (fun headers key => headers.erase key) headers

def setHeaderCaseInsensitive (headers : Headers) (name value : String) : Headers :=
  (removeHeaderCaseInsensitive headers name).insert name value

/-! ## The signature -/

def hexLower (n : Nat) : Char := if n < 10 then Char.ofNat (n + 48) else Char.ofNat (n + 87)

def hexEncode (bytes : Bytes) : String := String.ofList (bytes.flatMap fun b => [hexLower (b.toNat / 16), hexLower (b.toNat % 16)])

namespace AwsSigV4Signer
variable (crates : SigningCrates) (signer : AwsSigV4Signer)

def hexSha256 (bytes : Bytes) : String := hexEncode (crates.sha256 bytes)

def hmacSign (key data : Bytes) : Except Error Bytes :=
  (crates.hmacSha256 key data).mapError fun err => .message ("invalid S3 signing key: " ++ err)

def signingKey (shortDate : String) : Except Error Bytes := do
  let dateKey ← hmacSign crates (utf8Bytes ("AWS4" ++ signer.secretAccessKey)) (utf8Bytes shortDate)
  let regionKey ← hmacSign crates dateKey (utf8Bytes signer.region)
  let serviceKey ← hmacSign crates regionKey (utf8Bytes signer.service)
  hmacSign crates serviceKey (utf8Bytes "aws4_request")

def canonicalRequest (method uri query headers signedHeaders payloadHash : String) : String :=
  method ++ "\n" ++ uri ++ "\n" ++ query ++ "\n" ++ headers ++ "\n" ++ signedHeaders ++ "\n" ++ payloadHash

/-- The value of the authorization header for a canonical request. -/
def authorization (amzDate shortDate signedHeaders canonical : String) : Except Error String := do
  let scope := shortDate ++ "/" ++ signer.region ++ "/" ++ signer.service ++ "/aws4_request"
  let stringToSign := "AWS4-HMAC-SHA256\n" ++ amzDate ++ "\n" ++ scope ++ "\n" ++ hexSha256 crates (utf8Bytes canonical)
  let key ← signer.signingKey crates shortDate
  let signature ← hmacSign crates key (utf8Bytes stringToSign)
  pure ("AWS4-HMAC-SHA256 Credential=" ++ signer.accessKeyId ++ "/" ++ scope ++ ",SignedHeaders=" ++ signedHeaders ++ ",Signature=" ++
    hexEncode signature)

/-- The headers before the signature is added. -/
def datedHeaders (headers : Headers) (host amzDate payloadHash : String) : Headers :=
  removeHeaderCaseInsensitive
    (setHeaderCaseInsensitive
      (setHeaderCaseInsensitive (setHeaderCaseInsensitive headers "host" host) "x-amz-date" amzDate)
      "x-amz-content-sha256" payloadHash)
    "authorization"

def sign (request : HttpRequest) : Except Error HttpRequest := do
  let uri ← (crates.parseUri request.url).mapError fun err => .message ("invalid S3 signing URL: " ++ err)
  match uri.authority with
  | none => throw (.message "S3 signing URL missing authority")
  | some host => do
    let payloadHash := hexSha256 crates request.body
    let (amzDate, shortDate) ← formatAmzDate (signer.signingTime.getD crates.now)
    let headers := datedHeaders request.headers host amzDate payloadHash
    let (block, signedHeaders) := canonicalHeaders headers
    let canonical := canonicalRequest request.method.asStr (canonicalUri uri.path) (canonicalQuery (uri.query.getD "")) block signedHeaders
      payloadHash
    let authorization ← signer.authorization crates amzDate shortDate signedHeaders canonical
    pure { request with headers := headers.insert "Authorization" authorization }

end AwsSigV4Signer
end Star9
