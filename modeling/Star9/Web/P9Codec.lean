import Star9.Core.Path
import Star9.Protocol.Message
import Star9.Web.P9Frame

/-!
# The codec of the browser mount

The mount of the browser has a writer and a reader of its own. Numbers are those of
JavaScript: bitwise operators cut to 32 signed bits, a word of 64 bits ends as a double,
and the text decoder drops a byte order mark at the front.
-/
namespace Star9
namespace P9Mount
open Base P9Port

/-! ## Numbers and texts of JavaScript -/

/-- `(value >> shift) & 0xff`. -/
def byteAt (value shift : Nat) : UInt8 := UInt8.ofBitVec (((BitVec.ofNat 32 value).sshiftRight shift).setWidth 8)

/-- `byte << shift`. -/
def shiftByte (byte : UInt8) (shift : Nat) : BitVec 32 := BitVec.ofNat 32 byte.toNat <<< shift

/-- A whole number as a double: from 53 bits on to the nearest, and a tie to even. -/
def number (v : Nat) : Nat :=
  if v < 2 ^ 53 then v
  else
    let unit := 2 ^ (v.log2 - 52)
    let low := v / unit
    if 2 * (v % unit) < unit ∨ (2 * (v % unit) = unit ∧ low % 2 = 0) then low * unit else (low + 1) * unit

def byteOrderMark : Char := '\uFEFF'

def dropByteOrderMark (s : String) : String :=
  if s.toList.head? = some byteOrderMark then String.ofList s.toList.tail else s

def textDecode (bytes : Bytes) : String := dropByteOrderMark (utf8Lossy bytes)

/-! ## Paths -/

/-- The errors quote the path. -/
inductive PathFault where
  | invalid (path : String)
  | traversal (path : String)
  deriving DecidableEq, Repr

def keepParts (path : String) : List String → Except PathFault (List String)
  | [] => .ok []
  | part :: parts =>
    if part = "" ∨ part = "." then keepParts path parts
    else if part = ".." then .error (.traversal path)
    else do
      let kept ← keepParts path parts
      .ok (part :: kept)

def normalizeP9Path (path : String) : Except PathFault String :=
  if path = "" ∨ path = "." then .ok "."
  else if startsWithSlash path = true ∨ '\\' ∈ path.toList then .error (.invalid path)
  else do
    let parts ← keepParts path (splitSlash path)
    .ok (if parts = [] then "." else joinSlash parts)

def baseName (path : String) : Except PathFault String := do
  let cleanPath ← normalizeP9Path path
  .ok (if cleanPath = "." then "." else ((rsplitOnceSlash cleanPath).map Prod.snd).getD cleanPath)

def parentPath (path : String) : Except PathFault String := do
  let cleanPath ← normalizeP9Path path
  .ok (if cleanPath = "." then "." else ((rsplitOnceSlash cleanPath).map Prod.fst).getD ".")

/-! ## Requests -/

namespace P9Writer

def u16 (value : Nat) : Bytes := [byteAt value 0, byteAt value 8]

def u32 (value : Nat) : Bytes := [byteAt value 0, byteAt value 8, byteAt value 16, byteAt value 24]

def u64 (value : Nat) : Bytes := (List.range 8).map fun index => UInt8.ofNat ((value >>> (index * 8)) &&& 0xff)

def string (value : String) : Except String Bytes :=
  let bytes := utf8Bytes value
  if 0xffff < bytes.length then .error "9P string is too long" else .ok (u16 bytes.length ++ bytes)

def strings : List String → Except String Bytes
  | [] => .ok []
  | name :: names => do
    let first ← string name
    let rest ← strings names
    .ok (first ++ rest)

def countedData (value : Bytes) : Bytes := u32 value.length ++ value

end P9Writer

/-- What the mount hands to its writer. -/
inductive P9Call where
  | version (msize : Nat) (version : String)
  | attach (fid afid : Nat) (uname aname : String) (nUname : Nat)
  | walk (fid newfid : Nat) (names : List String)
  | lopen (fid flags : Nat)
  | lcreate (fid : Nat) (name : String) (flags mode gid : Nat)
  | getAttr (fid requestMask : Nat)
  | read (fid offset count : Nat)
  | write (fid offset : Nat) (data : Bytes)
  | readdir (fid offset count : Nat)
  | mkdir (fid : Nat) (name : String) (mode gid : Nat)
  | unlinkAt (dirfid : Nat) (name : String) (flags : Nat)
  | clunk (fid : Nat)
  deriving DecidableEq, Repr

open P9Writer in
def buildBody : P9Call → Except String (Nat × Bytes)
  | .version msize version => do
    let version ← string version
    .ok (100, u32 msize ++ version)
  | .attach fid afid uname aname nUname => do
    let uname ← string uname
    let aname ← string aname
    .ok (104, u32 fid ++ u32 afid ++ uname ++ aname ++ u32 nUname)
  | .walk fid newfid names => do
    let written ← strings names
    .ok (110, u32 fid ++ u32 newfid ++ u16 names.length ++ written)
  | .lopen fid flags => .ok (12, u32 fid ++ u32 flags)
  | .lcreate fid name flags mode gid => do
    let name ← string name
    .ok (14, u32 fid ++ name ++ u32 flags ++ u32 mode ++ u32 gid)
  | .getAttr fid requestMask => .ok (24, u32 fid ++ u64 requestMask)
  | .read fid offset count => .ok (116, u32 fid ++ u64 offset ++ u32 count)
  | .write fid offset data => .ok (118, u32 fid ++ u64 offset ++ countedData data)
  | .readdir fid offset count => .ok (40, u32 fid ++ u64 offset ++ u32 count)
  | .mkdir fid name mode gid => do
    let name ← string name
    .ok (72, u32 fid ++ name ++ u32 mode ++ u32 gid)
  | .unlinkAt dirfid name flags => do
    let name ← string name
    .ok (76, u32 dirfid ++ name ++ u32 flags)
  | .clunk fid => .ok (120, u32 fid)

def buildFrame (tag : Nat) (call : P9Call) : Except String Bytes := do
  let (type, body) ← buildBody call
  .ok (encodeP9Frame type tag body)

/-- The fid of the walk after `n` others. -/
def allocFid (n : Nat) : Nat := 2 + n

/-- The tag of the call after `n` others. -/
def allocTag : Nat → Nat
  | 0 => 1
  | n + 1 => if allocTag n = 0xfffe then 1 else allocTag n + 1

def pathNames (path : String) : List String := if path = "." then [] else splitSlash path

def chunkSize (msize header : Nat) : Nat := max 1 (min (32 * 1024) (msize - header))

/-- The path has names that the wire can carry. -/
def PathFits (path : String) : Prop :=
  (splitSlash path).length ≤ 65535 ∧ ∀ part ∈ splitSlash path, (utf8Bytes part).length < 65536

/-- The calls of a mount, from `connect` to `_clunk`: `n` walks have allocated the fid, and offsets are whole numbers
that a double holds. -/
inductive Sends (msize : Nat) : P9Call → Prop
  | version : Sends msize (.version (64 * 1024) "9P2000.L")
  | attach : Sends msize (.attach 1 0xffffffff "star9" "" 0)
  | walk {path cleanPath : String} (n : Nat) (hfits : PathFits path) (hclean : normalizeP9Path path = .ok cleanPath) :
      Sends msize (.walk 1 (allocFid n) (pathNames cleanPath))
  | walkParent {path cleanPath parent : String} (n : Nat) (hfits : PathFits path) (hclean : normalizeP9Path path = .ok cleanPath)
      (hparent : parentPath cleanPath = .ok parent) : Sends msize (.walk 1 (allocFid n) (pathNames parent))
  | lopen (n : Nat) : Sends msize (.lopen (allocFid n) 0)
  | lcreate {path cleanPath name : String} (n : Nat) (hfits : PathFits path) (hclean : normalizeP9Path path = .ok cleanPath)
      (hname : baseName cleanPath = .ok name) : Sends msize (.lcreate (allocFid n) name (2 ||| 0o1000) 0o644 0)
  | getAttr (n : Nat) : Sends msize (.getAttr (allocFid n) 0x67f)
  | read (n : Nat) {offset : Nat} (hoffset : offset < 2 ^ 53) : Sends msize (.read (allocFid n) offset (chunkSize msize 11))
  | write (n : Nat) {offset : Nat} {chunk : Bytes} (hoffset : offset < 2 ^ 53) (hchunk : chunk.length ≤ chunkSize msize 23) :
      Sends msize (.write (allocFid n) offset chunk)
  | readdir (n : Nat) {offset : Nat} (hoffset : offset < 2 ^ 53) :
      Sends msize (.readdir (allocFid n) offset (chunkSize msize 11))
  | mkdir {path cleanPath name : String} (n : Nat) (hfits : PathFits path) (hclean : normalizeP9Path path = .ok cleanPath)
      (hname : baseName cleanPath = .ok name) : Sends msize (.mkdir (allocFid n) name 0o755 0)
  | unlinkAt {path cleanPath name : String} (n : Nat) (hfits : PathFits path) (hclean : normalizeP9Path path = .ok cleanPath)
      (hname : baseName cleanPath = .ok name) (isDir : Bool) :
      Sends msize (.unlinkAt (allocFid n) name (if isDir then 0x200 else 0))
  | clunk (n : Nat) : Sends msize (.clunk (allocFid n))

/-! ## Responses -/

structure P9Qid where
  type : Nat
  version : Nat
  path : Nat
  deriving DecidableEq, Repr

structure P9Attr where
  valid : Nat
  qid : P9Qid
  mode : Nat
  uid : Nat
  gid : Nat
  nlink : Nat
  rdev : Nat
  size : Nat
  blksize : Nat
  blocks : Nat
  atimeSeconds : Nat
  atimeNanoseconds : Nat
  mtimeSeconds : Nat
  mtimeNanoseconds : Nat
  ctimeSeconds : Nat
  ctimeNanoseconds : Nat
  btimeSeconds : Nat
  btimeNanoseconds : Nat
  gen : Nat
  dataVersion : Nat
  deriving DecidableEq, Repr

structure P9Dirent where
  qid : P9Qid
  offset : Nat
  type : Nat
  name : String
  deriving DecidableEq, Repr

inductive P9Response where
  | lerror (ecode : Nat)
  | version (msize : Nat) (version : String)
  | attach (qid : P9Qid)
  | walk (qids : List P9Qid)
  | lopen (qid : P9Qid) (iounit : Nat)
  | lcreate (qid : P9Qid) (iounit : Nat)
  | getAttr (attr : P9Attr)
  | read (data : Bytes)
  | write (count : Nat)
  | readdir (data : Bytes)
  | mkdir (qid : P9Qid)
  | unlinkAt
  | clunk
  deriving DecidableEq, Repr

namespace P9Reader

def bytes (length : Nat) : Reader String Bytes := readBytes "truncated 9P message body" length

def finish : Reader String Unit := fun rest => if rest = [] then .ok ((), rest) else .error "trailing bytes in 9P message body"

def u8 : Reader String Nat := do
  let b ← bytes 1
  pure (b.getD 0 0).toNat

def u16 : Reader String Nat := do
  let b ← bytes 2
  pure (shiftByte (b.getD 0 0) 0 ||| shiftByte (b.getD 1 0) 8).toNat

/-- `>>> 0` reads the 32 bits as unsigned. -/
def u32 : Reader String Nat := do
  let b ← bytes 4
  pure (shiftByte (b.getD 0 0) 0 ||| shiftByte (b.getD 1 0) 8 ||| shiftByte (b.getD 2 0) 16 ||| shiftByte (b.getD 3 0) 24).toNat

def u64 : Reader String Nat := do
  let b ← bytes 8
  pure (number ((List.range 8).foldl (fun value index => value ||| ((b.getD index 0).toNat <<< (index * 8))) 0))

def string : Reader String String := do
  let length ← u16
  let b ← bytes length
  pure (textDecode b)

def countedData : Reader String Bytes := do
  let length ← u32
  let value ← bytes length
  finish
  pure value

def qid : Reader String P9Qid := do
  let type ← u8
  let version ← u32
  let path ← u64
  pure { type, version, path }

def attr : Reader String P9Attr := do
  let valid ← u64
  let qid ← qid
  let mode ← u32
  let uid ← u32
  let gid ← u32
  let nlink ← u64
  let rdev ← u64
  let size ← u64
  let blksize ← u64
  let blocks ← u64
  let atimeSeconds ← u64
  let atimeNanoseconds ← u64
  let mtimeSeconds ← u64
  let mtimeNanoseconds ← u64
  let ctimeSeconds ← u64
  let ctimeNanoseconds ← u64
  let btimeSeconds ← u64
  let btimeNanoseconds ← u64
  let gen ← u64
  let dataVersion ← u64
  finish
  pure { valid, qid, mode, uid, gid, nlink, rdev, size, blksize, blocks, atimeSeconds, atimeNanoseconds, mtimeSeconds,
         mtimeNanoseconds, ctimeSeconds, ctimeNanoseconds, btimeSeconds, btimeNanoseconds, gen, dataVersion }

def dirent : Reader String P9Dirent := do
  let qid ← qid
  let offset ← u64
  let type ← u8
  let name ← string
  pure { qid, offset, type, name }

end P9Reader

open P9Reader in
/-- The mount checks the type of an attach, open, create or mkdir response and does not look into its body. -/
def readBody (type : Nat) : Reader String P9Response :=
  match type with
  | 7 => do return .lerror (← u32)
  | 101 => do
    let msize ← u32
    let version ← string
    finish
    return .version msize version
  | 105 => do return .attach (← qid)
  | 111 => do
    let qidCount ← u16
    let qids ← readMany qid qidCount
    finish
    return .walk qids
  | 13 => do return .lopen (← qid) (← u32)
  | 15 => do return .lcreate (← qid) (← u32)
  | 25 => do return .getAttr (← attr)
  | 117 => do return .read (← countedData)
  | 119 => do return .write (← u32)
  | 41 => do return .readdir (← countedData)
  | 73 => do return .mkdir (← qid)
  | 77 => return .unlinkAt
  | 121 => return .clunk
  | _ => throw "unexpected 9P message type"

def decodeP9Frame (frame : Bytes) : Except String (Nat × Nat × Bytes) := do
  let bytes ← cloneFrameBytes (some frame) "9P response frame"
  .ok (frameType bytes, frameTag bytes, bytes.drop 7)

def readResponse (frame : Bytes) : Except String (Nat × P9Response) := do
  let (type, tag, body) ← decodeP9Frame frame
  let (response, _) ← readBody type body
  .ok (tag, response)

/-- Every entry takes bytes, so as many rounds as there are bytes are enough. -/
def decodeDirents (data : Bytes) : Except String (List P9Dirent) :=
  go data.length data
where
  go : Nat → Bytes → Except String (List P9Dirent)
  | _, [] => .ok []
  | 0, _ :: _ => .error "truncated 9P message body"
  | n + 1, d => do
    let (entry, rest) ← P9Reader.dirent d
    let entries ← go n rest
    .ok (entry :: entries)

end P9Mount
end Star9
