import Star9.Base.Bytes
import Star9.Core.Basic

/-!
# 9P2000.L messages and their wire format

The requests and responses of the protocol crate, with the byte writers and the
frame decoder of the source. A writer appends to the message body; the decoder
is kept as the bytes not read yet.
-/
namespace Star9
open Base

def version9P : String := "9P2000.L"
def defaultMsize : UInt32 := 65536
def nofid : UInt32 := 0xffffffff
def notag : UInt16 := 0xffff
def maxStreamFrameSize : Nat := defaultMsize.toNat

namespace Msg

@[match_pattern] abbrev rlerror : UInt8 := 7
@[match_pattern] abbrev tlopen : UInt8 := 12
@[match_pattern] abbrev rlopen : UInt8 := 13
@[match_pattern] abbrev tlcreate : UInt8 := 14
@[match_pattern] abbrev rlcreate : UInt8 := 15
@[match_pattern] abbrev tsymlink : UInt8 := 16
@[match_pattern] abbrev rsymlink : UInt8 := 17
@[match_pattern] abbrev treadlink : UInt8 := 22
@[match_pattern] abbrev rreadlink : UInt8 := 23
@[match_pattern] abbrev tgetattr : UInt8 := 24
@[match_pattern] abbrev rgetattr : UInt8 := 25
@[match_pattern] abbrev tsetattr : UInt8 := 26
@[match_pattern] abbrev rsetattr : UInt8 := 27
@[match_pattern] abbrev txattrwalk : UInt8 := 30
@[match_pattern] abbrev rxattrwalk : UInt8 := 31
@[match_pattern] abbrev txattrcreate : UInt8 := 32
@[match_pattern] abbrev rxattrcreate : UInt8 := 33
@[match_pattern] abbrev treaddir : UInt8 := 40
@[match_pattern] abbrev rreaddir : UInt8 := 41
@[match_pattern] abbrev tfsync : UInt8 := 50
@[match_pattern] abbrev rfsync : UInt8 := 51
@[match_pattern] abbrev tlink : UInt8 := 70
@[match_pattern] abbrev rlink : UInt8 := 71
@[match_pattern] abbrev tmkdir : UInt8 := 72
@[match_pattern] abbrev rmkdir : UInt8 := 73
@[match_pattern] abbrev trenameat : UInt8 := 74
@[match_pattern] abbrev rrenameat : UInt8 := 75
@[match_pattern] abbrev tunlinkat : UInt8 := 76
@[match_pattern] abbrev runlinkat : UInt8 := 77
@[match_pattern] abbrev tversion : UInt8 := 100
@[match_pattern] abbrev rversion : UInt8 := 101
@[match_pattern] abbrev tattach : UInt8 := 104
@[match_pattern] abbrev rattach : UInt8 := 105
@[match_pattern] abbrev tflush : UInt8 := 108
@[match_pattern] abbrev rflush : UInt8 := 109
@[match_pattern] abbrev twalk : UInt8 := 110
@[match_pattern] abbrev rwalk : UInt8 := 111
@[match_pattern] abbrev tread : UInt8 := 116
@[match_pattern] abbrev rread : UInt8 := 117
@[match_pattern] abbrev twrite : UInt8 := 118
@[match_pattern] abbrev rwrite : UInt8 := 119
@[match_pattern] abbrev tclunk : UInt8 := 120
@[match_pattern] abbrev rclunk : UInt8 := 121
@[match_pattern] abbrev tremove : UInt8 := 122
@[match_pattern] abbrev rremove : UInt8 := 123

end Msg

structure Qid where
  typ : UInt8
  version : UInt32
  path : UInt64
  deriving DecidableEq, Repr

structure NinePAttr where
  valid : UInt64
  qid : Qid
  mode : UInt32
  uid : UInt32
  gid : UInt32
  nlink : UInt64
  rdev : UInt64
  size : UInt64
  blksize : UInt64
  blocks : UInt64
  atimeSeconds : UInt64
  atimeNanoseconds : UInt64
  mtimeSeconds : UInt64
  mtimeNanoseconds : UInt64
  ctimeSeconds : UInt64
  ctimeNanoseconds : UInt64
  btimeSeconds : UInt64
  btimeNanoseconds : UInt64
  gen : UInt64
  dataVersion : UInt64
  deriving DecidableEq, Repr

structure SetAttr where
  valid : UInt32 := 0
  mode : UInt32 := 0
  uid : UInt32 := 0
  gid : UInt32 := 0
  size : UInt64 := 0
  atimeSeconds : UInt64 := 0
  atimeNanoseconds : UInt64 := 0
  mtimeSeconds : UInt64 := 0
  mtimeNanoseconds : UInt64 := 0
  deriving DecidableEq, Repr

structure NinePDirent where
  qid : Qid
  offset : UInt64
  typ : UInt8
  name : String
  deriving DecidableEq, Repr

inductive NinePRequest where
  | version (msize : UInt32) (version : String)
  | attach (fid afid : UInt32) (uname aname : String) (nUname : UInt32)
  | walk (fid newfid : UInt32) (names : List String)
  | lopen (fid flags : UInt32)
  | lcreate (fid : UInt32) (name : String) (flags mode gid : UInt32)
  | getAttr (fid : UInt32) (requestMask : UInt64)
  | setAttr (fid : UInt32) (attr : SetAttr)
  | xattrWalk (fid newfid : UInt32) (name : String)
  | xattrCreate (fid : UInt32) (name : String) (size : UInt64) (flags : UInt32)
  | read (fid : UInt32) (offset : UInt64) (count : UInt32)
  | write (fid : UInt32) (offset : UInt64) (data : Bytes)
  | clunk (fid : UInt32)
  | remove (fid : UInt32)
  | mkdir (fid : UInt32) (name : String) (mode gid : UInt32)
  | link (fid newdirfid : UInt32) (name : String)
  | readdir (fid : UInt32) (offset : UInt64) (count : UInt32)
  | renameAt (olddirfid : UInt32) (oldname : String) (newdirfid : UInt32) (newname : String)
  | unlinkAt (dirfid : UInt32) (name : String) (flags : UInt32)
  | symlink (fid : UInt32) (name target : String) (gid : UInt32)
  | readlink (fid : UInt32)
  | fsync (fid : UInt32)
  | flush (oldtag : UInt16)
  deriving DecidableEq, Repr

inductive NinePResponse where
  | lerror (ecode : UInt32)
  | version (msize : UInt32) (version : String)
  | attach (qid : Qid)
  | walk (qids : List Qid)
  | lopen (qid : Qid) (iounit : UInt32)
  | lcreate (qid : Qid) (iounit : UInt32)
  | getAttr (attr : NinePAttr)
  | setAttr
  | xattrWalk (size : UInt64)
  | xattrCreate
  | read (data : Bytes)
  | write (count : UInt32)
  | clunk
  | remove
  | mkdir (qid : Qid)
  | link
  | readdir (data : Bytes)
  | renameAt
  | unlinkAt
  | symlink (qid : Qid)
  | readlink (target : String)
  | fsync
  | flush
  deriving DecidableEq, Repr

/-! ## Writers -/

def putU8 (v : UInt8) : Bytes := [v]

def putU16 (v : UInt16) : Bytes := leBytes 2 v.toNat

def putU32 (v : UInt32) : Bytes := leBytes 4 v.toNat

def putU64 (v : UInt64) : Bytes := leBytes 8 v.toNat

def putString (value : String) : Except Error Bytes :=
  let bytes := utf8Bytes value
  if bytes.length < 2 ^ 16 then .ok (putU16 (UInt16.ofNat bytes.length) ++ bytes)
  else .error (.kind .invalid)

def putStrings : List String → Except Error Bytes
  | [] => .ok []
  | name :: names => do
    let b ← putString name
    let bs ← putStrings names
    .ok (b ++ bs)

def putCountedData (data : Bytes) : Except Error Bytes :=
  if data.length < 2 ^ 32 then .ok (putU32 (UInt32.ofNat data.length) ++ data)
  else .error (.kind .invalid)

/-- A list length as the two-byte count that precedes the list. -/
def putCount (n : Nat) : Except Error Bytes :=
  if n < 2 ^ 16 then .ok (putU16 (UInt16.ofNat n)) else .error (.kind .invalid)

def encodeQid (qid : Qid) : Bytes := putU8 qid.typ ++ putU32 qid.version ++ putU64 qid.path

def encodeAttr (attr : NinePAttr) : Bytes :=
  putU64 attr.valid ++ encodeQid attr.qid ++ putU32 attr.mode ++ putU32 attr.uid ++
  putU32 attr.gid ++ putU64 attr.nlink ++ putU64 attr.rdev ++ putU64 attr.size ++
  putU64 attr.blksize ++ putU64 attr.blocks ++
  putU64 attr.atimeSeconds ++ putU64 attr.atimeNanoseconds ++
  putU64 attr.mtimeSeconds ++ putU64 attr.mtimeNanoseconds ++
  putU64 attr.ctimeSeconds ++ putU64 attr.ctimeNanoseconds ++
  putU64 attr.btimeSeconds ++ putU64 attr.btimeNanoseconds ++
  putU64 attr.gen ++ putU64 attr.dataVersion

def encodeSetattr (attr : SetAttr) : Bytes :=
  putU32 attr.valid ++ putU32 attr.mode ++ putU32 attr.uid ++ putU32 attr.gid ++
  putU64 attr.size ++ putU64 attr.atimeSeconds ++ putU64 attr.atimeNanoseconds ++
  putU64 attr.mtimeSeconds ++ putU64 attr.mtimeNanoseconds

def encodeFrame (typ : UInt8) (tag : UInt16) (body : Bytes) : Except Error Bytes :=
  let size := 7 + body.length
  if size < 2 ^ 32 then
    .ok (putU32 (UInt32.ofNat size) ++ putU8 typ ++ putU16 tag ++ body)
  else .error (.kind .invalid)

/-- The message type and body that each request is written as. -/
def encodeRequestBody : NinePRequest → Except Error (UInt8 × Bytes)
  | .version msize version => do
    let version ← putString version
    .ok (Msg.tversion, putU32 msize ++ version)
  | .attach fid afid uname aname nUname => do
    let uname ← putString uname
    let aname ← putString aname
    .ok (Msg.tattach, putU32 fid ++ putU32 afid ++ uname ++ aname ++ putU32 nUname)
  | .walk fid newfid names => do
    let count ← putCount names.length
    let names ← putStrings names
    .ok (Msg.twalk, putU32 fid ++ putU32 newfid ++ count ++ names)
  | .lopen fid flags => .ok (Msg.tlopen, putU32 fid ++ putU32 flags)
  | .lcreate fid name flags mode gid => do
    let name ← putString name
    .ok (Msg.tlcreate, putU32 fid ++ name ++ putU32 flags ++ putU32 mode ++ putU32 gid)
  | .getAttr fid requestMask => .ok (Msg.tgetattr, putU32 fid ++ putU64 requestMask)
  | .setAttr fid attr => .ok (Msg.tsetattr, putU32 fid ++ encodeSetattr attr)
  | .xattrWalk fid newfid name => do
    let name ← putString name
    .ok (Msg.txattrwalk, putU32 fid ++ putU32 newfid ++ name)
  | .xattrCreate fid name size flags => do
    let name ← putString name
    .ok (Msg.txattrcreate, putU32 fid ++ name ++ putU64 size ++ putU32 flags)
  | .read fid offset count => .ok (Msg.tread, putU32 fid ++ putU64 offset ++ putU32 count)
  | .write fid offset data => do
    let data ← putCountedData data
    .ok (Msg.twrite, putU32 fid ++ putU64 offset ++ data)
  | .clunk fid => .ok (Msg.tclunk, putU32 fid)
  | .remove fid => .ok (Msg.tremove, putU32 fid)
  | .mkdir fid name mode gid => do
    let name ← putString name
    .ok (Msg.tmkdir, putU32 fid ++ name ++ putU32 mode ++ putU32 gid)
  | .link fid newdirfid name => do
    let name ← putString name
    .ok (Msg.tlink, putU32 fid ++ putU32 newdirfid ++ name)
  | .readdir fid offset count => .ok (Msg.treaddir, putU32 fid ++ putU64 offset ++ putU32 count)
  | .renameAt olddirfid oldname newdirfid newname => do
    let oldname ← putString oldname
    let newname ← putString newname
    .ok (Msg.trenameat, putU32 olddirfid ++ oldname ++ putU32 newdirfid ++ newname)
  | .unlinkAt dirfid name flags => do
    let name ← putString name
    .ok (Msg.tunlinkat, putU32 dirfid ++ name ++ putU32 flags)
  | .symlink fid name target gid => do
    let name ← putString name
    let target ← putString target
    .ok (Msg.tsymlink, putU32 fid ++ name ++ target ++ putU32 gid)
  | .readlink fid => .ok (Msg.treadlink, putU32 fid)
  | .fsync fid => .ok (Msg.tfsync, putU32 fid)
  | .flush oldtag => .ok (Msg.tflush, putU16 oldtag)

def encodeRequest (tag : UInt16) (request : NinePRequest) : Except Error Bytes := do
  let (typ, body) ← encodeRequestBody request
  encodeFrame typ tag body

def encodeResponseBody : NinePResponse → Except Error (UInt8 × Bytes)
  | .lerror ecode => .ok (Msg.rlerror, putU32 ecode)
  | .version msize version => do
    let version ← putString version
    .ok (Msg.rversion, putU32 msize ++ version)
  | .attach qid => .ok (Msg.rattach, encodeQid qid)
  | .walk qids => do
    let count ← putCount qids.length
    .ok (Msg.rwalk, count ++ qids.flatMap encodeQid)
  | .lopen qid iounit => .ok (Msg.rlopen, encodeQid qid ++ putU32 iounit)
  | .lcreate qid iounit => .ok (Msg.rlcreate, encodeQid qid ++ putU32 iounit)
  | .getAttr attr => .ok (Msg.rgetattr, encodeAttr attr)
  | .setAttr => .ok (Msg.rsetattr, [])
  | .xattrWalk size => .ok (Msg.rxattrwalk, putU64 size)
  | .xattrCreate => .ok (Msg.rxattrcreate, [])
  | .read data => do
    let data ← putCountedData data
    .ok (Msg.rread, data)
  | .write count => .ok (Msg.rwrite, putU32 count)
  | .clunk => .ok (Msg.rclunk, [])
  | .remove => .ok (Msg.rremove, [])
  | .mkdir qid => .ok (Msg.rmkdir, encodeQid qid)
  | .link => .ok (Msg.rlink, [])
  | .readdir data => do
    let data ← putCountedData data
    .ok (Msg.rreaddir, data)
  | .renameAt => .ok (Msg.rrenameat, [])
  | .unlinkAt => .ok (Msg.runlinkat, [])
  | .symlink qid => .ok (Msg.rsymlink, encodeQid qid)
  | .readlink target => do
    let target ← putString target
    .ok (Msg.rreadlink, target)
  | .fsync => .ok (Msg.rfsync, [])
  | .flush => .ok (Msg.rflush, [])

def encodeResponse (tag : UInt16) (response : NinePResponse) : Except Error Bytes := do
  let (typ, body) ← encodeResponseBody response
  encodeFrame typ tag body

def encodeDirents : List NinePDirent → Except Error Bytes
  | [] => .ok []
  | dirent :: dirents => do
    let name ← putString dirent.name
    let rest ← encodeDirents dirents
    .ok (encodeQid dirent.qid ++ putU64 dirent.offset ++ putU8 dirent.typ ++ name ++ rest)

/-! ## Decoder -/

namespace Decoder

def bytes (len : Nat) : Reader Error Bytes := readBytes (.kind .unexpectedEof) len

def u8 : Reader Error UInt8 := readLe (.kind .unexpectedEof) 1 UInt8.ofNat

def u16 : Reader Error UInt16 := readLe (.kind .unexpectedEof) 2 UInt16.ofNat

def u32 : Reader Error UInt32 := readLe (.kind .unexpectedEof) 4 UInt32.ofNat

def u64 : Reader Error UInt64 := readLe (.kind .unexpectedEof) 8 UInt64.ofNat

def string : Reader Error String := do
  let len ← u16
  let b ← bytes len.toNat
  match utf8String? b with
  | some s => pure s
  | none => throw (.kind .invalid)

def countedData : Reader Error Bytes := do
  let len ← u32
  bytes len.toNat

def qid : Reader Error Qid := do
  let typ ← u8
  let version ← u32
  let path ← u64
  pure { typ, version, path }

def attr : Reader Error NinePAttr := do
  let valid ← u64
  let qid ← qid
  let mode ← u32
  let uid ← u32
  let gid ← u32
  let nlink ← u64
  let rdev ← u64
  let size ← u64
  let blksize ← u64
  let blocks ← u64
  let atimeSeconds ← u64
  let atimeNanoseconds ← u64
  let mtimeSeconds ← u64
  let mtimeNanoseconds ← u64
  let ctimeSeconds ← u64
  let ctimeNanoseconds ← u64
  let btimeSeconds ← u64
  let btimeNanoseconds ← u64
  let gen ← u64
  let dataVersion ← u64
  pure { valid, qid, mode, uid, gid, nlink, rdev, size, blksize, blocks, atimeSeconds,
         atimeNanoseconds, mtimeSeconds, mtimeNanoseconds, ctimeSeconds, ctimeNanoseconds,
         btimeSeconds, btimeNanoseconds, gen, dataVersion }

def setattr : Reader Error SetAttr := do
  let valid ← u32
  let mode ← u32
  let uid ← u32
  let gid ← u32
  let size ← u64
  let atimeSeconds ← u64
  let atimeNanoseconds ← u64
  let mtimeSeconds ← u64
  let mtimeNanoseconds ← u64
  pure { valid, mode, uid, gid, size, atimeSeconds, atimeNanoseconds, mtimeSeconds,
         mtimeNanoseconds }

/-- The whole body must have been read. -/
def finish {α : Type} (r : Reader Error α) (body : Bytes) : Except Error α := do
  let (a, rest) ← r body
  if rest = [] then .ok a else .error (.kind .invalid)

end Decoder

def decodeFrame (frame : Bytes) : Except Error (UInt8 × UInt16 × Bytes) :=
  match frame with
  | b0 :: b1 :: b2 :: b3 :: typ :: t0 :: t1 :: body =>
    let size := leValue [b0, b1, b2, b3]
    if size ≠ frame.length ∨ size < 7 then .error (.kind .invalid)
    else .ok (typ, UInt16.ofNat (leValue [t0, t1]), body)
  | _ => .error (.kind .invalid)

open Decoder in
def decodeRequestBody (typ : UInt8) : Reader Error NinePRequest :=
  match typ with
  | Msg.tversion => do return .version (← u32) (← string)
  | Msg.tattach => do return .attach (← u32) (← u32) (← string) (← string) (← u32)
  | Msg.twalk => do
    let fid ← u32
    let newfid ← u32
    let n ← u16
    let names ← readMany string n.toNat
    return .walk fid newfid names
  | Msg.tlopen => do return .lopen (← u32) (← u32)
  | Msg.tlcreate => do return .lcreate (← u32) (← string) (← u32) (← u32) (← u32)
  | Msg.tgetattr => do return .getAttr (← u32) (← u64)
  | Msg.tsetattr => do return .setAttr (← u32) (← setattr)
  | Msg.txattrwalk => do return .xattrWalk (← u32) (← u32) (← string)
  | Msg.txattrcreate => do return .xattrCreate (← u32) (← string) (← u64) (← u32)
  | Msg.tread => do return .read (← u32) (← u64) (← u32)
  | Msg.twrite => do return .write (← u32) (← u64) (← countedData)
  | Msg.tclunk => do return .clunk (← u32)
  | Msg.tremove => do return .remove (← u32)
  | Msg.tmkdir => do return .mkdir (← u32) (← string) (← u32) (← u32)
  | Msg.tlink => do return .link (← u32) (← u32) (← string)
  | Msg.treaddir => do return .readdir (← u32) (← u64) (← u32)
  | Msg.trenameat => do return .renameAt (← u32) (← string) (← u32) (← string)
  | Msg.tunlinkat => do return .unlinkAt (← u32) (← string) (← u32)
  | Msg.tsymlink => do return .symlink (← u32) (← string) (← string) (← u32)
  | Msg.treadlink => do return .readlink (← u32)
  | Msg.tfsync => do return .fsync (← u32)
  | Msg.tflush => do return .flush (← u16)
  | _ => throw (.message s!"unsupported 9P request type {typ}")

def decodeRequest (frame : Bytes) : Except Error (UInt16 × NinePRequest) := do
  let (typ, tag, body) ← decodeFrame frame
  let request ← Decoder.finish (decodeRequestBody typ) body
  .ok (tag, request)

open Decoder in
def decodeResponseBody (typ : UInt8) : Reader Error NinePResponse :=
  match typ with
  | Msg.rlerror => do return .lerror (← u32)
  | Msg.rversion => do return .version (← u32) (← string)
  | Msg.rattach => do return .attach (← qid)
  | Msg.rwalk => do
    let n ← u16
    let qids ← readMany qid n.toNat
    return .walk qids
  | Msg.rlopen => do return .lopen (← qid) (← u32)
  | Msg.rlcreate => do return .lcreate (← qid) (← u32)
  | Msg.rgetattr => do return .getAttr (← attr)
  | Msg.rsetattr => return .setAttr
  | Msg.rxattrwalk => do return .xattrWalk (← u64)
  | Msg.rxattrcreate => return .xattrCreate
  | Msg.rread => do return .read (← countedData)
  | Msg.rwrite => do return .write (← u32)
  | Msg.rclunk => return .clunk
  | Msg.rremove => return .remove
  | Msg.rmkdir => do return .mkdir (← qid)
  | Msg.rlink => return .link
  | Msg.rreaddir => do return .readdir (← countedData)
  | Msg.rrenameat => return .renameAt
  | Msg.runlinkat => return .unlinkAt
  | Msg.rsymlink => do return .symlink (← qid)
  | Msg.rreadlink => do return .readlink (← string)
  | Msg.rfsync => return .fsync
  | Msg.rflush => return .flush
  | _ => throw (.message s!"unsupported 9P response type {typ}")

def decodeResponse (frame : Bytes) : Except Error (UInt16 × NinePResponse) := do
  let (typ, tag, body) ← decodeFrame frame
  let response ← Decoder.finish (decodeResponseBody typ) body
  .ok (tag, response)

/-- A Readdir payload is a sequence of entries up to its end. Every entry takes
at least 24 bytes, so as many rounds as there are bytes are enough. -/
def decodeDirents (data : Bytes) : Except Error (List NinePDirent) :=
  go data.length data
where
  go : Nat → Bytes → Except Error (List NinePDirent)
  | _, [] => .ok []
  | 0, _ :: _ => .error (.kind .unexpectedEof)
  | n + 1, d => do
    let (entry, rest) ← (do
      let qid ← Decoder.qid
      let offset ← Decoder.u64
      let typ ← Decoder.u8
      let name ← Decoder.string
      pure ({ qid, offset, typ, name } : NinePDirent) : Reader Error NinePDirent) d
    let dirents ← go n rest
    .ok (entry :: dirents)

end Star9
