import Star9.Base.Prog

/-!
# Shared value types

Errors, file modes, metadata, operation contexts and open flags, as every crate
of the repository uses them. Modes and flags are the 32-bit words of the source.
-/
namespace Star9
open Base

inductive ErrorKind where
  | notFound
  | alreadyExists
  | invalid
  | permissionDenied
  | notSupported
  | notEmpty
  | closed
  | notDir
  | isDir
  | unexpectedEof
  | other
  deriving DecidableEq, Repr

inductive Error where
  | path (op : String) (path : String) (kind : ErrorKind)
  | kind (kind : ErrorKind)
  | message (text : String)
  deriving DecidableEq, Repr

def Error.errorKind : Error → ErrorKind
  | .path _ _ k => k
  | .kind k => k
  | .message _ => .other

structure FileMode where
  bits : UInt32
  deriving DecidableEq, Repr, Inhabited

namespace FileMode

def dir : FileMode := ⟨0x80000000⟩
def symlink : FileMode := ⟨0x40000000⟩
def namedPipe : FileMode := ⟨0x10000000⟩
def socket : FileMode := ⟨0x08000000⟩
def permMask : FileMode := ⟨0o777⟩

def empty : FileMode := ⟨0⟩

instance : OrOp FileMode := ⟨fun a b => ⟨a.bits ||| b.bits⟩⟩

def fromPerm (perm : UInt32) : FileMode := ⟨perm &&& permMask.bits⟩

def perm (m : FileMode) : UInt32 := m.bits &&& permMask.bits

def typeBits (m : FileMode) : FileMode := ⟨m.bits &&& ~~~permMask.bits⟩

def contains (m other : FileMode) : Bool := m.bits &&& other.bits == other.bits

def isDir (m : FileMode) : Bool := m.contains dir

def isSymlink (m : FileMode) : Bool := m.contains symlink

def withPerm (m : FileMode) (perm : UInt32) : FileMode :=
  ⟨(m.bits &&& ~~~permMask.bits) ||| (perm &&& permMask.bits)⟩

def unixTypeAndPerm (m : FileMode) : UInt32 :=
  let typ : UInt32 :=
    if m.isDir then 0o040000
    else if m.isSymlink then 0o120000
    else if m.contains namedPipe then 0o010000
    else if m.contains socket then 0o140000
    else 0o100000
  typ ||| m.perm

end FileMode

/-- Nanoseconds since the Unix epoch; a time before the epoch is negative. -/
abbrev SystemTime := Int

def unixEpoch : SystemTime := 0

structure Metadata where
  name : String
  mode : FileMode
  size : Nat
  modified : SystemTime
  uid : UInt32
  gid : UInt32
  deriving DecidableEq, Repr, Inhabited

namespace Metadata

def new (name : String) (mode : FileMode) : Metadata :=
  let mode := mode.withPerm mode.perm
  { name, mode, size := if mode.isDir then 2 else 0, modified := unixEpoch, uid := 0, gid := 0 }

def dir (name : String) (perm : UInt32) : Metadata :=
  new name (FileMode.dir ||| FileMode.fromPerm perm)

def file (name : String) (perm : UInt32) (size : Nat) : Metadata :=
  { new name (FileMode.fromPerm perm) with size }

def symlink (name : String) (size : Nat) : Metadata :=
  { new name (FileMode.symlink ||| FileMode.fromPerm 0o777) with size }

def isDir (m : Metadata) : Bool := m.mode.isDir

end Metadata

structure DirEntry where
  name : String
  metadata : Metadata
  deriving DecidableEq, Repr

structure FsContext where
  followSymlinks : Bool
  readOnly : Bool
  originPath : Option String
  filepath : Option String
  op : Option String
  deriving DecidableEq, Repr

namespace FsContext

def new : FsContext :=
  { followSymlinks := true, readOnly := false, originPath := none, filepath := none, op := none }

def noFollow (ctx : FsContext) : FsContext := { ctx with followSymlinks := false }

def setReadOnly (ctx : FsContext) : FsContext := { ctx with readOnly := true }

/-- Only the first caller names the origin; the operations that read mark the
context read-only. -/
def withOrigin (ctx : FsContext) (path op : String) : FsContext :=
  match ctx.originPath with
  | none =>
    { ctx with
      originPath := some path
      filepath := some path
      op := some op
      readOnly := ctx.readOnly || op ∈ ["open", "stat", "readdir", "readlink"] }
  | some _ => ctx

end FsContext

structure OpenFlags where
  bits : UInt32
  deriving DecidableEq, Repr

namespace OpenFlags

def rdonly : OpenFlags := ⟨0⟩
def wronly : OpenFlags := ⟨1⟩
def rdwr : OpenFlags := ⟨2⟩
def create : OpenFlags := ⟨0o100⟩
def excl : OpenFlags := ⟨0o200⟩
def trunc : OpenFlags := ⟨0o1000⟩
def append : OpenFlags := ⟨0o2000⟩

instance : OrOp OpenFlags := ⟨fun a b => ⟨a.bits ||| b.bits⟩⟩

def contains (f other : OpenFlags) : Bool := f.bits &&& other.bits == other.bits

def isWrite (f : OpenFlags) : Bool := f.bits &&& (wronly.bits ||| rdwr.bits) != 0

end OpenFlags

/-! Each type flag is a single bit, and none of them is a permission bit. -/
namespace FileMode

theorem and_twoPow_beq (x y : UInt32) (i : Nat) (hy : y.toNat = 2 ^ i) :
    (x &&& y == y) = x.toNat.testBit i := by
  rw [Bool.eq_iff_iff, beq_iff_eq, ← UInt32.toNat_inj, UInt32.toNat_and, hy, Nat.and_two_pow]
  cases x.toNat.testBit i with
  | true => simp
  | false => simpa using (Nat.two_pow_pos i).ne

theorem isDir_eq_testBit (m : FileMode) : m.isDir = m.bits.toNat.testBit 31 :=
  and_twoPow_beq _ _ 31 rfl

theorem isSymlink_eq_testBit (m : FileMode) : m.isSymlink = m.bits.toNat.testBit 30 :=
  and_twoPow_beq _ _ 30 rfl

@[simp] theorem bits_or (a b : FileMode) : (a ||| b).bits = a.bits ||| b.bits := rfl

@[simp] theorem isDir_or (a b : FileMode) : (a ||| b).isDir = (a.isDir || b.isDir) := by
  simp only [isDir_eq_testBit, bits_or, UInt32.toNat_or, Nat.testBit_or]

@[simp] theorem isSymlink_or (a b : FileMode) : (a ||| b).isSymlink = (a.isSymlink || b.isSymlink) := by
  simp only [isSymlink_eq_testBit, bits_or, UInt32.toNat_or, Nat.testBit_or]

@[simp] theorem isDir_dir : dir.isDir = true := by decide

@[simp] theorem isSymlink_dir : dir.isSymlink = false := by decide

@[simp] theorem isDir_symlink : symlink.isDir = false := by decide

@[simp] theorem isDir_fromPerm (p : UInt32) : (fromPerm p).isDir = false := by
  rw [isDir_eq_testBit, fromPerm, UInt32.toNat_and, Nat.testBit_and]
  exact Bool.and_eq_false_iff.mpr (Or.inr (by decide))

@[simp] theorem isSymlink_fromPerm (p : UInt32) : (fromPerm p).isSymlink = false := by
  rw [isSymlink_eq_testBit, fromPerm, UInt32.toNat_and, Nat.testBit_and]
  exact Bool.and_eq_false_iff.mpr (Or.inr (by decide))

@[simp] theorem isDir_typeBits (m : FileMode) : m.typeBits.isDir = m.isDir := by
  rw [isDir_eq_testBit, isDir_eq_testBit, typeBits, UInt32.toNat_and, Nat.testBit_and]
  simp only [show (~~~permMask.bits : UInt32).toNat.testBit 31 = true by decide, Bool.and_true]

@[simp] theorem isSymlink_typeBits (m : FileMode) : m.typeBits.isSymlink = m.isSymlink := by
  rw [isSymlink_eq_testBit, isSymlink_eq_testBit, typeBits, UInt32.toNat_and, Nat.testBit_and]
  simp only [show (~~~permMask.bits : UInt32).toNat.testBit 30 = true by decide, Bool.and_true]

@[simp] theorem perm_or (a b : FileMode) : (a ||| b).perm = a.perm ||| b.perm := by
  apply UInt32.toNat_inj.mp
  simp only [perm, bits_or, UInt32.toNat_or, UInt32.toNat_and, Nat.and_or_distrib_right]

@[simp] theorem perm_fromPerm (p : UInt32) : (fromPerm p).perm = p &&& permMask.bits := by
  simp only [perm, fromPerm, UInt32.and_assoc, UInt32.and_self]

@[simp] theorem perm_dir : dir.perm = 0 := by decide

@[simp] theorem perm_and_mask (m : FileMode) : m.perm &&& permMask.bits = m.perm := by
  simp only [perm, UInt32.and_assoc, UInt32.and_self]

theorem fromPerm_perm (m : FileMode) : fromPerm m.perm = ⟨m.perm⟩ := by
  simp only [fromPerm, perm_and_mask]

theorem and_compl_or_and (b m : UInt32) : b &&& ~~~m ||| b &&& m = b := by
  apply UInt32.toBitVec_inj.mp
  ext i hi
  simp only [UInt32.toBitVec_or, UInt32.toBitVec_and, UInt32.toBitVec_not, BitVec.getElem_or,
    BitVec.getElem_and, BitVec.getElem_not]
  cases b.toBitVec[i] <;> simp

/-- A mode is its type bits with its permission bits. -/
theorem typeBits_or_perm (m : FileMode) : m.typeBits ||| fromPerm m.perm = m := by
  have h : (m.typeBits ||| fromPerm m.perm).bits = m.bits := by
    rw [bits_or, fromPerm_perm]
    exact and_compl_or_and m.bits _
  cases m
  exact congrArg FileMode.mk h

theorem withPerm_perm (m : FileMode) : m.withPerm m.perm = m := typeBits_or_perm m

end FileMode
end Star9
