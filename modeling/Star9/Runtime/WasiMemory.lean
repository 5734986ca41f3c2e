import Star9.Base.Memory
import Star9.Runtime.WasiFd

/-!
# The memory of a guest

Accesses inside the memory of a guest are windows of it and cells put over it. A list of buffers is
read from an array of pairs of a pointer and a length.
-/
namespace Star9
open Base Prog Memory

namespace WasiCaller
variable {σ η : Type} {w : WasiCaller σ η} {data : Bytes}

/-! ## Words -/

theorem asI32_of_lt {n : Nat} (h : n < 2 ^ 31) : asI32 n = n := by
  have hlow : -((2 ^ 32 : Nat) / 2 : Int) ≤ (n : Int) := by omega
  have hhigh : (n : Int) < ((2 ^ 32 : Nat) + 1) / 2 := by omega
  exact Int.bmod_eq_of_le hlow hhigh

theorem checkedI32_eq {n : Int} (hlow : -2 ^ 31 ≤ n) (hhigh : n < 2 ^ 31) :
    (checkedI32 n : Prog (WasiCaller σ η) Errno Int) w = (.ok n, w) := by
  rw [checkedI32, if_neg (by omega)]
  rfl

theorem element_eq {base index size : Int} (hbase : 0 ≤ base) (hscaled : 0 ≤ index * size) (hhigh : base + index * size < 2 ^ 31) :
    (element base index size : Prog (WasiCaller σ η) Errno Int) w = (.ok (base + index * size), w) := by
  have hmul : (checkedI32 (index * size) : Prog (WasiCaller σ η) Errno Int) w = (.ok (index * size), w) :=
    checkedI32_eq (by omega) (by omega)
  rw [element, bind_ok hmul]
  exact checkedI32_eq (by omega) hhigh

/-! ## Accesses -/

section
variable (hmemory : w.memory = some data)
include hmemory

theorem readBytes_eq {ptr : Int} {len : Nat} (hptr : 0 ≤ ptr) (hfits : ptr + len ≤ data.length) :
    w.readBytes ptr len = some (window data ptr.toNat len) := by
  rw [readBytes, if_neg (by omega), hmemory]
  dsimp only
  rw [if_neg (by omega), window, Int.toNat_natCast]

theorem writeBytes_eq {ptr : Int} (bytes : Bytes) (hptr : 0 ≤ ptr) (hfits : ptr + bytes.length ≤ data.length) :
    (writeBytes ptr bytes : Prog (WasiCaller σ η) Errno Unit) w = (.ok (), { w with memory := some (put data ptr.toNat bytes) }) := by
  rw [writeBytes, get_bind, branch_apply, if_neg (by omega), hmemory]
  dsimp only
  rw [branch_apply, if_neg (by omega)]
  rfl

theorem readLe_eq {ptr : Int} {width : Nat} (hptr : 0 ≤ ptr) (hfits : ptr + width ≤ data.length) :
    (readLe width ptr : Prog (WasiCaller σ η) Errno Nat) w = (.ok (leValue (window data ptr.toNat width)), w) := by
  rw [readLe, get_bind, readBytes_eq hmemory hptr hfits]
  rfl

end

theorem allocate_eq (len : Nat) : (allocate len : Prog (WasiCaller σ η) Errno Nat) w = (.ok len, w) := by
  rw [allocate, if_neg (Int.not_lt.mpr (Int.natCast_nonneg _)), Int.toNat_natCast]
  rfl

/-! ## Arrays of buffers -/

/-- A buffer as the array has it: a pointer and a length. -/
def iovec (data : Bytes) (ptr : Nat) : Nat × Nat := (leValue (window data ptr 4), leValue (window data (ptr + 4) 4))

def iovecs (data : Bytes) (ptr : Nat) : Nat → List (Nat × Nat)
  | 0 => []
  | count + 1 => iovec data ptr :: iovecs data (ptr + 8) count

/-- A region inside the memory and below the last signed address. -/
def InGuest (data : Bytes) (r : Nat × Nat) : Prop := r.1 + r.2 ≤ data.length ∧ r.1 + r.2 ≤ 2 ^ 31 - 1

/-- Where a guest has the array of its buffers, the buffers and the word for the result. They may share
cells, and a buffer may be named twice. -/
structure Placed (data : Bytes) (iovsPtr iovsLen resultPtr : Int32) : Prop where
  count : 0 ≤ iovsLen.toInt
  start : 0 ≤ iovsPtr.toInt
  array : InGuest data (iovsPtr.toInt.toNat, 8 * iovsLen.toInt.toNat)
  buffers : ∀ r ∈ iovecs data iovsPtr.toInt.toNat iovsLen.toInt.toNat, InGuest data r
  result : 0 ≤ resultPtr.toInt ∧ InGuest data (resultPtr.toInt.toNat, 4)

/-- The places of a guest, each apart from the others. -/
structure Layout (data : Bytes) (iovsPtr iovsLen resultPtr : Int32) : Prop extends Placed data iovsPtr iovsLen resultPtr where
  apart : ((iovsPtr.toInt.toNat, 8 * iovsLen.toInt.toNat) :: (resultPtr.toInt.toNat, 4) ::
    iovecs data iovsPtr.toInt.toNat iovsLen.toInt.toNat).Pairwise Separate

/-- A word is put at a place that has room for it, whatever was put into the memory before. -/
theorem writeWord_eq {mem : Bytes} (hmemory : w.memory = some data) {ptr : Int32} {width : Nat}
    (hptr : 0 ≤ ptr.toInt ∧ InGuest mem (ptr.toInt.toNat, width)) (hlen : data.length = mem.length) (value : Nat) :
    (writeBytes ptr.toInt (leBytes width value) : Prog (WasiCaller σ η) Errno Unit) w =
      (.ok (), { w with memory := some (put data ptr.toInt.toNat (leBytes width value)) }) := by
  obtain ⟨hstart, hfits, -⟩ := hptr
  have hroom : ptr.toInt + (leBytes width value).length ≤ data.length := by
    rw [leBytes_length, hlen]
    dsimp only at hfits
    omega
  exact writeBytes_eq hmemory _ hstart hroom

def signed (r : Nat × Nat) : Int × Int := (r.1, r.2)

theorem readIovDescriptorsFrom_eq (hmemory : w.memory = some data) {ptr : Int} (hptr : 0 ≤ ptr) {count index : Nat}
    (hfits : ptr + 8 * (index + count) ≤ data.length) (hbelow : ptr + 8 * (index + count) < 2 ^ 31)
    (hbuffers : ∀ r ∈ iovecs data (ptr.toNat + 8 * index) count, InGuest data r) :
    (readIovDescriptorsFrom ptr count index : Prog (WasiCaller σ η) Errno (List (Int × Int))) w =
      (.ok ((iovecs data (ptr.toNat + 8 * index) count).map signed), w) := by
  induction count generalizing index with
  | zero => rfl
  | succ count ih =>
    rw [iovecs, List.forall_mem_cons] at hbuffers
    have hbuffer : leValue (window data (ptr.toNat + 8 * index) 4) + leValue (window data (ptr.toNat + 8 * index + 4) 4) ≤ 2 ^ 31 - 1 :=
      hbuffers.1.2
    have helement : (element ptr index 8 : Prog (WasiCaller σ η) Errno Int) w = (.ok (ptr + index * 8), w) :=
      element_eq hptr (by omega) (by omega)
    have hdata : (readLe 4 (ptr + index * 8) : Prog (WasiCaller σ η) Errno Nat) w =
        (.ok (leValue (window data (ptr.toNat + 8 * index) 4)), w) := by
      rw [readLe_eq hmemory (by omega) (by omega), show (ptr + index * 8).toNat = ptr.toNat + 8 * index by omega]
    have hnext : (checkedI32 (ptr + index * 8 + 4) : Prog (WasiCaller σ η) Errno Int) w = (.ok (ptr + index * 8 + 4), w) :=
      checkedI32_eq (by omega) (by omega)
    have hlen : (readLe 4 (ptr + index * 8 + 4) : Prog (WasiCaller σ η) Errno Nat) w =
        (.ok (leValue (window data (ptr.toNat + 8 * index + 4) 4)), w) := by
      rw [readLe_eq hmemory (by omega) (by omega), show (ptr + index * 8 + 4).toNat = ptr.toNat + 8 * index + 4 by omega]
    have hrest := @ih (index + 1) (by omega) (by omega) hbuffers.2
    rw [readIovDescriptorsFrom, bind_ok helement, bind_ok hdata, bind_ok hnext, bind_ok hlen, bind_ok hrest,
      asI32_of_lt (by omega), asI32_of_lt (by omega)]
    rfl

variable {iovsPtr iovsLen resultPtr : Int32}

theorem readIovDescriptors_eq (hmemory : w.memory = some data) (h : Placed data iovsPtr iovsLen resultPtr) :
    (readIovDescriptors iovsPtr iovsLen : Prog (WasiCaller σ η) Errno (List (Int × Int))) w =
      (.ok ((iovecs data iovsPtr.toInt.toNat iovsLen.toInt.toNat).map signed), w) := by
  have hcount := h.count
  have hstart := h.start
  obtain ⟨hfits, hbelow⟩ := h.array
  dsimp only at hfits hbelow
  have hnonneg : ¬ iovsLen < 0 := by
    rw [Int32.lt_iff_toInt_lt, Int32.toInt_zero]
    omega
  rw [readIovDescriptors, if_neg hnonneg]
  exact readIovDescriptorsFrom_eq hmemory hstart (by omega) (by omega) h.buffers

theorem readIovBytes_eq (hmemory : w.memory = some data) {regions : List (Nat × Nat)} (hregions : ∀ r ∈ regions, InGuest data r) :
    (readIovBytes (regions.map signed) : Prog (WasiCaller σ η) Errno (List Bytes)) w =
      (.ok (regions.map fun r => window data r.1 r.2), w) := by
  induction regions with
  | nil => rfl
  | cons r regions ih =>
    rw [List.forall_mem_cons] at hregions
    have hfits : r.1 + r.2 ≤ data.length := hregions.1.1
    have hread : w.readBytes (r.1 : Int) (r.2 : Int) = some (window data r.1 r.2) := by
      rw [readBytes_eq hmemory (Int.natCast_nonneg _) (by omega), Int.toNat_natCast]
    rw [List.map_cons, signed, readIovBytes, get_bind, hread]
    exact bind_ok (ih hregions.2)

theorem readIovs_eq (hmemory : w.memory = some data) (h : Placed data iovsPtr iovsLen resultPtr) :
    (readIovs iovsPtr iovsLen : Prog (WasiCaller σ η) Errno (List Bytes)) w =
      (.ok ((iovecs data iovsPtr.toInt.toNat iovsLen.toInt.toNat).map fun r => window data r.1 r.2), w) := by
  rw [readIovs, bind_ok (readIovDescriptors_eq hmemory h)]
  exact readIovBytes_eq hmemory h.buffers

end WasiCaller
end Star9
