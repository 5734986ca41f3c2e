import Star9.Fs.MemShared

/-!
# A handle as a byte array with an offset

An open file of the in-memory file system holds a copy of its node's data. While nothing else
touches the node, every run of calls on the handle answers as a byte array with an offset does,
until a call would make the array larger than the largest allocation, which is a panic.
-/
namespace Star9
open Base

/-! ## The byte array -/

structure ByteFile where
  data : Bytes
  offset : Nat
  deriving DecidableEq

inductive HandleCall where
  | read (len : Nat)
  | write (new : Bytes)
  | readAt (len : Nat) (offset : UInt64)
  | writeAt (new : Bytes) (offset : UInt64)
  | seek (pos : SeekFrom)
  | sync
  deriving DecidableEq

inductive HandleAnswer where
  | bytes (data : Bytes)
  | count (n : Nat)
  | position (n : Nat)
  | done
  | failed
  deriving DecidableEq

namespace ByteFile

/-- The bytes at a position, as many as fit. -/
def bytesAt (file : ByteFile) (pos len : Nat) : Bytes := (file.data.drop pos).take len

/-- New bytes over those at a position, behind zeros when the data ends before it. -/
def overlaid (data : Bytes) (pos : Nat) (new : Bytes) : Bytes :=
  data.take pos ++ List.replicate (pos - data.length) 0 ++ new ++ data.drop (pos + new.length)

def put (file : ByteFile) (pos : Nat) (new : Bytes) : ByteFile :=
  { data := overlaid file.data pos new, offset := pos + new.length }

def target (file : ByteFile) : SeekFrom → Int
  | .start pos => pos.toNat
  | .fromEnd off => file.data.length + off
  | .current off => file.offset + off

def call (file : ByteFile) : HandleCall → HandleAnswer × ByteFile
  | .read len => (.bytes (file.bytesAt file.offset len), { file with offset := file.offset + (file.bytesAt file.offset len).length })
  | .write new => (.count new.length, file.put file.offset new)
  | .readAt len pos => if file.data.length < pos.toNat then (.failed, file) else (.bytes (file.bytesAt pos.toNat len), file)
  | .writeAt new pos => (.count new.length, file.put pos.toNat new)
  | .seek pos =>
    if file.target pos < 0 ∨ file.data.length < file.target pos then (.failed, file)
    else (.position (file.target pos).toNat, { file with offset := (file.target pos).toNat })
  | .sync => (.done, file)

def run : List HandleCall → ByteFile → List HandleAnswer × ByteFile
  | [], file => ([], file)
  | c :: cs, file => ((file.call c).1 :: (run cs (file.call c).2).1, (run cs (file.call c).2).2)

/-- The place behind the last byte that a call would write. -/
def reach (file : ByteFile) : HandleCall → Nat
  | .write new => file.offset + new.length
  | .writeAt new pos => pos.toNat + new.length
  | _ => 0

/-- No write of the run goes beyond a limit. -/
def Within (limit : Nat) : List HandleCall → ByteFile → Prop
  | [], _ => True
  | c :: cs, file => file.reach c ≤ limit ∧ Within limit cs (file.call c).2

instance (limit : Nat) : ∀ (cs : List HandleCall) (file : ByteFile), Decidable (Within limit cs file)
  | [], _ => isTrue trivial
  | c :: cs, file =>
    have := instDecidableWithin limit cs (file.call c).2
    inferInstanceAs (Decidable (_ ∧ _))

end ByteFile

/-! ## The handle -/

def HandleCall.writes : HandleCall → Bool
  | .write _ => true
  | .writeAt _ _ => true
  | _ => false

/-- The answer of a call; a panic is none. -/
def answered {α : Type} (toAnswer : α → HandleAnswer) : Outcome Error α → Option HandleAnswer
  | .ok a => some (toAnswer a)
  | .err _ => some .failed
  | .abort => none

namespace NodeFile

def answer {α : Type} (p : Prog (NodeFile × MemFs) Error α) (toAnswer : α → HandleAnswer) (s : NodeFile × MemFs) :
    Option HandleAnswer × (NodeFile × MemFs) := (answered toAnswer (p s).1, (p s).2)

def call : HandleCall → NodeFile × MemFs → Option HandleAnswer × (NodeFile × MemFs)
  | .read len => answer (read len) .bytes
  | .write new => answer (write new) .count
  | .readAt len pos => answer (readAt len pos) .bytes
  | .writeAt new pos => answer (writeAt new pos) .count
  | .seek pos => answer (seek pos) fun n => .position n.toNat
  | .sync => answer sync fun _ => .done

def runCalls : List HandleCall → NodeFile × MemFs → List (Option HandleAnswer) × (NodeFile × MemFs)
  | [], s => ([], s)
  | c :: cs, s => ((call c s).1 :: (runCalls cs (call c s).2).1, (runCalls cs (call c s).2).2)

end NodeFile

/-- The handle and its node stand for a byte array; `wrote` tells whether a write happened. -/
structure Stands (id : NodeId) (wrote : Bool) (s : NodeFile × MemFs) (file : ByteFile) : Prop where
  closed : s.1.closed = false
  plain : s.1.metadata.mode.isDir = false
  node : s.1.node = id
  data : s.1.data = file.data
  offset : s.1.offset.toNat = file.offset
  inside : file.offset ≤ file.data.length
  bounded : file.data.length ≤ isizeMax
  sized : wrote = true → s.1.metadata.size = file.data.length
  stored : s.1.dirty = false → (s.2.heap id).data = file.data

/-! ## One call -/

theorem take_resize {data : Bytes} {n start : Nat} (h : start ≤ n) :
    (resize data n).take start = data.take start ++ List.replicate (start - data.length) 0 := by
  rw [resize, List.take_append, List.take_take, Nat.min_eq_left h, List.take_replicate, List.length_take]
  congr 2
  omega

theorem drop_resize (data : Bytes) (n : Nat) : (resize data n).drop n = [] :=
  List.drop_of_length_le (resize_length data n).le

/-- Growing in two steps and copying over the slice is one overlay. -/
theorem overwrite_grown (data new : Bytes) (start : Nat) :
    let grown := if data.length < start then resize data start else data
    overwrite (if grown.length < start + new.length then resize grown (start + new.length) else grown) start new =
      ByteFile.overlaid data start new := by
  intro grown
  have hgrown : grown = if data.length < start then resize data start else data := rfl
  have htake : grown.take start = data.take start ++ List.replicate (start - data.length) 0 := by
    rw [hgrown]
    split
    · rw [take_resize le_rfl]
    · rw [Nat.sub_eq_zero_of_le (by omega), List.replicate_zero, List.append_nil]
  have hlen : grown.length = max data.length start := by
    rw [hgrown]
    split
    · rw [resize_length]
      omega
    · omega
  clear_value grown
  rw [overwrite, ByteFile.overlaid]
  split
  case isTrue hlt =>
    rw [take_resize (Nat.le_add_right _ _), htake, drop_resize, hlen, Nat.sub_eq_zero_of_le (Nat.le_max_right _ _),
      List.replicate_zero, List.drop_of_length_le (by omega : data.length ≤ start + new.length)]
    simp only [List.append_nil]
  case isFalse hge =>
    rw [htake]
    congr 1
    rw [hgrown]
    split
    · rw [List.drop_of_length_le (by rw [resize_length]; omega), List.drop_of_length_le (by omega)]
    · rfl

theorem overlaid_length (data : Bytes) (pos : Nat) (new : Bytes) :
    (ByteFile.overlaid data pos new).length = max data.length (pos + new.length) := by
  simp only [ByteFile.overlaid, List.length_append, List.length_take, List.length_replicate, List.length_drop]
  omega

/-- A write that stays within the largest allocation. -/
theorem NodeFile.write_eq {f : NodeFile} (hclosed : f.closed = false) (hplain : f.metadata.mode.isDir = false) {new : Bytes}
    (hreach : f.offset.toNat + new.length ≤ isizeMax) (fs : MemFs) :
    NodeFile.write new (f, fs) =
      (.ok new.length,
        { f with
          data := ByteFile.overlaid f.data f.offset.toNat new
          offset := UInt64.ofNat (f.offset.toNat + new.length)
          metadata :=
            { f.metadata with size := (ByteFile.overlaid f.data f.offset.toNat new).length, modified := fs.clock fs.ticks }
          dirty := true },
        { fs with ticks := fs.ticks + 1 }) := by
  have hsum : min (f.offset.toNat + new.length) (2 ^ 64 - 1) = f.offset.toNat + new.length := by
    unfold isizeMax at hreach
    omega
  have hfits : ∀ data : Bytes, ∀ n, n ≤ f.offset.toNat + new.length → resizeFails data n = false := by
    intro data n hn
    rw [resizeFails, Bool.and_eq_false_iff, decide_eq_false_iff_not, decide_eq_false_iff_not]
    exact Or.inr (not_lt.mpr (hn.trans hreach))
  have hoverlay := overwrite_grown f.data new f.offset.toNat
  dsimp only at hoverlay
  simp only [NodeFile.write, hclosed, hplain, hsum, hfits _ _ (Nat.le_add_right _ _), hfits _ _ le_rfl, Bool.false_eq_true, if_false, hoverlay]

section Calls
variable {id : NodeId} {wrote : Bool} {s : NodeFile × MemFs} {file : ByteFile}

/-- A write at a position of its own, which becomes the offset. -/
theorem Stands.put (h : Stands id wrote s file) {pos : UInt64} {new : Bytes} (hreach : pos.toNat + new.length ≤ isizeMax) :
    (NodeFile.writeAt new pos s).1 = .ok new.length ∧ Stands id true (NodeFile.writeAt new pos s).2 (file.put pos.toNat new) := by
  obtain ⟨f, fs⟩ := s
  obtain ⟨data, offset⟩ := file
  obtain rfl : f.data = data := h.data
  have hbounded : f.data.length ≤ isizeMax := h.bounded
  have hlen := overlaid_length f.data pos.toNat new
  have hrun : NodeFile.writeAt new pos (f, fs) = _ := NodeFile.write_eq (f := { f with offset := pos }) h.closed h.plain hreach fs
  have hnat : (UInt64.ofNat (pos.toNat + new.length)).toNat = pos.toNat + new.length := by
    unfold isizeMax at hreach
    rw [UInt64.toNat_ofNat', Nat.mod_eq_of_lt (by omega)]
  rw [hrun]
  refine ⟨rfl, h.closed, h.plain, h.node, rfl, hnat, ?_, ?_, fun _ => rfl, fun hclean => by cases hclean⟩
  · show pos.toNat + new.length ≤ (ByteFile.overlaid f.data pos.toNat new).length
    omega
  · show (ByteFile.overlaid f.data pos.toNat new).length ≤ isizeMax
    omega

theorem Stands.read (h : Stands id wrote s file) (len : Nat) :
    (NodeFile.read len s).1 = .ok (file.bytesAt file.offset len) ∧
      Stands id wrote (NodeFile.read len s).2 { file with offset := file.offset + (file.bytesAt file.offset len).length } := by
  obtain ⟨f, fs⟩ := s
  obtain ⟨data, offset⟩ := file
  obtain rfl : f.data = data := h.data
  obtain rfl : f.offset.toNat = offset := h.offset
  have hinside : f.offset.toNat ≤ f.data.length := h.inside
  have hbounded : f.data.length ≤ isizeMax := h.bounded
  have hclosed : f.closed = false := h.closed
  have hplain : f.metadata.mode.isDir = false := h.plain
  unfold NodeFile.read ByteFile.bytesAt
  dsimp only
  rw [if_neg (ne_true_of_eq_false hclosed), if_neg (ne_true_of_eq_false hplain)]
  split
  case isTrue hend =>
    rw [List.drop_of_length_le hend, List.take_nil]
    exact ⟨rfl, h⟩
  case isFalse hmore =>
    have hlen : ((f.data.drop f.offset.toNat).take len).length = min len (f.data.length - f.offset.toNat) := by
      rw [List.length_take, List.length_drop]
    have hnat : (f.offset + UInt64.ofNat ((f.data.drop f.offset.toNat).take len).length).toNat =
        f.offset.toNat + ((f.data.drop f.offset.toNat).take len).length := by
      unfold isizeMax at hbounded
      rw [UInt64.toNat_add, UInt64.toNat_ofNat']
      omega
    exact ⟨rfl, h.closed, h.plain, h.node, rfl, hnat, by dsimp only; omega, hbounded, h.sized, h.stored⟩

theorem Stands.readAt (h : Stands id wrote s file) (len : Nat) (pos : UInt64) :
    (NodeFile.call (.readAt len pos) s).1 = some (file.call (.readAt len pos)).1 ∧
      Stands id wrote (NodeFile.call (.readAt len pos) s).2 (file.call (.readAt len pos)).2 := by
  obtain ⟨f, fs⟩ := s
  have hdata : f.data = file.data := h.data
  simp only [NodeFile.call, NodeFile.answer, NodeFile.readAt, ByteFile.call, hdata]
  split
  · exact ⟨rfl, h⟩
  · exact ⟨rfl, h⟩

theorem Stands.seek (h : Stands id wrote s file) (pos : SeekFrom) :
    (NodeFile.call (.seek pos) s).1 = some (file.call (.seek pos)).1 ∧
      Stands id wrote (NodeFile.call (.seek pos) s).2 (file.call (.seek pos)).2 := by
  obtain ⟨f, fs⟩ := s
  have hdata : f.data = file.data := h.data
  have hoffset : f.offset.toNat = file.offset := h.offset
  have hbounded := h.bounded
  have hrun : NodeFile.seek pos (f, fs) =
      if file.target pos < 0 ∨ file.data.length < file.target pos then (.err (.path "seek" f.metadata.name .invalid), f, fs)
      else (.ok (UInt64.ofNat (file.target pos).toNat), { f with offset := UInt64.ofNat (file.target pos).toNat }, fs) := by
    unfold NodeFile.seek
    cases pos with
    | start pos => simp only [ByteFile.target, hdata]
    | fromEnd off => simp only [ByteFile.target, hdata]
    | current off => simp only [ByteFile.target, hdata, hoffset]
  simp only [NodeFile.call, NodeFile.answer, ByteFile.call, hrun]
  split
  · exact ⟨rfl, h⟩
  case isFalse hin =>
    have hnat : (UInt64.ofNat (file.target pos).toNat).toNat = (file.target pos).toNat := by
      unfold isizeMax at hbounded
      rw [UInt64.toNat_ofNat', Nat.mod_eq_of_lt (by omega)]
    refine ⟨by simp only [answered, hnat], h.closed, h.plain, h.node, hdata, hnat, ?_, hbounded, h.sized, h.stored⟩
    show (file.target pos).toNat ≤ file.data.length
    omega

theorem Stands.sync (h : Stands id wrote s file) :
    (NodeFile.sync s).1 = .ok () ∧ Stands id wrote (NodeFile.sync s).2 file ∧ ((NodeFile.sync s).2.2.heap id).data = file.data := by
  obtain ⟨f, fs⟩ := s
  have hdata : f.data = file.data := h.data
  have hnode : f.node = id := h.node
  unfold NodeFile.sync
  dsimp only
  split
  case isTrue hdirty =>
    have hstored : ((fs.setData f.node f.data).heap id).data = file.data := by
      rw [MemFs.setData, MemFs.updateNode, hnode, hdata]
      dsimp only
      rw [Function.update_self]
      rfl
    exact ⟨rfl, ⟨h.closed, h.plain, h.node, hdata, h.offset, h.inside, h.bounded, h.sized, fun _ => hstored⟩, hstored⟩
  case isFalse hclean => exact ⟨rfl, h, h.stored (Bool.eq_false_of_not_eq_true hclean)⟩

/-- Every call answers as the byte array does and leaves the two in step. -/
theorem Stands.call (h : Stands id wrote s file) (c : HandleCall) (hreach : file.reach c ≤ isizeMax) :
    (NodeFile.call c s).1 = some (file.call c).1 ∧ Stands id (wrote || c.writes) (NodeFile.call c s).2 (file.call c).2 := by
  have hoffset : s.1.offset.toNat = file.offset := h.offset
  have hsame : c.writes = false → (wrote || c.writes) = wrote := fun hc => by rw [hc, Bool.or_false]
  have hwrote : c.writes = true → (wrote || c.writes) = true := fun hc => by rw [hc, Bool.or_true]
  cases c with
  | read len =>
    obtain ⟨hanswer, hstands⟩ := h.read len
    rw [hsame rfl]
    exact ⟨congrArg (answered HandleAnswer.bytes) hanswer, hstands⟩
  | write new =>
    -- a write is a write at the offset
    have hput : NodeFile.writeAt new s.1.offset s = NodeFile.write new s := rfl
    have hfits : s.1.offset.toNat + new.length ≤ isizeMax := by
      rw [hoffset]
      exact hreach
    obtain ⟨hanswer, hstands⟩ := h.put hfits
    rw [hput] at hanswer hstands
    rw [hoffset] at hstands
    rw [hwrote rfl]
    exact ⟨congrArg (answered HandleAnswer.count) hanswer, hstands⟩
  | readAt len pos =>
    rw [hsame rfl]
    exact h.readAt len pos
  | writeAt new pos =>
    obtain ⟨hanswer, hstands⟩ := h.put hreach
    rw [hwrote rfl]
    exact ⟨congrArg (answered HandleAnswer.count) hanswer, hstands⟩
  | seek pos =>
    rw [hsame rfl]
    exact h.seek pos
  | sync =>
    obtain ⟨hanswer, hstands, -⟩ := h.sync
    rw [hsame rfl]
    exact ⟨congrArg (answered fun _ => HandleAnswer.done) hanswer, hstands⟩

/-! ## Runs -/

theorem Stands.run (h : Stands id wrote s file) (cs : List HandleCall) (hwithin : ByteFile.Within isizeMax cs file) :
    (NodeFile.runCalls cs s).1 = (ByteFile.run cs file).1.map some ∧
      Stands id (wrote || cs.any HandleCall.writes) (NodeFile.runCalls cs s).2 (ByteFile.run cs file).2 := by
  induction cs generalizing wrote s file with
  | nil =>
    rw [List.any_nil, Bool.or_false]
    exact ⟨rfl, h⟩
  | cons c cs ih =>
    obtain ⟨hreach, hrest⟩ := hwithin
    obtain ⟨hanswer, hstands⟩ := h.call c hreach
    obtain ⟨hanswers, hlast⟩ := ih hstands hrest
    rw [Bool.or_assoc] at hlast
    refine ⟨?_, hlast⟩
    rw [NodeFile.runCalls, ByteFile.run, List.map_cons, hanswer, hanswers]

end Calls

theorem stands_opened {fs fs' : MemFs} {id : NodeId} {f : NodeFile} (hopen : MemFs.openNode id fs = (.ok (.node f), fs'))
    (hplain : f.metadata.mode.isDir = false) (hsize : f.data.length ≤ isizeMax) :
    Stands id false (f, fs') { data := f.data, offset := 0 } := by
  have heq : MemFs.openNode id fs =
    (.ok (.node (NodeFile.mk id (fs.heap id).metadata (fs.heap id).data 0 false false)), fs) := rfl
  rw [heq, Prod.mk.injEq, Outcome.ok.injEq, MemFile.node.injEq] at hopen
  obtain ⟨rfl, rfl⟩ := hopen
  exact ⟨rfl, hplain, rfl, rfl, rfl, Nat.zero_le _, hsize, fun h => absurd h Bool.false_ne_true, fun _ => rfl⟩

/-- After any calls on a file that was opened, within the largest allocation: the answers, the data
and the offset are those of the byte array, the size in the metadata is that of the data once a
write happened, and syncing stores the data in the node. -/
theorem handle_refines_byteFile {fs fs' : MemFs} {id : NodeId} {f : NodeFile} (hopen : MemFs.openNode id fs = (.ok (.node f), fs'))
    (hplain : f.metadata.mode.isDir = false) (hsize : f.data.length ≤ isizeMax) (cs : List HandleCall)
    (hwithin : ByteFile.Within isizeMax cs { data := f.data, offset := 0 }) :
    let s := NodeFile.runCalls cs (f, fs')
    let file := ByteFile.run cs { data := f.data, offset := 0 }
    s.1 = file.1.map some ∧ s.2.1.data = file.2.data ∧ s.2.1.offset.toNat = file.2.offset ∧
      (cs.any HandleCall.writes = true → s.2.1.metadata.size = s.2.1.data.length) ∧
      ((NodeFile.sync s.2).2.2.heap id).data = (NodeFile.sync s.2).2.1.data := by
  obtain ⟨hanswers, hstands⟩ := (stands_opened hopen hplain hsize).run cs hwithin
  obtain ⟨-, hsynced, hstored⟩ := hstands.sync
  refine ⟨hanswers, hstands.data, hstands.offset, fun hwrote => ?_, hstored.trans hsynced.data.symm⟩
  rw [hstands.data]
  exact hstands.sized (by rw [Bool.false_or, hwrote])

/-- A file node alone. -/
def fileWorld : MemFs := (MemFs.new fun _ => 0).insertNew "f" (NodeInner.file "f" [1, 2] (FileMode.fromPerm 0o644))

def fileHandle : NodeFile :=
  { node := 1, metadata := (fileWorld.heap 1).metadata, data := [1, 2], offset := 0, dirty := false, closed := false }

/-- A gap of one byte is filled, and the write is read back from before it. -/
theorem handle_refines_byteFile_gap :
    (NodeFile.runCalls [.writeAt [7] 3, .seek (.start 1), .read 8] (fileHandle, fileWorld)).1 =
      [some (.count 1), some (.position 1), some (.bytes [2, 0, 7])] :=
  (@handle_refines_byteFile fileWorld fileWorld 1 fileHandle rfl rfl (by decide) _ (by decide)).1

/-- A write whose end is below the largest number but beyond the largest allocation panics. -/
theorem handle_not_refines_byteFile :
    ¬ ∀ (fs fs' : MemFs) (id : NodeId) (f : NodeFile), MemFs.openNode id fs = (.ok (.node f), fs') → f.metadata.mode.isDir = false →
      f.data.length ≤ isizeMax → ∀ cs : List HandleCall, ByteFile.Within (2 ^ 64 - 2) cs { data := f.data, offset := 0 } →
        (NodeFile.runCalls cs (f, fs')).1 = (ByteFile.run cs { data := f.data, offset := 0 }).1.map some := by
  intro h
  have hrun := h fileWorld fileWorld 1 fileHandle rfl rfl (by decide) [.writeAt [7] (UInt64.ofNat (2 ^ 63))] ⟨by decide, trivial⟩
  have hpanic : (NodeFile.call (.writeAt [7] (UInt64.ofNat (2 ^ 63))) (fileHandle, fileWorld)).1 = none := by decide
  rw [NodeFile.runCalls, ByteFile.run, List.map_cons, hpanic] at hrun
  cases hrun

end Star9
