import Star9.Runtime.WasiPositioned

/-!
# A guest and its open file

A guest reads, writes and seeks on an open file of the in-memory file system, with stores to its
own memory between the calls and with anything else happening to the file system meanwhile. What it
sees is a byte array with an offset.
-/
namespace Star9
open Base Prog Memory

/-! ## One handle -/

namespace NodeFile
variable {f : NodeFile}

def moved (f : NodeFile) (pos : Nat) : NodeFile := { f with offset := UInt64.ofNat pos }

/-- The handle behind a synced write at its offset. -/
def advanced (f : NodeFile) (new : Bytes) (now : SystemTime) : NodeFile :=
  (f.written f.offset.toNat new now).moved (f.offset.toNat + new.length)

theorem moved_self (f : NodeFile) : f.moved f.offset.toNat = f := by
  rw [moved, UInt64.ofNat_toNat]

theorem Ready.offset_moved (h : f.Ready) {pos : Nat} (hpos : pos ≤ f.data.length) : (f.moved pos).offset.toNat = pos :=
  Wasi.toNat_ofNat_of_le (hpos.trans h.bounded)

theorem Ready.moved (h : f.Ready) {pos : Nat} (hpos : pos ≤ f.data.length) : (f.moved pos).Ready where
  closed := h.closed
  plain := h.plain
  inside := by
    rw [h.offset_moved hpos]
    exact hpos
  bounded := h.bounded

theorem read_eq (h : f.Ready) (len : Nat) (fs : MemFs) :
    NodeFile.read len (f, fs) =
      (.ok ((f.data.drop f.offset.toNat).take len), f.moved (f.offset.toNat + ((f.data.drop f.offset.toNat).take len).length), fs) := by
  have hclosed : f.closed = false := h.closed
  have hplain : f.metadata.mode.isDir = false := h.plain
  unfold NodeFile.read
  dsimp only
  rw [if_neg (ne_true_of_eq_false hclosed), if_neg (ne_true_of_eq_false hplain)]
  split
  case isTrue hend =>
    rw [List.drop_of_length_le hend, List.take_nil, List.length_nil, Nat.add_zero, moved_self]
  case isFalse =>
    rw [moved]
    congr 3
    rw [UInt64.ofNat_add, UInt64.ofNat_toNat]

end NodeFile

namespace Wasi
open WasiCaller

/-- What `fd_write` runs on the handle for one buffer. -/
def writeHere (new : Bytes) : Prog (MemFile × MemFs) Error Nat := do
  let n ← memFs.file.write new
  memFs.file.syncIgnoringUnsupported
  pure n

theorem writeHere_ok {f : NodeFile} (h : f.Ready) {new : Bytes} (hreach : f.offset.toNat + new.length ≤ isizeMax) (fs : MemFs) :
    writeHere new (.node f, fs) =
      (.ok new.length, .node (f.advanced new (fs.clock fs.ticks)), fs.stored (f.advanced new (fs.clock fs.ticks))) := by
  have hwrite := NodeFile.write_eq h.closed h.plain hreach fs
  generalize hg : ({ f with offset := UInt64.ofNat (f.offset.toNat + new.length)
                            data := ByteFile.overlaid f.data f.offset.toNat new
                            metadata :=
                              { f.metadata with
                                size := (ByteFile.overlaid f.data f.offset.toNat new).length, modified := fs.clock fs.ticks }
                            dirty := true } : NodeFile) = g at hwrite
  have hat : memFs.file.write new (.node f, fs) = (.ok new.length, .node g, { fs with ticks := fs.ticks + 1 }) :=
    MemFile.dispatch_node hwrite
  have hsync : memFs.file.sync (.node g, { fs with ticks := fs.ticks + 1 }) =
      (.ok (), .node (f.advanced new (fs.clock fs.ticks)), fs.stored (f.advanced new (fs.clock fs.ticks))) := by
    subst hg
    rfl
  rw [writeHere, bind_ok hat, FileHandle.syncIgnoringUnsupported, bind_assoc, bind_ok (attempt_ok hsync)]
  rfl

/-! ## All buffers -/

section
variable {w : WasiCaller MemFs MemFile} {fd : Int32} {f : NodeFile} {path : String}

/-- The buffers are written one behind the other. -/
theorem writeBuffers_ok (hfile : w.files[fd.toUInt32.toNat]? = some ⟨.node f, path⟩) (hready : f.Ready) {buffers : List Bytes} {count : Nat}
    (hreach : f.offset.toNat + buffers.flatten.length ≤ isizeMax) (hcount : count + buffers.flatten.length < 2 ^ 32) :
    ∃ g fs', writeBuffers memFs fd buffers count w = (.ok (count + buffers.flatten.length), swapped w fd path g fs') ∧ g.Ready ∧
      g.data = ByteFile.overlaid f.data f.offset.toNat buffers.flatten ∧ g.offset.toNat = f.offset.toNat + buffers.flatten.length ∧
      (f.SettledIn w.ns → g.SettledIn fs') := by
  induction buffers generalizing w f count with
  | nil =>
    refine ⟨f, w.ns, ?_, hready, ?_, rfl, id⟩
    · rw [swapped_self hfile]
      rfl
    · rw [List.flatten_nil, ByteFile.overlaid_inside hready.inside]
      simp
  | cons data buffers ih =>
    rw [List.flatten_cons, List.length_append] at hreach hcount
    have hlen := overlaid_length f.data f.offset.toNat data
    generalize hg : f.advanced data (w.ns.clock w.ns.ticks) = g
    have hdata : g.data = ByteFile.overlaid f.data f.offset.toNat data := by
      rw [← hg]
      rfl
    have hwritten : (f.written f.offset.toNat data (w.ns.clock w.ns.ticks)).Ready := hready.written (by omega) _
    have hroom : f.offset.toNat + data.length ≤ (f.written f.offset.toNat data (w.ns.clock w.ns.ticks)).data.length := by
      show _ ≤ (ByteFile.overlaid f.data f.offset.toNat data).length
      omega
    have hready' : g.Ready := by
      rw [← hg]
      exact hwritten.moved hroom
    have hoffset : g.offset.toNat = f.offset.toNat + data.length := by
      rw [← hg]
      exact hwritten.offset_moved hroom
    have hwrite : withFdMut fd (writeHere data) w = (.ok data.length, swapped w fd path g (w.ns.stored g)) := by
      apply withFdMut_ok hfile
      rw [writeHere_ok hready (by omega), hg]
    have hsettled : g.SettledIn (w.ns.stored g) := by
      rw [← hg]
      exact settledIn_stored rfl
    obtain ⟨h, fs', hrest, hready'', hdata', hoffset', hsettled'⟩ := ih (swapped_file g (w.ns.stored g)) hready'
      (show g.offset.toNat + buffers.flatten.length ≤ isizeMax by omega)
      (show count + data.length + buffers.flatten.length < 2 ^ 32 by omega)
    refine ⟨h, fs', ?_, hready'', ?_, ?_, fun _ => hsettled' hsettled⟩
    · have hstep : writeBuffers memFs fd (data :: buffers) count = withFdMut fd (writeHere data) >>= fun n =>
        writeBuffers memFs fd buffers (saturatingAddU32 count n) := rfl
      rw [hstep, bind_ok hwrite, saturatingAddU32_of_lt (by omega), hrest, swapped_swapped, List.flatten_cons, List.length_append, Nat.add_assoc]
    · rw [hdata', hdata, hoffset, List.flatten_cons, ByteFile.overlaid_overlaid]
    · rw [hoffset', hoffset, List.flatten_cons, List.length_append, Nat.add_assoc]

theorem readBuffers_cons (r : Nat × Nat) (regions : List (Nat × Nat)) (count : Nat) :
    readBuffers memFs fd ((r :: regions).map signed) count = (do
      let size ← allocate (r.2 : Int)
      let bytes ← filled size (← withFdMut fd (memFs.file.read size))
      writeBytes (r.1 : Int) bytes
      if bytes.length < size then pure (saturatingAddU32 count bytes.length)
      else readBuffers memFs fd (regions.map signed) (saturatingAddU32 count bytes.length)) := rfl

/-- One turn of the loop of a read. -/
theorem readBuffers_step (hfile : w.files[fd.toUInt32.toNat]? = some ⟨.node f, path⟩) (hready : f.Ready) {mem : Bytes} (hmemory : w.memory = some mem)
    {r : Nat × Nat} (hr : InGuest mem r) (regions : List (Nat × Nat)) {count : Nat} (hcount : count + r.2 < 2 ^ 32) :
    let bytes := (f.data.drop f.offset.toNat).take r.2
    readBuffers memFs fd ((r :: regions).map signed) count w =
      (if bytes.length < r.2 then pure (count + bytes.length) else readBuffers memFs fd (regions.map signed) (count + bytes.length))
        { swapped w fd path (f.moved (f.offset.toNat + bytes.length)) w.ns with memory := some (put mem r.1 bytes) } := by
  intro bytes
  have hlen : bytes.length ≤ r.2 := List.length_take_le _ _
  have hread : withFdMut fd (memFs.file.read r.2) w =
      (.ok bytes, swapped w fd path (f.moved (f.offset.toNat + bytes.length)) w.ns) := by
    apply withFdMut_ok hfile
    exact MemFile.dispatch_node (NodeFile.read_eq hready r.2 w.ns)
  have hwrite : (writeBytes (r.1 : Int) bytes : Prog (WasiCaller MemFs MemFile) Errno Unit)
      (swapped w fd path (f.moved (f.offset.toNat + bytes.length)) w.ns) =
      (.ok (), { swapped w fd path (f.moved (f.offset.toNat + bytes.length)) w.ns with memory := some (put mem r.1 bytes) }) := by
    have hfits : r.1 + r.2 ≤ mem.length := hr.1
    have hroom : (r.1 : Int) + bytes.length ≤ mem.length := by omega
    rw [@writeBytes_eq MemFs MemFile (swapped w fd path (f.moved (f.offset.toNat + bytes.length)) w.ns) mem hmemory r.1 bytes
      (Int.natCast_nonneg _) hroom, Int.toNat_natCast]
  rw [readBuffers_cons, bind_ok (allocate_eq r.2), bind_ok hread, bind_ok (filled_eq hlen), bind_ok hwrite, saturatingAddU32_of_lt (by omega)]

/-- The buffers are filled in order from the data behind the offset, which moves past it. -/
theorem readBuffers_ok (hfile : w.files[fd.toUInt32.toNat]? = some ⟨.node f, path⟩) (hready : f.Ready) {mem : Bytes} (hmemory : w.memory = some mem)
    {regions : List (Nat × Nat)} (hregions : ∀ r ∈ regions, InGuest mem r) {count : Nat} (hcount : count + total regions < 2 ^ 32) :
    let n := min (total regions) (f.data.length - f.offset.toNat)
    readBuffers memFs fd (regions.map signed) count w =
      (.ok (count + n), { swapped w fd path (f.moved (f.offset.toNat + n)) w.ns with
        memory := some (scatter mem regions (f.data.drop f.offset.toNat)) }) := by
  intro n
  induction regions generalizing w f mem count with
  | nil =>
    have hn : n = 0 := Nat.zero_min _
    rw [hn, Nat.add_zero, Nat.add_zero, NodeFile.moved_self, swapped_self hfile, scatter, ← hmemory]
    rfl
  | cons r regions ih =>
    rw [List.forall_mem_cons] at hregions
    rw [total_cons] at hcount
    have hinside := hready.inside
    have hn : n = min (r.2 + total regions) (f.data.length - f.offset.toNat) := by rw [← total_cons]
    have hlen : ((f.data.drop f.offset.toNat).take r.2).length = min r.2 (f.data.length - f.offset.toNat) := by
      rw [List.length_take, List.length_drop]
    have hfits : r.1 + ((f.data.drop f.offset.toNat).take r.2).length ≤ mem.length := put_take_fits hregions.1.1 _
    have hstep := readBuffers_step hfile hready hmemory hregions.1 regions (by omega : count + r.2 < 2 ^ 32)
    dsimp only at hstep
    rw [hstep, branch_apply, scatter]
    split
    case isTrue hshort =>
      -- the data is at its end: nothing is left for the other buffers
      have hend : (f.data.drop f.offset.toNat).drop r.2 = [] := List.drop_of_length_le (by rw [List.length_drop]; omega)
      have hall : ((f.data.drop f.offset.toNat).take r.2).length = n := by omega
      rw [hend, scatter_nil, hall]
      rfl
    case isFalse hfull =>
      have hsize : ((f.data.drop f.offset.toNat).take r.2).length = r.2 := by omega
      have hmoved : f.offset.toNat + r.2 ≤ f.data.length := by omega
      have hguest : ∀ s ∈ regions, InGuest (put mem r.1 ((f.data.drop f.offset.toNat).take r.2)) s := by
        intro s hs
        rw [InGuest, put_length hfits]
        exact hregions.2 s hs
      have hoffset : (f.moved (f.offset.toNat + r.2)).offset.toNat = f.offset.toNat + r.2 := hready.offset_moved hmoved
      have hdata : (f.moved (f.offset.toNat + r.2)).data = f.data := rfl
      have hrest := @ih { swapped w fd path (f.moved (f.offset.toNat + r.2)) w.ns with
          memory := some (put mem r.1 ((f.data.drop f.offset.toNat).take r.2)) }
        (f.moved (f.offset.toNat + r.2)) (swapped_file (f.moved (f.offset.toNat + r.2)) w.ns) (hready.moved hmoved) _ rfl hguest (count + r.2) (by omega)
      dsimp only at hrest
      rw [hoffset, hdata] at hrest
      have hsum : count + r.2 + min (total regions) (f.data.length - (f.offset.toNat + r.2)) = count + n := by omega
      have hend : f.offset.toNat + r.2 + min (total regions) (f.data.length - (f.offset.toNat + r.2)) = f.offset.toNat + n := by omega
      rw [hsize, hrest, hsum, hend, List.drop_drop]
      simp only [swapped, insert_twice]
      rfl

end

/-! ## The guest's view -/

/-- What a guest sees: its memory, and the file as a byte array with an offset. -/
structure GuestFile where
  memory : Bytes
  file : ByteFile

def GuestFile.regions (s : GuestFile) (ptr len : Int32) : List (Nat × Nat) := iovecs s.memory ptr.toInt.toNat len.toInt.toNat

/-- The offset moves to a place inside the array or at its end, and is put into the memory. -/
def GuestFile.seekTo (s : GuestFile) (newOffsetPtr : Int32) : Option SeekFrom → Outcome Errno Unit × GuestFile
  | none => (.err Errno.inval, s)
  | some pos =>
    if s.file.target pos < 0 ∨ s.file.data.length < s.file.target pos then (.err Errno.inval, s)
    else
      (.ok (),
        { memory := put s.memory newOffsetPtr.toInt.toNat (leBytes 8 (s.file.target pos).toNat)
          file := { s.file with offset := (s.file.target pos).toNat } })

inductive FileImport where
  | write (iovsPtr iovsLen nwrittenPtr : Int32)
  | read (iovsPtr iovsLen nreadPtr : Int32)
  | pwrite (iovsPtr iovsLen : Int32) (offset : Int64) (nwrittenPtr : Int32)
  | pread (iovsPtr iovsLen : Int32) (offset : Int64) (nreadPtr : Int32)
  | seek (offset : Int64) (whence newOffsetPtr : Int32)
  | tell (offsetPtr : Int32)
  | sync

namespace FileImport

def run (fd : Int32) : FileImport → Prog (WasiCaller MemFs MemFile) Errno Unit
  | .write iovsPtr iovsLen nwrittenPtr => fdWrite memFs fd iovsPtr iovsLen nwrittenPtr
  | .read iovsPtr iovsLen nreadPtr => fdRead memFs fd iovsPtr iovsLen nreadPtr
  | .pwrite iovsPtr iovsLen offset nwrittenPtr => fdPwrite memFs fd iovsPtr iovsLen offset nwrittenPtr
  | .pread iovsPtr iovsLen offset nreadPtr => fdPread memFs fd iovsPtr iovsLen offset nreadPtr
  | .seek offset whence newOffsetPtr => fdSeek memFs fd offset whence newOffsetPtr
  | .tell offsetPtr => fdTell memFs fd offsetPtr
  | .sync => syncTaskFd memFs fd

/-- The call on the byte array, with its result put into the memory. -/
def meaning : FileImport → GuestFile → Outcome Errno Unit × GuestFile
  | .write iovsPtr iovsLen nwrittenPtr, s =>
    let new := gather s.memory (s.regions iovsPtr iovsLen)
    (.ok (), { memory := put s.memory nwrittenPtr.toInt.toNat (leBytes 4 new.length), file := s.file.put s.file.offset new })
  | .read iovsPtr iovsLen nreadPtr, s =>
    let cells := s.file.bytesAt s.file.offset (total (s.regions iovsPtr iovsLen))
    (.ok (),
      { memory := put (scatter s.memory (s.regions iovsPtr iovsLen) cells) nreadPtr.toInt.toNat (leBytes 4 cells.length)
        file := { s.file with offset := s.file.offset + cells.length } })
  | .pwrite iovsPtr iovsLen offset nwrittenPtr, s =>
    if offset < 0 then (.err Errno.inval, s)
    else
      let new := gather s.memory (s.regions iovsPtr iovsLen)
      (.ok (),
        { memory := put s.memory nwrittenPtr.toInt.toNat (leBytes 4 new.length)
          file := if s.regions iovsPtr iovsLen = [] then s.file
            else { s.file with data := ByteFile.overlaid s.file.data offset.toInt.toNat new } })
  | .pread iovsPtr iovsLen offset nreadPtr, s =>
    if offset < 0 ∨ s.regions iovsPtr iovsLen ≠ [] ∧ s.file.data.length < offset.toInt.toNat then (.err Errno.inval, s)
    else
      let cells := s.file.bytesAt offset.toInt.toNat (total (s.regions iovsPtr iovsLen))
      (.ok (), { s with memory := put (scatter s.memory (s.regions iovsPtr iovsLen) cells) nreadPtr.toInt.toNat (leBytes 4 cells.length) })
  | .seek offset whence newOffsetPtr, s => s.seekTo newOffsetPtr (seekFrom offset whence)
  | .tell offsetPtr, s => (.ok (), { s with memory := put s.memory offsetPtr.toInt.toNat (leBytes 8 s.file.offset) })
  | .sync, s => (.ok (), s)

/-- The buffers and the word for the result are in the memory of the guest, and the array stays within
the largest allocation. -/
def Allowed : FileImport → GuestFile → Prop
  | .write iovsPtr iovsLen nwrittenPtr, s =>
    Layout s.memory iovsPtr iovsLen nwrittenPtr ∧ s.file.offset + total (s.regions iovsPtr iovsLen) ≤ isizeMax
  | .read iovsPtr iovsLen nreadPtr, s => Layout s.memory iovsPtr iovsLen nreadPtr
  | .pwrite iovsPtr iovsLen offset nwrittenPtr, s =>
    0 ≤ offset.toInt → Layout s.memory iovsPtr iovsLen nwrittenPtr ∧ offset.toInt.toNat + total (s.regions iovsPtr iovsLen) ≤ isizeMax
  | .pread iovsPtr iovsLen offset nreadPtr, s => 0 ≤ offset.toInt → Layout s.memory iovsPtr iovsLen nreadPtr
  | .seek _ _ newOffsetPtr, s => 0 ≤ newOffsetPtr.toInt ∧ InGuest s.memory (newOffsetPtr.toInt.toNat, 8)
  | .tell offsetPtr, s => 0 ≤ offsetPtr.toInt ∧ InGuest s.memory (offsetPtr.toInt.toNat, 8)
  | .sync, _ => True

end FileImport

/-- The guest and its open file stand for what it sees. While it is `alone` with the file, the node has
the data as well. -/
structure Mirrors (fd : Int32) (alone : Bool) (w : WasiCaller MemFs MemFile) (s : GuestFile) (f : NodeFile) (path : String) : Prop where
  memory : w.memory = some s.memory
  file : w.files[fd.toUInt32.toNat]? = some ⟨.node f, path⟩
  ready : f.Ready
  data : f.data = s.file.data
  offset : f.offset.toNat = s.file.offset
  settled : alone = true → f.SettledIn w.ns

section
variable {fd : Int32} {alone : Bool} {w : WasiCaller MemFs MemFile} {s : GuestFile} {f : NodeFile} {path : String}

/-- An import answers as the byte array does and leaves the two in step. -/
def InStep (fd : Int32) (alone : Bool) (path : String) (run : Outcome Errno Unit × WasiCaller MemFs MemFile)
    (meaning : Outcome Errno Unit × GuestFile) : Prop := run.1 = meaning.1 ∧ ∃ f, Mirrors fd alone run.2 meaning.2 f path

theorem Mirrors.write (h : Mirrors fd alone w s f path) {iovsPtr iovsLen nwrittenPtr : Int32}
    (hallowed : (FileImport.write iovsPtr iovsLen nwrittenPtr).Allowed s) :
    InStep fd alone path (fdWrite memFs fd iovsPtr iovsLen nwrittenPtr w) ((FileImport.write iovsPtr iovsLen nwrittenPtr).meaning s) := by
  obtain ⟨hlayout, hreach⟩ := hallowed
  have hlen : (gather s.memory (s.regions iovsPtr iovsLen)).length = total (s.regions iovsPtr iovsLen) :=
    gather_length fun r hr => (hlayout.buffers r hr).1
  have htotal : total (s.regions iovsPtr iovsLen) < 2 ^ 31 := total_lt hlayout
  have hflat := flatten_windows s.memory (s.regions iovsPtr iovsLen)
  have hroom : f.offset.toNat + (gather s.memory (s.regions iovsPtr iovsLen)).length ≤ isizeMax := by
    rw [h.offset, hlen]
    exact hreach
  obtain ⟨g, fs', hrun, hready, hdata, hoffset, hsettled⟩ := @writeBuffers_ok w fd f path h.file h.ready
    ((s.regions iovsPtr iovsLen).map fun r => window s.memory r.1 r.2) 0 (by rw [hflat]; exact hroom) (by rw [hflat]; omega)
  rw [hflat] at hrun hdata hoffset
  rw [Nat.zero_add] at hrun
  have himport : fdWrite memFs fd iovsPtr iovsLen nwrittenPtr w =
      (.ok (), { swapped w fd path g fs' with
        memory := some (put s.memory nwrittenPtr.toInt.toNat (leBytes 4 (gather s.memory (s.regions iovsPtr iovsLen)).length)) }) := by
    rw [fdWrite, bind_ok (readIovs_eq h.memory hlayout.toPlaced)]
    refine (bind_ok hrun).trans ?_
    exact @writeWord_eq MemFs MemFile (swapped w fd path g fs') s.memory s.memory h.memory _ _ hlayout.result rfl _
  rw [InStep, himport]
  refine ⟨rfl, g, rfl, swapped_file g fs', hready, ?_, ?_, fun halone => hsettled (h.settled halone)⟩
  · rw [hdata, h.offset, h.data]
    rfl
  · rw [hoffset, h.offset]
    rfl

theorem Mirrors.read (h : Mirrors fd alone w s f path) {iovsPtr iovsLen nreadPtr : Int32}
    (hallowed : (FileImport.read iovsPtr iovsLen nreadPtr).Allowed s) :
    InStep fd alone path (fdRead memFs fd iovsPtr iovsLen nreadPtr w) ((FileImport.read iovsPtr iovsLen nreadPtr).meaning s) := by
  have hlayout : Layout s.memory iovsPtr iovsLen nreadPtr := hallowed
  have hinside : ∀ r ∈ s.regions iovsPtr iovsLen, r.1 + r.2 ≤ s.memory.length := fun r hr => (hlayout.buffers r hr).1
  have htotal : total (s.regions iovsPtr iovsLen) < 2 ^ 31 := total_lt hlayout
  have hloop := @readBuffers_ok w fd f path h.file h.ready s.memory h.memory (s.regions iovsPtr iovsLen) hlayout.buffers 0 (by omega)
  dsimp only at hloop
  generalize hcells : s.file.bytesAt s.file.offset (total (s.regions iovsPtr iovsLen)) = cells
  have hbytes : (f.data.drop f.offset.toNat).take (total (s.regions iovsPtr iovsLen)) = cells := by
    rw [← hcells, h.data, h.offset]
    rfl
  have hcount : min (total (s.regions iovsPtr iovsLen)) (f.data.length - f.offset.toNat) = cells.length := by
    rw [← hbytes, List.length_take, List.length_drop]
  rw [hcount, ← scatter_take, hbytes, Nat.zero_add] at hloop
  have himport : fdRead memFs fd iovsPtr iovsLen nreadPtr w =
      (.ok (), { swapped w fd path (f.moved (f.offset.toNat + cells.length)) w.ns with
        memory := some (put (scatter s.memory (s.regions iovsPtr iovsLen) cells) nreadPtr.toInt.toNat (leBytes 4 cells.length)) }) := by
    rw [fdRead, bind_ok (readIovDescriptors_eq h.memory hlayout.toPlaced)]
    refine (bind_ok hloop).trans ?_
    exact writeWord_eq rfl hlayout.result (scatter_length hinside cells) _
  have hmoved : f.offset.toNat + cells.length ≤ f.data.length := by
    have hin := h.ready.inside
    omega
  rw [InStep, himport]
  refine ⟨rfl, f.moved (f.offset.toNat + cells.length), ?_, swapped_file _ w.ns, h.ready.moved hmoved, h.data, ?_, h.settled⟩
  · rw [FileImport.meaning, hcells]
  · rw [h.ready.offset_moved hmoved, h.offset, FileImport.meaning, hcells]

theorem Mirrors.pwrite (h : Mirrors fd alone w s f path) {iovsPtr iovsLen nwrittenPtr : Int32} {offset : Int64}
    (hallowed : (FileImport.pwrite iovsPtr iovsLen offset nwrittenPtr).Allowed s) :
    InStep fd alone path (fdPwrite memFs fd iovsPtr iovsLen offset nwrittenPtr w)
      ((FileImport.pwrite iovsPtr iovsLen offset nwrittenPtr).meaning s) := by
  by_cases hneg : offset < 0
  · rw [fdPwrite, if_pos hneg, FileImport.meaning, if_pos hneg]
    exact ⟨rfl, f, h⟩
  have hlow : 0 ≤ offset.toInt := toInt_nonneg hneg
  obtain ⟨hlayout, hreach⟩ := hallowed hlow
  have hlen : (gather s.memory (s.regions iovsPtr iovsLen)).length = total (s.regions iovsPtr iovsLen) :=
    gather_length fun r hr => (hlayout.buffers r hr).1
  rw [FileImport.meaning, if_neg hneg]
  dsimp only
  by_cases hempty : s.regions iovsPtr iovsLen = []
  · -- without a buffer only the word for the result is written
    have hnone : iovecs s.memory iovsPtr.toInt.toNat iovsLen.toInt.toNat = [] := hempty
    have hgather : gather s.memory (s.regions iovsPtr iovsLen) = [] := by rw [hempty]; rfl
    have hread := readIovs_eq (w := w) h.memory hlayout.toPlaced
    rw [hnone, List.map_nil] at hread
    have himport : fdPwrite memFs fd iovsPtr iovsLen offset nwrittenPtr w =
        (.ok (), { w with memory := some (put s.memory nwrittenPtr.toInt.toNat (leBytes 4 0)) }) := by
      rw [fdPwrite, if_neg hneg, bind_ok hread]
      exact writeWord_eq h.memory hlayout.result rfl 0
    rw [InStep, himport, if_pos hempty, hgather]
    exact ⟨rfl, f, rfl, h.file, h.ready, h.data, h.offset, h.settled⟩
  · obtain ⟨g, fs', hrun, hdata, hoffset, hready, -, hsettled, -⟩ :=
      @fdPwrite_run w fd f path s.memory iovsPtr iovsLen nwrittenPtr offset h.file h.ready h.memory hlayout.toPlaced hlow
        (fun hnone => absurd hnone hempty) hreach
    have hcount : min (total (s.regions iovsPtr iovsLen)) (2 ^ 32 - 1) = total (s.regions iovsPtr iovsLen) := by
      have htotal : total (s.regions iovsPtr iovsLen) < 2 ^ 31 := total_lt hlayout
      omega
    change min (total (iovecs s.memory iovsPtr.toInt.toNat iovsLen.toInt.toNat)) (2 ^ 32 - 1) = _ at hcount
    rw [InStep, hrun, if_neg hempty, hlen, hcount]
    refine ⟨rfl, g, rfl, swapped_file g fs', hready, ?_, ?_, fun halone => hsettled (h.settled halone)⟩
    · rw [hdata, h.data]
      rfl
    · rw [hoffset, h.offset]

theorem Mirrors.pread (h : Mirrors fd alone w s f path) {iovsPtr iovsLen nreadPtr : Int32} {offset : Int64}
    (hallowed : (FileImport.pread iovsPtr iovsLen offset nreadPtr).Allowed s) :
    InStep fd alone path (fdPread memFs fd iovsPtr iovsLen offset nreadPtr w)
      ((FileImport.pread iovsPtr iovsLen offset nreadPtr).meaning s) := by
  have hlen : f.data.length = s.file.data.length := by rw [h.data]
  rw [FileImport.meaning]
  by_cases hneg : offset < 0
  · rw [fdPread, if_pos hneg, if_pos (Or.inl hneg)]
    exact ⟨rfl, f, h⟩
  have hlayout := hallowed (toInt_nonneg hneg)
  by_cases hpast : s.regions iovsPtr iovsLen ≠ [] ∧ s.file.data.length < offset.toInt.toNat
  · rw [fdPread_past h.file h.ready h.memory hlayout hneg hpast.1 (by rw [hlen]; exact hpast.2), if_pos (Or.inr hpast)]
    exact ⟨rfl, f, h⟩
  · rw [if_neg (not_or.mpr ⟨hneg, hpast⟩)]
    have hinside : s.regions iovsPtr iovsLen ≠ [] → offset.toInt.toNat ≤ f.data.length := by
      intro hne
      have hle : ¬ s.file.data.length < offset.toInt.toNat := fun hlt => hpast ⟨hne, hlt⟩
      omega
    have himport := @fdPread_run w fd f path s.memory iovsPtr iovsLen nreadPtr offset h.file h.ready h.memory hlayout hneg hinside
    dsimp only at himport
    rw [h.data] at himport
    rw [InStep, himport]
    exact ⟨rfl, f, rfl, h.file, h.ready, h.data, h.offset, h.settled⟩

theorem Mirrors.seek (h : Mirrors fd alone w s f path) {offset : Int64} {whence newOffsetPtr : Int32}
    (hallowed : (FileImport.seek offset whence newOffsetPtr).Allowed s) :
    InStep fd alone path (fdSeek memFs fd offset whence newOffsetPtr w) ((FileImport.seek offset whence newOffsetPtr).meaning s) := by
  rw [fdSeek, FileImport.meaning]
  cases seekFrom offset whence with
  | none => exact ⟨rfl, f, h⟩
  | some pos =>
    have htarget : NodeFile.seek pos (f, w.ns) =
        if s.file.target pos < 0 ∨ s.file.data.length < s.file.target pos then (.err (.path "seek" f.metadata.name .invalid), f, w.ns)
        else (.ok (UInt64.ofNat (s.file.target pos).toNat), f.moved (s.file.target pos).toNat, w.ns) := by
      unfold NodeFile.seek
      cases pos with
      | start pos => simp only [ByteFile.target, h.data, NodeFile.moved]
      | fromEnd off => simp only [ByteFile.target, h.data, NodeFile.moved]
      | current off => simp only [ByteFile.target, h.data, h.offset, NodeFile.moved]
    have hjust : (ofOption Errno.inval (some pos) : Prog (WasiCaller MemFs MemFile) Errno SeekFrom) w = (.ok pos, w) := rfl
    rw [bind_ok hjust, GuestFile.seekTo]
    split
    case isTrue hbad =>
      rw [if_pos hbad] at htarget
      have hseek : withFdMut fd (memFs.file.seek pos) w = (.err Errno.inval, w) := withFdMut_invalid h.file (MemFile.dispatch_node htarget)
      rw [bind_err hseek]
      exact ⟨rfl, f, h⟩
    case isFalse hgood =>
      rw [if_neg hgood] at htarget
      have hmoved : (s.file.target pos).toNat ≤ f.data.length := by
        rw [h.data]
        omega
      have hseek : withFdMut fd (memFs.file.seek pos) w =
          (.ok (UInt64.ofNat (s.file.target pos).toNat), swapped w fd path (f.moved (s.file.target pos).toNat) w.ns) :=
        withFdMut_ok h.file (MemFile.dispatch_node htarget)
      have hnat := toNat_ofNat_of_le (hmoved.trans h.ready.bounded)
      have hword := @writeWord_eq MemFs MemFile (swapped w fd path (f.moved (s.file.target pos).toNat) w.ns) s.memory s.memory h.memory newOffsetPtr 8
        hallowed rfl (s.file.target pos).toNat
      rw [InStep, bind_ok hseek, hnat, writeU64, hword]
      exact ⟨rfl, f.moved (s.file.target pos).toNat, rfl, swapped_file _ w.ns, h.ready.moved hmoved, h.data, h.ready.offset_moved hmoved,
        h.settled⟩

theorem Mirrors.tell (h : Mirrors fd alone w s f path) {offsetPtr : Int32} (hallowed : (FileImport.tell offsetPtr).Allowed s) :
    InStep fd alone path (fdTell memFs fd offsetPtr w) ((FileImport.tell offsetPtr).meaning s) := by
  have hseek : withFdMut fd (memFs.file.seek (.current 0)) w = (.ok f.offset, w) :=
    withFdMut_same h.file (MemFile.dispatch_node (NodeFile.seek_here h.ready w.ns))
  have hword := writeWord_eq h.memory hallowed rfl f.offset.toNat
  rw [fdTell, InStep, bind_ok hseek, writeU64, hword, h.offset]
  exact ⟨rfl, f, rfl, h.file, h.ready, h.data, h.offset, h.settled⟩

theorem Mirrors.sync (h : Mirrors fd alone w s f path) : InStep fd alone path (syncTaskFd memFs fd w) (FileImport.sync.meaning s) := by
  have hnode : memFs.file.sync (.node f, w.ns) =
    ((NodeFile.sync (f, w.ns)).1, .node (NodeFile.sync (f, w.ns)).2.1, (NodeFile.sync (f, w.ns)).2.2) := rfl
  unfold NodeFile.sync at hnode
  dsimp only at hnode
  by_cases hdirty : f.dirty = true
  · rw [if_pos hdirty] at hnode
    have hsync : memFs.file.syncIgnoringUnsupported (.node f, w.ns) = (.ok (), .node { f with dirty := false }, w.ns.setData f.node f.data) := by
      rw [FileHandle.syncIgnoringUnsupported, bind_ok (attempt_ok hnode)]
      rfl
    rw [syncTaskFd, withFdMut_ok h.file hsync]
    refine ⟨rfl, { f with dirty := false }, h.memory, swapped_file _ _, ⟨h.ready.closed, h.ready.plain, h.ready.inside, h.ready.bounded⟩, h.data,
      h.offset, fun halone => ?_⟩
    exact absurd hdirty (ne_true_of_eq_false (h.settled halone).1)
  · rw [if_neg hdirty] at hnode
    have hsync : memFs.file.syncIgnoringUnsupported (.node f, w.ns) = (.ok (), .node f, w.ns) := by
      rw [FileHandle.syncIgnoringUnsupported, bind_ok (attempt_ok hnode)]
      rfl
    rw [syncTaskFd, withFdMut_same h.file hsync]
    exact ⟨rfl, f, h⟩

/-- Every import is in step with the byte array. -/
theorem Mirrors.import (h : Mirrors fd alone w s f path) (c : FileImport) (hallowed : c.Allowed s) :
    InStep fd alone path (c.run fd w) (c.meaning s) := by
  cases c with
  | write iovsPtr iovsLen nwrittenPtr => exact h.write hallowed
  | read iovsPtr iovsLen nreadPtr => exact h.read hallowed
  | pwrite iovsPtr iovsLen offset nwrittenPtr => exact h.pwrite hallowed
  | pread iovsPtr iovsLen offset nreadPtr => exact h.pread hallowed
  | seek offset whence newOffsetPtr => exact h.seek hallowed
  | tell offsetPtr => exact h.tell hallowed
  | sync => exact h.sync

end

/-! ## Runs -/

/-- A change that leaves the descriptor and the memory of the guest: what other descriptors and other
tasks do. -/
structure Elsewhere (fd : Int32) where
  change : WasiCaller MemFs MemFile → WasiCaller MemFs MemFile
  file : ∀ w, (change w).files[fd.toUInt32.toNat]? = w.files[fd.toUInt32.toNat]?
  memory : ∀ w, (change w).memory = w.memory

inductive GuestEvent (fd : Int32) where
  | call (c : FileImport)
  | store (g : Bytes → Bytes)
  | elsewhere (e : Elsewhere fd)

namespace GuestEvent
variable {fd : Int32}

def own : GuestEvent fd → Bool
  | .elsewhere _ => false
  | _ => true

def run : List (GuestEvent fd) → WasiCaller MemFs MemFile → List (Outcome Errno Unit) × WasiCaller MemFs MemFile
  | [], w => ([], w)
  | .call c :: events, w => ((c.run fd w).1 :: (run events (c.run fd w).2).1, (run events (c.run fd w).2).2)
  | .store g :: events, w => run events { w with memory := w.memory.map g }
  | .elsewhere e :: events, w => run events (e.change w)

def meaning : List (GuestEvent fd) → GuestFile → List (Outcome Errno Unit) × GuestFile
  | [], s => ([], s)
  | .call c :: events, s => ((c.meaning s).1 :: (meaning events (c.meaning s).2).1, (meaning events (c.meaning s).2).2)
  | .store g :: events, s => meaning events { s with memory := g s.memory }
  | .elsewhere _ :: events, s => meaning events s

def Allowed : List (GuestEvent fd) → GuestFile → Prop
  | [], _ => True
  | .call c :: events, s => c.Allowed s ∧ Allowed events (c.meaning s).2
  | .store g :: events, s => Allowed events { s with memory := g s.memory }
  | .elsewhere _ :: events, s => Allowed events s

end GuestEvent

theorem Mirrors.run {fd : Int32} {alone : Bool} {w : WasiCaller MemFs MemFile} {s : GuestFile} {f : NodeFile} {path : String}
    (h : Mirrors fd alone w s f path) (events : List (GuestEvent fd)) (hallowed : GuestEvent.Allowed events s) :
    (GuestEvent.run events w).1 = (GuestEvent.meaning events s).1 ∧
      ∃ g, Mirrors fd (alone && events.all GuestEvent.own) (GuestEvent.run events w).2 (GuestEvent.meaning events s).2 g path := by
  induction events generalizing alone w s f with
  | nil =>
    rw [List.all_nil, Bool.and_true]
    exact ⟨rfl, f, h⟩
  | cons event events ih =>
    cases event with
    | call c =>
      obtain ⟨hcall, hrest⟩ := hallowed
      obtain ⟨hanswer, g, hg⟩ := h.import c hcall
      obtain ⟨hanswers, hlast⟩ := ih hg hrest
      refine ⟨?_, hlast⟩
      rw [GuestEvent.run, GuestEvent.meaning, hanswer, hanswers]
    | store g =>
      have hstored : Mirrors fd alone { w with memory := w.memory.map g } { s with memory := g s.memory } f path := by
        refine ⟨?_, h.file, h.ready, h.data, h.offset, h.settled⟩
        rw [h.memory]
        rfl
      exact ih hstored hallowed
    | elsewhere e =>
      have hchanged : Mirrors fd false (e.change w) s f path :=
        ⟨(e.memory w).trans h.memory, (e.file w).trans h.file, h.ready, h.data, h.offset, fun halone => absurd halone Bool.false_ne_true⟩
      obtain ⟨hanswers, g, hg⟩ := ih hchanged hallowed
      refine ⟨hanswers, g, ?_⟩
      rw [List.all_cons, GuestEvent.own, Bool.false_and, Bool.and_false]
      exact hg

/-- Whatever a guest does with an open file and with its memory, and whatever happens elsewhere, the
imports answer as the byte array does and the memory of the guest is what it would be with the byte
array. If nothing happens elsewhere, the node has the data at the end. -/
theorem guest_sees_byteFile {fd : Int32} {w : WasiCaller MemFs MemFile} {f : NodeFile} {path : String} {mem : Bytes}
    (hfile : w.files[fd.toUInt32.toNat]? = some ⟨.node f, path⟩) (hready : f.Ready) (hmemory : w.memory = some mem)
    (events : List (GuestEvent fd)) (hallowed : GuestEvent.Allowed events ⟨mem, ⟨f.data, f.offset.toNat⟩⟩) :
    let seen := GuestEvent.meaning events ⟨mem, ⟨f.data, f.offset.toNat⟩⟩
    (GuestEvent.run events w).1 = seen.1 ∧ (GuestEvent.run events w).2.memory = some seen.2.memory ∧
      ∃ g, (GuestEvent.run events w).2.files[fd.toUInt32.toNat]? = some ⟨.node g, path⟩ ∧ g.data = seen.2.file.data ∧
        g.offset.toNat = seen.2.file.offset ∧
        (f.SettledIn w.ns → events.all GuestEvent.own = true → ((GuestEvent.run events w).2.ns.heap g.node).data = g.data) := by
  intro seen
  -- the node is followed only when it has the data at the start
  by_cases hsettled : f.SettledIn w.ns
  · have hstart : Mirrors fd true w ⟨mem, ⟨f.data, f.offset.toNat⟩⟩ f path := ⟨hmemory, hfile, hready, rfl, rfl, fun _ => hsettled⟩
    obtain ⟨hanswers, g, hg⟩ := hstart.run events hallowed
    exact ⟨hanswers, hg.memory, g, hg.file, hg.data, hg.offset, fun _ hown => (hg.settled hown).2⟩
  · have hstart : Mirrors fd false w ⟨mem, ⟨f.data, f.offset.toNat⟩⟩ f path :=
      ⟨hmemory, hfile, hready, rfl, rfl, fun h => absurd h Bool.false_ne_true⟩
    obtain ⟨hanswers, g, hg⟩ := hstart.run events hallowed
    exact ⟨hanswers, hg.memory, g, hg.file, hg.data, hg.offset, fun h => absurd h hsettled⟩

/-- A file of another task takes the place of the node between a write and a read. -/
def ioEvents : List (GuestEvent 3) :=
  [.call (.pwrite 0 2 1 20), .elsewhere ⟨fun w => { w with ns := MemFs.new fun _ => 0 }, fun _ => rfl, fun _ => rfl⟩, .call (.seek 2 0 16)]

theorem ioEvents_allowed : GuestEvent.Allowed ioEvents ⟨ioMemory, ⟨fileHandle.data, fileHandle.offset.toNat⟩⟩ := by
  refine ⟨fun _ => ⟨ioMemory_layout, by decide⟩, ⟨by decide, ?_⟩, trivial⟩
  exact ⟨by decide, by decide⟩

theorem guest_sees_byteFile_ioGuest :
    let seen := GuestEvent.meaning ioEvents ⟨ioMemory, ⟨[1, 2], 0⟩⟩
    (GuestEvent.run ioEvents ioGuest).1 = seen.1 ∧ (GuestEvent.run ioEvents ioGuest).2.memory = some seen.2.memory ∧
      ∃ g, (GuestEvent.run ioEvents ioGuest).2.files[3]? = some ⟨.node g, "f"⟩ ∧ g.data = seen.2.file.data ∧
        g.offset.toNat = seen.2.file.offset ∧
        (fileHandle.SettledIn fileWorld → ioEvents.all GuestEvent.own = true →
          ((GuestEvent.run ioEvents ioGuest).2.ns.heap g.node).data = g.data) :=
  @guest_sees_byteFile 3 ioGuest fileHandle "f" ioMemory (by rfl) fileHandle_ready rfl ioEvents ioEvents_allowed

/-- The guest reads the new offset behind its array of buffers. -/
example : (GuestEvent.meaning ioEvents ⟨ioMemory, ⟨[1, 2], 0⟩⟩).2 =
    ⟨leBytes 4 16 ++ leBytes 4 1 ++ leBytes 4 17 ++ leBytes 4 2 ++ leBytes 8 2, ⟨[1, 7, 8, 9], 2⟩⟩ := by rfl

end Wasi
end Star9
