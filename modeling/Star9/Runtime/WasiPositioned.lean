import Star9.Base.Map
import Star9.Fs.ByteFile
import Star9.Runtime.WasiMemory

/-!
# Positioned reads and writes of a guest

`fd_pwrite` and `fd_pread` go through the buffers of a guest one at a time, each with a call on the
handle at a position of its own and with the offset of the handle put back. Together the calls are
one call for all buffers.
-/
namespace Star9
open Base Prog Memory

/-! ## One handle -/

/-- A handle on a file as opening it and calls on it leave it. -/
structure NodeFile.Ready (f : NodeFile) : Prop where
  closed : f.closed = false
  plain : f.metadata.mode.isDir = false
  inside : f.offset.toNat ≤ f.data.length
  bounded : f.data.length ≤ isizeMax

theorem Stands.ready {id : NodeId} {wrote : Bool} {s : NodeFile × MemFs} {file : ByteFile} (h : Stands id wrote s file) : s.1.Ready where
  closed := h.closed
  plain := h.plain
  inside := by
    rw [h.offset, h.data]
    exact h.inside
  bounded := by
    rw [h.data]
    exact h.bounded

/-- Every handle that was opened on a file is ready, and so it is after any calls that do not panic. -/
theorem ready_runCalls {fs fs' : MemFs} {id : NodeId} {f : NodeFile} (hopen : MemFs.openNode id fs = (.ok (.node f), fs'))
    (hplain : f.metadata.mode.isDir = false) (hsize : f.data.length ≤ isizeMax) (cs : List HandleCall)
    (hwithin : ByteFile.Within isizeMax cs { data := f.data, offset := 0 }) : (NodeFile.runCalls cs (f, fs')).2.1.Ready :=
  ((stands_opened hopen hplain hsize).run cs hwithin).2.ready

namespace ByteFile

theorem overlaid_inside {data : Bytes} {pos : Nat} (h : pos ≤ data.length) (new : Bytes) :
    overlaid data pos new = data.take pos ++ new ++ data.drop (pos + new.length) := by
  rw [overlaid, Nat.sub_eq_zero_of_le h, List.replicate_zero, List.append_nil]

/-- Two writes side by side are one. -/
theorem overlaid_overlaid (data : Bytes) (pos : Nat) (a b : Bytes) :
    overlaid (overlaid data pos a) (pos + a.length) b = overlaid data pos (a ++ b) := by
  have hgrown := overlaid_length data pos a
  have hfront : (data.take pos ++ List.replicate (pos - data.length) 0 ++ a).length = pos + a.length := by
    rw [List.length_append, List.length_append, List.length_take, List.length_replicate]
    omega
  have htake : (overlaid data pos a).take (pos + a.length) = data.take pos ++ List.replicate (pos - data.length) 0 ++ a := by
    rw [overlaid, ← hfront, List.take_left']
    rfl
  have hdrop : (overlaid data pos a).drop (pos + a.length + b.length) = data.drop (pos + a.length + b.length) := by
    rw [overlaid, ← List.drop_drop, ← hfront, List.drop_left, List.drop_drop, hfront]
  rw [overlaid_inside (by omega), htake, hdrop, overlaid, List.length_append, Nat.add_assoc]
  simp only [List.append_assoc]

end ByteFile

namespace NodeFile
variable {f : NodeFile}

/-- The handle behind a synced write at a position. -/
def written (f : NodeFile) (pos : Nat) (new : Bytes) (now : SystemTime) : NodeFile :=
  { f with
    data := ByteFile.overlaid f.data pos new
    metadata := { f.metadata with size := (ByteFile.overlaid f.data pos new).length, modified := now }
    dirty := false }

theorem Ready.written (h : f.Ready) {pos : Nat} {new : Bytes} (hreach : pos + new.length ≤ isizeMax) (now : SystemTime) :
    (f.written pos new now).Ready where
  closed := h.closed
  plain := h.plain
  inside := by
    have hinside := h.inside
    have hlen := overlaid_length f.data pos new
    show f.offset.toNat ≤ (ByteFile.overlaid f.data pos new).length
    omega
  bounded := by
    have hbounded := h.bounded
    have hlen := overlaid_length f.data pos new
    show (ByteFile.overlaid f.data pos new).length ≤ isizeMax
    omega

theorem seek_here (h : f.Ready) (fs : MemFs) : NodeFile.seek (.current 0) (f, fs) = (.ok f.offset, f, fs) := by
  have hinside := h.inside
  simp only [NodeFile.seek, Int.add_zero, Int.toNat_natCast, UInt64.ofNat_toNat]
  rw [if_neg (by omega)]

theorem seek_start {pos : UInt64} (h : pos.toNat ≤ f.data.length) (fs : MemFs) :
    NodeFile.seek (.start pos) (f, fs) = (.ok pos, { f with offset := pos }, fs) := by
  simp only [NodeFile.seek, Int.toNat_natCast, UInt64.ofNat_toNat]
  rw [if_neg (by omega)]

end NodeFile

namespace MemFile
variable {α : Type} {f g : NodeFile} {fs fs' : MemFs} {op : Prog (MemFile × MemFs) Error α}

/-- The side of `dispatch` for a file. -/
theorem dispatch_node {pn : Prog (NodeFile × MemFs) Error α} {r : Outcome Error α} (h : pn (f, fs) = (r, g, fs')) :
    ((pn (f, fs)).1, node (pn (f, fs)).2.1, (pn (f, fs)).2.2) = (r, node g, fs') := by
  rw [h]

theorem withPreservedOffset_ok (h : f.Ready) {a : α} (hop : op (.node f, fs) = (.ok a, .node g, fs')) (hgrown : f.data.length ≤ g.data.length) :
    handle.withPreservedOffset op (.node f, fs) = (.ok a, .node { g with offset := f.offset }, fs') := by
  have hhere : handle.seek (.current 0) (.node f, fs) = (.ok f.offset, .node f, fs) := dispatch_node (NodeFile.seek_here h fs)
  have hback : handle.seek (.start f.offset) (.node g, fs') = (.ok f.offset, .node { g with offset := f.offset }, fs') :=
    dispatch_node (NodeFile.seek_start (h.inside.trans hgrown) fs')
  rw [FileHandle.withPreservedOffset, bind_ok (attempt_ok hhere), bind_ok (attempt_ok hop)]
  dsimp only
  rw [bind_ok (attempt_ok hback)]
  rfl

theorem withPreservedOffset_abort (h : f.Ready) (hop : (op (.node f, fs)).1 = .abort) :
    (handle.withPreservedOffset op (.node f, fs)).1 = .abort := by
  have hhere : handle.seek (.current 0) (.node f, fs) = (.ok f.offset, .node f, fs) := dispatch_node (NodeFile.seek_here h fs)
  rw [FileHandle.withPreservedOffset, bind_ok (attempt_ok hhere)]
  rcases hrun : op (.node f, fs) with ⟨a | e | _, s⟩ <;> rw [hrun] at hop
  · cases hop
  · cases hop
  · rw [bind_abort (attempt_abort hrun)]

end MemFile

/-- A write past the largest allocation panics. -/
theorem NodeFile.writeAt_abort {f : NodeFile} (h : f.Ready) {new : Bytes} {pos : UInt64}
    (hreach : ¬ pos.toNat + new.length ≤ isizeMax) (fs : MemFs) : (NodeFile.writeAt new pos (f, fs)).1 = .abort := by
  have hbounded := h.bounded
  have hclosed : f.closed = false := h.closed
  have hplain : f.metadata.mode.isDir = false := h.plain
  have hend : isizeMax < min (pos.toNat + new.length) (2 ^ 64 - 1) := by
    have hmax : isizeMax < 2 ^ 64 - 1 := by decide
    omega
  have hfails : ∀ data : Bytes, data.length ≤ isizeMax → resizeFails data (min (pos.toNat + new.length) (2 ^ 64 - 1)) = true := by
    intro data hdata
    rw [resizeFails, Bool.and_eq_true, decide_eq_true_eq, decide_eq_true_eq]
    exact ⟨by omega, hend⟩
  simp only [NodeFile.writeAt, NodeFile.write, hclosed, hplain, Bool.false_eq_true, if_false]
  by_cases hstart : resizeFails f.data pos.toNat = true
  · rw [if_pos hstart]
  · -- the gap before the write fits, so the data stays within the largest allocation
    have hgrown : (if f.data.length < pos.toNat then resize f.data pos.toNat else f.data).length ≤ isizeMax := by
      rw [resizeFails, Bool.and_eq_true, decide_eq_true_eq, decide_eq_true_eq] at hstart
      split
      · rw [resize_length]
        omega
      · exact hbounded
    rw [if_neg hstart, if_pos (hfails _ hgrown)]

/-- The data of a handle is stored in its node, after the write took its own time. -/
def MemFs.stored (fs : MemFs) (f : NodeFile) : MemFs := { fs with ticks := fs.ticks + 1 }.setData f.node f.data

/-- The node of the handle has its data, and nothing else is to be stored. -/
def NodeFile.SettledIn (f : NodeFile) (fs : MemFs) : Prop := f.dirty = false ∧ (fs.heap f.node).data = f.data

theorem settledIn_stored {f : NodeFile} (hclean : f.dirty = false) {fs : MemFs} : f.SettledIn (fs.stored f) := by
  refine ⟨hclean, ?_⟩
  unfold MemFs.stored MemFs.setData MemFs.updateNode
  dsimp only
  rw [Function.update_self]
  rfl

namespace WasiCaller
variable {σ η α : Type} {w : WasiCaller σ η} {fd : Int32} {file : OpenFile η} {p : Prog (η × σ) Error α}

theorem withFdMut_ok (hfile : w.files[fd.toUInt32.toNat]? = some file) {a : α} {handle : η} {ns : σ} (hp : p (file.file, w.ns) = (.ok a, handle, ns)) :
    withFdMut fd p w = (.ok a, { w with ns, files := w.files.insert fd.toUInt32.toNat { file with file := handle } }) := by
  unfold withFdMut
  rw [hfile]
  dsimp only
  rw [hp]

theorem withFdMut_abort (hfile : w.files[fd.toUInt32.toNat]? = some file) (hp : (p (file.file, w.ns)).1 = .abort) :
    (withFdMut fd p w).1 = .abort := by
  unfold withFdMut
  rw [hfile]
  dsimp only
  rcases hrun : p (file.file, w.ns) with ⟨a | e | _, s⟩ <;> rw [hrun] at hp
  · cases hp
  · cases hp

end WasiCaller

namespace Wasi
open WasiCaller

/-! ## One buffer -/

/-- What `fd_pwrite` runs on the handle for one buffer. -/
def writeSynced (new : Bytes) (pos : UInt64) : Prog (MemFile × MemFs) Error Nat :=
  memFs.file.withPreservedOffset do
    let n ← memFs.file.writeAt new pos
    memFs.file.syncIgnoringUnsupported
    pure n

theorem writeSynced_ok {f : NodeFile} (h : f.Ready) {new : Bytes} {pos : UInt64} (hreach : pos.toNat + new.length ≤ isizeMax) (fs : MemFs) :
    writeSynced new pos (.node f, fs) =
      (.ok new.length, .node (f.written pos.toNat new (fs.clock fs.ticks)), MemFs.stored fs (f.written pos.toNat new (fs.clock fs.ticks))) := by
  have hwrite := NodeFile.write_eq (f := { f with offset := pos }) h.closed h.plain hreach fs
  have hlen := overlaid_length f.data pos.toNat new
  generalize hg : ({ f with offset := UInt64.ofNat (pos.toNat + new.length)
                            data := ByteFile.overlaid f.data pos.toNat new
                            metadata :=
                              { f.metadata with size := (ByteFile.overlaid f.data pos.toNat new).length, modified := fs.clock fs.ticks }
                            dirty := true } : NodeFile) = g at hwrite
  have hat : memFs.file.writeAt new pos (.node f, fs) = (.ok new.length, .node g, { fs with ticks := fs.ticks + 1 }) :=
    MemFile.dispatch_node hwrite
  have hsync : memFs.file.sync (.node g, { fs with ticks := fs.ticks + 1 }) =
      (.ok (), .node { g with dirty := false }, MemFs.stored fs (f.written pos.toNat new (fs.clock fs.ticks))) := by
    subst hg
    rfl
  have hop : (do
      let n ← memFs.file.writeAt new pos
      memFs.file.syncIgnoringUnsupported
      pure n : Prog (MemFile × MemFs) Error Nat) (.node f, fs) =
      (.ok new.length, .node { g with dirty := false }, MemFs.stored fs (f.written pos.toNat new (fs.clock fs.ticks))) := by
    rw [bind_ok hat, FileHandle.syncIgnoringUnsupported, bind_assoc, bind_ok (attempt_ok hsync)]
    rfl
  have hrun := MemFile.withPreservedOffset_ok h hop (by rw [← hg]; dsimp only; omega)
  rw [writeSynced]
  refine hrun.trans ?_
  subst hg
  rfl

theorem writeSynced_abort {f : NodeFile} (h : f.Ready) {new : Bytes} {pos : UInt64}
    (hreach : ¬ pos.toNat + new.length ≤ isizeMax) (fs : MemFs) : (writeSynced new pos (.node f, fs)).1 = .abort := by
  apply MemFile.withPreservedOffset_abort h
  have hat : (memFs.file.writeAt new pos (.node f, fs)).1 = .abort := NodeFile.writeAt_abort h hreach fs
  rcases hrun : memFs.file.writeAt new pos (.node f, fs) with ⟨a | e | _, s⟩ <;> rw [hrun] at hat
  · cases hat
  · cases hat
  · rw [bind_abort hrun]

/-! ## All buffers of a write -/

/-- The handle and its file system behind a write of `new` at `pos` that was synced. -/
structure WroteAt (f : NodeFile) (fs : MemFs) (pos : Nat) (new : Bytes) (g : NodeFile) (fs' : MemFs) : Prop where
  handle : ∃ now, g = f.written pos new now
  stored : ∃ now, fs'.heap = Function.update fs.heap f.node (NodeInner.setData g.data now (fs.heap f.node))
  names : fs'.nodes = fs.nodes

theorem wroteAt_stored (f : NodeFile) (fs : MemFs) (pos : Nat) (new : Bytes) (now : SystemTime) :
    WroteAt f fs pos new (f.written pos new now) (fs.stored (f.written pos new now)) where
  handle := ⟨now, rfl⟩
  stored := ⟨_, rfl⟩
  names := rfl

/-- A write behind a write is one write of both. -/
theorem WroteAt.trans {f g h : NodeFile} {fs fs' fs'' : MemFs} {pos : Nat} {a b : Bytes}
    (hfirst : WroteAt f fs pos a g fs') (hsecond : WroteAt g fs' (pos + a.length) b h fs'') : WroteAt f fs pos (a ++ b) h fs'' := by
  obtain ⟨now, rfl⟩ := hfirst.handle
  obtain ⟨later, rfl⟩ := hsecond.handle
  obtain ⟨t, hheap⟩ := hfirst.stored
  obtain ⟨t', hheap'⟩ := hsecond.stored
  have hdata : ByteFile.overlaid (ByteFile.overlaid f.data pos a) (pos + a.length) b = ByteFile.overlaid f.data pos (a ++ b) :=
    ByteFile.overlaid_overlaid f.data pos a b
  refine ⟨⟨later, ?_⟩, ⟨t', ?_⟩, hsecond.names.trans hfirst.names⟩
  · simp only [NodeFile.written, hdata]
  · have hnode : (f.written pos a now).node = f.node := rfl
    rw [hheap', hheap, hnode, Function.update_self, Function.update_idem]
    rfl

variable {w : WasiCaller MemFs MemFile} {fd : Int32} {f : NodeFile} {path : String}

/-- The handle under a descriptor, and its file system, in place of those of the guest. -/
def swapped (w : WasiCaller MemFs MemFile) (fd : Int32) (path : String) (g : NodeFile) (fs : MemFs) : WasiCaller MemFs MemFile :=
  { w with ns := fs, files := w.files.insert fd.toUInt32.toNat ⟨.node g, path⟩ }

theorem swapped_file (g : NodeFile) (fs : MemFs) : (swapped w fd path g fs).files[fd.toUInt32.toNat]? = some ⟨.node g, path⟩ :=
  Std.ExtTreeMap.getElem?_insert_self

theorem swapped_self (hfile : w.files[fd.toUInt32.toNat]? = some ⟨.node f, path⟩) : swapped w fd path f w.ns = w := by
  rw [swapped, insert_same hfile]

/-- A call that leaves the handle and the file system leaves the guest. -/
theorem withFdMut_same {α : Type} {p : Prog (MemFile × MemFs) Error α} (hfile : w.files[fd.toUInt32.toNat]? = some ⟨.node f, path⟩) {a : α}
    (hp : p (.node f, w.ns) = (.ok a, .node f, w.ns)) : withFdMut fd p w = (.ok a, w) := by
  have hself := swapped_self hfile
  rw [withFdMut_ok hfile hp]
  exact congrArg (Prod.mk _) hself

theorem withFdMut_invalid {α : Type} {p : Prog (MemFile × MemFs) Error α} (hfile : w.files[fd.toUInt32.toNat]? = some ⟨.node f, path⟩)
    {op name : String} (hp : p (.node f, w.ns) = (.err (.path op name .invalid), .node f, w.ns)) : withFdMut fd p w = (.err Errno.inval, w) := by
  have hself := swapped_self hfile
  unfold withFdMut
  rw [hfile]
  dsimp only
  rw [hp]
  exact congrArg (Prod.mk _) hself

theorem swapped_swapped (g h : NodeFile) (fs fs' : MemFs) : swapped (swapped w fd path g fs) fd path h fs' = swapped w fd path h fs' := by
  simp only [swapped, insert_twice]

theorem pwriteBuffers_cons (data : Bytes) (buffers : List Bytes) (count pos : Nat) :
    pwriteBuffers memFs fd (data :: buffers) count pos = withFdMut fd (writeSynced data (UInt64.ofNat pos)) >>= fun n =>
      if n < data.length then pure (saturatingAddU32 count n)
      else pwriteBuffers memFs fd buffers (saturatingAddU32 count n) (saturatingAddU64 pos n) := rfl

theorem toNat_ofNat_of_le {pos : Nat} (h : pos ≤ isizeMax) : (UInt64.ofNat pos).toNat = pos := by
  unfold isizeMax at h
  rw [UInt64.toNat_ofNat', Nat.mod_eq_of_lt (by omega)]

theorem saturatingAddU32_of_lt {a b : Nat} (h : a + b < 2 ^ 32) : saturatingAddU32 a b = a + b := by
  unfold saturatingAddU32
  omega

theorem saturatingAddU32_min {a b : Nat} (h : b < 2 ^ 32) : saturatingAddU32 a b = min (a + b) (2 ^ 32 - 1) := by
  unfold saturatingAddU32
  omega

theorem saturatingAddU64_of_le {a b : Nat} (h : a + b ≤ isizeMax) : saturatingAddU64 a b = a + b := by
  unfold saturatingAddU64
  unfold isizeMax at h
  omega

/-- One turn of the loop of a write. -/
theorem pwriteBuffers_step (hfile : w.files[fd.toUInt32.toNat]? = some ⟨.node f, path⟩) (hready : f.Ready) {data : Bytes} {buffers : List Bytes}
    {count pos : Nat} (hreach : pos + data.length ≤ isizeMax) :
    let g := f.written pos data (w.ns.clock w.ns.ticks)
    pwriteBuffers memFs fd (data :: buffers) count pos w =
      pwriteBuffers memFs fd buffers (saturatingAddU32 count data.length) (pos + data.length) (swapped w fd path g (w.ns.stored g)) := by
  intro g
  have hnat : (UInt64.ofNat pos).toNat = pos := toNat_ofNat_of_le (by omega)
  have hwrite : withFdMut fd (writeSynced data (UInt64.ofNat pos)) w = (.ok data.length, swapped w fd path g (w.ns.stored g)) := by
    apply withFdMut_ok hfile
    rw [writeSynced_ok hready (by rw [hnat]; exact hreach), hnat]
  have hmoved : saturatingAddU64 pos data.length = pos + data.length := saturatingAddU64_of_le hreach
  rw [pwriteBuffers_cons, bind_ok hwrite, branch_apply, if_neg (Nat.lt_irrefl _), hmoved]

/-- The buffers of a list that is not empty are written as one. The count stops at the largest word. -/
theorem pwriteBuffers_ok (hfile : w.files[fd.toUInt32.toNat]? = some ⟨.node f, path⟩) (hready : f.Ready) {buffers : List Bytes} (hne : buffers ≠ [])
    {count pos : Nat} (hreach : pos + buffers.flatten.length ≤ isizeMax)
    (hwords : ∀ data ∈ buffers, data.length < 2 ^ 32) :
    ∃ g fs', pwriteBuffers memFs fd buffers count pos w =
        (.ok (min (count + buffers.flatten.length) (2 ^ 32 - 1)), swapped w fd path g fs') ∧
      WroteAt f w.ns pos buffers.flatten g fs' := by
  induction buffers generalizing w f count pos with
  | nil => exact absurd rfl hne
  | cons data buffers ih =>
    rw [List.flatten_cons, List.length_append] at hreach
    rw [List.forall_mem_cons] at hwords
    have hstep := @pwriteBuffers_step w fd f path hfile hready data buffers count pos (by omega)
    dsimp only at hstep
    rw [saturatingAddU32_min hwords.1] at hstep
    have hfirst := wroteAt_stored f w.ns pos data (w.ns.clock w.ns.ticks)
    generalize hg : f.written pos data (w.ns.clock w.ns.ticks) = g at hstep hfirst
    cases buffers with
    | nil =>
      refine ⟨g, w.ns.stored g, ?_, ?_⟩
      · rw [hstep, List.flatten_cons, List.flatten_nil, List.append_nil]
        rfl
      · rwa [List.flatten_cons, List.flatten_nil, List.append_nil]
    | cons next buffers =>
      have hready' : g.Ready := by
        rw [← hg]
        exact hready.written (by omega) _
      obtain ⟨h, fs', hrest, hwrote⟩ := ih (swapped_file g (w.ns.stored g)) hready' (List.cons_ne_nil _ _)
        (show pos + data.length + (next :: buffers).flatten.length ≤ isizeMax by omega)
        hwords.2
      refine ⟨h, fs', ?_, ?_⟩
      · have hsum : min (min (count + data.length) (2 ^ 32 - 1) + (next :: buffers).flatten.length) (2 ^ 32 - 1) =
            min (count + (data :: next :: buffers).flatten.length) (2 ^ 32 - 1) := by
          simp only [List.flatten_cons, List.length_append]
          omega
        rw [hstep, hrest, swapped_swapped, hsum]
      · rw [List.flatten_cons]
        exact hfirst.trans hwrote

/-- Where the write of all buffers panics, so does that of one of them. -/
theorem pwriteBuffers_abort (hfile : w.files[fd.toUInt32.toNat]? = some ⟨.node f, path⟩) (hready : f.Ready) {buffers : List Bytes} {count pos : Nat}
    (hpos : pos ≤ isizeMax) (hreach : ¬ pos + buffers.flatten.length ≤ isizeMax) :
    (pwriteBuffers memFs fd buffers count pos w).1 = .abort := by
  induction buffers generalizing w f count pos with
  | nil =>
    rw [List.flatten_nil, List.length_nil] at hreach
    omega
  | cons data buffers ih =>
    rw [List.flatten_cons, List.length_append] at hreach
    by_cases hhere : pos + data.length ≤ isizeMax
    · have hstep := @pwriteBuffers_step w fd f path hfile hready data buffers count pos hhere
      dsimp only at hstep
      have hready' := hready.written hhere (w.ns.clock w.ns.ticks)
      rw [hstep]
      exact ih (swapped_file _ _) hready' (by omega) (by omega)
    · have hnat := toNat_ofNat_of_le hpos
      have hwrite : (withFdMut fd (writeSynced data (UInt64.ofNat pos)) w).1 = .abort := by
        apply withFdMut_abort hfile
        exact writeSynced_abort hready (by rw [hnat]; exact hhere) w.ns
      rcases hrun : withFdMut fd (writeSynced data (UInt64.ofNat pos)) w with ⟨a | e | _, s⟩ <;> rw [hrun] at hwrite
      · cases hwrite
      · cases hwrite
      · rw [pwriteBuffers_cons, bind_abort hrun]

/-! ## All buffers of a read -/

theorem preadBuffers_cons (r : Nat × Nat) (regions : List (Nat × Nat)) (count pos : Nat) :
    preadBuffers memFs fd ((r :: regions).map signed) count pos = (do
      let size ← allocate (r.2 : Int)
      let bytes ← filled size (← withFdMut fd (memFs.file.withPreservedOffset (memFs.file.readAt size (UInt64.ofNat pos))))
      writeBytes (r.1 : Int) bytes
      if bytes.length < size then pure (saturatingAddU32 count bytes.length)
      else preadBuffers memFs fd (regions.map signed) (saturatingAddU32 count bytes.length) (saturatingAddU64 pos bytes.length)) := rfl

theorem filled_eq {len : Nat} {bytes : Bytes} (h : bytes.length ≤ len) :
    (filled len bytes : Prog (WasiCaller MemFs MemFile) Errno Bytes) w = (.ok bytes, w) := by
  rw [filled, if_neg (Nat.not_lt.mpr h)]
  rfl

/-- Reading at a position leaves the handle as it is. -/
theorem readAt_preserved (hready : f.Ready) {pos : Nat} (hpos : pos ≤ f.data.length) (size : Nat) (fs : MemFs) :
    memFs.file.withPreservedOffset (memFs.file.readAt size (UInt64.ofNat pos)) (.node f, fs) =
      (.ok ((f.data.drop pos).take size), .node f, fs) := by
  have hnat := toNat_ofNat_of_le (hpos.trans hready.bounded)
  have hread : memFs.file.readAt size (UInt64.ofNat pos) (.node f, fs) = (.ok ((f.data.drop pos).take size), .node f, fs) := by
    have hnode : NodeFile.readAt size (UInt64.ofNat pos) (f, fs) = (.ok ((f.data.drop pos).take size), f, fs) := by
      rw [NodeFile.readAt, hnat, if_neg (Nat.not_lt.mpr hpos)]
    exact MemFile.dispatch_node hnode
  exact MemFile.withPreservedOffset_ok hready hread le_rfl

/-- Reading at a position past the end fails, and leaves the handle as it is. -/
theorem readAt_past (hready : f.Ready) {pos : Nat} (hpos : f.data.length < pos) (hnat : (UInt64.ofNat pos).toNat = pos) (size : Nat) (fs : MemFs) :
    memFs.file.withPreservedOffset (memFs.file.readAt size (UInt64.ofNat pos)) (.node f, fs) =
      (.err (.path "read" f.metadata.name .invalid), .node f, fs) := by
  have hhere : memFs.file.seek (.current 0) (.node f, fs) = (.ok f.offset, .node f, fs) :=
    MemFile.dispatch_node (NodeFile.seek_here hready fs)
  have hback : memFs.file.seek (.start f.offset) (.node f, fs) = (.ok f.offset, .node f, fs) :=
    MemFile.dispatch_node (NodeFile.seek_start hready.inside fs)
  have hread : memFs.file.readAt size (UInt64.ofNat pos) (.node f, fs) = (.err (.path "read" f.metadata.name .invalid), .node f, fs) := by
    have hnode : NodeFile.readAt size (UInt64.ofNat pos) (f, fs) = (.err (.path "read" f.metadata.name .invalid), f, fs) := by
      rw [NodeFile.readAt, hnat, if_pos hpos]
    exact MemFile.dispatch_node hnode
  rw [FileHandle.withPreservedOffset, bind_ok (attempt_ok hhere), bind_ok (attempt_err hread)]
  dsimp only
  rw [bind_ok (attempt_ok hback)]
  rfl

/-- One turn of the loop of a read. -/
theorem preadBuffers_step (hfile : w.files[fd.toUInt32.toNat]? = some ⟨.node f, path⟩) (hready : f.Ready) {mem : Bytes} (hmemory : w.memory = some mem)
    {r : Nat × Nat} (hr : InGuest mem r) (regions : List (Nat × Nat)) {count pos : Nat} (hpos : pos ≤ f.data.length)
    (hcount : count + r.2 < 2 ^ 32) :
    let bytes := (f.data.drop pos).take r.2
    preadBuffers memFs fd ((r :: regions).map signed) count pos w =
      (if bytes.length < r.2 then pure (count + bytes.length)
        else preadBuffers memFs fd (regions.map signed) (count + bytes.length) (pos + bytes.length))
        { w with memory := some (put mem r.1 bytes) } := by
  intro bytes
  have hlen : bytes.length ≤ r.2 := List.length_take_le _ _
  have hbounded := hready.bounded
  have hrest : bytes.length ≤ f.data.length - pos := by
    have htake : bytes.length ≤ (f.data.drop pos).length := List.length_take_le' _ _
    rwa [List.length_drop] at htake
  have hread : withFdMut fd (memFs.file.withPreservedOffset (memFs.file.readAt r.2 (UInt64.ofNat pos))) w = (.ok bytes, w) :=
    withFdMut_same hfile (readAt_preserved hready hpos r.2 w.ns)
  have hwrite : (writeBytes (r.1 : Int) bytes : Prog (WasiCaller MemFs MemFile) Errno Unit) w =
      (.ok (), { w with memory := some (put mem r.1 bytes) }) := by
    have hfits : r.1 + r.2 ≤ mem.length := hr.1
    rw [writeBytes_eq hmemory bytes (Int.natCast_nonneg _) (by omega), Int.toNat_natCast]
  have hcounted : saturatingAddU32 count bytes.length = count + bytes.length := saturatingAddU32_of_lt (by omega)
  have hmoved : saturatingAddU64 pos bytes.length = pos + bytes.length := saturatingAddU64_of_le (by omega)
  rw [preadBuffers_cons, bind_ok (allocate_eq r.2), bind_ok hread, bind_ok (filled_eq hlen), bind_ok hwrite, hcounted, hmoved]

/-- The buffers are filled in order from the data behind a position. -/
theorem preadBuffers_ok (hfile : w.files[fd.toUInt32.toNat]? = some ⟨.node f, path⟩) (hready : f.Ready) {mem : Bytes} (hmemory : w.memory = some mem)
    {regions : List (Nat × Nat)} (hregions : ∀ r ∈ regions, InGuest mem r) {count pos : Nat} (hpos : regions ≠ [] → pos ≤ f.data.length)
    (hcount : count + total regions < 2 ^ 32) :
    preadBuffers memFs fd (regions.map signed) count pos w =
      (.ok (count + min (total regions) (f.data.length - pos)), { w with memory := some (scatter mem regions (f.data.drop pos)) }) := by
  induction regions generalizing w mem count pos with
  | nil =>
    have htotal : total ([] : List (Nat × Nat)) = 0 := rfl
    rw [htotal, Nat.zero_min, scatter, ← hmemory]
    rfl
  | cons r regions ih =>
    rw [List.forall_mem_cons] at hregions
    rw [total_cons] at hcount
    have hinside : pos ≤ f.data.length := hpos (List.cons_ne_nil _ _)
    have hlen : ((f.data.drop pos).take r.2).length = min r.2 (f.data.length - pos) := by rw [List.length_take, List.length_drop]
    have hfits : r.1 + ((f.data.drop pos).take r.2).length ≤ mem.length := put_take_fits hregions.1.1 _
    have hstep := preadBuffers_step hfile hready hmemory hregions.1 regions hinside (by omega : count + r.2 < 2 ^ 32)
    dsimp only at hstep
    rw [hstep, branch_apply, scatter, total_cons]
    split
    case isTrue hshort =>
      -- the data is at its end: nothing is left for the other buffers
      have hend : (f.data.drop pos).drop r.2 = [] := List.drop_of_length_le (by rw [List.length_drop]; omega)
      rw [hend, scatter_nil, hlen, show min (r.2 + total regions) (f.data.length - pos) = min r.2 (f.data.length - pos) by omega]
      rfl
    case isFalse hfull =>
      have hguest : ∀ s ∈ regions, InGuest (put mem r.1 ((f.data.drop pos).take r.2)) s := by
        intro s hs
        rw [InGuest, put_length hfits]
        exact hregions.2 s hs
      have hrest := @ih { w with memory := some (put mem r.1 ((f.data.drop pos).take r.2)) } hfile (put mem r.1 ((f.data.drop pos).take r.2)) rfl
        hguest (count + ((f.data.drop pos).take r.2).length) (pos + ((f.data.drop pos).take r.2).length) (fun _ => by omega) (by omega)
      have hsize : ((f.data.drop pos).take r.2).length = r.2 := by omega
      rw [hrest, hsize, List.drop_drop, show f.data.length - (pos + r.2) = f.data.length - pos - r.2 by omega,
        show count + r.2 + min (total regions) (f.data.length - pos - r.2) = count + min (r.2 + total regions) (f.data.length - pos) by omega]

/-! ## The two imports -/

theorem flatten_windows (mem : Bytes) (regions : List (Nat × Nat)) : (regions.map fun r => window mem r.1 r.2).flatten = gather mem regions :=
  (List.flatMap_def ..).symm

theorem windows_words {mem : Bytes} {regions : List (Nat × Nat)} (h : ∀ r ∈ regions, InGuest mem r) :
    ∀ data ∈ regions.map fun r => window mem r.1 r.2, data.length < 2 ^ 32 := by
  intro data hdata
  obtain ⟨r, hr, rfl⟩ := List.mem_map.mp hdata
  have hlen := window_length (h r hr).1
  have hbelow := (h r hr).2
  omega

variable {mem : Bytes} {iovsPtr iovsLen resultPtr : Int32} {offset : Int64}

theorem total_lt (h : Layout mem iovsPtr iovsLen resultPtr) : total (iovecs mem iovsPtr.toInt.toNat iovsLen.toInt.toNat) < 2 ^ 31 := by
  have hapart := ((List.pairwise_cons.mp h.apart).2)
  have hle := total_le (n := 2 ^ 31 - 1) (fun r hr => (h.buffers r hr).2) (List.pairwise_cons.mp hapart).2
  omega

theorem not_neg {offset : Int64} (h : 0 ≤ offset.toInt) : ¬ offset < 0 := by
  rw [Int64.lt_iff_toInt_lt, Int64.toInt_zero]
  omega

theorem toInt_nonneg {offset : Int64} (h : ¬ offset < 0) : 0 ≤ offset.toInt := by
  rw [Int64.lt_iff_toInt_lt, Int64.toInt_zero] at h
  omega

theorem toNat_le_isizeMax (offset : Int64) : offset.toInt.toNat ≤ isizeMax := by
  have hlt := offset.toInt_lt
  unfold isizeMax
  omega

section
variable (hfile : w.files[fd.toUInt32.toNat]? = some ⟨.node f, path⟩) (hready : f.Ready) (hmemory : w.memory = some mem)

section
variable (hplaced : Placed mem iovsPtr iovsLen resultPtr) (hlow : 0 ≤ offset.toInt)
  (hhigh : iovecs mem iovsPtr.toInt.toNat iovsLen.toInt.toNat = [] → offset.toInt ≤ f.data.length)
include hfile hready hplaced hhigh

/-- The loop over all buffers, the empty list of buffers among them. -/
theorem pwrite_loop (hreach : offset.toInt.toNat + total (iovecs mem iovsPtr.toInt.toNat iovsLen.toInt.toNat) ≤ isizeMax) :
    let regions := iovecs mem iovsPtr.toInt.toNat iovsLen.toInt.toNat
    ∃ g fs', pwriteBuffers memFs fd (regions.map fun r => window mem r.1 r.2) 0 offset.toInt.toNat w =
        (.ok (min (total regions) (2 ^ 32 - 1)), swapped w fd path g fs') ∧
      g.data = ByteFile.overlaid f.data offset.toInt.toNat (gather mem regions) ∧ g.offset = f.offset ∧ g.Ready ∧
      (regions ≠ [] → (fs'.heap f.node).data = g.data ∧ g.metadata.size = g.data.length) ∧
      (f.SettledIn w.ns → g.SettledIn fs') ∧ (∀ id, id ≠ f.node → fs'.heap id = w.ns.heap id) ∧ fs'.nodes = w.ns.nodes := by
  intro regions
  have hlen : (gather mem regions).length = total regions := gather_length fun r hr => (hplaced.buffers r hr).1
  by_cases hempty : regions = []
  · have hpos : offset.toInt.toNat ≤ f.data.length := by
      have hoffset := hhigh hempty
      omega
    refine ⟨f, w.ns, ?_, ?_, rfl, hready, fun hne => absurd hempty hne, id, fun _ _ => rfl, rfl⟩
    · rw [hempty, swapped_self hfile]
      rfl
    · rw [hempty, ByteFile.overlaid_inside hpos]
      simp [gather]
  · have hflat := flatten_windows mem regions
    have hne : (regions.map fun r => window mem r.1 r.2) ≠ [] := fun h => hempty (List.map_eq_nil_iff.mp h)
    have hroom : offset.toInt.toNat + (gather mem regions).length ≤ isizeMax := by
      rw [hlen]
      exact hreach
    obtain ⟨g, fs', hrun, hwrote⟩ := @pwriteBuffers_ok w fd f path hfile hready (regions.map fun r => window mem r.1 r.2) hne 0
      offset.toInt.toNat (by rw [hflat]; exact hroom) (windows_words hplaced.buffers)
    rw [hflat, Nat.zero_add, hlen] at hrun
    rw [hflat] at hwrote
    obtain ⟨now, rfl⟩ := hwrote.handle
    obtain ⟨t, hheap⟩ := hwrote.stored
    have hstored : (fs'.heap f.node).data = (f.written offset.toInt.toNat (gather mem regions) now).data := by
      rw [hheap, Function.update_self]
      rfl
    refine ⟨_, fs', hrun, rfl, rfl, hready.written hroom now, fun _ => ⟨hstored, rfl⟩, fun _ => ⟨rfl, hstored⟩, fun id hid => ?_, hwrote.names⟩
    rw [hheap, Function.update_of_ne hid]

include hmemory hlow

theorem fdPwrite_run (hreach : offset.toInt.toNat + total (iovecs mem iovsPtr.toInt.toNat iovsLen.toInt.toNat) ≤ isizeMax) :
    let regions := iovecs mem iovsPtr.toInt.toNat iovsLen.toInt.toNat
    ∃ g fs', fdPwrite memFs fd iovsPtr iovsLen offset resultPtr w =
        (.ok (), { swapped w fd path g fs' with memory := some (put mem resultPtr.toInt.toNat (leBytes 4 (min (total regions) (2 ^ 32 - 1)))) }) ∧
      g.data = ByteFile.overlaid f.data offset.toInt.toNat (gather mem regions) ∧ g.offset = f.offset ∧ g.Ready ∧
      (regions ≠ [] → (fs'.heap f.node).data = g.data ∧ g.metadata.size = g.data.length) ∧
      (f.SettledIn w.ns → g.SettledIn fs') ∧ (∀ id, id ≠ f.node → fs'.heap id = w.ns.heap id) ∧ fs'.nodes = w.ns.nodes := by
  intro regions
  obtain ⟨g, fs', hrun, hrest⟩ := pwrite_loop hfile hready hplaced hhigh hreach
  refine ⟨g, fs', ?_, hrest⟩
  rw [fdPwrite, if_neg (not_neg hlow), bind_ok (readIovs_eq hmemory hplaced), bind_ok hrun]
  exact @writeWord_eq MemFs MemFile (swapped w fd path g fs') mem mem hmemory _ _ hplaced.result rfl _

/-- `fd_pwrite` is one write of the buffers of the guest, read one after the other, at its offset; the
offset of the handle stays. Where that write panics, the import does. A buffer may be named twice or
share cells with another, and the word for the result stops at its largest value. Without a buffer
nothing is written, and so there is no gap to fill. -/
theorem fdPwrite_one_write :
    let regions := iovecs mem iovsPtr.toInt.toNat iovsLen.toInt.toNat
    let one := NodeFile.writeAt (gather mem regions) (UInt64.ofNat offset.toInt.toNat) (f, w.ns)
    (one.1 = .abort ∧ (fdPwrite memFs fd iovsPtr iovsLen offset resultPtr w).1 = .abort) ∨
    one.1 = .ok (total regions) ∧ ∃ g fs',
      fdPwrite memFs fd iovsPtr iovsLen offset resultPtr w =
        (.ok (), { swapped w fd path g fs' with memory := some (put mem resultPtr.toInt.toNat (leBytes 4 (min (total regions) (2 ^ 32 - 1)))) }) ∧
      g.data = one.2.1.data ∧ g.offset = f.offset ∧
      (regions ≠ [] → (fs'.heap f.node).data = g.data ∧ g.metadata.size = g.data.length) ∧
      (∀ id, id ≠ f.node → fs'.heap id = w.ns.heap id) ∧ fs'.nodes = w.ns.nodes := by
  intro regions one
  have hnat : (UInt64.ofNat offset.toInt.toNat).toNat = offset.toInt.toNat := toNat_ofNat_of_le (toNat_le_isizeMax offset)
  have hlen : (gather mem regions).length = total regions := gather_length fun r hr => (hplaced.buffers r hr).1
  by_cases hreach : offset.toInt.toNat + (gather mem regions).length ≤ isizeMax
  · obtain ⟨g, fs', hrun, hdata, hoffset, -, hstored, -, hframe, hnames⟩ :=
      fdPwrite_run hfile hready hmemory hplaced hlow hhigh (by rw [← hlen]; exact hreach)
    have hone : one = _ := NodeFile.write_eq (f := { f with offset := UInt64.ofNat offset.toInt.toNat }) hready.closed hready.plain
      (by rw [hnat]; exact hreach) w.ns
    refine Or.inr ⟨by rw [hone, hlen], g, fs', hrun, ?_, hoffset, hstored, hframe, hnames⟩
    rw [hone, hdata]
    simp only [hnat]
    rfl
  · have hflat := flatten_windows mem regions
    have habort := @pwriteBuffers_abort w fd f path hfile hready (regions.map fun r => window mem r.1 r.2) 0 offset.toInt.toNat
      (toNat_le_isizeMax offset) (by rw [hflat]; exact hreach)
    refine Or.inl ⟨NodeFile.writeAt_abort hready (by rw [hnat]; exact hreach) w.ns, ?_⟩
    rw [fdPwrite, if_neg (not_neg hlow), bind_ok (readIovs_eq hmemory hplaced)]
    rcases hrun : pwriteBuffers memFs fd (regions.map fun r => window mem r.1 r.2) 0 offset.toInt.toNat w with ⟨a | e | _, s⟩ <;> rw [hrun] at habort
    · cases habort
    · cases habort
    · rw [bind_abort hrun]

end

section
variable (hlayout : Layout mem iovsPtr iovsLen resultPtr)
include hfile hready hmemory hlayout

/-- Within the data, or without a buffer, the buffers are filled. -/
theorem fdPread_run (hneg : ¬ offset < 0)
    (hinside : iovecs mem iovsPtr.toInt.toNat iovsLen.toInt.toNat ≠ [] → offset.toInt.toNat ≤ f.data.length) :
    let regions := iovecs mem iovsPtr.toInt.toNat iovsLen.toInt.toNat
    let cells := (f.data.drop offset.toInt.toNat).take (total regions)
    fdPread memFs fd iovsPtr iovsLen offset resultPtr w =
      (.ok (), { w with memory := some (put (scatter mem regions cells) resultPtr.toInt.toNat (leBytes 4 cells.length)) }) := by
  intro regions cells
  have hregions : ∀ r ∈ regions, r.1 + r.2 ≤ mem.length := fun r hr => (hlayout.buffers r hr).1
  have htotal : total regions < 2 ^ 31 := total_lt hlayout
  have hloop := @preadBuffers_ok w fd f path hfile hready mem hmemory regions hlayout.buffers 0 offset.toInt.toNat hinside (by omega)
  have hcells : cells.length = min (total regions) (f.data.length - offset.toInt.toNat) := by
    rw [List.length_take, List.length_drop]
  rw [← scatter_take, Nat.zero_add, ← hcells] at hloop
  rw [fdPread, if_neg hneg, bind_ok (readIovDescriptors_eq hmemory hlayout.toPlaced), bind_ok hloop]
  exact writeWord_eq rfl hlayout.result (scatter_length hregions cells) _

/-- Past the end of the data, the first buffer is refused. -/
theorem fdPread_past (hneg : ¬ offset < 0) (hne : iovecs mem iovsPtr.toInt.toNat iovsLen.toInt.toNat ≠ [])
    (hpast : f.data.length < offset.toInt.toNat) : fdPread memFs fd iovsPtr iovsLen offset resultPtr w = (.err Errno.inval, w) := by
  have hnat := toNat_ofNat_of_le (toNat_le_isizeMax offset)
  rw [fdPread, if_neg hneg, bind_ok (readIovDescriptors_eq hmemory hlayout.toPlaced)]
  apply bind_err
  cases hregions : iovecs mem iovsPtr.toInt.toNat iovsLen.toInt.toNat with
  | nil => exact absurd hregions hne
  | cons r regions =>
    have hread : withFdMut fd (memFs.file.withPreservedOffset (memFs.file.readAt r.2 (UInt64.ofNat offset.toInt.toNat))) w =
        (.err Errno.inval, w) := withFdMut_invalid hfile (readAt_past hready hpast hnat r.2 w.ns)
    rw [preadBuffers_cons, bind_ok (allocate_eq r.2), bind_err hread]

/-- `fd_pread` fills the buffers in order with the data from its offset on and reports how much there
was. The handle is as before, and so is every other byte of the guest. An offset below zero is
refused, and so is one past the end of the data when there is a buffer to fill. -/
theorem fdPread_fills :
    let regions := iovecs mem iovsPtr.toInt.toNat iovsLen.toInt.toNat
    let cells := (f.data.drop offset.toInt.toNat).take (total regions)
    if offset < 0 ∨ regions ≠ [] ∧ f.data.length < offset.toInt.toNat then
      fdPread memFs fd iovsPtr iovsLen offset resultPtr w = (.err Errno.inval, w)
    else
      ∃ mem', fdPread memFs fd iovsPtr iovsLen offset resultPtr w = (.ok (), { w with memory := some mem' }) ∧
        gather mem' regions = cells ++ (gather mem regions).drop cells.length ∧
        window mem' resultPtr.toInt.toNat 4 = leBytes 4 cells.length ∧
        ∀ i, (∀ r ∈ (resultPtr.toInt.toNat, 4) :: regions, ¬ Covers r i) → mem'[i]? = mem[i]? := by
  intro regions cells
  split
  case isTrue hrefused =>
    by_cases hneg : offset < 0
    · rw [fdPread, if_pos hneg]
      rfl
    · obtain ⟨hne, hpast⟩ := hrefused.resolve_left hneg
      exact fdPread_past hfile hready hmemory hlayout hneg hne hpast
  case isFalse haccepted =>
  obtain ⟨hneg, hpast⟩ := not_or.mp haccepted
  have hwithin : regions ≠ [] → offset.toInt.toNat ≤ f.data.length := fun hne => Nat.not_lt.mp fun hlt => hpast ⟨hne, hlt⟩
  have hinside : ∀ r ∈ regions, r.1 + r.2 ≤ mem.length := fun r hr => (hlayout.buffers r hr).1
  obtain ⟨hresult, hregions⟩ := List.pairwise_cons.mp (List.pairwise_cons.mp hlayout.apart).2
  have hfits : resultPtr.toInt.toNat + 4 ≤ mem.length := hlayout.result.2.1
  have hword : resultPtr.toInt.toNat + (leBytes 4 cells.length).length ≤ (scatter mem regions cells).length := by
    rw [leBytes_length, scatter_length hinside]
    exact hfits
  have hapart : ∀ r ∈ regions, Separate r (resultPtr.toInt.toNat, (leBytes 4 cells.length).length) := by
    intro r hr
    rw [leBytes_length]
    exact (hresult r hr).symm
  refine ⟨_, fdPread_run hfile hready hmemory hlayout hneg hwithin, ?_, ?_, ?_⟩
  · rw [gather_put_of_separate hword hapart, gather_scatter hinside hregions, List.take_of_length_le (List.length_take_le _ _)]
  · have hself := window_put_self hword
    rwa [leBytes_length] at hself
  · intro i hi
    rw [List.forall_mem_cons] at hi
    rw [getElem?_put_of_not_covers hword (by rw [leBytes_length]; exact hi.1)]
    exact getElem?_scatter_of_not_covers hinside hi.2 _

end
end

/-- Two buffers that hold 7, 8 and 9 behind their array, then the word for the result. -/
def ioMemory : Bytes := leBytes 4 16 ++ leBytes 4 1 ++ leBytes 4 17 ++ leBytes 4 2 ++ [7, 8, 9, 0] ++ [0, 0, 0, 0]

def ioGuest : WasiCaller MemFs MemFile where
  ns := fileWorld
  files := (∅ : Std.ExtTreeMap Nat (OpenFile MemFile)).insert 3 ⟨.node fileHandle, "f"⟩
  nextFd := 4
  memory := some ioMemory

theorem ioMemory_layout : Layout ioMemory 0 2 20 := by
  have hregions : iovecs ioMemory (0 : Int32).toInt.toNat (2 : Int32).toInt.toNat = [(16, 1), (17, 2)] := by decide
  refine ⟨⟨by decide, by decide, ⟨by decide, by decide⟩, ?_, by decide, by decide, by decide⟩, ?_⟩
  · rw [hregions]
    intro r hr
    simp only [List.mem_cons, List.not_mem_nil, or_false] at hr
    rcases hr with rfl | rfl
    · exact ⟨by decide, by decide⟩
    · exact ⟨by decide, by decide⟩
  · rw [hregions]
    simp only [List.pairwise_cons, List.forall_mem_cons]
    refine ⟨⟨separate_of_le (by decide), separate_of_le (by decide), separate_of_le (by decide), by simp⟩, ?_⟩
    exact ⟨⟨(separate_of_le (by decide)).symm, (separate_of_le (by decide)).symm, by simp⟩, ⟨separate_of_le (by decide), by simp⟩, by simp⟩

theorem fileHandle_ready : fileHandle.Ready := ⟨rfl, rfl, by decide, by decide⟩

/-- One buffer, named twice. -/
def sharedMemory : Bytes := leBytes 4 16 ++ leBytes 4 3 ++ leBytes 4 16 ++ leBytes 4 3 ++ [7, 8, 9, 0] ++ [0, 0, 0, 0]

theorem sharedMemory_placed : Placed sharedMemory 0 2 20 := by
  have hregions : iovecs sharedMemory (0 : Int32).toInt.toNat (2 : Int32).toInt.toNat = [(16, 3), (16, 3)] := by decide
  refine ⟨by decide, by decide, ⟨by decide, by decide⟩, ?_, by decide, by decide, by decide⟩
  rw [hregions]
  intro r hr
  rcases List.mem_pair.mp hr with rfl | rfl
  · exact ⟨by decide, by decide⟩
  · exact ⟨by decide, by decide⟩

theorem fdPwrite_one_write_sharedMemory :
    let guest : WasiCaller MemFs MemFile := { ioGuest with memory := some sharedMemory }
    let one := NodeFile.writeAt [7, 8, 9, 7, 8, 9] (UInt64.ofNat 1) (fileHandle, fileWorld)
    (one.1 = .abort ∧ (fdPwrite memFs 3 0 2 1 20 guest).1 = .abort) ∨
    one.1 = .ok 6 ∧ ∃ g fs', fdPwrite memFs 3 0 2 1 20 guest =
        (.ok (), { swapped guest 3 "f" g fs' with memory := some (put sharedMemory 20 (leBytes 4 6)) }) ∧
      g.data = one.2.1.data ∧ g.offset = 0 ∧ (iovecs sharedMemory 0 2 ≠ [] → (fs'.heap 1).data = g.data ∧ g.metadata.size = g.data.length) ∧
      (∀ id, id ≠ 1 → fs'.heap id = fileWorld.heap id) ∧ fs'.nodes = fileWorld.nodes :=
  @fdPwrite_one_write { ioGuest with memory := some sharedMemory } 3 fileHandle "f" sharedMemory 0 2 20 1 (by rfl) fileHandle_ready rfl
    sharedMemory_placed (by decide) (by decide)

/-- The data ends within the second buffer; behind the data there is nothing to read. -/
theorem fdPread_fills_ioGuest :
    (∃ mem', fdPread memFs 3 0 2 1 20 ioGuest = (.ok (), { ioGuest with memory := some mem' }) ∧
      gather mem' [(16, 1), (17, 2)] = [2, 8, 9] ∧ window mem' 20 4 = leBytes 4 1 ∧
      ∀ i, (∀ r ∈ [(20, 4), (16, 1), (17, 2)], ¬ Covers r i) → mem'[i]? = ioMemory[i]?) ∧
    fdPread memFs 3 0 2 3 20 ioGuest = (.err Errno.inval, ioGuest) :=
  ⟨@fdPread_fills ioGuest 3 fileHandle "f" ioMemory 0 2 20 1 (by rfl) fileHandle_ready rfl ioMemory_layout,
    @fdPread_fills ioGuest 3 fileHandle "f" ioMemory 0 2 20 3 (by rfl) fileHandle_ready rfl ioMemory_layout⟩

end Wasi
end Star9
