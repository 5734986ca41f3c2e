import Star9.Runtime.Terminal

/-!
# Newlines of a terminal

The normaliser sees one write after the other and remembers a byte between them. What it has
queued and delivered is at any time the normal form of everything that was written, however it
was cut into writes.
-/
namespace Star9
open Base

/-! ## The normal form of a text -/

/-- A CR comes in before each LF that does not stand directly after a CR. -/
def normalized (input : Bytes) : Bytes :=
  input.zipIdx.flatMap fun x => if x.1 = lf ∧ ¬(0 < x.2 ∧ input[x.2 - 1]? = some cr) then [cr, x.1] else [x.1]

theorem normalized_snoc (input : Bytes) (byte : UInt8) :
    normalized (input ++ [byte]) = normalized input ++ (if byte = lf ∧ input.getLast? ≠ some cr then [cr] else []) ++ [byte] := by
  have hbefore : ∀ x ∈ input.zipIdx, (input ++ [byte])[x.2 - 1]? = input[x.2 - 1]? := by
    intro x hx
    have hlt := List.snd_lt_of_mem_zipIdx hx
    apply List.getElem?_append_left
    omega
  have hlast : (0 < input.length ∧ (input ++ [byte])[input.length - 1]? = some cr) ↔ input.getLast? = some cr := by
    rw [List.getLast?_eq_getElem?]
    cases input with
    | nil => simp
    | cons first input =>
      rw [List.getElem?_append_left (by simp)]
      simp
  have hhead : (input.zipIdx.flatMap fun x => if x.1 = lf ∧ ¬(0 < x.2 ∧ (input ++ [byte])[x.2 - 1]? = some cr) then [cr, x.1] else [x.1]) =
      normalized input := by
    apply List.flatMap_congr
    intro x hx
    rw [hbefore x hx]
  have htail : ([(byte, input.length)].flatMap fun x => if x.1 = lf ∧ ¬(0 < x.2 ∧ (input ++ [byte])[x.2 - 1]? = some cr) then [cr, x.1] else [x.1]) =
      (if byte = lf ∧ input.getLast? ≠ some cr then [cr] else []) ++ [byte] := by
    rw [List.flatMap_singleton]
    simp only [hlast]
    split <;> rfl
  rw [normalized, List.zipIdx_append, List.flatMap_append, hhead, List.append_assoc, ← htail]
  simp

theorem foldl_normalizeByte_append (data out : Bytes) (last : Option UInt8) :
    data.foldl normalizeByte { normalized := out, last } =
      { normalized := out ++ (data.foldl normalizeByte { normalized := [], last }).normalized
        last := (data.foldl normalizeByte { normalized := [], last }).last } := by
  induction data generalizing out last with
  | nil => simp
  | cons byte data ih =>
    rw [List.foldl_cons, List.foldl_cons, normalizeByte, normalizeByte, ih, ih ([] ++ _ ++ _)]
    simp

/-- Reading on from the normal form of what came before gives the normal form of the whole. -/
theorem foldl_normalizeByte (input data : Bytes) :
    data.foldl normalizeByte { normalized := normalized input, last := input.getLast? } =
      { normalized := normalized (input ++ data), last := (input ++ data).getLast? } := by
  induction data generalizing input with
  | nil => simp
  | cons byte data ih =>
    have hstep : normalizeByte { normalized := normalized input, last := input.getLast? } byte =
        { normalized := normalized (input ++ [byte]), last := (input ++ [byte]).getLast? } := by
      rw [normalizeByte, normalized_snoc]
      simp
    rw [List.foldl_cons, hstep, ih, List.append_assoc, List.singleton_append]

/-! ## Runs -/

namespace QueueFile

/-- What comes out of a file for what goes in. -/
def expected (f : QueueFile) (input : Bytes) : Bytes :=
  match f.behavior with
  | .raw => input
  | .normalizeLf _ => normalized input

end QueueFile

namespace QueueDevice

/-- The queue of a file holds what was written and not yet read, and the normaliser knows the
last byte. -/
structure Accounted (d : QueueDevice) (i : Nat) (f : QueueFile) : Prop where
  reader : f.reader = i
  writer : f.writer = i
  prev : ∀ p, f.behavior = .normalizeLf p → p = i ∧ d.heap.prevs i = (d.written i).getLast?
  bytes : d.delivered i ++ d.heap.queues i = f.expected (d.written i)

structure Inv (d : QueueDevice) : Prop where
  files : ∀ i f, d.files[i]? = some f → d.Accounted i f
  handles : ∀ h ∈ d.handles, d.files[h.1]? = some h.2
  fresh : ∀ i, d.files.length ≤ i → d.heap.queues i = [] ∧ d.heap.prevs i = none ∧ d.written i = [] ∧ d.delivered i = []
  reported : ∀ r ∈ d.reported, r.1 = r.2

theorem new_inv : Inv new where
  files i f h := by simp [new] at h
  handles h hmem := by simp [new] at hmem
  fresh _ _ := ⟨rfl, rfl, rfl, rfl⟩
  reported r hmem := by simp [new] at hmem

section
variable {d : QueueDevice} {i j : Nat} {f g : QueueFile}

/-- A file is accounted for by what is kept under its number. -/
theorem Accounted.of_same {d' : QueueDevice} (h : d.Accounted i f) (hqueue : d'.heap.queues i = d.heap.queues i)
    (hprev : d'.heap.prevs i = d.heap.prevs i) (hwritten : d'.written i = d.written i) (hdelivered : d'.delivered i = d.delivered i) :
    d'.Accounted i f where
  reader := h.reader
  writer := h.writer
  prev p hp := by
    rw [hprev, hwritten]
    exact h.prev p hp
  bytes := by
    rw [hqueue, hwritten, hdelivered]
    exact h.bytes

/-- A call on one file is a call on what is kept under its number. -/
structure Touches (i : Nat) (d d' : QueueDevice) : Prop where
  files : d'.files = d.files
  handles : d'.handles = d.handles
  heap : ∀ j, j ≠ i → d'.heap.queues j = d.heap.queues j ∧ d'.heap.prevs j = d.heap.prevs j
  history : ∀ j, j ≠ i → d'.written j = d.written j ∧ d'.delivered j = d.delivered j

theorem Inv.touches {d' : QueueDevice} (h : Inv d) (hi : d.files[i]? = some f) (ht : Touches i d d') (hacc : d'.Accounted i f)
    (hreported : ∀ r ∈ d'.reported, r.1 = r.2) : Inv d' where
  files j g hj := by
    rw [ht.files] at hj
    by_cases hji : j = i
    · subst hji
      cases hi.symm.trans hj
      exact hacc
    · exact (h.files j g hj).of_same (ht.heap j hji).1 (ht.heap j hji).2 (ht.history j hji).1 (ht.history j hji).2
  handles x hx := by
    rw [ht.handles] at hx
    rw [ht.files]
    exact h.handles x hx
  fresh j hj := by
    rw [ht.files] at hj
    have hlt := (List.getElem?_eq_some_iff.mp hi).1
    have hji : j ≠ i := by omega
    rw [(ht.heap j hji).1, (ht.heap j hji).2, (ht.history j hji).1, (ht.history j hji).2]
    exact h.fresh j hj
  reported := hreported

theorem write_reports (f : QueueFile) (data : Bytes) (s : QueueHeap) : (f.write data s).1 = data.length := by
  unfold QueueFile.write
  split
  · rfl
  · split
    · rename_i hempty
      rw [hempty]
      rfl
    · rfl

theorem writeTo_touches (h : d.Accounted i f) (data : Bytes) : Touches i d (d.writeTo i f data) where
  files := rfl
  handles := rfl
  heap j hj := by
    unfold writeTo QueueFile.write
    cases hb : f.behavior with
    | raw => simp [QueueHeap.writeQueue, QueueHeap.setQueue, h.writer, hj]
    | normalizeLf p =>
      obtain ⟨rfl, -⟩ := h.prev p hb
      dsimp only
      split
      · exact ⟨rfl, rfl⟩
      · simp [QueueHeap.writeQueue, QueueHeap.setQueue, QueueHeap.setPrev, h.writer, hj]
  history j hj := ⟨Function.update_of_ne hj _ _, rfl⟩

/-- Writing brings the normal form of what was written up to date. -/
theorem writeTo_accounted (h : d.Accounted i f) (data : Bytes) : (d.writeTo i f data).Accounted i f := by
  have hwritten : (d.writeTo i f data).written i = d.written i ++ data := Function.update_self ..
  have hbytes := h.bytes
  cases hb : f.behavior with
  | raw =>
    refine ⟨h.reader, h.writer, fun p hp => ?_, ?_⟩
    · cases hb.symm.trans hp
    · have hqueue : (d.writeTo i f data).heap.queues i = d.heap.queues i ++ data := by
        simp [writeTo, QueueFile.write, hb, QueueHeap.writeQueue, QueueHeap.setQueue, h.writer]
      simp only [QueueFile.expected, hb] at hbytes ⊢
      rw [hwritten, hqueue, ← hbytes, List.append_assoc]
      rfl
  | normalizeLf p =>
    obtain ⟨rfl, hprev⟩ := h.prev p hb
    simp only [QueueFile.expected, hb] at hbytes
    by_cases hempty : data = []
    · subst hempty
      have hheap : (d.writeTo p f []).heap = d.heap := by simp [writeTo, QueueFile.write, hb]
      refine ⟨h.reader, h.writer, fun q hq => ?_, ?_⟩
      · cases hb.symm.trans hq
        rw [hheap, hwritten, List.append_nil]
        exact ⟨rfl, hprev⟩
      · rw [hheap, hwritten, List.append_nil]
        exact h.bytes
    · have hscan := foldl_normalizeByte (d.written p) data
      rw [foldl_normalizeByte_append, ← hprev] at hscan
      obtain ⟨hnormalized, hlast⟩ := LfScan.mk.inj hscan
      have hqueue : (d.writeTo p f data).heap.queues p =
          d.heap.queues p ++ (data.foldl normalizeByte { normalized := [], last := d.heap.prevs p }).normalized := by
        simp [writeTo, QueueFile.write, hb, hempty, QueueHeap.writeQueue, QueueHeap.setQueue, QueueHeap.setPrev, h.writer]
      have hprev' : (d.writeTo p f data).heap.prevs p =
          (data.foldl normalizeByte { normalized := [], last := d.heap.prevs p }).last := by
        simp [writeTo, QueueFile.write, hb, hempty, QueueHeap.writeQueue, QueueHeap.setQueue, QueueHeap.setPrev]
      refine ⟨h.reader, h.writer, fun q hq => ?_, ?_⟩
      · cases hb.symm.trans hq
        rw [hprev', hwritten, hlast]
        exact ⟨rfl, rfl⟩
      · simp only [QueueFile.expected, hb]
        rw [hwritten, hqueue, ← hnormalized, ← hbytes, List.append_assoc]
        rfl

theorem readFrom_touches (h : d.Accounted i f) (len : Nat) : Touches i d (d.readFrom i f len) where
  files := rfl
  handles := rfl
  heap j hj := ⟨by simp [readFrom, QueueFile.read, QueueHeap.readQueue, QueueHeap.setQueue, h.reader, hj], rfl⟩
  history j hj := ⟨rfl, Function.update_of_ne hj _ _⟩

/-- Reading moves bytes from the queue to the reader. -/
theorem readFrom_accounted (h : d.Accounted i f) (len : Nat) : (d.readFrom i f len).Accounted i f := by
  refine ⟨h.reader, h.writer, h.prev, ?_⟩
  have hbytes := h.bytes
  have hmoved : (d.readFrom i f len).delivered i ++ (d.readFrom i f len).heap.queues i = d.delivered i ++ d.heap.queues i := by
    simp [readFrom, QueueFile.read, QueueHeap.readQueue, QueueHeap.setQueue, h.reader]
  rw [hmoved]
  exact hbytes

theorem clearFile_touches (h : d.Accounted i f) : Touches i d (d.clearFile i f) where
  files := rfl
  handles := rfl
  heap j hj := by
    unfold clearFile QueueFile.clear
    cases hb : f.behavior with
    | raw => simp [QueueHeap.setQueue, h.reader, h.writer, hj]
    | normalizeLf p =>
      obtain ⟨rfl, -⟩ := h.prev p hb
      simp [QueueHeap.setQueue, QueueHeap.setPrev, h.reader, h.writer, hj]
  history j hj := ⟨Function.update_of_ne hj _ _, Function.update_of_ne hj _ _⟩

theorem clearFile_accounted (h : d.Accounted i f) : (d.clearFile i f).Accounted i f := by
  have hwritten : (d.clearFile i f).written i = [] := Function.update_self ..
  have hdelivered : (d.clearFile i f).delivered i = [] := Function.update_self ..
  have hqueue : (d.clearFile i f).heap.queues i = [] := by
    unfold clearFile QueueFile.clear
    cases f.behavior <;> simp [QueueHeap.setQueue, QueueHeap.setPrev, h.reader, h.writer]
  refine ⟨h.reader, h.writer, fun p hp => ?_, ?_⟩
  · obtain ⟨rfl, -⟩ := h.prev p hp
    refine ⟨rfl, ?_⟩
    rw [hwritten]
    simp [clearFile, QueueFile.clear, hp, QueueHeap.setPrev]
  · rw [hwritten, hdelivered, hqueue]
    unfold QueueFile.expected
    split <;> rfl

/-- A new file has a queue that nothing was written to. -/
theorem Inv.addFile (h : Inv d) (hreader : f.reader = d.files.length) (hwriter : f.writer = d.files.length)
    (hprev : ∀ p, f.behavior = .normalizeLf p → p = d.files.length) : Inv { d with files := d.files ++ [f] } where
  files j g hj := by
    rw [List.getElem?_append] at hj
    split at hj
    · exact (h.files j g hj).of_same rfl rfl rfl rfl
    · rename_i hlt
      obtain ⟨hqueue, hprevs, hwritten, hdelivered⟩ := h.fresh d.files.length le_rfl
      have hlast : j = d.files.length := by
        have hbound := (List.getElem?_eq_some_iff.mp hj).1
        simp at hbound
        omega
      subst hlast
      rw [Nat.sub_self] at hj
      cases hj
      refine ⟨hreader, hwriter, fun p hp => ⟨hprev p hp, ?_⟩, ?_⟩
      · dsimp only
        rw [hprevs, hwritten]
        rfl
      · dsimp only
        rw [hqueue, hwritten, hdelivered]
        unfold QueueFile.expected
        split <;> rfl
  handles x hx := by
    have hfile := h.handles x hx
    exact (List.getElem?_append_left (List.getElem?_eq_some_iff.mp hfile).1).trans hfile
  fresh j hj := by
    rw [List.length_append] at hj
    exact h.fresh j (by omega)
  reported := h.reported

theorem Inv.step (h : Inv d) (op : QueueOp) : Inv (d.step op) := by
  cases op with
  | loopback name => exact h.addFile rfl rfl fun p hp => by cases hp
  | program name => exact h.addFile rfl rfl fun p hp => (QueueWriteBehavior.normalizeLf.inj hp).symm
  | «open» i =>
    cases hi : d.files[i]? with
    | none => simpa only [QueueDevice.step, hi, Option.elim_none] using h
    | some f =>
      simp only [QueueDevice.step, hi, Option.elim_some]
      refine ⟨fun j g hj => (h.files j g hj).of_same rfl rfl rfl rfl, fun x hx => ?_, h.fresh, h.reported⟩
      cases List.mem_append.mp hx with
      | inl hold => exact h.handles x hold
      | inr hnew =>
        cases List.mem_singleton.mp hnew
        exact hi
  | write handle data =>
    cases hh : d.handles[handle]? with
    | none => simpa only [QueueDevice.step, hh, Option.elim_none] using h
    | some x =>
      simp only [QueueDevice.step, hh, Option.elim_some]
      have hfile := h.handles x (List.mem_of_getElem? hh)
      have hacc := h.files x.1 x.2 hfile
      refine h.touches hfile (writeTo_touches hacc data) (writeTo_accounted hacc data) fun r hr => ?_
      cases List.mem_append.mp hr with
      | inl hold => exact h.reported r hold
      | inr hnew =>
        cases List.mem_singleton.mp hnew
        exact (write_reports x.2 data d.heap).symm
  | read handle len =>
    cases hh : d.handles[handle]? with
    | none => simpa only [QueueDevice.step, hh, Option.elim_none] using h
    | some x =>
      simp only [QueueDevice.step, hh, Option.elim_some]
      have hfile := h.handles x (List.mem_of_getElem? hh)
      have hacc := h.files x.1 x.2 hfile
      exact h.touches hfile (readFrom_touches hacc len) (readFrom_accounted hacc len) h.reported
  | clear i =>
    cases hi : d.files[i]? with
    | none => simpa only [QueueDevice.step, hi, Option.elim_none] using h
    | some f =>
      simp only [QueueDevice.step, hi, Option.elim_some]
      have hacc := h.files i f hi
      exact h.touches hi (clearFile_touches hacc) (clearFile_accounted hacc) h.reported

end

/-- In every run of handles on a program file, what was delivered and what is still queued is
the normal form of what was written, and every write reported all that it was given. -/
theorem run_normalizes (ops : List QueueOp) (i p : Nat) (f : QueueFile) (hf : (run step new ops).files[i]? = some f)
    (hb : f.behavior = .normalizeLf p) :
    (run step new ops).delivered i ++ (run step new ops).heap.queues i = normalized ((run step new ops).written i) ∧
      ∀ r ∈ (run step new ops).reported, r.1 = r.2 := by
  have hstep : ∀ (d : QueueDevice) (op : QueueOp), d.Inv → (d.step op).Inv := fun _ op h => h.step op
  have hinv : Inv (run step new ops) := run_invariant_of_step hstep new_inv ops
  have hbytes := (hinv.files i f hf).bytes
  rw [QueueFile.expected, hb] at hbytes
  exact ⟨hbytes, hinv.reported⟩

/-- A CR and its LF fall into writes of two handles. -/
def splitRun : List QueueOp := [.program "program", .open 0, .open 0, .write 0 [97, cr], .read 1 2, .write 1 [lf, lf]]

theorem run_normalizes_splitRun :
    (run step new splitRun).delivered 0 ++ (run step new splitRun).heap.queues 0 = normalized ((run step new splitRun).written 0) ∧
      ∀ r ∈ (run step new splitRun).reported, r.1 = r.2 :=
  run_normalizes splitRun 0 0 (.program "program" 0) rfl rfl

example : normalized [97, cr, lf, lf] = [97, cr, lf, cr, lf] := by decide

end QueueDevice
end Star9
