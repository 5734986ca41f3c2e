import Star9.Base.Triple
import Star9.Fs.MemHandle
import Star9.Fs.MemList

/-!
# Writing files and trees

The helpers built from several operations: writing a whole file, making a chain of
directories, removing a subtree. A file is always written to a node of its own, and
the helpers on trees stay within their path.
-/
namespace Star9
open Base Prog

namespace MemFs
variable {fs fs' : MemFs}

/-! ## A file of its own -/

/-- A handle on the node `id` that nothing was read from or written to. -/
structure FreshFile (id : NodeId) (f : NodeFile) : Prop where
  node : f.node = id
  data : f.data = []
  offset : f.offset = 0
  dirty : f.dirty = false
  closed : f.closed = false
  isFile : f.metadata.mode.isDir = false

/-- The mode of a file that `open_file` has created. -/
def createdMode (perm : FileMode) : FileMode :=
  if perm.bits = 0 then FileMode.fromPerm 0o644 else FileMode.fromPerm perm.perm

theorem shape_insertNew_congr (h : fs'.shape = fs.shape) {p : String} {n n' : NodeInner} (hn : n'.core = n.core) :
    (fs'.insertNew p n').shape = (fs.insertNew p n).shape := by
  have hnodes : fs'.nodes = fs.nodes := congrArg Shape.nodes h
  have hnext : fs'.next = fs.next := congrArg Shape.next h
  have hcore : ∀ i, (fs'.heap i).core = (fs.heap i).core := congrFun (congrArg Shape.core h)
  refine shape_ext ?_ ?_ fun i => ?_
  · simp only [insertNew, hnodes, hnext]
  · simp only [insertNew, hnext]
  · simp only [insertNew, hnext]
    by_cases hi : i = fs.next
    · subst hi
      simp [hn]
    · simp [hi, hcore]

/-- A change to the node that was inserted last. -/
theorem shape_updateNode_insertNew {p : String} {n : NodeInner} {f : NodeInner → NodeInner} {m : NodeInner}
    (h : fs'.shape = (fs.insertNew p n).shape) (hf : (f (fs'.heap fs.next)).core = m.core) :
    (fs'.updateNode fs.next f).shape = (fs.insertNew p m).shape := by
  have hnodes : fs'.nodes = (fs.insertNew p n).nodes := congrArg Shape.nodes h
  have hnext : fs'.next = (fs.insertNew p n).next := congrArg Shape.next h
  have hcore : ∀ i, (fs'.heap i).core = ((fs.insertNew p n).heap i).core := congrFun (congrArg Shape.core h)
  refine shape_ext hnodes hnext fun i => ?_
  by_cases hi : i = fs.next
  · subst hi
    simpa [insertNew] using hf
  · rw [updateNode_heap, Function.update_of_ne hi, hcore]
    simp [insertNew, hi]

theorem core_of_insertNew {p : String} {n : NodeInner} (h : fs'.shape = (fs.insertNew p n).shape) :
    fs'.nodes[p]? = some fs.next ∧ (fs'.heap fs.next).core = n.core := by
  have hnodes : fs'.nodes = (fs.insertNew p n).nodes := congrArg Shape.nodes h
  have hcore : ∀ i, (fs'.heap i).core = ((fs.insertNew p n).heap i).core := congrFun (congrArg Shape.core h)
  refine ⟨?_, ?_⟩
  · rw [hnodes, insertNew_get, if_pos rfl]
  · rw [hcore]
    simp [insertNew]

/-- The handle that a fresh node is opened with. -/
theorem freshFile_openNode (fs : MemFs) (id : NodeId) (hdata : (fs.heap id).data = [])
    (hdir : (fs.heap id).metadata.isDir = false) :
    ∃ f, openNode id fs = (.ok (.node f), fs) ∧ FreshFile id f :=
  ⟨_, rfl, ⟨rfl, hdata, rfl, rfl, rfl, hdir⟩⟩

theorem chmod_of_exists {p : String} {id : NodeId} (hp : validPath p = true) (hi : fs.nodes[p]? = some id)
    (mode : FileMode) : chmod p mode fs = (.ok (), fs.updateNode id
      (NodeInner.setMode ((fs.heap id).metadata.mode.typeBits ||| FileMode.fromPerm mode.perm))) := by
  unfold chmod nodeOr
  rw [cleanPath_of_valid hp, bind_assoc, get_bind, hi]
  rfl

section
variable {p : String}

theorem chmod_created (perm : FileMode) (hp : validPath p = true)
    (hfs : fs'.shape = (fs.insertNew p (NodeInner.file (baseName p) [] (FileMode.fromPerm 0o644))).shape) :
    ∃ fs₁, chmod p perm fs' = (.ok (), fs₁) ∧
      fs₁.shape = (fs.insertNew p (NodeInner.file (baseName p) [] (FileMode.fromPerm perm.perm))).shape := by
  obtain ⟨hi, hcore⟩ := core_of_insertNew hfs
  have hmode : (fs'.heap fs.next).metadata.mode = FileMode.fromPerm 0o644 := congrArg NodeCore.mode hcore
  have hbits : (FileMode.fromPerm 0o644).typeBits ||| FileMode.fromPerm perm.perm = FileMode.fromPerm perm.perm := by
    have hzero : (FileMode.fromPerm 0o644).typeBits = ⟨0⟩ := by decide
    rw [hzero]
    exact congrArg FileMode.mk UInt32.zero_or
  refine ⟨_, chmod_of_exists hp hi perm, shape_updateNode_insertNew hfs ?_⟩
  rw [hmode, hbits, NodeInner.core_setMode, hcore]
  rfl

/-- The end of `open_file` on a file that was just created. -/
theorem openTail_created (perm : FileMode) (hp : validPath p = true) {f : NodeFile} (hf : FreshFile fs.next f) (flags : OpenFlags)
    (hflags : flags.contains .append = false)
    (hfs : fs'.shape = (fs.insertNew p (NodeInner.file (baseName p) [] (FileMode.fromPerm 0o644))).shape) :
    ∃ g fs'', (FileSystem.openWithPerm open_ chmod MemFile.handle p perm (.node f) >>=
        FileSystem.openAppending MemFile.handle flags) fs' = (.ok (.node g), fs'') ∧ FreshFile fs.next g ∧
      fs''.shape = (fs.insertNew p (NodeInner.file (baseName p) [] (createdMode perm))).shape := by
  have happ : ∀ (h : MemFile) (s : MemFs), FileSystem.openAppending MemFile.handle flags h s = (.ok h, s) := by
    intro h s
    rw [FileSystem.openAppending, hflags, if_neg Bool.false_ne_true]
    rfl
  unfold FileSystem.openWithPerm createdMode
  by_cases hperm : perm.bits = 0
  · refine ⟨f, fs', ?_, hf, ?_⟩
    · rw [if_neg (not_not.mpr hperm), pure_bind, happ]
    · rw [if_pos hperm]
      exact hfs
  · obtain ⟨fs₁, hchmod, hfs₁⟩ := chmod_created perm hp hfs
    obtain ⟨hi, hcore⟩ := core_of_insertNew hfs₁
    have hmode : (fs₁.heap fs.next).metadata.mode = FileMode.fromPerm perm.perm := congrArg NodeCore.mode hcore
    have hdata : (fs₁.heap fs.next).data = [] := congrArg NodeCore.data hcore
    have hdir : (fs₁.heap fs.next).metadata.isDir = false := by simp [Metadata.isDir, hmode]
    obtain ⟨r, hclose⟩ := MemFile.withFile_close_of_settled (f := .node f) (by simp [MemFile.settled, hf.dirty]) fs'
    have hsupported : FileSystem.chmodSupported chmod p perm fs' = (.ok (), fs₁) := by
      unfold FileSystem.chmodSupported
      rw [bind_ok (attempt_ok hchmod)]
      rfl
    have hopen := open_of_file FsContext.new hp hi (by simp [hmode]) hdir
    obtain ⟨g, hg, hfresh⟩ := freshFile_openNode (fs₁.updateNode fs.next (NodeInner.setName (baseName p)))
      fs.next (by simp [NodeInner.setName, hdata]) (by simpa [NodeInner.setName, Metadata.isDir] using hdir)
    refine ⟨g, fs₁.updateNode fs.next (NodeInner.setName (baseName p)), ?_, hfresh, ?_⟩
    · rw [if_pos hperm, bind_assoc, bind_ok hclose, bind_assoc, bind_ok hsupported, bind_ok (hopen.trans hg), happ]
    · rw [if_neg hperm, ← hfs₁]
      exact shape_updateNode fun n => n.core_setName _

/-- The flags that `write_file` opens with. -/
def writeFlags : OpenFlags := .wronly ||| .create ||| .trunc

theorem openAt_err_notFound {depth : Nat} {ctx : FsContext} {name : String} {e : Error}
    (h : (openAt depth ctx name fs).1 = .err e) : e.errorKind = .notFound := by
  have hdir : ∀ p, (openDir p fs).1 = .err e → e.errorKind = .notFound := by
    intro p hp
    unfold openDir at hp
    rw [get_bind] at hp
    dsimp only at hp
    rw [branch_apply] at hp
    split at hp
    · cases hp
      rfl
    · cases hp
  induction depth generalizing name with
  | zero => cases h
  | succ depth ih =>
    unfold openAt at h
    rw [branch_apply] at h
    split at h
    · cases h
      rfl
    · rw [get_bind] at h
      cases hi : fs.nodes[cleanPath name]? with
      | none =>
        simp only [hi] at h
        exact hdir _ h
      | some i =>
        simp only [hi, branch_apply] at h
        split at h
        · exact ih h
        · split at h
          · cases h
          · exact hdir _ h

/-- `write_file` goes through `create`, whether there is a file or not. -/
theorem openFile_creates (perm : FileMode) (h : (open_ FsContext.new p fs).1 ≠ .abort) :
    ∃ fs₁, fs₁.shape = fs.shape ∧ memFs.openFile p writeFlags perm fs = (create p >>= fun f =>
      FileSystem.openWithPerm open_ chmod MemFile.handle p perm f >>=
        FileSystem.openAppending MemFile.handle writeFlags) fs₁ := by
  have hwrite : writeFlags.isWrite = true := by decide
  have hshape := preserves_open FsContext.new p fs
  rcases hopen : open_ FsContext.new p fs with ⟨f | e | _, fs₁⟩ <;> rw [hopen] at hshape h
  · refine ⟨fs₁, hshape, ?_⟩
    rw [openFile_of_ok hwrite hopen]
    rfl
  · have hkind : e.errorKind = .notFound := openAt_err_notFound (congrArg Prod.fst hopen)
    refine ⟨fs₁, hshape, ?_⟩
    rw [openFile_of_err hwrite hopen, hkind]
    rfl
  · exact absurd rfl h

/-- `write_file` opens a file that it has just created. -/
theorem openFile_created (hp : validPath p = true) (perm : FileMode) (hopen : (open_ FsContext.new p fs).1 ≠ .abort)
    (hpar : (parentExists p fs).1 = .ok true) :
    ∃ f fs', memFs.openFile p writeFlags perm fs = (.ok (.node f), fs') ∧ FreshFile fs.next f ∧
      fs'.shape = (fs.insertNew p (NodeInner.file (baseName p) [] (createdMode perm))).shape := by
  obtain ⟨fs₁, hshape, hout⟩ := openFile_creates perm hopen
  have hnext : fs₁.next = fs.next := congrArg Shape.next hshape
  have hpar₁ : (parentExists (cleanPath p) fs₁).1 = .ok true := by
    rw [parentExists_of_shape hshape, cleanPath_of_valid hp, hpar]
  have hcreate := create_of_parent hpar₁
  rw [cleanPath_of_valid hp] at hcreate
  have hshape₂ : (fs₁.insertNew p (NodeInner.file (baseName p) [] (FileMode.fromPerm 0o644))).recomputeDirSizes.shape =
      (fs₁.insertNew p (NodeInner.file (baseName p) [] (FileMode.fromPerm 0o644))).shape := shape_recomputeDirSizes
  obtain ⟨-, hcore⟩ := core_of_insertNew hshape₂
  obtain ⟨f, hf, hfresh⟩ := freshFile_openNode _ fs₁.next (congrArg NodeCore.data hcore)
    (by simpa [Metadata.isDir, NodeInner.core, NodeInner.file] using congrArg (fun c => c.mode.isDir) hcore)
  obtain ⟨g, fs'', htail, hgfresh, hfinal⟩ := openTail_created perm hp hfresh writeFlags (by decide) hshape₂
  rw [hnext] at hgfresh
  refine ⟨g, fs'', ?_, hgfresh, hfinal.trans (shape_insertNew_congr hshape rfl)⟩
  rw [hout, bind_ok (hcreate.trans hf), htail]

theorem openFile_refused (hp : validPath p = true) (perm : FileMode)
    (h : (open_ FsContext.new p fs).1 = .abort ∨ (parentExists p fs).1 ≠ .ok true) :
    (memFs.openFile p writeFlags perm fs).1.isOk = false ∧
      (memFs.openFile p writeFlags perm fs).2.shape = fs.shape := by
  by_cases hopen : (open_ FsContext.new p fs).1 = .abort
  · have hshape := preserves_open FsContext.new p fs
    have hout : open_ FsContext.new p fs = (.abort, (open_ FsContext.new p fs).2) := Prod.ext hopen rfl
    rw [openFile_of_abort (by decide) hout]
    exact ⟨rfl, hshape⟩
  · obtain ⟨fs₁, hshape, hout⟩ := openFile_creates perm hopen
    have hpar₁ : (parentExists (cleanPath p) fs₁).1 ≠ .ok true := by
      rw [parentExists_of_shape hshape, cleanPath_of_valid hp]
      exact h.resolve_left hopen
    obtain ⟨hfail, hstate⟩ := create_of_no_parent hpar₁
    rw [hout, bind_apply]
    rcases hc : create p fs₁ with ⟨f | e | _, fs'⟩ <;> rw [hc] at hfail hstate
    · cases hfail
    · exact ⟨rfl, (congrArg shape hstate).trans hshape⟩
    · exact ⟨rfl, (congrArg shape hstate).trans hshape⟩

/-! ### Its contents -/

/-- Writing to a fresh handle gives it the data, if there is room. -/
theorem write_fresh {id : NodeId} {f : NodeFile} (hf : FreshFile id f) {data : Bytes} (hdata : data.length ≤ isizeMax)
    (fs : MemFs) :
    ∃ g, MemFile.handle.write data (.node f, fs) = (.ok data.length, .node g, { fs with ticks := fs.ticks + 1 }) ∧
      g.node = id ∧ g.data = data ∧ g.dirty = true ∧ g.closed = false := by
  have hstop : min (0 + data.length) (2 ^ 64 - 1) = data.length := by
    unfold isizeMax at hdata
    omega
  have hroom : resizeFails [] data.length = false := by
    simp only [resizeFails, Bool.and_eq_false_iff, decide_eq_false_iff_not, not_lt]
    exact Or.inr hdata
  have hgrown : (if ([] : Bytes).length < data.length then resize [] data.length else []) = resize [] data.length := by
    split
    · rfl
    · rename_i h
      have : data.length = 0 := by simpa using h
      rw [this]
      rfl
  have hover : overwrite (resize [] data.length) 0 data = data := by simp [overwrite, resize]
  have hzero : (0 : UInt64).toNat = 0 := rfl
  have hsmall : resizeFails [] 0 = false := by decide
  simp only [MemFile.handle, MemFile.dispatch, NodeFile.write, hf.closed, hf.isFile, hf.data, hf.offset, hzero, hstop,
    hsmall, hroom, Bool.false_eq_true, if_false, List.length_nil, lt_self_iff_false]
  refine ⟨_, rfl, hf.node, ?_, rfl, rfl⟩
  exact (congrArg (fun d => overwrite d 0 data) hgrown).trans hover

theorem write_fresh_fails {id : NodeId} {f : NodeFile} (hf : FreshFile id f) {data : Bytes}
    (hdata : isizeMax < data.length) (fs : MemFs) :
    ∃ g, MemFile.handle.write data (.node f, fs) = (.abort, .node g, fs) := by
  have hstop : isizeMax < min (0 + data.length) (2 ^ 64 - 1) := by
    unfold isizeMax at hdata ⊢
    omega
  have hroom : resizeFails [] (min (0 + data.length) (2 ^ 64 - 1)) = true := by
    have hpos : 0 < min (0 + data.length) (2 ^ 64 - 1) := Nat.lt_of_le_of_lt (Nat.zero_le _) hstop
    simp only [resizeFails, List.length_nil, hpos, hstop, decide_true, Bool.and_self]
  have hzero : (0 : UInt64).toNat = 0 := rfl
  have hsmall : resizeFails [] 0 = false := by decide
  simp only [MemFile.handle, MemFile.dispatch, NodeFile.write, hf.closed, hf.isFile, hf.data, hf.offset, hzero,
    hsmall, hroom, Bool.false_eq_true, if_false, if_true, List.length_nil, lt_self_iff_false]
  exact ⟨_, rfl⟩

theorem close_written {id : NodeId} {g : NodeFile} {data : Bytes} (hnode : g.node = id) (hdata : g.data = data)
    (hdirty : g.dirty = true) (hopen : g.closed = false) (fs : MemFs) :
    ∃ r, withFile (.node g) MemFile.handle.close fs = (.ok (.ok (), r), fs.setData id data) := by
  subst hnode hdata
  refine ⟨.node { g with dirty := false, closed := true }, ?_⟩
  unfold withFile
  simp only [MemFile.handle, MemFile.dispatch, NodeFile.close, NodeFile.sync, hopen, hdirty, Bool.false_eq_true,
    if_false, if_true]

/-- `write_file` puts a file of its own at the path. -/
theorem writeFile_of_parent (hp : validPath p = true) {data : Bytes} (hdata : data.length ≤ isizeMax) (perm : FileMode)
    (hopen : (open_ FsContext.new p fs).1 ≠ .abort) (hpar : (parentExists p fs).1 = .ok true) :
    ∃ fs', memFs.writeFile p data perm fs = (.ok (), fs') ∧
      fs'.shape = (fs.insertNew p (NodeInner.file (baseName p) data (createdMode perm))).shape := by
  obtain ⟨f, fs₁, hfile, hfresh, hshape⟩ := openFile_created hp perm hopen hpar
  obtain ⟨g, hwrite, hnode, hg, hdirty, hclosed⟩ := write_fresh hfresh hdata fs₁
  obtain ⟨r, hclose⟩ := close_written hnode hg hdirty hclosed { fs₁ with ticks := fs₁.ticks + 1 }
  have hwith : withFile (.node f) (memFs.file.write data) fs₁ =
      (.ok (.ok data.length, .node g), { fs₁ with ticks := fs₁.ticks + 1 }) := by
    have hw : memFs.file.write data (.node f, fs₁) = _ := hwrite
    rw [withFile, hw]
  refine ⟨MemFs.setData fs.next data { fs₁ with ticks := fs₁.ticks + 1 }, ?_, ?_⟩
  · unfold FileSystem.writeFile
    have hfile' : memFs.openFile p (.wronly ||| .create ||| .trunc) perm fs = (.ok (.node f), fs₁) := hfile
    rw [bind_ok hfile', bind_ok hwith]
    exact bind_ok hclose
  · have hcore := (core_of_insertNew hshape).2
    have hset : (MemFs.setData fs.next data { fs₁ with ticks := fs₁.ticks + 1 }).shape =
        (fs₁.updateNode fs.next (NodeInner.setData data (fs₁.clock (fs₁.ticks + 1)))).shape := rfl
    rw [hset]
    refine shape_updateNode_insertNew hshape ?_
    rw [NodeInner.core_setData, hcore]
    rfl

/-- However `write_file` ends, it has put a node of its own at the path or has changed nothing. -/
theorem writeFile_cases (hp : validPath p = true) (data : Bytes) (perm : FileMode) (fs : MemFs) :
    (memFs.writeFile p data perm fs).2.shape = fs.shape ∨ ∃ n : NodeInner,
      (memFs.writeFile p data perm fs).2.shape = (fs.insertNew p n).shape := by
  by_cases hopen : (open_ FsContext.new p fs).1 = .abort ∨ (parentExists p fs).1 ≠ .ok true
  · obtain ⟨hfail, hshape⟩ := openFile_refused hp perm hopen
    have hfile : memFs.openFile p (.wronly ||| .create ||| .trunc) perm fs = memFs.openFile p writeFlags perm fs := rfl
    unfold FileSystem.writeFile
    rw [bind_apply, hfile]
    rcases h : memFs.openFile p writeFlags perm fs with ⟨f | e | _, fs'⟩ <;> rw [h] at hfail hshape
    · cases hfail
    · exact Or.inl hshape
    · exact Or.inl hshape
  · rw [not_or, not_not] at hopen
    obtain ⟨hopen, hpar⟩ := hopen
    by_cases hdata : data.length ≤ isizeMax
    · obtain ⟨fs', hout, hshape⟩ := writeFile_of_parent hp hdata perm hopen hpar
      rw [hout]
      exact Or.inr ⟨_, hshape⟩
    · obtain ⟨f, fs₁, hfile, hfresh, hshape⟩ := openFile_created hp perm hopen hpar
      obtain ⟨g, hwrite⟩ := write_fresh_fails hfresh (Nat.lt_of_not_le hdata) fs₁
      have hfile' : memFs.openFile p (.wronly ||| .create ||| .trunc) perm fs = (.ok (.node f), fs₁) := hfile
      have hwith : withFile (.node f) (memFs.file.write data) fs₁ = (.abort, fs₁) := by
        have hw : memFs.file.write data (.node f, fs₁) = _ := hwrite
        rw [withFile, hw]
      unfold FileSystem.writeFile
      rw [bind_ok hfile', bind_abort hwith]
      exact Or.inr ⟨_, hshape⟩

/-- A file that was written is a file of its own. -/
theorem writeFile_ok (hp : validPath p = true) {data : Bytes} {perm : FileMode} (hok : (memFs.writeFile p data perm fs).1 = .ok ()) :
    (memFs.writeFile p data perm fs).2.shape = (fs.insertNew p (NodeInner.file (baseName p) data (createdMode perm))).shape := by
  obtain ⟨f, fs₁, hfile, hrest⟩ := bind_fst_eq_ok.mp hok
  have hgranted : ¬((open_ FsContext.new p fs).1 = .abort ∨ (parentExists p fs).1 ≠ .ok true) := by
    intro h
    have hfail := (openFile_refused hp perm h).1
    have hfile' : memFs.openFile p writeFlags perm fs = (.ok f, fs₁) := hfile
    rw [hfile'] at hfail
    cases hfail
  rw [not_or, not_not] at hgranted
  have hdata : data.length ≤ isizeMax := by
    by_contra hlong
    obtain ⟨g, fs₂, hcreated, hfresh, -⟩ := openFile_created hp perm hgranted.1 hgranted.2
    have hfile' : memFs.openFile p writeFlags perm fs = (.ok f, fs₁) := hfile
    rw [hcreated, Prod.mk.injEq, Outcome.ok.injEq] at hfile'
    obtain ⟨rfl, rfl⟩ := hfile'
    obtain ⟨g', hwrite⟩ := write_fresh_fails hfresh (Nat.lt_of_not_le hlong) fs₂
    have hwith : withFile (.node g) (memFs.file.write data) fs₂ = (.abort, fs₂) := by
      have hw : memFs.file.write data (.node g, fs₂) = _ := hwrite
      rw [withFile, hw]
    rw [bind_abort hwith] at hrest
    cases hrest
  obtain ⟨fs', hout, hshape⟩ := writeFile_of_parent hp hdata perm hgranted.1 hgranted.2
  rw [hout]
  exact hshape

end

/-! ## Trees -/

section
variable {I : MemFs → Prop}

/-- Reading keeps whatever is read off the shape. -/
theorem safe_of_shape {α : Type} {p : Prog MemFs Error α} (hI : ∀ fs fs' : MemFs, I fs → fs'.shape = fs.shape → I fs')
    (hp : Preserves shape p) : Safe I (fun _ => True) p :=
  fun fs hfs => ⟨hI fs _ hfs (hp fs), fun _ _ => trivial⟩

/-- `remove_all` calls `remove` on paths within the one it is given. -/
theorem safe_removeAll (hI : ∀ fs fs' : MemFs, I fs → fs'.shape = fs.shape → I fs')
    (hI' : ∀ fs : MemFs, I fs → fs.Allocated) (depth : Nat) {name : String} (hname : validPath name = true)
    (hremove : ∀ q, validPath q = true → within name q = true → Safe I (fun _ => True) (remove q)) :
    Safe I (fun _ => True) (memFs.removeAll depth name) := by
  induction depth generalizing name with
  | zero => exact safe_abort
  | succ depth ih =>
    have hself := hremove name hname (within_self name)
    refine safe_then (safe_of_shape hI (preserves_stat _ _ _)) fun metadata => ?_
    refine safe_ite (fun _ => ?_) fun _ => hself
    have hlist : Safe I (fun es : List DirEntry => ∀ e ∈ es, ValidName e.name)
        (memFs.readDir (FsContext.new.withOrigin name "readdir") name) := by
      intro fs hfs
      exact ⟨hI fs _ hfs (preserves_readDir _ _ fs), fun es hes => readDir_names (hI' fs hfs) hes⟩
    refine safe_bind hlist fun es hes => safe_then (safe_forM fun e he => ?_) fun _ => hself
    refine ih (childPath_valid hname (hes e he)) fun q hq hqe => hremove q hq ?_
    rw [within_iff] at hqe ⊢
    obtain ⟨cs, hcs⟩ := hqe
    exact ⟨e.name :: cs, by rw [hcs, components_childPath name (hes e he), List.append_assoc]; rfl⟩

/-- The next path of a loop that goes down the components of a path. -/
theorem joinSlash_snoc {done : List String} (hdone : ∀ c ∈ done, ValidName c) (part : String) :
    (if joinSlash done = "" then part else joinSlash done ++ "/" ++ part) = joinSlash (done ++ [part]) := by
  by_cases hnil : done = []
  · subst hnil
    rfl
  · rw [if_neg (joinSlash_ne_empty hnil hdone), joinSlash, joinSlash,
      String.intercalate_append_of_ne_nil hnil (List.cons_ne_nil part [])]
    simp

/-- A path that such a loop goes through. -/
theorem within_of_components {name : String} {done parts : List String} {part : String} (hname : validPath name = true)
    (h : components name = done ++ part :: parts) :
    validPath (joinSlash (done ++ [part])) = true ∧ joinSlash (done ++ [part]) ≠ "." ∧
      components (joinSlash (done ++ [part])) = done ++ [part] := by
  have hvalid : ∀ c ∈ done ++ [part], ValidName c := by
    intro c hc
    refine validName_of_mem_components hname ?_
    rw [h]
    rcases List.mem_append.mp hc with hc | hc
    · exact List.mem_append_left _ hc
    · rw [List.mem_singleton.mp hc]
      simp
  have hof : ofComponents (done ++ [part]) = joinSlash (done ++ [part]) := by simp [ofComponents]
  have hcomp := components_ofComponents hvalid
  rw [hof] at hcomp
  refine ⟨hof ▸ validPath_ofComponents hvalid, fun hdot => ?_, hcomp⟩
  rw [hdot] at hcomp
  simp at hcomp

/-- `mkdir_all` calls `mkdir` on the path it is given and on the paths above it. -/
theorem safe_mkdirAllLoop {perm : FileMode} {name : String} (hname : validPath name = true)
    (hmkdir : ∀ q, validPath q = true → q ≠ "." → within q name = true → Safe I (fun _ => True) (mkdir q perm))
    (parts done : List String) (h : components name = done ++ parts) :
    Safe I (fun _ => True) (memFs.mkdirAllLoop perm (joinSlash done) parts) := by
  induction parts generalizing done with
  | nil => exact safe_pure trivial
  | cons part parts ih =>
    have hdone : ∀ c ∈ done, ValidName c := fun c hc => validName_of_mem_components hname (h ▸ List.mem_append_left _ hc)
    obtain ⟨hvalid, hdot, hcomp⟩ := within_of_components hname h
    have hwithin : within (joinSlash (done ++ [part])) name = true :=
      within_iff.mpr ⟨parts, by rw [hcomp, h, List.append_assoc]; rfl⟩
    have hrest := ih (done ++ [part]) (by rw [h, List.append_assoc]; rfl)
    unfold FileSystem.mkdirAllLoop
    rw [joinSlash_snoc hdone]
    refine safe_then (safe_mono (safe_attempt (hmkdir _ hvalid hdot hwithin)) fun _ _ => trivial) fun r => ?_
    cases r with
    | ok _ => exact hrest
    | error e => exact safe_ite (fun _ => hrest) fun _ => safe_throw e

theorem safe_mkdirAll {perm : FileMode} {name : String} (hname : validPath name = true)
    (hmkdir : ∀ q, validPath q = true → q ≠ "." → within q name = true → Safe I (fun _ => True) (mkdir q perm)) :
    Safe I (fun _ => True) (memFs.mkdirAll name perm) := by
  refine safe_ite (fun _ => safe_pure trivial) fun hdot => ?_
  have hcomp : components name = [] ++ splitSlash (cleanPath name) := by
    rw [cleanPath_of_valid hname, components, if_neg hdot, List.nil_append]
  exact safe_mkdirAllLoop hname hmkdir _ [] hcomp

end

end MemFs
end Star9
