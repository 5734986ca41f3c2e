import Star9.Fs.MemWrite

/-!
# Appending to a file of the in-memory file system

`append_file` opens what is there, gives it a mode, opens it again and seeks to its
end. What is written from there on goes to the node when the file is closed.
-/
namespace Star9
open Base Prog

namespace MemFs
variable {fs fs' : MemFs} {p : String} {id : NodeId}

/-- What a file at a path contains; nothing, when there is none. -/
def contents (fs : MemFs) (p : String) : Bytes := ((fs.coreAt p).map NodeCore.data).getD []

def FileOrAbsent (fs : MemFs) (p : String) : Prop :=
  ∀ c, fs.coreAt p = some c → c.mode.isDir = false ∧ c.mode.isSymlink = false

theorem contents_of_shape (h : fs'.shape = fs.shape) (p : String) : fs'.contents p = fs.contents p := by
  unfold contents
  rw [coreAt_of_shape h]

theorem contents_of_node (hi : fs.nodes[p]? = some id) : fs.contents p = (fs.heap id).data := by
  simp [contents, coreAt, hi, NodeInner.core]

theorem contents_of_none (hi : fs.nodes[p]? = none) : fs.contents p = [] := by
  simp [contents, coreAt, hi]

def appendFlags : OpenFlags := .wronly ||| .create ||| .append

/-- A handle at the end of the contents of a node. -/
structure AtEnd (id : NodeId) (data : Bytes) (f : NodeFile) : Prop where
  node : f.node = id
  holds : f.data = data
  offset : f.offset.toNat = data.length
  closed : f.closed = false
  isFile : f.metadata.mode.isDir = false

theorem seek_end (f : NodeFile) (fs : MemFs) :
    withFile (.node f) (MemFile.handle.seek (.fromEnd 0)) fs =
      (.ok (.ok (UInt64.ofNat f.data.length), .node { f with offset := UInt64.ofNat f.data.length }), fs) := by
  unfold withFile
  have hnext : ((f.data.length : Int) + 0).toNat = f.data.length := by omega
  have hrange : ¬((f.data.length : Int) + 0 < 0 ∨ (f.data.length : Int) < (f.data.length : Int) + 0) := by omega
  simp only [MemFile.handle, MemFile.dispatch, NodeFile.seek, if_neg hrange, hnext]

/-- Opening a file that is there gives it the mode and stops at its end. -/
theorem openTail_appends (hp : validPath p = true) (hi : fs.nodes[p]? = some id)
    (hlink : (fs.heap id).metadata.mode.isSymlink = false) (hdir : (fs.heap id).metadata.isDir = false)
    (hbound : (fs.heap id).data.length ≤ isizeMax) {perm : FileMode} (hperm : perm.bits ≠ 0) {f : MemFile} (hf : f.settled = true) :
    ∃ g fs', (FileSystem.openWithPerm open_ chmod MemFile.handle p perm f >>=
        FileSystem.openAppending MemFile.handle appendFlags) fs = (.ok (.node g), fs') ∧
      AtEnd id (fs.heap id).data g ∧ fs'.nodes = fs.nodes := by
  obtain ⟨r, hclose⟩ := MemFile.withFile_close_of_settled hf fs
  have hchmod := chmod_of_exists hp hi perm
  generalize hfs₁ : fs.updateNode id _ = fs₁ at hchmod
  have hnode₁ : fs₁.heap id = (fs.heap id).setMode ((fs.heap id).metadata.mode.typeBits ||| FileMode.fromPerm perm.perm) := by
    rw [← hfs₁, updateNode_heap, Function.update_self]
  have hi₁ : fs₁.nodes[p]? = some id := by
    rw [← hfs₁]
    exact hi
  have hsupported : FileSystem.chmodSupported chmod p perm fs = (.ok (), fs₁) := by
    unfold FileSystem.chmodSupported
    rw [bind_ok (attempt_ok hchmod)]
    rfl
  have hopen := open_of_file FsContext.new hp hi₁ (by simp [hnode₁, NodeInner.setMode, hlink])
    (by simp [hnode₁, NodeInner.setMode, Metadata.isDir]; exact hdir)
  generalize hfs₂ : fs₁.updateNode id (NodeInner.setName (baseName p)) = fs₂ at hopen
  have hnode₂ : fs₂.heap id = (fs₁.heap id).setName (baseName p) := by
    rw [← hfs₂, updateNode_heap, Function.update_self]
  have hdata₂ : (fs₂.heap id).data = (fs.heap id).data := by
    rw [hnode₂, hnode₁]
    rfl
  let opened : NodeFile :=
    { node := id, metadata := (fs₂.heap id).metadata, data := (fs₂.heap id).data, offset := 0, dirty := false, closed := false }
  have hopened : open_ FsContext.new p fs₁ = (.ok (.node opened), fs₂) := hopen
  refine ⟨{ opened with offset := UInt64.ofNat opened.data.length }, fs₂, ?_, ⟨rfl, hdata₂, ?_, rfl, ?_⟩, ?_⟩
  · unfold FileSystem.openWithPerm FileSystem.openAppending
    rw [if_pos hperm, bind_assoc, bind_ok hclose, bind_assoc, bind_ok hsupported, bind_ok hopened, if_pos (by decide),
      bind_ok (seek_end opened fs₂)]
    rfl
  · have hlength : opened.data.length < 2 ^ 64 := by
      unfold isizeMax at hbound
      rw [← hdata₂] at hbound
      exact Nat.lt_of_le_of_lt hbound (by norm_num)
    rw [UInt64.toNat_ofNat_of_lt' hlength, ← hdata₂]
  · show (fs₂.heap id).metadata.isDir = false
    rw [hnode₂, hnode₁]
    simpa [NodeInner.setMode, NodeInner.setName, Metadata.isDir] using hdir
  · rw [← hfs₂, ← hfs₁]
    rfl

theorem overwrite_resize (data new : Bytes) :
    overwrite (resize data (data.length + new.length)) data.length new = data ++ new := by
  have htake : data.take (data.length + new.length) = data := List.take_of_length_le (Nat.le_add_right _ _)
  unfold overwrite resize
  rw [htake, Nat.add_sub_cancel_left, List.take_left, List.drop_eq_nil_of_le (by simp), List.append_nil]

/-- Writing at the end appends, if there is room. -/
theorem write_atEnd {data : Bytes} {f : NodeFile} (hf : AtEnd id data f) (hbound : data.length ≤ isizeMax) (new : Bytes) (fs : MemFs) :
    (MemFile.handle.write new (.node f, fs)).1 = .abort ∨
    ∃ g n, MemFile.handle.write new (.node f, fs) = (.ok n, .node g, { fs with ticks := fs.ticks + 1 }) ∧
      g.node = id ∧ g.data = data ++ new ∧ g.dirty = true ∧ g.closed = false := by
  have hstart : resizeFails data data.length = false := by simp [resizeFails]
  unfold isizeMax at hbound
  simp only [MemFile.handle, MemFile.dispatch, NodeFile.write, hf.closed, hf.isFile, hf.holds, hf.offset, hstart, Bool.false_eq_true,
    if_false, lt_self_iff_false]
  cases hroom : resizeFails data (min (data.length + new.length) (2 ^ 64 - 1)) with
  | true => exact .inl rfl
  | false =>
    refine .inr ⟨_, _, rfl, hf.node, ?_, rfl, rfl⟩
    show overwrite (if data.length < min (data.length + new.length) (2 ^ 64 - 1) then _ else data) data.length new = data ++ new
    split
    · rename_i hgrows
      have hstop : min (data.length + new.length) (2 ^ 64 - 1) = data.length + new.length := by
        rcases Bool.and_eq_false_iff.mp hroom with hfits | hfits
        · exact absurd hgrows (of_decide_eq_false hfits)
        · have hmax := of_decide_eq_false hfits
          unfold isizeMax at hmax
          omega
      rw [hstop]
      exact overwrite_resize data new
    · rename_i hfits
      have hnew : new = [] := by
        rw [← List.length_eq_zero_iff]
        omega
      simp [hnew, overwrite]

/-- From a handle at the end on, `append_file` appends to the node or fails. -/
theorem append_atEnd {data : Bytes} {f : NodeFile} (hf : AtEnd id data f) (hbound : data.length ≤ isizeMax) (new : Bytes)
    (h : memFs.openFile p appendFlags (FileMode.fromPerm 0o644) fs = (.ok (.node f), fs'))
    (hok : (memFs.appendFile p new fs).1 = .ok ()) :
    ∃ s : MemFs, s.nodes = fs'.nodes ∧ (memFs.appendFile p new fs).2 = s.setData id (data ++ new) := by
  unfold FileSystem.appendFile at hok ⊢
  have hopen : memFs.openFile p (.wronly ||| .create ||| .append) (FileMode.fromPerm 0o644) fs = (.ok (.node f), fs') := h
  rw [bind_ok hopen] at hok ⊢
  rcases write_atEnd hf hbound new fs' with habort | ⟨g, n, hwrite, hnode, hdata, hdirty, hclosed⟩
  · have hwith : (withFile (.node f) (memFs.file.write new) fs').1 = .abort := by
      unfold withFile
      rcases hw : memFs.file.write new (.node f, fs') with ⟨r, f', s⟩
      have hr : r = .abort := (congrArg Prod.fst hw).symm.trans habort
      rw [hr]
    rw [bind_apply] at hok
    rcases hw : withFile (.node f) (memFs.file.write new) fs' with ⟨r, s⟩
    rw [hw] at hwith hok
    obtain rfl : r = .abort := hwith
    cases hok
  · have hwith : withFile (.node f) (memFs.file.write new) fs' = (.ok (.ok n, .node g), { fs' with ticks := fs'.ticks + 1 }) := by
      have hw : memFs.file.write new (.node f, fs') = _ := hwrite
      rw [withFile, hw]
    obtain ⟨r, hclose⟩ := close_written hnode hdata hdirty hclosed { fs' with ticks := fs'.ticks + 1 }
    have hclose' : withFile (.node g) memFs.file.close { fs' with ticks := fs'.ticks + 1 } = _ := hclose
    rw [bind_ok hwith]
    refine ⟨{ fs' with ticks := fs'.ticks + 1 }, rfl, ?_⟩
    exact congrArg Prod.snd (bind_ok hclose')

theorem openWithPerm_missing (hp : validPath p = true) (hi : fs.nodes[p]? = none) {perm : FileMode} (hperm : perm.bits ≠ 0)
    {f g : MemFile} (hf : f.settled = true) :
    ((FileSystem.openWithPerm open_ chmod MemFile.handle p perm f >>=
      FileSystem.openAppending MemFile.handle appendFlags) fs).1 ≠ .ok g := by
  obtain ⟨r, hclose⟩ := MemFile.withFile_close_of_settled hf fs
  have hchmod : chmod p perm fs = (.err (.path "chmod" p .notFound), fs) := by
    unfold chmod nodeOr
    rw [cleanPath_of_valid hp, bind_assoc, get_bind, hi]
    rfl
  have hsupported : FileSystem.chmodSupported chmod p perm fs = (.err (.path "chmod" p .notFound), fs) := by
    unfold FileSystem.chmodSupported
    rw [bind_ok (attempt_err hchmod)]
    rfl
  unfold FileSystem.openWithPerm
  rw [if_pos hperm, bind_assoc, bind_ok hclose, bind_assoc, bind_err hsupported]
  nofun

/-- Opening to append leads to the end of the contents. -/
theorem openFile_appends (hp : validPath p = true) (hbound : fs.DataBounded) (hfile : fs.FileOrAbsent p) {f : MemFile}
    (h : memFs.openFile p appendFlags (FileMode.fromPerm 0o644) fs = (.ok f, fs')) :
    ∃ id g, f = .node g ∧ AtEnd id (fs.contents p) g ∧ (fs.contents p).length ≤ isizeMax ∧ fs'.nodes[p]? = some id := by
  have hwrite : appendFlags.isWrite = true := by decide
  have hperm : (FileMode.fromPerm 0o644).bits ≠ 0 := by decide
  cases hi : fs.nodes[p]? with
  | some id =>
    obtain ⟨hdir, hlink⟩ := hfile _ (coreAt_eq_some.mpr ⟨id, hi, rfl⟩)
    have hopen := open_of_file FsContext.new hp hi hlink hdir
    generalize hfs₁ : fs.updateNode id (NodeInner.setName (baseName p)) = fs₁ at hopen
    have hnode : fs₁.heap id = (fs.heap id).setName (baseName p) := by
      rw [← hfs₁, updateNode_heap, Function.update_self]
    have hnodes : fs₁.nodes = fs.nodes := by
      rw [← hfs₁]
      rfl
    have hdata : (fs₁.heap id).data = fs.contents p := by
      rw [hnode, contents_of_node hi]
      rfl
    have hlength : (fs₁.heap id).data.length ≤ isizeMax := by
      rw [hdata, contents_of_node hi]
      exact hbound id
    let opened : NodeFile :=
      { node := id, metadata := (fs₁.heap id).metadata, data := (fs₁.heap id).data, offset := 0, dirty := false, closed := false }
    have hopened : open_ FsContext.new p fs = (.ok (.node opened), fs₁) := hopen
    obtain ⟨g, fs'', htail, hend, hnodes'⟩ := openTail_appends hp (by rw [hnodes]; exact hi) (by rw [hnode]; exact hlink)
      (by rw [hnode]; exact hdir) hlength hperm (f := .node opened) rfl
    have hout : memFs.openFile p appendFlags (FileMode.fromPerm 0o644) fs = _ := openFile_of_ok hwrite hopened
    rw [if_neg (by decide), htail, h, Prod.mk.injEq, Outcome.ok.injEq] at hout
    obtain ⟨rfl, rfl⟩ := hout
    rw [hdata] at hend hlength
    exact ⟨id, g, rfl, hend, hlength, by rw [hnodes', hnodes]; exact hi⟩
  | none =>
    have hshape := preserves_open FsContext.new p fs
    rcases hopen : open_ FsContext.new p fs with ⟨g | e | _, fs₁⟩ <;> rw [hopen] at hshape
    · -- a directory that is only implied: it has no mode to be changed
      have hnone : fs₁.nodes[p]? = none := (congrArg (fun s : Shape => s.nodes[p]?) hshape).trans hi
      have hset := open_settled FsContext.new p fs g (by rw [hopen])
      have hout : memFs.openFile p appendFlags (FileMode.fromPerm 0o644) fs = _ := openFile_of_ok hwrite hopen
      rw [if_neg (by decide), h] at hout
      exact absurd (congrArg Prod.fst hout).symm (openWithPerm_missing hp hnone hperm hset)
    · have hkind : e.errorKind = .notFound := openAt_err_notFound (congrArg Prod.fst hopen)
      have hout : memFs.openFile p appendFlags (FileMode.fromPerm 0o644) fs = _ := openFile_of_err hwrite hopen
      rw [if_pos (by rw [hkind]; decide), h] at hout
      by_cases hpar : (parentExists (cleanPath p) fs₁).1 = .ok true
      · have hcreate := create_of_parent hpar
        rw [cleanPath_of_valid hp] at hcreate
        generalize hfs₂ : (fs₁.insertNew p (NodeInner.file (baseName p) [] (FileMode.fromPerm 0o644))).recomputeDirSizes = fs₂ at hcreate
        have hshape₂ : fs₂.shape = (fs₁.insertNew p (NodeInner.file (baseName p) [] (FileMode.fromPerm 0o644))).shape := by
          rw [← hfs₂, shape_recomputeDirSizes]
        obtain ⟨hi₂, hcore⟩ := core_of_insertNew hshape₂
        have hmode : (fs₂.heap fs₁.next).metadata.mode = FileMode.fromPerm 0o644 := congrArg NodeCore.mode hcore
        have hdata : (fs₂.heap fs₁.next).data = [] := congrArg NodeCore.data hcore
        let created : NodeFile :=
          { node := fs₁.next, metadata := (fs₂.heap fs₁.next).metadata, data := (fs₂.heap fs₁.next).data, offset := 0,
            dirty := false, closed := false }
        have hcreated : create p fs₁ = (.ok (.node created), fs₂) := hcreate
        obtain ⟨g, fs'', htail, hend, hnodes'⟩ := openTail_appends hp hi₂ (by rw [hmode]; decide)
          (by rw [Metadata.isDir, hmode]; decide) (by rw [hdata]; exact Nat.zero_le _) hperm (f := .node created) rfl
        rw [bind_ok hcreated, htail, Prod.mk.injEq, Outcome.ok.injEq] at hout
        obtain ⟨rfl, rfl⟩ := hout
        rw [hdata] at hend
        rw [contents_of_none hi]
        exact ⟨fs₁.next, g, rfl, hend, Nat.zero_le _, by rw [hnodes']; exact hi₂⟩
      · obtain ⟨hfail, -⟩ := create_of_no_parent hpar
        obtain ⟨a, s₁, hcreate, -⟩ := bind_eq_ok.mp hout.symm
        rw [hcreate] at hfail
        cases hfail
    · have hout : memFs.openFile p appendFlags (FileMode.fromPerm 0o644) fs = _ := openFile_of_abort hwrite hopen
      rw [h] at hout
      cases hout

/-- What is appended stands behind what the file contained. -/
theorem appendFile_appends (hp : validPath p = true) (hbound : fs.DataBounded) (hfile : fs.FileOrAbsent p) (new : Bytes)
    (hok : (memFs.appendFile p new fs).1 = .ok ()) : (memFs.appendFile p new fs).2.contents p = fs.contents p ++ new := by
  obtain ⟨f, fs', hopen, -⟩ := bind_fst_eq_ok.mp hok
  obtain ⟨id, g, rfl, hend, hlength, hi⟩ := openFile_appends hp hbound hfile hopen
  obtain ⟨s, hnodes, hout⟩ := append_atEnd hend hlength new hopen hok
  have his : (s.setData id (fs.contents p ++ new)).nodes[p]? = some id := by
    rw [setData_nodes, hnodes]
    exact hi
  rw [hout, contents_of_node his]
  simp [setData, NodeInner.setData]

end MemFs
end Star9
