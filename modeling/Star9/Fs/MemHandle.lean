import Star9.Base.Triple
import Star9.Fs.MemFrame

/-!
# Handles of the in-memory file system

A handle keeps its own copy of the data and gives it back to its node when it is
synced or closed. A handle that nothing was written to is settled: reading keeps
it so, and closing it changes nothing.
-/
namespace Star9
open Base Prog


namespace MemFile

/-- Nothing was written to the handle that its node does not have. -/
def settled : MemFile → Bool
  | .node f => !f.dirty
  | .dir _ => true

theorem close_of_settled {f : MemFile} (hf : f.settled = true) (fs : MemFs) :
    (handle.close (f, fs)).2.2 = fs := by
  cases f with
  | dir f => rfl
  | node f =>
    have hd : f.dirty = false := by simpa [settled] using hf
    simp only [handle, dispatch, NodeFile.close, NodeFile.sync]
    split
    · rfl
    · simp [hd]

theorem close_returned (f : MemFile) (fs : MemFs) : (handle.close (f, fs)).1.returned = true := by
  cases f with
  | dir f => rfl
  | node f =>
    simp only [handle, dispatch, NodeFile.close, NodeFile.sync]
    split_ifs <;> rfl

theorem withFile_close_of_settled {f : MemFile} (hf : f.settled = true) (fs : MemFs) :
    ∃ r, withFile f handle.close fs = (.ok r, fs) := by
  have hclose := close_of_settled hf fs
  have hret := close_returned f fs
  unfold withFile
  rcases h : handle.close (f, fs) with ⟨a | e | _, f', fs'⟩ <;> rw [h] at hclose hret
  · exact ⟨_, congrArg _ hclose⟩
  · exact ⟨_, congrArg _ hclose⟩
  · cases hret

theorem read_state (len : Nat) (f : MemFile) (fs : MemFs) :
    (handle.read len (f, fs)).2.2 = fs ∧ (handle.read len (f, fs)).2.1.settled = f.settled := by
  cases f with
  | dir f => exact ⟨rfl, rfl⟩
  | node f =>
    simp only [handle, dispatch, NodeFile.read]
    split
    · exact ⟨rfl, rfl⟩
    · split
      · exact ⟨rfl, rfl⟩
      · split <;> exact ⟨rfl, rfl⟩

theorem seek_state (pos : SeekFrom) (f : MemFile) (fs : MemFs) : (handle.seek pos (f, fs)).2.2 = fs := by
  cases f with
  | dir f => rfl
  | node f =>
    simp only [handle, dispatch, NodeFile.seek]
    cases pos <;> (dsimp only; split_ifs <;> rfl)

theorem withFile_seek_state (pos : SeekFrom) (f : MemFile) (fs : MemFs) :
    (withFile f (handle.seek pos) fs).2 = fs := by
  have hseek := seek_state pos f fs
  unfold withFile
  rcases h : handle.seek pos (f, fs) with ⟨a | e | _, f', fs'⟩ <;> rw [h] at hseek <;> exact hseek

/-- Writing changes the handle and the clock. -/
theorem write_shape (data : Bytes) (f : MemFile) (fs : MemFs) :
    (handle.write data (f, fs)).2.2.shape = fs.shape := by
  cases f with
  | dir f => rfl
  | node f =>
    simp only [handle, dispatch, NodeFile.write]
    split_ifs <;> rfl

theorem writeAt_shape (data : Bytes) (offset : UInt64) (f : MemFile) (fs : MemFs) :
    (handle.writeAt data offset (f, fs)).2.2.shape = fs.shape := by
  cases f with
  | dir f => rfl
  | node f =>
    simp only [handle, dispatch, NodeFile.writeAt, NodeFile.write]
    split_ifs <;> rfl

end MemFile

namespace MemFs

theorem openDir_settled (name : String) :
    Returns (fun f : MemFile => f.settled = true) (openDir name) := by
  refine returns_bind fun fs => ?_
  exact returns_ite (returns_throw _) (returns_pure rfl)

theorem openNode_settled (id : NodeId) : Returns (fun f : MemFile => f.settled = true) (openNode id) :=
  returns_bind fun _ => returns_pure rfl

theorem openAt_settled (depth : Nat) (ctx : FsContext) (name : String) :
    Returns (fun f : MemFile => f.settled = true) (openAt depth ctx name) := by
  induction depth generalizing name with
  | zero => exact returns_abort
  | succ depth ih =>
    refine returns_ite (returns_throw _) (returns_bind fun fs => ?_)
    dsimp only
    split
    · refine returns_ite (ih _) (returns_ite ?_ (openDir_settled _))
      exact returns_bind fun _ => openNode_settled _
    · exact openDir_settled _

theorem open_settled (ctx : FsContext) (name : String) :
    Returns (fun f : MemFile => f.settled = true) (open_ ctx name) :=
  returns_bind fun _ => openAt_settled _ _ _

theorem create_settled (name : String) : Returns (fun f : MemFile => f.settled = true) (create name) := by
  refine returns_ite (returns_throw _) (returns_bind fun b => returns_ite (returns_throw _) ?_)
  exact returns_bind fun _ => returns_bind fun _ => returns_bind fun _ => openNode_settled _

/-! ## Reading a whole file -/

theorem readLoop_state (rounds : Nat) (f : MemFile) (out : Bytes) (hf : f.settled = true) (fs : MemFs) :
    (memFs.readLoop rounds f out fs).2 = fs ∧
      ∀ r, (memFs.readLoop rounds f out fs).1 = .ok r → r.2.settled = true := by
  induction rounds generalizing f out with
  | zero => exact ⟨rfl, fun _ h => by cases h⟩
  | succ rounds ih =>
    obtain ⟨hstate, hkeep⟩ := MemFile.read_state 8192 f fs
    unfold FileSystem.readLoop
    rw [bind_apply]
    have hfile : withFile f (memFs.file.read 8192) fs = withFile f (MemFile.handle.read 8192) fs := rfl
    rw [hfile]
    unfold withFile
    rcases h : MemFile.handle.read 8192 (f, fs) with ⟨a | e | _, f', fs'⟩ <;> rw [h] at hstate hkeep
    · obtain rfl : fs' = fs := hstate
      have hf' : f'.settled = true := hkeep.trans hf
      cases a with
      | nil => exact ⟨rfl, fun r hr => by cases hr; exact hf'⟩
      | cons b bs =>
        dsimp only
        rw [branch_apply]
        split
        · exact ⟨rfl, fun _ hr => by cases hr⟩
        · exact ih f' _ hf'
    · obtain rfl : fs' = fs := hstate
      dsimp only
      rw [branch_apply]
      split
      · exact ⟨rfl, fun r hr => by cases hr; exact hkeep.trans hf⟩
      · exact ⟨rfl, fun _ hr => by cases hr⟩
    · obtain rfl : fs' = fs := hstate
      exact ⟨rfl, fun _ hr => by cases hr⟩

/-- Reading a file keeps the shape of the state. -/
theorem preserves_readFile (rounds : Nat) (name : String) : Preserves shape (memFs.readFile rounds name) := by
  intro fs
  unfold FileSystem.readFile
  have hshape := preserves_open (FsContext.new.withOrigin name "open") name fs
  have hset := open_settled (FsContext.new.withOrigin name "open") name fs
  rw [bind_apply]
  rcases h : memFs.open_ (FsContext.new.withOrigin name "open") name fs with ⟨f | e | _, fs₁⟩ <;>
    (have h' : open_ (FsContext.new.withOrigin name "open") name fs = _ := h
     rw [h'] at hshape hset)
  · obtain ⟨hstate, hkeep⟩ := readLoop_state rounds f [] (hset f rfl) fs₁
    dsimp only
    rw [bind_apply]
    rcases hr : memFs.readLoop rounds f [] fs₁ with ⟨⟨out, f'⟩ | e | _, fs₂⟩ <;> rw [hr] at hstate hkeep
    · obtain rfl : fs₂ = fs₁ := hstate
      obtain ⟨r, hclose⟩ := MemFile.withFile_close_of_settled (hkeep _ rfl) fs₂
      have hfile : withFile f' memFs.file.close fs₂ = (.ok r, fs₂) := hclose
      dsimp only
      rw [bind_ok hfile]
      exact hshape
    · obtain rfl : fs₂ = fs₁ := hstate
      exact hshape
    · obtain rfl : fs₂ = fs₁ := hstate
      exact hshape
  · exact hshape
  · exact hshape

/-- What the next read of `read_file` gives, and the handle after it. -/
def nextRead (f : NodeFile) : Bytes := (f.data.drop f.offset.toNat).take 8192

def afterRead (f : NodeFile) : NodeFile := { f with offset := f.offset + UInt64.ofNat (nextRead f).length }

theorem length_nextRead (f : NodeFile) : (nextRead f).length = min 8192 (f.data.length - f.offset.toNat) := by
  rw [nextRead, List.length_take, List.length_drop]

theorem offset_afterRead {f : NodeFile} (hfits : f.data.length < 2 ^ 64) (hoffset : f.offset.toNat ≤ f.data.length) :
    (afterRead f).offset.toNat = f.offset.toNat + (nextRead f).length := by
  have hlen := length_nextRead f
  have hsum : f.offset.toNat + (nextRead f).length < 2 ^ 64 := by omega
  rw [afterRead, UInt64.toNat_add, UInt64.toNat_ofNat', Nat.mod_eq_of_lt (by omega : (nextRead f).length < 2 ^ 64)]
  exact Nat.mod_eq_of_lt hsum

/-- What is left to read is the next read and what is left after it. -/
theorem drop_afterRead {f : NodeFile} (hfits : f.data.length < 2 ^ 64) (hoffset : f.offset.toNat ≤ f.data.length) :
    f.data.drop f.offset.toNat = nextRead f ++ (afterRead f).data.drop (afterRead f).offset.toNat := by
  have htake : nextRead f = (f.data.drop f.offset.toNat).take (nextRead f).length :=
    List.prefix_iff_eq_take.mp (List.take_prefix 8192 _)
  have hsplit := List.take_append_drop (nextRead f).length (f.data.drop f.offset.toNat)
  rw [← htake, List.drop_drop] at hsplit
  rw [offset_afterRead hfits hoffset]
  exact hsplit.symm

section
variable {f : NodeFile} (hclosed : f.closed = false) (hdir : f.metadata.mode.isDir = false)
include hclosed hdir

theorem read_at_end (h : f.data.length ≤ f.offset.toNat) (fs : MemFs) :
    withFile (.node f) (memFs.file.read 8192) fs = (.ok (.ok [], .node f), fs) := by
  show withFile _ (MemFile.handle.read 8192) fs = _
  simp only [withFile, MemFile.handle, MemFile.dispatch, NodeFile.read, hclosed, hdir, Bool.false_eq_true, if_false,
    h, if_true]

theorem read_more (h : f.offset.toNat < f.data.length) (fs : MemFs) :
    withFile (.node f) (memFs.file.read 8192) fs = (.ok (.ok (nextRead f), .node (afterRead f)), fs) := by
  show withFile _ (MemFile.handle.read 8192) fs = _
  simp only [withFile, MemFile.handle, MemFile.dispatch, NodeFile.read, hclosed, hdir, Bool.false_eq_true, if_false,
    Nat.not_le.mpr h, nextRead, afterRead]

theorem readLoop_end (hend : f.data.length ≤ f.offset.toNat) (rounds : Nat) (out : Bytes) (fs : MemFs) :
    memFs.readLoop (rounds + 1) (.node f) out fs = (.ok (out, .node f), fs) := by
  unfold FileSystem.readLoop
  rw [bind_ok (read_at_end hclosed hdir hend fs)]
  rfl

theorem readLoop_more (hmore : f.offset.toNat < f.data.length) (rounds : Nat) (out : Bytes) (fs : MemFs) :
    memFs.readLoop (rounds + 1) (.node f) out fs = memFs.readLoop rounds (.node (afterRead f)) (out ++ nextRead f) fs := by
  have hread := read_more hclosed hdir hmore fs
  have hlen := length_nextRead f
  conv_lhs => unfold FileSystem.readLoop
  rw [bind_ok hread]
  rcases hchunk : nextRead f with _ | ⟨b, bs⟩
  · rw [hchunk, List.length_nil] at hlen
    omega
  · rw [hchunk] at hlen
    dsimp only
    rw [if_neg (by omega)]

/-- A file that is read to its end is no longer than an offset can tell. -/
theorem fits_of_readLoop_ok {rounds : Nat} {out : Bytes} {fs : MemFs} {r : Bytes × MemFile}
    (h : (memFs.readLoop rounds (.node f) out fs).1 = .ok r) : f.data.length < 2 ^ 64 := by
  induction rounds generalizing f out with
  | zero => cases h
  | succ rounds ih =>
    by_cases hend : f.data.length ≤ f.offset.toNat
    · exact Nat.lt_of_le_of_lt hend f.offset.toNat_lt
    · rw [readLoop_more hclosed hdir (Nat.lt_of_not_le hend)] at h
      exact ih (f := afterRead f) hclosed hdir h

/-- Reading from where the handle stands gives the rest of its data, or goes on for too many rounds. -/
theorem readLoop_cases (hfits : f.data.length < 2 ^ 64) (hdirty : f.dirty = false) (hoffset : f.offset.toNat ≤ f.data.length)
    (rounds : Nat) (out : Bytes) (fs : MemFs) :
    ((memFs.readLoop rounds (.node f) out fs).1 = .abort ∧ 8192 * rounds ≤ f.data.length - f.offset.toNat + 8191) ∨
    ∃ g : NodeFile, g.dirty = false ∧
      memFs.readLoop rounds (.node f) out fs = (.ok (out ++ f.data.drop f.offset.toNat, .node g), fs) := by
  induction rounds generalizing f out with
  | zero => exact .inl ⟨rfl, by omega⟩
  | succ rounds ih =>
    by_cases hend : f.data.length ≤ f.offset.toNat
    · refine .inr ⟨f, hdirty, ?_⟩
      rw [readLoop_end hclosed hdir hend, List.drop_eq_nil_of_le hend, List.append_nil]
    · have hlen := length_nextRead f
      have hnew := offset_afterRead hfits hoffset
      have hle : (afterRead f).offset.toNat ≤ (afterRead f).data.length := by
        rw [hnew]
        show _ ≤ f.data.length
        omega
      rw [readLoop_more hclosed hdir (Nat.lt_of_not_le hend), drop_afterRead hfits hoffset, ← List.append_assoc]
      rcases ih (f := afterRead f) hclosed hdir hfits hdirty hle (out ++ nextRead f) with ⟨habort, hrounds⟩ | hok
      · refine .inl ⟨habort, ?_⟩
        rw [hnew] at hrounds
        have hdata : (afterRead f).data = f.data := rfl
        rw [hdata] at hrounds
        omega
      · exact .inr hok

/-- Reading from where the handle stands gives the rest of its data, 8192 bytes a round. -/
theorem readLoop_rest (hfits : f.data.length < 2 ^ 64) (hdirty : f.dirty = false) (hoffset : f.offset.toNat ≤ f.data.length)
    (rounds : Nat) (hrounds : f.data.length - f.offset.toNat ≤ 8192 * rounds) (out : Bytes) (fs : MemFs) :
    ∃ g : NodeFile, g.dirty = false ∧
      memFs.readLoop (rounds + 1) (.node f) out fs = (.ok (out ++ f.data.drop f.offset.toNat, .node g), fs) := by
  rcases readLoop_cases hclosed hdir hfits hdirty hoffset (rounds + 1) out fs with ⟨-, hshort⟩ | hok
  · omega
  · exact hok

end

theorem open_of_file {fs : MemFs} (ctx : FsContext) {p : String} {id : NodeId} (hp : validPath p = true)
    (hi : fs.nodes[p]? = some id) (hlink : (fs.heap id).metadata.mode.isSymlink = false)
    (hdir : (fs.heap id).metadata.isDir = false) :
    open_ ctx p fs = openNode id (fs.updateNode id (NodeInner.setName (baseName p))) := by
  rw [open_, get_bind, openAt, hp]
  simp only [Bool.not_true, Bool.false_eq_true, if_false, get_bind, cleanPath_of_valid hp, hi, hlink,
    Bool.and_false, hdir, Bool.not_false, if_true]
  rfl

/-- `read_file` opens the file and reads to its end. -/
theorem readFile_eq {p : String} {id : NodeId} {fs : MemFs} (hp : validPath p = true) (hi : fs.nodes[p]? = some id)
    (hlink : (fs.heap id).metadata.mode.isSymlink = false) (hdir : (fs.heap id).metadata.isDir = false) (rounds : Nat) :
    ∃ f : NodeFile, f.closed = false ∧ f.metadata.mode.isDir = false ∧ f.dirty = false ∧ f.offset = 0 ∧ f.data = (fs.heap id).data ∧
      memFs.readFile rounds p fs = (do
        let (out, f) ← memFs.readLoop rounds (.node f) []
        let _ ← withFile f memFs.file.close
        pure out) (fs.updateNode id (NodeInner.setName (baseName p))) := by
  have hopen : memFs.open_ (FsContext.new.withOrigin p "open") p fs = _ := open_of_file _ hp hi hlink hdir
  generalize hfs : fs.updateNode id (NodeInner.setName (baseName p)) = fs₁ at hopen ⊢
  have hnode : fs₁.heap id = (fs.heap id).setName (baseName p) := by
    rw [← hfs, updateNode_heap, Function.update_self]
  let f : NodeFile :=
    { node := id, metadata := (fs₁.heap id).metadata, data := (fs₁.heap id).data, offset := 0, dirty := false, closed := false }
  have hopened : memFs.open_ (FsContext.new.withOrigin p "open") p fs = (.ok (.node f), fs₁) := hopen
  refine ⟨f, rfl, ?_, rfl, rfl, ?_, ?_⟩
  · show (fs₁.heap id).metadata.mode.isDir = false
    rw [hnode]
    exact hdir
  · show (fs₁.heap id).data = (fs.heap id).data
    rw [hnode]
    rfl
  · unfold FileSystem.readFile
    rw [bind_ok hopened]

/-- `read_file` gives the contents of a file, or goes on for too many rounds. -/
theorem readFile_cases {p : String} {id : NodeId} {fs : MemFs} (hp : validPath p = true) (hi : fs.nodes[p]? = some id)
    (hlink : (fs.heap id).metadata.mode.isSymlink = false) (hdir : (fs.heap id).metadata.isDir = false)
    (hfits : (fs.heap id).data.length < 2 ^ 64) (rounds : Nat) :
    ((memFs.readFile rounds p fs).1 = .abort ∧ 8192 * rounds ≤ (fs.heap id).data.length + 8191) ∨
    memFs.readFile rounds p fs = (.ok (fs.heap id).data, fs.updateNode id (NodeInner.setName (baseName p))) := by
  obtain ⟨f, hclosed, hmode, hdirty, hoffset, hdata, hread⟩ := readFile_eq hp hi hlink hdir rounds
  have hzero : f.offset.toNat = 0 := congrArg UInt64.toNat hoffset
  rw [← hdata] at hfits ⊢
  rw [hread]
  generalize fs.updateNode id (NodeInner.setName (baseName p)) = fs₁
  rcases readLoop_cases hclosed hmode hfits hdirty (by omega) rounds [] fs₁ with ⟨habort, hrounds⟩ | ⟨g, hg, hloop⟩
  · refine .inl ⟨?_, by omega⟩
    rw [bind_abort (Prod.ext habort rfl : memFs.readLoop rounds (.node f) [] fs₁ = (.abort, _))]
  · obtain ⟨r, hclose⟩ := MemFile.withFile_close_of_settled (f := .node g) (by simp [MemFile.settled, hg]) fs₁
    have hclose' : withFile (.node g) memFs.file.close fs₁ = (.ok r, fs₁) := hclose
    refine .inr ?_
    rw [bind_ok hloop, hzero]
    exact bind_ok hclose'

/-- `read_file` gives the contents of a file. -/
theorem readFile_of_file {p : String} {id : NodeId} {fs : MemFs} (hp : validPath p = true) (hi : fs.nodes[p]? = some id)
    (hlink : (fs.heap id).metadata.mode.isSymlink = false) (hdir : (fs.heap id).metadata.isDir = false)
    (hfits : (fs.heap id).data.length < 2 ^ 64) {rounds : Nat} (hrounds : (fs.heap id).data.length ≤ 8192 * rounds) :
    ∃ fs', memFs.readFile (rounds + 1) p fs = (.ok (fs.heap id).data, fs') ∧ fs'.shape = fs.shape := by
  rcases readFile_cases hp hi hlink hdir hfits (rounds + 1) with ⟨-, hshort⟩ | hok
  · omega
  · exact ⟨_, hok, shape_updateNode fun n => n.core_setName _⟩

/-- `read_file` that returns has returned the contents of the file. -/
theorem readFile_ok {p : String} {id : NodeId} {fs fs' : MemFs} {rounds : Nat} {out : Bytes} (hp : validPath p = true)
    (hi : fs.nodes[p]? = some id) (hlink : (fs.heap id).metadata.mode.isSymlink = false) (hdir : (fs.heap id).metadata.isDir = false)
    (h : memFs.readFile rounds p fs = (.ok out, fs')) :
    out = (fs.heap id).data ∧ fs' = fs.updateNode id (NodeInner.setName (baseName p)) := by
  have hfits : (fs.heap id).data.length < 2 ^ 64 := by
    obtain ⟨f, hclosed, hmode, -, -, hdata, hread⟩ := readFile_eq hp hi hlink hdir rounds
    rw [hread] at h
    obtain ⟨r, fs₁, hloop, -⟩ := bind_eq_ok.mp h
    rw [← hdata]
    exact fits_of_readLoop_ok hclosed hmode (congrArg Prod.fst hloop)
  rcases readFile_cases hp hi hlink hdir hfits rounds with ⟨habort, -⟩ | hok
  · rw [h] at habort
    cases habort
  · rw [h] at hok
    cases hok
    exact ⟨rfl, rfl⟩

theorem preserves_readlink (name : String) : Preserves shape (readlink name) := by
  refine preserves_bind (preserves_nodeOr _ _ _) fun _ => preserves_bind preserves_get fun fs => ?_
  exact preserves_ite (preserves_throw _) (preserves_pure _)

/-! ## Opening for writing -/

/-- `open_file` goes through `create`: the file is missing, or is truncated. -/
def openReplaces (fs : MemFs) (name : String) (flags : OpenFlags) : Bool :=
  match (open_ FsContext.new name fs).1 with
  | .ok _ => flags.contains .trunc
  | .err e => flags.contains .create && e.errorKind == .notFound
  | .abort => false

theorem chmodSupported_state (name : String) (perm : FileMode) (fs : MemFs) :
    (FileSystem.chmodSupported chmod name perm fs).2 = (chmod name perm fs).2 := by
  unfold FileSystem.chmodSupported
  rcases h : chmod name perm fs with ⟨a | e | _, fs'⟩
  · rw [bind_ok (attempt_ok h)]
    rfl
  · rw [bind_ok (attempt_err h)]
    rcases e with _ | kind | _
    · rfl
    · cases kind <;> rfl
    · rfl
  · rw [bind_abort (attempt_abort h)]

theorem openAppending_state (flags : OpenFlags) (f : MemFile) (fs : MemFs) :
    (FileSystem.openAppending MemFile.handle flags f fs).2 = fs := by
  have hseek := MemFile.withFile_seek_state (.fromEnd 0) f fs
  unfold FileSystem.openAppending
  rw [branch_apply]
  split
  · rw [bind_apply]
    rcases h : withFile f (MemFile.handle.seek (.fromEnd 0)) fs with ⟨⟨r, f'⟩ | e | _, fs'⟩ <;> rw [h] at hseek
    · cases r <;> exact hseek
    · exact hseek
    · exact hseek
  · rfl

theorem openWithPerm_shape {f : MemFile} (hf : f.settled = true) (name : String) (perm : FileMode) (fs : MemFs) :
    (FileSystem.openWithPerm open_ chmod MemFile.handle name perm f fs).2.shape =
      if perm.bits = 0 then fs.shape else (chmod name perm fs).2.shape := by
  unfold FileSystem.openWithPerm
  by_cases hperm : perm.bits = 0
  · simp [hperm]
  · obtain ⟨r, hclose⟩ := MemFile.withFile_close_of_settled hf fs
    have hchmod := chmodSupported_state name perm fs
    rw [if_pos hperm, if_neg hperm, bind_ok hclose, bind_apply]
    rcases h : FileSystem.chmodSupported chmod name perm fs with ⟨a | e | _, fs'⟩ <;> rw [h] at hchmod
    · exact (preserves_open _ _ _).trans (congrArg shape hchmod)
    · exact congrArg shape hchmod
    · exact congrArg shape hchmod

/-- The end of `open_file` changes the mode of the file, if it was given one. -/
theorem openTail_shape {f : MemFile} (hf : f.settled = true) (name : String) (flags : OpenFlags) (perm : FileMode)
    (fs : MemFs) :
    ((FileSystem.openWithPerm open_ chmod MemFile.handle name perm f >>=
      FileSystem.openAppending MemFile.handle flags) fs).2.shape =
      if perm.bits = 0 then fs.shape else (chmod name perm fs).2.shape := by
  rw [bind_state (openAppending_state flags)]
  exact openWithPerm_shape hf name perm fs

theorem create_ok_of_parent {name : String} {fs : MemFs} (h : (parentExists (cleanPath name) fs).1 = .ok true) :
    ∃ f, create name fs = (.ok f, (create name fs).2) := by
  rw [create_of_parent h]
  exact ⟨_, rfl⟩

/-- The part of `open_file` after the file is created, or is found and not truncated. -/
theorem openCreated_shape (name : String) (flags : OpenFlags) (perm : FileMode) (fs : MemFs) :
    ((create name >>= fun f => FileSystem.openWithPerm open_ chmod MemFile.handle name perm f >>=
        FileSystem.openAppending MemFile.handle flags) fs).2.shape = fs.shape ∨
    (parentExists (cleanPath name) fs).1 = .ok true ∧
      ((create name >>= fun f => FileSystem.openWithPerm open_ chmod MemFile.handle name perm f >>=
        FileSystem.openAppending MemFile.handle flags) fs).2.shape =
        if perm.bits = 0 then (create name fs).2.shape else (chmod name perm (create name fs).2).2.shape := by
  by_cases hpar : (parentExists (cleanPath name) fs).1 = .ok true
  · obtain ⟨f, hf⟩ := create_ok_of_parent hpar
    have hset := create_settled name fs f (by rw [hf])
    rw [bind_ok hf]
    exact Or.inr ⟨hpar, openTail_shape hset name flags perm _⟩
  · obtain ⟨hfail, hstate⟩ := create_of_no_parent hpar
    rw [bind_apply]
    rcases h : create name fs with ⟨f | e | _, fs'⟩ <;> rw [h] at hfail hstate
    · cases hfail
    · exact Or.inl (congrArg shape hstate)
    · exact Or.inl (congrArg shape hstate)

section
variable {name : String} {flags : OpenFlags} {perm : FileMode} {fs fs₁ : MemFs} (hwrite : flags.isWrite = true)
include hwrite

theorem openFile_of_ok {f : MemFile} (h : open_ FsContext.new name fs = (.ok f, fs₁)) :
    memFs.openFile name flags perm fs =
      if flags.contains .trunc then
        (create name >>= fun f => FileSystem.openWithPerm open_ chmod MemFile.handle name perm f >>=
          FileSystem.openAppending MemFile.handle flags) fs₁
      else (FileSystem.openWithPerm open_ chmod MemFile.handle name perm f >>=
        FileSystem.openAppending MemFile.handle flags) fs₁ := by
  have hfirst : FileSystem.openOrCreate open_ create name flags fs = (.ok (f, false), fs₁) := by
    unfold FileSystem.openOrCreate
    rw [bind_ok (attempt_ok h)]
    rfl
  have hset := open_settled FsContext.new name fs f (by rw [h])
  obtain ⟨r, hclose⟩ := MemFile.withFile_close_of_settled hset fs₁
  show FileSystem.defaultOpenFile open_ create chmod MemFile.handle name flags perm fs = _
  rw [FileSystem.defaultOpenFile, if_pos hwrite, bind_ok hfirst]
  dsimp only
  cases ht : flags.contains .trunc with
  | true =>
    simp only [FileSystem.openTruncated, ht, Bool.not_false, Bool.and_self, if_true, bind_assoc]
    rw [bind_ok hclose]
  | false =>
    simp only [FileSystem.openTruncated, ht, Bool.false_and, Bool.false_eq_true, if_false, pure_bind]

theorem openFile_of_err {e : Error} (h : open_ FsContext.new name fs = (.err e, fs₁)) :
    memFs.openFile name flags perm fs =
      if flags.contains .create && e.errorKind == .notFound then
        (create name >>= fun f => FileSystem.openWithPerm open_ chmod MemFile.handle name perm f >>=
          FileSystem.openAppending MemFile.handle flags) fs₁
      else (.err e, fs₁) := by
  show FileSystem.defaultOpenFile open_ create chmod MemFile.handle name flags perm fs = _
  rw [FileSystem.defaultOpenFile, if_pos hwrite, FileSystem.openOrCreate, bind_assoc, bind_ok (attempt_err h)]
  dsimp only
  cases hc : flags.contains .create && e.errorKind == .notFound with
  | true =>
    simp only [if_true, bind_assoc, pure_bind, FileSystem.openTruncated, Bool.not_true, Bool.and_false,
      Bool.false_eq_true, if_false]
  | false => rfl

theorem openFile_of_abort (h : open_ FsContext.new name fs = (.abort, fs₁)) :
    memFs.openFile name flags perm fs = (.abort, fs₁) := by
  show FileSystem.defaultOpenFile open_ create chmod MemFile.handle name flags perm fs = _
  rw [FileSystem.defaultOpenFile, if_pos hwrite, FileSystem.openOrCreate, bind_assoc, bind_abort (attempt_abort h)]

end

/-- What `open_file` does to a file system: nothing that a shape shows, or it gives the
file a mode, or it creates the file and may give it a mode. -/
theorem openFile_cases (name : String) (flags : OpenFlags) (perm : FileMode) (fs : MemFs) :
    (memFs.openFile name flags perm fs).2.shape = fs.shape ∨
    flags.isWrite = true ∧ ∃ fs₁, fs₁.shape = fs.shape ∧
      (fs.openReplaces name flags = false ∧ perm.bits ≠ 0 ∧
          (memFs.openFile name flags perm fs).2.shape = (chmod name perm fs₁).2.shape ∨
        fs.openReplaces name flags = true ∧ (parentExists (cleanPath name) fs₁).1 = .ok true ∧
          (memFs.openFile name flags perm fs).2.shape =
            if perm.bits = 0 then (create name fs₁).2.shape else (chmod name perm (create name fs₁).2).2.shape) := by
  have hopen := preserves_open FsContext.new name fs
  cases hwrite : flags.isWrite with
  | false =>
    have hout : memFs.openFile name flags perm fs = open_ FsContext.new name fs := by
      show FileSystem.defaultOpenFile open_ create chmod MemFile.handle name flags perm fs = _
      rw [FileSystem.defaultOpenFile, hwrite, if_neg Bool.false_ne_true]
    rw [hout]
    exact Or.inl hopen
  | true =>
    unfold openReplaces
    rcases h : open_ FsContext.new name fs with ⟨f | e | _, fs₁⟩ <;> rw [h] at hopen
    · have hset := open_settled FsContext.new name fs f (by rw [h])
      rw [openFile_of_ok hwrite h]
      cases ht : flags.contains .trunc with
      | true =>
        rcases openCreated_shape name flags perm fs₁ with hs | ⟨hpar, hs⟩
        · exact Or.inl (hs.trans hopen)
        · exact Or.inr ⟨rfl, fs₁, hopen, Or.inr ⟨rfl, hpar, hs⟩⟩
      | false =>
        have htail := openTail_shape hset name flags perm fs₁
        by_cases hperm : perm.bits = 0
        · rw [if_pos hperm] at htail
          exact Or.inl (htail.trans hopen)
        · rw [if_neg hperm] at htail
          exact Or.inr ⟨rfl, fs₁, hopen, Or.inl ⟨rfl, hperm, htail⟩⟩
    · rw [openFile_of_err hwrite h]
      cases hc : flags.contains .create && e.errorKind == .notFound with
      | true =>
        rcases openCreated_shape name flags perm fs₁ with hs | ⟨hpar, hs⟩
        · exact Or.inl (hs.trans hopen)
        · exact Or.inr ⟨rfl, fs₁, hopen, Or.inr ⟨hc, hpar, hs⟩⟩
      | false => exact Or.inl hopen
    · rw [openFile_of_abort hwrite h]
      exact Or.inl hopen

end MemFs

/-! ## Lengths

No byte vector grows past the largest allocation: growing it further is a panic. -/

def MemFs.DataBounded (fs : MemFs) : Prop := ∀ i, (fs.heap i).data.length ≤ isizeMax

def MemFile.Bounded : MemFile → Prop
  | .node f => f.data.length ≤ isizeMax
  | .dir _ => True

theorem resize_length (data : Bytes) (n : Nat) : (resize data n).length = n := by
  rw [resize, List.length_append, List.length_take, List.length_replicate]
  omega

theorem resize_bounded {data : Bytes} {n : Nat} (hdata : data.length ≤ isizeMax) (h : resizeFails data n = false) :
    n ≤ isizeMax := by
  simp only [resizeFails, Bool.and_eq_false_iff, decide_eq_false_iff_not, Nat.not_lt] at h
  omega

theorem overwrite_length {data new : Bytes} {start : Nat} (h : start ≤ data.length) :
    (overwrite data start new).length = max data.length (start + new.length) := by
  rw [overwrite, List.length_append, List.length_append, List.length_take, List.length_drop]
  omega

theorem NodeFile.write_bounded {f : NodeFile} (hf : f.data.length ≤ isizeMax) (new : Bytes) (fs : MemFs) :
    (NodeFile.write new (f, fs)).2.1.data.length ≤ isizeMax := by
  unfold NodeFile.write
  dsimp only
  split
  · exact hf
  · split
    · exact hf
    · split
      · exact hf
      · rename_i hstart
        have hstart' := resize_bounded hf (Bool.not_eq_true _ ▸ hstart)
        generalize hgrown : (if f.data.length < f.offset.toNat then resize f.data f.offset.toNat else f.data) = grown
        have hle : f.offset.toNat ≤ grown.length ∧ grown.length ≤ isizeMax := by
          rw [← hgrown]
          split
          · rw [resize_length]
            exact ⟨Nat.le_refl _, hstart'⟩
          · exact ⟨by omega, hf⟩
        split
        · exact hle.2
        · rename_i hstop
          have hstop' := resize_bounded hle.2 (Bool.not_eq_true _ ▸ hstop)
          have hlen : f.offset.toNat + new.length ≤ isizeMax := by
            unfold isizeMax at hstop' ⊢
            omega
          have hgrown' : ∀ m, (if grown.length < m then resize grown m else grown).length = max grown.length m := by
            intro m
            split
            · rw [resize_length]
              omega
            · omega
          rw [overwrite_length (by rw [hgrown']; omega), hgrown']
          omega

/-- A call on a handle keeps the lengths of the data that the handle and the nodes hold. -/
def BoundedCall {α : Type} (p : Prog (MemFile × MemFs) Error α) : Prop :=
  Safe (fun s : MemFile × MemFs => s.1.Bounded ∧ s.2.DataBounded) (fun _ => True) p

namespace MemFs
variable {fs fs' : MemFs}

theorem DataBounded.of_shape (h : fs.DataBounded) (hs : fs'.shape = fs.shape) : fs'.DataBounded := by
  intro i
  have hdata : (fs'.heap i).data = (fs.heap i).data := congrArg NodeCore.data (congrFun (congrArg Shape.core hs) i)
  rw [hdata]
  exact h i

theorem DataBounded.update (h : fs.DataBounded) {id : NodeId} {n : NodeInner} (hn : n.data.length ≤ isizeMax) :
    ∀ i, (Function.update fs.heap id n i).data.length ≤ isizeMax := by
  intro i
  by_cases hi : i = id
  · subst hi
    rw [Function.update_self]
    exact hn
  · rw [Function.update_of_ne hi]
    exact h i

end MemFs

theorem boundedCall_of_same {α : Type} {p : Prog (MemFile × MemFs) Error α}
    (hdata : ∀ f fs, f.Bounded → (p (f, fs)).2.1.Bounded) (hshape : ∀ f fs, (p (f, fs)).2.2.shape = fs.shape) :
    BoundedCall p := fun _ hs => ⟨⟨hdata _ _ hs.1, hs.2.of_shape (hshape _ _)⟩, fun _ _ => trivial⟩

namespace MemFile

theorem bounded_read (len : Nat) : BoundedCall (handle.read len) := by
  refine boundedCall_of_same (fun f fs hf => ?_) fun f fs => congrArg MemFs.shape (read_state len f fs).1
  cases f with
  | dir f => trivial
  | node f =>
    simp only [handle, dispatch, NodeFile.read]
    split_ifs <;> exact hf

theorem bounded_seek (pos : SeekFrom) : BoundedCall (handle.seek pos) := by
  refine boundedCall_of_same (fun f fs hf => ?_) fun f fs => congrArg MemFs.shape (seek_state pos f fs)
  cases f with
  | dir f => trivial
  | node f =>
    simp only [handle, dispatch, NodeFile.seek]
    cases pos <;> (dsimp only; split_ifs <;> exact hf)

theorem bounded_write (data : Bytes) : BoundedCall (handle.write data) := by
  refine boundedCall_of_same (fun f fs hf => ?_) (write_shape data)
  cases f with
  | dir f => trivial
  | node f => exact NodeFile.write_bounded hf data fs

theorem bounded_writeAt (data : Bytes) (offset : UInt64) : BoundedCall (handle.writeAt data offset) := by
  refine boundedCall_of_same (fun f fs hf => ?_) (writeAt_shape data offset)
  cases f with
  | dir f => trivial
  | node f => exact NodeFile.write_bounded (f := { f with offset }) hf data fs

theorem bounded_sync : BoundedCall handle.sync := by
  rintro ⟨f, fs⟩ ⟨hf, hfs⟩
  refine ⟨?_, fun _ _ => trivial⟩
  cases f with
  | dir f => exact ⟨hf, hfs⟩
  | node f =>
    simp only [handle, dispatch, NodeFile.sync]
    split
    · exact ⟨hf, hfs.update hf⟩
    · exact ⟨hf, hfs⟩

theorem bounded_close : BoundedCall handle.close := by
  rintro ⟨f, fs⟩ ⟨hf, hfs⟩
  refine ⟨?_, fun _ _ => trivial⟩
  cases f with
  | dir f => exact ⟨hf, hfs⟩
  | node f =>
    simp only [handle, dispatch, NodeFile.close, NodeFile.sync]
    split
    · exact ⟨hf, hfs⟩
    · split
      · exact ⟨hf, hfs.update hf⟩
      · exact ⟨hf, hfs⟩

end MemFile

theorem BoundedCall.withFile {α : Type} {p : Prog (MemFile × MemFs) Error α} (hp : BoundedCall p) {f : MemFile}
    (hf : f.Bounded) : Safe MemFs.DataBounded (fun r => r.2.Bounded) (withFile f p) := by
  intro fs hfs
  have hs := (hp (f, fs) ⟨hf, hfs⟩).1
  unfold Star9.withFile
  rcases h : p (f, fs) with ⟨a | e | _, f', fs'⟩ <;> rw [h] at hs
  · exact ⟨hs.2, fun r hr => by cases hr; exact hs.1⟩
  · exact ⟨hs.2, fun r hr => by cases hr; exact hs.1⟩
  · exact ⟨hs.2, fun r hr => by cases hr⟩

namespace MemFs

theorem bounded_openNode (id : NodeId) : Safe DataBounded MemFile.Bounded (openNode id) := by
  intro fs hfs
  exact ⟨hfs, fun f hf => by cases hf; exact hfs id⟩

theorem bounded_openDir (name : String) : Safe DataBounded MemFile.Bounded (openDir name) := by
  refine safe_bind safe_get fun fs _ => safe_ite (fun _ => safe_throw _) fun _ => ?_
  exact safe_pure trivial

theorem bounded_openAt (depth : Nat) (ctx : FsContext) (name : String) :
    Safe DataBounded MemFile.Bounded (openAt depth ctx name) := by
  induction depth generalizing name with
  | zero => exact safe_abort
  | succ depth ih =>
    refine safe_ite (fun _ => safe_throw _) fun _ => safe_bind safe_get fun fs _ => ?_
    dsimp only
    split
    · refine safe_ite (fun _ => ih _) fun _ => safe_ite (fun _ => ?_) fun _ => bounded_openDir _
      refine safe_then (safe_modify fun fs hfs => ?_) fun _ => bounded_openNode _
      exact hfs.of_shape (shape_updateNode fun n => n.core_setName _)
    · exact bounded_openDir _

theorem bounded_open (ctx : FsContext) (name : String) : Safe DataBounded MemFile.Bounded (open_ ctx name) :=
  safe_bind safe_get fun _ _ => bounded_openAt _ _ _

theorem bounded_create (name : String) : Safe DataBounded MemFile.Bounded (create name) := by
  refine safe_ite (fun _ => safe_throw _) fun _ => safe_bind (V := fun _ => True) ?_ fun b _ => ?_
  · intro fs hfs
    exact ⟨hfs.of_shape (preserves_parentExists shape _ fs), fun _ _ => trivial⟩
  · refine safe_ite (fun _ => safe_throw _) fun _ => safe_bind safe_get fun fs _ => ?_
    refine safe_then (safe_modify fun fs hfs => ?_) fun _ => ?_
    · exact hfs.update (Nat.zero_le _)
    · exact safe_then (safe_modify fun fs hfs => hfs.of_shape shape_recomputeDirSizes) fun _ => bounded_openNode _

theorem bounded_chmodSupported (name : String) (perm : FileMode) :
    Safe DataBounded (fun _ => True) (FileSystem.chmodSupported chmod name perm) := by
  have hchmod : Safe DataBounded (fun _ => True) (chmod name perm) := by
    intro fs hfs
    refine ⟨?_, fun _ _ => trivial⟩
    rcases nodeOr_cases "chmod" (cleanPath name) fs with ⟨id, -, hnode⟩ | ⟨-, hnode⟩
    · rw [chmod, bind_ok hnode]
      exact hfs.update (hfs id)
    · rw [chmod, bind_err hnode]
      exact hfs
  refine safe_then (safe_mono (safe_attempt hchmod) fun _ _ => trivial) fun r => ?_
  split
  · exact safe_pure trivial
  · exact safe_pure trivial
  · exact safe_throw _

theorem bounded_openFile (name : String) (flags : OpenFlags) (perm : FileMode) :
    Safe DataBounded MemFile.Bounded (memFs.openFile name flags perm) := by
  refine safe_ite (fun _ => ?_) fun _ => bounded_open _ _
  refine safe_bind (V := fun r : MemFile × Bool => r.1.Bounded) ?_ fun (f, created) hf => ?_
  · refine safe_bind (safe_attempt (bounded_open _ _)) fun r hr => ?_
    cases r with
    | ok f => exact safe_pure (hr f rfl)
    | error e =>
      refine safe_ite (fun _ => ?_) fun _ => safe_throw _
      exact safe_bind (bounded_create name) fun f hf => safe_pure hf
  · refine safe_bind (V := MemFile.Bounded) ?_ fun f hf => safe_bind (V := MemFile.Bounded) ?_ fun f hf => ?_
    · refine safe_ite (fun _ => ?_) fun _ => safe_pure hf
      exact safe_bind (MemFile.bounded_close.withFile hf) fun _ _ => bounded_create name
    · refine safe_ite (fun _ => ?_) fun _ => safe_pure hf
      refine safe_bind (MemFile.bounded_close.withFile hf) fun _ _ => ?_
      exact safe_then (bounded_chmodSupported name perm) fun _ => bounded_open _ _
    · refine safe_ite (fun _ => ?_) fun _ => safe_pure hf
      refine safe_bind ((MemFile.bounded_seek _).withFile hf) fun r hr => ?_
      exact safe_then (safe_ofExcept _) fun _ => safe_pure hr

end MemFs
end Star9
