import Star9.Fs.MemRun
import Star9.Fs.MemHandle
import Star9.Sync.Patch

/-!
# Dirty tracking

A client uses a `SyncFs` over a local in-memory file system and the handles it was
given, and pushes now and then. Tracking is complete when every path that differs
from the last pushed state lies under a mark. A mark covers what an operation on
paths changes at the path it names; it does not cover other names of the same node,
and a handle is marked when it is closed, if at all, not when its changes arrive.
-/
namespace Star9
open Base Prog

/-- What a push makes of a node: its mode and its contents. -/
def NodeInner.view (n : NodeInner) : FileMode × Bytes := (n.metadata.mode, n.data)

namespace MemFs
variable {fs fs' : MemFs} {touched : String → Prop}

def view (fs : MemFs) (p : String) : Option (FileMode × Bytes) := (fs.nodes[p]?).map fun id => (fs.heap id).view

theorem view_eq (fs : MemFs) (p : String) : fs.view p = (fs.coreAt p).map fun c => (c.mode, c.data) := by
  simp only [view, coreAt, Option.map_map]
  rfl

/-- Outside of the touched paths every path looks as before. -/
def ViewFrame (touched : String → Prop) (fs fs' : MemFs) : Prop :=
  fs.IdsBelow → fs'.IdsBelow ∧ ∀ q, ¬ touched q → fs'.view q = fs.view q

theorem Frame.viewFrame (h : Frame touched fs fs') : ViewFrame touched fs fs' := by
  intro hfs
  obtain ⟨hfs', heq⟩ := h hfs
  exact ⟨hfs', fun q hq => by rw [view_eq, view_eq, heq q hq]⟩

theorem ViewFrame.trans {fs'' : MemFs} (h : ViewFrame touched fs fs') (h' : ViewFrame touched fs' fs'') :
    ViewFrame touched fs fs'' := by
  intro hfs
  obtain ⟨hfs', heq⟩ := h hfs
  obtain ⟨hfs'', heq'⟩ := h' hfs'
  exact ⟨hfs'', fun q hq => (heq' q hq).trans (heq q hq)⟩

theorem ViewFrame.mono {touched' : String → Prop} (h : ViewFrame touched fs fs') (hsub : ∀ q, touched q → touched' q) :
    ViewFrame touched' fs fs' := by
  intro hfs
  obtain ⟨hfs', heq⟩ := h hfs
  exact ⟨hfs', fun q hq => heq q fun ht => hq (hsub q ht)⟩

/-- An update of one node is seen at the paths that name it, if it is seen at all. -/
theorem viewFrame_updateNode {id : NodeId} {f : NodeInner → NodeInner}
    (h : (f (fs.heap id)).view = (fs.heap id).view ∨ ∀ q, fs.nodes[q]? = some id → touched q) :
    ViewFrame touched fs (fs.updateNode id f) := by
  intro hfs
  refine ⟨hfs, fun q hq => ?_⟩
  rw [view, view, updateNode_nodes]
  cases hi : fs.nodes[q]? with
  | none => rfl
  | some i =>
    by_cases hid : i = id
    · subst hid
      rcases h with hsame | htouched
      · simp [hsame]
      · exact absurd (htouched q hi) hq
    · simp [hid]

theorem viewFrame_nodeOr_bind {op name : String} {f : NodeId → Prog MemFs Error Unit}
    (hf : ∀ id, fs.nodes[name]? = some id → ViewFrame touched fs (f id fs).2) :
    ViewFrame touched fs ((nodeOr op name >>= f) fs).2 := by
  rcases nodeOr_cases op name fs with ⟨id, hid, hnode⟩ | ⟨-, hnode⟩
  · rw [bind_ok hnode]
    exact hf id hid
  · rw [bind_err hnode]
    exact (refl_of (Frame touched) fs).viewFrame

theorem viewFrame_chown (name : String) (uid gid : UInt32) : ViewFrame touched fs (chown name uid gid fs).2 :=
  viewFrame_nodeOr_bind fun _ _ => viewFrame_updateNode (Or.inl rfl)

theorem viewFrame_chtimes (name : String) (mtime : SystemTime) : ViewFrame touched fs (chtimes name mtime fs).2 :=
  viewFrame_nodeOr_bind fun _ _ => viewFrame_updateNode (Or.inl rfl)

theorem viewFrame_setXattr (name attr : String) (data : Bytes) :
    ViewFrame touched fs (setXattr name attr data fs).2 :=
  viewFrame_nodeOr_bind fun _ _ => viewFrame_updateNode (Or.inl rfl)

theorem viewFrame_removeXattr (name attr : String) : ViewFrame touched fs (removeXattr name attr fs).2 := by
  refine viewFrame_nodeOr_bind fun id _ => ?_
  rw [get_bind, branch_apply]
  split
  · exact viewFrame_updateNode (Or.inl rfl)
  · exact (refl_of (Frame touched) fs).viewFrame

end MemFs

namespace SyncState

/-- Some mark is at the path or above it. -/
def covers (s : SyncState) (p : String) : Bool := s.dirty.keys.any fun k => within k p

theorem covers_iff {s : SyncState} {p : String} :
    s.covers p = true ↔ ∃ k, k ∈ s.dirty ∧ within k p = true := by
  simp [covers, Std.ExtTreeMap.mem_keys]

theorem covers_markDirty {s : SyncState} {path p : String} {change : DirtyChange} :
    (s.markDirty path change).covers p = (within (cleanPath path) p || s.covers p) := by
  rw [Bool.eq_iff_iff, Bool.or_eq_true, covers_iff, covers_iff]
  simp only [markDirty, Std.ExtTreeMap.mem_insert]
  constructor
  · rintro ⟨k, hk, hw⟩
    rcases hk with hk | hk
    · left
      rw [Std.LawfulEqCmp.eq_of_compare hk]
      exact hw
    · exact Or.inr ⟨k, hk, hw⟩
  · rintro (hw | ⟨k, hk, hw⟩)
    · exact ⟨cleanPath path, Or.inl (by simp), hw⟩
    · exact ⟨k, Or.inr hk, hw⟩

end SyncState

/-! ## Runs -/

inductive SyncOp where
  | open_ (ctx : FsContext) (name : String)
  | openFile (name : String) (flags : OpenFlags) (perm : FileMode)
  | create (name : String)
  | mkdir (name : String) (perm : FileMode)
  | remove (name : String)
  | rename (old new : String)
  | link (old new : String)
  | symlink (old new : String)
  | chmod (name : String) (mode : FileMode)
  | chown (name : String) (uid gid : UInt32)
  | chtimes (name : String) (mtime : SystemTime)
  | truncate (name : String) (size : UInt64)
  | setXattr (name attr : String) (data : Bytes)
  | removeXattr (name attr : String)
  | read (file : Nat) (len : Nat)
  | write (file : Nat) (data : Bytes)
  | writeAt (file : Nat) (data : Bytes) (offset : UInt64)
  | seek (file : Nat) (pos : SeekFrom)
  | sync (file : Nat)
  | close (file : Nat)
  | drop (file : Nat)
  | push

/-- `pushed` is the local file system at the last push that succeeded. -/
structure SyncWorld (ρ : Type) where
  store : SyncStore MemFs
  files : List (SyncHandle MemFile)
  remote : ρ
  pushed : MemFs

/-- The parts of a push that the run leaves open: the tar builder, the remote, and the
number of nested calls and of reads that a push may use. -/
structure PushEnv (ρ : Type) where
  tar : TarBuilder
  apply : List PatchEntry → Prog ρ Error Unit
  depth : Nat
  rounds : Nat

namespace SyncWorld
variable {ρ α : Type} (env : PushEnv ρ)

/-- A new `SyncFs`, whose local tree counts as pushed. -/
def init (fs : MemFs) (remote : ρ) : SyncWorld ρ :=
  { store := { localFs := fs, marks := .new }, files := [], remote, pushed := fs }

def onPath (p : Prog (SyncStore MemFs) Error α) (w : SyncWorld ρ) : SyncWorld ρ :=
  { w with store := (p w.store).2 }

def opening (p : Prog (SyncStore MemFs) Error (SyncHandle MemFile)) (w : SyncWorld ρ) : SyncWorld ρ :=
  { w with store := (p w.store).2, files := w.files ++ (p w.store).1.toOption.toList }

def onFile (file : Nat) (p : Prog (SyncHandle MemFile × SyncStore MemFs) Error α) (w : SyncWorld ρ) :
    SyncWorld ρ :=
  match w.files[file]? with
  | some f => { w with store := (p (f, w.store)).2.2, files := w.files.set file (p (f, w.store)).2.1 }
  | none => w

def push (w : SyncWorld ρ) : SyncWorld ρ :=
  match SyncFs.push memFs env.tar env.rounds env.depth env.apply (w.store, w.remote) with
  | (.ok (), store, remote) => { w with store, remote, pushed := store.localFs }
  | (_, store, remote) => { w with store, remote }

def step (w : SyncWorld ρ) : SyncOp → SyncWorld ρ
  | .open_ ctx name => w.opening ((syncFs memFs).open_ ctx name)
  | .openFile name flags perm => w.opening ((syncFs memFs).openFile name flags perm)
  | .create name => w.opening ((syncFs memFs).create name)
  | .mkdir name perm => w.onPath ((syncFs memFs).mkdir name perm)
  | .remove name => w.onPath ((syncFs memFs).remove name)
  | .rename old new => w.onPath ((syncFs memFs).rename old new)
  | .link old new => w.onPath ((syncFs memFs).link old new)
  | .symlink old new => w.onPath ((syncFs memFs).symlink old new)
  | .chmod name mode => w.onPath ((syncFs memFs).chmod name mode)
  | .chown name uid gid => w.onPath ((syncFs memFs).chown name uid gid)
  | .chtimes name mtime => w.onPath ((syncFs memFs).chtimes name mtime)
  | .truncate name size => w.onPath ((syncFs memFs).truncate name size)
  | .setXattr name attr data => w.onPath ((syncFs memFs).setXattr name attr data)
  | .removeXattr name attr => w.onPath ((syncFs memFs).removeXattr name attr)
  | .read file len => w.onFile file ((syncFs memFs).file.read len)
  | .write file data => w.onFile file ((syncFs memFs).file.write data)
  | .writeAt file data offset => w.onFile file ((syncFs memFs).file.writeAt data offset)
  | .seek file pos => w.onFile file ((syncFs memFs).file.seek pos)
  | .sync file => w.onFile file (syncFs memFs).file.sync
  | .close file => w.onFile file (syncFs memFs).file.close
  | .drop file => { w with files := w.files.eraseIdx file }
  | .push => w.push env

/-- Every path that differs from the last pushed state lies at or under a mark. -/
def Complete (w : SyncWorld ρ) : Prop :=
  ∀ p, w.store.localFs.view p ≠ w.pushed.view p → w.store.marks.covers p = true

end SyncWorld

/-! ## The steps that tracking sees -/

namespace SyncStore

/-- The node may come to look like `new`: it does so already, or every path that names
it is marked or lies under the path that is marked with the step. -/
def nodeTracked (s : SyncStore MemFs) (also : Option String) (id : NodeId) (new : FileMode × Bytes) : Bool :=
  new == (s.localFs.heap id).view ||
    s.localFs.nodes.toList.all fun kv => kv.2 != id || s.marks.covers kv.1 || also.any fun path => within path kv.1

def chmodTracked (s : SyncStore MemFs) (also : Option String) (p : String) (mode : FileMode) : Bool :=
  match s.localFs.nodes[p]? with
  | some id =>
    let inner := s.localFs.heap id
    s.nodeTracked also id (inner.metadata.mode.typeBits ||| FileMode.fromPerm mode.perm, inner.data)
  | none => true

def truncateTracked (s : SyncStore MemFs) (also : Option String) (p : String) (size : UInt64) : Bool :=
  match s.localFs.nodes[p]? with
  | some id =>
    let inner := s.localFs.heap id
    s.nodeTracked also id (inner.metadata.mode, resize inner.data size.toNat)
  | none => true

/-- `create` replaces the node at once and marks it only when the handle is closed. -/
def createTracked (s : SyncStore MemFs) (p : String) : Bool :=
  (MemFs.parentExists p s.localFs).1 != .ok true || s.marks.covers p ||
    s.localFs.view p == some (FileMode.fromPerm 0o644, [])

def openTracked (s : SyncStore MemFs) (name : String) (flags : OpenFlags) (perm : FileMode) : Bool :=
  !flags.isWrite ||
    if s.localFs.openReplaces name flags then
      s.createTracked (cleanPath name) && (perm.bits == 0 || s.marks.covers (cleanPath name))
    else perm.bits == 0 || s.chmodTracked none (cleanPath name) perm

/-- What a handle holds back may be written to its node. -/
def commitTracked (s : SyncStore MemFs) (also : Option String) (h : SyncHandle MemFile) : Bool :=
  match h.inner with
  | .node f => !f.dirty || s.nodeTracked also f.node ((s.localFs.heap f.node).metadata.mode, f.data)
  | .dir _ => true

end SyncStore

namespace SyncWorld
variable {ρ : Type}

/-- The step marks, or finds marked, every path whose node it changes. -/
def trackStepOk (w : SyncWorld ρ) : SyncOp → Bool
  | .create name => w.store.createTracked (cleanPath name)
  | .openFile name flags perm => w.store.openTracked name flags perm
  | .chmod name mode => w.store.chmodTracked (some (cleanPath name)) (cleanPath name) mode
  | .truncate name size => w.store.truncateTracked (some (cleanPath name)) (cleanPath name) size
  | .sync file =>
    match w.files[file]? with
    | some h => w.store.commitTracked none h
    | none => true
  | .close file =>
    match w.files[file]? with
    | some h => w.store.commitTracked (h.marks.map cleanPath) h
    | none => true
  | _ => true

end SyncWorld

/-! ## One step -/

/-- Marks are only added, and outside of them every path looks as before. -/
structure Tracks (s s' : SyncStore MemFs) : Prop where
  mono : ∀ q, s.marks.covers q = true → s'.marks.covers q = true
  frame : MemFs.ViewFrame (fun q => s'.marks.covers q = true) s.localFs s'.localFs

namespace Tracks
variable {s s' : SyncStore MemFs}

theorem of_frame (hm : s'.marks = s.marks)
    (h : MemFs.ViewFrame (fun q => s.marks.covers q = true) s.localFs s'.localFs) : Tracks s s' where
  mono _ hq := hm ▸ hq
  frame := hm ▸ h

theorem of_shape (hm : s'.marks = s.marks) (h : s'.localFs.shape = s.localFs.shape) : Tracks s s' :=
  of_frame hm (MemFs.frame_of_shape h).viewFrame

/-- An operation that is marked when it succeeds and does nothing when it fails. -/
theorem of_marked {p : Prog MemFs Error Unit} {after : Unit → Prog (SyncStore MemFs) Error Unit}
    {M : SyncState → SyncState} {T : String → Bool}
    (hafter : ∀ s : SyncStore MemFs, after () s = (.ok (), { s with marks := M s.marks }))
    (hmarks : ∀ q, (M s.marks).covers q = (T q || s.marks.covers q)) (hclean : MemFs.Clean p)
    (hframe : MemFs.ViewFrame (fun q => T q = true ∨ s.marks.covers q = true) s.localFs (p s.localFs).2) :
    Tracks s ((onLocal p >>= after) s).2 := by
  have hfail := hclean s.localFs
  rw [bind_apply, onLocal, zoom_apply]
  rcases h : p s.localFs with ⟨a | e | _, fs'⟩ <;> rw [h] at hframe hfail
  · dsimp only
    rw [hafter]
    constructor
    · intro q hq
      rw [hmarks, hq, Bool.or_true]
    · exact hframe.mono fun q hq => by rwa [hmarks, Bool.or_eq_true]
  · exact of_shape rfl (hfail rfl)
  · exact of_shape rfl (hfail rfl)

theorem of_marking {p : Prog MemFs Error Unit} {path : String} (hclean : MemFs.Clean p)
    (hframe : MemFs.ViewFrame (fun q => within (cleanPath path) q = true ∨ s.marks.covers q = true) s.localFs
      (p s.localFs).2) : Tracks s (SyncFs.marking p path s).2 :=
  of_marked (M := fun m => m.markDirty path .upsert) (fun _ => rfl) (fun _ => SyncState.covers_markDirty)
    hclean hframe

end Tracks

section Paths
variable {s : SyncStore MemFs}

theorem wasDir_state (name : String) (s : SyncStore MemFs) : (SyncFs.wasDir memFs name s).2 = s := by
  refine (preserves_bind (preserves_attempt ?_) fun r => ?_ : Preserves id _) s
  · intro s
    rfl
  · cases r <;> exact preserves_pure _

theorem mkdir_tracks (name : String) (perm : FileMode) : Tracks s ((syncFs memFs).mkdir name perm s).2 :=
  .of_marking (MemFs.clean_mkdir name perm)
    (MemFs.evolves_mkdir perm (Or.inl (within_self _)) s.localFs).viewFrame

theorem symlink_tracks (old new : String) : Tracks s ((syncFs memFs).symlink old new s).2 :=
  .of_marking (MemFs.clean_symlink old new) (MemFs.evolves_symlink (Or.inl (within_self _)) s.localFs).viewFrame

theorem link_tracks (old new : String) : Tracks s ((syncFs memFs).link old new s).2 :=
  .of_marking (MemFs.clean_link old new) (MemFs.evolves_link (Or.inl (within_self _)) s.localFs).viewFrame

theorem chown_tracks (name : String) (uid gid : UInt32) : Tracks s ((syncFs memFs).chown name uid gid s).2 :=
  .of_marking (MemFs.clean_chown name uid gid) (MemFs.viewFrame_chown name uid gid)

theorem chtimes_tracks (name : String) (mtime : SystemTime) : Tracks s ((syncFs memFs).chtimes name mtime s).2 :=
  .of_marking (MemFs.clean_chtimes name mtime) (MemFs.viewFrame_chtimes name mtime)

theorem setXattr_tracks (name attr : String) (data : Bytes) : Tracks s ((syncFs memFs).setXattr name attr data s).2 :=
  .of_marking (MemFs.clean_setXattr name attr data) (MemFs.viewFrame_setXattr name attr data)

theorem removeXattr_tracks (name attr : String) : Tracks s ((syncFs memFs).removeXattr name attr s).2 :=
  .of_marking (MemFs.clean_removeXattr name attr) (MemFs.viewFrame_removeXattr name attr)

/-- `remove` and `rename` look before they act, and a failed look changes nothing. -/
theorem Tracks.of_wasDir {f : Bool → Prog (SyncStore MemFs) Error Unit} (name : String)
    (hf : ∀ recursive, Tracks s (f recursive s).2) : Tracks s ((SyncFs.wasDir memFs name >>= f) s).2 := by
  rw [bind_of_state (wasDir_state name s)]
  rcases (SyncFs.wasDir memFs name s).1 with b | e | _
  · exact hf b
  · exact .of_shape rfl rfl
  · exact .of_shape rfl rfl

theorem remove_tracks (name : String) : Tracks s ((syncFs memFs).remove name s).2 := by
  refine Tracks.of_wasDir name fun recursive => ?_
  refine Tracks.of_marked (M := fun m => m.markDirty name (.remove recursive)) (fun _ => rfl)
    (fun _ => SyncState.covers_markDirty) (MemFs.clean_remove name) ?_
  exact (MemFs.evolves_remove (Or.inl (within_self _)) s.localFs).viewFrame

theorem rename_tracks (old new : String) : Tracks s ((syncFs memFs).rename old new s).2 := by
  refine Tracks.of_wasDir old fun recursive => ?_
  refine Tracks.of_marked (M := fun m => (m.markDirty old (.remove recursive)).markDirty new .upsert)
    (T := fun q => within (cleanPath new) q || within (cleanPath old) q) (fun _ => rfl) (fun q => ?_)
    (MemFs.clean_rename old new) ?_
  · rw [SyncState.covers_markDirty, SyncState.covers_markDirty, Bool.or_assoc]
  · exact (MemFs.evolves_rename (fun q hq => Or.inl (by simp [hq])) (fun q hq => Or.inl (by simp [hq]))
      s.localFs).viewFrame

theorem SyncStore.nodeTracked_spec {also : Option String} {id : NodeId} {new : FileMode × Bytes}
    (h : s.nodeTracked also id new = true) :
    new = (s.localFs.heap id).view ∨ ∀ q, s.localFs.nodes[q]? = some id →
      also.any (fun path => within path q) = true ∨ s.marks.covers q = true := by
  simp only [nodeTracked, Bool.or_eq_true, beq_iff_eq, List.all_eq_true, bne_iff_ne] at h
  rcases h with hsame | hall
  · exact Or.inl hsame
  · refine Or.inr fun q hq => ?_
    rcases hall (q, id) (Std.ExtTreeMap.mem_toList_iff_getElem?_eq_some.mpr hq) with (hne | hcov) | hwithin
    · exact absurd rfl hne
    · exact Or.inr hcov
    · exact Or.inl hwithin

theorem viewFrame_chmod {also : Option String} {name : String} {mode : FileMode} {fs : MemFs}
    (hfs : fs.shape = s.localFs.shape) (h : s.chmodTracked also (cleanPath name) mode = true) :
    MemFs.ViewFrame (fun q => also.any (fun path => within path q) = true ∨ s.marks.covers q = true) s.localFs
      (MemFs.chmod name mode fs).2 := by
  have hn : fs.nodes = s.localFs.nodes := congrArg Shape.nodes hfs
  have hc : ∀ i, (fs.heap i).core = (s.localFs.heap i).core := congrFun (congrArg Shape.core hfs)
  have hview : ∀ i, (fs.heap i).view = (s.localFs.heap i).view :=
    fun i => congrArg (fun c : NodeCore => (c.mode, c.data)) (hc i)
  refine (MemFs.frame_of_shape hfs).viewFrame.trans (MemFs.viewFrame_nodeOr_bind fun id hid => ?_)
  rw [hn] at hid
  simp only [SyncStore.chmodTracked, hid] at h
  refine MemFs.viewFrame_updateNode ?_
  rw [hn, hview]
  refine (SyncStore.nodeTracked_spec h).imp_left fun hsame => ?_
  rw [← hsame]
  have hmode : (fs.heap id).metadata.mode = (s.localFs.heap id).metadata.mode := congrArg NodeCore.mode (hc id)
  have hdata : (fs.heap id).data = (s.localFs.heap id).data := congrArg NodeCore.data (hc id)
  simp only [NodeInner.view, NodeInner.setMode, hmode, hdata]

theorem chmod_tracks {name : String} {mode : FileMode}
    (h : s.chmodTracked (some (cleanPath name)) (cleanPath name) mode = true) :
    Tracks s ((syncFs memFs).chmod name mode s).2 :=
  .of_marking (MemFs.clean_chmod name mode) (viewFrame_chmod rfl h)

theorem truncate_tracks {name : String} {size : UInt64}
    (h : s.truncateTracked (some (cleanPath name)) (cleanPath name) size = true) :
    Tracks s ((syncFs memFs).truncate name size s).2 := by
  refine .of_marking (MemFs.clean_truncate name size) (MemFs.viewFrame_nodeOr_bind fun id hid => ?_)
  rw [get_bind, branch_apply]
  split
  · exact (refl_of (MemFs.Frame _) s.localFs).viewFrame
  · simp only [SyncStore.truncateTracked, hid] at h
    exact MemFs.viewFrame_updateNode (SyncStore.nodeTracked_spec h)

/-! ### Creating and opening -/

theorem view_create {name : String} {fs : MemFs} (h : (MemFs.parentExists (cleanPath name) fs).1 = .ok true) :
    (MemFs.create name fs).2.view (cleanPath name) = some (FileMode.fromPerm 0o644, []) := by
  rw [MemFs.create_of_parent h, MemFs.openNode_state, MemFs.view_eq, MemFs.coreAt_recomputeDirSizes]
  simp [MemFs.coreAt, MemFs.insertNew, NodeInner.core, NodeInner.file]

theorem viewFrame_create {name : String} {fs : MemFs} (hfs : fs.shape = s.localFs.shape)
    (h : s.createTracked (cleanPath name) = true) :
    MemFs.ViewFrame (fun q => s.marks.covers q = true) s.localFs (MemFs.create name fs).2 := by
  refine (MemFs.frame_of_shape hfs).viewFrame.trans ?_
  simp only [SyncStore.createTracked, Bool.or_eq_true, bne_iff_ne, beq_iff_eq] at h
  by_cases hpar : (MemFs.parentExists (cleanPath name) fs).1 = .ok true
  · have hpar' := hpar
    rw [MemFs.parentExists_of_shape hfs] at hpar'
    rcases h with (href | hcov) | hsame
    · exact absurd hpar' href
    · exact (MemFs.evolves_create hcov fs).viewFrame
    · have hself : MemFs.Frame (fun q => q = cleanPath name) fs (MemFs.create name fs).2 := by
        apply MemFs.evolves_create
        rfl
      intro hids
      obtain ⟨hids', heq⟩ := hself.viewFrame hids
      refine ⟨hids', fun q _ => ?_⟩
      by_cases hq : q = cleanPath name
      · subst hq
        rw [view_create hpar, MemFs.view_eq, MemFs.coreAt_of_shape hfs, ← MemFs.view_eq, hsame]
      · exact heq q hq
  · rw [(MemFs.create_of_no_parent hpar).2]
    exact (refl_of (MemFs.Frame _) fs).viewFrame

/-- The node that `create` has made is named by the new path alone. -/
theorem aliases_create {name q : String} {fs : MemFs} (hids : fs.IdsBelow)
    (h : (MemFs.parentExists (cleanPath name) fs).1 = .ok true)
    (hq : (MemFs.create name fs).2.Aliases (cleanPath name) q) : q = cleanPath name := by
  rw [MemFs.create_of_parent h, MemFs.openNode_state] at hq
  obtain ⟨id, hname, hid⟩ := hq
  rw [MemFs.recomputeDirSizes_nodes, MemFs.insertNew_get] at hname hid
  rw [if_pos rfl] at hname
  cases hname
  by_contra hne
  rw [if_neg (Ne.symm hne)] at hid
  exact absurd (hids q _ hid) (Nat.lt_irrefl _)

theorem viewFrame_openFile {name : String} {flags : OpenFlags} {perm : FileMode}
    (h : s.openTracked name flags perm = true) :
    MemFs.ViewFrame (fun q => s.marks.covers q = true) s.localFs (memFs.openFile name flags perm s.localFs).2 := by
  rcases MemFs.openFile_cases name flags perm s.localFs with hs | ⟨hwrite, fs, hfs, ⟨hrep, hperm, hs⟩ | ⟨hrep, hpar, hs⟩⟩
  · exact (MemFs.frame_of_shape hs).viewFrame
  · have htracked : s.chmodTracked none (cleanPath name) perm = true := by
      simpa [SyncStore.openTracked, hwrite, hrep, hperm] using h
    refine MemFs.ViewFrame.trans ?_ (MemFs.frame_of_shape hs).viewFrame
    exact (viewFrame_chmod hfs htracked).mono fun q hq => by simpa using hq
  · simp only [SyncStore.openTracked, hwrite, hrep, Bool.not_true, Bool.false_or, if_true, Bool.and_eq_true,
      Bool.or_eq_true, beq_iff_eq] at h
    obtain ⟨hcreate, hmode⟩ := h
    have hframe := viewFrame_create hfs hcreate
    intro hids
    have hids' : fs.IdsBelow := (MemFs.frame_of_shape hfs : MemFs.Frame (fun _ => True) _ fs) hids |>.1
    by_cases hperm : perm.bits = 0
    · rw [if_pos hperm] at hs
      exact (hframe.trans (MemFs.frame_of_shape hs).viewFrame) hids
    · rw [if_neg hperm] at hs
      have hcov : s.marks.covers (cleanPath name) = true := hmode.resolve_left hperm
      have hchmod : MemFs.Frame (fun q => s.marks.covers q = true) (MemFs.create name fs).2 _ :=
        MemFs.frame_chmod perm fun q hq => aliases_create hids' hpar hq ▸ hcov
      exact (hframe.trans (hchmod.viewFrame.trans (MemFs.frame_of_shape hs).viewFrame)) hids

theorem create_tracks {name : String} (h : s.createTracked (cleanPath name) = true) :
    Tracks s ((syncFs memFs).create name s).2 := by
  have hout : ((syncFs memFs).create name s).2 = { s with localFs := (MemFs.create name s.localFs).2 } :=
    bind_state (fun _ _ => rfl) s
  rw [hout]
  exact .of_frame rfl (viewFrame_create rfl h)

theorem openFile_tracks {name : String} {flags : OpenFlags} {perm : FileMode}
    (h : s.openTracked name flags perm = true) : Tracks s ((syncFs memFs).openFile name flags perm s).2 := by
  have hout : ((syncFs memFs).openFile name flags perm s).2 =
      { s with localFs := (memFs.openFile name flags perm s.localFs).2 } :=
    bind_state (fun _ _ => rfl) s
  rw [hout]
  exact .of_frame rfl (viewFrame_openFile h)

theorem open_tracks (ctx : FsContext) (name : String) : Tracks s ((syncFs memFs).open_ ctx name s).2 := by
  have hout : ((syncFs memFs).open_ ctx name s).2 = { s with localFs := (MemFs.open_ ctx name s.localFs).2 } :=
    bind_state (fun _ _ => rfl) s
  rw [hout]
  exact .of_shape rfl (MemFs.preserves_open ctx name s.localFs)

end Paths

/-! ### Handles -/

section Files
variable {s : SyncStore MemFs} {h : SyncHandle MemFile}

theorem onInner_tracks {α : Type} {p : Prog (MemFile × MemFs) Error α}
    (hp : (p (h.inner, s.localFs)).2.2.shape = s.localFs.shape) : Tracks s (SyncHandle.onInner p (h, s)).2.2 :=
  .of_shape rfl hp

theorem noteWritten_tracks {p : Prog (MemFile × MemFs) Error Nat}
    (hp : (p (h.inner, s.localFs)).2.2.shape = s.localFs.shape) : Tracks s (SyncHandle.noteWritten p (h, s)).2.2 := by
  have hout : (SyncHandle.noteWritten p (h, s)).2.2 = (SyncHandle.onInner p (h, s)).2.2 := by
    unfold SyncHandle.noteWritten
    rw [bind_apply]
    rcases hr : SyncHandle.onInner p (h, s) with ⟨n | e | _, h', s'⟩
    · dsimp only
      rw [branch_apply]
      split <;> rfl
    · rfl
    · rfl
  rw [hout]
  exact onInner_tracks hp

theorem viewFrame_sync {also : Option String} (hok : s.commitTracked also h = true) :
    MemFs.ViewFrame (fun q => also.any (fun path => within path q) = true ∨ s.marks.covers q = true) s.localFs
      (MemFile.handle.sync (h.inner, s.localFs)).2.2 := by
  unfold SyncStore.commitTracked at hok
  cases hi : h.inner with
  | dir f => exact (refl_of (MemFs.Frame _) s.localFs).viewFrame
  | node f =>
    rw [hi] at hok
    show MemFs.ViewFrame _ _ (NodeFile.sync (f, s.localFs)).2.2
    unfold NodeFile.sync
    dsimp only
    split
    · rename_i hdirty
      simp only [hdirty, Bool.not_true, Bool.false_or] at hok
      exact MemFs.viewFrame_updateNode (SyncStore.nodeTracked_spec hok)
    · exact (refl_of (MemFs.Frame _) s.localFs).viewFrame

theorem sync_tracks (hok : s.commitTracked none h = true) :
    Tracks s ((syncFs memFs).file.sync (h, s)).2.2 :=
  .of_frame rfl ((viewFrame_sync hok).mono fun q hq => by simpa using hq)

/-- Closing a handle writes what syncing it would, or is refused and writes nothing. -/
theorem close_cases (f : MemFile) (fs : MemFs) :
    (∃ f', MemFile.handle.close (f, fs) = (.ok (), f', (MemFile.handle.sync (f, fs)).2.2)) ∨
    ∃ e, MemFile.handle.close (f, fs) = (.err e, f, fs) := by
  cases f with
  | dir f => exact Or.inl ⟨_, rfl⟩
  | node f =>
    simp only [MemFile.handle, MemFile.dispatch, NodeFile.close, NodeFile.sync]
    by_cases hclosed : f.closed = true
    · exact Or.inr ⟨_, by rw [if_pos hclosed]⟩
    · rw [if_neg hclosed]
      split
      · exact Or.inl ⟨_, rfl⟩
      · exact Or.inl ⟨_, rfl⟩

theorem SyncHandle.marks_setInner (f : MemFile) (h : SyncHandle MemFile) : (h.setInner f).marks = h.marks := by
  cases h <;> rfl

theorem close_tracks (hok : s.commitTracked (h.marks.map cleanPath) h = true) :
    Tracks s ((syncFs memFs).file.close (h, s)).2.2 := by
  have hframe := viewFrame_sync hok
  show Tracks s ((SyncHandle.onInner MemFile.handle.close >>= fun _ => SyncHandle.markClosed) (h, s)).2.2
  rw [bind_apply, SyncHandle.onInner]
  rcases close_cases h.inner s.localFs with ⟨f', hclose⟩ | ⟨e, hclose⟩
  · rw [hclose]
    simp only [SyncHandle.markClosed, modify_apply, SyncHandle.marks_setInner]
    cases hm : h.marks with
    | none =>
      rw [hm] at hframe
      exact .of_frame rfl (hframe.mono fun q hq => by simpa using hq)
    | some path =>
      rw [hm] at hframe
      constructor
      · intro q hq
        simp [SyncStore.mark, SyncState.covers_markDirty, hq]
      · refine hframe.mono fun q hq => ?_
        simpa [SyncStore.mark, SyncState.covers_markDirty] using hq
  · rw [hclose]
    exact .of_shape rfl rfl

end Files

/-! ### Pushing -/

theorem preserves_freeLstat (name : String) : Preserves MemFs.shape (memFs.freeLstat name) :=
  MemFs.preserves_stat _ _ _

section Push
variable (tar : TarBuilder) (rounds : Nat)

/-- Building a patch only reads the local file system. -/
theorem preserves_appendPatchPath (depth : Nat) (path : String) :
    Preserves MemFs.shape (appendPatchPath memFs tar rounds depth path) := by
  induction depth generalizing path with
  | zero => exact preserves_abort
  | succ depth ih =>
    refine preserves_bind (preserves_freeLstat path) fun metadata => ?_
    refine preserves_ite ?_ (preserves_ite ?_ ?_)
    · refine preserves_bind (MemFs.preserves_readlink path) fun target => ?_
      refine preserves_bind (preserves_ofExcept _) fun _ => preserves_bind (preserves_ofExcept _) fun _ => ?_
      exact preserves_pure _
    · refine preserves_bind (preserves_ofExcept _) fun _ => ?_
      refine preserves_bind (MemFs.preserves_readDir _ _) fun entries => ?_
      refine preserves_bind ?_ fun _ => preserves_pure _
      exact preserves_mapM fun entry _ => ih _
    · refine preserves_bind (MemFs.preserves_readFile rounds path) fun data => ?_
      exact preserves_bind (preserves_ofExcept _) fun _ => preserves_pure _

theorem preserves_appendMark (depth : Nat) (mark : String × DirtyEntry) :
    Preserves MemFs.shape (appendMark memFs tar rounds depth mark) := by
  unfold appendMark
  split
  · exact preserves_appendPatchPath tar rounds depth _
  · exact preserves_bind (preserves_ofExcept _) fun _ => preserves_pure _

theorem preserves_buildPatch (depth : Nat) (dirty : DirtyMap) :
    Preserves MemFs.shape (buildPatch memFs tar rounds depth dirty) := by
  refine preserves_bind (preserves_mapM fun mark _ => ?_) fun _ => preserves_pure _
  exact preserves_appendMark tar rounds depth mark

/-- A push keeps the shape of the local file system, and the marks unless it succeeds. -/
theorem push_spec {ρ : Type} (apply : List PatchEntry → Prog ρ Error Unit) (depth : Nat) (s : SyncStore MemFs)
    (r : ρ) :
    (SyncFs.push memFs tar rounds depth apply (s, r)).2.1.localFs.shape = s.localFs.shape ∧
      ((SyncFs.push memFs tar rounds depth apply (s, r)).1.isOk = false →
        (SyncFs.push memFs tar rounds depth apply (s, r)).2.1.marks = s.marks) := by
  have hbuild := preserves_buildPatch tar rounds depth s.marks.dirty s.localFs
  unfold SyncFs.push
  rw [get_bind]
  dsimp only
  rw [branch_apply]
  split
  · exact ⟨rfl, fun _ => rfl⟩
  · rw [bind_apply, zoom_apply, onLocal, zoom_apply]
    rcases hb : buildPatch memFs tar rounds depth s.marks.dirty s.localFs with ⟨patch | e | _, fs⟩ <;>
      rw [hb] at hbuild
    · dsimp only
      rw [bind_apply, zoom_apply]
      rcases apply patch r with ⟨a | e | _, r'⟩
      · exact ⟨hbuild, fun hfail => by cases hfail⟩
      · exact ⟨hbuild, fun _ => rfl⟩
      · exact ⟨hbuild, fun _ => rfl⟩
    · exact ⟨hbuild, fun _ => rfl⟩
    · exact ⟨hbuild, fun _ => rfl⟩

end Push

/-! ## Runs keep track -/

namespace SyncWorld
variable {ρ : Type} {env : PushEnv ρ} {w : SyncWorld ρ}

/-- Tracking is complete, and every path names an allocated node. -/
def Tracked (w : SyncWorld ρ) : Prop := w.store.localFs.IdsBelow ∧ w.Complete

theorem Tracked.of_tracks {w' : SyncWorld ρ} (hw : w.Tracked) (h : Tracks w.store w'.store)
    (hpushed : w'.pushed = w.pushed) : w'.Tracked := by
  obtain ⟨hids, hcomplete⟩ := hw
  obtain ⟨hids', hview⟩ := h.frame hids
  refine ⟨hids', fun p hp => ?_⟩
  by_contra hcov
  rw [hpushed, hview p hcov] at hp
  exact hcov (h.mono p (hcomplete p hp))

theorem Tracked.opening (hw : w.Tracked) {p : Prog (SyncStore MemFs) Error (SyncHandle MemFile)}
    (h : Tracks w.store (p w.store).2) : (w.opening p).Tracked := hw.of_tracks h rfl

theorem Tracked.onPath {α : Type} (hw : w.Tracked) {p : Prog (SyncStore MemFs) Error α}
    (h : Tracks w.store (p w.store).2) : (w.onPath p).Tracked := hw.of_tracks h rfl

theorem Tracked.onFile {α : Type} (hw : w.Tracked) {file : Nat}
    {p : Prog (SyncHandle MemFile × SyncStore MemFs) Error α}
    (h : ∀ f, w.files[file]? = some f → Tracks w.store (p (f, w.store)).2.2) : (w.onFile file p).Tracked := by
  unfold SyncWorld.onFile
  cases hf : w.files[file]? with
  | none => exact hw
  | some f => exact hw.of_tracks (h f hf) rfl

theorem Tracked.push (hw : w.Tracked) : (w.push env).Tracked := by
  obtain ⟨hshape, hmarks⟩ := push_spec env.tar env.rounds env.apply env.depth w.store w.remote
  unfold SyncWorld.push
  rcases h : SyncFs.push memFs env.tar env.rounds env.depth env.apply (w.store, w.remote) with
    ⟨a | e | _, s, r⟩ <;> rw [h] at hshape hmarks
  · have hids : s.localFs.IdsBelow := ((MemFs.frame_of_shape hshape : MemFs.Frame (fun _ => True) _ _) hw.1).1
    exact ⟨hids, fun _ hp => absurd rfl hp⟩
  · exact hw.of_tracks (.of_shape (hmarks rfl) hshape) rfl
  · exact hw.of_tracks (.of_shape (hmarks rfl) hshape) rfl

theorem step_tracked (op : SyncOp) (hw : w.Tracked) (hok : w.trackStepOk op = true) : (w.step env op).Tracked := by
  cases op with
  | open_ ctx name => exact hw.opening (open_tracks ctx name)
  | openFile name flags perm => exact hw.opening (openFile_tracks hok)
  | create name => exact hw.opening (create_tracks hok)
  | mkdir name perm => exact hw.onPath (mkdir_tracks name perm)
  | remove name => exact hw.onPath (remove_tracks name)
  | rename old new => exact hw.onPath (rename_tracks old new)
  | link old new => exact hw.onPath (link_tracks old new)
  | symlink old new => exact hw.onPath (symlink_tracks old new)
  | chmod name mode => exact hw.onPath (chmod_tracks hok)
  | chown name uid gid => exact hw.onPath (chown_tracks name uid gid)
  | chtimes name mtime => exact hw.onPath (chtimes_tracks name mtime)
  | truncate name size => exact hw.onPath (truncate_tracks hok)
  | setXattr name attr data => exact hw.onPath (setXattr_tracks name attr data)
  | removeXattr name attr => exact hw.onPath (removeXattr_tracks name attr)
  | read file len => exact hw.onFile fun f _ => onInner_tracks (congrArg MemFs.shape (MemFile.read_state _ _ _).1)
  | write file data => exact hw.onFile fun f _ => noteWritten_tracks (MemFile.write_shape _ _ _)
  | writeAt file data offset => exact hw.onFile fun f _ => noteWritten_tracks (MemFile.writeAt_shape _ _ _ _)
  | seek file pos => exact hw.onFile fun f _ => onInner_tracks (congrArg MemFs.shape (MemFile.seek_state _ _ _))
  | sync file =>
    refine hw.onFile fun f hf => sync_tracks ?_
    simpa [trackStepOk, hf] using hok
  | close file =>
    refine hw.onFile fun f hf => close_tracks ?_
    simpa [trackStepOk, hf] using hok
  | drop file => exact hw
  | push => exact hw.push

/-- The steps of a run that tracking sees. -/
def TrackStep (w : SyncWorld ρ) (op : SyncOp) : Prop := w.trackStepOk op = true

instance (w : SyncWorld ρ) (op : SyncOp) : Decidable (TrackStep w op) :=
  inferInstanceAs (Decidable (_ = true))

/-- In a run whose steps all mark what they change, or find it marked, every path that
differs from the last pushed state lies at or under a mark, in every state reached. -/
theorem run_complete (env : PushEnv ρ) (fs : MemFs) (remote : ρ) (hfs : fs.IdsBelow) (ops : List SyncOp)
    (h : StepsMeet (step env) TrackStep (init fs remote) ops) (k : Nat) :
    (run (step env) (init fs remote) (ops.take k)).Complete :=
  (run_invariant (I := fun w : SyncWorld ρ => w.Tracked) (fun _ op hw hok => step_tracked op hw hok)
    ⟨hfs, fun _ hp => absurd rfl hp⟩ (h.take k)).2

/-- A tar builder and a remote that accept everything. -/
def quietEnv : PushEnv Unit where
  tar := { setLinkName := fun _ => .ok (), appendData := fun _ => .ok () }
  apply := fun _ => pure ()
  depth := 8
  rounds := 8

def trackedRun : List SyncOp :=
  [.mkdir "a" (FileMode.fromPerm 0o755), .create "a/b", .write 0 [104, 105], .sync 0, .close 0, .push,
   .chmod "a/b" (FileMode.fromPerm 0o600), .open_ FsContext.new "a/b", .writeAt 1 [33] 2, .close 1,
   .rename "a" "c", .drop 0, .push, .symlink "b" "c/l", .link "c/b" "d", .remove "c/b"]

theorem run_complete_trackedRun :
    StepsMeet (step quietEnv) TrackStep (init (MemFs.new fun _ => 0) ()) trackedRun ∧
    (run (step quietEnv) (init (MemFs.new fun _ => 0) ()) (trackedRun.take 16)).Complete := by
  have h : StepsMeet (step quietEnv) TrackStep (init (MemFs.new fun _ => 0) ()) trackedRun := by
    decide +kernel
  exact ⟨h, run_complete _ _ _ (fun _ _ => (MemWorld.init_treeInv _).alloc.lt_next) _ h 16⟩

/-- A file is created and its handle dropped: the file is there, and nothing is marked. -/
theorem run_not_complete :
    ¬ ∀ (fs : MemFs) (ops : List SyncOp), fs.IdsBelow → (run (step quietEnv) (init fs ()) ops).Complete := by
  intro h
  have hcomplete := h (MemFs.new fun _ => 0) [.create "a", .drop 0]
    (fun _ _ => (MemWorld.init_treeInv fun _ => 0).alloc.lt_next)
  have hcov := hcomplete "a" (by decide +kernel)
  have hnone : (run (step quietEnv) (init (MemFs.new fun _ => 0) ()) [.create "a", .drop 0]).store.marks.covers "a" =
      false := by
    decide +kernel
  rw [hnone] at hcov
  cases hcov

end SyncWorld
end Star9
