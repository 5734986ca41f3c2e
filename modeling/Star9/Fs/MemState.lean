import Star9.Fs.MemFs

/-!
# States of the in-memory file system

What the operations on paths leave alone. The shape of a state is its path map
with the contents of every node, and forgets what reading may touch: names,
sizes and times.
-/
namespace Star9
open Base

/-- A node without its name, its size and its time stamp. -/
structure NodeCore where
  mode : FileMode
  uid : UInt32
  gid : UInt32
  data : Bytes
  xattrs : Std.ExtTreeMap String Bytes

def NodeInner.core (n : NodeInner) : NodeCore :=
  { mode := n.metadata.mode, uid := n.metadata.uid, gid := n.metadata.gid, data := n.data,
    xattrs := n.xattrs }

structure Shape where
  nodes : Std.ExtTreeMap String NodeId
  core : NodeId → NodeCore
  next : NodeId

namespace NodeInner

@[simp] theorem core_setName (name : String) (n : NodeInner) : (n.setName name).core = n.core := rfl

@[simp] theorem core_setSize (size : Nat) (n : NodeInner) : (n.setSize size).core = n.core := rfl

@[simp] theorem core_setModified (t : SystemTime) (n : NodeInner) : (n.setModified t).core = n.core := rfl

@[simp] theorem core_setData (data : Bytes) (t : SystemTime) (n : NodeInner) :
    (n.setData data t).core = { n.core with data } := rfl

@[simp] theorem core_setMode (mode : FileMode) (n : NodeInner) :
    (n.setMode mode).core = { n.core with mode } := rfl

@[simp] theorem core_setOwner (uid gid : UInt32) (n : NodeInner) :
    (n.setOwner uid gid).core = { n.core with uid, gid } := rfl

@[simp] theorem core_setXattr (attr : String) (value : Bytes) (n : NodeInner) :
    (n.setXattr attr value).core = { n.core with xattrs := n.xattrs.insert attr value } := rfl

theorem isDir_core (n : NodeInner) : n.core.mode.isDir = n.metadata.isDir := rfl

end NodeInner

namespace MemFs
variable {fs : MemFs}

def shape (fs : MemFs) : Shape :=
  { nodes := fs.nodes, core := fun i => (fs.heap i).core, next := fs.next }

/-- The node a path names, without its name, size and time. -/
def coreAt (fs : MemFs) (path : String) : Option NodeCore :=
  (fs.nodes[path]?).map fun i => (fs.heap i).core

def isDirNode (fs : MemFs) (path : String) : Bool :=
  match fs.coreAt path with
  | some c => c.mode.isDir
  | none => false

theorem shape_ext {fs' : MemFs} (hn : fs'.nodes = fs.nodes) (hx : fs'.next = fs.next)
    (hc : ∀ i, (fs'.heap i).core = (fs.heap i).core) : fs'.shape = fs.shape := by
  simp only [shape, hn, hx, hc]

theorem coreAt_of_shape {fs' : MemFs} (h : fs'.shape = fs.shape) (p : String) :
    fs'.coreAt p = fs.coreAt p := by
  have hn : fs'.nodes = fs.nodes := congrArg Shape.nodes h
  have hc : ∀ i, (fs'.heap i).core = (fs.heap i).core := congrFun (congrArg Shape.core h)
  simp only [coreAt, hn, hc]

theorem coreAt_eq_some {p : String} {c : NodeCore} :
    fs.coreAt p = some c ↔ ∃ i, fs.nodes[p]? = some i ∧ (fs.heap i).core = c := by
  simp [coreAt]

theorem coreAt_isSome {p : String} : (fs.coreAt p).isSome = (fs.nodes[p]?).isSome := by
  simp [coreAt]

theorem isDirNode_iff {p : String} :
    fs.isDirNode p = true ↔ ∃ i, fs.nodes[p]? = some i ∧ (fs.heap i).metadata.isDir = true := by
  unfold isDirNode coreAt
  cases h : fs.nodes[p]? with
  | none => simp
  | some i => simp [NodeInner.isDir_core]

@[simp] theorem updateNode_nodes (id : NodeId) (f : NodeInner → NodeInner) :
    (fs.updateNode id f).nodes = fs.nodes := rfl

@[simp] theorem updateNode_next (id : NodeId) (f : NodeInner → NodeInner) :
    (fs.updateNode id f).next = fs.next := rfl

@[simp] theorem updateNode_heap (id : NodeId) (f : NodeInner → NodeInner) :
    (fs.updateNode id f).heap = Function.update fs.heap id (f (fs.heap id)) := rfl

@[simp] theorem setData_nodes (id : NodeId) (data : Bytes) : (fs.setData id data).nodes = fs.nodes := rfl

@[simp] theorem setData_next (id : NodeId) (data : Bytes) : (fs.setData id data).next = fs.next := rfl

/-- An update that keeps the core of the node keeps the shape of the state. -/
theorem shape_updateNode {id : NodeId} {f : NodeInner → NodeInner} (h : ∀ n, (f n).core = n.core) :
    (fs.updateNode id f).shape = fs.shape := by
  refine shape_ext rfl rfl fun i => ?_
  rw [updateNode_heap]
  by_cases hi : i = id
  · subst hi
    rw [Function.update_self, h]
  · rw [Function.update_of_ne hi]

theorem shape_recomputeDirSize (dir : String) : (fs.recomputeDirSize dir).shape = fs.shape := by
  unfold recomputeDirSize
  dsimp only
  split
  · exact shape_updateNode fun n => n.core_setSize _
  · rfl

theorem foldl_shape {β : Type} {f : MemFs → β → MemFs} (h : ∀ fs b, (f fs b).shape = fs.shape)
    (l : List β) : (l.foldl f fs).shape = fs.shape := by
  induction l generalizing fs with
  | nil => rfl
  | cons b l ih => rw [List.foldl_cons, ih, h]

@[simp] theorem shape_recomputeDirSizes : fs.recomputeDirSizes.shape = fs.shape :=
  foldl_shape (fun _ _ => shape_recomputeDirSize _) _

@[simp] theorem recomputeDirSizes_nodes : fs.recomputeDirSizes.nodes = fs.nodes :=
  congrArg Shape.nodes shape_recomputeDirSizes

@[simp] theorem recomputeDirSizes_next : fs.recomputeDirSizes.next = fs.next :=
  congrArg Shape.next shape_recomputeDirSizes

theorem coreAt_recomputeDirSizes (p : String) : fs.recomputeDirSizes.coreAt p = fs.coreAt p :=
  coreAt_of_shape shape_recomputeDirSizes p

/-! ## Reading keeps the shape -/

open Prog

theorem preserves_stat {β : Type} (obs : MemFs → β) (ctx : FsContext) (name : String) :
    Preserves obs (stat ctx name) := preserves_reads _

theorem preserves_existsWith {β : Type} (obs : MemFs → β) (name : String) :
    Preserves obs (FileSystem.existsWith stat name) := by
  refine preserves_bind (preserves_attempt (preserves_stat _ _ _)) fun r => ?_
  cases r with
  | ok _ => exact preserves_pure _
  | error _ => exact preserves_ite (preserves_pure _) (preserves_throw _)

theorem preserves_isDirWith {β : Type} (obs : MemFs → β) (name : String) :
    Preserves obs (FileSystem.isDirWith stat name) :=
  preserves_bind (preserves_stat _ _ _) fun _ => preserves_pure _

theorem preserves_parentExists {β : Type} (obs : MemFs → β) (name : String) :
    Preserves obs (parentExists name) :=
  preserves_ite (preserves_pure _) (preserves_existsWith _ _)

theorem preserves_parentIsDir {β : Type} (obs : MemFs → β) (name : String) :
    Preserves obs (parentIsDir name) := by
  refine preserves_ite (preserves_pure _) ?_
  refine preserves_bind (preserves_attempt (preserves_isDirWith _ _)) fun r => ?_
  cases r <;> exact preserves_pure _

theorem preserves_openNode {β : Type} (obs : MemFs → β) (id : NodeId) : Preserves obs (openNode id) :=
  preserves_bind preserves_get fun _ => preserves_pure _

@[simp] theorem openNode_state (id : NodeId) (fs : MemFs) : (openNode id fs).2 = fs := rfl

theorem preserves_openDir {β : Type} (obs : MemFs → β) (name : String) : Preserves obs (openDir name) :=
  preserves_bind preserves_get fun _ => preserves_ite (preserves_throw _) (preserves_pure _)

/-- Opening may rename the node it opens, and nothing else. -/
theorem preserves_openAt (depth : Nat) (ctx : FsContext) (name : String) :
    Preserves shape (openAt depth ctx name) := by
  induction depth generalizing name with
  | zero => exact preserves_abort
  | succ depth ih =>
    refine preserves_ite (preserves_throw _) (preserves_bind preserves_get fun fs => ?_)
    dsimp only
    split
    · refine preserves_ite (ih _) (preserves_ite ?_ (preserves_openDir _ _))
      exact preserves_bind (preserves_modify fun _ => shape_updateNode fun n => n.core_setName _)
        fun _ => preserves_openNode _ _
    · exact preserves_openDir _ _

theorem preserves_open (ctx : FsContext) (name : String) : Preserves shape (open_ ctx name) :=
  preserves_bind preserves_get fun _ => preserves_openAt _ _ _

end MemFs

/-! A call on a handle can be followed through `withFile`. -/

theorem preserves_withFile {σ η α β : Type} {obs : σ → β} {p : Prog (η × σ) Error α}
    (h : Prog.Preserves (fun s : η × σ => obs s.2) p) (f : η) : Prog.Preserves obs (withFile f p) := by
  intro s
  have hs := h (f, s)
  unfold withFile
  rcases hp : p (f, s) with ⟨a | e | _, f', s'⟩ <;> simpa [hp] using hs

theorem MemFile.preserves_dispatch {α β : Type} {obs : MemFs → β} {pn : Prog (NodeFile × MemFs) Error α}
    {pd : Prog (DirFile × MemFs) Error α} (hn : Prog.Preserves (fun s => obs s.2) pn)
    (hd : Prog.Preserves (fun s => obs s.2) pd) :
    Prog.Preserves (fun s : MemFile × MemFs => obs s.2) (MemFile.dispatch pn pd) := by
  rintro ⟨f | f, fs⟩
  · exact hn (f, fs)
  · exact hd (f, fs)

theorem MemFile.preserves_readDir {β : Type} (obs : MemFs → β) (count : Int) :
    Prog.Preserves (fun s : MemFile × MemFs => obs s.2) (MemFile.handle.readDir count) := by
  refine MemFile.preserves_dispatch (Prog.preserves_bind (Prog.preserves_reads _) fun _ => ?_) ?_
  · exact Prog.preserves_throw _
  · rintro ⟨f, fs⟩
    unfold DirFile.readDir
    dsimp only
    split
    · rfl
    · split <;> rfl

namespace MemFs
open Prog

theorem preserves_readDir (ctx : FsContext) (name : String) : Preserves shape (readDir ctx name) := by
  refine preserves_bind (preserves_open _ _) fun f => ?_
  refine preserves_bind (preserves_withFile (MemFile.preserves_readDir _ _) f) fun r => ?_
  exact preserves_bind (preserves_ofExcept _) fun _ => preserves_pure _

theorem preserves_isNonEmptyDir (name : String) : Preserves shape (isNonEmptyDir name) := by
  refine preserves_bind (preserves_isDirWith _ _) fun b => preserves_ite ?_ (preserves_pure _)
  refine preserves_bind ?_ fun _ => preserves_pure _
  exact preserves_bind (preserves_readDir _ _) fun _ => preserves_pure _

end MemFs
end Star9
