import Star9.Fs.MemTree

/-!
# What the operations on paths do

For every operation the condition under which its checks let it through, with
the state it then leaves, and that a refused call leaves the state alone.
-/
namespace Star9
open Base Prog

namespace MemFs
variable {fs : MemFs}

theorem parentExists_state (name : String) : (parentExists name fs).2 = fs :=
  preserves_parentExists id name fs

theorem parentIsDir_state (name : String) : (parentIsDir name fs).2 = fs :=
  preserves_parentIsDir id name fs

/-- What `stat` says of a mode is read off the shape. -/
theorem statAt_of_shape {fs' : MemFs} (h : fs'.shape = fs.shape) (depth : Nat) (ctx : FsContext) (name : String) :
    (fs'.statAt depth ctx name).map Metadata.mode = (fs.statAt depth ctx name).map Metadata.mode := by
  have hn : fs'.nodes = fs.nodes := congrArg Shape.nodes h
  have hc : ∀ i, (fs'.heap i).core = (fs.heap i).core := congrFun (congrArg Shape.core h)
  induction depth generalizing name with
  | zero => rfl
  | succ depth ih =>
    unfold statAt
    split
    · rfl
    · dsimp only
      rw [hn]
      cases hi : fs.nodes[cleanPath name]? with
      | none => rfl
      | some i =>
        have hmode : (fs'.heap i).metadata.mode = (fs.heap i).metadata.mode := congrArg NodeCore.mode (hc i)
        have hdata : (fs'.heap i).data = (fs.heap i).data := congrArg NodeCore.data (hc i)
        dsimp only
        rw [hmode, hdata]
        split
        · exact ih _
        · exact congrArg Outcome.ok hmode

theorem parentExists_of_shape {fs' : MemFs} (h : fs'.shape = fs.shape) (name : String) :
    (parentExists name fs').1 = (parentExists name fs).1 := by
  have hsize : fs'.nodes.size = fs.nodes.size := by rw [show fs'.nodes = fs.nodes from congrArg Shape.nodes h]
  have hstat := statAt_of_shape h (fs.nodes.size + 1) (FsContext.new.withOrigin (parentPath name) "stat")
    (parentPath name)
  unfold parentExists
  split
  · rfl
  · unfold FileSystem.existsWith
    rw [bind_apply, bind_apply, attempt, attempt, stat, reads_apply, reads_apply, hsize]
    generalize fs'.statAt _ _ _ = r' at hstat ⊢
    generalize fs.statAt _ _ _ = r at hstat ⊢
    cases r' with
    | ok m' =>
      cases r with
      | ok m => rfl
      | err e => cases hstat
      | abort => cases hstat
    | err e' =>
      cases r with
      | ok m => cases hstat
      | err e =>
        cases hstat
        dsimp only
        split <;> rfl
      | abort => cases hstat
    | abort =>
      cases r with
      | ok m => cases hstat
      | err e => cases hstat
      | abort => rfl

/-- Whatever answers a `stat` is a key. -/
theorem mem_of_stat_ok {ctx : FsContext} {p : String} {m : Metadata} (hp : validPath p = true)
    (h : (stat ctx p fs).1 = .ok m) : p ∈ fs.nodes := by
  rw [stat, reads_apply, statAt, hp, cleanPath_of_valid hp] at h
  cases hi : fs.nodes[p]? with
  | none => simp [hi] at h
  | some i => exact mem_nodes_iff.mpr ⟨i, hi⟩

theorem mem_of_parentExists {p : String} (h : (parentExists p fs).1 = .ok true) :
    parentPath p = "." ∨ parentPath p ∈ fs.nodes := by
  by_cases hdot : parentPath p = "."
  · exact Or.inl hdot
  · right
    unfold parentExists FileSystem.existsWith at h
    rw [if_neg hdot, bind_apply] at h
    rcases hs : stat (FsContext.new.withOrigin (parentPath p) "stat") (parentPath p) fs with ⟨m | e | _, fs'⟩
    · exact mem_of_stat_ok (parentPath_valid p) (congrArg Prod.fst hs)
    · rw [attempt_err hs] at h
      dsimp only at h
      split at h <;> cases h
    · rw [attempt_abort hs] at h
      cases h

theorem mem_of_parentIsDir {p : String} (h : (parentIsDir p fs).1 = .ok true) :
    parentPath p = "." ∨ parentPath p ∈ fs.nodes := by
  by_cases hdot : parentPath p = "."
  · exact Or.inl hdot
  · right
    unfold parentIsDir at h
    rw [if_neg hdot, bind_apply] at h
    rcases hs : stat (FsContext.new.withOrigin (parentPath p) "stat") (parentPath p) fs with ⟨m | e | _, fs'⟩
    · exact mem_of_stat_ok (parentPath_valid p) (congrArg Prod.fst hs)
    · have hdir : FileSystem.isDirWith stat (parentPath p) fs = _ := bind_err hs
      rw [attempt_err hdir] at h
      cases h
    · have hdir : FileSystem.isDirWith stat (parentPath p) fs = _ := bind_abort hs
      rw [attempt_abort hdir] at h
      cases h

theorem create_of_parent {name : String} (h : (parentExists (cleanPath name) fs).1 = .ok true) :
    create name fs = openNode fs.next (fs.insertNew (cleanPath name)
      (NodeInner.file (baseName (cleanPath name)) [] (FileMode.fromPerm 0o644))).recomputeDirSizes := by
  simp only [create, cleanPath_valid, Bool.not_true, Bool.false_eq_true, if_false]
  rw [bind_of_state (parentExists_state _), h]
  rfl

theorem create_of_no_parent {name : String} (h : (parentExists (cleanPath name) fs).1 ≠ .ok true) :
    (create name fs).1.isOk = false ∧ (create name fs).2 = fs := by
  simp only [create, cleanPath_valid, Bool.not_true, Bool.false_eq_true, if_false]
  rw [bind_of_state (parentExists_state _)]
  rcases hr : (parentExists (cleanPath name) fs).1 with b | e | _
  · cases b with
    | true => exact absurd hr h
    | false => exact ⟨rfl, rfl⟩
  · exact ⟨rfl, rfl⟩
  · exact ⟨rfl, rfl⟩

theorem mem_create_of_mem {name q : String} (hq : q ∈ fs.nodes) : q ∈ (create name fs).2.nodes := by
  by_cases hpar : (parentExists (cleanPath name) fs).1 = .ok true
  · rw [create_of_parent hpar, openNode_state, recomputeDirSizes_nodes]
    exact mem_insertNew.mpr (Or.inr hq)
  · rw [(create_of_no_parent hpar).2]
    exact hq

theorem symlink_of_parent {old new : String} (h : (parentExists (cleanPath new) fs).1 = .ok true) :
    symlink old new fs = (.ok (), (fs.insertNew (cleanPath new)
      (NodeInner.symlink (baseName (cleanPath new)) old)).recomputeDirSizes) := by
  simp only [symlink, cleanPath_valid, Bool.not_true, Bool.false_eq_true, if_false]
  rw [bind_of_state (parentExists_state _), h]
  rfl

theorem symlink_of_no_parent {old new : String} (h : (parentExists (cleanPath new) fs).1 ≠ .ok true) :
    (symlink old new fs).1.isOk = false ∧ (symlink old new fs).2 = fs := by
  simp only [symlink, cleanPath_valid, Bool.not_true, Bool.false_eq_true, if_false]
  rw [bind_of_state (parentExists_state _)]
  rcases hr : (parentExists (cleanPath new) fs).1 with b | e | _
  · cases b with
    | true => exact absurd hr h
    | false => exact ⟨rfl, rfl⟩
  · exact ⟨rfl, rfl⟩
  · exact ⟨rfl, rfl⟩

theorem mkdir_of_exists {name : String} {perm : FileMode} {i : NodeId}
    (hi : fs.nodes[cleanPath name]? = some i) :
    mkdir name perm fs = (.err (.path "mkdir" (cleanPath name) .alreadyExists), fs) := by
  simp only [mkdir, cleanPath_valid, Bool.not_true, Bool.false_eq_true, if_false, get_bind, hi,
    Option.isSome_some, if_true]
  rfl

theorem mkdir_of_parent {name : String} {perm : FileMode} (hnone : fs.nodes[cleanPath name]? = none)
    (h : (parentExists (cleanPath name) fs).1 = .ok true) :
    mkdir name perm fs = (.ok (), (fs.insertNew (cleanPath name)
      (NodeInner.dir (baseName (cleanPath name)) (FileMode.dir ||| perm))).recomputeDirSizes) := by
  simp only [mkdir, cleanPath_valid, Bool.not_true, Bool.false_eq_true, if_false, get_bind, hnone,
    Option.isSome_none]
  rw [bind_of_state (parentExists_state _), h]
  rfl

theorem mkdir_of_no_parent {name : String} {perm : FileMode} (hnone : fs.nodes[cleanPath name]? = none)
    (h : (parentExists (cleanPath name) fs).1 ≠ .ok true) :
    (mkdir name perm fs).1.isOk = false ∧ (mkdir name perm fs).2 = fs := by
  simp only [mkdir, cleanPath_valid, Bool.not_true, Bool.false_eq_true, if_false, get_bind, hnone,
    Option.isSome_none]
  rw [bind_of_state (parentExists_state _)]
  rcases hr : (parentExists (cleanPath name) fs).1 with b | e | _
  · cases b with
    | true => exact absurd hr h
    | false => exact ⟨rfl, rfl⟩
  · exact ⟨rfl, rfl⟩
  · exact ⟨rfl, rfl⟩

/-- A removal either keeps the shape of the state, or takes away one key that the
emptiness check has let through. -/
theorem remove_cases (fs : MemFs) (name : String) :
    (remove name fs).2.shape = fs.shape ∨
    (cleanPath name ≠ "." ∧ cleanPath name ∈ fs.nodes ∧
      (isNonEmptyDir (cleanPath name) fs).1 = .ok false ∧
      (remove name fs).2.shape = (fs.eraseNode (cleanPath name)).shape) := by
  simp only [remove, branch_apply, get_bind]
  split
  · exact Or.inl rfl
  · rename_i hdot
    split
    · exact Or.inl rfl
    · rename_i hnode
      have hmem : cleanPath name ∈ fs.nodes := by
        rw [← Std.ExtTreeMap.isSome_getElem?_iff_mem]
        simpa using hnode
      have hshape := preserves_isNonEmptyDir (cleanPath name) fs
      rw [bind_apply]
      rcases hr : isNonEmptyDir (cleanPath name) fs with ⟨b | e | _, fs'⟩ <;> rw [hr] at hshape
      · cases b with
        | true => exact Or.inl hshape
        | false =>
          refine Or.inr ⟨hdot, hmem, rfl, ?_⟩
          have hn : fs'.nodes = fs.nodes := congrArg Shape.nodes hshape
          have hc := congrArg Shape.core hshape
          have hx : fs'.next = fs.next := congrArg Shape.next hshape
          simp only [Bool.false_eq_true, if_false, modify_bind, modify_apply, shape_recomputeDirSizes]
          refine shape_ext ?_ hx (congrFun hc)
          simp only [eraseNode, hn]
      · exact Or.inl hshape
      · exact Or.inl hshape

theorem mem_of_remove_ok {name : String} (h : (remove name fs).1.isOk = true) : cleanPath name ∈ fs.nodes := by
  simp only [remove, branch_apply, get_bind] at h
  split at h
  · cases h
  · split at h
    · cases h
    · rename_i hnode
      rw [← Std.ExtTreeMap.isSome_getElem?_iff_mem]
      simpa using hnode

/-- The checks of `rename` let the move through. -/
def renameProceeds (fs : MemFs) (old new : String) : Bool :=
  old != new && (parentIsDir new fs).1 == .ok true && fs.nodes[old]?.isSome && !fs.renameOccupied new

theorem rename_of_proceeds {old new : String} {id : NodeId}
    (h : fs.renameProceeds (cleanPath old) (cleanPath new) = true)
    (hid : fs.nodes[cleanPath old]? = some id) :
    rename old new fs = (.ok (),
      (if (fs.heap id).metadata.isDir then fs.moveTree (cleanPath old) (cleanPath new)
       else fs.moveNode (cleanPath old) (cleanPath new) id).recomputeDirSizes) := by
  simp only [renameProceeds, Bool.and_eq_true, bne_iff_ne, beq_iff_eq, Bool.not_eq_true'] at h
  obtain ⟨⟨⟨hne, hpar⟩, -⟩, hocc⟩ := h
  simp only [rename, cleanPath_valid, Bool.not_true, Bool.or_self, Bool.false_eq_true, if_false, hne]
  rw [bind_of_state (parentIsDir_state _), hpar]
  simp only [Bool.not_true, Bool.false_eq_true, if_false, get_bind, hid, ofOption_some]
  rw [bind_ok (pure_apply id fs), hocc, if_neg Bool.false_ne_true]
  by_cases hd : (fs.heap id).metadata.isDir = true <;> simp only [hd] <;> rfl

theorem rename_of_not_proceeds {old new : String}
    (h : fs.renameProceeds (cleanPath old) (cleanPath new) = false) : (rename old new fs).2 = fs := by
  simp only [rename, cleanPath_valid, Bool.not_true, Bool.or_self, Bool.false_eq_true, if_false]
  split
  · rfl
  · rename_i hne
    rw [bind_of_state (parentIsDir_state _)]
    rcases hr : (parentIsDir (cleanPath new) fs).1 with b | e | _
    · cases b with
      | false => rfl
      | true =>
        simp only [Bool.not_true, Bool.false_eq_true, if_false, get_bind]
        cases hid : fs.nodes[cleanPath old]? with
        | none => rfl
        | some id =>
          cases hocc : fs.renameOccupied (cleanPath new) with
          | true =>
            rw [ofOption_some, bind_ok (pure_apply id fs)]
            rfl
          | false => simp [renameProceeds, hne, hr, hid, hocc] at h
    · rfl
    · rfl

theorem proceeds_of_rename_ok {old new : String} (hne : cleanPath old ≠ cleanPath new)
    (h : (rename old new fs).1.isOk = true) : fs.renameProceeds (cleanPath old) (cleanPath new) = true := by
  simp only [rename, cleanPath_valid, Bool.not_true, Bool.or_self, Bool.false_eq_true, if_false, hne] at h
  rw [bind_of_state (parentIsDir_state _)] at h
  rcases hr : (parentIsDir (cleanPath new) fs).1 with b | e | _ <;> rw [hr] at h
  · cases b with
    | false => cases h
    | true =>
      simp only [Bool.not_true, Bool.false_eq_true, if_false, get_bind] at h
      cases hid : fs.nodes[cleanPath old]? with
      | none =>
        rw [hid] at h
        cases h
      | some id =>
        rw [hid, ofOption_some, bind_ok (pure_apply id fs)] at h
        cases hocc : fs.renameOccupied (cleanPath new) with
        | true =>
          rw [hocc] at h
          cases h
        | false => simp [renameProceeds, hne, hr, hid, hocc]
  · cases h
  · cases h

/-- The checks of `link` let the new name in. -/
def linkProceeds (fs : MemFs) (old new : String) : Bool :=
  fs.nodes[new]?.isNone && (parentIsDir new fs).1 == .ok true && fs.nodes[old]?.isSome &&
    !fs.isDirNode old

theorem link_of_proceeds {old new : String} {id : NodeId}
    (h : fs.linkProceeds (cleanPath old) (cleanPath new) = true)
    (hid : fs.nodes[cleanPath old]? = some id) :
    link old new fs = (.ok (), (fs.insertNode (cleanPath new) id).recomputeDirSizes) := by
  simp only [linkProceeds, Bool.and_eq_true, beq_iff_eq, Bool.not_eq_true', Option.isNone_iff_eq_none] at h
  obtain ⟨⟨⟨hnone, hpar⟩, -⟩, hfile⟩ := h
  have hd : (fs.heap id).metadata.isDir = false := by
    simpa [isDirNode, coreAt, hid, NodeInner.isDir_core] using hfile
  simp only [link, cleanPath_valid, Bool.not_true, Bool.or_self, Bool.false_eq_true, if_false, get_bind,
    hnone, Option.isSome_none]
  rw [bind_of_state (parentIsDir_state _), hpar]
  simp only [Bool.not_true, Bool.false_eq_true, if_false, get_bind, hid, ofOption_some]
  rw [bind_ok (pure_apply id fs), hd]
  rfl

theorem link_of_not_proceeds {old new : String}
    (h : fs.linkProceeds (cleanPath old) (cleanPath new) = false) :
    (link old new fs).1.isOk = false ∧ (link old new fs).2 = fs := by
  simp only [link, cleanPath_valid, Bool.not_true, Bool.or_self, Bool.false_eq_true, if_false, get_bind]
  cases hnew : fs.nodes[cleanPath new]? with
  | some _ => exact ⟨rfl, rfl⟩
  | none =>
    simp only [Option.isSome_none, Bool.false_eq_true, if_false]
    rw [bind_of_state (parentIsDir_state _)]
    rcases hr : (parentIsDir (cleanPath new) fs).1 with b | e | _
    · cases b with
      | false => exact ⟨rfl, rfl⟩
      | true =>
        simp only [Bool.not_true, Bool.false_eq_true, if_false, get_bind]
        cases hid : fs.nodes[cleanPath old]? with
        | none => exact ⟨rfl, rfl⟩
        | some id =>
          rw [ofOption_some, bind_ok (pure_apply id fs)]
          cases hd : (fs.heap id).metadata.isDir with
          | true => exact ⟨rfl, rfl⟩
          | false =>
            simp [linkProceeds, hnew, hr, hid, isDirNode, coreAt, NodeInner.isDir_core, hd] at h
    · exact ⟨rfl, rfl⟩
    · exact ⟨rfl, rfl⟩

/-! ## Operations that keep every kind -/

/-- Which paths there are and which nodes are directories. -/
def kinds (fs : MemFs) : Std.ExtTreeMap String NodeId × (NodeId → Bool) × NodeId :=
  (fs.nodes, fun i => (fs.heap i).metadata.isDir, fs.next)

theorem preserves_kinds_of_shape {α : Type} {p : Prog MemFs Error α} (h : Preserves shape p) :
    Preserves kinds p :=
  h.map fun sh => (sh.nodes, fun i => (sh.core i).mode.isDir, sh.next)

theorem kinds_updateNode {id : NodeId} {f : NodeInner → NodeInner}
    (h : (f (fs.heap id)).metadata.isDir = (fs.heap id).metadata.isDir) :
    (fs.updateNode id f).kinds = fs.kinds := by
  simp only [kinds, updateNode_nodes, updateNode_next, updateNode_heap, Prod.mk.injEq, true_and,
    and_true]
  funext i
  by_cases hi : i = id
  · subst hi
    rw [Function.update_self, h]
  · rw [Function.update_of_ne hi]

theorem kinds_setData (id : NodeId) (data : Bytes) : (fs.setData id data).kinds = fs.kinds :=
  (kinds_updateNode rfl : (fs.updateNode id (NodeInner.setData data (fs.clock fs.ticks))).kinds = fs.kinds)

theorem preserves_nodeOr {β : Type} (obs : MemFs → β) (op name : String) : Preserves obs (nodeOr op name) :=
  preserves_bind preserves_get fun _ => preserves_ofOption _ _

theorem chmod_kinds (name : String) (mode : FileMode) : Preserves kinds (chmod name mode) := by
  refine preserves_bind (preserves_nodeOr _ _ _) fun id => ?_
  intro fs
  rw [get_bind]
  exact kinds_updateNode (by simp [NodeInner.setMode, Metadata.isDir])

theorem truncate_kinds (name : String) (size : UInt64) : Preserves kinds (truncate name size) := by
  refine preserves_bind (preserves_nodeOr _ _ _) fun id => preserves_bind preserves_get fun fs => ?_
  exact preserves_ite preserves_abort (preserves_modify fun fs => kinds_setData id _)

theorem TreeWellFormed.of_kinds {fs' : MemFs} (ht : fs.TreeWellFormed) (h : fs'.kinds = fs.kinds) :
    fs'.TreeWellFormed := by
  simp only [kinds, Prod.mk.injEq] at h
  obtain ⟨hn, hk, -⟩ := h
  have hd : ∀ p, fs'.isDirNode p = fs.isDirNode p := by
    intro p
    rw [Bool.eq_iff_iff, isDirNode_iff, isDirNode_iff, hn]
    simp only [fun i => congrFun hk i]
  refine ⟨by rw [hd]; exact ht.1, fun p hp hdot => ?_⟩
  rw [hn] at hp
  rw [hd]
  exact ht.2 p hp hdot

theorem Allocated.of_kinds {fs' : MemFs} (ha : fs.Allocated) (h : fs'.kinds = fs.kinds) : fs'.Allocated := by
  simp only [kinds, Prod.mk.injEq] at h
  obtain ⟨hn, -, hx⟩ := h
  refine ha.of_nodes hx fun q i hq => ?_
  rw [hn] at hq
  exact ⟨ha.valid hq, q, hq⟩

end MemFs
end Star9
