import Star9.Fs.MemOps

/-!
# What the operations leave alone

Every operation on paths changes the nodes at a few paths only. A frame says
which: outside of the touched paths every path names the same node with the same
contents as before. Frames compose, so the frame of a helper that calls several
operations follows from theirs.
-/
namespace Star9
open Base Prog

namespace MemFs
variable {fs fs' : MemFs} {α : Type}

/-- Every key names an allocated node. -/
def IdsBelow (fs : MemFs) : Prop := ∀ (p : String) (i : NodeId), fs.nodes[p]? = some i → i < fs.next

/-- Outside of the touched paths nothing changed. -/
def Frame (touched : String → Prop) (fs fs' : MemFs) : Prop :=
  fs.IdsBelow → fs'.IdsBelow ∧ ∀ q, ¬ touched q → fs'.coreAt q = fs.coreAt q

instance (touched : String → Prop) : IsPreorder MemFs (Frame touched) where
  refl fs h := ⟨h, fun _ _ => rfl⟩
  trans a b c hab hbc ha := by
    obtain ⟨hb, hqb⟩ := hab ha
    obtain ⟨hc, hqc⟩ := hbc hb
    exact ⟨hc, fun q hq => (hqc q hq).trans (hqb q hq)⟩

variable {touched : String → Prop}

theorem frame_of_shape (h : fs'.shape = fs.shape) : Frame touched fs fs' := by
  intro hfs
  have hn : fs'.nodes = fs.nodes := congrArg Shape.nodes h
  have hx : fs'.next = fs.next := congrArg Shape.next h
  refine ⟨fun p i hp => ?_, fun q _ => coreAt_of_shape h q⟩
  rw [hn] at hp
  rw [hx]
  exact hfs p i hp

theorem coreAt_of_heap {q : String} (hn : fs'.nodes[q]? = fs.nodes[q]?) (hh : fs'.heap = fs.heap) :
    fs'.coreAt q = fs.coreAt q := by
  rw [coreAt, coreAt, hn, hh]

theorem coreAt_insertNew (ha : fs.IdsBelow) (p : String) (n : NodeInner) (q : String) :
    (fs.insertNew p n).coreAt q = if q = p then some n.core else fs.coreAt q := by
  unfold coreAt
  rw [insertNew_get]
  by_cases hpq : p = q
  · subst hpq
    simp [insertNew]
  · rw [if_neg hpq, if_neg (Ne.symm hpq)]
    cases hq : fs.nodes[q]? with
    | none => rfl
    | some i => simp [insertNew, Function.update_of_ne (ha q i hq).ne]

theorem Allocated.idsBelow (ha : fs.Allocated) : fs.IdsBelow := fun _ _ => ha.lt_next

theorem frame_insertNew {p : String} (hp : touched p) (n : NodeInner) : Frame touched fs (fs.insertNew p n) := by
  intro hfs
  refine ⟨fun q i hq => ?_, fun q hq => ?_⟩
  · rw [insertNew_get] at hq
    have hnext : (fs.insertNew p n).next = fs.next + 1 := rfl
    rw [hnext]
    split at hq
    · cases hq
      exact Nat.lt_succ_self _
    · exact Nat.lt_succ_of_lt (hfs q i hq)
  · have hne : q ≠ p := fun h => hq (h ▸ hp)
    rw [coreAt_insertNew hfs, if_neg hne]

theorem frame_eraseNode {p : String} (hp : touched p) : Frame touched fs (fs.eraseNode p) := by
  intro hfs
  refine ⟨fun q i hq => ?_, fun q hq => ?_⟩
  · rw [eraseNode_get] at hq
    split at hq
    · cases hq
    · exact hfs q i hq
  · have hne : p ≠ q := fun h => hq (h ▸ hp)
    exact coreAt_of_heap (by rw [eraseNode_get, if_neg hne]) rfl

theorem frame_insertNode {p r : String} {id : NodeId} (hp : touched p) (hid : fs.nodes[r]? = some id) :
    Frame touched fs (fs.insertNode p id) := by
  intro hfs
  refine ⟨fun q i hq => ?_, fun q hq => ?_⟩
  · rw [insertNode_get] at hq
    split at hq
    · cases hq
      exact hfs r _ hid
    · exact hfs q i hq
  · have hne : p ≠ q := fun h => hq (h ▸ hp)
    exact coreAt_of_heap (by rw [insertNode_get, if_neg hne]) rfl

theorem frame_recomputeDirSizes : Frame touched fs fs.recomputeDirSizes := frame_of_shape shape_recomputeDirSizes

/-! ## Operations on one path -/

theorem evolves_create {name : String} (hp : touched (cleanPath name)) :
    Evolves (Frame touched) (create name) := by
  intro fs
  by_cases hpar : (parentExists (cleanPath name) fs).1 = .ok true
  · rw [create_of_parent hpar, openNode_state]
    exact trans_of (Frame touched) (frame_insertNew hp _) frame_recomputeDirSizes
  · rw [(create_of_no_parent hpar).2]
    exact refl_of (Frame touched) fs

theorem evolves_symlink {old new : String} (hp : touched (cleanPath new)) :
    Evolves (Frame touched) (symlink old new) := by
  intro fs
  by_cases hpar : (parentExists (cleanPath new) fs).1 = .ok true
  · rw [symlink_of_parent hpar]
    exact trans_of (Frame touched) (frame_insertNew hp _) frame_recomputeDirSizes
  · rw [(symlink_of_no_parent hpar).2]
    exact refl_of (Frame touched) fs

theorem evolves_mkdir {name : String} (perm : FileMode) (hp : touched (cleanPath name)) :
    Evolves (Frame touched) (mkdir name perm) := by
  intro fs
  cases hn : fs.nodes[cleanPath name]? with
  | some i =>
    rw [mkdir_of_exists hn]
    exact refl_of (Frame touched) fs
  | none =>
    by_cases hpar : (parentExists (cleanPath name) fs).1 = .ok true
    · rw [mkdir_of_parent hn hpar]
      exact trans_of (Frame touched) (frame_insertNew hp _) frame_recomputeDirSizes
    · rw [(mkdir_of_no_parent hn hpar).2]
      exact refl_of (Frame touched) fs

theorem evolves_remove {name : String} (hp : touched (cleanPath name)) :
    Evolves (Frame touched) (remove name) := by
  intro fs
  rcases remove_cases fs name with hs | ⟨-, -, -, hs⟩
  · exact frame_of_shape hs
  · exact trans_of (Frame touched) (frame_eraseNode hp) (frame_of_shape hs)

theorem evolves_link {old new : String} (hp : touched (cleanPath new)) :
    Evolves (Frame touched) (link old new) := by
  intro fs
  cases h : fs.linkProceeds (cleanPath old) (cleanPath new) with
  | false =>
    rw [(link_of_not_proceeds h).2]
    exact refl_of (Frame touched) fs
  | true =>
    have hchecks := h
    simp only [linkProceeds, Bool.and_eq_true] at hchecks
    obtain ⟨id, hid⟩ := Option.isSome_iff_exists.mp hchecks.1.2
    rw [link_of_proceeds h hid]
    exact trans_of (Frame touched) (frame_insertNode hp hid) frame_recomputeDirSizes

/-! ## Renaming -/

/-- A key that moves with a directory is the old path or lies below it, and so is its new name. -/
theorem within_of_mem_toMove {old new : String} (hold : old ≠ ".") (hnew : new ≠ ".")
    {m : String × String × NodeId} (hm : m ∈ fs.toMove old new) :
    within old m.1 = true ∧ within new m.2.1 = true := by
  simp only [toMove, List.mem_map, List.mem_filter, Bool.or_eq_true, beq_iff_eq] at hm
  obtain ⟨⟨k, i⟩, ⟨-, hk⟩, rfl⟩ := hm
  rcases hk with rfl | hk
  · have hself : stripPrefix k k = some "" := stripPrefix_eq_some.mpr (by simp)
    simp [hself]
  · obtain ⟨r, hr⟩ := Option.isSome_iff_exists.mp hk
    have hkr : k = old ++ "/" ++ r := stripPrefix_eq_some.mp hr
    have hstrip : stripPrefix old k = some ("/" ++ r) := stripPrefix_eq_some.mpr (by rw [hkr, String.append_assoc])
    refine ⟨within_iff.mpr ⟨splitSlash r, ?_⟩, within_iff.mpr ⟨splitSlash r, ?_⟩⟩
    · rw [hkr, components_append_slash hold]
    · show components (new ++ (stripPrefix old k).getD "") = _
      rw [hstrip, Option.getD_some, ← String.append_assoc, components_append_slash hnew]

theorem idsBelow_moveTree {old new : String} (h : fs.IdsBelow) : (fs.moveTree old new).IdsBelow := by
  intro q i hq
  rw [(fs.moveTree_frame old new).2]
  rw [moveTree_nodes] at hq
  rcases mem_or_getElem?_of_foldl_insert _ _ hq with hmem | hold
  · simp only [List.mem_map, toMove, List.mem_filter] at hmem
    obtain ⟨_, ⟨⟨k, j⟩, ⟨hk, -⟩, rfl⟩, heq⟩ := hmem
    cases heq
    exact h k j (Std.ExtTreeMap.mem_toList_iff_getElem?_eq_some.mp hk)
  · rw [getElem?_foldl_erase] at hold
    split at hold
    · cases hold
    · exact h q i hold

theorem frame_moveTree {old new : String} (ho : ∀ q, within old q = true → touched q)
    (hn : ∀ q, within new q = true → touched q) : Frame touched fs (fs.moveTree old new) := by
  intro hfs
  refine ⟨idsBelow_moveTree hfs, fun q hq => coreAt_of_heap ?_ (fs.moveTree_frame old new).1⟩
  have hold : old ≠ "." := by
    rintro rfl
    exact hq (ho q (by simp [within]))
  have hnew : new ≠ "." := by
    rintro rfl
    exact hq (hn q (by simp [within]))
  rw [moveTree_nodes, getElem?_foldl_insert_of_not_mem, getElem?_foldl_erase, if_neg]
  · intro hmem
    obtain ⟨m, hm, rfl⟩ := List.mem_map.mp hmem
    exact hq (ho _ (within_of_mem_toMove hold hnew hm).1)
  · intro a ha haq
    obtain ⟨m, hm, rfl⟩ := List.mem_map.mp ha
    exact hq (hn _ (haq ▸ (within_of_mem_toMove hold hnew hm).2))

theorem frame_moveNode {old new : String} {id : NodeId} (hid : fs.nodes[old]? = some id)
    (ho : touched old) (hn : touched new) : Frame touched fs (fs.moveNode old new id) := by
  intro hfs
  refine ⟨fun q i hq => ?_, fun q hq => coreAt_of_heap ?_ rfl⟩
  · rw [moveNode_get] at hq
    split at hq
    · cases hq
      exact hfs old _ hid
    · split at hq
      · cases hq
      · exact hfs q i hq
  · have hqo : q ≠ old := fun h => hq (h ▸ ho)
    have hqn : q ≠ new := fun h => hq (h ▸ hn)
    rw [moveNode_get]
    simp [Ne.symm hqo, Ne.symm hqn]

theorem evolves_rename {old new : String} (ho : ∀ q, within (cleanPath old) q = true → touched q)
    (hn : ∀ q, within (cleanPath new) q = true → touched q) : Evolves (Frame touched) (rename old new) := by
  intro fs
  cases h : fs.renameProceeds (cleanPath old) (cleanPath new) with
  | false =>
    rw [rename_of_not_proceeds h]
    exact refl_of (Frame touched) fs
  | true =>
    have hchecks := h
    simp only [renameProceeds, Bool.and_eq_true] at hchecks
    obtain ⟨id, hid⟩ := Option.isSome_iff_exists.mp hchecks.1.2
    rw [rename_of_proceeds h hid]
    refine trans_of (Frame touched) ?_ frame_recomputeDirSizes
    split
    · exact frame_moveTree ho hn
    · exact frame_moveNode hid (ho _ (within_self _)) (hn _ (within_self _))

/-! ## Operations on the node of a path -/

theorem updateNode_coreAt (id : NodeId) (f : NodeInner → NodeInner) (q : String) :
    (fs.updateNode id f).coreAt q = if fs.nodes[q]? = some id then some (f (fs.heap id)).core else fs.coreAt q := by
  unfold coreAt
  rw [updateNode_nodes]
  cases hq : fs.nodes[q]? with
  | none => simp
  | some i =>
    by_cases hi : i = id
    · subst hi
      simp
    · simp [hi]

/-- A change to one node is seen at the paths that name it. -/
theorem frame_updateNode {id : NodeId} {f : NodeInner → NodeInner}
    (h : ∀ q, fs.nodes[q]? = some id → touched q) : Frame touched fs (fs.updateNode id f) := by
  intro hfs
  refine ⟨hfs, fun q hq => ?_⟩
  rw [updateNode_coreAt, if_neg fun hid => hq (h q hid)]

/-- The paths that name the node of `name`. -/
def Aliases (fs : MemFs) (name q : String) : Prop := ∃ id, fs.nodes[name]? = some id ∧ fs.nodes[q]? = some id

theorem nodeOr_cases (op name : String) (fs : MemFs) :
    (∃ id, fs.nodes[name]? = some id ∧ nodeOr op name fs = (.ok id, fs)) ∨
    (fs.nodes[name]? = none ∧ nodeOr op name fs = (.err (.path op name .notFound), fs)) := by
  unfold nodeOr
  rw [get_bind]
  cases h : fs.nodes[name]? with
  | none => exact Or.inr ⟨rfl, rfl⟩
  | some id => exact Or.inl ⟨id, rfl, rfl⟩

theorem frame_chmod {name : String} (mode : FileMode) (h : ∀ q, fs.Aliases (cleanPath name) q → touched q) :
    Frame touched fs (chmod name mode fs).2 := by
  unfold chmod
  rcases nodeOr_cases "chmod" (cleanPath name) fs with ⟨id, hid, hnode⟩ | ⟨-, hnode⟩
  · rw [bind_ok hnode]
    exact frame_updateNode fun q hq => h q ⟨id, hid, hq⟩
  · rw [bind_err hnode]
    exact refl_of (Frame touched) fs

/-! ## Refused calls -/

/-- A call that does not succeed leaves the shape of the state. -/
def Clean (p : Prog MemFs Error α) : Prop := ∀ fs, (p fs).1.isOk = false → (p fs).2.shape = fs.shape

theorem clean_mkdir (name : String) (perm : FileMode) : Clean (mkdir name perm) := by
  intro fs hfail
  cases hn : fs.nodes[cleanPath name]? with
  | some i => rw [mkdir_of_exists hn]
  | none =>
    by_cases hpar : (parentExists (cleanPath name) fs).1 = .ok true
    · rw [mkdir_of_parent hn hpar] at hfail
      cases hfail
    · rw [(mkdir_of_no_parent hn hpar).2]

theorem clean_symlink (old new : String) : Clean (symlink old new) := by
  intro fs hfail
  by_cases hpar : (parentExists (cleanPath new) fs).1 = .ok true
  · rw [symlink_of_parent hpar] at hfail
    cases hfail
  · rw [(symlink_of_no_parent hpar).2]

theorem clean_link (old new : String) : Clean (link old new) := by
  intro fs hfail
  cases h : fs.linkProceeds (cleanPath old) (cleanPath new) with
  | false => rw [(link_of_not_proceeds h).2]
  | true =>
    have hchecks := h
    simp only [linkProceeds, Bool.and_eq_true] at hchecks
    obtain ⟨id, hid⟩ := Option.isSome_iff_exists.mp hchecks.1.2
    rw [link_of_proceeds h hid] at hfail
    cases hfail

theorem clean_rename (old new : String) : Clean (rename old new) := by
  intro fs hfail
  cases h : fs.renameProceeds (cleanPath old) (cleanPath new) with
  | false => rw [rename_of_not_proceeds h]
  | true =>
    have hchecks := h
    simp only [renameProceeds, Bool.and_eq_true] at hchecks
    obtain ⟨id, hid⟩ := Option.isSome_iff_exists.mp hchecks.1.2
    rw [rename_of_proceeds h hid] at hfail
    cases hfail

theorem clean_remove (name : String) : Clean (remove name) := by
  intro fs
  simp only [remove, branch_apply, get_bind]
  split
  · exact fun _ => rfl
  · split
    · exact fun _ => rfl
    · have hshape := preserves_isNonEmptyDir (cleanPath name) fs
      rw [bind_apply]
      rcases hr : isNonEmptyDir (cleanPath name) fs with ⟨b | e | _, fs'⟩ <;> rw [hr] at hshape
      · cases b with
        | true => exact fun _ => hshape
        | false => exact fun hfail => by cases hfail
      · exact fun _ => hshape
      · exact fun _ => hshape

/-- The operations that look up a node and then change it fail only without a change. -/
theorem clean_nodeOr_bind {op name : String} {f : NodeId → Prog MemFs Error α}
    (hf : ∀ id, Clean (f id)) : Clean (nodeOr op name >>= f) := by
  intro fs hfail
  rcases nodeOr_cases op name fs with ⟨id, hid, hnode⟩ | ⟨-, hnode⟩
  · rw [bind_ok hnode] at hfail ⊢
    exact hf id fs hfail
  · rw [bind_err hnode]

theorem clean_chmod (name : String) (mode : FileMode) : Clean (chmod name mode) :=
  clean_nodeOr_bind fun _ _ hfail => by cases hfail

theorem clean_chown (name : String) (uid gid : UInt32) : Clean (chown name uid gid) :=
  clean_nodeOr_bind fun _ _ hfail => by cases hfail

theorem clean_chtimes (name : String) (mtime : SystemTime) : Clean (chtimes name mtime) :=
  clean_nodeOr_bind fun _ _ hfail => by cases hfail

theorem clean_setXattr (name attr : String) (data : Bytes) : Clean (setXattr name attr data) :=
  clean_nodeOr_bind fun _ _ hfail => by cases hfail

theorem clean_truncate (name : String) (size : UInt64) : Clean (truncate name size) := by
  refine clean_nodeOr_bind fun id fs hfail => ?_
  rw [get_bind, branch_apply] at hfail ⊢
  split at hfail
  · rename_i h
    rw [if_pos h]
    rfl
  · cases hfail

theorem clean_removeXattr (name attr : String) : Clean (removeXattr name attr) := by
  refine clean_nodeOr_bind fun id fs hfail => ?_
  rw [get_bind, branch_apply] at hfail ⊢
  split at hfail
  · cases hfail
  · rename_i h
    rw [if_neg h]
    rfl

end MemFs
end Star9
