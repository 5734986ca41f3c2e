import Star9.Base.Triple
import Star9.Fs.MemList
import Star9.Fs.MemRename

/-!
# Recorded names and sizes

A node records its own name and size, beside the path map that says what they
should be. `open` writes the name, a pass after every change of the map writes the
sizes of directories, and `set_data` writes the size of whatever it is called on.
-/
namespace Star9
open Base Prog

namespace MemFs
variable {fs fs' : MemFs}

/-! ## The number of children -/

def isChildOf (d q : String) : Bool := q != "." && parentPath q == d

def childCount (fs : MemFs) (d : String) : Nat := fs.nodes.keys.countP (isChildOf d)

theorem isChildOf_iff {d q : String} (hq : validPath q = true) :
    isChildOf d q = true ↔ ∃ c, components q = components d ++ [c] := by
  simp only [isChildOf, Bool.and_eq_true, bne_iff_ne, beq_iff_eq]
  constructor
  · intro ⟨hdot, hparent⟩
    exact ⟨baseName q, by rw [← hparent, ← components_parent_base hq hdot]⟩
  · intro ⟨c, hc⟩
    have hdot : q ≠ "." := below_ne_dot (below_iff.mpr ⟨c, [], hc⟩)
    refine ⟨hdot, components_injective ?_⟩
    rw [components_parentPath hq, hc, List.dropLast_concat]

theorem length_foldl_childStep {p : String} {l : List (String × NodeId)}
    (hl : ∀ kv ∈ l, validPath kv.1 = true) (acc : List DirEntry × Std.ExtTreeSet String) :
    (l.foldl (fs.childStep p) acc).1.length = acc.1.length + l.countP fun kv => isChildOf p kv.1 := by
  induction l generalizing acc with
  | nil => rfl
  | cons kv l ih =>
    have hchild : isChildOf p kv.1 = true ↔ _ := isChildOf_iff (hl kv List.mem_cons_self)
    rw [List.foldl_cons, ih (fun kv' h => hl kv' (List.mem_cons_of_mem kv h)), List.countP_cons]
    rcases key_cases p kv.1 with ⟨hrel, hnot⟩ | ⟨c, hc⟩ | ⟨head, c, cs, hc⟩
    · have hno : ¬ isChildOf p kv.1 = true := fun h => by
        obtain ⟨c, hc⟩ := hchild.mp h
        exact hnot c [] hc
      rw [childStep_of_not_below hrel, if_neg hno]
      rfl
    · rw [childStep_of_child hc, if_pos (hchild.mpr ⟨c, hc⟩), List.length_append, List.length_singleton]
      omega
    · have hno : ¬ isChildOf p kv.1 = true := fun h => by
        obtain ⟨c', hc'⟩ := hchild.mp h
        rw [hc] at hc'
        simp at hc'
      rw [childStep_of_deeper hc, if_neg hno]
      rfl

theorem children_length (ha : fs.Allocated) (p : String) :
    (fs.childrenFor p).1.length = fs.childCount p := by
  have hvalid : ∀ kv ∈ fs.nodes.toList, validPath kv.1 = true := fun kv hkv =>
    ha.valid (Std.ExtTreeMap.mem_toList_iff_getElem?_eq_some.mp hkv)
  unfold childrenFor childCount
  rw [← Std.ExtTreeMap.map_fst_toList_eq_keys, List.countP_map]
  exact (length_foldl_childStep hvalid ([], ∅)).trans (Nat.zero_add _)

/-- No name of a tree is needed by longer paths only. -/
theorem not_mem_need (h : fs.TreeInv) (p c : String) : c ∉ (fs.childrenFor p).2 := by
  intro hc
  obtain ⟨hname, hbelow, hnot⟩ := mem_need h.alloc hc
  obtain ⟨q, hq, hdq⟩ := someBelow_iff.mp hbelow
  exact hnot (h.tree.parentClosed.mem_of_below h.alloc hq (childPath_ne_dot p hname) hdq)

theorem need_size (h : fs.TreeInv) (p : String) : (fs.childrenFor p).2.size = 0 := by
  rw [Std.ExtTreeSet.eq_empty_iff_forall_not_mem.mpr (not_mem_need h p)]
  exact Std.ExtTreeSet.size_empty

/-! ## What nodes record -/

/-- All that a node records is right, the sizes of directories apart. -/
structure Recorded (fs : MemFs) : Prop where
  tree : fs.TreeInv
  leaf : ∀ {p : String} {id : NodeId}, fs.nodes[p]? = some id → (fs.heap id).metadata.isDir = false →
    (fs.heap id).metadata.size = (fs.heap id).data.length
  dir : ∀ {p : String} {id : NodeId}, fs.nodes[p]? = some id → (fs.heap id).metadata.isDir = true →
    (fs.heap id).data = [] ∧ (fs.heap id).metadata.mode.isSymlink = false
  unique : ∀ {p q : String} {id : NodeId}, fs.nodes[p]? = some id → fs.nodes[q]? = some id →
    (fs.heap id).metadata.isDir = true → p = q
  name : ∀ {p : String} {id : NodeId}, fs.nodes[p]? = some id → p ≠ "." → (fs.heap id).metadata.name = baseName p

/-- The recorded sizes of directories are right. -/
def Sized (fs : MemFs) : Prop :=
  ∀ (d : String) (id : NodeId), fs.nodes[d]? = some id → (fs.heap id).metadata.isDir = true →
    (fs.heap id).metadata.size = 2 + fs.childCount d

/-- What the recorded metadata should say: sizes fit the data and the children, and a listing shows of each child
what `lstat` of that child returns. A path that leads to a directory through symlinks lists that directory. -/
structure Coherent (fs : MemFs) : Prop where
  leaf : ∀ (p : String) (id : NodeId), fs.nodes[p]? = some id → (fs.heap id).metadata.isDir = false →
    (fs.heap id).metadata.size = (fs.heap id).data.length
  dir : ∀ (p : String) (id : NodeId), fs.nodes[p]? = some id → (fs.heap id).metadata.isDir = true →
    (fs.heap id).metadata.size = 2 + fs.childCount p ∧ (fs.heap id).data = []
  listed : ∀ (ctx : FsContext) (name : String) (es : List DirEntry), (readDir ctx name fs).1 = .ok es →
    ∃ d, (fs.isDirNode name = true → d = name) ∧
      ∀ e ∈ es, (memFs.freeLstat (childPath d e.name) fs).1 = .ok e.metadata

section
variable {d dir : String} {id : NodeId}

theorem recomputeDirSize_of_dir (h : fs.TreeInv) (hid : fs.nodes[d]? = some id) :
    fs.recomputeDirSize d = fs.updateNode id (NodeInner.setSize (2 + fs.childCount d)) := by
  simp only [recomputeDirSize, hid, children_length h.alloc, need_size h, Nat.add_zero]

/-- A directory has its size once the pass has come to it, since no other path leads to its node. -/
theorem size_foldl_recompute (h : fs.TreeInv)
    (hunique : ∀ {p q : String} {id : NodeId}, fs.nodes[p]? = some id → fs.nodes[q]? = some id →
      (fs.heap id).metadata.isDir = true → p = q)
    (hid : fs.nodes[d]? = some id) (hdir : (fs.heap id).metadata.isDir = true) (dirs : List String)
    (hdirs : ∀ dir ∈ dirs, fs.isDirNode dir = true)
    (hd : d ∈ dirs ∨ (fs.heap id).metadata.size = 2 + fs.childCount d) :
    ((dirs.foldl MemFs.recomputeDirSize fs).heap id).metadata.size = 2 + fs.childCount d := by
  induction dirs generalizing fs with
  | nil => exact hd.resolve_left (List.not_mem_nil)
  | cons dir dirs ih =>
    have hresized := Resized.recomputeDirSize (hdirs dir List.mem_cons_self)
    have hcount : (fs.recomputeDirSize dir).childCount d = fs.childCount d := by
      rw [childCount, hresized.nodes, childCount]
    have hnext : ∀ p ∈ dirs, (fs.recomputeDirSize dir).isDirNode p = true := by
      intro p hp
      rw [hresized.isDirNode]
      exact hdirs p (List.mem_cons_of_mem dir hp)
    rw [List.foldl_cons, ← hcount]
    refine ih (h.of_shape (shape_recomputeDirSize dir)) ?_ ?_ ?_ hnext ?_
    · intro p q i hp hq hi
      rw [hresized.nodes] at hp hq
      rw [hresized.isDir] at hi
      exact hunique hp hq hi
    · rw [hresized.nodes]
      exact hid
    · rw [hresized.isDir]
      exact hdir
    · rw [hcount]
      obtain ⟨i, hi, hidir⟩ := isDirNode_iff.mp (hdirs dir List.mem_cons_self)
      rw [recomputeDirSize_of_dir h hi, updateNode_heap]
      by_cases heq : i = id
      · subst heq
        obtain rfl := hunique hi hid hidir
        rw [Function.update_self]
        exact Or.inr rfl
      · rw [Function.update_of_ne (Ne.symm heq)]
        rcases hd with hd | hd
        · rcases List.mem_cons.mp hd with rfl | hd
          · rw [hid] at hi
            exact absurd (Option.some.inj hi).symm heq
          · exact Or.inl hd
        · exact Or.inr hd

end

theorem sized_recomputeDirSizes (h : fs.Recorded) : fs.recomputeDirSizes.Sized := by
  intro d id hid hdir
  have hresized := resized_recomputeDirSizes fs
  have hcount : fs.recomputeDirSizes.childCount d = fs.childCount d := by rw [childCount, hresized.nodes, childCount]
  rw [hresized.nodes] at hid
  rw [hresized.isDir] at hdir
  rw [hcount]
  exact size_foldl_recompute h.tree h.unique hid hdir fs.dirKeys (fun _ => mem_dirKeys.mp)
    (Or.inl (mem_dirKeys.mpr (isDirNode_iff.mpr ⟨id, hid, hdir⟩)))

namespace Recorded

/-- The recorded data does not depend on the sizes of directories. -/
theorem resized (h : fs.Recorded) (hr : Resized fs fs') : fs'.Recorded := by
  have hheap : ∀ i, (fs'.heap i).data = (fs.heap i).data ∧ (fs'.heap i).metadata.mode = (fs.heap i).metadata.mode ∧
      (fs'.heap i).metadata.name = (fs.heap i).metadata.name := by
    intro i
    rcases hr.heap i with hi | ⟨-, n, hi⟩ <;> rw [hi] <;> exact ⟨rfl, rfl, rfl⟩
  have hshape : fs'.shape = fs.shape := by
    refine shape_ext hr.nodes hr.next fun i => ?_
    rcases hr.heap i with hi | ⟨-, n, hi⟩ <;> rw [hi]
    rfl
  refine ⟨h.tree.of_shape hshape, ?_, ?_, ?_, ?_⟩
  · intro p id hid hleaf
    rw [hr.nodes] at hid
    rw [hr.isDir] at hleaf
    rcases hr.heap id with hi | ⟨hdir, -⟩
    · rw [hi]
      exact h.leaf hid hleaf
    · rw [hdir] at hleaf
      cases hleaf
  · intro p id hid hdir
    rw [hr.nodes] at hid
    rw [hr.isDir] at hdir
    rw [(hheap id).1, (hheap id).2.1]
    exact h.dir hid hdir
  · intro p q id hp hq hdir
    rw [hr.nodes] at hp hq
    rw [hr.isDir] at hdir
    exact h.unique hp hq hdir
  · intro p id hid hdot
    rw [hr.nodes] at hid
    rw [(hheap id).2.2]
    exact h.name hid hdot

/-- A new path leads to the node of an old one with the same name. -/
theorem relabel (h : fs.Recorded) (ht : fs'.TreeInv) (hheap : fs'.heap = fs.heap) (origin : String → String)
    (horigin : ∀ (q : String) (id : NodeId), fs'.nodes[q]? = some id → fs.nodes[origin q]? = some id ∧
      (q ≠ "." → origin q ≠ "." ∧ baseName (origin q) = baseName q))
    (hinj : ∀ (q q' : String) (id : NodeId), fs'.nodes[q]? = some id → fs'.nodes[q']? = some id →
      (fs.heap id).metadata.isDir = true → origin q = origin q' → q = q') : fs'.Recorded := by
  refine ⟨ht, ?_, ?_, ?_, ?_⟩
  · intro p id hid hleaf
    rw [hheap] at hleaf ⊢
    exact h.leaf (horigin p id hid).1 hleaf
  · intro p id hid hdir
    rw [hheap] at hdir ⊢
    exact h.dir (horigin p id hid).1 hdir
  · intro p q id hp hq hdir
    rw [hheap] at hdir
    exact hinj p q id hp hq hdir (h.unique (horigin p id hp).1 (horigin q id hq).1 hdir)
  · intro p id hid hdot
    obtain ⟨hold, hnames⟩ := horigin p id hid
    obtain ⟨hdot', hbase⟩ := hnames hdot
    rw [hheap, h.name hold hdot', hbase]

/-- What a node records when it is new. -/
structure Fresh (p : String) (n : NodeInner) : Prop where
  leaf : n.metadata.isDir = false → n.metadata.size = n.data.length
  dir : n.metadata.isDir = true → n.data = [] ∧ n.metadata.mode.isSymlink = false
  name : n.metadata.name = baseName p

theorem insertNew (h : fs.Recorded) {p : String} {n : NodeInner} (ht : (fs.insertNew p n).TreeInv) (hn : Fresh p n) :
    (fs.insertNew p n).Recorded := by
  have hnew : (fs.insertNew p n).heap fs.next = n := Function.update_self ..
  have hold : ∀ {q : String} {id : NodeId}, fs.nodes[q]? = some id → id ≠ fs.next ∧ (fs.insertNew p n).heap id = fs.heap id := by
    intro q id hid
    have hne : id ≠ fs.next := Nat.ne_of_lt (h.tree.alloc.lt_next hid)
    exact ⟨hne, Function.update_of_ne hne ..⟩
  have hcases : ∀ {q : String} {id : NodeId}, (fs.insertNew p n).nodes[q]? = some id →
      q = p ∧ id = fs.next ∨ fs.nodes[q]? = some id := by
    intro q id hid
    rw [insertNew_get] at hid
    split at hid
    · rename_i hq
      exact Or.inl ⟨hq.symm, (Option.some.inj hid).symm⟩
    · exact Or.inr hid
  refine ⟨ht, ?_, ?_, ?_, ?_⟩
  · intro q id hid hleaf
    rcases hcases hid with ⟨-, rfl⟩ | hid
    · rw [hnew] at hleaf ⊢
      exact hn.leaf hleaf
    · rw [(hold hid).2] at hleaf ⊢
      exact h.leaf hid hleaf
  · intro q id hid hdir
    rcases hcases hid with ⟨-, rfl⟩ | hid
    · rw [hnew] at hdir ⊢
      exact hn.dir hdir
    · rw [(hold hid).2] at hdir ⊢
      exact h.dir hid hdir
  · intro q q' id hq hq' hdir
    rcases hcases hq with ⟨rfl, rfl⟩ | hq <;> rcases hcases hq' with ⟨hq', hid⟩ | hq'
    · exact hq'.symm
    · exact absurd rfl (hold hq').1
    · exact absurd hid (hold hq).1
    · rw [(hold hq).2] at hdir
      exact h.unique hq hq' hdir
  · intro q id hid hdot
    rcases hcases hid with ⟨rfl, rfl⟩ | hid
    · rw [hnew]
      exact hn.name
    · rw [(hold hid).2]
      exact h.name hid hdot

end Recorded

/-! ## Reading writes nothing -/

section
variable (h : fs.Recorded)
include h

/-- The name that `open` writes is the one that is there. -/
theorem Recorded.setName_eq {p : String} {id : NodeId} (hid : fs.nodes[p]? = some id)
    (hleaf : (fs.heap id).metadata.isDir = false) : fs.updateNode id (NodeInner.setName (baseName p)) = fs := by
  have hdot : p ≠ "." := by
    rintro rfl
    obtain ⟨i, hi, hdir⟩ := isDirNode_iff.mp h.tree.tree.1
    rw [hid] at hi
    rw [← Option.some.inj hi, hleaf] at hdir
    cases hdir
  have hname : (fs.heap id).setName (baseName p) = fs.heap id := by
    rw [← h.name hid hdot]
    rfl
  unfold updateNode
  rw [hname, Function.update_eq_self]

theorem Recorded.openAt_state (depth : Nat) (ctx : FsContext) (name : String) : (openAt depth ctx name fs).2 = fs := by
  induction depth generalizing name with
  | zero => rfl
  | succ depth ih =>
    unfold openAt
    rw [branch_apply]
    split
    · rfl
    · rw [get_bind]
      dsimp only
      cases hid : fs.nodes[cleanPath name]? with
      | none => exact preserves_openDir id _ fs
      | some i =>
        dsimp only
        rw [branch_apply, branch_apply]
        split
        · exact ih _
        · split
          · rename_i hleaf
            rw [modify_bind, openNode_state]
            exact h.setName_eq hid (by simpa using hleaf)
          · exact preserves_openDir id _ fs

theorem Recorded.safe_open (ctx : FsContext) (name : String) : Safe (fun s => s = fs) (fun _ => True) (open_ ctx name) := by
  rintro s rfl
  exact ⟨h.openAt_state _ ctx name, fun _ _ => trivial⟩

theorem Recorded.safe_readDir (ctx : FsContext) (name : String) :
    Safe (fun s => s = fs) (fun _ => True) (readDir ctx name) := by
  have hread : ∀ (f : MemFile) (count : Int), Safe (fun s => s = fs) (fun _ => True) (withFile f (MemFile.handle.readDir count)) := by
    rintro f count s rfl
    exact ⟨preserves_withFile (MemFile.preserves_readDir id count) f s, fun _ _ => trivial⟩
  refine safe_then (h.safe_open _ _) fun f => safe_then (hread f _) fun r => ?_
  exact safe_then (safe_ofExcept _) fun _ => safe_pure trivial

theorem Recorded.isNonEmptyDir_state (name : String) : (isNonEmptyDir name fs).2 = fs := by
  have hdir : Safe (fun s => s = fs) (fun _ => True) (FileSystem.isDirWith stat name) := by
    rintro s rfl
    exact ⟨preserves_isDirWith id name s, fun _ _ => trivial⟩
  have hsafe : Safe (fun s => s = fs) (fun _ => True) (isNonEmptyDir name) := by
    refine safe_then hdir fun b => safe_ite (fun _ => ?_) fun _ => safe_pure trivial
    exact safe_then (safe_then (h.safe_readDir _ _) fun _ => safe_pure trivial) fun _ => safe_pure trivial
  exact (hsafe fs rfl).1

theorem Recorded.remove_cases (name : String) :
    (remove name fs).2 = fs ∨
    cleanPath name ≠ "." ∧ (isNonEmptyDir (cleanPath name) fs).1 = .ok false ∧
      (remove name fs).2 = (fs.eraseNode (cleanPath name)).recomputeDirSizes := by
  have hstate := h.isNonEmptyDir_state (cleanPath name)
  simp only [remove, branch_apply, get_bind]
  split
  · exact Or.inl rfl
  · rename_i hdot
    split
    · exact Or.inl rfl
    · rw [bind_of_state hstate]
      cases hr : (isNonEmptyDir (cleanPath name) fs).1 with
      | ok b =>
        cases b with
        | true => exact Or.inl rfl
        | false => exact Or.inr ⟨hdot, rfl, rfl⟩
      | err e => exact Or.inl rfl
      | abort => exact Or.inl rfl

end

/-! ## What each call keeps -/

/-- Every node records what it should. -/
structure MetaInv (fs : MemFs) : Prop where
  recorded : fs.Recorded
  sized : fs.Sized

theorem Recorded.refreshed (h : fs.Recorded) : fs.recomputeDirSizes.MetaInv :=
  ⟨h.resized (resized_recomputeDirSizes fs), sized_recomputeDirSizes h⟩

/-- A change to a node that a directory does not notice. -/
structure Retains (n n' : NodeInner) : Prop where
  isDir : n'.metadata.isDir = n.metadata.isDir
  name : n'.metadata.name = n.metadata.name
  leaf : n.metadata.isDir = false → n.metadata.size = n.data.length → n'.metadata.size = n'.data.length
  dir : n.metadata.isDir = true →
    n'.data = n.data ∧ n'.metadata.size = n.metadata.size ∧ n'.metadata.mode.isSymlink = n.metadata.mode.isSymlink

theorem Retains.refl (n : NodeInner) : Retains n n := ⟨rfl, rfl, fun _ h => h, fun _ => ⟨rfl, rfl, rfl⟩⟩

theorem MetaInv.of_retains (h : fs.MetaInv) (hnodes : fs'.nodes = fs.nodes) (hnext : fs'.next = fs.next)
    (hheap : ∀ i, Retains (fs.heap i) (fs'.heap i)) : fs'.MetaInv := by
  have hkinds : fs'.kinds = fs.kinds := by
    simp only [kinds, hnodes, hnext, Prod.mk.injEq, true_and, and_true]
    funext i
    exact (hheap i).isDir
  refine ⟨⟨h.recorded.tree.of_kinds hkinds, ?_, ?_, ?_, ?_⟩, ?_⟩
  · intro p id hid hleaf
    rw [hnodes] at hid
    rw [(hheap id).isDir] at hleaf
    exact (hheap id).leaf hleaf (h.recorded.leaf hid hleaf)
  · intro p id hid hdir
    rw [hnodes] at hid
    rw [(hheap id).isDir] at hdir
    obtain ⟨hdata, -, hlink⟩ := (hheap id).dir hdir
    rw [hdata, hlink]
    exact h.recorded.dir hid hdir
  · intro p q id hp hq hdir
    rw [hnodes] at hp hq
    rw [(hheap id).isDir] at hdir
    exact h.recorded.unique hp hq hdir
  · intro p id hid hdot
    rw [hnodes] at hid
    rw [(hheap id).name]
    exact h.recorded.name hid hdot
  · intro d id hid hdir
    rw [hnodes] at hid
    rw [(hheap id).isDir] at hdir
    rw [((hheap id).dir hdir).2.1, h.sized d id hid hdir, childCount, childCount, hnodes]

theorem MetaInv.updateNode (h : fs.MetaInv) {id : NodeId} {f : NodeInner → NodeInner}
    (hf : Retains (fs.heap id) (f (fs.heap id))) : (fs.updateNode id f).MetaInv := by
  refine h.of_retains rfl rfl fun i => ?_
  rw [updateNode_heap]
  by_cases hi : i = id
  · subst hi
    rw [Function.update_self]
    exact hf
  · rw [Function.update_of_ne hi]
    exact Retains.refl _

theorem MetaInv.setData (h : fs.MetaInv) {id : NodeId} (hleaf : (fs.heap id).metadata.isDir = false) (data : Bytes) :
    (fs.setData id data).MetaInv := by
  have hretains : Retains (fs.heap id) ((fs.heap id).setData data (fs.clock fs.ticks)) := by
    refine ⟨rfl, rfl, fun _ _ => rfl, fun hdir => ?_⟩
    rw [hleaf] at hdir
    cases hdir
  exact (h.updateNode hretains).of_retains rfl rfl fun i => Retains.refl _

section
variable (h : fs.MetaInv)
include h

/-- A new node at a path where a node may go. -/
theorem MetaInv.insertNew {p : String} {n : NodeInner} (ht : (fs.insertNew p n).recomputeDirSizes.TreeInv)
    (hn : Recorded.Fresh p n) : (fs.insertNew p n).recomputeDirSizes.MetaInv :=
  (h.recorded.insertNew (ht.of_shape shape_recomputeDirSizes.symm) hn).refreshed

theorem MetaInv.create {name : String} (hok : fs.replaceOk (cleanPath name) = true) : (create name fs).2.MetaInv := by
  have htree := h.recorded.tree.create hok
  by_cases hpar : (parentExists (cleanPath name) fs).1 = .ok true
  · rw [create_of_parent hpar, openNode_state] at htree ⊢
    refine h.insertNew htree ⟨fun _ => rfl, fun hdir => ?_, rfl⟩
    simp [NodeInner.file, Metadata.isDir] at hdir
  · rw [(create_of_no_parent hpar).2]
    exact h

theorem MetaInv.symlink {old new : String} (hok : fs.replaceOk (cleanPath new) = true) : (symlink old new fs).2.MetaInv := by
  have htree : (MemFs.symlink old new fs).2.TreeInv := h.recorded.tree.symlink hok
  by_cases hpar : (parentExists (cleanPath new) fs).1 = .ok true
  · rw [symlink_of_parent hpar] at htree ⊢
    refine h.insertNew htree ⟨fun _ => rfl, fun hdir => ?_, rfl⟩
    change (Metadata.symlink "" 0).isDir = true at hdir
    exact absurd hdir (by decide)
  · rw [(symlink_of_no_parent hpar).2]
    exact h

theorem MetaInv.mkdir {name : String} {perm : FileMode} (hok : fs.mkdirOk (cleanPath name) = true)
    (hperm : fs.nodes[cleanPath name]?.isSome = true ∨ (parentExists (cleanPath name) fs).1 ≠ .ok true ∨ perm.isSymlink = false) :
    (mkdir name perm fs).2.MetaInv := by
  have htree : (MemFs.mkdir name perm fs).2.TreeInv := h.recorded.tree.mkdir hok
  cases hn : fs.nodes[cleanPath name]? with
  | some i =>
    rw [mkdir_of_exists hn]
    exact h
  | none =>
    by_cases hpar : (parentExists (cleanPath name) fs).1 = .ok true
    · have hlink : perm.isSymlink = false := by
        rcases hperm with hp | hp | hp
        · rw [hn] at hp
          cases hp
        · exact absurd hpar hp
        · exact hp
      rw [mkdir_of_parent hn hpar] at htree ⊢
      refine h.insertNew htree ⟨fun hleaf => ?_, fun _ => ⟨rfl, ?_⟩, rfl⟩
      · simp [NodeInner.dir, Metadata.isDir] at hleaf
      · simp [NodeInner.dir, hlink]
    · rw [(mkdir_of_no_parent hn hpar).2]
      exact h

theorem MetaInv.remove {name : String} (hok : fs.removeOk (cleanPath name) = true) : (remove name fs).2.MetaInv := by
  have htree := h.recorded.tree.remove hok
  rcases h.recorded.remove_cases name with hs | ⟨-, -, hs⟩
  · rw [hs]
    exact h
  · rw [hs] at htree ⊢
    have hget : ∀ (q : String) (id : NodeId), (fs.eraseNode (cleanPath name)).nodes[q]? = some id → fs.nodes[q]? = some id := by
      intro q id hq
      rw [eraseNode_get] at hq
      split at hq
      · cases hq
      · exact hq
    refine Recorded.refreshed (h.recorded.relabel (htree.of_shape shape_recomputeDirSizes.symm) rfl (fun q => q) ?_ ?_)
    · exact fun q id hq => ⟨hget q id hq, fun hdot => ⟨hdot, rfl⟩⟩
    · exact fun _ _ _ _ _ _ heq => heq

theorem MetaInv.link {old new : String} (hok : fs.linkOk (cleanPath old) (cleanPath new) = true)
    (hbase : fs.linkProceeds (cleanPath old) (cleanPath new) = true → baseName (cleanPath old) = baseName (cleanPath new)) :
    (link old new fs).2.MetaInv := by
  have htree := h.recorded.tree.link hok
  cases hp : fs.linkProceeds (cleanPath old) (cleanPath new) with
  | false =>
    rw [(link_of_not_proceeds hp).2]
    exact h
  | true =>
    have hchecks := hp
    simp only [linkProceeds, Bool.and_eq_true, Bool.not_eq_true'] at hchecks
    obtain ⟨⟨-, hsrc⟩, hfile⟩ := hchecks
    obtain ⟨i, hi⟩ := Option.isSome_iff_exists.mp hsrc
    have hleaf : (fs.heap i).metadata.isDir = false := by simpa [isDirNode, coreAt, hi, NodeInner.isDir_core] using hfile
    have hold : cleanPath old ≠ "." := by
      intro hdot
      rw [hdot, h.recorded.tree.tree.1] at hfile
      cases hfile
    rw [link_of_proceeds hp hi] at htree ⊢
    have hget : ∀ (q : String) (id : NodeId), (fs.insertNode (cleanPath new) i).nodes[q]? = some id →
        fs.nodes[if q = cleanPath new then cleanPath old else q]? = some id ∧ (q = cleanPath new → id = i) := by
      intro q id hq
      rw [insertNode_get] at hq
      by_cases hnew : q = cleanPath new
      · rw [if_pos hnew.symm] at hq
        rw [if_pos hnew, hi]
        exact ⟨hq, fun _ => (Option.some.inj hq).symm⟩
      · rw [if_neg (Ne.symm hnew)] at hq
        rw [if_neg hnew]
        exact ⟨hq, fun hnew' => absurd hnew' hnew⟩
    refine Recorded.refreshed (h.recorded.relabel (htree.of_shape shape_recomputeDirSizes.symm) rfl
      (fun q => if q = cleanPath new then cleanPath old else q) ?_ ?_)
    · intro q id hq
      refine ⟨(hget q id hq).1, fun hdot => ?_⟩
      split
      · rename_i hnew
        exact ⟨hold, by rw [hnew, hbase hp]⟩
      · exact ⟨hdot, rfl⟩
    · intro q q' id hq hq' hdir heq
      have hnot : ∀ r, (fs.insertNode (cleanPath new) i).nodes[r]? = some id → r ≠ cleanPath new := by
        intro r hr hnew
        rw [(hget r id hr).2 hnew, hleaf] at hdir
        cases hdir
      rwa [if_neg (hnot q hq), if_neg (hnot q' hq')] at heq

theorem MetaInv.rename {old new : String} (hok : fs.renameOk (cleanPath old) (cleanPath new) = true)
    (hbase : fs.renameProceeds (cleanPath old) (cleanPath new) = true → baseName (cleanPath old) = baseName (cleanPath new)) :
    (rename old new fs).2.MetaInv := by
  have htree := h.recorded.tree.rename hok
  cases hp : fs.renameProceeds (cleanPath old) (cleanPath new) with
  | false =>
    rw [rename_of_not_proceeds hp]
    exact h
  | true =>
    simp only [renameOk, hp, Bool.not_true, Bool.false_or, Bool.and_eq_true, bne_iff_ne, Bool.not_eq_true'] at hok
    obtain ⟨⟨⟨hold, hnew⟩, hout⟩, -⟩ := hok
    obtain ⟨i, hi⟩ := exists_of_checks hp
    have hvold := cleanPath_valid old
    have hvnew := cleanPath_valid new
    have hkeys := (moved_of_checks h.recorded.tree hvold hvnew hp hnew hout).keys
    rw [rename_of_checks hvold hvnew hp hi] at hkeys
    rw [rename_of_proceeds hp hi] at htree ⊢
    generalize hmid : (if (fs.heap i).metadata.isDir then fs.moveTree (cleanPath old) (cleanPath new)
      else fs.moveNode (cleanPath old) (cleanPath new) i) = mid at htree hkeys ⊢
    have hheap : mid.heap = fs.heap := by
      rw [← hmid]
      split
      · rw [moveTree_eq]
      · rfl
    have htree' := htree.of_shape shape_recomputeDirSizes.symm
    -- what the path led to before the move
    have hget : ∀ (q : String) (id : NodeId), mid.nodes[q]? = some id → validPath q = true ∧
        (within (cleanPath new) q = true ∧ fs.nodes[rebase (cleanPath new) (cleanPath old) q]? = some id ∨
          within (cleanPath new) q = false ∧ within (cleanPath old) q = false ∧ fs.nodes[q]? = some id) := by
      intro q id hq
      have hvalid := htree'.alloc.valid hq
      have hkey := hkeys q hvalid
      rw [recomputeDirSizes_nodes, hq] at hkey
      refine ⟨hvalid, ?_⟩
      cases hin : within (cleanPath new) q with
      | true =>
        rw [hin, if_pos rfl] at hkey
        exact Or.inl ⟨rfl, hkey.symm⟩
      | false =>
        rw [hin, if_neg Bool.false_ne_true] at hkey
        split at hkey
        · cases hkey
        · rename_i hin'
          exact Or.inr ⟨rfl, Bool.not_eq_true _ ▸ hin', hkey.symm⟩
    refine Recorded.refreshed (h.recorded.relabel htree' hheap
      (fun q => if within (cleanPath new) q = true then rebase (cleanPath new) (cleanPath old) q else q) ?_ ?_)
    · intro q id hq
      obtain ⟨hvalid, ⟨hin, hnode⟩ | ⟨hin, -, hnode⟩⟩ := hget q id hq
      · rw [if_pos hin]
        refine ⟨hnode, fun _ => ?_⟩
        rcases within_iff_below.mp hin with heq | hbelow
        · rw [heq, rebase_self]
          exact ⟨hold, hbase hp⟩
        · exact ⟨below_ne_dot (below_rebase hvold hvalid hbelow), baseName_rebase hvold hvalid hbelow⟩
      · rw [hin, if_neg Bool.false_ne_true]
        exact ⟨hnode, fun hdot => ⟨hdot, rfl⟩⟩
    · intro q q' id hq hq' hdir heq
      obtain ⟨hvalid, hcase⟩ := hget q id hq
      obtain ⟨hvalid', hcase'⟩ := hget q' id hq'
      rcases hcase with ⟨hin, -⟩ | ⟨hin, hin₂, -⟩ <;> rcases hcase' with ⟨hin', -⟩ | ⟨hin', hin₂', -⟩ <;>
        rw [hin, hin'] at heq
      · rw [if_pos rfl, if_pos rfl] at heq
        have hback := congrArg (rebase (cleanPath old) (cleanPath new)) heq
        rwa [rebase_rebase hvold hvalid hin, rebase_rebase hvold hvalid' hin'] at hback
      · rw [if_pos rfl, if_neg Bool.false_ne_true] at heq
        rw [← heq, within_rebase hvold hvalid] at hin₂'
        cases hin₂'
      · rw [if_neg Bool.false_ne_true, if_pos rfl] at heq
        rw [heq, within_rebase hvold hvalid'] at hin₂
        cases hin₂
      · rwa [if_neg Bool.false_ne_true, if_neg Bool.false_ne_true] at heq

/-- The calls that look a node up and change it. -/
theorem MetaInv.onNode {α : Type} {op name : String} {p : NodeId → Prog MemFs Error α}
    (hp : ∀ id, fs.nodes[name]? = some id → (p id fs).2.MetaInv) : ((nodeOr op name >>= p) fs).2.MetaInv := by
  unfold nodeOr
  rw [bind_assoc, get_bind]
  cases hid : fs.nodes[name]? with
  | none => exact h
  | some id => exact hp id hid

theorem MetaInv.chmod (name : String) (mode : FileMode) : (chmod name mode fs).2.MetaInv := by
  refine h.onNode fun id _ => h.updateNode ⟨?_, rfl, fun _ hsize => hsize, fun _ => ⟨rfl, rfl, ?_⟩⟩
  · simp [NodeInner.setMode, Metadata.isDir]
  · simp [NodeInner.setMode]

theorem MetaInv.chown (name : String) (uid gid : UInt32) : (chown name uid gid fs).2.MetaInv := by
  refine h.onNode fun id _ => h.updateNode ⟨rfl, rfl, fun _ hsize => hsize, fun _ => ⟨rfl, rfl, rfl⟩⟩

theorem MetaInv.truncate {name : String} {size : UInt64}
    (hok : fs.isDirNode (cleanPath name) = false ∨ isizeMax < size.toNat) : (truncate name size fs).2.MetaInv := by
  refine h.onNode fun id hid => ?_
  rw [get_bind, branch_apply]
  split
  · exact h
  · rename_i hroom
    have hleaf : (fs.heap id).metadata.isDir = false := by
      rw [Bool.eq_false_iff]
      intro hdir
      rcases hok with hnot | hlarge
      · rw [isDirNode_iff.mpr ⟨id, hid, hdir⟩] at hnot
        cases hnot
      · refine hroom ?_
        rw [(h.recorded.dir hid hdir).1, resizeFails, List.length_nil, Bool.and_eq_true, decide_eq_true_iff, decide_eq_true_iff]
        exact ⟨Nat.lt_of_le_of_lt (Nat.zero_le _) hlarge, hlarge⟩
    exact h.setData hleaf _

end

/-! ## Kinds of nodes -/

/-- Nodes that were there are of the kind they were. -/
def SameKinds (fs fs' : MemFs) : Prop :=
  fs.next ≤ fs'.next ∧ ∀ i, i < fs.next → (fs'.heap i).metadata.isDir = (fs.heap i).metadata.isDir

instance : IsPreorder MemFs SameKinds where
  refl _ := ⟨Nat.le_refl _, fun _ _ => rfl⟩
  trans _ _ _ h h' := ⟨Nat.le_trans h.1 h'.1, fun i hi => (h'.2 i (Nat.lt_of_lt_of_le hi h.1)).trans (h.2 i hi)⟩

theorem sameKinds_of_kinds (h : fs'.kinds = fs.kinds) : SameKinds fs fs' := by
  simp only [kinds, Prod.mk.injEq] at h
  exact ⟨Nat.le_of_eq h.2.2.symm, fun i _ => congrFun h.2.1 i⟩

theorem sameKinds_of_preserves {α : Type} {p : Prog MemFs Error α} (hp : Preserves kinds p) : Evolves SameKinds p :=
  fun fs => sameKinds_of_kinds (hp fs)

theorem sameKinds_insertNew (p : String) (n : NodeInner) (fs : MemFs) : SameKinds fs (fs.insertNew p n) := by
  refine ⟨Nat.le_succ _, fun i hi => ?_⟩
  change (Function.update fs.heap fs.next n i).metadata.isDir = _
  rw [Function.update_of_ne (Nat.ne_of_lt hi)]

theorem sameKinds_recompute (fs : MemFs) : SameKinds fs fs.recomputeDirSizes := by
  have hr := resized_recomputeDirSizes fs
  exact ⟨Nat.le_of_eq hr.next.symm, fun i _ => hr.isDir i⟩

/-- A change of the path map, and the pass over the directories. -/
theorem evolves_changed {f : MemFs → MemFs} (hf : ∀ fs, SameKinds fs (f fs)) :
    Evolves SameKinds (do modify f; modify recomputeDirSizes : Prog MemFs Error Unit) :=
  evolves_bind hf fun _ => sameKinds_recompute

theorem sameKinds_create (name : String) : Evolves SameKinds (create name) := by
  refine evolves_ite (fun _ => evolves_throw _) fun _ => evolves_bind (evolves_of_state (preserves_parentExists id _)) fun b => ?_
  refine evolves_ite (fun _ => evolves_throw _) fun _ => evolves_bind evolves_get fun fs => ?_
  refine evolves_bind (sameKinds_insertNew _ _) fun _ => evolves_bind sameKinds_recompute fun _ => ?_
  exact evolves_of_state (openNode_state _)

theorem sameKinds_symlink (old new : String) : Evolves SameKinds (symlink old new) := by
  refine evolves_ite (fun _ => evolves_throw _) fun _ => evolves_bind (evolves_of_state (preserves_parentExists id _)) fun b => ?_
  exact evolves_ite (fun _ => evolves_throw _) fun _ => evolves_changed (sameKinds_insertNew _ _)

theorem sameKinds_mkdir (name : String) (perm : FileMode) : Evolves SameKinds (mkdir name perm) := by
  refine evolves_ite (fun _ => evolves_throw _) fun _ => evolves_bind evolves_get fun fs => ?_
  refine evolves_ite (fun _ => evolves_throw _) fun _ => evolves_bind (evolves_of_state (preserves_parentExists id _)) fun b => ?_
  exact evolves_ite (fun _ => evolves_throw _) fun _ => evolves_changed (sameKinds_insertNew _ _)

theorem sameKinds_remove (name : String) : Evolves SameKinds (remove name) := by
  refine evolves_ite (fun _ => evolves_throw _) fun _ => evolves_bind evolves_get fun fs => ?_
  refine evolves_ite (fun _ => evolves_throw _) fun _ => ?_
  refine evolves_bind (sameKinds_of_preserves (preserves_kinds_of_shape (preserves_isNonEmptyDir _))) fun b => ?_
  exact evolves_ite (fun _ => evolves_throw _) fun _ => evolves_changed fun fs => refl_of SameKinds fs

theorem sameKinds_link (old new : String) : Evolves SameKinds (link old new) := by
  refine evolves_ite (fun _ => evolves_throw _) fun _ => evolves_bind evolves_get fun fs => ?_
  refine evolves_ite (fun _ => evolves_throw _) fun _ => evolves_bind (evolves_of_state (preserves_parentIsDir id _)) fun b => ?_
  refine evolves_ite (fun _ => evolves_throw _) fun _ => evolves_bind evolves_get fun fs => ?_
  refine evolves_bind (evolves_of_state (preserves_ofOption _ _ : Preserves id _)) fun i => ?_
  exact evolves_ite (fun _ => evolves_throw _) fun _ => evolves_changed fun fs => refl_of SameKinds fs

theorem sameKinds_rename (old new : String) : Evolves SameKinds (rename old new) := by
  have hmove : ∀ (old new : String) (fs : MemFs), SameKinds fs (fs.moveTree old new) := by
    intro old new fs
    rw [moveTree_eq]
    exact refl_of SameKinds fs
  refine evolves_ite (fun _ => evolves_throw _) fun _ => evolves_ite (fun _ => evolves_pure _) fun _ => ?_
  refine evolves_bind (evolves_of_state (preserves_parentIsDir id _)) fun b => ?_
  refine evolves_ite (fun _ => evolves_throw _) fun _ => evolves_bind evolves_get fun fs => ?_
  refine evolves_bind (evolves_of_state (preserves_ofOption _ _ : Preserves id _)) fun i => ?_
  refine evolves_ite (fun _ => evolves_throw _) fun _ => ?_
  refine evolves_ite (fun _ => evolves_changed (hmove _ _)) fun _ => evolves_changed fun fs => refl_of SameKinds fs

/-! ## Handles and runs -/

theorem Recorded.lstat_of_listed (h : fs.Recorded) {p : String} {e : DirEntry} (he : e ∈ fs.listing p) :
    (memFs.freeLstat (childPath p e.name) fs).1 = .ok e.metadata := by
  have hentry := mem_dirEntries_of_mem_listing he
  rw [dirEntries, List.mem_append] at hentry
  rcases hentry with hchild | hneed
  · obtain ⟨hname, id, hid, hentry⟩ := (mem_children h.tree.alloc).mp hchild
    have hrecorded := h.name hid (childPath_ne_dot p hname)
    rw [baseName_childPath p hname] at hrecorded
    have hmeta : e.metadata = (fs.heap id).metadata := by
      rw [hentry, ← hrecorded]
      rfl
    rw [freeLstat_of_mem (h.tree.alloc.valid hid) hid, hmeta]
  · obtain ⟨c, hc, -⟩ := List.mem_map.mp hneed
    exact absurd (Std.ExtTreeSet.mem_toList.mp hc) (not_mem_need h.tree p c)

theorem MetaInv.coherent (h : fs.MetaInv) : fs.Coherent := by
  refine ⟨fun p id => h.recorded.leaf, fun p id hid hdir => ⟨h.sized p id hid hdir, (h.recorded.dir hid hdir).1⟩, ?_⟩
  intro ctx name es hes
  cases hdir : fs.isDirNode name with
  | true =>
    obtain ⟨i, hi, hi'⟩ := isDirNode_iff.mp hdir
    have hlist : readDir ctx name fs = _ :=
      readDir_of_dirNode (h.recorded.tree.alloc.valid hi) hi hi' (h.recorded.dir hi hi').2
    rw [hlist] at hes
    refine ⟨name, fun _ => rfl, fun e he => ?_⟩
    exact h.recorded.lstat_of_listed (Outcome.ok.inj hes ▸ he)
  | false =>
    obtain ⟨p, rfl⟩ := readDir_listing hes
    exact ⟨p, nofun, fun e he => h.recorded.lstat_of_listed he⟩

/-- A handle writes to a file or a symlink, and not to a directory. -/
def OnLeaf (fs : MemFs) : MemFile → Prop
  | .node f => f.node < fs.next ∧ (fs.heap f.node).metadata.isDir = false
  | .dir _ => True

theorem OnLeaf.later {f : MemFile} (h : fs.OnLeaf f) (hk : SameKinds fs fs') : fs'.OnLeaf f := by
  cases f with
  | node f => exact ⟨Nat.lt_of_lt_of_le h.1 hk.1, (hk.2 f.node h.1).trans h.2⟩
  | dir f => trivial

theorem OnLeaf.of_node {f g : NodeFile} (h : fs.OnLeaf (.node f)) (hnode : g.node = f.node) : fs.OnLeaf (.node g) := by
  change g.node < fs.next ∧ (fs.heap g.node).metadata.isDir = false
  rw [hnode]
  exact h

theorem create_onLeaf {name : String} {f : MemFile} (hf : (create name fs).1 = .ok f) :
    (create name fs).2.OnLeaf f := by
  by_cases hpar : (parentExists (cleanPath name) fs).1 = .ok true
  · rw [create_of_parent hpar] at hf ⊢
    obtain rfl := Outcome.ok.inj hf
    have hr := resized_recomputeDirSizes (fs.insertNew (cleanPath name)
      (NodeInner.file (baseName (cleanPath name)) [] (FileMode.fromPerm 0o644)))
    refine ⟨?_, ?_⟩
    · rw [openNode_state, hr.next]
      exact Nat.lt_succ_self _
    · rw [openNode_state, hr.isDir]
      change (Function.update fs.heap fs.next _ fs.next).metadata.isDir = false
      rw [Function.update_self]
      simp [NodeInner.file, Metadata.isDir]
  · have hfail := (create_of_no_parent hpar).1
    rw [hf] at hfail
    cases hfail

theorem openAt_onLeaf (h : fs.Recorded) (depth : Nat) (ctx : FsContext) {name : String} {f : MemFile}
    (hf : (openAt depth ctx name fs).1 = .ok f) : fs.OnLeaf f := by
  induction depth generalizing name with
  | zero => cases hf
  | succ depth ih =>
    have hdir : ∀ p, (openDir p fs).1 = .ok f → fs.OnLeaf f := by
      intro p hp
      rcases openDir_cases p fs with ⟨g, -, hopen⟩ | ⟨-, e, hopen⟩ <;> rw [hopen] at hp
      · cases hp
        trivial
      · cases hp
    unfold openAt at hf
    rw [branch_apply] at hf
    split at hf
    · cases hf
    · rw [get_bind] at hf
      cases hi : fs.nodes[cleanPath name]? with
      | none =>
        simp only [hi] at hf
        exact hdir _ hf
      | some i =>
        simp only [hi, branch_apply] at hf
        split at hf
        · exact ih hf
        · split at hf
          · rename_i hleaf
            cases hf
            exact ⟨h.tree.alloc.lt_next hi, by simpa using hleaf⟩
          · exact hdir _ hf

end MemFs

/-- The calls of `MemOp`, and `chown`. -/
inductive MetaOp where
  | call (op : MemOp)
  | chown (name : String) (uid gid : UInt32)

def MetaOp.paths : MetaOp → List String
  | .call (.open_ _ name) => [name]
  | .call (.create name) => [name]
  | .call (.mkdir name _) => [name]
  | .call (.remove name) => [name]
  | .call (.rename old new) => [old, new]
  | .call (.link old new) => [old, new]
  | .call (.symlink _ new) => [new]
  | .call (.chmod name _) => [name]
  | .call (.truncate name _) => [name]
  | .call _ => []
  | .chown name _ _ => [name]

namespace MemFs

/-- The step keeps the tree; a moved or linked node keeps its name; no directory is truncated, and none is made with
the type of a symlink. -/
def metaStepOk (fs : MemFs) : MetaOp → Bool
  | .call op => fs.treeStepOk op && match op with
    | .mkdir name perm =>
      fs.nodes[cleanPath name]?.isSome || (parentExists (cleanPath name) fs).1 != .ok true || !perm.isSymlink
    | .rename old new =>
      !fs.renameProceeds (cleanPath old) (cleanPath new) || baseName (cleanPath old) == baseName (cleanPath new)
    | .link old new =>
      !fs.linkProceeds (cleanPath old) (cleanPath new) || baseName (cleanPath old) == baseName (cleanPath new)
    | .truncate name size => !fs.isDirNode (cleanPath name) || isizeMax < size.toNat
    | _ => true
  | .chown _ _ _ => true

end MemFs

namespace MemWorld
variable {w : MemWorld}

def metaStep (w : MemWorld) : MetaOp → MemWorld
  | .call op => w.step op
  | .chown name uid gid => w.onPath (MemFs.chown name uid gid)

structure MetaInv (w : MemWorld) : Prop where
  fs : w.fs.MetaInv
  files : ∀ f ∈ w.files, w.fs.OnLeaf f

theorem MetaInv.onPath (h : w.MetaInv) {α : Type} {p : Prog MemFs Error α} (hfs : (p w.fs).2.MetaInv)
    (hk : Evolves MemFs.SameKinds p) : (w.onPath p).MetaInv :=
  ⟨hfs, fun f hf => (h.files f hf).later (hk w.fs)⟩

theorem MetaInv.opening (h : w.MetaInv) {p : Prog MemFs Error MemFile} (hfs : (p w.fs).2.MetaInv)
    (hk : Evolves MemFs.SameKinds p) (hnew : ∀ f, (p w.fs).1 = .ok f → (p w.fs).2.OnLeaf f) : (w.opening p).MetaInv := by
  refine ⟨hfs, fun f hf => ?_⟩
  rcases List.mem_append.mp hf with hf | hf
  · exact (h.files f hf).later (hk w.fs)
  · cases hp : (p w.fs).1 with
    | ok g =>
      rw [hp] at hf
      rw [List.mem_singleton.mp hf]
      exact hnew g hp
    | err _ =>
      rw [hp] at hf
      cases hf
    | abort =>
      rw [hp] at hf
      cases hf

/-- What a call on a handle does to a state with its invariant. -/
def HandleKeeps {α : Type} (p : Prog (MemFile × MemFs) Error α) : Prop :=
  ∀ f fs, fs.MetaInv → fs.OnLeaf f →
    (p (f, fs)).2.2.MetaInv ∧ MemFs.SameKinds fs (p (f, fs)).2.2 ∧ (p (f, fs)).2.2.OnLeaf (p (f, fs)).2.1

theorem MetaInv.onFile (h : w.MetaInv) {α : Type} {p : Prog (MemFile × MemFs) Error α} (hp : HandleKeeps p) (file : Nat) :
    (w.onFile file p).MetaInv := by
  unfold MemWorld.onFile
  cases hf : w.files[file]? with
  | none => exact h
  | some f =>
    obtain ⟨hfs, hk, hleaf⟩ := hp f w.fs h.fs (h.files f (List.mem_of_getElem? hf))
    refine ⟨hfs, fun g hg => ?_⟩
    rcases List.mem_or_eq_of_mem_set hg with hg | rfl
    · exact (h.files g hg).later hk
    · exact hleaf

theorem write_cases (data : Bytes) (f : NodeFile) (fs : MemFs) :
    (NodeFile.write data (f, fs)).2.1.node = f.node ∧
      ((NodeFile.write data (f, fs)).2.2 = fs ∨ (NodeFile.write data (f, fs)).2.2 = { fs with ticks := fs.ticks + 1 }) := by
  unfold NodeFile.write
  dsimp only
  split_ifs <;> exact ⟨rfl, by first | exact Or.inl rfl | exact Or.inr rfl⟩

theorem writeKeeps {f g : NodeFile} {fs fs' : MemFs} (h : fs.MetaInv) (hleaf : fs.OnLeaf (.node f)) (hnode : g.node = f.node)
    (hfs : fs' = fs ∨ fs' = { fs with ticks := fs.ticks + 1 }) :
    fs'.MetaInv ∧ MemFs.SameKinds fs fs' ∧ fs'.OnLeaf (.node g) := by
  have hsame := hleaf.of_node hnode
  rcases hfs with rfl | rfl
  · exact ⟨h, refl_of MemFs.SameKinds _, hsame⟩
  · exact ⟨h.of_retains rfl rfl fun i => MemFs.Retains.refl _, ⟨Nat.le_refl _, fun _ _ => rfl⟩, hsame⟩

theorem handleKeeps_write (data : Bytes) : HandleKeeps (MemFile.handle.write data) := by
  intro f fs h hleaf
  cases f with
  | node f => exact writeKeeps h hleaf (write_cases data f fs).1 (write_cases data f fs).2
  | dir f => exact ⟨h, refl_of MemFs.SameKinds _, trivial⟩

theorem handleKeeps_writeAt (data : Bytes) (offset : UInt64) : HandleKeeps (MemFile.handle.writeAt data offset) := by
  intro f fs h hleaf
  cases f with
  | node f => exact writeKeeps h hleaf (write_cases data { f with offset } fs).1 (write_cases data { f with offset } fs).2
  | dir f => exact ⟨h, refl_of MemFs.SameKinds _, trivial⟩

/-- What a handle gives back goes to a node that is no directory. -/
theorem syncKeeps {f g : NodeFile} {fs : MemFs} (h : fs.MetaInv) (hleaf : fs.OnLeaf (.node f)) (hnode : g.node = f.node)
    (data : Bytes) : (fs.setData f.node data).MetaInv ∧ MemFs.SameKinds fs (fs.setData f.node data) ∧
      (fs.setData f.node data).OnLeaf (.node g) := by
  have hk : MemFs.SameKinds fs (fs.setData f.node data) := MemFs.sameKinds_of_kinds (MemFs.kinds_setData _ _)
  exact ⟨h.setData hleaf.2 data, hk, (hleaf.later hk).of_node hnode⟩

theorem handleKeeps_sync : HandleKeeps MemFile.handle.sync := by
  intro f fs h hleaf
  cases f with
  | node f =>
    simp only [MemFile.handle, MemFile.dispatch, NodeFile.sync]
    split
    · exact syncKeeps h hleaf rfl f.data
    · exact ⟨h, refl_of MemFs.SameKinds _, hleaf⟩
  | dir f => exact ⟨h, refl_of MemFs.SameKinds _, trivial⟩

theorem handleKeeps_close : HandleKeeps MemFile.handle.close := by
  intro f fs h hleaf
  cases f with
  | node f =>
    simp only [MemFile.handle, MemFile.dispatch, NodeFile.close, NodeFile.sync]
    split
    · exact ⟨h, refl_of MemFs.SameKinds _, hleaf⟩
    · split
      · exact syncKeeps h hleaf rfl f.data
      · exact ⟨h, refl_of MemFs.SameKinds _, hleaf⟩
  | dir f => exact ⟨h, refl_of MemFs.SameKinds _, trivial⟩

def MetaStep (w : MemWorld) (op : MetaOp) : Prop := w.fs.metaStepOk op = true

instance (w : MemWorld) (op : MetaOp) : Decidable (MetaStep w op) := inferInstanceAs (Decidable (_ = true))

theorem step_metaInv (op : MetaOp) (h : w.MetaInv) (hok : MetaStep w op) : (w.metaStep op).MetaInv := by
  unfold MetaStep MemFs.metaStepOk at hok
  cases op with
  | chown name uid gid =>
    refine h.onPath (h.fs.chown name uid gid) (MemFs.sameKinds_of_preserves ?_)
    exact preserves_bind (MemFs.preserves_nodeOr _ _ _) fun id => preserves_modify fun fs => MemFs.kinds_updateNode rfl
  | call op =>
    simp only [Bool.and_eq_true] at hok
    obtain ⟨htree, hok⟩ := hok
    cases op with
    | open_ ctx name =>
      have hstate : (MemFs.open_ ctx name w.fs).2 = w.fs := h.fs.recorded.openAt_state _ ctx name
      refine h.opening ?_ ?_ fun f hf => ?_
      · rw [hstate]
        exact h.fs
      · exact MemFs.sameKinds_of_preserves (MemFs.preserves_kinds_of_shape (MemFs.preserves_open ctx name))
      · rw [hstate]
        exact MemFs.openAt_onLeaf h.fs.recorded _ ctx hf
    | create name => exact h.opening (h.fs.create htree) (MemFs.sameKinds_create name) fun f hf => MemFs.create_onLeaf hf
    | mkdir name perm =>
      refine h.onPath (h.fs.mkdir htree ?_) (MemFs.sameKinds_mkdir name perm)
      simpa [or_assoc] using hok
    | remove name => exact h.onPath (h.fs.remove htree) (MemFs.sameKinds_remove name)
    | rename old new =>
      refine h.onPath (h.fs.rename htree fun hp => ?_) (MemFs.sameKinds_rename old new)
      simpa [hp] using hok
    | link old new =>
      refine h.onPath (h.fs.link htree fun hp => ?_) (MemFs.sameKinds_link old new)
      simpa [hp] using hok
    | symlink old new => exact h.onPath (h.fs.symlink htree) (MemFs.sameKinds_symlink old new)
    | chmod name mode => exact h.onPath (h.fs.chmod name mode) (MemFs.sameKinds_of_preserves (MemFs.chmod_kinds name mode))
    | truncate name size =>
      refine h.onPath (h.fs.truncate ?_) (MemFs.sameKinds_of_preserves (MemFs.truncate_kinds name size))
      simpa using hok
    | write file data => exact h.onFile (handleKeeps_write data) file
    | writeAt file data offset => exact h.onFile (handleKeeps_writeAt data offset) file
    | sync file => exact h.onFile handleKeeps_sync file
    | close file => exact h.onFile handleKeeps_close file

theorem init_metaInv (clock : Nat → SystemTime) : (init clock).MetaInv := by
  have hroot : ∀ {q : String} {i : NodeId}, (init clock).fs.nodes[q]? = some i → q = "." := by
    intro q i hq
    simp only [init, MemFs.new, Std.ExtTreeMap.getElem?_insert, Std.LawfulEqCmp.compare_eq_iff_eq] at hq
    split at hq
    · rename_i heq
      exact heq.symm
    · simp at hq
  have hkind : (NodeInner.dir "." (FileMode.dir ||| FileMode.fromPerm 0o755)).metadata.isDir = true := by decide
  have hcount : (init clock).fs.childCount "." = 0 := by
    have hkeys : ((∅ : Std.ExtTreeMap String NodeId).insert "." 0).keys = ["."] := by decide
    change ((∅ : Std.ExtTreeMap String NodeId).insert "." 0).keys.countP (MemFs.isChildOf ".") = 0
    rw [hkeys]
    rfl
  refine ⟨⟨⟨init_treeInv clock, ?_, ?_, ?_, ?_⟩, ?_⟩, List.forall_mem_nil _⟩
  · intro p id _ hleaf
    rw [show (init clock).fs.heap id = NodeInner.dir "." (FileMode.dir ||| FileMode.fromPerm 0o755) from rfl, hkind] at hleaf
    cases hleaf
  · intro p id _ _
    refine ⟨rfl, ?_⟩
    change (NodeInner.dir "." (FileMode.dir ||| FileMode.fromPerm 0o755)).metadata.mode.isSymlink = false
    decide
  · intro p q id hp hq _
    rw [hroot hp, hroot hq]
  · intro p id hp hdot
    exact absurd (hroot hp) hdot
  · intro d id hd _
    rw [hroot hd, hcount]
    rfl

/-- The recorded metadata is coherent in every state of a run whose steps leave the names of nodes alone. -/
theorem run_coherent (clock : Nat → SystemTime) (ops : List MetaOp) (h : StepsMeet metaStep MetaStep (init clock) ops) (k : Nat) :
    (run metaStep (init clock) (ops.take k)).fs.Coherent :=
  (run_invariant (I := MetaInv) (fun _ op hw hok => step_metaInv op hw hok) (init_metaInv clock) (h.take k)).fs.coherent

/-- A file is written and linked to a name of the same last part, its directory is opened, and it is removed. -/
def metaRun : List MetaOp :=
  [.call (.mkdir "a" (FileMode.fromPerm 0o755)), .call (.create "a/b"), .call (.write 0 [104, 105]), .call (.close 0),
   .call (.link "a/b" "b"), .call (.open_ FsContext.new "b"), .call (.symlink "b" "a/l"), .call (.mkdir "d" (FileMode.fromPerm 0o700)),
   .call (.rename "a/l" "d/l"), .call (.truncate "b" 1), .chown "a/b" 7 7, .call (.remove "a/b")]

theorem run_coherent_metaRun :
    StepsMeet metaStep MetaStep (init fun _ => 0) metaRun ∧ (run metaStep (init fun _ => 0) (metaRun.take 12)).fs.Coherent := by
  have h : StepsMeet metaStep MetaStep (init fun _ => 0) metaRun := by decide +kernel
  exact ⟨h, run_coherent _ _ h 12⟩

/-- The paths of the call are valid, and their parents are directories. -/
def CallsWithin (w : MemWorld) (op : MetaOp) : Prop :=
  ∀ p ∈ op.paths, validPath p = true ∧ w.fs.isDirNode (parentPath p) = true

instance (w : MemWorld) (op : MetaOp) : Decidable (CallsWithin w op) := inferInstanceAs (Decidable (∀ p ∈ _, _))

/-- A file `a` that is renamed to `b` is listed as `b`, and `lstat` of `b` still says `a`. -/
theorem rename_leaves_name :
    ¬ ∀ (clock : Nat → SystemTime) (ops : List MetaOp), StepsMeet metaStep CallsWithin (init clock) ops →
      (run metaStep (init clock) ops).fs.Coherent := by
  intro hall
  have hsteps : StepsMeet metaStep CallsWithin (init fun _ => 0) [.call (.create "a"), .call (.rename "a" "b")] := by
    decide +kernel
  have hlist : (MemFs.readDir FsContext.new "."
      (run metaStep (init fun _ => 0) [.call (.create "a"), .call (.rename "a" "b")]).fs).1 =
      .ok [{ name := "b", metadata := { Metadata.file "b" 0o644 0 with mode := FileMode.fromPerm 0o644 } }] := by
    decide +kernel
  obtain ⟨d, hd, hlstat⟩ := (hall (fun _ => 0) _ hsteps).listed FsContext.new "." _ hlist
  have hroot : d = "." := hd (by decide +kernel)
  have hb := hlstat _ List.mem_cons_self
  rw [hroot] at hb
  have hother : (memFs.freeLstat (childPath "." "b")
      (run metaStep (init fun _ => 0) [.call (.create "a"), .call (.rename "a" "b")]).fs).1 =
      .ok { Metadata.file "a" 0o644 0 with mode := FileMode.fromPerm 0o644 } := by
    decide +kernel
  rw [hother] at hb
  exact absurd hb (by decide)

end MemWorld

end Star9
