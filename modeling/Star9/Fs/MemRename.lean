import Star9.Fs.MemRun

/-!
# What a rename leaves behind

A rename that goes through should move a subtree: its keys get their new names
and keep their nodes, what stood at the destination is gone, and no other key
or node changes, the recorded sizes of directories apart. The checks of the
source do not compare the destination with the root or with the source, so a
directory may go below itself and any node may take the place of the root.
-/
namespace Star9
open Base Prog

namespace MemFs
variable {fs fs' fs'' : MemFs} {old new : String}

/-! ## Recomputing the sizes of directories -/

/-- Only the recorded sizes of directories differ. -/
structure Resized (fs fs' : MemFs) : Prop where
  nodes : fs'.nodes = fs.nodes
  next : fs'.next = fs.next
  clock : fs'.clock = fs.clock
  ticks : fs'.ticks = fs.ticks
  heap : ∀ i, fs'.heap i = fs.heap i ∨
    (fs.heap i).metadata.isDir = true ∧ ∃ n, fs'.heap i = (fs.heap i).setSize n

theorem Resized.refl (fs : MemFs) : Resized fs fs := ⟨rfl, rfl, rfl, rfl, fun _ => Or.inl rfl⟩

theorem Resized.isDir (h : Resized fs fs') (i : NodeId) :
    (fs'.heap i).metadata.isDir = (fs.heap i).metadata.isDir := by
  rcases h.heap i with hi | ⟨-, n, hi⟩
  · rw [hi]
  · rw [hi]
    rfl

theorem Resized.trans (h : Resized fs fs') (h' : Resized fs' fs'') : Resized fs fs'' := by
  refine ⟨h'.nodes.trans h.nodes, h'.next.trans h.next, h'.clock.trans h.clock, h'.ticks.trans h.ticks, fun i => ?_⟩
  rcases h'.heap i with hi' | ⟨hd', n', hi'⟩
  · rw [hi']
    exact h.heap i
  · rw [h.isDir i] at hd'
    right
    refine ⟨hd', n', ?_⟩
    rw [hi']
    rcases h.heap i with hi | ⟨-, n, hi⟩
    · rw [hi]
    · rw [hi]
      rfl

theorem Resized.recomputeDirSize {dir : String} (hdir : fs.isDirNode dir = true) :
    Resized fs (fs.recomputeDirSize dir) := by
  obtain ⟨id, hid, hd⟩ := isDirNode_iff.mp hdir
  simp only [MemFs.recomputeDirSize, hid]
  refine ⟨rfl, rfl, rfl, rfl, fun i => ?_⟩
  rw [updateNode_heap]
  by_cases hi : i = id
  · subst hi
    rw [Function.update_self]
    exact Or.inr ⟨hd, _, rfl⟩
  · rw [Function.update_of_ne hi]
    exact Or.inl rfl

theorem Resized.isDirNode (h : Resized fs fs') (p : String) : fs'.isDirNode p = fs.isDirNode p := by
  rw [Bool.eq_iff_iff, isDirNode_iff, isDirNode_iff, h.nodes]
  simp only [h.isDir]

theorem Resized.foldl (dirs : List String) (hdirs : ∀ dir ∈ dirs, fs.isDirNode dir = true) :
    Resized fs (dirs.foldl MemFs.recomputeDirSize fs) := by
  induction dirs generalizing fs with
  | nil => exact Resized.refl fs
  | cons dir dirs ih =>
    have hstep := Resized.recomputeDirSize (hdirs dir List.mem_cons_self)
    rw [List.foldl_cons]
    refine hstep.trans (ih fun d hd => ?_)
    rw [hstep.isDirNode]
    exact hdirs d (List.mem_cons_of_mem _ hd)

theorem mem_dirKeys {dir : String} : dir ∈ fs.dirKeys ↔ fs.isDirNode dir = true := by
  simp only [dirKeys, List.mem_map, List.mem_filter, Prod.exists, exists_and_right, exists_eq_right,
    Std.ExtTreeMap.mem_toList_iff_getElem?_eq_some, isDirNode_iff]

theorem resized_recomputeDirSizes (fs : MemFs) : Resized fs fs.recomputeDirSizes :=
  Resized.foldl _ fun _ => mem_dirKeys.mp

/-! ## The subtree moves -/

/-- The subtree at `old` stands at `new` with its own nodes, and the rest is as before. -/
structure Moved (old new : String) (fs fs' : MemFs) : Prop where
  vacant : fs.someBelow new = false
  valid : ∀ q ∈ fs'.nodes, validPath q = true
  keys : ∀ q : String, validPath q = true → fs'.nodes[q]? =
    if within new q = true then fs.nodes[rebase new old q]?
    else if within old q = true then none else fs.nodes[q]?
  rest : Resized { fs with nodes := fs'.nodes } fs'

/-- What `rename` should do: move the subtree of an existing node to a place that
is neither the root nor inside it, or refuse and leave the state alone. -/
structure RenameSpec (fs : MemFs) (old new : String) : Prop where
  moved : (rename old new fs).1 = .ok () → old ≠ new →
    old ∈ fs.nodes ∧ new ≠ "." ∧ within old new = false ∧ Moved old new fs (rename old new fs).2
  refused : ∀ e, (rename old new fs).1 = .err e → (rename old new fs).2 = fs

/-- One file moves as the subtree it is. -/
theorem moveNode_get_of_leaf {id : NodeId} (hid : fs.nodes[old]? = some id)
    (hvold : validPath old = true) (hleaf : fs.someBelow old = false) (hvacant : fs.someBelow new = false)
    {q : String} (hq : validPath q = true) :
    (fs.moveNode old new id).nodes[q]? =
      if within new q = true then fs.nodes[rebase new old q]?
      else if within old q = true then none else fs.nodes[q]? := by
  have hnone : ∀ {p r : String}, fs.someBelow p = false → below p r = true → fs.nodes[r]? = none := by
    intro p r hp hpr
    by_contra hne
    obtain ⟨i, hi⟩ := Option.ne_none_iff_exists'.mp hne
    rw [someBelow_iff.mpr ⟨r, mem_nodes_iff.mpr ⟨i, hi⟩, hpr⟩] at hp
    cases hp
  rw [moveNode_get]
  by_cases hnew : new = q
  · subst hnew
    rw [if_pos rfl, if_pos (within_iff_below.mpr (Or.inl rfl)), rebase_self, hid]
  · rw [if_neg hnew]
    by_cases hw : within new q = true
    · -- nothing stood below either end
      have hb : below new q = true := (within_iff_below.mp hw).resolve_left (Ne.symm hnew)
      rw [if_pos hw, hnone hleaf (below_rebase hvold hq hb), hnone hvacant hb]
      split <;> rfl
    · rw [if_neg hw]
      by_cases hold : old = q
      · rw [if_pos hold, if_pos (within_iff_below.mpr (Or.inl hold.symm))]
      · rw [if_neg hold]
        by_cases hwold : within old q = true
        · have hb : below old q = true := (within_iff_below.mp hwold).resolve_left (Ne.symm hold)
          rw [if_pos hwold, hnone hleaf hb]
        · rw [if_neg hwold]

section Tree
variable (h : fs.TreeInv) (hvold : validPath old = true) (hvnew : validPath new = true)

include hvold hvnew in
theorem rename_of_checks (hp : fs.renameProceeds old new = true) {id : NodeId} (hid : fs.nodes[old]? = some id) :
    rename old new fs = (.ok (),
      (if (fs.heap id).metadata.isDir then fs.moveTree old new else fs.moveNode old new id).recomputeDirSizes) := by
  rw [← cleanPath_of_valid hvold, ← cleanPath_of_valid hvnew] at hp
  rw [← cleanPath_of_valid hvold] at hid
  have hrun := rename_of_proceeds hp hid
  rw [cleanPath_of_valid hvold, cleanPath_of_valid hvnew] at hrun
  exact hrun

theorem exists_of_checks (hp : fs.renameProceeds old new = true) : ∃ id, fs.nodes[old]? = some id := by
  simp only [renameProceeds, Bool.and_eq_true] at hp
  exact Option.isSome_iff_exists.mp hp.1.2

include h hvold hvnew

/-- A rename into a place that is neither the root nor inside the subtree moves the subtree. -/
theorem moved_of_checks (hp : fs.renameProceeds old new = true) (hnew : new ≠ ".")
    (hout : within old new = false) : Moved old new fs (rename old new fs).2 := by
  obtain ⟨id, hid⟩ := exists_of_checks hp
  have hocc : fs.renameOccupied new = false := by
    simp only [renameProceeds, Bool.and_eq_true, Bool.not_eq_true'] at hp
    exact hp.2
  have hold : old ≠ "." := by
    intro hdot
    rw [hdot, within_iff_below.mpr (Or.inr (below_dot_iff.mpr hnew))] at hout
    cases hout
  have hvacant := h.someBelow_of_not_occupied hnew hocc
  rw [rename_of_checks hvold hvnew hp hid]
  -- the state before the sizes are recomputed
  generalize hmid : (if (fs.heap id).metadata.isDir then fs.moveTree old new else fs.moveNode old new id) = mid
  have hget : ∀ q : String, validPath q = true → mid.nodes[q]? =
      if within new q = true then fs.nodes[rebase new old q]?
      else if within old q = true then none else fs.nodes[q]? := by
    intro q hq
    rw [← hmid]
    split
    · exact moveTree_get_of_free h.alloc hvold hvnew hold hnew hvacant (mem_nodes_iff.mpr ⟨id, hid⟩) hq
    · rename_i hfile
      have hnotDir : fs.isDirNode old = false := by
        simpa [isDirNode, coreAt, hid, NodeInner.isDir_core] using hfile
      exact moveNode_get_of_leaf hid hvold (h.tree.not_below h.alloc hnotDir) hvacant hq
  have hvalid : mid.Allocated := by
    rw [← hmid]
    split
    · exact h.alloc.moveTree hvnew hold hnew
    · exact h.alloc.moveNode hvnew hid
  have heq : mid = { fs with nodes := mid.nodes } := by
    rw [← hmid]
    split
    · exact moveTree_eq old new
    · rfl
  refine ⟨hvacant, fun q hq => ?_, fun q hq => ?_, ?_⟩
  · rw [recomputeDirSizes_nodes] at hq
    obtain ⟨i, hi⟩ := mem_nodes_iff.mp hq
    exact hvalid.valid hi
  · rw [recomputeDirSizes_nodes]
    exact hget q hq
  · rw [recomputeDirSizes_nodes, ← heq]
    exact resized_recomputeDirSizes mid

/-- `rename` does what it should exactly when its checks refuse every destination
that is the root or inside the source. -/
theorem rename_spec_iff :
    fs.RenameSpec old new ↔ (fs.renameProceeds old new = true → new ≠ "." ∧ within old new = false) := by
  have hcold := cleanPath_of_valid hvold
  have hcnew := cleanPath_of_valid hvnew
  constructor
  · intro hspec hp
    obtain ⟨id, hid⟩ := exists_of_checks hp
    have hok := congrArg Prod.fst (rename_of_checks hvold hvnew hp hid)
    have hne : old ≠ new := by
      simp only [renameProceeds, Bool.and_eq_true, bne_iff_ne] at hp
      exact hp.1.1.1
    obtain ⟨-, hnew, hout, -⟩ := hspec.moved hok hne
    exact ⟨hnew, hout⟩
  · intro hcond
    refine ⟨fun hok hne => ?_, fun e herr => ?_⟩
    · have hp : fs.renameProceeds (cleanPath old) (cleanPath new) = true := by
        refine proceeds_of_rename_ok (by rwa [hcold, hcnew]) ?_
        rw [hok]
        rfl
      rw [hcold, hcnew] at hp
      obtain ⟨hnew, hout⟩ := hcond hp
      exact ⟨mem_nodes_iff.mpr (exists_of_checks hp), hnew, hout, moved_of_checks h hvold hvnew hp hnew hout⟩
    · refine rename_of_not_proceeds ?_
      rw [hcold, hcnew, Bool.eq_false_iff]
      intro hp
      obtain ⟨id, hid⟩ := exists_of_checks hp
      rw [rename_of_checks hvold hvnew hp hid] at herr
      cases herr

end Tree

/-- A tree with a directory `a` that holds a file, and a file `c`. -/
def smallTree : List MemOp := [.mkdir "a" (FileMode.fromPerm 0o755), .create "a/b", .create "c"]

def smallFs : MemFs := (run MemWorld.step (MemWorld.init fun _ => 0) smallTree).fs

theorem smallFs_treeInv : smallFs.TreeInv := by
  have hsteps : StepsMeet MemWorld.step MemWorld.TreeStep (MemWorld.init fun _ => 0) smallTree := by
    decide +kernel
  exact run_invariant (I := fun w : MemWorld => w.fs.TreeInv)
    (fun _ op hw hok => MemWorld.step_treeInv op hw hok) (MemWorld.init_treeInv _) hsteps

/-- The directory moves to a new name, and the file replaces another one. -/
theorem rename_spec_smallFs :
    smallFs.renameProceeds "a" "d" = true ∧ smallFs.RenameSpec "a" "d" ∧
    smallFs.renameProceeds "a/b" "c" = true ∧ smallFs.RenameSpec "a/b" "c" := by
  refine ⟨?_, ?_, ?_, ?_⟩
  · decide +kernel
  · exact (rename_spec_iff smallFs_treeInv (by decide) (by decide)).mpr fun _ => by decide
  · decide +kernel
  · exact (rename_spec_iff smallFs_treeInv (by decide) (by decide)).mpr fun _ => by decide

/-- The directory `a` moves to `a/d`, below itself. -/
theorem rename_not_spec :
    ¬ ∀ (fs : MemFs) (old new : String), fs.TreeWellFormed → fs.Allocated → validPath old = true →
      validPath new = true → fs.RenameSpec old new := by
  intro hall
  have hspec := hall smallFs "a" "a/d" smallFs_treeInv.tree smallFs_treeInv.alloc (by decide) (by decide)
  have hok : (rename "a" "a/d" smallFs).1 = .ok () := by
    decide +kernel
  obtain ⟨-, -, hout, -⟩ := hspec.moved hok (by decide)
  revert hout
  decide

end MemFs
end Star9
