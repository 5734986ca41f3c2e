import Star9.Base.Run
import Star9.Fs.MemOps

/-!
# Runs of the in-memory file system

A client holds the file system and the handles it was given. A run is any
sequence of operations on paths and on handles, and goes on whatever each
operation returns.
-/
namespace Star9
open Base Prog

inductive MemOp where
  | open_ (ctx : FsContext) (name : String)
  | create (name : String)
  | mkdir (name : String) (perm : FileMode)
  | remove (name : String)
  | rename (old new : String)
  | link (old new : String)
  | symlink (old new : String)
  | chmod (name : String) (mode : FileMode)
  | truncate (name : String) (size : UInt64)
  | write (file : Nat) (data : Bytes)
  | writeAt (file : Nat) (data : Bytes) (offset : UInt64)
  | sync (file : Nat)
  | close (file : Nat)

structure MemWorld where
  fs : MemFs
  files : List MemFile

namespace MemWorld
variable {α : Type}

def init (clock : Nat → SystemTime) : MemWorld := { fs := MemFs.new clock, files := [] }

def onPath (p : Prog MemFs Error α) (w : MemWorld) : MemWorld := { w with fs := (p w.fs).2 }

/-- A handle that the call returns joins the client's handles. -/
def opening (p : Prog MemFs Error MemFile) (w : MemWorld) : MemWorld :=
  { fs := (p w.fs).2, files := w.files ++ (p w.fs).1.toOption.toList }

def onFile (file : Nat) (p : Prog (MemFile × MemFs) Error α) (w : MemWorld) : MemWorld :=
  match w.files[file]? with
  | some f => { fs := (p (f, w.fs)).2.2, files := w.files.set file (p (f, w.fs)).2.1 }
  | none => w

def step (w : MemWorld) : MemOp → MemWorld
  | .open_ ctx name => w.opening (MemFs.open_ ctx name)
  | .create name => w.opening (MemFs.create name)
  | .mkdir name perm => w.onPath (MemFs.mkdir name perm)
  | .remove name => w.onPath (MemFs.remove name)
  | .rename old new => w.onPath (MemFs.rename old new)
  | .link old new => w.onPath (MemFs.link old new)
  | .symlink old new => w.onPath (MemFs.symlink old new)
  | .chmod name mode => w.onPath (MemFs.chmod name mode)
  | .truncate name size => w.onPath (MemFs.truncate name size)
  | .write file data => w.onFile file (MemFile.handle.write data)
  | .writeAt file data offset => w.onFile file (MemFile.handle.writeAt data offset)
  | .sync file => w.onFile file MemFile.handle.sync
  | .close file => w.onFile file MemFile.handle.close

end MemWorld

/-! ## The steps that keep the tree -/

namespace MemFs
variable {fs : MemFs}

/-- `create` and `symlink` replace whatever stands at the path, and check only
that its parent exists. -/
def replaceOk (fs : MemFs) (p : String) : Bool :=
  (parentExists p fs).1 != .ok true || (p != "." && fs.isDirNode (parentPath p) && !fs.someBelow p)

def mkdirOk (fs : MemFs) (p : String) : Bool :=
  fs.nodes[p]?.isSome || (parentExists p fs).1 != .ok true || fs.isDirNode (parentPath p)

/-- The emptiness check of `remove` does not see children with a hidden name. -/
def removeOk (fs : MemFs) (p : String) : Bool :=
  p == "." || !fs.someBelow p || (isNonEmptyDir p fs).1 != .ok false

def renameOk (fs : MemFs) (old new : String) : Bool :=
  !fs.renameProceeds old new ||
    (old != "." && new != "." && !within old new && fs.isDirNode (parentPath new))

def linkOk (fs : MemFs) (old new : String) : Bool :=
  !fs.linkProceeds old new || fs.isDirNode (parentPath new)

/-- The step does not take the branch that loses the tree. -/
def treeStepOk (fs : MemFs) : MemOp → Bool
  | .create name => fs.replaceOk (cleanPath name)
  | .symlink _ new => fs.replaceOk (cleanPath new)
  | .mkdir name _ => fs.mkdirOk (cleanPath name)
  | .remove name => fs.removeOk (cleanPath name)
  | .rename old new => fs.renameOk (cleanPath old) (cleanPath new)
  | .link old new => fs.linkOk (cleanPath old) (cleanPath new)
  | _ => true

/-- The tree invariant together with what its preservation needs. -/
structure TreeInv (fs : MemFs) : Prop where
  tree : fs.TreeWellFormed
  alloc : fs.Allocated

theorem TreeInv.of_shape {fs' : MemFs} (h : fs.TreeInv) (hs : fs'.shape = fs.shape) : fs'.TreeInv :=
  ⟨h.tree.of_shape hs, h.alloc.of_shape hs⟩

theorem TreeInv.of_kinds {fs' : MemFs} (h : fs.TreeInv) (hk : fs'.kinds = fs.kinds) : fs'.TreeInv :=
  ⟨h.tree.of_kinds hk, h.alloc.of_kinds hk⟩

theorem TreeInv.replace (h : fs.TreeInv) {p : String} (hp : validPath p = true) (n : NodeInner)
    (hpar : (parentExists p fs).1 = .ok true) (hok : fs.replaceOk p = true) :
    (fs.insertNew p n).recomputeDirSizes.TreeInv := by
  simp only [replaceOk, hpar, bne_self_eq_false, Bool.false_or, Bool.and_eq_true, bne_iff_ne,
    Bool.not_eq_true'] at hok
  obtain ⟨⟨hdot, hdir⟩, hfree⟩ := hok
  have hinv : (fs.insertNew p n).TreeInv :=
    ⟨h.tree.insertNew h.alloc hp hdot hdir (Or.inr hfree), h.alloc.insertNew hp n⟩
  exact hinv.of_shape shape_recomputeDirSizes

theorem TreeInv.create (h : fs.TreeInv) {name : String} (hok : fs.replaceOk (cleanPath name) = true) :
    (create name fs).2.TreeInv := by
  by_cases hpar : (parentExists (cleanPath name) fs).1 = .ok true
  · rw [create_of_parent hpar, openNode_state]
    exact h.replace (cleanPath_valid _) _ hpar hok
  · rw [(create_of_no_parent hpar).2]
    exact h

theorem TreeInv.symlink (h : fs.TreeInv) {old new : String} (hok : fs.replaceOk (cleanPath new) = true) :
    (symlink old new fs).2.TreeInv := by
  by_cases hpar : (parentExists (cleanPath new) fs).1 = .ok true
  · rw [symlink_of_parent hpar]
    exact h.replace (cleanPath_valid _) _ hpar hok
  · rw [(symlink_of_no_parent hpar).2]
    exact h

theorem TreeInv.mkdir (h : fs.TreeInv) {name : String} {perm : FileMode}
    (hok : fs.mkdirOk (cleanPath name) = true) : (mkdir name perm fs).2.TreeInv := by
  cases hn : fs.nodes[cleanPath name]? with
  | some i =>
    rw [mkdir_of_exists hn]
    exact h
  | none =>
    by_cases hpar : (parentExists (cleanPath name) fs).1 = .ok true
    · rw [mkdir_of_parent hn hpar]
      have hdir : fs.isDirNode (parentPath (cleanPath name)) = true := by
        simpa [mkdirOk, hn, hpar] using hok
      have hdot : cleanPath name ≠ "." := by
        intro hdot
        obtain ⟨i, hi⟩ := mem_nodes_iff.mp (mem_of_isDirNode h.tree.1)
        rw [hdot, hi] at hn
        cases hn
      have hkind : (NodeInner.dir (baseName (cleanPath name)) (FileMode.dir ||| perm)).metadata.isDir = true := by
        simp [NodeInner.dir, Metadata.isDir]
      have hinv : (fs.insertNew (cleanPath name) _).TreeInv :=
        ⟨h.tree.insertNew h.alloc (cleanPath_valid _) hdot hdir (Or.inl hkind),
          h.alloc.insertNew (cleanPath_valid _) _⟩
      exact hinv.of_shape shape_recomputeDirSizes
    · rw [(mkdir_of_no_parent hn hpar).2]
      exact h

theorem TreeInv.remove (h : fs.TreeInv) {name : String} (hok : fs.removeOk (cleanPath name) = true) :
    (remove name fs).2.TreeInv := by
  rcases remove_cases fs name with hs | ⟨hdot, -, hempty, hs⟩
  · exact h.of_shape hs
  · have hfree : fs.someBelow (cleanPath name) = false := by
      simpa [removeOk, hdot, hempty] using hok
    exact TreeInv.of_shape ⟨h.tree.eraseNode h.alloc hdot hfree, h.alloc.eraseNode _⟩ hs

/-- The destination of a rename that goes through has nothing below it. -/
theorem TreeInv.someBelow_of_not_occupied (h : fs.TreeInv) {new : String} (hnew : new ≠ ".")
    (hocc : fs.renameOccupied new = false) : fs.someBelow new = false := by
  cases hd : fs.isDirNode new with
  | false => exact h.tree.not_below h.alloc hd
  | true =>
    obtain ⟨i, hi, hdir⟩ := isDirNode_iff.mp hd
    rw [Bool.eq_false_iff] at hocc ⊢
    intro hb
    obtain ⟨q, hq, hpq⟩ := someBelow_iff.mp hb
    obtain ⟨j, hj⟩ := mem_nodes_iff.mp hq
    refine hocc ?_
    simp only [renameOccupied, hi, hdir, Bool.true_and, List.any_eq_true, Std.ExtTreeMap.mem_keys]
    exact ⟨q, hq, by rw [stripPrefix_slash_isSome hnew (h.alloc.valid hj), hpq]⟩

theorem TreeInv.rename (h : fs.TreeInv) {old new : String}
    (hok : fs.renameOk (cleanPath old) (cleanPath new) = true) : (rename old new fs).2.TreeInv := by
  cases hp : fs.renameProceeds (cleanPath old) (cleanPath new) with
  | false =>
    rw [rename_of_not_proceeds hp]
    exact h
  | true =>
    simp only [renameOk, hp, Bool.not_true, Bool.false_or, Bool.and_eq_true, bne_iff_ne,
      Bool.not_eq_true'] at hok
    obtain ⟨⟨⟨hold, hnew⟩, hout⟩, hdir⟩ := hok
    have hchecks := hp
    simp only [renameProceeds, Bool.and_eq_true, Bool.not_eq_true'] at hchecks
    obtain ⟨⟨-, hsrc⟩, hocc⟩ := hchecks
    obtain ⟨i, hi⟩ := Option.isSome_iff_exists.mp hsrc
    have hfree := h.someBelow_of_not_occupied hnew hocc
    rw [rename_of_proceeds hp hi]
    refine TreeInv.of_shape ?_ shape_recomputeDirSizes
    split
    · exact ⟨h.tree.moveTree h.alloc (cleanPath_valid _) (cleanPath_valid _) hold hnew
          (mem_nodes_iff.mpr ⟨i, hi⟩) hout hfree hdir,
        h.alloc.moveTree (cleanPath_valid _) hold hnew⟩
    · rename_i hfile
      have hnotDir : fs.isDirNode (cleanPath old) = false := by
        simpa [isDirNode, coreAt, hi, NodeInner.isDir_core] using hfile
      exact ⟨h.tree.moveNode h.alloc (cleanPath_valid _) hold hnew hnotDir hfree hdir,
        h.alloc.moveNode (cleanPath_valid _) hi⟩

theorem TreeInv.link (h : fs.TreeInv) {old new : String}
    (hok : fs.linkOk (cleanPath old) (cleanPath new) = true) : (link old new fs).2.TreeInv := by
  cases hp : fs.linkProceeds (cleanPath old) (cleanPath new) with
  | false =>
    rw [(link_of_not_proceeds hp).2]
    exact h
  | true =>
    have hdir : fs.isDirNode (parentPath (cleanPath new)) = true := by simpa [linkOk, hp] using hok
    have hchecks := hp
    simp only [linkProceeds, Bool.and_eq_true, Option.isNone_iff_eq_none] at hchecks
    obtain ⟨⟨⟨hnone, -⟩, hsrc⟩, -⟩ := hchecks
    obtain ⟨i, hi⟩ := Option.isSome_iff_exists.mp hsrc
    have hnotDir : fs.isDirNode (cleanPath new) = false := by simp [isDirNode, coreAt, hnone]
    have hdot : cleanPath new ≠ "." := by
      intro hdot
      rw [hdot, h.tree.1] at hnotDir
      cases hnotDir
    rw [link_of_proceeds hp hi]
    have hinv : (fs.insertNode (cleanPath new) i).TreeInv :=
      ⟨h.tree.insertNode h.alloc (cleanPath_valid _) hdot hdir (h.tree.not_below h.alloc hnotDir),
        h.alloc.insertNode (cleanPath_valid _) hi⟩
    exact hinv.of_shape shape_recomputeDirSizes

end MemFs

/-! Handles write to their own node, and change its contents only. -/

theorem NodeFile.kinds_write (data : Bytes) :
    Preserves (fun s : NodeFile × MemFs => s.2.kinds) (NodeFile.write data) := by
  rintro ⟨f, fs⟩
  unfold NodeFile.write
  dsimp only
  split_ifs <;> rfl

theorem NodeFile.kinds_sync : Preserves (fun s : NodeFile × MemFs => s.2.kinds) NodeFile.sync := by
  rintro ⟨f, fs⟩
  unfold NodeFile.sync
  dsimp only
  split_ifs
  · exact MemFs.kinds_setData _ _
  · rfl

theorem NodeFile.kinds_close : Preserves (fun s : NodeFile × MemFs => s.2.kinds) NodeFile.close := by
  rintro ⟨f, fs⟩
  unfold NodeFile.close
  dsimp only
  split_ifs
  · rfl
  · exact NodeFile.kinds_sync (f, fs)

namespace MemWorld
variable {w : MemWorld}

theorem onFile_kinds {α : Type} {p : Prog (MemFile × MemFs) Error α}
    (hp : Preserves (fun s : MemFile × MemFs => s.2.kinds) p) (file : Nat) :
    (w.onFile file p).fs.kinds = w.fs.kinds := by
  unfold onFile
  cases w.files[file]? with
  | none => rfl
  | some f => exact hp (f, w.fs)

theorem step_treeInv (op : MemOp) (h : w.fs.TreeInv) (hok : w.fs.treeStepOk op = true) :
    (w.step op).fs.TreeInv := by
  cases op with
  | open_ ctx name => exact h.of_shape (MemFs.preserves_open ctx name w.fs)
  | create name => exact h.create hok
  | mkdir name perm => exact h.mkdir hok
  | remove name => exact h.remove hok
  | rename old new => exact h.rename hok
  | link old new => exact h.link hok
  | symlink old new => exact h.symlink hok
  | chmod name mode => exact h.of_kinds (MemFs.chmod_kinds name mode w.fs)
  | truncate name size => exact h.of_kinds (MemFs.truncate_kinds name size w.fs)
  | write file data =>
    exact h.of_kinds (onFile_kinds (MemFile.preserves_dispatch (NodeFile.kinds_write data)
      (preserves_throw _)) file)
  | writeAt file data offset =>
    refine h.of_kinds (onFile_kinds (MemFile.preserves_dispatch ?_ ?_) file)
    · exact fun s => NodeFile.kinds_write data ({ s.1 with offset }, s.2)
    · exact preserves_bind (preserves_throw _) fun _ => preserves_throw _
  | sync file =>
    exact h.of_kinds (onFile_kinds (MemFile.preserves_dispatch NodeFile.kinds_sync
      (preserves_throw _)) file)
  | close file =>
    exact h.of_kinds (onFile_kinds (MemFile.preserves_dispatch NodeFile.kinds_close
      (preserves_pure _)) file)

theorem init_treeInv (clock : Nat → SystemTime) : (init clock).fs.TreeInv := by
  have hget : ∀ q : String, (init clock).fs.nodes[q]? = if "." = q then some 0 else none := by
    intro q
    simp [init, MemFs.new, Std.ExtTreeMap.getElem?_insert]
  have hroot : (init clock).fs.isDirNode "." = true :=
    MemFs.isDirNode_iff.mpr ⟨0, by rw [hget]; rfl, by simp [init, MemFs.new, NodeInner.dir, Metadata.isDir]⟩
  refine ⟨⟨hroot, fun p hp hdot => ?_⟩, ⟨fun {p i} hp => ?_, fun {p i} hp => ?_⟩⟩
  · obtain ⟨i, hi⟩ := MemFs.mem_nodes_iff.mp hp
    rw [hget, if_neg (Ne.symm hdot)] at hi
    cases hi
  · rw [hget] at hp
    split at hp
    · rename_i h
      exact h ▸ rfl
    · cases hp
  · rw [hget] at hp
    split at hp
    · cases hp
      exact Nat.zero_lt_one
    · cases hp

/-- The steps of a run that keep the tree. -/
def TreeStep (w : MemWorld) (op : MemOp) : Prop := w.fs.treeStepOk op = true

instance (w : MemWorld) (op : MemOp) : Decidable (TreeStep w op) :=
  inferInstanceAs (Decidable (_ = true))

/-- In a run whose steps all avoid the branches that lose the tree, every state
that is reached is a tree. -/
theorem run_treeWellFormed (clock : Nat → SystemTime) (ops : List MemOp)
    (h : StepsMeet step TreeStep (init clock) ops) (k : Nat) :
    (run step (init clock) (ops.take k)).fs.TreeWellFormed :=
  (run_invariant (I := fun w : MemWorld => w.fs.TreeInv) (fun _ op hw hok => step_treeInv op hw hok)
    (init_treeInv clock) (h.take k)).tree

def treeRun : List MemOp :=
  [.mkdir "a" (FileMode.fromPerm 0o755), .create "a/b", .write 0 [104, 105], .close 0, .symlink "b" "a/l",
   .link "a/b" "c", .rename "a" "d", .remove "d/b", .truncate "c" 1, .chmod "d" (FileMode.fromPerm 0o700)]

theorem run_treeWellFormed_treeRun :
    StepsMeet step TreeStep (init fun _ => 0) treeRun ∧
    (run step (init fun _ => 0) (treeRun.take 10)).fs.TreeWellFormed := by
  have h : StepsMeet step TreeStep (init fun _ => 0) treeRun := by
    decide +kernel
  exact ⟨h, run_treeWellFormed _ _ h 10⟩

/-- A file is created below a file, which is the parent of no tree. -/
theorem run_not_treeWellFormed :
    ¬ ∀ (clock : Nat → SystemTime) (ops : List MemOp), (run step (init clock) ops).fs.TreeWellFormed := by
  intro h
  have hmem : "a/b" ∈ (run step (init fun _ => 0) [.create "a", .create "a/b"]).fs.nodes := by
    decide +kernel
  have hpar := (h (fun _ => 0) [.create "a", .create "a/b"]).2 "a/b" hmem (by decide)
  have hfile : (run step (init fun _ => 0) [.create "a", .create "a/b"]).fs.isDirNode
      (parentPath "a/b") = false := by
    decide +kernel
  rw [hfile] at hpar
  cases hpar

end MemWorld
end Star9
