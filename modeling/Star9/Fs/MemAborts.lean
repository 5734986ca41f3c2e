import Star9.Base.Aborts
import Star9.Fs.MemHandle
import Star9.Fs.MemLinks

/-!
# Calls on the in-memory file system that never return

A call aborts when it follows a chain of symlinks that comes back to a name, and when
it grows a byte vector past the largest allocation. For every operation on a path
the condition is stated on the state before the call.
-/
namespace Star9
open Base Prog

namespace MemFs

section
variable (fs : MemFs)

/-- The symlinks at a name lead back to a name. -/
def Loops (ctx : FsContext) (name : String) : Prop :=
  validPath name = true ∧ Returning (fs.nextLink ctx) name

/-- The same for a helper, which puts the path into its context. -/
def LoopsFrom (path : String) : Prop := fs.Loops (FsContext.new.withOrigin path "stat") path

/-- The check of the parent that the operations on a new name begin with. -/
def ParentLoops (name : String) : Prop := parentPath name ≠ "." ∧ fs.LoopsFrom (parentPath name)

/-- Opening a file for the server: the open itself, or the `create` behind it. -/
def OpenLoops (name : String) (flags : OpenFlags) : Prop :=
  fs.Loops FsContext.new name ∨ (flags.isWrite = true ∧ fs.openReplaces name flags = true ∧ fs.ParentLoops (cleanPath name))

/-- The length that a node cannot be truncated to. -/
def TruncateFails (name : String) (size : UInt64) : Prop :=
  ∃ id, fs.nodes[cleanPath name]? = some id ∧ resizeFails (fs.heap id).data size.toNat = true

end

variable {fs fs' : MemFs} {ctx ctx' : FsContext} {name : String}

/-! ## Chains of symlinks -/

/-- As many steps as there are nodes show that a chain comes back. -/
theorem follow_isSome_iff : (follow (fs.nextLink ctx) name (fs.nodes.size + 1)).isSome ↔ Returning (fs.nextLink ctx) name := by
  constructor
  · intro h
    refine @returning_of_isSome _ _ _ fs.nodes.keys (fun q => nextLink_isSome) ?_
    rw [Std.ExtTreeMap.length_keys]
    exact h
  · intro h
    exact h.isSome _

instance decidableLoops (fs : MemFs) (ctx : FsContext) (name : String) : Decidable (fs.Loops ctx name) :=
  decidable_of_iff (validPath name = true ∧ (follow (fs.nextLink ctx) name (fs.nodes.size + 1)).isSome)
    (and_congr_right fun _ => follow_isSome_iff)

instance decidableLoopsFrom (fs : MemFs) (path : String) : Decidable (fs.LoopsFrom path) :=
  inferInstanceAs (Decidable (fs.Loops _ path))

instance decidableParentLoops (fs : MemFs) (name : String) : Decidable (fs.ParentLoops name) :=
  inferInstanceAs (Decidable (parentPath name ≠ "." ∧ fs.LoopsFrom (parentPath name)))

instance decidableOpenLoops (fs : MemFs) (name : String) (flags : OpenFlags) : Decidable (fs.OpenLoops name flags) :=
  inferInstanceAs (Decidable (_ ∨ (_ ∧ _ ∧ _)))

/-- Only the nodes that are symlinks, and what the context follows, decide. -/
theorem loops_congr (hlink : ∀ q, fs'.linkText q = fs.linkText q) (hfollow : ctx'.followSymlinks = ctx.followSymlinks)
    (hpath : ctx'.filepath = ctx.filepath) : fs'.Loops ctx' name ↔ fs.Loops ctx name := by
  have hnext : fs'.nextLink ctx' = fs.nextLink ctx := by
    funext q
    unfold nextLink
    rw [hlink, hfollow, show resolveSymlink ctx' q = resolveSymlink ctx q from by
      funext target
      unfold resolveSymlink
      rw [hpath]]
  unfold Loops
  rw [hnext]

theorem linkText_of_shape (h : fs'.shape = fs.shape) (q : String) : fs'.linkText q = fs.linkText q := by
  have hnodes : fs'.nodes = fs.nodes := congrArg Shape.nodes h
  have hcore : ∀ i, (fs'.heap i).core = (fs.heap i).core := congrFun (congrArg Shape.core h)
  unfold linkText
  rw [hnodes]
  cases fs.nodes[q]? with
  | none => rfl
  | some id =>
    have hmode : (fs'.heap id).metadata.mode = (fs.heap id).metadata.mode := congrArg NodeCore.mode (hcore id)
    have hdata : (fs'.heap id).data = (fs.heap id).data := congrArg NodeCore.data (hcore id)
    simp only [hmode, hdata]

theorem loops_of_shape (h : fs'.shape = fs.shape) : fs'.Loops ctx name ↔ fs.Loops ctx name :=
  loops_congr (linkText_of_shape h) rfl rfl

/-- A name that is not a symlink stays where it is. -/
theorem not_loops_of_linkText (h : fs.linkText name = none) : ¬ fs.Loops ctx name := by
  rintro ⟨-, hret⟩
  have hlong := hret.isSome 1
  rw [follow_succ] at hlong
  unfold nextLink at hlong
  rw [h] at hlong
  split at hlong
  · cases hlong
  · cases hlong

/-- A call that does not follow symlinks does not loop. -/
theorem not_loops_noFollow : ¬ fs.Loops ctx.noFollow name := by
  rintro ⟨-, hret⟩
  cases hret.isSome 1

/-! ## Stat and open -/

theorem aborts_stat : Aborts (stat ctx name) fs ↔ fs.Loops ctx name := by
  by_cases hname : validPath name = true
  · change fs.statAt (fs.nodes.size + 1) ctx name = .abort ↔ _
    rw [statAt_eq_abort_iff hname, follow_isSome_iff, Loops, and_iff_right hname]
  · refine iff_of_false ?_ fun h => hname h.1
    change fs.statAt (fs.nodes.size + 1) ctx name ≠ .abort
    rw [statAt, if_pos (by simp [hname])]
    exact Outcome.err_ne_abort

theorem aborts_open : Aborts (open_ ctx name) fs ↔ fs.Loops ctx name := by
  by_cases hname : validPath name = true
  · change (openAt (fs.nodes.size + 1) ctx name fs).1 = .abort ↔ _
    rw [openAt_eq_abort_iff hname, follow_isSome_iff, Loops, and_iff_right hname]
  · refine iff_of_false ?_ fun h => hname h.1
    change (openAt (fs.nodes.size + 1) ctx name fs).1 ≠ .abort
    rw [openAt, branch_apply, if_pos (by simp [hname])]
    exact Outcome.err_ne_abort

theorem calm_lstat (ctx : FsContext) (name : String) : Calm (memFs.lstat ctx.noFollow name) :=
  fun _ h => not_loops_noFollow (aborts_stat.mp h)

theorem aborts_isDirWith : Aborts (FileSystem.isDirWith stat name) fs ↔ fs.LoopsFrom name :=
  (aborts_bind_calm fun _ => calm_pure _).trans aborts_stat

theorem aborts_existsWith : Aborts (FileSystem.existsWith stat name) fs ↔ fs.LoopsFrom name := by
  refine (aborts_bind_calm fun r => ?_).trans (aborts_attempt.trans aborts_stat)
  cases r with
  | ok _ => exact calm_pure _
  | error _ => exact calm_ite (calm_pure _) (calm_throw _)

theorem aborts_parentExists : Aborts (parentExists name) fs ↔ fs.ParentLoops name :=
  (aborts_guard (calm_pure _)).trans (and_congr_right fun _ => aborts_existsWith)

theorem aborts_parentIsDir : Aborts (parentIsDir name) fs ↔ fs.ParentLoops name := by
  refine (aborts_guard (calm_pure _)).trans (and_congr_right fun _ => ?_)
  refine (aborts_bind_calm fun r => ?_).trans (aborts_attempt.trans aborts_isDirWith)
  cases r <;> exact calm_pure _

end MemFs

theorem aborts_withFile {σ η α : Type} {p : Prog (η × σ) Error α} {f : η} {s : σ} : Aborts (withFile f p) s ↔ Aborts p (f, s) := by
  unfold Aborts withFile
  rcases p (f, s) with ⟨a | e | _, f', s'⟩ <;> simp

namespace MemFile
variable {f : MemFile} {fs : MemFs}

theorem calm_dispatch {α : Type} {pn : Prog (NodeFile × MemFs) Error α} {pd : Prog (DirFile × MemFs) Error α} (hn : Calm pn)
    (hd : Calm pd) : Calm (dispatch pn pd) := by
  rintro ⟨f | f, fs⟩
  · exact hn (f, fs)
  · exact hd (f, fs)

theorem calm_readDir (count : Int) : Calm (handle.readDir count) := by
  refine calm_dispatch (calm_bind (fun _ => Outcome.ok_ne_abort) fun _ => calm_throw _) ?_
  rintro ⟨f, fs⟩
  unfold Aborts DirFile.readDir
  dsimp only
  split
  · exact Outcome.ok_ne_abort
  · split
    · exact Outcome.ok_ne_abort
    · exact Outcome.ok_ne_abort

theorem calm_sync : Calm handle.sync := by
  refine calm_dispatch ?_ (calm_throw _)
  rintro ⟨f, fs⟩
  unfold Aborts NodeFile.sync
  dsimp only
  split
  · exact Outcome.ok_ne_abort
  · exact Outcome.ok_ne_abort

theorem calm_close : Calm handle.close := by
  rintro s h
  have hret := close_returned s.1 s.2
  rw [show (handle.close (s.1, s.2)).1 = .abort from h] at hret
  cases hret

theorem calm_seek (pos : SeekFrom) : Calm (handle.seek pos) := by
  refine calm_dispatch ?_ (calm_throw _)
  rintro ⟨f, fs⟩
  unfold Aborts NodeFile.seek
  cases pos <;> dsimp only <;> split <;> simp

theorem calm_readAt (len : Nat) (offset : UInt64) : Calm (handle.readAt len offset) := by
  refine calm_dispatch ?_ (calm_bind (calm_throw _) fun _ => calm_bind (fun _ => Outcome.ok_ne_abort) fun _ => calm_throw _)
  rintro ⟨f, fs⟩
  unfold Aborts NodeFile.readAt
  dsimp only
  split
  · exact Outcome.err_ne_abort
  · exact Outcome.ok_ne_abort

end MemFile

namespace NodeFile

/-- A write grows the data of the handle to its end. -/
def WriteFails (f : NodeFile) (offset : UInt64) (len : Nat) : Prop :=
  f.closed = false ∧ f.metadata.mode.isDir = false ∧ resizeFails f.data (min (offset.toNat + len) (2 ^ 64 - 1)) = true

instance decidableWriteFails (f : NodeFile) (offset : UInt64) (len : Nat) : Decidable (f.WriteFails offset len) :=
  inferInstanceAs (Decidable (_ ∧ _ ∧ _))

theorem aborts_writeAt {f : NodeFile} {fs : MemFs} {data : Bytes} {offset : UInt64} :
    Aborts (writeAt data offset) (f, fs) ↔ f.WriteFails offset data.length := by
  have hoffset := offset.toNat_lt
  unfold Aborts writeAt write WriteFails
  dsimp only
  cases hclosed : f.closed with
  | true => simp
  | false =>
    cases hdir : f.metadata.mode.isDir with
    | true => simp
    | false =>
      rw [if_neg Bool.false_ne_true, if_neg Bool.false_ne_true]
      simp only [true_and, resizeFails, Bool.and_eq_true, decide_eq_true_eq]
      have hgrown : ∀ n, (if f.data.length < n then resize f.data n else f.data).length = max f.data.length n := by
        intro n
        split
        · simp [resize]
          omega
        · omega
      rw [hgrown]
      -- The first resize to the offset fails only if the one to the end would.
      by_cases hstart : f.data.length < offset.toNat ∧ isizeMax < offset.toNat
      · rw [if_pos hstart]
        exact iff_of_true rfl (by omega)
      · rw [if_neg hstart]
        split
        · exact iff_of_true rfl (by omega)
        · exact iff_of_false Outcome.ok_ne_abort (by omega)

end NodeFile

/-- A handle that a write would grow past the largest allocation. -/
def MemFile.WriteFails : MemFile → UInt64 → Nat → Prop
  | .node f, offset, len => f.WriteFails offset len
  | .dir _, _, _ => False

instance MemFile.decidableWriteFails : ∀ (f : MemFile) (offset : UInt64) (len : Nat), Decidable (f.WriteFails offset len)
  | .node f, offset, len => inferInstanceAs (Decidable (f.WriteFails offset len))
  | .dir _, _, _ => inferInstanceAs (Decidable False)

theorem MemFile.aborts_writeAt {f : MemFile} {fs : MemFs} {data : Bytes} {offset : UInt64} :
    Aborts (handle.writeAt data offset) (f, fs) ↔ f.WriteFails offset data.length := by
  cases f with
  | node f => exact NodeFile.aborts_writeAt
  | dir f => exact iff_of_false Outcome.err_ne_abort not_false

namespace MemFs
variable {fs fs' : MemFs} {ctx : FsContext} {name : String}

/-! ## Operations on paths -/

theorem aborts_readDir : Aborts (readDir FsContext.new name) fs ↔ fs.LoopsFrom name := by
  refine (aborts_bind_calm fun f => ?_).trans (aborts_open.trans (loops_congr (fun _ => rfl) rfl rfl))
  refine calm_bind (fun s h => MemFile.calm_readDir _ _ (aborts_withFile.mp h)) fun r => ?_
  exact calm_bind (calm_ofExcept _) fun _ => calm_pure _

theorem aborts_isEmptyWith : Aborts (FileSystem.isEmptyWith readDir name) fs ↔ fs.LoopsFrom name := by
  refine (aborts_bind_calm fun _ => calm_pure _).trans ?_
  refine (aborts_bind_calm fun f => ?_).trans (aborts_open.trans (loops_congr (fun _ => rfl) rfl rfl))
  refine calm_bind (fun s h => MemFile.calm_readDir _ _ (aborts_withFile.mp h)) fun r => ?_
  exact calm_bind (calm_ofExcept _) fun _ => calm_pure _

/-- The listing is only asked for where the stat has come to an end. -/
theorem aborts_isNonEmptyDir : Aborts (isNonEmptyDir name) fs ↔ fs.LoopsFrom name := by
  have hstate := preserves_isDirWith id name fs
  unfold isNonEmptyDir
  rw [aborts_bind, aborts_isDirWith, or_iff_left_iff_imp]
  rintro ⟨b, s₁, hdir, habort⟩
  rw [hdir] at hstate
  change s₁ = fs at hstate
  subst hstate
  rw [aborts_ite] at habort
  rcases habort with ⟨-, habort⟩ | ⟨-, habort⟩
  · exact aborts_isEmptyWith.mp ((aborts_bind_calm fun _ => calm_pure _).mp habort)
  · exact absurd habort (calm_pure _ _)

theorem aborts_create : Aborts (create name) fs ↔ fs.ParentLoops (cleanPath name) := by
  rw [create, cleanPath_valid, Bool.not_true, if_neg Bool.false_ne_true]
  refine (aborts_bind_calm fun b => calm_ite (calm_throw _) ?_).trans aborts_parentExists
  exact calm_bind calm_get fun _ => calm_bind (calm_modify _) fun _ => calm_bind (calm_modify _) fun _ =>
    calm_bind calm_get fun _ => calm_pure _

theorem aborts_mkdir {perm : FileMode} :
    Aborts (mkdir name perm) fs ↔ fs.nodes[cleanPath name]? = none ∧ fs.ParentLoops (cleanPath name) := by
  rw [mkdir, cleanPath_valid, Bool.not_true, if_neg Bool.false_ne_true, aborts_get_bind, aborts_guard (calm_throw _)]
  refine and_congr Option.not_isSome_iff_eq_none ?_
  refine (aborts_bind_calm fun b => calm_ite (calm_throw _) ?_).trans aborts_parentExists
  exact calm_bind (calm_modify _) fun _ => calm_modify _

theorem aborts_symlink {old : String} : Aborts (symlink old name) fs ↔ fs.ParentLoops (cleanPath name) := by
  rw [symlink, cleanPath_valid, Bool.not_true, if_neg Bool.false_ne_true]
  refine (aborts_bind_calm fun b => calm_ite (calm_throw _) ?_).trans aborts_parentExists
  exact calm_bind (calm_modify _) fun _ => calm_modify _

theorem aborts_link {old : String} :
    Aborts (link old name) fs ↔ fs.nodes[cleanPath name]? = none ∧ fs.ParentLoops (cleanPath name) := by
  rw [link, cleanPath_valid, cleanPath_valid, Bool.not_true, Bool.or_self, if_neg Bool.false_ne_true, aborts_get_bind,
    aborts_guard (calm_throw _)]
  refine and_congr Option.not_isSome_iff_eq_none ?_
  refine (aborts_bind_calm fun b => calm_ite (calm_throw _) ?_).trans aborts_parentIsDir
  refine calm_bind calm_get fun _ => calm_bind (calm_ofOption _ _) fun _ => calm_ite (calm_throw _) ?_
  exact calm_bind (calm_modify _) fun _ => calm_modify _

theorem aborts_rename {old : String} :
    Aborts (rename old name) fs ↔ cleanPath old ≠ cleanPath name ∧ fs.ParentLoops (cleanPath name) := by
  rw [rename, cleanPath_valid, cleanPath_valid, Bool.not_true, Bool.or_self, if_neg Bool.false_ne_true, aborts_guard (calm_pure _)]
  refine and_congr_right fun _ => ?_
  refine (aborts_bind_calm fun b => calm_ite (calm_throw _) ?_).trans aborts_parentIsDir
  refine calm_bind calm_get fun _ => calm_bind (calm_ofOption _ _) fun _ => calm_ite (calm_throw _) ?_
  exact calm_ite (calm_bind (calm_modify _) fun _ => calm_modify _) (calm_bind (calm_modify _) fun _ => calm_modify _)

theorem aborts_remove : Aborts (remove name) fs ↔
    cleanPath name ≠ "." ∧ fs.nodes[cleanPath name]?.isSome = true ∧ fs.LoopsFrom (cleanPath name) := by
  rw [remove, aborts_guard (calm_throw _), aborts_get_bind, aborts_guard (calm_throw _)]
  refine and_congr_right fun _ => and_congr ?_ ?_
  · rw [Option.isNone_iff_eq_none, ← ne_eq, Option.isSome_iff_ne_none]
  · refine (aborts_bind_calm fun b => calm_ite (calm_throw _) ?_).trans aborts_isNonEmptyDir
    exact calm_bind (calm_modify _) fun _ => calm_modify _

theorem calm_nodeOr (op name : String) : Calm (nodeOr op name) := calm_bind calm_get fun _ => calm_ofOption _ _

theorem calm_chmod (name : String) (mode : FileMode) : Calm (chmod name mode) :=
  calm_bind (calm_nodeOr _ _) fun _ => calm_bind calm_get fun _ => calm_modify _

theorem calm_chown (name : String) (uid gid : UInt32) : Calm (chown name uid gid) :=
  calm_bind (calm_nodeOr _ _) fun _ => calm_modify _

theorem calm_chtimes (name : String) (mtime : SystemTime) : Calm (chtimes name mtime) :=
  calm_bind (calm_nodeOr _ _) fun _ => calm_modify _

theorem calm_readlink (name : String) : Calm (readlink name) :=
  calm_bind (calm_nodeOr _ _) fun _ => calm_bind calm_get fun _ => calm_ite (calm_throw _) (calm_pure _)

theorem calm_setXattr (name attr : String) (data : Bytes) : Calm (setXattr name attr data) :=
  calm_bind (calm_nodeOr _ _) fun _ => calm_modify _

theorem calm_getXattr (name attr : String) : Calm (getXattr name attr) :=
  calm_bind (calm_nodeOr _ _) fun _ => calm_bind calm_get fun _ => calm_ofOption _ _

theorem calm_listXattrs (name : String) : Calm (listXattrs name) :=
  calm_bind (calm_nodeOr _ _) fun _ => calm_bind calm_get fun _ => calm_pure _

theorem aborts_truncate {size : UInt64} : Aborts (truncate name size) fs ↔ fs.TruncateFails name size := by
  rw [truncate, nodeOr, bind_assoc, aborts_get_bind, aborts_ofOption_bind]
  refine exists_congr fun id => and_congr_right fun _ => ?_
  rw [aborts_get_bind, aborts_ite]
  constructor
  · rintro (⟨hfails, -⟩ | ⟨-, habort⟩)
    · exact hfails
    · exact absurd habort (calm_modify _ _)
  · intro hfails
    exact Or.inl ⟨hfails, rfl⟩

/-! ## Opening for writing -/

/-- A change of permissions keeps every symlink. -/
theorem linkText_chmod (mode : FileMode) (q : String) : (chmod name mode fs).2.linkText q = fs.linkText q := by
  unfold chmod nodeOr
  rw [bind_assoc, get_bind]
  cases fs.nodes[cleanPath name]? with
  | none => rfl
  | some id =>
    change (fs.updateNode id (NodeInner.setMode _)).linkText q = _
    unfold linkText
    rw [updateNode_nodes, updateNode_heap]
    cases fs.nodes[q]? with
    | none => rfl
    | some j =>
      by_cases hj : j = id
      · subst hj
        simp [Function.update_self, NodeInner.setMode]
      · simp [Function.update_of_ne hj]

/-- The end of `open_file` opens the name once more, behind a change of its mode. -/
theorem aborts_openTail {f : MemFile} (hf : f.settled = true) {flags : OpenFlags} {perm : FileMode} (hloop : ¬ fs.Loops FsContext.new name) :
    ¬ Aborts (FileSystem.openWithPerm open_ chmod MemFile.handle name perm f >>= FileSystem.openAppending MemFile.handle flags) fs := by
  have happ : ∀ g, Calm (FileSystem.openAppending MemFile.handle flags g) := fun g =>
    calm_ite (calm_bind (fun s h => MemFile.calm_seek _ _ (aborts_withFile.mp h)) fun r =>
      calm_bind (calm_ofExcept _) fun _ => calm_pure _) (calm_pure _)
  obtain ⟨r, hclose⟩ := MemFile.withFile_close_of_settled hf fs
  have hchmod : Calm (FileSystem.chmodSupported chmod name perm) := by
    refine calm_bind (calm_attempt (calm_chmod _ _)) fun r => ?_
    split
    · exact calm_pure _
    · exact calm_pure _
    · exact calm_throw _
  rw [aborts_bind_calm happ, FileSystem.openWithPerm, aborts_ite]
  rintro (⟨-, h⟩ | ⟨-, h⟩)
  · rw [aborts_bind_of_ok hclose, aborts_calm_bind hchmod] at h
    obtain ⟨u, fs₁, hrun, h⟩ := h
    have hstate := chmodSupported_state name perm fs
    rw [hrun] at hstate
    refine hloop ((loops_congr (fun q => ?_) rfl rfl).mp (aborts_open.mp h))
    rw [show fs₁ = (chmod name perm fs).2 from hstate]
    exact linkText_chmod perm q
  · exact calm_pure _ _ h

theorem linkText_created {p : String} {fs₁ : MemFs}
    (h : fs₁.shape = (fs.insertNew p (NodeInner.file (baseName p) [] (FileMode.fromPerm 0o644))).shape) : fs₁.linkText p = none := by
  rw [linkText_of_shape h]
  unfold linkText
  rw [insertNew_get, if_pos rfl]
  simp [insertNew, NodeInner.file]

/-- A file that has just been created is opened without following anything. -/
theorem aborts_openCreated {flags : OpenFlags} {perm : FileMode} :
    Aborts (create name >>= fun f => FileSystem.openWithPerm open_ chmod MemFile.handle name perm f >>=
      FileSystem.openAppending MemFile.handle flags) fs ↔ fs.ParentLoops (cleanPath name) := by
  rw [aborts_bind, aborts_create, or_iff_left_iff_imp]
  rintro ⟨f, fs₁, hcreate, h⟩
  exfalso
  have hset := create_settled name fs f (by rw [hcreate])
  refine aborts_openTail hset (fun hloop => ?_) h
  have hpar : (parentExists (cleanPath name) fs).1 = .ok true := by
    by_contra hno
    have hfail := (create_of_no_parent hno).1
    rw [hcreate] at hfail
    cases hfail
  have hshape : fs₁.shape = (fs.insertNew (cleanPath name)
      (NodeInner.file (baseName (cleanPath name)) [] (FileMode.fromPerm 0o644))).shape := by
    rw [create_of_parent hpar] at hcreate
    rw [← show _ = fs₁ from congrArg Prod.snd hcreate, openNode_state, shape_recomputeDirSizes]
  have hnone := linkText_created hshape
  rw [cleanPath_of_valid hloop.1] at hnone
  exact not_loops_of_linkText hnone hloop

theorem aborts_openFile {flags : OpenFlags} {perm : FileMode} : Aborts (memFs.openFile name flags perm) fs ↔ fs.OpenLoops name flags := by
  have hshape := preserves_open FsContext.new name fs
  have hopen : Aborts (open_ FsContext.new name) fs ↔ fs.Loops FsContext.new name := aborts_open
  cases hwrite : flags.isWrite with
  | false =>
    have hrun : memFs.openFile name flags perm = open_ FsContext.new name := by
      change FileSystem.defaultOpenFile open_ create chmod MemFile.handle name flags perm = _
      rw [FileSystem.defaultOpenFile, hwrite, if_neg Bool.false_ne_true]
    rw [hrun, hopen, OpenLoops, hwrite]
    simp
  | true =>
    have hparent : ∀ {fs₁ : MemFs}, fs₁.shape = fs.shape → (fs₁.ParentLoops (cleanPath name) ↔ fs.ParentLoops (cleanPath name)) :=
      fun h => and_congr_right fun _ => loops_of_shape h
    rw [OpenLoops, and_iff_right hwrite]
    rcases hres : open_ FsContext.new name fs with ⟨f | e | _, fs₁⟩ <;> rw [hres] at hshape
    · have hcalm : ¬ fs.Loops FsContext.new name := by
        rw [← hopen, Aborts, hres]
        exact Outcome.ok_ne_abort
      have hset := open_settled FsContext.new name fs f (by rw [hres])
      have hreplaces : fs.openReplaces name flags = flags.contains .trunc := by
        unfold openReplaces
        rw [hres]
      rw [Aborts, openFile_of_ok hwrite hres, or_iff_right hcalm, hreplaces]
      cases flags.contains .trunc with
      | true => exact (aborts_openCreated.trans (hparent hshape)).trans (and_iff_right rfl).symm
      | false =>
        refine iff_of_false ?_ fun h => Bool.false_ne_true h.1
        exact aborts_openTail hset fun h => hcalm ((loops_of_shape hshape).mp h)
    · have hcalm : ¬ fs.Loops FsContext.new name := by
        rw [← hopen, Aborts, hres]
        exact Outcome.err_ne_abort
      have hreplaces : fs.openReplaces name flags = (flags.contains .create && e.errorKind == .notFound) := by
        unfold openReplaces
        rw [hres]
      rw [Aborts, openFile_of_err hwrite hres, or_iff_right hcalm, hreplaces]
      cases flags.contains .create && e.errorKind == .notFound with
      | true => exact (aborts_openCreated.trans (hparent hshape)).trans (and_iff_right rfl).symm
      | false => exact iff_of_false Outcome.err_ne_abort fun h => Bool.false_ne_true h.1
    · have hloops : fs.Loops FsContext.new name := by
        rw [← hopen, Aborts, hres]
      rw [Aborts, openFile_of_abort hwrite hres]
      exact iff_of_true rfl (Or.inl hloops)

end MemFs
end Star9
