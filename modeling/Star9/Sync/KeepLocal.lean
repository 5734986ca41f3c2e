import Star9.Fs.MemRun
import Star9.Fs.MemWrite
import Star9.Sync.Pull

/-!
# Pulls that keep local changes

Under the policy `keepLocal` a pull leaves alone what a dirty mark covers. Some paths
are guarded: at the dirty paths and under them nothing may change, and above them no
directory may go. Every operation of the pull stays away from the guarded paths,
because the pull asks for the dirty paths that overlap its own before it acts.
-/
namespace Star9
open Base Prog

/-- Compared with `fs₀`, nothing changed at the paths of `P`, and the directories at the
paths of `A` are still there. -/
structure Keeps (P A : String → Prop) (fs₀ fs : MemFs) : Prop where
  alloc : fs.Allocated
  same : ∀ q, P q → fs.coreAt q = fs₀.coreAt q
  dirs : ∀ q, A q → fs₀.isDirNode q = true → fs.isDirNode q = true

namespace Keeps
variable {P A : String → Prop} {fs₀ fs fs' : MemFs}

theorem of_shape (h : Keeps P A fs₀ fs) (hs : fs'.shape = fs.shape) : Keeps P A fs₀ fs' where
  alloc := h.alloc.of_shape hs
  same q hq := (MemFs.coreAt_of_shape hs q).trans (h.same q hq)
  dirs q hq hdir := (MemFs.isDirNode_of_coreAt (MemFs.coreAt_of_shape hs q)).trans (h.dirs q hq hdir)

theorem of_frame {touched : String → Prop} (h : Keeps P A fs₀ fs) (hf : MemFs.Frame touched fs fs')
    (ha : fs'.Allocated) (htouched : ∀ q, touched q → ¬ P q ∧ ¬ A q) : Keeps P A fs₀ fs' where
  alloc := ha
  same q hq := ((hf h.alloc.idsBelow).2 q fun ht => (htouched q ht).1 hq).trans (h.same q hq)
  dirs q hq hdir := (MemFs.isDirNode_of_coreAt ((hf h.alloc.idsBelow).2 q fun ht => (htouched q ht).2 hq)).trans
    (h.dirs q hq hdir)

/-- A new node at a path that is not guarded, or at a path of `A` that has no node. -/
theorem insertNew (h : Keeps P A fs₀ fs) {q : String} (hq : validPath q = true) (hP : ¬ P q)
    (hA : A q → fs.nodes[q]? = none) (n : NodeInner) : Keeps P A fs₀ (fs.insertNew q n) := by
  refine ⟨h.alloc.insertNew hq n, fun r hr => ?_, fun r hr hdir => ?_⟩
  · have hne : r ≠ q := fun heq => hP (heq ▸ hr)
    rw [MemFs.coreAt_insertNew h.alloc.idsBelow, if_neg hne]
    exact h.same r hr
  · have hold := h.dirs r hr hdir
    rw [MemFs.isDirNode_insertNew h.alloc]
    split
    · rename_i heq
      obtain ⟨i, hi, -⟩ := MemFs.isDirNode_iff.mp hold
      rw [heq, hA (heq ▸ hr)] at hi
      cases hi
    · exact hold

theorem safe_mkdir {q : String} (hq : validPath q = true) (hP : ¬ P q) (perm : FileMode) :
    Safe (Keeps P A fs₀) (fun _ => True) (MemFs.mkdir q perm) := by
  refine fun fs h => ⟨?_, fun _ _ => trivial⟩
  cases hn : fs.nodes[cleanPath q]? with
  | some i =>
    rw [MemFs.mkdir_of_exists hn]
    exact h
  | none =>
    by_cases hpar : (MemFs.parentExists (cleanPath q) fs).1 = .ok true
    · rw [MemFs.mkdir_of_parent hn hpar]
      rw [cleanPath_of_valid hq] at hn ⊢
      exact (h.insertNew hq hP (fun _ => hn) _).of_shape MemFs.shape_recomputeDirSizes
    · rw [(MemFs.mkdir_of_no_parent hn hpar).2]
      exact h

theorem safe_symlink {q : String} (hq : validPath q = true) (hP : ¬ P q) (hA : ¬ A q) (target : String) :
    Safe (Keeps P A fs₀) (fun _ => True) (MemFs.symlink target q) := by
  refine fun fs h => ⟨?_, fun _ _ => trivial⟩
  by_cases hpar : (MemFs.parentExists (cleanPath q) fs).1 = .ok true
  · rw [MemFs.symlink_of_parent hpar, cleanPath_of_valid hq]
    exact (h.insertNew hq hP (fun ha => absurd ha hA) _).of_shape MemFs.shape_recomputeDirSizes
  · rw [(MemFs.symlink_of_no_parent hpar).2]
    exact h

theorem safe_writeFile {q : String} (hq : validPath q = true) (hP : ¬ P q) (hA : ¬ A q) (data : Bytes)
    (perm : FileMode) : Safe (Keeps P A fs₀) (fun _ => True) (memFs.writeFile q data perm) := by
  refine fun fs h => ⟨?_, fun _ _ => trivial⟩
  rcases MemFs.writeFile_cases hq data perm fs with hs | ⟨n, hs⟩
  · exact h.of_shape hs
  · exact (h.insertNew hq hP (fun ha => absurd ha hA) n).of_shape hs

theorem safe_remove {q : String} (hq : validPath q = true) (hP : ¬ P q) (hA : ¬ A q) :
    Safe (Keeps P A fs₀) (fun _ => True) (MemFs.remove q) := by
  refine fun fs h => ⟨?_, fun _ _ => trivial⟩
  rcases MemFs.remove_cases fs q with hs | ⟨-, -, -, hs⟩
  · exact h.of_shape hs
  · rw [cleanPath_of_valid hq] at hs
    have hframe : MemFs.Frame (fun r => r = q) fs (fs.eraseNode q) := by
      apply MemFs.frame_eraseNode
      rfl
    have herase : Keeps P A fs₀ (fs.eraseNode q) :=
      h.of_frame hframe (h.alloc.eraseNode q) (by rintro r rfl; exact ⟨hP, hA⟩)
    exact herase.of_shape hs

end Keeps

/-! ## One path of a pull -/

/-- An invariant of the local tree that the calls of a pull at a path keep. -/
structure Untouched (I : MemFs → Prop) (path : String) : Prop where
  valid : validPath path = true
  shape : ∀ fs fs' : MemFs, I fs → fs'.shape = fs.shape → I fs'
  alloc : ∀ fs : MemFs, I fs → fs.Allocated
  remove : ∀ q, validPath q = true → within path q = true → Safe I (fun _ => True) (MemFs.remove q)
  mkdir : ∀ q perm, validPath q = true → within q path = true → Safe I (fun _ => True) (MemFs.mkdir q perm)
  symlink : ∀ target, Safe I (fun _ => True) (MemFs.symlink target path)
  writeFile : ∀ data perm, Safe I (fun _ => True) (memFs.writeFile path data perm)

namespace Untouched
variable {I : MemFs → Prop} {path : String} (rounds depth : Nat) (h : Untouched I path)
include h

theorem safe_read {α : Type} {p : Prog MemFs Error α} (hp : Preserves MemFs.shape p) : Safe I (fun _ => True) p :=
  MemFs.safe_of_shape h.shape hp

theorem safe_removeLocalPath : Safe I (fun _ => True) (removeLocalPath memFs depth path) := by
  refine safe_then (h.safe_read (MemFs.preserves_stat _ _ _)) fun metadata => ?_
  refine safe_ite (fun _ => ?_) fun _ => h.remove path h.valid (within_self path)
  exact MemFs.safe_removeAll h.shape h.alloc depth h.valid h.remove

theorem safe_mkdirAll (perm : FileMode) : Safe I (fun _ => True) (memFs.mkdirAll path perm) :=
  MemFs.safe_mkdirAll h.valid fun q hq _ hqp => h.mkdir q perm hq hqp

theorem safe_mkdirAll_parent (perm : FileMode) : Safe I (fun _ => True) (memFs.mkdirAll (parentPath path) perm) := by
  refine MemFs.safe_mkdirAll (parentPath_valid path) fun q hq _ hqp => h.mkdir q perm hq ?_
  exact within_of_within_parentPath h.valid hqp

theorem safe_syncDirHere (mode : FileMode) : Safe I (fun _ => True) (syncDirHere memFs depth path mode) := by
  refine safe_then (h.safe_read (MemFs.preserves_existsWith _ _)) fun b => ?_
  refine safe_ite (fun _ => ?_) fun _ => h.safe_mkdirAll mode
  refine safe_then (h.safe_read (MemFs.preserves_stat _ _ _)) fun metadata => ?_
  refine safe_ite (fun _ => safe_pure trivial) fun _ => ?_
  exact safe_then (h.safe_removeLocalPath depth) fun _ => h.safe_mkdirAll mode

theorem safe_removeIfExists : Safe I (fun _ => True) (removeIfExists memFs depth path) := by
  refine safe_then (h.safe_read (MemFs.preserves_existsWith _ _)) fun b => ?_
  exact safe_ite (fun _ => h.safe_removeLocalPath depth) fun _ => safe_pure trivial

theorem safe_prepareFile (data : Bytes) : Safe I (fun _ => True) (prepareFile memFs rounds depth path data) := by
  refine safe_then (h.safe_read (MemFs.preserves_existsWith _ _)) fun b => ?_
  refine safe_ite (fun _ => ?_) fun _ => ?_
  · refine safe_then (h.safe_read (MemFs.preserves_stat _ _ _)) fun metadata => ?_
    refine safe_ite (fun _ => safe_then (h.safe_removeLocalPath depth) fun _ => safe_pure trivial) fun _ => ?_
    exact safe_then (h.safe_read (MemFs.preserves_readFile rounds path)) fun _ => safe_pure trivial
  · exact safe_then (h.safe_mkdirAll_parent _) fun _ => safe_pure trivial

theorem safe_syncFileHere (data : Bytes) (mode : FileMode) :
    Safe I (fun _ => True) (syncFileHere memFs rounds depth path data mode) := by
  refine safe_then (h.safe_prepareFile rounds depth data) fun b => ?_
  exact safe_ite (fun _ => h.writeFile data mode) fun _ => safe_pure trivial

end Untouched

section
variable {P A : String → Prop} {fs₀ : MemFs} {path : String}

/-- The path, and all below it, is not guarded, and nothing above it is at a dirty path
or under one. -/
structure Clear (P A : String → Prop) (path : String) : Prop where
  valid : validPath path = true
  below : ∀ q, within path q = true → ¬ P q ∧ ¬ A q
  above : ∀ q, within q path = true → ¬ P q

theorem Clear.untouched (hc : Clear P A path) : Untouched (Keeps P A fs₀) path where
  valid := hc.valid
  shape _ _ h hs := h.of_shape hs
  alloc _ h := h.alloc
  remove q hq hpq := Keeps.safe_remove hq (hc.below q hpq).1 (hc.below q hpq).2
  mkdir q perm hq hqp := Keeps.safe_mkdir hq (hc.above q hqp) perm
  symlink target := Keeps.safe_symlink hc.valid (hc.below path (within_self path)).1 (hc.below path (within_self path)).2 target
  writeFile data perm :=
    Keeps.safe_writeFile hc.valid (hc.below path (within_self path)).1 (hc.below path (within_self path)).2 data perm

end

/-! ## Conflicts -/

/-- The path lies at or under a dirty path. -/
def DirtyAt (dirty : DirtyMap) (q : String) : Prop :=
  ∃ k, k ∈ dirty ∧ cleanPath k ≠ "." ∧ within (cleanPath k) q = true

/-- The path lies above a dirty path. -/
def DirtyBelow (dirty : DirtyMap) (q : String) : Prop :=
  ∃ k, k ∈ dirty ∧ cleanPath k ≠ "." ∧ below q (cleanPath k) = true

theorem pathContains_eq {a d : String} (ha : cleanPath a ≠ ".") : pathContains a d = within (cleanPath a) (cleanPath d) := by
  rw [Bool.eq_iff_iff, within_iff_below, pathContains, stripPrefix_slash_isSome ha (cleanPath_valid d),
    Bool.or_eq_true, beq_iff_eq]

theorem clear_of_overlapping {dirty : DirtyMap} {path : String} (hp : validPath path = true) (hdot : path ≠ ".")
    (h : overlapping dirty path = []) : Clear (DirtyAt dirty) (DirtyBelow dirty) path := by
  have hfree : ∀ k, k ∈ dirty → cleanPath k ≠ "." →
      within (cleanPath k) path = false ∧ within path (cleanPath k) = false := by
    intro k hk hkdot
    have hnot := List.filter_eq_nil_iff.mp h k (Std.ExtTreeMap.mem_keys.mpr hk)
    have hclean := cleanPath_of_valid hp
    rw [pathsOverlap, pathContains_eq hkdot, pathContains_eq (by rwa [hclean]), hclean] at hnot
    simpa using hnot
  refine ⟨hp, fun q hq => ⟨?_, ?_⟩, fun q hq => ?_⟩
  · rintro ⟨k, hk, hkdot, hkq⟩
    obtain ⟨h₁, h₂⟩ := hfree k hk hkdot
    rcases within_total hkq hq with h | h
    · rw [h₁] at h
      cases h
    · rw [h₂] at h
      cases h
  · rintro ⟨k, hk, hkdot, hqk⟩
    have hbelow := within_trans hq (within_of_below hqk)
    rw [(hfree k hk hkdot).2] at hbelow
    cases hbelow
  · rintro ⟨k, hk, hkdot, hkq⟩
    have habove := within_trans hkq hq
    rw [(hfree k hk hkdot).1] at habove
    cases habove

/-! ## The passes -/

section
variable {σ τ α : Type} {I : σ → Prop} {K : τ → Prop} {V : α → Prop}

theorem safe_onHere {p : Prog σ Error α} (hp : Safe I V p) :
    Safe (fun w : σ × τ => I w.1 ∧ K w.2) V (onHere p) :=
  fun w hw => ⟨⟨(hp w.1 hw.1).1, hw.2⟩, (hp w.1 hw.1).2⟩

theorem safe_onThere {p : Prog τ Error α} (hp : Safe K V p) :
    Safe (fun w : σ × τ => I w.1 ∧ K w.2) V (onThere p) :=
  fun w hw => ⟨⟨hw.1, (hp w.2 hw.2).1⟩, (hp w.2 hw.2).2⟩

end

section
variable {P A : String → Prop} {fs₀ : MemFs} {path : String} {dirty : DirtyMap} {st : PullState} (rounds depth : Nat)

/-- The local tree keeps what is guarded, and the remote has only valid paths. -/
def PullKeeps (P A : String → Prop) (fs₀ : MemFs) (w : MemFs × MemFs) : Prop := Keeps P A fs₀ w.1 ∧ w.2.Allocated

theorem safe_remote_read {I : MemFs → Prop} {p : Prog MemFs Error α} (hp : Preserves MemFs.shape p) :
    Safe (fun w : MemFs × MemFs => I w.1 ∧ w.2.Allocated) (fun _ => True) (onThere p) :=
  safe_onThere (MemFs.safe_of_shape (fun _ _ h hs => h.of_shape hs) hp)

theorem safe_local {p : Prog MemFs Error α} {V : α → Prop} (hp : Safe (Keeps P A fs₀) V p) :
    Safe (PullKeeps P A fs₀) V (onHere p) := safe_onHere hp

theorem Untouched.safe_syncPathFromRemote {I : MemFs → Prop} (h : Untouched I path) :
    Safe (fun w : MemFs × MemFs => I w.1 ∧ w.2.Allocated) (fun _ => True) (syncPathFromRemote memFs memFs rounds depth path) := by
  refine safe_then (safe_remote_read (MemFs.preserves_stat _ _ _)) fun metadata => ?_
  refine safe_ite (fun _ => safe_onHere (h.safe_syncDirHere depth _)) fun _ => safe_ite (fun _ => ?_) fun _ => ?_
  · refine safe_then (safe_onHere (h.safe_removeIfExists depth)) fun _ => ?_
    refine safe_then (safe_onHere (h.safe_mkdirAll_parent _)) fun _ => ?_
    exact safe_then (safe_remote_read (MemFs.preserves_readlink path)) fun target => safe_onHere (h.symlink target)
  · refine safe_then (safe_remote_read (MemFs.preserves_readFile rounds path)) fun data => safe_onHere ?_
    exact h.safe_syncFileHere rounds depth data _

theorem safe_resolving {conflicts : List String} {act : Prog (MemFs × MemFs) Error Unit} {cleared : DirtyMap}
    (hact : conflicts = [] → Safe (PullKeeps P A fs₀) (fun _ => True) act) :
    Safe (PullKeeps P A fs₀) (fun st' => st'.dirty = st.dirty) (resolving .keepLocal st conflicts act cleared) := by
  refine safe_ite (fun hnil => ?_) fun _ => safe_pure rfl
  exact safe_then (hact (List.isEmpty_iff.mp hnil)) fun _ => safe_pure rfl

/-- A collected path is a valid path, and not the root. -/
def IsCollected (path : String) : Prop := validPath path = true ∧ path ≠ "."

theorem safe_deleteStep (hpath : IsCollected path) (remotePaths : List String) :
    Safe (PullKeeps (DirtyAt st.dirty) (DirtyBelow st.dirty) fs₀) (fun st' => st'.dirty = st.dirty)
      (deleteStep memFs depth .keepLocal remotePaths st path) := by
  refine safe_ite (fun _ => safe_pure rfl) fun _ => ?_
  have hconflicts : Safe (PullKeeps (DirtyAt st.dirty) (DirtyBelow st.dirty) fs₀)
      (fun conflicts => conflicts = overlapping st.dirty path)
      (onHere (conflictingDirtyPaths memFs st.dirty path .deleteLocal)) := by
    refine safe_local (safe_pure ?_)
    rw [cleanPath_of_valid hpath.1]
  refine safe_bind hconflicts fun conflicts hc => safe_resolving fun hnil => safe_local ?_
  exact (clear_of_overlapping hpath.1 hpath.2 (hc.symm.trans hnil)).untouched.safe_removeLocalPath depth

theorem localIsDir_state (path : String) (fs : MemFs) : (localIsDir memFs path fs).2 = fs := by
  refine (preserves_bind (MemFs.preserves_existsWith _ _) fun b => preserves_ite ?_ (preserves_pure _) : Preserves id _) fs
  exact preserves_bind (MemFs.preserves_stat _ _ _) fun _ => preserves_pure _

theorem pullPathAction_state (path : String) (w : MemFs × MemFs) : (pullPathAction memFs memFs path w).2 = w := by
  have hlocal : ∀ w : MemFs × MemFs, (onHere (localIsDir memFs path) w).2 = w := by
    intro w
    exact Prod.ext (localIsDir_state path w.1) rfl
  refine (preserves_bind (fun w => rfl) fun m => ?_ : Preserves id _) w
  refine preserves_ite (preserves_pure _) (preserves_ite (preserves_pure _) ?_)
  exact preserves_bind hlocal fun _ => preserves_pure _

theorem localIsDir_eq_true {path : String} {fs : MemFs} (h : (localIsDir memFs path fs).1 = .ok true) :
    FileSystem.existsWith memFs.stat path fs = (.ok true, fs) ∧
      ∃ m, memFs.freeLstat path fs = (.ok m, fs) ∧ m.isDir = true := by
  have hstate := MemFs.preserves_existsWith id path fs
  obtain ⟨b, fs₁, hexists, hrest⟩ := bind_fst_eq_ok.mp h
  have hexists' : FileSystem.existsWith MemFs.stat path fs = (.ok b, fs₁) := hexists
  rw [hexists'] at hstate
  obtain rfl : fs₁ = fs := hstate
  cases b with
  | false => cases hrest
  | true =>
    obtain ⟨m, fs₂, hlstat, hm⟩ := bind_fst_eq_ok.mp hrest
    obtain rfl : fs₂ = fs₁ := (congrArg Prod.snd hlstat).symm
    exact ⟨hexists, m, hlstat, Outcome.ok.inj hm⟩

/-- A directory of the remote that is one here is left as it is. -/
theorem syncPathFromRemote_of_dirs {w : MemFs × MemFs} {m : Metadata}
    (hremote : (memFs.freeLstat path w.2).1 = .ok m) (hdir : m.isDir = true)
    (hlocal : (localIsDir memFs path w.1).1 = .ok true) :
    syncPathFromRemote memFs memFs rounds depth path w = (.ok (), w) := by
  obtain ⟨hexists, m', hlstat, hdir'⟩ := localIsDir_eq_true hlocal
  have hthere : onThere (memFs.freeLstat path) w = (.ok m, w) := Prod.ext hremote rfl
  have hhere : syncDirHere memFs depth path m.mode w.1 = (.ok (), w.1) := by
    unfold syncDirHere
    rw [bind_ok hexists, if_pos rfl, bind_ok hlstat, if_pos hdir']
    rfl
  unfold syncPathFromRemote
  rw [bind_ok hthere, if_pos hdir, onHere, zoom_apply, hhere]

theorem pullPathAction_dir {w : MemFs × MemFs} (h : (pullPathAction memFs memFs path w).1 = .ok .syncRemoteDir) :
    ∃ m, (memFs.freeLstat path w.2).1 = .ok m ∧ m.isDir = true := by
  obtain ⟨m, w₁, hlstat, hrest⟩ := bind_fst_eq_ok.mp h
  refine ⟨m, congrArg Prod.fst hlstat, ?_⟩
  by_contra hdir
  rw [if_neg hdir, branch_apply] at hrest
  split at hrest
  · cases hrest
  · obtain ⟨b, w₂, -, hleaf⟩ := bind_fst_eq_ok.mp hrest
    cases hleaf

theorem conflictingDirtyPaths_dir (hpath : validPath path = true) (fs : MemFs) :
    conflictingDirtyPaths memFs dirty path .syncRemoteDir fs = ((localIsDir memFs path fs).1.map fun b =>
      if b then dirty.keys.filter fun k => pathContains k path else overlapping dirty path, fs) := by
  have hstate := localIsDir_state path fs
  show (localIsDir memFs (cleanPath path) >>= _) fs = _
  rw [cleanPath_of_valid hpath, bind_apply]
  rcases h : localIsDir memFs path fs with ⟨b | e | _, fs'⟩ <;> rw [h] at hstate <;>
    obtain rfl : fs' = fs := hstate
  · cases b <;> rfl
  · rfl
  · rfl

/-- The conflicts of a leaf are the dirty paths that overlap it. -/
theorem safe_syncStep_leaf (hpath : IsCollected path) {action : PullPathAction} (haction : action ≠ .syncRemoteDir) :
    Safe (PullKeeps (DirtyAt st.dirty) (DirtyBelow st.dirty) fs₀) (fun st' => st'.dirty = st.dirty)
      (onHere (conflictingDirtyPaths memFs st.dirty path action) >>= fun conflicts =>
        resolving .keepLocal st conflicts (syncPathFromRemote memFs memFs rounds depth path)
          (clearDirtyPathsForRemoteSync st.dirty path action)) := by
  have hclean := cleanPath_of_valid hpath.1
  have hconflicts : Safe (PullKeeps (DirtyAt st.dirty) (DirtyBelow st.dirty) fs₀)
      (fun conflicts => conflicts = overlapping st.dirty path)
      (onHere (conflictingDirtyPaths memFs st.dirty path action)) := by
    refine safe_local ?_
    cases action with
    | deleteLocal => exact safe_pure (by rw [hclean])
    | syncRemoteLeaf => exact safe_pure (by rw [hclean])
    | syncRemoteDir => exact absurd rfl haction
  refine safe_bind hconflicts fun conflicts hc => safe_resolving fun hnil => ?_
  exact (clear_of_overlapping hpath.1 hpath.2 (hc.symm.trans hnil)).untouched.safe_syncPathFromRemote rounds depth

/-- A directory of the remote conflicts with the dirty paths above it if it is a directory
here, where nothing is done to it, and otherwise with all that overlap it. -/
theorem syncStep_dir (hpath : IsCollected path) {w : MemFs × MemFs} {m : Metadata}
    (hremote : (memFs.freeLstat path w.2).1 = .ok m) (hdir : m.isDir = true)
    (hw : PullKeeps (DirtyAt st.dirty) (DirtyBelow st.dirty) fs₀ w) {cleared : DirtyMap} :
    PullKeeps (DirtyAt st.dirty) (DirtyBelow st.dirty) fs₀
        ((onHere (conflictingDirtyPaths memFs st.dirty path .syncRemoteDir) >>= fun conflicts =>
          resolving .keepLocal st conflicts (syncPathFromRemote memFs memFs rounds depth path) cleared) w).2 ∧
      ∀ st', ((onHere (conflictingDirtyPaths memFs st.dirty path .syncRemoteDir) >>= fun conflicts =>
          resolving .keepLocal st conflicts (syncPathFromRemote memFs memFs rounds depth path) cleared) w).1 = .ok st' →
        st'.dirty = st.dirty := by
  have hconflicts : onHere (conflictingDirtyPaths memFs st.dirty path .syncRemoteDir) w =
      ((localIsDir memFs path w.1).1.map fun b =>
        if b then st.dirty.keys.filter fun k => pathContains k path else overlapping st.dirty path, w) := by
    rw [onHere, zoom_apply, conflictingDirtyPaths_dir hpath.1]
  rw [bind_apply, hconflicts]
  rcases hl : (localIsDir memFs path w.1).1 with b | e | _
  · cases b with
    | false =>
      refine safe_resolving (fun hnil => ?_) w hw
      exact (clear_of_overlapping hpath.1 hpath.2 hnil).untouched.safe_syncPathFromRemote rounds depth
    | true =>
      simp only [Outcome.map, ↓reduceIte, resolving, branch_apply]
      split
      · rw [bind_ok (syncPathFromRemote_of_dirs rounds depth hremote hdir hl)]
        exact ⟨hw, fun st' h => by cases h; rfl⟩
      · exact ⟨hw, fun st' h => by cases h; rfl⟩
  · exact ⟨hw, fun st' h => by cases h⟩
  · exact ⟨hw, fun st' h => by cases h⟩

theorem safe_syncStep (hpath : IsCollected path) :
    Safe (PullKeeps (DirtyAt st.dirty) (DirtyBelow st.dirty) fs₀) (fun st' => st'.dirty = st.dirty)
      (syncStep memFs memFs rounds depth .keepLocal st path) := by
  intro w hw
  have hstate := pullPathAction_state path w
  unfold syncStep
  rw [bind_apply]
  rcases ha : pullPathAction memFs memFs path w with ⟨action | e | _, w'⟩ <;> rw [ha] at hstate <;>
    obtain rfl : w' = w := hstate
  · by_cases hdir : action = .syncRemoteDir
    · subst hdir
      obtain ⟨m, hm, hmdir⟩ := pullPathAction_dir (congrArg Prod.fst ha)
      exact syncStep_dir rounds depth hpath hm hmdir hw
    · exact safe_syncStep_leaf rounds depth hpath hdir w' hw
  · exact ⟨hw, fun _ h => by cases h⟩
  · exact ⟨hw, fun _ h => by cases h⟩

/-! ## Collecting the paths -/

theorem safe_collectPathsFrom {I : MemFs → Prop} (hI : ∀ fs fs' : MemFs, I fs → fs'.shape = fs.shape → I fs')
    (hI' : ∀ fs : MemFs, I fs → fs.Allocated) (hpath : validPath path = true) :
    Safe I (fun paths => ∀ p ∈ paths, IsCollected p) (collectPathsFrom memFs depth path) := by
  induction depth generalizing path with
  | zero => exact safe_abort
  | succ depth ih =>
    have hhere : ∀ p ∈ if path = "." then [] else [path], IsCollected p := by
      intro p hp
      split at hp
      · cases hp
      · rename_i hdot
        rw [List.mem_singleton.mp hp]
        exact ⟨hpath, hdot⟩
    refine safe_then (MemFs.safe_of_shape hI (MemFs.preserves_stat _ _ _)) fun metadata => ?_
    refine safe_ite (fun _ => ?_) fun _ => safe_pure hhere
    have hlist : Safe I (fun es : List DirEntry => ∀ e ∈ es, ValidName e.name) (memFs.freeReadDir path) := by
      intro fs hfs
      exact ⟨hI fs _ hfs (MemFs.preserves_readDir _ _ fs), fun es hes => MemFs.readDir_names (hI' fs hfs) hes⟩
    refine safe_bind hlist fun es hes => ?_
    refine safe_bind (safe_mapM fun e he => ih (childPath_valid hpath (hes e he))) fun children hchildren => safe_pure ?_
    intro p hp
    rcases List.mem_append.mp hp with hp | hp
    · exact hhere p hp
    · obtain ⟨ps, hps, hp⟩ := List.mem_flatten.mp hp
      exact hchildren ps hps p hp

theorem safe_collectPaths {I : MemFs → Prop} (hI : ∀ fs fs' : MemFs, I fs → fs'.shape = fs.shape → I fs')
    (hI' : ∀ fs : MemFs, I fs → fs.Allocated) :
    Safe I (fun paths => ∀ p ∈ paths, IsCollected p) (collectPaths memFs depth) := by
  refine safe_bind (safe_collectPathsFrom depth hI hI' rfl) fun out hout => safe_pure ?_
  intro p hp
  exact hout p ((List.mergeSort_perm _ _).mem_iff.mp hp)

theorem safe_pullPasses :
    Safe (PullKeeps (DirtyAt dirty) (DirtyBelow dirty) fs₀) (fun st => st.dirty = dirty)
      (pullPasses memFs memFs rounds depth .keepLocal dirty) := by
  refine safe_bind (safe_onThere (safe_collectPaths depth (fun _ _ h hs => h.of_shape hs) fun _ h => h))
    fun remotePaths hremote => ?_
  refine safe_bind (safe_local (safe_collectPaths depth (fun _ _ h hs => h.of_shape hs) fun _ h => h.alloc))
    fun localPaths hlocal => ?_
  refine safe_bind (safe_foldlM (V := fun st : PullState => st.dirty = dirty) (fun st hst path hpath => ?_) rfl)
    fun st hst => safe_foldlM (fun st hst path hpath => ?_) hst
  · subst hst
    exact safe_deleteStep depth (hlocal path (List.mem_reverse.mp hpath)) remotePaths
  · subst hst
    exact safe_syncStep rounds depth (hremote path hpath)

end

/-! ## A whole pull -/

namespace SyncState

/-- A pull that drops no mark clears none. -/
theorem clearPulled_self (snapshot : DirtyMap) (conflicts : Std.ExtTreeMap String DirtyChange) (s : SyncState) :
    (s.clearPulled snapshot snapshot conflicts).dirty = s.dirty := by
  have hfold : ∀ l : List (String × DirtyEntry), (∀ kv ∈ l, kv.1 ∈ snapshot) →
      l.foldl (clearPulledStep snapshot) s = s := by
    intro l hl
    induction l with
    | nil => rfl
    | cons kv l ih =>
      have hkept : snapshot.contains kv.1 = true := Std.ExtTreeMap.mem_iff_contains.mp (hl kv List.mem_cons_self)
      rw [List.foldl_cons, clearPulledStep, if_pos hkept]
      exact ih fun kv' hkv' => hl kv' (List.mem_cons_of_mem kv hkv')
  unfold clearPulled
  rw [hfold snapshot.toList]
  intro kv hkv
  have hget := Std.ExtTreeMap.mem_toList_iff_getElem?_eq_some.mp hkv
  exact Std.ExtTreeMap.isSome_getElem?_iff_mem.mp (by rw [hget]; rfl)

end SyncState

section
variable (index : Prog MemFs Error Unit) (retain : Bool) (rounds depth : Nat)

theorem pull_keeps (hindex : Preserves MemFs.shape index) (s : SyncStore MemFs) (remote : MemFs)
    (hlocal : s.localFs.Allocated) (hremote : remote.Allocated) :
    Keeps (DirtyAt s.marks.dirty) (DirtyBelow s.marks.dirty) s.localFs
      (SyncFs.pull memFs memFs rounds depth .keepLocal index retain (s, remote)).2.1.localFs ∧
    (SyncFs.pull memFs memFs rounds depth .keepLocal index retain (s, remote)).2.1.marks.dirty = s.marks.dirty := by
  have hstart : Keeps (DirtyAt s.marks.dirty) (DirtyBelow s.marks.dirty) s.localFs s.localFs :=
    ⟨hlocal, fun _ _ => rfl, fun _ _ h => h⟩
  have hshape := hindex remote
  unfold SyncFs.pull
  rw [bind_apply, zoom_apply]
  rcases hi : index remote with ⟨_ | e | _, remote'⟩ <;> rw [hi] at hshape
  · obtain ⟨hkeeps, hdirty⟩ := safe_pullPasses rounds depth (s.localFs, remote') ⟨hstart, hremote.of_shape hshape⟩
    dsimp only
    rw [get_bind]
    dsimp only
    rw [bind_apply, zoom_apply]
    dsimp only
    rcases hp : pullPasses memFs memFs rounds depth .keepLocal s.marks.dirty (s.localFs, remote') with
      ⟨st | e | _, w⟩ <;> rw [hp] at hkeeps hdirty
    · refine ⟨hkeeps.1, ?_⟩
      show (s.marks.clearPulled s.marks.dirty st.dirty _).dirty = _
      rw [hdirty st rfl, SyncState.clearPulled_self]
    · exact ⟨hkeeps.1, rfl⟩
    · exact ⟨hkeeps.1, rfl⟩
  · exact ⟨hstart, rfl⟩
  · exact ⟨hstart, rfl⟩

/-- A pull under `keepLocal`, however it ends, changes no node at or under a dirty path,
keeps the directories above it, and keeps the dirty map. -/
theorem pull_keepLocal (hindex : Preserves MemFs.shape index) (s : SyncStore MemFs) (remote : MemFs)
    (hlocal : s.localFs.Allocated) (hremote : remote.Allocated) :
    (∀ p, p ∈ s.marks.dirty → cleanPath p ≠ "." →
      (∀ q, within (cleanPath p) q = true →
        (SyncFs.pull memFs memFs rounds depth .keepLocal index retain (s, remote)).2.1.localFs.coreAt q =
          s.localFs.coreAt q) ∧
      ∀ q, below q (cleanPath p) = true → s.localFs.isDirNode q = true →
        (SyncFs.pull memFs memFs rounds depth .keepLocal index retain (s, remote)).2.1.localFs.isDirNode q = true) ∧
    (SyncFs.pull memFs memFs rounds depth .keepLocal index retain (s, remote)).2.1.marks.dirty = s.marks.dirty := by
  obtain ⟨hkeeps, hdirty⟩ := pull_keeps index retain rounds depth hindex s remote hlocal hremote
  refine ⟨fun p hp hdot => ⟨fun q hq => ?_, fun q hq hdir => ?_⟩, hdirty⟩
  · exact hkeeps.same q ⟨p, hp, hdot, hq⟩
  · exact hkeeps.dirs q ⟨p, hp, hdot, hq⟩ hdir

/-- A file was made in a directory that the remote does not have. -/
def changedStore : SyncStore MemFs where
  localFs := (run MemWorld.step (MemWorld.init fun _ => 0) [.mkdir "d" (FileMode.fromPerm 0o755), .create "d/f"]).fs
  marks := SyncState.new.markDirty "d/f" .upsert

theorem pull_keepLocal_changedStore :
    "d/f" ∈ changedStore.marks.dirty ∧ changedStore.localFs.Allocated ∧
    (SyncFs.pull memFs memFs 4 4 .keepLocal (pure ()) true
      (changedStore, MemFs.new fun _ => 0)).2.1.localFs.coreAt "d/f" = changedStore.localFs.coreAt "d/f" := by
  have hmem : "d/f" ∈ changedStore.marks.dirty := by decide +kernel
  have hsteps : StepsMeet MemWorld.step MemWorld.TreeStep (MemWorld.init fun _ => 0)
      [.mkdir "d" (FileMode.fromPerm 0o755), .create "d/f"] := by decide +kernel
  have halloc : changedStore.localFs.Allocated :=
    (run_invariant (I := fun w : MemWorld => w.fs.TreeInv) (fun _ op hw hok => MemWorld.step_treeInv op hw hok)
      (MemWorld.init_treeInv fun _ => 0) hsteps).alloc
  have hremote : (MemFs.new fun _ => 0).Allocated := (MemWorld.init_treeInv fun _ => 0).alloc
  have hpull := pull_keepLocal (pure ()) true 4 4 (preserves_pure ()) changedStore (MemFs.new fun _ => 0) halloc hremote
  exact ⟨hmem, halloc, (hpull.1 "d/f" hmem (by decide)).1 "d/f" (by decide)⟩

end

end Star9
