import Star9.Fs.MemWrite
import Star9.Sync.Track

/-!
# Patches that cannot be built

A patch is built from the marks and from the local tree. It can be built when every
path marked for an upsert has a node, every key has its parent, and the tar builder
takes the paths and the targets of the symlinks. The marks are not touched when a path
above them is renamed, and a handle marks its path whether the file is still there
or not, so a run keeps its patches buildable only if its steps avoid these cases.
-/
namespace Star9
open Base Prog

/-! ## Building a patch -/

/-- The tar builder takes the path of an entry. -/
def TarBuilder.takes (tar : TarBuilder) (path : String) : Bool := (tar.appendData path).toBool

/-- The tar builder takes the target that a node with this mode and these contents has. -/
def TarBuilder.linkFits (tar : TarBuilder) (mode : FileMode) (data : Bytes) : Bool :=
  !mode.isSymlink || (tar.setLinkName (utf8Lossy data)).toBool

theorem TarBuilder.takes_iff {tar : TarBuilder} {path : String} : tar.takes path = true ↔ tar.appendData path = .ok () := by
  unfold takes
  cases tar.appendData path with
  | ok u => simp [Except.toBool]
  | error e => simp [Except.toBool]

/-- What building a patch asks of a node. -/
def NodeFits (tar : TarBuilder) (n : NodeInner) : Prop :=
  tar.linkFits n.metadata.mode n.data = true ∧ n.data.length ≤ isizeMax

/-- A file system from which patches can be built: every listed name has a node, and the tar
builder takes every path and every link target. -/
structure Patchable (tar : TarBuilder) (fs : MemFs) : Prop where
  alloc : fs.Allocated
  closed : fs.ParentClosed
  paths : ∀ p, p ∈ fs.nodes → tar.takes p = true
  nodes : ∀ i, NodeFits tar (fs.heap i)

section
variable {tar : TarBuilder} {fs fs' : MemFs}

theorem NodeFits.of_core {n n' : NodeInner} (h : NodeFits tar n) (hcore : n'.core = n.core) : NodeFits tar n' := by
  have hmode : n'.metadata.mode = n.metadata.mode := congrArg NodeCore.mode hcore
  have hdata : n'.data = n.data := congrArg NodeCore.data hcore
  rw [NodeFits, hmode, hdata]
  exact h

theorem Patchable.of_shape (h : Patchable tar fs) (hs : fs'.shape = fs.shape) : Patchable tar fs' := by
  have hn : fs'.nodes = fs.nodes := congrArg Shape.nodes hs
  refine ⟨h.alloc.of_shape hs, ?_, ?_, fun i => (h.nodes i).of_core (congrFun (congrArg Shape.core hs) i)⟩
  · unfold MemFs.ParentClosed
    rw [hn]
    exact h.closed
  · rw [hn]
    exact h.paths

end

section
variable {tar : TarBuilder}

/-- A subtree no deeper than the bound is appended. -/
theorem appendPatchPath_triple {fs : MemFs} (hfs : Patchable tar fs) {rounds : Nat} (hrounds : isizeMax < 8192 * rounds)
    (depth : Nat) {path : String} (hpath : path ∈ fs.nodes)
    (hdepth : ∀ q, q ∈ fs.nodes → within path q = true → (components q).length < (components path).length + depth) :
    Triple (fun s => s.shape = fs.shape) (appendPatchPath memFs tar (rounds + 1) depth path)
      fun _ s => s.shape = fs.shape := by
  induction depth generalizing path with
  | zero =>
    have hself := hdepth path hpath (within_self path)
    omega
  | succ depth ih =>
    intro s hs
    have hpatch := hfs.of_shape hs
    have hnodes : s.nodes = fs.nodes := congrArg Shape.nodes hs
    obtain ⟨i, hi⟩ := MemFs.mem_nodes_iff.mp hpath
    have hvalid := hfs.alloc.valid hi
    have hclean := cleanPath_of_valid hvalid
    rw [← hnodes] at hi
    unfold appendPatchPath
    rw [bind_ok (MemFs.freeLstat_of_mem hvalid hi), hclean, TarBuilder.takes_iff.mp (hfs.paths path hpath)]
    cases hlink : (s.heap i).metadata.mode.isSymlink with
    | true =>
      have hfits := (hpatch.nodes i).1
      simp only [TarBuilder.linkFits, hlink, Bool.not_true, Bool.false_or] at hfits
      obtain ⟨u, hu⟩ : ∃ u, tar.setLinkName (utf8Lossy (s.heap i).data) = .ok u := by
        cases hname : tar.setLinkName (utf8Lossy (s.heap i).data) with
        | ok u => exact ⟨u, rfl⟩
        | error e =>
          rw [hname] at hfits
          cases hfits
      have hread : memFs.readlink path s = _ := MemFs.readlink_of_symlink hvalid hi hlink
      rw [if_pos rfl, bind_ok hread, hu]
      exact ⟨_, s, rfl, hs⟩
    | false =>
      rw [if_neg Bool.false_ne_true]
      cases hdir : (s.heap i).metadata.isDir with
      | true =>
        have hlist : memFs.freeReadDir path s = _ := MemFs.readDir_of_dirNode hvalid hi hdir hlink
        have hchildren : Triple (fun s => s.shape = fs.shape) ((s.listing path).mapM fun entry =>
            appendPatchPath memFs tar (rounds + 1) depth (childPath path entry.name)) fun _ s => s.shape = fs.shape := by
          refine triple_mapM fun e he => ?_
          obtain ⟨-, hname, hmem⟩ := (MemFs.mem_listing hpatch.alloc hpatch.closed).mp (List.mem_map_of_mem he)
          rw [hnodes] at hmem
          have hcomp := components_childPath path hname
          refine ih hmem fun q hq hcq => ?_
          have hbelow := within_of_below (below_childPath path hname)
          have hlen := hdepth q hq (within_trans hbelow hcq)
          rw [hcomp, List.length_append, List.length_singleton]
          omega
        obtain ⟨children, s', hmap, hs'⟩ := hchildren s hs
        rw [if_pos rfl, ofExcept_ok, pure_bind, bind_ok hlist, bind_ok hmap]
        exact ⟨_, s', rfl, hs'⟩
      | false =>
        have hlen := (hpatch.nodes i).2
        obtain ⟨s', hread, hs'⟩ := MemFs.readFile_of_file hvalid hi hlink hdir
          (by unfold isizeMax at hlen; omega) (Nat.le_of_lt (Nat.lt_of_le_of_lt hlen hrounds))
        rw [if_neg Bool.false_ne_true, bind_ok hread]
        exact ⟨_, s', rfl, hs'.trans hs⟩

/-- An upsert needs the node that it sends, a removal only a path that the tar builder takes. -/
def MarkFits (tar : TarBuilder) (fs : MemFs) (p : String) : DirtyChange → Prop
  | .upsert => p ∈ fs.nodes
  | .remove _ => tar.takes (cleanPath p) = true

def MarksFit (tar : TarBuilder) (marks : SyncState) (fs : MemFs) : Prop :=
  ∀ (p : String) (e : DirtyEntry), marks.dirty[p]? = some e → MarkFits tar fs p e.change

theorem buildPatch_triple {fs : MemFs} (hfs : Patchable tar fs) {marks : SyncState} (hmarks : MarksFit tar marks fs)
    {rounds : Nat} (hrounds : isizeMax < 8192 * rounds) {depth : Nat}
    (hdepth : ∀ q, q ∈ fs.nodes → (components q).length < depth) :
    Triple (fun s => s.shape = fs.shape) (buildPatch memFs tar (rounds + 1) depth marks.dirty)
      fun _ s => s.shape = fs.shape := by
  refine triple_bind (triple_mapM fun mark hmark => ?_) fun _ => triple_pure fun _ hs => hs
  have hfits := hmarks _ _ (Std.ExtTreeMap.mem_toList_iff_getElem?_eq_some.mp hmark)
  unfold appendMark
  cases hchange : mark.2.change with
  | upsert =>
    rw [hchange] at hfits
    refine appendPatchPath_triple hfs hrounds depth hfits fun q hq _ => ?_
    have hlen := hdepth q hq
    omega
  | remove recursive =>
    rw [hchange] at hfits
    refine triple_bind (Q := fun _ s => s.shape = fs.shape) ?_ fun _ => triple_pure fun _ hs => hs
    exact triple_ofExcept (TarBuilder.takes_iff.mp hfits) fun _ hs => hs

end

/-! ## The steps that keep patches buildable -/

namespace SyncStore

/-- Some path strictly below the given one is marked for an upsert. -/
def upsertBelow (s : SyncStore MemFs) (p : String) : Bool :=
  s.marks.dirty.toList.any fun kv => below p kv.1 && kv.2.change == .upsert

/-- A path that can be made is one that the tar builder takes. -/
def createFits (s : SyncStore MemFs) (tar : TarBuilder) (p : String) : Bool :=
  (MemFs.parentExists p s.localFs).1 != .ok true || tar.takes p

def mkdirFits (s : SyncStore MemFs) (tar : TarBuilder) (p : String) (perm : FileMode) : Bool :=
  s.localFs.nodes.contains p || (MemFs.parentExists p s.localFs).1 != .ok true ||
    tar.takes p && tar.linkFits (FileMode.dir ||| perm) []

def symlinkFits (s : SyncStore MemFs) (tar : TarBuilder) (target p : String) : Bool :=
  (MemFs.parentExists p s.localFs).1 != .ok true ||
    tar.takes p && (tar.setLinkName target).toBool && (utf8Bytes target).length ≤ isizeMax

def linkFits (s : SyncStore MemFs) (tar : TarBuilder) (old new : String) : Bool :=
  !s.localFs.linkProceeds old new || tar.takes new

def truncateFits (s : SyncStore MemFs) (tar : TarBuilder) (p : String) (size : UInt64) : Bool :=
  match s.localFs.nodes[p]? with
  | some id =>
    let inner := s.localFs.heap id
    resizeFails inner.data size.toNat || tar.linkFits inner.metadata.mode (resize inner.data size.toNat)
  | none => true

/-- A rename to the same name marks it without a look. One that moves a single key must not
move it below itself; one that moves a directory must leave no upsert mark behind. -/
def renameFits (s : SyncStore MemFs) (tar : TarBuilder) (old new : String) : Bool :=
  if old = new then s.localFs.nodes.contains old
  else if old = "." ∨ s.localFs.someBelow old = false then
    !s.localFs.renameProceeds old new || tar.takes new && (old == "." || !within old new)
  else
    !s.localFs.renameProceeds old new ||
      s.localFs.isDirNode old && new != "." && !within old new && !s.upsertBelow old &&
        (s.localFs.toMove old new).all fun m => tar.takes m.2.1

/-- What a handle holds back is a target that the tar builder takes, if its node is a symlink. -/
def commitFits (s : SyncStore MemFs) (tar : TarBuilder) (h : SyncHandle MemFile) : Bool :=
  match h.inner with
  | .node f => !f.dirty || tar.linkFits (s.localFs.heap f.node).metadata.mode f.data
  | .dir _ => true

/-- Closing a handle marks a path that has a node, or is refused, or marks nothing. -/
def closeMarksNode (s : SyncStore MemFs) (h : SyncHandle MemFile) : Bool :=
  match h.inner, h.marks with
  | .node f, some path => f.closed || s.localFs.nodes.contains (cleanPath path)
  | .dir _, some path => s.localFs.nodes.contains (cleanPath path)
  | _, none => true

end SyncStore

namespace SyncWorld
variable {ρ : Type}

/-- The step leaves no mark for an upsert on a path without a node, no key without its parent,
and nothing that the tar builder refuses. -/
def patchStepOk (tar : TarBuilder) (w : SyncWorld ρ) : SyncOp → Bool
  | .create name => w.store.createFits tar (cleanPath name)
  | .openFile name flags _ =>
    !flags.isWrite || !w.store.localFs.openReplaces name flags || w.store.createFits tar (cleanPath name)
  | .mkdir name perm => w.store.mkdirFits tar (cleanPath name) perm
  | .remove name => w.store.localFs.removeOk (cleanPath name)
  | .rename old new => w.store.renameFits tar (cleanPath old) (cleanPath new)
  | .link old new => w.store.linkFits tar (cleanPath old) (cleanPath new)
  | .symlink old new => w.store.symlinkFits tar old (cleanPath new)
  | .truncate name size => w.store.truncateFits tar (cleanPath name) size
  | .sync file =>
    match w.files[file]? with
    | some h => w.store.commitFits tar h
    | none => true
  | .close file =>
    match w.files[file]? with
    | some h => w.store.commitFits tar h && w.store.closeMarksNode h
    | none => true
  | _ => true

end SyncWorld

/-! ## One step -/

namespace Patchable
variable {tar : TarBuilder} {fs fs' : MemFs}

/-- A new node under a key that is there. -/
theorem insertNew (h : Patchable tar fs) {p : String} {n : NodeInner} (hp : validPath p = true)
    (hpar : parentPath p = "." ∨ parentPath p ∈ fs.nodes) (htakes : tar.takes p = true) (hn : NodeFits tar n) :
    Patchable tar (fs.insertNew p n).recomputeDirSizes := by
  suffices hnew : Patchable tar (fs.insertNew p n) from hnew.of_shape MemFs.shape_recomputeDirSizes
  refine ⟨h.alloc.insertNew hp n, ?_, ?_, ?_⟩
  · intro q hq hdot
    rw [MemFs.mem_insertNew] at hq ⊢
    rcases hq with rfl | hq
    · exact Or.inr (hpar.resolve_left hdot)
    · exact Or.inr (h.closed q hq hdot)
  · intro q hq
    rcases MemFs.mem_insertNew.mp hq with rfl | hq
    · exact htakes
    · exact h.paths q hq
  · intro i
    by_cases hi : i = fs.next
    · subst hi
      simpa [MemFs.insertNew] using hn
    · simpa [MemFs.insertNew, hi] using h.nodes i

theorem updateNode (h : Patchable tar fs) {id : NodeId} {f : NodeInner → NodeInner} (hf : NodeFits tar (f (fs.heap id))) :
    Patchable tar (fs.updateNode id f) := by
  refine ⟨h.alloc.of_nodes rfl fun q i hq => ⟨h.alloc.valid hq, q, hq⟩, h.closed, h.paths, fun i => ?_⟩
  by_cases hi : i = id
  · subst hi
    simpa using hf
  · simpa [hi] using h.nodes i

theorem setData (h : Patchable tar fs) {id : NodeId} {data : Bytes} (hlink : tar.linkFits (fs.heap id).metadata.mode data = true)
    (hlen : data.length ≤ isizeMax) : Patchable tar (fs.setData id data) := by
  have hfits : NodeFits tar ((fs.heap id).setData data (fs.clock fs.ticks)) := ⟨hlink, hlen⟩
  have hshape : (fs.setData id data).shape = (fs.updateNode id (NodeInner.setData data (fs.clock fs.ticks))).shape := rfl
  exact (h.updateNode hfits).of_shape hshape

theorem dataBounded (h : Patchable tar fs) : fs.DataBounded := fun i => (h.nodes i).2

theorem fits_file (tar : TarBuilder) (name : String) (perm : UInt32) :
    NodeFits tar (NodeInner.file name [] (FileMode.fromPerm perm)) :=
  ⟨by simp [TarBuilder.linkFits, NodeInner.file], Nat.zero_le _⟩

theorem create (h : Patchable tar fs) {name : String}
    (hok : (MemFs.parentExists (cleanPath name) fs).1 = .ok true → tar.takes (cleanPath name) = true) :
    Patchable tar (MemFs.create name fs).2 := by
  by_cases hpar : (MemFs.parentExists (cleanPath name) fs).1 = .ok true
  · rw [MemFs.create_of_parent hpar, MemFs.openNode_state]
    exact h.insertNew (cleanPath_valid _) (MemFs.mem_of_parentExists hpar) (hok hpar) (fits_file tar _ _)
  · rw [(MemFs.create_of_no_parent hpar).2]
    exact h

theorem symlink (h : Patchable tar fs) {old new : String}
    (hok : (MemFs.parentExists (cleanPath new) fs).1 = .ok true →
      tar.takes (cleanPath new) = true ∧ (tar.setLinkName old).toBool = true ∧ (utf8Bytes old).length ≤ isizeMax) :
    Patchable tar (MemFs.symlink old new fs).2 := by
  by_cases hpar : (MemFs.parentExists (cleanPath new) fs).1 = .ok true
  · obtain ⟨htakes, hlink, hlen⟩ := hok hpar
    rw [MemFs.symlink_of_parent hpar]
    refine h.insertNew (cleanPath_valid _) (MemFs.mem_of_parentExists hpar) htakes ⟨?_, hlen⟩
    simp [TarBuilder.linkFits, NodeInner.symlink, hlink]
  · rw [(MemFs.symlink_of_no_parent hpar).2]
    exact h

theorem mkdir (h : Patchable tar fs) {name : String} {perm : FileMode}
    (hok : fs.nodes[cleanPath name]? = none → (MemFs.parentExists (cleanPath name) fs).1 = .ok true →
      tar.takes (cleanPath name) = true ∧ tar.linkFits (FileMode.dir ||| perm) [] = true) :
    Patchable tar (MemFs.mkdir name perm fs).2 := by
  cases hn : fs.nodes[cleanPath name]? with
  | some i =>
    rw [MemFs.mkdir_of_exists hn]
    exact h
  | none =>
    by_cases hpar : (MemFs.parentExists (cleanPath name) fs).1 = .ok true
    · obtain ⟨htakes, hlink⟩ := hok hn hpar
      rw [MemFs.mkdir_of_parent hn hpar]
      refine h.insertNew (cleanPath_valid _) (MemFs.mem_of_parentExists hpar) htakes ⟨?_, Nat.zero_le _⟩
      simp only [TarBuilder.linkFits, FileMode.isSymlink_or, FileMode.isSymlink_dir, Bool.false_or] at hlink
      simpa [TarBuilder.linkFits, NodeInner.dir] using hlink
    · rw [(MemFs.mkdir_of_no_parent hn hpar).2]
      exact h

theorem eraseNode (h : Patchable tar fs) {p : String} (hfree : fs.someBelow p = false) : Patchable tar (fs.eraseNode p) := by
  have hmem : ∀ {q}, q ∈ (fs.eraseNode p).nodes ↔ q ≠ p ∧ q ∈ fs.nodes := by
    intro q
    rw [MemFs.mem_nodes_iff, MemFs.eraseNode_get, MemFs.mem_nodes_iff]
    by_cases hpq : p = q <;> simp [hpq, eq_comm]
  refine ⟨h.alloc.eraseNode p, fun q hq hdot => hmem.mpr ⟨fun hpar => ?_, h.closed q (hmem.mp hq).2 hdot⟩,
    fun q hq => h.paths q (hmem.mp hq).2, h.nodes⟩
  -- A key whose parent is taken away lies below it.
  obtain ⟨i, hi⟩ := MemFs.mem_nodes_iff.mp (hmem.mp hq).2
  have hqdot : q ≠ "." := by
    rintro rfl
    exact hdot rfl
  have hb := MemFs.someBelow_iff.mpr ⟨q, (hmem.mp hq).2, hpar ▸ below_parentPath (h.alloc.valid hi) hqdot⟩
  rw [hb] at hfree
  cases hfree

theorem remove (h : Patchable tar fs) {name : String} (hok : fs.removeOk (cleanPath name) = true) :
    Patchable tar (MemFs.remove name fs).2 := by
  rcases MemFs.remove_cases fs name with hs | ⟨hdot, -, hempty, hs⟩
  · exact h.of_shape hs
  · have hfree : fs.someBelow (cleanPath name) = false := by
      simpa [MemFs.removeOk, hdot, hempty] using hok
    exact (h.eraseNode hfree).of_shape hs

theorem link (h : Patchable tar fs) {old new : String}
    (hok : fs.linkProceeds (cleanPath old) (cleanPath new) = true → tar.takes (cleanPath new) = true) :
    Patchable tar (MemFs.link old new fs).2 := by
  cases hp : fs.linkProceeds (cleanPath old) (cleanPath new) with
  | false =>
    rw [(MemFs.link_of_not_proceeds hp).2]
    exact h
  | true =>
    have hchecks := hp
    simp only [MemFs.linkProceeds, Bool.and_eq_true, beq_iff_eq] at hchecks
    obtain ⟨⟨⟨-, hpar⟩, hsrc⟩, -⟩ := hchecks
    obtain ⟨id, hid⟩ := Option.isSome_iff_exists.mp hsrc
    have hmem : ∀ {q}, q ∈ (fs.insertNode (cleanPath new) id).nodes ↔ cleanPath new = q ∨ q ∈ fs.nodes := by
      intro q
      rw [MemFs.mem_nodes_iff, MemFs.insertNode_get, MemFs.mem_nodes_iff]
      by_cases hq : cleanPath new = q <;> simp [hq]
    rw [MemFs.link_of_proceeds hp hid]
    suffices hnew : Patchable tar (fs.insertNode (cleanPath new) id) from hnew.of_shape MemFs.shape_recomputeDirSizes
    refine ⟨h.alloc.insertNode (cleanPath_valid _) hid, fun q hq hdot => ?_, fun q hq => ?_, h.nodes⟩
    · rcases hmem.mp hq with rfl | hq
      · exact hmem.mpr (Or.inr ((MemFs.mem_of_parentIsDir hpar).resolve_left hdot))
      · exact hmem.mpr (Or.inr (h.closed q hq hdot))
    · rcases hmem.mp hq with rfl | hq
      · exact hok hp
      · exact h.paths q hq

/-- One key moves. -/
theorem moveOne (h : Patchable tar fs) {old new : String} {id : NodeId} (hid : fs.nodes[old]? = some id)
    (hheap : fs'.heap = fs.heap) (hnext : fs'.next = fs.next)
    (hget : ∀ q : String, fs'.nodes[q]? = if new = q then some id else if old = q then none else fs.nodes[q]?)
    (hvalid : validPath new = true) (hpar : parentPath new = "." ∨ parentPath new ∈ fs.nodes)
    (htakes : tar.takes new = true) (halone : old = "." ∨ fs.someBelow old = false)
    (hout : old = "." ∨ within old new = false) : Patchable tar fs' := by
  have hmem : ∀ {q}, q ∈ fs'.nodes ↔ q = new ∨ q ≠ old ∧ q ∈ fs.nodes := by
    intro q
    rw [MemFs.mem_nodes_iff, hget, MemFs.mem_nodes_iff]
    by_cases hnew : new = q
    · simp [hnew]
    · by_cases hold : old = q
      · simp [hnew, hold, Ne.symm hnew]
      · simp [hnew, hold, Ne.symm hnew, Ne.symm hold]
  refine ⟨h.alloc.of_nodes hnext fun q i hq => ?_, fun q hq hdot => ?_, fun q hq => ?_, fun i => hheap ▸ h.nodes i⟩
  · rw [hget] at hq
    split at hq
    · rename_i hnew
      cases hq
      exact ⟨hnew ▸ hvalid, old, hid⟩
    · split at hq
      · cases hq
      · exact ⟨h.alloc.valid hq, q, hq⟩
  · rcases hmem.mp hq with rfl | ⟨-, hq⟩
    · refine hmem.mpr (Or.inr ⟨fun hpo => ?_, hpar.resolve_left hdot⟩)
      rcases hout with rfl | hout
      · exact hdot hpo
      · rw [← hpo, within_of_within_parentPath hvalid (within_self _)] at hout
        cases hout
    · refine hmem.mpr (Or.inr ⟨fun hpo => ?_, h.closed q hq hdot⟩)
      rcases halone with rfl | hfree
      · exact hdot hpo
      · obtain ⟨i, hi⟩ := MemFs.mem_nodes_iff.mp hq
        have hqdot : q ≠ "." := by
          rintro rfl
          exact hdot rfl
        have hb := MemFs.someBelow_iff.mpr ⟨q, hq, hpo ▸ below_parentPath (h.alloc.valid hi) hqdot⟩
        rw [hb] at hfree
        cases hfree
  · rcases hmem.mp hq with rfl | ⟨-, hq⟩
    · exact htakes
    · exact h.paths q hq

/-- A directory moves with everything below it. -/
theorem moveTree (h : Patchable tar fs) {old new : String} (hvnew : validPath new = true) (hold : old ≠ ".")
    (hnew : new ≠ ".") (hout : within old new = false) (hpar : parentPath new = "." ∨ parentPath new ∈ fs.nodes)
    (htakes : ∀ m ∈ fs.toMove old new, tar.takes m.2.1 = true) : Patchable tar (fs.moveTree old new) := by
  obtain ⟨hheap, -⟩ := fs.moveTree_frame old new
  -- What stays is what lies outside of the old directory.
  have hstays : ∀ {q}, q ∈ fs.nodes → within old q = false → q ∈ (fs.moveTree old new).nodes := by
    intro q hq hw
    refine MemFs.mem_moveTree.mpr (Or.inr ⟨hq, fun m hm hmq => ?_⟩)
    rw [← hmq, ((MemFs.mem_toMove h.alloc hold hnew).mp hm).2.1] at hw
    cases hw
  refine ⟨h.alloc.moveTree hvnew hold hnew, fun q hq hdot => ?_, fun q hq => ?_, fun i => hheap ▸ h.nodes i⟩
  · rcases MemFs.mem_moveTree.mp hq with ⟨m, hm, rfl⟩ | ⟨hq, hmoved⟩
    · obtain ⟨hm₁, hw, hrebase⟩ := (MemFs.mem_toMove h.alloc hold hnew).mp hm
      have hvalid := h.alloc.valid hm₁
      rw [hrebase] at hdot ⊢
      rcases within_iff_below.mp hw with heq | hb
      · rw [heq, rebase_self] at hdot ⊢
        refine hstays (hpar.resolve_left hdot) ?_
        rw [Bool.eq_false_iff] at hout ⊢
        exact fun hw' => hout (within_of_within_parentPath hvnew hw')
      · rw [rebase_parentPath hvnew hvalid hb] at hdot ⊢
        have hmdot := below_ne_dot hb
        have hwpar : within old (parentPath m.1) = true :=
          within_iff_below.mpr ((below_iff_parent hvalid hmdot).mp hb)
        have hpdot : parentPath m.1 ≠ "." := by
          intro hpd
          rw [hpd] at hwpar
          rcases within_iff_below.mp hwpar with heq | hb'
          · exact hold heq.symm
          · exact below_ne_dot hb' rfl
        obtain ⟨j, hj⟩ := MemFs.mem_nodes_iff.mp (h.closed m.1 (MemFs.mem_nodes_iff.mpr ⟨_, hm₁⟩) hpdot)
        refine MemFs.mem_moveTree.mpr (Or.inl ⟨(parentPath m.1, rebase old new (parentPath m.1), j), ?_, rfl⟩)
        exact (MemFs.mem_toMove h.alloc hold hnew).mpr ⟨hj, hwpar, rfl⟩
    · have hw : within old q = false := by
        rw [Bool.eq_false_iff]
        intro hw
        obtain ⟨j, hj⟩ := MemFs.mem_nodes_iff.mp hq
        exact hmoved (q, rebase old new q, j) ((MemFs.mem_toMove h.alloc hold hnew).mpr ⟨hj, hw, rfl⟩) rfl
      obtain ⟨i, hi⟩ := MemFs.mem_nodes_iff.mp hq
      refine hstays (h.closed q hq hdot) ?_
      rw [Bool.eq_false_iff] at hw ⊢
      exact fun hw' => hw (within_of_within_parentPath (h.alloc.valid hi) hw')
  · rcases MemFs.mem_moveTree.mp hq with ⟨m, hm, rfl⟩ | ⟨hq, -⟩
    · exact htakes m hm
    · exact h.paths q hq

/-- The operations that change the node of a path keep every key, and succeed only on a path with a node. -/
theorem of_nodeOr (h : Patchable tar fs) (op : String) {name : String} {f : NodeId → Prog MemFs Error Unit}
    (hf : ∀ id, fs.nodes[name]? = some id → Patchable tar (f id fs).2 ∧ (f id fs).2.nodes = fs.nodes) :
    Patchable tar ((MemFs.nodeOr op name >>= f) fs).2 ∧ ((MemFs.nodeOr op name >>= f) fs).2.nodes = fs.nodes ∧
      (((MemFs.nodeOr op name >>= f) fs).1.isOk = true → name ∈ fs.nodes) := by
  rcases MemFs.nodeOr_cases op name fs with ⟨id, hid, hnode⟩ | ⟨-, hnode⟩
  · rw [bind_ok hnode]
    exact ⟨(hf id hid).1, (hf id hid).2, fun _ => MemFs.mem_nodes_iff.mpr ⟨id, hid⟩⟩
  · rw [bind_err hnode]
    exact ⟨h, rfl, fun hok => by cases hok⟩

end Patchable

/-! ### Marks -/

section
variable {tar : TarBuilder} {marks : SyncState} {fs fs' : MemFs}

theorem MarksFit.mono (h : MarksFit tar marks fs) (hsub : ∀ q, q ∈ fs.nodes → q ∈ fs'.nodes) : MarksFit tar marks fs' := by
  intro p e hp
  have hfits := h p e hp
  cases hc : e.change with
  | upsert =>
    rw [hc] at hfits
    exact hsub p hfits
  | remove recursive =>
    rw [hc] at hfits
    exact hfits

/-- A new mark replaces the one that its path had. -/
theorem MarksFit.mark {path : String} {change : DirtyChange} (hnew : MarkFits tar fs (cleanPath path) change)
    (h : ∀ (p : String) (e : DirtyEntry), p ≠ cleanPath path → marks.dirty[p]? = some e → MarkFits tar fs p e.change) :
    MarksFit tar (marks.markDirty path change) fs := by
  intro p e hp
  rw [SyncState.markDirty_getElem?] at hp
  split at hp
  · rename_i heq
    cases hp
    exact heq ▸ hnew
  · rename_i hne
    exact h p e (Ne.symm hne) hp

/-- A store from which patches can be built. -/
structure Buildable (tar : TarBuilder) (s : SyncStore MemFs) : Prop where
  patch : Patchable tar s.localFs
  marks : MarksFit tar s.marks s.localFs

namespace Buildable
variable {s : SyncStore MemFs}

theorem of_shape (h : Buildable tar s) (hs : fs'.shape = s.localFs.shape) : Buildable tar { s with localFs := fs' } := by
  refine ⟨h.patch.of_shape hs, h.marks.mono fun q hq => ?_⟩
  have hn : fs'.nodes = s.localFs.nodes := congrArg Shape.nodes hs
  rw [hn]
  exact hq

/-- The rest of an operation that marks when it succeeds and does nothing when it fails. -/
theorem of_marked (h : Buildable tar s) {p : Prog MemFs Error Unit} {after : Unit → Prog (SyncStore MemFs) Error Unit}
    {M : SyncState → SyncState} (hafter : ∀ s : SyncStore MemFs, after () s = (.ok (), { s with marks := M s.marks }))
    (hclean : MemFs.Clean p)
    (hp : (p s.localFs).1.isOk = true → Patchable tar (p s.localFs).2 ∧ MarksFit tar (M s.marks) (p s.localFs).2) :
    Buildable tar ((onLocal p >>= after) s).2 := by
  have hfail := hclean s.localFs
  rw [bind_apply, onLocal, zoom_apply]
  rcases hr : p s.localFs with ⟨a | e | _, fs'⟩ <;> rw [hr] at hfail hp
  · dsimp only
    rw [hafter]
    exact ⟨(hp rfl).1, (hp rfl).2⟩
  · exact h.of_shape (hfail rfl)
  · exact h.of_shape (hfail rfl)

/-- An operation that marks its path: no key is gone, and the path has a node when it succeeds. -/
theorem marking (h : Buildable tar s) {p : Prog MemFs Error Unit} {path : String} (hclean : MemFs.Clean p)
    (hpatch : Patchable tar (p s.localFs).2) (hsub : ∀ q, q ∈ s.localFs.nodes → q ∈ (p s.localFs).2.nodes)
    (hpath : (p s.localFs).1.isOk = true → cleanPath path ∈ (p s.localFs).2.nodes) :
    Buildable tar (SyncFs.marking p path s).2 := by
  refine h.of_marked (M := fun m => m.markDirty path .upsert) (fun _ => rfl) hclean fun hok => ⟨hpatch, ?_⟩
  exact MarksFit.mark (hpath hok) fun q e _ hq => h.marks.mono hsub q e hq

/-- An operation on the node of a path. -/
theorem marking_nodeOr (h : Buildable tar s) {op name : String} {f : NodeId → Prog MemFs Error Unit}
    (hclean : MemFs.Clean (MemFs.nodeOr op (cleanPath name) >>= f))
    (hf : ∀ id, s.localFs.nodes[cleanPath name]? = some id →
      Patchable tar (f id s.localFs).2 ∧ (f id s.localFs).2.nodes = s.localFs.nodes) :
    Buildable tar (SyncFs.marking (MemFs.nodeOr op (cleanPath name) >>= f) name s).2 := by
  obtain ⟨hpatch, hnodes, hpath⟩ := h.patch.of_nodeOr op hf
  refine h.marking hclean hpatch (fun q hq => ?_) fun hok => ?_
  · rw [hnodes]
    exact hq
  · rw [hnodes]
    exact hpath hok

theorem mkdir (h : Buildable tar s) {name : String} {perm : FileMode} (hok : s.mkdirFits tar (cleanPath name) perm = true) :
    Buildable tar ((syncFs memFs).mkdir name perm s).2 := by
  have hpatch : Patchable tar (MemFs.mkdir name perm s.localFs).2 := by
    refine h.patch.mkdir fun hnone hpar => ?_
    have hnot : s.localFs.nodes.contains (cleanPath name) = false := by
      rw [Std.ExtTreeMap.contains_eq_isSome_getElem?, hnone]
      rfl
    simpa [SyncStore.mkdirFits, hnot, hpar] using hok
  refine h.marking (MemFs.clean_mkdir name perm) hpatch (fun q hq => ?_) fun hokk => ?_
  · show q ∈ (MemFs.mkdir name perm s.localFs).2.nodes
    cases hn : s.localFs.nodes[cleanPath name]? with
    | some i =>
      rw [MemFs.mkdir_of_exists hn]
      exact hq
    | none =>
      by_cases hpar : (MemFs.parentExists (cleanPath name) s.localFs).1 = .ok true
      · rw [MemFs.mkdir_of_parent hn hpar, MemFs.recomputeDirSizes_nodes]
        exact MemFs.mem_insertNew.mpr (Or.inr hq)
      · rw [(MemFs.mkdir_of_no_parent hn hpar).2]
        exact hq
  · change (MemFs.mkdir name perm s.localFs).1.isOk = true at hokk
    show cleanPath name ∈ (MemFs.mkdir name perm s.localFs).2.nodes
    cases hn : s.localFs.nodes[cleanPath name]? with
    | some i =>
      rw [MemFs.mkdir_of_exists hn] at hokk
      cases hokk
    | none =>
      by_cases hpar : (MemFs.parentExists (cleanPath name) s.localFs).1 = .ok true
      · rw [MemFs.mkdir_of_parent hn hpar, MemFs.recomputeDirSizes_nodes]
        exact MemFs.mem_insertNew.mpr (Or.inl rfl)
      · rw [(MemFs.mkdir_of_no_parent hn hpar).1] at hokk
        cases hokk

theorem symlink (h : Buildable tar s) {old new : String} (hok : s.symlinkFits tar old (cleanPath new) = true) :
    Buildable tar ((syncFs memFs).symlink old new s).2 := by
  have hpatch : Patchable tar (MemFs.symlink old new s.localFs).2 := by
    refine h.patch.symlink fun hpar => ?_
    simpa [SyncStore.symlinkFits, hpar, and_assoc] using hok
  refine h.marking (MemFs.clean_symlink old new) hpatch (fun q hq => ?_) fun hokk => ?_
  · show q ∈ (MemFs.symlink old new s.localFs).2.nodes
    by_cases hpar : (MemFs.parentExists (cleanPath new) s.localFs).1 = .ok true
    · rw [MemFs.symlink_of_parent hpar, MemFs.recomputeDirSizes_nodes]
      exact MemFs.mem_insertNew.mpr (Or.inr hq)
    · rw [(MemFs.symlink_of_no_parent hpar).2]
      exact hq
  · change (MemFs.symlink old new s.localFs).1.isOk = true at hokk
    show cleanPath new ∈ (MemFs.symlink old new s.localFs).2.nodes
    by_cases hpar : (MemFs.parentExists (cleanPath new) s.localFs).1 = .ok true
    · rw [MemFs.symlink_of_parent hpar, MemFs.recomputeDirSizes_nodes]
      exact MemFs.mem_insertNew.mpr (Or.inl rfl)
    · rw [(MemFs.symlink_of_no_parent hpar).1] at hokk
      cases hokk

theorem link (h : Buildable tar s) {old new : String} (hok : s.linkFits tar (cleanPath old) (cleanPath new) = true) :
    Buildable tar ((syncFs memFs).link old new s).2 := by
  have hpatch : Patchable tar (MemFs.link old new s.localFs).2 := by
    refine h.patch.link fun hp => ?_
    simpa [SyncStore.linkFits, hp] using hok
  have hkeys : s.localFs.linkProceeds (cleanPath old) (cleanPath new) = true →
      ∀ q, q ∈ (MemFs.link old new s.localFs).2.nodes ↔ cleanPath new = q ∨ q ∈ s.localFs.nodes := by
    intro hp q
    have hchecks := hp
    simp only [MemFs.linkProceeds, Bool.and_eq_true] at hchecks
    obtain ⟨id, hid⟩ := Option.isSome_iff_exists.mp hchecks.1.2
    rw [MemFs.link_of_proceeds hp hid, MemFs.recomputeDirSizes_nodes, MemFs.mem_nodes_iff, MemFs.insertNode_get,
      MemFs.mem_nodes_iff]
    by_cases hq : cleanPath new = q <;> simp [hq]
  refine h.marking (MemFs.clean_link old new) hpatch (fun q hq => ?_) fun hokk => ?_
  · show q ∈ (MemFs.link old new s.localFs).2.nodes
    cases hp : s.localFs.linkProceeds (cleanPath old) (cleanPath new) with
    | true => exact (hkeys hp q).mpr (Or.inr hq)
    | false =>
      rw [(MemFs.link_of_not_proceeds hp).2]
      exact hq
  · change (MemFs.link old new s.localFs).1.isOk = true at hokk
    cases hp : s.localFs.linkProceeds (cleanPath old) (cleanPath new) with
    | true => exact (hkeys hp _).mpr (Or.inl rfl)
    | false =>
      rw [(MemFs.link_of_not_proceeds hp).1] at hokk
      cases hokk

theorem chmod (h : Buildable tar s) (name : String) (mode : FileMode) :
    Buildable tar ((syncFs memFs).chmod name mode s).2 := by
  refine h.marking_nodeOr (MemFs.clean_chmod name mode) fun id _ => ⟨h.patch.updateNode ?_, rfl⟩
  have hfits := h.patch.nodes id
  refine ⟨?_, hfits.2⟩
  simpa [TarBuilder.linkFits, NodeInner.setMode] using hfits.1

theorem chown (h : Buildable tar s) (name : String) (uid gid : UInt32) :
    Buildable tar ((syncFs memFs).chown name uid gid s).2 :=
  h.marking_nodeOr (MemFs.clean_chown name uid gid) fun id _ => ⟨h.patch.updateNode (h.patch.nodes id), rfl⟩

theorem chtimes (h : Buildable tar s) (name : String) (mtime : SystemTime) :
    Buildable tar ((syncFs memFs).chtimes name mtime s).2 :=
  h.marking_nodeOr (MemFs.clean_chtimes name mtime) fun id _ => ⟨h.patch.updateNode (h.patch.nodes id), rfl⟩

theorem setXattr (h : Buildable tar s) (name attr : String) (data : Bytes) :
    Buildable tar ((syncFs memFs).setXattr name attr data s).2 :=
  h.marking_nodeOr (MemFs.clean_setXattr name attr data) fun id _ => ⟨h.patch.updateNode (h.patch.nodes id), rfl⟩

theorem removeXattr (h : Buildable tar s) (name attr : String) :
    Buildable tar ((syncFs memFs).removeXattr name attr s).2 := by
  refine h.marking_nodeOr (MemFs.clean_removeXattr name attr) fun id _ => ?_
  rw [get_bind, branch_apply]
  split
  · exact ⟨h.patch.updateNode (h.patch.nodes id), rfl⟩
  · exact ⟨h.patch, rfl⟩

theorem truncate (h : Buildable tar s) {name : String} {size : UInt64}
    (hok : s.truncateFits tar (cleanPath name) size = true) : Buildable tar ((syncFs memFs).truncate name size s).2 := by
  refine h.marking_nodeOr (MemFs.clean_truncate name size) fun id hid => ?_
  rw [get_bind, branch_apply]
  split
  · exact ⟨h.patch, rfl⟩
  · rename_i hfits
    have hfits' := Bool.not_eq_true _ ▸ hfits
    have hlink : tar.linkFits (s.localFs.heap id).metadata.mode (resize (s.localFs.heap id).data size.toNat) = true := by
      simpa [SyncStore.truncateFits, hid, hfits'] using hok
    have hlen := resize_bounded (h.patch.nodes id).2 hfits'
    refine ⟨h.patch.setData hlink ?_, rfl⟩
    rw [resize_length]
    exact hlen

/-- `remove` and `rename` look before they act, and a failed look changes nothing. -/
theorem of_wasDir (h : Buildable tar s) {f : Bool → Prog (SyncStore MemFs) Error Unit} (name : String)
    (hf : ∀ recursive, Buildable tar (f recursive s).2) : Buildable tar ((SyncFs.wasDir memFs name >>= f) s).2 := by
  rw [bind_of_state (wasDir_state name s)]
  rcases (SyncFs.wasDir memFs name s).1 with b | e | _
  · exact hf b
  · exact h
  · exact h

theorem remove (h : Buildable tar s) {name : String} (hok : s.localFs.removeOk (cleanPath name) = true) :
    Buildable tar ((syncFs memFs).remove name s).2 := by
  refine h.of_wasDir name fun recursive => ?_
  refine h.of_marked (M := fun m => m.markDirty name (.remove recursive)) (fun _ => rfl) (MemFs.clean_remove name)
    fun hokk => ⟨h.patch.remove hok, ?_⟩
  have hkeys : cleanPath name ∈ s.localFs.nodes ∧
      ∀ q, q ≠ cleanPath name → q ∈ s.localFs.nodes → q ∈ (MemFs.remove name s.localFs).2.nodes := by
    rcases MemFs.remove_cases s.localFs name with hs | ⟨-, hmem, -, hs⟩
    · have hn : (MemFs.remove name s.localFs).2.nodes = s.localFs.nodes := congrArg Shape.nodes hs
      refine ⟨MemFs.mem_of_remove_ok hokk, fun q _ hq => ?_⟩
      rw [hn]
      exact hq
    · have hn : (MemFs.remove name s.localFs).2.nodes = (s.localFs.eraseNode (cleanPath name)).nodes :=
        congrArg Shape.nodes hs
      refine ⟨hmem, fun q hne hq => ?_⟩
      rw [hn, MemFs.mem_nodes_iff, MemFs.eraseNode_get, if_neg (Ne.symm hne)]
      exact MemFs.mem_nodes_iff.mp hq
  refine MarksFit.mark ?_ fun p e hne hp => ?_
  · show tar.takes (cleanPath (cleanPath name)) = true
    rw [cleanPath_of_valid (cleanPath_valid name)]
    exact h.patch.paths _ hkeys.1
  · have hfits := h.marks p e hp
    cases hc : e.change with
    | upsert =>
      rw [hc] at hfits
      exact hkeys.2 p hne hfits
    | remove recursive =>
      rw [hc] at hfits
      exact hfits

/-- A rename leaves the upsert marks of other paths on paths with a node. -/
theorem rename_marksFit (h : Buildable tar s) {old new : String}
    (hold : cleanPath old ∈ s.localFs.nodes) (hnew : cleanPath new ∈ (MemFs.rename old new s.localFs).2.nodes)
    (hrest : ∀ (q : String) (e : DirtyEntry), q ≠ cleanPath old → s.marks.dirty[q]? = some e → e.change = .upsert →
      q ∈ (MemFs.rename old new s.localFs).2.nodes) (recursive : Bool) :
    MarksFit tar ((s.marks.markDirty old (.remove recursive)).markDirty new .upsert) (MemFs.rename old new s.localFs).2 := by
  refine MarksFit.mark hnew fun p e _ hp => ?_
  rw [SyncState.markDirty_getElem?] at hp
  split at hp
  · rename_i heq
    cases hp
    show tar.takes (cleanPath p) = true
    rw [← heq, cleanPath_of_valid (cleanPath_valid old)]
    exact h.patch.paths _ hold
  · rename_i hne
    have hfits := h.marks p e hp
    cases hc : e.change with
    | upsert => exact hrest p e (Ne.symm hne) hp hc
    | remove recursive =>
      rw [hc] at hfits
      exact hfits

/-- A rename that moves one key. -/
theorem rename_alone (h : Buildable tar s) {old new : String} {id : NodeId}
    (hp : s.localFs.renameProceeds (cleanPath old) (cleanPath new) = true)
    (hid : s.localFs.nodes[cleanPath old]? = some id)
    (halone : cleanPath old = "." ∨ s.localFs.someBelow (cleanPath old) = false)
    (htakes : tar.takes (cleanPath new) = true)
    (hout : cleanPath old = "." ∨ within (cleanPath old) (cleanPath new) = false) (recursive : Bool) :
    Patchable tar (MemFs.rename old new s.localFs).2 ∧
      MarksFit tar ((s.marks.markDirty old (.remove recursive)).markDirty new .upsert)
        (MemFs.rename old new s.localFs).2 := by
  have hpar : (MemFs.parentIsDir (cleanPath new) s.localFs).1 = .ok true := by
    simp only [MemFs.renameProceeds, Bool.and_eq_true, beq_iff_eq] at hp
    exact hp.1.1.2
  obtain ⟨fs₁, hstate, hheap, hnext, hget⟩ : ∃ fs₁ : MemFs,
      (MemFs.rename old new s.localFs).2 = fs₁.recomputeDirSizes ∧ fs₁.heap = s.localFs.heap ∧
      fs₁.next = s.localFs.next ∧ ∀ q : String, fs₁.nodes[q]? =
        if cleanPath new = q then some id else if cleanPath old = q then none else s.localFs.nodes[q]? := by
    refine ⟨_, by rw [MemFs.rename_of_proceeds hp hid], ?_⟩
    split
    · obtain ⟨hheap, hnext⟩ := s.localFs.moveTree_frame (cleanPath old) (cleanPath new)
      exact ⟨hheap, hnext, MemFs.moveTree_get_of_alone h.patch.alloc hid halone⟩
    · exact ⟨rfl, rfl, MemFs.moveNode_get id⟩
  have hkeys : ∀ q, q ∈ (MemFs.rename old new s.localFs).2.nodes ↔ q ∈ fs₁.nodes := by
    intro q
    rw [hstate, MemFs.recomputeDirSizes_nodes]
  constructor
  · rw [hstate]
    refine Patchable.of_shape ?_ MemFs.shape_recomputeDirSizes
    exact h.patch.moveOne hid hheap hnext hget (cleanPath_valid _) (MemFs.mem_of_parentIsDir hpar) htakes halone hout
  · refine h.rename_marksFit (MemFs.mem_nodes_iff.mpr ⟨id, hid⟩) ?_ (fun q e hne hq hup => ?_) recursive
    · rw [hkeys, MemFs.mem_nodes_iff]
      exact ⟨id, by rw [hget, if_pos rfl]⟩
    · have hfits := h.marks q e hq
      rw [hup] at hfits
      obtain ⟨i, hi⟩ := MemFs.mem_nodes_iff.mp hfits
      rw [hkeys, MemFs.mem_nodes_iff, hget]
      split
      · exact ⟨id, rfl⟩
      · rw [if_neg (Ne.symm hne)]
        exact ⟨i, hi⟩

/-- A rename that moves a directory with what is below it. -/
theorem rename_tree (h : Buildable tar s) {old new : String}
    (hp : s.localFs.renameProceeds (cleanPath old) (cleanPath new) = true) (hold : cleanPath old ≠ ".")
    (hdir : s.localFs.isDirNode (cleanPath old) = true) (hnew : cleanPath new ≠ ".")
    (hout : within (cleanPath old) (cleanPath new) = false) (hmarks : s.upsertBelow (cleanPath old) = false)
    (htakes : ∀ m ∈ s.localFs.toMove (cleanPath old) (cleanPath new), tar.takes m.2.1 = true) (recursive : Bool) :
    Patchable tar (MemFs.rename old new s.localFs).2 ∧
      MarksFit tar ((s.marks.markDirty old (.remove recursive)).markDirty new .upsert)
        (MemFs.rename old new s.localFs).2 := by
  have hpar : (MemFs.parentIsDir (cleanPath new) s.localFs).1 = .ok true := by
    simp only [MemFs.renameProceeds, Bool.and_eq_true, beq_iff_eq] at hp
    exact hp.1.1.2
  obtain ⟨id, hid, hd⟩ := MemFs.isDirNode_iff.mp hdir
  have hstate : (MemFs.rename old new s.localFs).2 =
      (s.localFs.moveTree (cleanPath old) (cleanPath new)).recomputeDirSizes := by
    rw [MemFs.rename_of_proceeds hp hid, hd, if_pos rfl]
  rw [hstate]
  constructor
  · refine Patchable.of_shape ?_ MemFs.shape_recomputeDirSizes
    exact h.patch.moveTree (cleanPath_valid _) hold hnew hout (MemFs.mem_of_parentIsDir hpar) htakes
  · rw [← hstate]
    refine h.rename_marksFit (MemFs.mem_nodes_iff.mpr ⟨id, hid⟩) ?_ (fun q e hne hq hup => ?_) recursive
    · rw [hstate, MemFs.recomputeDirSizes_nodes]
      refine MemFs.mem_moveTree.mpr (Or.inl ⟨(cleanPath old, cleanPath new, id), ?_, rfl⟩)
      exact (MemFs.mem_toMove h.patch.alloc hold hnew).mpr ⟨hid, within_self _, rebase_self.symm⟩
    · have hfits := h.marks q e hq
      rw [hup] at hfits
      rw [hstate, MemFs.recomputeDirSizes_nodes]
      refine MemFs.mem_moveTree.mpr (Or.inr ⟨hfits, fun m hm hmq => ?_⟩)
      -- The path would lie at or below the old one, and a mark below it was ruled out.
      have hw := ((MemFs.mem_toMove h.patch.alloc hold hnew).mp hm).2.1
      rw [hmq] at hw
      rcases within_iff_below.mp hw with heq | hb
      · exact hne heq
      · simp only [SyncStore.upsertBelow, List.any_eq_false, Bool.and_eq_true, not_and, Prod.forall] at hmarks
        refine hmarks q e (Std.ExtTreeMap.mem_toList_iff_getElem?_eq_some.mpr hq) hb ?_
        simp [hup]

theorem rename (h : Buildable tar s) {old new : String} (hok : s.renameFits tar (cleanPath old) (cleanPath new) = true) :
    Buildable tar ((syncFs memFs).rename old new s).2 := by
  refine h.of_wasDir old fun recursive => ?_
  refine h.of_marked (M := fun m => (m.markDirty old (.remove recursive)).markDirty new .upsert) (fun _ => rfl)
    (MemFs.clean_rename old new) fun hokk => ?_
  change (MemFs.rename old new s.localFs).1.isOk = true at hokk
  show Patchable tar (MemFs.rename old new s.localFs).2 ∧ MarksFit tar _ (MemFs.rename old new s.localFs).2
  unfold SyncStore.renameFits at hok
  split at hok
  · rename_i heq
    have hmem : cleanPath old ∈ s.localFs.nodes := Std.ExtTreeMap.mem_iff_contains.mpr hok
    have hstate : (MemFs.rename old new s.localFs).2 = s.localFs :=
      MemFs.rename_of_not_proceeds (by simp [MemFs.renameProceeds, heq])
    have hnew : cleanPath new ∈ (MemFs.rename old new s.localFs).2.nodes := by
      rw [hstate, ← heq]
      exact hmem
    refine ⟨?_, h.rename_marksFit hmem hnew (fun q e _ hq hup => ?_) recursive⟩
    · rw [hstate]
      exact h.patch
    · have hfits := h.marks q e hq
      rw [hup] at hfits
      rw [hstate]
      exact hfits
  · rename_i hne
    have hp : s.localFs.renameProceeds (cleanPath old) (cleanPath new) = true := MemFs.proceeds_of_rename_ok hne hokk
    rw [hp] at hok
    have hsrc : (s.localFs.nodes[cleanPath old]?).isSome = true := by
      simp only [MemFs.renameProceeds, Bool.and_eq_true] at hp
      exact hp.1.2
    obtain ⟨id, hid⟩ := Option.isSome_iff_exists.mp hsrc
    split at hok
    · rename_i halone
      simp only [Bool.not_true, Bool.false_or, Bool.and_eq_true, Bool.or_eq_true, beq_iff_eq, Bool.not_eq_true'] at hok
      exact h.rename_alone hp hid halone hok.1 hok.2 recursive
    · rename_i halone
      rw [not_or] at halone
      simp only [Bool.not_true, Bool.false_or, Bool.and_eq_true, bne_iff_ne, Bool.not_eq_true', List.all_eq_true] at hok
      obtain ⟨⟨⟨⟨hdir, hnew⟩, hout⟩, hmarks⟩, htakes⟩ := hok
      exact h.rename_tree hp halone.1 hdir hnew hout hmarks htakes recursive

/-! ### Opening and handles -/

theorem create (h : Buildable tar s) {name : String} (hok : s.createFits tar (cleanPath name) = true) :
    Buildable tar ((syncFs memFs).create name s).2 := by
  have hout : ((syncFs memFs).create name s).2 = { s with localFs := (MemFs.create name s.localFs).2 } :=
    bind_state (fun _ _ => rfl) s
  rw [hout]
  refine ⟨h.patch.create fun hpar => ?_, h.marks.mono fun q hq => MemFs.mem_create_of_mem hq⟩
  simpa [SyncStore.createFits, hpar] using hok

theorem patchable_chmod {fs : MemFs} (h : Patchable tar fs) (name : String) (mode : FileMode) :
    Patchable tar (MemFs.chmod name mode fs).2 ∧ (MemFs.chmod name mode fs).2.nodes = fs.nodes := by
  rcases MemFs.nodeOr_cases "chmod" (cleanPath name) fs with ⟨id, -, hnode⟩ | ⟨-, hnode⟩
  · rw [MemFs.chmod, bind_ok hnode]
    have hfits := h.nodes id
    refine ⟨h.updateNode ⟨?_, hfits.2⟩, rfl⟩
    simpa [TarBuilder.linkFits, NodeInner.setMode] using hfits.1
  · rw [MemFs.chmod, bind_err hnode]
    exact ⟨h, rfl⟩

theorem openFile (h : Buildable tar s) {name : String} {flags : OpenFlags} {perm : FileMode}
    (hok : flags.isWrite = true → s.localFs.openReplaces name flags = true → s.createFits tar (cleanPath name) = true) :
    Buildable tar ((syncFs memFs).openFile name flags perm s).2 := by
  have hout : ((syncFs memFs).openFile name flags perm s).2 =
      { s with localFs := (memFs.openFile name flags perm s.localFs).2 } :=
    bind_state (fun _ _ => rfl) s
  rw [hout]
  rcases MemFs.openFile_cases name flags perm s.localFs with hs | ⟨hwrite, fs, hfs, ⟨-, -, hs⟩ | ⟨hrep, hpar, hs⟩⟩
  · exact h.of_shape hs
  · obtain ⟨hpatch, hnodes⟩ := patchable_chmod (h.patch.of_shape hfs) name perm
    refine ⟨hpatch.of_shape hs, h.marks.mono fun q hq => ?_⟩
    have hn : (memFs.openFile name flags perm s.localFs).2.nodes = s.localFs.nodes :=
      (congrArg Shape.nodes hs).trans (hnodes.trans (congrArg Shape.nodes hfs))
    rw [hn]
    exact hq
  · have hcreate : Patchable tar (MemFs.create name fs).2 := by
      refine (h.patch.of_shape hfs).create fun _ => ?_
      have hpar' := hpar
      rw [MemFs.parentExists_of_shape hfs] at hpar'
      simpa [SyncStore.createFits, hpar'] using hok hwrite hrep
    have hsub : ∀ q, q ∈ s.localFs.nodes → q ∈ (MemFs.create name fs).2.nodes := by
      intro q hq
      refine MemFs.mem_create_of_mem ?_
      have hn : fs.nodes = s.localFs.nodes := congrArg Shape.nodes hfs
      rw [hn]
      exact hq
    by_cases hperm : perm.bits = 0
    · rw [if_pos hperm] at hs
      refine ⟨hcreate.of_shape hs, h.marks.mono fun q hq => ?_⟩
      have hn : (memFs.openFile name flags perm s.localFs).2.nodes = (MemFs.create name fs).2.nodes :=
        congrArg Shape.nodes hs
      rw [hn]
      exact hsub q hq
    · rw [if_neg hperm] at hs
      obtain ⟨hpatch, hnodes⟩ := patchable_chmod hcreate name perm
      refine ⟨hpatch.of_shape hs, h.marks.mono fun q hq => ?_⟩
      have hn : (memFs.openFile name flags perm s.localFs).2.nodes = (MemFs.create name fs).2.nodes :=
        (congrArg Shape.nodes hs).trans hnodes
      rw [hn]
      exact hsub q hq

theorem open_ (h : Buildable tar s) (ctx : FsContext) (name : String) :
    Buildable tar ((syncFs memFs).open_ ctx name s).2 := by
  have hout : ((syncFs memFs).open_ ctx name s).2 = { s with localFs := (MemFs.open_ ctx name s.localFs).2 } :=
    bind_state (fun _ _ => rfl) s
  rw [hout]
  exact h.of_shape (MemFs.preserves_open ctx name s.localFs)

variable {f : SyncHandle MemFile}

theorem sync_local (h : Buildable tar s) (hf : f.inner.Bounded) (hok : s.commitFits tar f = true) :
    Patchable tar (MemFile.handle.sync (f.inner, s.localFs)).2.2 ∧
      (MemFile.handle.sync (f.inner, s.localFs)).2.2.nodes = s.localFs.nodes := by
  unfold SyncStore.commitFits at hok
  cases hi : f.inner with
  | dir g => exact ⟨h.patch, rfl⟩
  | node g =>
    rw [hi] at hok hf
    show Patchable tar (NodeFile.sync (g, s.localFs)).2.2 ∧ (NodeFile.sync (g, s.localFs)).2.2.nodes = _
    unfold NodeFile.sync
    dsimp only
    split
    · rename_i hdirty
      simp only [hdirty, Bool.not_true, Bool.false_or] at hok
      exact ⟨h.patch.setData hok hf, rfl⟩
    · exact ⟨h.patch, rfl⟩

theorem sync (h : Buildable tar s) (hf : f.inner.Bounded) (hok : s.commitFits tar f = true) :
    Buildable tar ((syncFs memFs).file.sync (f, s)).2.2 := by
  obtain ⟨hpatch, hnodes⟩ := h.sync_local hf hok
  refine ⟨hpatch, h.marks.mono fun q hq => ?_⟩
  show q ∈ (MemFile.handle.sync (f.inner, s.localFs)).2.2.nodes
  rw [hnodes]
  exact hq

theorem close (h : Buildable tar s) (hf : f.inner.Bounded) (hok : s.commitFits tar f = true)
    (hmark : s.closeMarksNode f = true) : Buildable tar ((syncFs memFs).file.close (f, s)).2.2 := by
  obtain ⟨hpatch, hnodes⟩ := h.sync_local hf hok
  show Buildable tar ((SyncHandle.onInner MemFile.handle.close >>= fun _ => SyncHandle.markClosed) (f, s)).2.2
  rw [bind_apply, SyncHandle.onInner]
  rcases close_cases f.inner s.localFs with ⟨f', hclose⟩ | ⟨e, hclose⟩
  · have hmarks : MarksFit tar s.marks (MemFile.handle.sync (f.inner, s.localFs)).2.2 := by
      refine h.marks.mono fun q hq => ?_
      rw [hnodes]
      exact hq
    rw [hclose]
    simp only [SyncHandle.markClosed, modify_apply, SyncHandle.marks_setInner]
    cases hm : f.marks with
    | none => exact ⟨hpatch, hmarks⟩
    | some path =>
      refine ⟨hpatch, MarksFit.mark ?_ fun q e _ hq => hmarks q e hq⟩
      show cleanPath path ∈ (MemFile.handle.sync (f.inner, s.localFs)).2.2.nodes
      rw [hnodes, Std.ExtTreeMap.mem_iff_contains]
      unfold SyncStore.closeMarksNode at hmark
      rw [hm] at hmark
      cases hi : f.inner with
      | dir g =>
        rw [hi] at hmark
        exact hmark
      | node g =>
        rw [hi] at hmark hclose
        simp only [Bool.or_eq_true] at hmark
        refine hmark.resolve_left fun hclosed => ?_
        -- A handle that is closed already refuses.
        simp [MemFile.handle, MemFile.dispatch, NodeFile.close, hclosed] at hclose
  · rw [hclose]
    exact h

theorem of_call (h : Buildable tar s) {α : Type} {p : Prog (MemFile × MemFs) Error α}
    (hp : (p (f.inner, s.localFs)).2.2.shape = s.localFs.shape) : Buildable tar (SyncHandle.onInner p (f, s)).2.2 :=
  h.of_shape hp

/-- The marks that a push leaves are among those it found. -/
theorem of_push (h : Buildable tar s) {s' : SyncStore MemFs} (hshape : s'.localFs.shape = s.localFs.shape)
    (hmarks : ∀ p : String, s'.marks.dirty[p]? = s.marks.dirty[p]? ∨ s'.marks.dirty[p]? = none) : Buildable tar s' := by
  have hlocal := h.of_shape hshape
  refine ⟨hlocal.patch, fun p e hp => ?_⟩
  rcases hmarks p with hsame | hnone
  · rw [hsame] at hp
    exact hlocal.marks p e hp
  · rw [hnone] at hp
    cases hp

end Buildable
end

/-! ## Runs -/

/-- A push drops marks and adds none. -/
theorem push_marks {ρ : Type} (tar : TarBuilder) (rounds : Nat) (apply : List PatchEntry → Prog ρ Error Unit) (depth : Nat)
    (s : SyncStore MemFs) (r : ρ) (p : String) :
    (SyncFs.push memFs tar rounds depth apply (s, r)).2.1.marks.dirty[p]? = s.marks.dirty[p]? ∨
      (SyncFs.push memFs tar rounds depth apply (s, r)).2.1.marks.dirty[p]? = none := by
  unfold SyncFs.push
  rw [get_bind]
  dsimp only
  rw [branch_apply]
  split
  · exact Or.inl rfl
  · rw [bind_apply, zoom_apply, onLocal, zoom_apply]
    rcases buildPatch memFs tar rounds depth s.marks.dirty s.localFs with ⟨patch | e | _, fs⟩
    · dsimp only
      rw [bind_apply, zoom_apply]
      rcases apply patch r with ⟨a | e | _, r'⟩
      · exact (SyncState.clearPushed_shrinks s.marks.dirty s.marks p).imp_right And.left
      · exact Or.inl rfl
      · exact Or.inl rfl
    · exact Or.inl rfl
    · exact Or.inl rfl

/-- Where the patch can be built, a push fails only with its remote. -/
theorem push_of_build {ρ : Type} {tar : TarBuilder} {rounds depth : Nat} {apply : List PatchEntry → Prog ρ Error Unit}
    {s : SyncStore MemFs} {r : ρ} {patch : List PatchEntry} {fs : MemFs}
    (hb : buildPatch memFs tar rounds depth s.marks.dirty s.localFs = (.ok patch, fs))
    (hfail : (SyncFs.push memFs tar rounds depth apply (s, r)).1.isOk = false) : (apply patch r).1.isOk = false := by
  unfold SyncFs.push at hfail
  rw [get_bind] at hfail
  dsimp only at hfail
  rw [branch_apply] at hfail
  split at hfail
  · cases hfail
  · rw [bind_apply, zoom_apply, onLocal, zoom_apply, hb] at hfail
    dsimp only at hfail
    rw [bind_apply, zoom_apply] at hfail
    rcases ha : apply patch r with ⟨a | e | _, r'⟩
    · rw [ha] at hfail
      cases hfail
    · rfl
    · rfl

theorem noteWritten_out {p : Prog (MemFile × MemFs) Error Nat} {f : SyncHandle MemFile} {s : SyncStore MemFs} :
    (SyncHandle.noteWritten p (f, s)).2.2 = (SyncHandle.onInner p (f, s)).2.2 ∧
      (SyncHandle.noteWritten p (f, s)).2.1.inner = (SyncHandle.onInner p (f, s)).2.1.inner := by
  unfold SyncHandle.noteWritten
  rw [bind_apply]
  rcases SyncHandle.onInner p (f, s) with ⟨n | e | _, h', s'⟩
  · dsimp only
    rw [branch_apply]
    split
    · exact ⟨rfl, by cases h' <;> rfl⟩
    · exact ⟨rfl, rfl⟩
  · exact ⟨rfl, rfl⟩
  · exact ⟨rfl, rfl⟩

theorem SyncHandle.inner_setInner (g : MemFile) (f : SyncHandle MemFile) : (f.setInner g).inner = g := by
  cases f <;> rfl

/-- A handle that wraps one of the local file system holds its data. -/
theorem bounded_wrapped {p : Prog MemFs Error MemFile} (hp : Safe MemFs.DataBounded MemFile.Bounded p)
    {wrap : MemFile → SyncHandle MemFile} (hwrap : ∀ g, (wrap g).inner = g) {s : SyncStore MemFs}
    (hs : s.localFs.DataBounded) {f : SyncHandle MemFile}
    (hf : ((onLocal p >>= fun g => pure (wrap g)) s).1 = .ok f) : f.inner.Bounded := by
  obtain ⟨g, s', hopen, hret⟩ := bind_fst_eq_ok.mp hf
  cases hret
  rw [hwrap]
  refine (hp s.localFs hs).2 g ?_
  rw [onLocal, zoom_apply] at hopen
  exact congrArg Prod.fst hopen

/-- A call on the handle of the local file system. -/
theorem BoundedCall.onInner {α : Type} {p : Prog (MemFile × MemFs) Error α} (hp : BoundedCall p) {f : SyncHandle MemFile}
    {s : SyncStore MemFs} (hf : f.inner.Bounded) (hs : s.localFs.DataBounded) :
    (SyncHandle.onInner p (f, s)).2.1.inner.Bounded := by
  show ((f.setInner _).inner).Bounded
  rw [SyncHandle.inner_setInner]
  exact (hp (f.inner, s.localFs) ⟨hf, hs⟩).1.1

namespace SyncWorld
variable {ρ : Type} {env : PushEnv ρ} {w : SyncWorld ρ}

/-- Patches can be built, and the data of the handles can be written. -/
structure PatchInv (tar : TarBuilder) (w : SyncWorld ρ) : Prop where
  store : Buildable tar w.store
  files : ∀ f ∈ w.files, f.inner.Bounded

namespace PatchInv
variable {tar : TarBuilder}

theorem onPath {α : Type} (hw : w.PatchInv tar) {p : Prog (SyncStore MemFs) Error α} (h : Buildable tar (p w.store).2) :
    (w.onPath p).PatchInv tar := ⟨h, hw.files⟩

theorem opening (hw : w.PatchInv tar) {p : Prog (SyncStore MemFs) Error (SyncHandle MemFile)}
    (h : Buildable tar (p w.store).2) (hfile : ∀ f, (p w.store).1 = .ok f → f.inner.Bounded) :
    (w.opening p).PatchInv tar := by
  refine ⟨h, fun f hf => ?_⟩
  rcases List.mem_append.mp hf with hf | hf
  · exact hw.files f hf
  · refine hfile f ?_
    cases hr : (p w.store).1 with
    | ok g =>
      rw [hr] at hf
      simp only [Outcome.toOption, Option.toList_some, List.mem_singleton] at hf
      rw [hf]
    | err e =>
      rw [hr] at hf
      cases hf
    | abort =>
      rw [hr] at hf
      cases hf

theorem onFile {α : Type} (hw : w.PatchInv tar) {file : Nat} {p : Prog (SyncHandle MemFile × SyncStore MemFs) Error α}
    (h : ∀ f, w.files[file]? = some f → f.inner.Bounded → Buildable tar (p (f, w.store)).2.2 ∧ (p (f, w.store)).2.1.inner.Bounded) :
    (w.onFile file p).PatchInv tar := by
  unfold SyncWorld.onFile
  cases hf : w.files[file]? with
  | none => exact hw
  | some f =>
    obtain ⟨hstore, hfile⟩ := h f hf (hw.files f (List.mem_of_getElem? hf))
    refine ⟨hstore, fun g hg => ?_⟩
    rcases List.mem_or_eq_of_mem_set hg with hg | rfl
    · exact hw.files g hg
    · exact hfile

theorem push (hw : w.PatchInv tar) : (w.push env).PatchInv tar := by
  obtain ⟨hshape, -⟩ := push_spec env.tar env.rounds env.apply env.depth w.store w.remote
  have hmarks := push_marks env.tar env.rounds env.apply env.depth w.store w.remote
  unfold SyncWorld.push
  rcases h : SyncFs.push memFs env.tar env.rounds env.depth env.apply (w.store, w.remote) with
    ⟨a | e | _, s, r⟩ <;> rw [h] at hshape hmarks <;> exact ⟨hw.store.of_push hshape hmarks, hw.files⟩

end PatchInv

theorem step_patchInv {tar : TarBuilder} (op : SyncOp) (hw : w.PatchInv tar) (hok : w.patchStepOk tar op = true) :
    (w.step env op).PatchInv tar := by
  have hdata := hw.store.patch.dataBounded
  cases op with
  | open_ ctx name =>
    refine hw.opening (hw.store.open_ ctx name) fun f hf => ?_
    exact bounded_wrapped (MemFs.bounded_open ctx name) (fun _ => rfl) hdata hf
  | openFile name flags perm =>
    refine hw.opening (hw.store.openFile fun hwrite hrep => ?_) fun f hf => ?_
    · simpa [patchStepOk, hwrite, hrep] using hok
    · exact bounded_wrapped (MemFs.bounded_openFile name flags perm) (fun _ => rfl) hdata hf
  | create name =>
    refine hw.opening (hw.store.create hok) fun f hf => ?_
    exact bounded_wrapped (MemFs.bounded_create name) (fun _ => rfl) hdata hf
  | mkdir name perm => exact hw.onPath (hw.store.mkdir hok)
  | remove name => exact hw.onPath (hw.store.remove hok)
  | rename old new => exact hw.onPath (hw.store.rename hok)
  | link old new => exact hw.onPath (hw.store.link hok)
  | symlink old new => exact hw.onPath (hw.store.symlink hok)
  | chmod name mode => exact hw.onPath (hw.store.chmod name mode)
  | chown name uid gid => exact hw.onPath (hw.store.chown name uid gid)
  | chtimes name mtime => exact hw.onPath (hw.store.chtimes name mtime)
  | truncate name size => exact hw.onPath (hw.store.truncate hok)
  | setXattr name attr data => exact hw.onPath (hw.store.setXattr name attr data)
  | removeXattr name attr => exact hw.onPath (hw.store.removeXattr name attr)
  | read file len =>
    refine hw.onFile fun f _ hf => ⟨hw.store.of_call ?_, (MemFile.bounded_read len).onInner hf hdata⟩
    exact congrArg MemFs.shape (MemFile.read_state _ _ _).1
  | write file data =>
    refine hw.onFile fun f _ hf => ?_
    show Buildable tar (SyncHandle.noteWritten _ (f, w.store)).2.2 ∧ (SyncHandle.noteWritten _ (f, w.store)).2.1.inner.Bounded
    rw [noteWritten_out.1, noteWritten_out.2]
    exact ⟨hw.store.of_call (MemFile.write_shape _ _ _), (MemFile.bounded_write data).onInner hf hdata⟩
  | writeAt file data offset =>
    refine hw.onFile fun f _ hf => ?_
    show Buildable tar (SyncHandle.noteWritten _ (f, w.store)).2.2 ∧ (SyncHandle.noteWritten _ (f, w.store)).2.1.inner.Bounded
    rw [noteWritten_out.1, noteWritten_out.2]
    exact ⟨hw.store.of_call (MemFile.writeAt_shape _ _ _ _), (MemFile.bounded_writeAt data offset).onInner hf hdata⟩
  | seek file pos =>
    refine hw.onFile fun f _ hf => ⟨hw.store.of_call ?_, (MemFile.bounded_seek pos).onInner hf hdata⟩
    exact congrArg MemFs.shape (MemFile.seek_state _ _ _)
  | sync file =>
    refine hw.onFile fun f hfile hf => ⟨hw.store.sync hf ?_, MemFile.bounded_sync.onInner hf hdata⟩
    simpa [patchStepOk, hfile] using hok
  | close file =>
    refine hw.onFile fun f hfile hf => ?_
    have hfits : w.store.commitFits tar f = true ∧ w.store.closeMarksNode f = true := by
      simpa [patchStepOk, hfile] using hok
    refine ⟨hw.store.close hf hfits.1 hfits.2, ?_⟩
    have hinner := MemFile.bounded_close.onInner hf hdata
    show ((SyncHandle.onInner MemFile.handle.close >>= fun _ => SyncHandle.markClosed) (f, w.store)).2.1.inner.Bounded
    rw [bind_apply]
    rcases hr : SyncHandle.onInner MemFile.handle.close (f, w.store) with ⟨u | e | _, g, s⟩ <;> rw [hr] at hinner
    · dsimp only [SyncHandle.markClosed, modify_apply]
      split <;> exact hinner
    · exact hinner
    · exact hinner
  | drop file => exact ⟨hw.store, fun f hf => hw.files f (List.mem_of_mem_eraseIdx hf)⟩
  | push => exact hw.push

/-- The steps of a run that keep patches buildable. -/
def PatchStep (tar : TarBuilder) (w : SyncWorld ρ) (op : SyncOp) : Prop := w.patchStepOk tar op = true

instance (tar : TarBuilder) (w : SyncWorld ρ) (op : SyncOp) : Decidable (PatchStep tar w op) :=
  inferInstanceAs (Decidable (_ = true))

/-- A file system has a longest path. -/
theorem exists_depth (fs : MemFs) : ∃ depth, ∀ q, q ∈ fs.nodes → (components q).length < depth := by
  refine ⟨((fs.nodes.keys.map fun q => (components q).length).foldr max 0) + 1, fun q hq => Nat.lt_succ_of_le ?_⟩
  have hmem := List.mem_map_of_mem (f := fun q => (components q).length) (Std.ExtTreeMap.mem_keys.mpr hq)
  exact List.le_max_of_le' 0 hmem (Nat.le_refl _)

/-- In a run whose steps leave no upsert mark without its node and nothing that the tar builder
refuses, the patch of every state reached is built, given room for its depth and its files, and
a push there fails only with its remote. -/
theorem run_buildPatch (env : PushEnv ρ) (fs : MemFs) (remote : ρ) (hfs : Patchable env.tar fs) (ops : List SyncOp)
    (h : StepsMeet (step env) (PatchStep env.tar) (init fs remote) ops) (k : Nat) :
    ∃ depth₀ rounds₀, ∀ depth ≥ depth₀, ∀ rounds ≥ rounds₀,
      let w := run (step env) (init fs remote) (ops.take k)
      ∃ patch fs', buildPatch memFs env.tar rounds depth w.store.marks.dirty w.store.localFs = (.ok patch, fs') ∧
        ((SyncFs.push memFs env.tar rounds depth env.apply (w.store, w.remote)).1.isOk = false →
          (env.apply patch w.remote).1.isOk = false) := by
  have hinit : PatchInv env.tar (init fs remote) :=
    ⟨⟨hfs, fun p e hp => by simp [init, SyncState.new] at hp⟩, fun f hf => by cases hf⟩
  have hw := run_invariant (I := PatchInv env.tar) (fun _ op hw hok => step_patchInv op hw hok) hinit (h.take k)
  obtain ⟨depth₀, hdepth₀⟩ := exists_depth (run (step env) (init fs remote) (ops.take k)).store.localFs
  refine ⟨depth₀, isizeMax + 2, fun depth hdepth rounds hrounds => ?_⟩
  obtain ⟨rounds, rfl⟩ : ∃ r, rounds = r + 1 := ⟨rounds - 1, by omega⟩
  have hfuel : isizeMax < 8192 * rounds := by omega
  obtain ⟨patch, fs', hbuild, -⟩ := buildPatch_triple hw.store.patch hw.store.marks hfuel
    (fun q hq => Nat.lt_of_lt_of_le (hdepth₀ q hq) hdepth) _ rfl
  exact ⟨patch, fs', hbuild, push_of_build hbuild⟩

/-- No patch can be built while an upsert mark is on a path without a node. -/
theorem buildPatch_stuck {tar : TarBuilder} {fs : MemFs} {marks : SyncState} {p : String} {e : DirtyEntry}
    (hp : marks.dirty[p]? = some e) (hup : e.change = .upsert) (hvalid : validPath p = true) (hnone : p ∉ fs.nodes)
    (rounds depth : Nat) : (buildPatch memFs tar rounds depth marks.dirty fs).1.isOk = false := by
  rw [Bool.eq_false_iff]
  intro hok
  have hmap : (marks.dirty.toList.mapM (appendMark memFs tar rounds depth) fs).1.isOk = true := by
    unfold buildPatch at hok
    rw [bind_apply] at hok
    rcases hm : marks.dirty.toList.mapM (appendMark memFs tar rounds depth) fs with ⟨as | err | _, fs'⟩ <;> rw [hm] at hok
    · rfl
    · cases hok
    · cases hok
  have hsafe : ∀ mark ∈ marks.dirty.toList,
      Safe (fun s : MemFs => s.shape = fs.shape) (fun _ => True) (appendMark memFs tar rounds depth mark) := by
    intro mark _ s hs
    refine ⟨?_, fun _ _ => trivial⟩
    have hkeep := preserves_appendMark tar rounds depth mark s
    exact hkeep.trans hs
  obtain ⟨s, hs, hmark⟩ := ok_of_mapM_ok hsafe rfl hmap (p, e) (Std.ExtTreeMap.mem_toList_iff_getElem?_eq_some.mpr hp)
  have hn : s.nodes = fs.nodes := congrArg Shape.nodes hs
  unfold appendMark at hmark
  rw [hup] at hmark
  dsimp only at hmark
  cases depth with
  | zero => cases hmark
  | succ depth =>
    unfold appendPatchPath at hmark
    rw [bind_apply] at hmark
    rcases hl : memFs.freeLstat p s with ⟨m | err | _, s'⟩ <;> rw [hl] at hmark
    · have hmem : p ∈ s.nodes := MemFs.mem_of_stat_ok hvalid (congrArg Prod.fst hl)
      rw [hn] at hmem
      exact hnone hmem
    · cases hmark
    · cases hmark

theorem patchable_new (clock : Nat → SystemTime) : Patchable quietEnv.tar (MemFs.new clock) where
  alloc := (MemWorld.init_treeInv clock).alloc
  closed := (MemWorld.init_treeInv clock).tree.parentClosed
  paths _ _ := rfl
  nodes _ := ⟨by simp [TarBuilder.linkFits, quietEnv, Except.toBool], Nat.zero_le _⟩

def patchedRun : List SyncOp :=
  [.mkdir "a" (FileMode.fromPerm 0o755), .create "a/b", .write 0 [104, 105], .close 0, .push, .rename "a" "c",
   .symlink "b" "c/l", .link "c/b" "d", .chmod "c/b" (FileMode.fromPerm 0o600), .truncate "d" 1, .remove "c/b"]

theorem run_buildPatch_patchedRun :
    StepsMeet (step quietEnv) (PatchStep quietEnv.tar) (init (MemFs.new fun _ => 0) ()) patchedRun ∧
    ∃ depth₀ rounds₀, ∀ depth ≥ depth₀, ∀ rounds ≥ rounds₀,
      let w := run (step quietEnv) (init (MemFs.new fun _ => 0) ()) (patchedRun.take 11)
      ∃ patch fs', buildPatch memFs quietEnv.tar rounds depth w.store.marks.dirty w.store.localFs = (.ok patch, fs') ∧
        ((SyncFs.push memFs quietEnv.tar rounds depth quietEnv.apply (w.store, w.remote)).1.isOk = false →
          (quietEnv.apply patch w.remote).1.isOk = false) := by
  have h : StepsMeet (step quietEnv) (PatchStep quietEnv.tar) (init (MemFs.new fun _ => 0) ()) patchedRun := by
    decide +kernel
  exact ⟨h, run_buildPatch _ _ _ (patchable_new _) _ h 11⟩

/-- The mark of a file stays behind when its directory is renamed. -/
def staleRun : List SyncOp :=
  [.mkdir "d" (FileMode.fromPerm 0o755), .create "d/f", .close 0, .rename "d" "e"]

theorem run_buildPatch_stuck :
    ¬ ∀ (fs : MemFs) (ops : List SyncOp), Patchable quietEnv.tar fs →
      ∃ depth₀ rounds₀, ∀ depth ≥ depth₀, ∀ rounds ≥ rounds₀,
        let w := run (step quietEnv) (init fs ()) ops
        (buildPatch memFs quietEnv.tar rounds depth w.store.marks.dirty w.store.localFs).1.isOk = true := by
  intro h
  obtain ⟨depth₀, rounds₀, hbuild⟩ := h (MemFs.new fun _ => 0) staleRun (patchable_new _)
  have hok := hbuild depth₀ (Nat.le_refl _) rounds₀ (Nat.le_refl _)
  have hstuck : ∀ rounds depth, (buildPatch memFs quietEnv.tar rounds depth
      (run (step quietEnv) (init (MemFs.new fun _ => 0) ()) staleRun).store.marks.dirty
      (run (step quietEnv) (init (MemFs.new fun _ => 0) ()) staleRun).store.localFs).1.isOk = false := by
    refine fun rounds depth => buildPatch_stuck (p := "d/f") (e := { change := .upsert, generation := 2 }) ?_ rfl
      (by decide) ?_ rounds depth
    · decide +kernel
    · decide +kernel
  exact Bool.false_ne_true ((hstuck rounds₀ depth₀).symm.trans hok)

end SyncWorld

end Star9
