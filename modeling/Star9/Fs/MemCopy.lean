import Star9.Fs.MemRun
import Star9.Fs.MemWrite

/-!
# Copying a tree

`copy_all` walks down the listing of the source while it writes the destination.
It ends when the names that are listed below the source do not lead to the
destination, and then the destination is the source name by name, but for the
permissions of links and of files that have none.
-/
namespace Star9
open Base Prog

/-- Names that listings show. -/
def ListedNames (names : List String) : Prop := ∀ c ∈ names, ValidName c ∧ MemFs.hiddenName c = false

theorem ListedNames.valid {names : List String} (h : ListedNames names) : ∀ c ∈ names, ValidName c := fun c hc => (h c hc).1

theorem listed_cons {c : String} {names : List String} :
    ListedNames (c :: names) ↔ (ValidName c ∧ MemFs.hiddenName c = false) ∧ ListedNames names :=
  List.forall_mem_cons

/-- Nothing that is listed below the source lies within the destination. -/
def ListedApart (src dst : String) : Prop := ∀ names, ListedNames names → within dst (descend src names) = false

theorem not_within_child {p q c : String} (hc : ValidName c) (h : within p q = false) : within (childPath p c) q = false := by
  by_contra hin
  rw [Bool.not_eq_false] at hin
  rw [within_of_within_childPath hc hin] at h
  cases h

theorem not_within_self_child (p : String) {c : String} (hc : ValidName c) : within (childPath p c) p = false := by
  by_contra hin
  rw [Bool.not_eq_false, within_iff, components_childPath p hc] at hin
  obtain ⟨cs, hcs⟩ := hin
  rw [List.append_assoc] at hcs
  exact absurd (List.self_eq_append_right.mp hcs) (List.cons_ne_nil _ _)

theorem ListedApart.child {src dst : String} (h : ListedApart src dst) {c : String} (hc : ValidName c ∧ MemFs.hiddenName c = false) :
    ListedApart (childPath src c) dst := by
  intro names hnames
  rw [descend_childPath src hc.1]
  exact h (c :: names) (listed_cons.mpr ⟨hc, hnames⟩)

/-! ## What is kept of a node -/

namespace NodeCore

/-- A node has one kind, and a file fits into memory. -/
structure Plain (c : NodeCore) : Prop where
  oneKind : c.mode.isSymlink = true → c.mode.isDir = false
  fits : c.mode.isSymlink = false → c.data.length ≤ isizeMax

/-- The node that a copy has in the place of this one. -/
def copied (c : NodeCore) : NodeCore :=
  if c.mode.isSymlink then (NodeInner.symlink "" (utf8Lossy c.data)).core
  else if c.mode.isDir then (NodeInner.dir "" (FileMode.dir ||| c.mode)).core
  else (NodeInner.file "" c.data (MemFs.createdMode c.mode)).core

end NodeCore

/-- What a reader sees of a node. -/
inductive NodeView where
  | link (perm : UInt32) (target : String)
  | dir (perm : UInt32)
  | file (perm : UInt32) (data : Bytes)
  deriving DecidableEq

def NodeCore.view (c : NodeCore) : NodeView :=
  if c.mode.isSymlink then .link c.mode.perm (utf8Lossy c.data)
  else if c.mode.isDir then .dir c.mode.perm
  else .file c.mode.perm c.data

namespace NodeCore
variable {c : NodeCore}

/-- A copied link has all permissions, and a copied file without a mode the default ones. -/
structure Kept (c : NodeCore) : Prop where
  link : c.mode.isSymlink = true → c.mode.perm = 0o777
  file : c.mode.isSymlink = false → c.mode.isDir = false → c.mode.bits ≠ 0

theorem copied_of_link (h : c.mode.isSymlink = true) : c.copied = (NodeInner.symlink "" (utf8Lossy c.data)).core := by
  rw [copied, if_pos h]

theorem copied_of_dir (hlink : c.mode.isSymlink = false) (hdir : c.mode.isDir = true) :
    c.copied = (NodeInner.dir "" (FileMode.dir ||| c.mode)).core := by
  rw [copied, if_neg (by rw [hlink]; decide), if_pos hdir]

theorem copied_of_file (hlink : c.mode.isSymlink = false) (hdir : c.mode.isDir = false) :
    c.copied = (NodeInner.file "" c.data (MemFs.createdMode c.mode)).core := by
  rw [copied, if_neg (by rw [hlink]; decide), if_neg (by rw [hdir]; decide)]

theorem mode_symlink (name target : String) : (NodeInner.symlink name target).core.mode = ⟨0x400001ff⟩ := by
  show (FileMode.symlink ||| FileMode.fromPerm 0o777).withPerm (FileMode.symlink ||| FileMode.fromPerm 0o777).perm = _
  decide

theorem mode_dir (name : String) (mode : FileMode) : (NodeInner.dir name mode).core.mode = mode ||| FileMode.dir := rfl

theorem mode_file (name : String) (data : Bytes) (mode : FileMode) : (NodeInner.file name data mode).core.mode = mode := rfl

theorem isDir_createdMode (mode : FileMode) : (MemFs.createdMode mode).isDir = false := by
  unfold MemFs.createdMode
  split <;> simp

theorem isSymlink_createdMode (mode : FileMode) : (MemFs.createdMode mode).isSymlink = false := by
  unfold MemFs.createdMode
  split <;> simp

/-- A copy has the kind of what was copied. -/
theorem isDir_copied (hc : c.Plain) : c.copied.mode.isDir = c.mode.isDir := by
  cases hlink : c.mode.isSymlink with
  | true =>
    rw [copied_of_link hlink, hc.oneKind hlink, mode_symlink]
    decide
  | false =>
    cases hdir : c.mode.isDir with
    | true =>
      rw [copied_of_dir hlink hdir, mode_dir]
      simp
    | false =>
      rw [copied_of_file hlink hdir]
      exact isDir_createdMode c.mode

theorem isSymlink_copied : c.copied.mode.isSymlink = c.mode.isSymlink := by
  cases hlink : c.mode.isSymlink with
  | true =>
    rw [copied_of_link hlink, mode_symlink]
    decide
  | false =>
    cases hdir : c.mode.isDir with
    | true =>
      rw [copied_of_dir hlink hdir, mode_dir]
      simp [hlink]
    | false =>
      rw [copied_of_file hlink hdir]
      exact isSymlink_createdMode c.mode

theorem Plain.copied (hc : c.Plain) : c.copied.Plain := by
  refine ⟨fun hlink => ?_, fun hlink => ?_⟩
  · rw [isDir_copied hc]
    exact hc.oneKind (isSymlink_copied.symm.trans hlink)
  · rw [isSymlink_copied] at hlink
    cases hdir : c.mode.isDir with
    | true =>
      rw [copied_of_dir hlink hdir]
      exact Nat.zero_le _
    | false =>
      rw [copied_of_file hlink hdir]
      exact hc.fits hlink

theorem view_copied (c : NodeCore) : c.copied.view = c.view ↔ c.Kept := by
  cases hlink : c.mode.isSymlink with
  | true =>
    have hview : c.copied.view = .link 0o777 (utf8Lossy c.data) := by
      have hdata : (NodeInner.symlink "" (utf8Lossy c.data)).core.data = utf8Bytes (utf8Lossy c.data) := rfl
      have hperm : (⟨0x400001ff⟩ : FileMode).perm = 0o777 := by decide
      rw [view, if_pos (isSymlink_copied.trans hlink), copied_of_link hlink, mode_symlink, hperm, hdata, utf8Lossy_utf8Bytes]
    rw [hview, view, if_pos hlink, NodeView.link.injEq]
    exact ⟨fun h => ⟨fun _ => h.1.symm, fun hfile => absurd (hlink.symm.trans hfile) (by decide)⟩,
      fun h => ⟨(h.link hlink).symm, rfl⟩⟩
  | false =>
    have hnot : ¬c.mode.isSymlink = true := by rw [hlink]; decide
    have hnot' : ¬c.copied.mode.isSymlink = true := by rw [isSymlink_copied]; exact hnot
    cases hdir : c.mode.isDir with
    | true =>
      have hmode : c.copied.mode = FileMode.dir ||| c.mode ||| FileMode.dir := by
        rw [copied_of_dir hlink hdir, mode_dir]
      have hperm : c.copied.mode.perm = c.mode.perm := by
        rw [hmode, FileMode.perm_or, FileMode.perm_or, FileMode.perm_dir, UInt32.zero_or, UInt32.or_zero]
      have hisDir : c.copied.mode.isDir = true := by simp [hmode]
      rw [view, if_neg hnot', if_pos hisDir, view, if_neg hnot, if_pos hdir, hperm]
      exact ⟨fun _ => ⟨fun h => absurd h hnot, fun _ hfile => absurd (hdir.symm.trans hfile) (by decide)⟩, fun _ => rfl⟩
    | false =>
      have hmode : c.copied.mode = MemFs.createdMode c.mode := by
        rw [copied_of_file hlink hdir, mode_file]
      have hdata : c.copied.data = c.data := by
        rw [copied_of_file hlink hdir]
        rfl
      have hnotDir : ¬c.mode.isDir = true := by rw [hdir]; decide
      have hnotDir' : ¬c.copied.mode.isDir = true := by rw [hmode, isDir_createdMode]; decide
      rw [view, if_neg hnot', if_neg hnotDir', view, if_neg hnot, if_neg hnotDir, hdata, hmode, NodeView.file.injEq]
      have hperm : (MemFs.createdMode c.mode).perm = c.mode.perm ↔ c.mode.bits ≠ 0 := by
        unfold MemFs.createdMode
        by_cases hbits : c.mode.bits = 0
        · have hzero : c.mode.perm = 0 := by rw [FileMode.perm, hbits, UInt32.zero_and]
          rw [if_pos hbits, hzero]
          exact ⟨fun h => absurd h (by decide), fun h => absurd hbits h⟩
        · rw [if_neg hbits, FileMode.perm_fromPerm, FileMode.perm_and_mask]
          exact ⟨fun _ => hbits, fun _ => rfl⟩
      rw [hperm]
      exact ⟨fun h => ⟨fun hl => absurd hl hnot, fun _ _ => h.1⟩, fun h => ⟨h.file hlink hdir, rfl⟩⟩

end NodeCore

namespace MemFs
variable {fs fs' : MemFs} {src dst p q : String} {names : List String}

/-- A tree whose nodes are plain. -/
structure Copyable (fs : MemFs) : Prop where
  tree : fs.TreeInv
  plain : ∀ {p c}, fs.coreAt p = some c → c.Plain

theorem coreAt_eq_none : fs.coreAt p = none ↔ p ∉ fs.nodes := by
  rw [mem_nodes_iff, coreAt, Option.map_eq_none_iff, ← Option.not_isSome_iff_eq_none, Option.isSome_iff_exists]

theorem mem_of_coreAt {c : NodeCore} (h : fs.coreAt p = some c) : p ∈ fs.nodes := by
  obtain ⟨i, hi, -⟩ := coreAt_eq_some.mp h
  exact mem_nodes_iff.mpr ⟨i, hi⟩

theorem isDirNode_eq {c : NodeCore} (h : fs.coreAt p = some c) : fs.isDirNode p = c.mode.isDir := by
  rw [isDirNode, h]

theorem coreAt_of_isDirNode (h : fs.isDirNode p = true) : ∃ c, fs.coreAt p = some c ∧ c.mode.isDir = true := by
  unfold isDirNode at h
  split at h
  · rename_i c hc
    exact ⟨c, hc, h⟩
  · cases h

namespace Copyable
variable (h : fs.Copyable)
include h

theorem valid {c : NodeCore} (hc : fs.coreAt p = some c) : validPath p = true := by
  obtain ⟨i, hi, -⟩ := coreAt_eq_some.mp hc
  exact h.tree.alloc.valid hi

/-- Nothing lies below what is no directory. -/
theorem none_below (hp : validPath p = true) (hdir : fs.isDirNode p = false) (hnames : ∀ c ∈ names, ValidName c) (hne : names ≠ []) :
    fs.coreAt (descend p names) = none := by
  rw [coreAt_eq_none]
  intro hmem
  have hbelow : below p (descend p names) = true := by
    obtain ⟨c, cs, rfl⟩ := List.exists_cons_of_ne_nil hne
    exact below_iff.mpr ⟨c, cs, components_descend hp hnames⟩
  have hfree := h.tree.tree.not_below h.tree.alloc hdir
  rw [someBelow_iff.mpr ⟨_, hmem, hbelow⟩] at hfree
  cases hfree

theorem none_within (hp : validPath p = true) (habsent : p ∉ fs.nodes) (hnames : ∀ c ∈ names, ValidName c) :
    fs.coreAt (descend p names) = none := by
  by_cases hne : names = []
  · rw [hne, descend_nil]
    exact coreAt_eq_none.mpr habsent
  · refine h.none_below hp ?_ hnames hne
    rw [isDirNode, coreAt_eq_none.mpr habsent]

/-- A directory that is the parent is found to exist. -/
theorem parentExists_of_dir (hpar : fs.isDirNode (parentPath p) = true) : (parentExists p fs).1 = .ok true := by
  unfold parentExists
  by_cases hdot : parentPath p = "."
  · rw [if_pos hdot]
    rfl
  · rw [if_neg hdot]
    obtain ⟨c, hc, hdir⟩ := coreAt_of_isDirNode hpar
    have hlink : c.mode.isSymlink = false := by
      by_contra hlink
      rw [Bool.not_eq_false] at hlink
      rw [(h.plain hc).oneKind hlink] at hdir
      cases hdir
    obtain ⟨i, hi, rfl⟩ := coreAt_eq_some.mp hc
    have hstat : stat (FsContext.new.withOrigin (parentPath p) "stat") (parentPath p) fs = (.ok (fs.heap i).metadata, fs) := by
      rw [stat, reads_apply, statAt, parentPath_valid]
      have hmode : (fs.heap i).metadata.mode.isSymlink = false := hlink
      simp only [Bool.not_true, Bool.false_eq_true, if_false, cleanPath_of_valid (parentPath_valid p), hi, hmode, Bool.and_false]
    unfold FileSystem.existsWith
    rw [bind_ok (attempt_ok hstat)]
    rfl

theorem coreAt_insert {n : NodeInner} (hshape : fs'.shape = (fs.insertNew p n).shape) (q : String) :
    fs'.coreAt q = if q = p then some n.core else fs.coreAt q := by
  rw [coreAt_of_shape hshape, coreAt_insertNew h.tree.alloc.idsBelow]

/-- A new node at a free place of the tree. -/
theorem insert {n : NodeInner} (hp : validPath p = true) (habsent : p ∉ fs.nodes) (hpar : fs.isDirNode (parentPath p) = true)
    (hn : n.core.Plain) (hshape : fs'.shape = (fs.insertNew p n).shape) : fs'.Copyable := by
  have hnotDir : fs.isDirNode p = false := by rw [isDirNode, coreAt_eq_none.mpr habsent]
  have hdot : p ≠ "." := by
    rintro rfl
    rw [h.tree.tree.1] at hnotDir
    cases hnotDir
  have hinv : (fs.insertNew p n).TreeInv :=
    ⟨h.tree.tree.insertNew h.tree.alloc hp hdot hpar (.inr (h.tree.tree.not_below h.tree.alloc hnotDir)), h.tree.alloc.insertNew hp n⟩
  refine ⟨hinv.of_shape hshape, fun {q c} hc => ?_⟩
  rw [h.coreAt_insert hshape] at hc
  split at hc
  · cases hc
    exact hn
  · exact h.plain hc

end Copyable

/-! ## What one call does -/

/-- The destination has what was listed below the source, and nothing else changed. -/
structure Copied (src dst : String) (fs fs' : MemFs) : Prop where
  outside : ∀ q, within dst q = false → fs'.coreAt q = fs.coreAt q
  inside : ∀ names, ListedNames names → fs'.coreAt (descend dst names) = (fs.coreAt (descend src names)).map NodeCore.copied

/-- Recursion and reading that suffice for the tree at the source. -/
structure Enough (rounds depth : Nat) (src : String) (fs : MemFs) : Prop where
  deep : ∀ names, ListedNames names → descend src names ∈ fs.nodes → names.length < depth
  long : ∀ names, ListedNames names → ∀ c, fs.coreAt (descend src names) = some c → c.mode.isSymlink = false → c.mode.isDir = false →
    c.data.length + 8191 < 8192 * rounds

/-- The loop over the entries of a directory. -/
def copyEntries (rounds depth : Nat) (src dst : String) (entries : List DirEntry) : Prog MemFs Error Unit :=
  entries.forM fun entry => memFs.copyAll rounds depth (childPath src entry.name) (childPath dst entry.name)

theorem copyEntries_cons (rounds depth : Nat) (src dst : String) (e : DirEntry) (entries : List DirEntry) :
    copyEntries rounds depth src dst (e :: entries) =
      (memFs.copyAll rounds depth (childPath src e.name) (childPath dst e.name) >>= fun _ =>
        copyEntries rounds depth src dst entries) := rfl

theorem descend_ne (hp : validPath p = true) (hnames : ∀ c ∈ names, ValidName c) (hne : names ≠ []) : descend p names ≠ p := by
  intro heq
  have hcomp := components_descend hp hnames
  rw [heq] at hcomp
  exact hne (List.self_eq_append_right.mp hcomp)

theorem open_absent (hp : validPath p = true) (habsent : p ∉ fs.nodes) (ctx : FsContext) : (open_ ctx p fs).1 ≠ .abort := by
  have hnone : fs.nodes[p]? = none := Option.map_eq_none_iff.mp (coreAt_eq_none.mpr habsent)
  have hopen : open_ ctx p fs = openDir p fs := by
    rw [open_, get_bind, openAt, hp]
    simp only [Bool.not_true, Bool.false_eq_true, if_false, get_bind, cleanPath_of_valid hp, hnone]
  rw [hopen]
  rcases openDir_cases p fs with ⟨f, -, hout⟩ | ⟨-, e, hout⟩
  · rw [hout]
    exact Outcome.ok_ne_abort
  · rw [hout]
    exact Outcome.err_ne_abort

section
variable (h : fs.Copyable) {c : NodeCore} (hc : fs.coreAt src = some c) (hdst : validPath dst = true) (habsent : dst ∉ fs.nodes)
  (hpar : fs.isDirNode (parentPath dst) = true)
include h hc hdst habsent hpar

omit habsent in
theorem copyAll_link (hlink : c.mode.isSymlink = true) (rounds depth : Nat) :
    ∃ fs', memFs.copyAll rounds (depth + 1) src dst fs = (.ok (), fs') ∧
      fs'.shape = (fs.insertNew dst (NodeInner.symlink (baseName dst) (utf8Lossy c.data))).shape := by
  obtain ⟨i, hi, rfl⟩ := coreAt_eq_some.mp hc
  have hmode : (fs.heap i).metadata.mode.isSymlink = true := hlink
  have hread : memFs.readlink src fs = _ := readlink_of_symlink (h.valid hc) hi hlink
  have hcreate : memFs.symlink (utf8Lossy (fs.heap i).data) dst fs = _ := symlink_of_parent
    (by rw [cleanPath_of_valid hdst]; exact h.parentExists_of_dir hpar)
  rw [cleanPath_of_valid hdst] at hcreate
  refine ⟨_, ?_, shape_recomputeDirSizes⟩
  unfold FileSystem.copyAll
  rw [bind_ok (freeLstat_of_mem (h.valid hc) hi), if_pos hmode, bind_ok hread, hcreate]
  rfl

theorem copyAll_file (hlink : c.mode.isSymlink = false) (hdir : c.mode.isDir = false) (rounds depth : Nat) :
    ((memFs.copyAll rounds (depth + 1) src dst fs).1 = .abort ∧ 8192 * rounds ≤ c.data.length + 8191) ∨
    ∃ fs', memFs.copyAll rounds (depth + 1) src dst fs = (.ok (), fs') ∧
      fs'.shape = (fs.insertNew dst (NodeInner.file (baseName dst) c.data (createdMode c.mode))).shape := by
  have hfits := (h.plain hc).fits hlink
  obtain ⟨i, hi, rfl⟩ := coreAt_eq_some.mp hc
  have hmode : ¬(fs.heap i).metadata.mode.isSymlink = true := by
    have hmode' : (fs.heap i).metadata.mode.isSymlink = false := hlink
    rw [hmode']
    decide
  have hkind : ¬(fs.heap i).metadata.isDir = true := by
    have hkind' : (fs.heap i).metadata.isDir = false := hdir
    rw [hkind']
    decide
  have hsmall : (fs.heap i).data.length < 2 ^ 64 := Nat.lt_of_le_of_lt hfits (by unfold isizeMax; norm_num)
  unfold FileSystem.copyAll
  rw [bind_ok (freeLstat_of_mem (h.valid hc) hi), if_neg hmode, if_neg hkind]
  rcases readFile_cases (h.valid hc) hi hlink hdir hsmall rounds with ⟨habort, hrounds⟩ | hread
  · exact .inl ⟨by rw [bind_abort (Prod.ext habort rfl : memFs.readFile rounds src fs = (.abort, _))], hrounds⟩
  · have hshape : (fs.updateNode i (NodeInner.setName (baseName src))).shape = fs.shape := shape_updateNode fun n => n.core_setName _
    rw [bind_ok hread]
    generalize fs.updateNode i (NodeInner.setName (baseName src)) = fs₁ at hshape
    have hparent : (parentExists dst fs₁).1 = .ok true := by
      rw [parentExists_of_shape hshape]
      exact h.parentExists_of_dir hpar
    have hnodes : fs₁.nodes = fs.nodes := congrArg Shape.nodes hshape
    have hopen : (open_ FsContext.new dst fs₁).1 ≠ .abort := open_absent hdst (by rw [hnodes]; exact habsent) _
    obtain ⟨fs', hwrite, hshape'⟩ := writeFile_of_parent hdst hfits (fs.heap i).metadata.mode hopen hparent
    exact .inr ⟨fs', hwrite, hshape'.trans (shape_insertNew_congr hshape rfl)⟩

theorem copyAll_dir (hlink : c.mode.isSymlink = false) (hdir : c.mode.isDir = true) (rounds depth : Nat) :
    ∃ fs₁ : MemFs, fs₁.shape = (fs.insertNew dst (NodeInner.dir (baseName dst) (FileMode.dir ||| c.mode))).shape ∧
      memFs.copyAll rounds (depth + 1) src dst fs = copyEntries rounds depth src dst (fs₁.listing src) fs₁ := by
  have hne : src ≠ dst := fun heq => habsent (heq ▸ mem_of_coreAt hc)
  have hnone : fs.nodes[dst]? = none := Option.map_eq_none_iff.mp (coreAt_eq_none.mpr habsent)
  have hmkdir : memFs.mkdir dst c.mode fs = _ := mkdir_of_parent (by rw [cleanPath_of_valid hdst]; exact hnone)
    (by rw [cleanPath_of_valid hdst]; exact h.parentExists_of_dir hpar)
  rw [cleanPath_of_valid hdst] at hmkdir
  generalize hfs₁ : (fs.insertNew dst (NodeInner.dir (baseName dst) (FileMode.dir ||| c.mode))).recomputeDirSizes = fs₁ at hmkdir
  have hshape : fs₁.shape = (fs.insertNew dst (NodeInner.dir (baseName dst) (FileMode.dir ||| c.mode))).shape := by
    rw [← hfs₁, shape_recomputeDirSizes]
  refine ⟨fs₁, hshape, ?_⟩
  have hc₁ : fs₁.coreAt src = some c := by rw [h.coreAt_insert hshape, if_neg hne, hc]
  obtain ⟨j, hj, hcore⟩ := coreAt_eq_some.mp hc₁
  have hlist : memFs.freeReadDir src fs₁ = _ := readDir_of_dirNode (h.valid hc) hj
    (by rw [← NodeInner.isDir_core, hcore]; exact hdir) ((congrArg (fun c => c.mode.isSymlink) hcore).trans hlink)
  obtain ⟨i, hi, rfl⟩ := coreAt_eq_some.mp hc
  have hmode : ¬(fs.heap i).metadata.mode.isSymlink = true := by
    have hmode' : (fs.heap i).metadata.mode.isSymlink = false := hlink
    rw [hmode']
    decide
  have hkind : (fs.heap i).metadata.isDir = true := hdir
  conv_lhs => unfold FileSystem.copyAll
  have hmkdir' : memFs.mkdir dst (fs.heap i).metadata.mode fs = _ := hmkdir
  rw [bind_ok (freeLstat_of_mem (h.valid hc) hi), if_neg hmode, if_pos hkind, bind_ok hmkdir', bind_ok hlist]
  rfl

end

/-! ## The whole recursion -/

theorem Enough.child {rounds depth : Nat} (h : Enough rounds (depth + 1) src fs) {c : String} (hc : ValidName c ∧ hiddenName c = false) :
    Enough rounds depth (childPath src c) fs := by
  refine ⟨fun names hnames hmem => ?_, fun names hnames => ?_⟩
  · rw [descend_childPath src hc.1] at hmem
    exact Nat.lt_of_succ_lt_succ (h.deep (c :: names) (listed_cons.mpr ⟨hc, hnames⟩) hmem)
  · rw [descend_childPath src hc.1]
    exact h.long (c :: names) (listed_cons.mpr ⟨hc, hnames⟩)

theorem Enough.congr {rounds depth : Nat} (h : Enough rounds depth src fs)
    (hsame : ∀ names, ListedNames names → fs'.coreAt (descend src names) = fs.coreAt (descend src names)) : Enough rounds depth src fs' := by
  refine ⟨fun names hnames hmem => h.deep names hnames ?_, fun names hnames => ?_⟩
  · by_contra habsent
    rw [← coreAt_eq_none, ← hsame names hnames, coreAt_eq_none] at habsent
    exact habsent hmem
  · rw [hsame names hnames]
    exact h.long names hnames

/-- A copy was made, or the recursion or the reading stopped too early. -/
def CopyEnds (rounds depth : Nat) (src dst : String) (fs : MemFs) (r : Outcome Error Unit × MemFs) : Prop :=
  (r.1 = .abort ∧ ¬Enough rounds depth src fs) ∨ (r.1 = .ok () ∧ r.2.Copyable ∧ Copied src dst fs r.2)

/-- The state from which a copy can be made. -/
structure Ready (src dst : String) (fs : MemFs) : Prop where
  tree : fs.Copyable
  src_mem : src ∈ fs.nodes
  dst_valid : validPath dst = true
  absent : dst ∉ fs.nodes
  parent : fs.isDirNode (parentPath dst) = true

/-- The children of a list were copied, and nothing else changed. -/
structure CopiedAll (entries : List DirEntry) (src dst : String) (fs fs' : MemFs) : Prop where
  outside : ∀ q, (∀ e ∈ entries, within (childPath dst e.name) q = false) → fs'.coreAt q = fs.coreAt q
  inside : ∀ e ∈ entries, ∀ names, ListedNames names →
    fs'.coreAt (descend (childPath dst e.name) names) = (fs.coreAt (descend (childPath src e.name) names)).map NodeCore.copied

theorem copyEntries_copies {rounds depth : Nat}
    (hcopy : ∀ {fs : MemFs} {src dst : String}, Ready src dst fs → ListedApart src dst →
      CopyEnds rounds depth src dst fs (memFs.copyAll rounds depth src dst fs))
    (hdst : validPath dst = true) (entries : List DirEntry) (hnodup : (entries.map (·.name)).Nodup)
    (hlisted : ∀ e ∈ entries, ValidName e.name ∧ hiddenName e.name = false)
    (hapart : ∀ e ∈ entries, ListedApart (childPath src e.name) dst)
    {fs : MemFs} (h : fs.Copyable) (hdir : fs.isDirNode dst = true) (hsrc : ∀ e ∈ entries, childPath src e.name ∈ fs.nodes)
    (hfree : ∀ e ∈ entries, childPath dst e.name ∉ fs.nodes) :
    ((copyEntries rounds depth src dst entries fs).1 = .abort ∧ ∃ e ∈ entries, ¬Enough rounds depth (childPath src e.name) fs) ∨
    ∃ fs' : MemFs, copyEntries rounds depth src dst entries fs = (.ok (), fs') ∧ fs'.Copyable ∧ CopiedAll entries src dst fs fs' := by
  induction entries generalizing fs with
  | nil => exact .inr ⟨fs, rfl, h, fun _ _ => rfl, fun e he => absurd he List.not_mem_nil⟩
  | cons e entries ih =>
    rw [List.forall_mem_cons] at hlisted hapart hsrc hfree
    rw [List.map_cons, List.nodup_cons] at hnodup
    obtain ⟨⟨hname, hshown⟩, hlisted⟩ := hlisted
    obtain ⟨hout, hapart⟩ := hapart
    have hready : Ready (childPath src e.name) (childPath dst e.name) fs :=
      ⟨h, hsrc.1, childPath_valid hdst hname, hfree.1, by rw [parentPath_childPath hdst hname]; exact hdir⟩
    have hout' : ListedApart (childPath src e.name) (childPath dst e.name) := fun names hnames => not_within_child hname (hout names hnames)
    rw [copyEntries_cons]
    rcases hcopy hready hout' with ⟨habort, hshort⟩ | ⟨hok, htree, hcopied⟩
    · exact .inl ⟨by rw [bind_abort (Prod.ext habort rfl)], e, List.mem_cons_self, hshort⟩
    · generalize hfs₁ : memFs.copyAll rounds depth (childPath src e.name) (childPath dst e.name) fs = r at hok htree hcopied
      obtain ⟨r, fs₁⟩ := r
      obtain rfl : r = .ok () := hok
      rw [bind_ok hfs₁]
      -- The other children are not within this one's copy.
      have hother : ∀ e' ∈ entries, ∀ q, within (childPath dst e'.name) q = true → within (childPath dst e.name) q = false :=
        fun e' he' q hq => within_childPath_of_ne dst hname (hlisted e' he').1
          (fun heq => hnodup.1 (heq ▸ List.mem_map_of_mem he')) hq
      have hsame : ∀ e' ∈ entries, ∀ names, ListedNames names →
          fs₁.coreAt (descend (childPath src e'.name) names) = fs.coreAt (descend (childPath src e'.name) names) :=
        fun e' he' names hnames => hcopied.outside _ (not_within_child hname (hapart e' he' names hnames))
      have hdir₁ : fs₁.isDirNode dst = true := by
        rw [isDirNode_of_coreAt (hcopied.outside dst (not_within_self_child dst hname)), hdir]
      have hsrc₁ : ∀ e' ∈ entries, childPath src e'.name ∈ fs₁.nodes := by
        intro e' he'
        have hcore := hsame e' he' [] (fun c hc => absurd hc List.not_mem_nil)
        rw [descend_nil] at hcore
        by_contra habsent
        rw [← coreAt_eq_none, hcore, coreAt_eq_none] at habsent
        exact habsent (hsrc.2 e' he')
      have hfree₁ : ∀ e' ∈ entries, childPath dst e'.name ∉ fs₁.nodes := by
        intro e' he'
        rw [← coreAt_eq_none, hcopied.outside _ (hother e' he' _ (within_self _)), coreAt_eq_none]
        exact hfree.2 e' he'
      rcases ih hnodup.2 hlisted hapart htree hdir₁ hsrc₁ hfree₁ with ⟨habort, e', he', hshort⟩ | ⟨fs', hok', htree', hall⟩
      · exact .inl ⟨habort, e', List.mem_cons_of_mem e he', fun henough => hshort (henough.congr (hsame e' he'))⟩
      · refine .inr ⟨fs', hok', htree', fun q hq => ?_, fun e' he' names hnames => ?_⟩
        · rw [List.forall_mem_cons] at hq
          rw [hall.outside q hq.2, hcopied.outside q hq.1]
        · rcases List.mem_cons.mp he' with rfl | he'
          · have hvalid := childPath_valid hdst hname
            rw [hall.outside _ fun e'' he'' => ?_, hcopied.inside names hnames]
            exact within_childPath_of_ne dst (hlisted e'' he'').1 hname
              (fun heq => hnodup.1 (heq ▸ List.mem_map_of_mem he'')) (within_descend hvalid hnames.valid)
          · rw [hall.inside e' he' names hnames, hsame e' he' names hnames]


theorem copied_leaf (h : fs.Copyable) {c : NodeCore} (hc : fs.coreAt src = some c) (hleaf : c.mode.isDir = false)
    (hdst : validPath dst = true) (habsent : dst ∉ fs.nodes) {n : NodeInner} (hn : n.core = c.copied)
    (hshape : fs'.shape = (fs.insertNew dst n).shape) : Copied src dst fs fs' := by
  refine ⟨fun q hq => ?_, fun names hnames => ?_⟩
  · have hne : q ≠ dst := by
      rintro rfl
      rw [within_self] at hq
      cases hq
    rw [h.coreAt_insert hshape, if_neg hne]
  · by_cases hnil : names = []
    · rw [hnil, descend_nil, descend_nil, h.coreAt_insert hshape, if_pos rfl, hc, hn]
      rfl
    · rw [h.coreAt_insert hshape, if_neg (descend_ne hdst hnames.valid hnil), h.none_within hdst habsent hnames.valid,
        h.none_below (h.valid hc) ((isDirNode_eq hc).trans hleaf) hnames.valid hnil]
      rfl

theorem Copyable.entry_of_listing (h : fs.Copyable) {e : DirEntry} (he : e ∈ fs.listing src) :
    (ValidName e.name ∧ hiddenName e.name = false) ∧ childPath src e.name ∈ fs.nodes := by
  obtain ⟨hhidden, hname, hmem⟩ := (mem_listing h.tree.alloc h.tree.tree.parentClosed).mp (List.mem_map_of_mem he)
  exact ⟨⟨hname, hhidden⟩, hmem⟩

section
variable (h : Ready src dst fs) (hapart : ListedApart src dst) {n : NodeInner} (hshape : fs'.shape = (fs.insertNew dst n).shape)
include h hshape

theorem not_mem_child_of_insert {c : String} (hc : ValidName c) : childPath dst c ∉ fs'.nodes := by
  have hnone := h.tree.none_within h.dst_valid h.absent (show ∀ d ∈ [c], ValidName d by simpa using hc)
  rw [← descend_childPath dst hc, descend_nil] at hnone
  rw [← coreAt_eq_none, h.tree.coreAt_insert hshape, if_neg (ne_of_below (below_childPath dst hc)).symm, hnone]

include hapart

/-- What is listed below the source is not the new node. -/
theorem coreAt_listed_of_insert (names : List String) (hnames : ListedNames names) :
    fs'.coreAt (descend src names) = fs.coreAt (descend src names) := by
  have hne : descend src names ≠ dst := by
    intro heq
    have hout := hapart names hnames
    rw [heq, within_self] at hout
    cases hout
  rw [h.tree.coreAt_insert hshape, if_neg hne]

/-- A directory is copied when its node is and its listed children are. -/
theorem copied_dir {c : NodeCore} (hc : fs.coreAt src = some c) (hn : n.core = c.copied) (htree : fs'.Copyable) {fs'' : MemFs}
    (hall : CopiedAll (fs'.listing src) src dst fs' fs'') : Copied src dst fs fs'' := by
  have hcore := h.tree.coreAt_insert hshape
  have hentry := fun e (he : e ∈ fs'.listing src) => htree.entry_of_listing he
  refine ⟨fun q hq => ?_, fun names hnames => ?_⟩
  · have hne : q ≠ dst := by
      rintro rfl
      rw [within_self] at hq
      cases hq
    rw [hall.outside q fun e he => not_within_child (hentry e he).1.1 hq, hcore, if_neg hne]
  · cases names with
    | nil =>
      rw [descend_nil, descend_nil, hall.outside dst fun e he => not_within_self_child dst (hentry e he).1.1, hcore, if_pos rfl, hc, hn]
      rfl
    | cons d names =>
      obtain ⟨hd, hrest⟩ := listed_cons.mp hnames
      rw [← coreAt_listed_of_insert h hapart hshape _ hnames, ← descend_childPath src hd.1, ← descend_childPath dst hd.1]
      by_cases hmem : childPath src d ∈ fs'.nodes
      · have hlisted := (mem_listing htree.tree.alloc htree.tree.tree.parentClosed).mpr ⟨hd.2, hd.1, hmem⟩
        obtain ⟨e, he, rfl⟩ := List.mem_map.mp hlisted
        exact hall.inside e he names hrest
      · -- A name that the source does not have leads nowhere in the copy either.
        have hvalid := childPath_valid h.dst_valid hd.1
        have hother : ∀ e ∈ fs'.listing src, within (childPath dst e.name) (descend (childPath dst d) names) = false := by
          intro e he
          refine within_childPath_of_ne dst (hentry e he).1.1 hd.1 ?_ (within_descend hvalid hrest.valid)
          rintro rfl
          exact hmem (hentry e he).2
        rw [hall.outside _ hother, htree.none_within hvalid (not_mem_child_of_insert h hshape hd.1) hrest.valid,
          htree.none_within (childPath_valid (h.tree.valid hc) hd.1) hmem hrest.valid]
        rfl

end

/-- `copy_all` copies what is listed below the source, unless recursion or reading stop too early. -/
theorem copyAll_ends (rounds depth : Nat) {fs : MemFs} {src dst : String} (h : Ready src dst fs) (hapart : ListedApart src dst) :
    CopyEnds rounds depth src dst fs (memFs.copyAll rounds depth src dst fs) := by
  induction depth generalizing fs src dst with
  | zero =>
    refine .inl ⟨rfl, fun henough => ?_⟩
    have hdeep := henough.deep [] (fun c hc => absurd hc List.not_mem_nil) (by rw [descend_nil]; exact h.src_mem)
    exact absurd hdeep (Nat.not_lt_zero _)
  | succ depth ih =>
    obtain ⟨c, hc⟩ : ∃ c, fs.coreAt src = some c := by
      obtain ⟨i, hi⟩ := mem_nodes_iff.mp h.src_mem
      exact ⟨_, coreAt_eq_some.mpr ⟨i, hi, rfl⟩⟩
    have hplain := h.tree.plain hc
    cases hlink : c.mode.isSymlink with
    | true =>
      obtain ⟨fs', hok, hshape⟩ := copyAll_link h.tree hc h.dst_valid h.parent hlink rounds depth
      have hn : (NodeInner.symlink (baseName dst) (utf8Lossy c.data)).core = c.copied := (NodeCore.copied_of_link hlink).symm
      rw [hok]
      exact .inr ⟨rfl, h.tree.insert h.dst_valid h.absent h.parent (hn ▸ hplain.copied) hshape,
        copied_leaf h.tree hc (hplain.oneKind hlink) h.dst_valid h.absent hn hshape⟩
    | false =>
      cases hdir : c.mode.isDir with
      | false =>
        have hn : (NodeInner.file (baseName dst) c.data (createdMode c.mode)).core = c.copied := (NodeCore.copied_of_file hlink hdir).symm
        rcases copyAll_file h.tree hc h.dst_valid h.absent h.parent hlink hdir rounds depth with
          ⟨habort, hrounds⟩ | ⟨fs', hok, hshape⟩
        · refine .inl ⟨habort, fun henough => ?_⟩
          have hlong := henough.long [] (fun c hc => absurd hc List.not_mem_nil) c (by rw [descend_nil]; exact hc) hlink hdir
          omega
        · rw [hok]
          exact .inr ⟨rfl, h.tree.insert h.dst_valid h.absent h.parent (hn ▸ hplain.copied) hshape,
            copied_leaf h.tree hc hdir h.dst_valid h.absent hn hshape⟩
      | true =>
        obtain ⟨fs₁, hshape, hout⟩ := copyAll_dir h.tree hc h.dst_valid h.absent h.parent hlink hdir rounds depth
        have hn : (NodeInner.dir (baseName dst) (FileMode.dir ||| c.mode)).core = c.copied := (NodeCore.copied_of_dir hlink hdir).symm
        have htree : fs₁.Copyable := h.tree.insert h.dst_valid h.absent h.parent (hn ▸ hplain.copied) hshape
        rw [hout]
        have hentry := fun e (he : e ∈ fs₁.listing src) => htree.entry_of_listing he
        have hfree := fun e he => not_mem_child_of_insert h hshape (hentry e he).1.1
        rcases copyEntries_copies (fun h hapart => ih h hapart) h.dst_valid (fs₁.listing src) (listing_nodup fs₁ src)
            (fun e he => (hentry e he).1) (fun e he => hapart.child (hentry e he).1) htree
            (by rw [isDirNode_eq ((h.tree.coreAt_insert hshape dst).trans (if_pos rfl)), hn, NodeCore.isDir_copied hplain, hdir])
            (fun e he => (hentry e he).2) hfree with
          ⟨habort, e, he, hshort⟩ | ⟨fs', hok, htree', hall⟩
        · refine .inl ⟨habort, fun henough => hshort ((henough.child (hentry e he).1).congr fun names hnames => ?_)⟩
          rw [descend_childPath src (hentry e he).1.1]
          exact coreAt_listed_of_insert h hapart hshape _ (listed_cons.mpr ⟨(hentry e he).1, hnames⟩)
        · rw [hok]
          exact .inr ⟨rfl, htree', copied_dir h hapart hshape hc hn htree hall⟩


/-! ## A copy into the tree that is copied -/

theorem copyEntries_append (rounds depth : Nat) (src dst : String) (es fs : List DirEntry) :
    copyEntries rounds depth src dst (es ++ fs) = copyEntries rounds depth src dst es >>= fun _ => copyEntries rounds depth src dst fs := by
  induction es with
  | nil => rfl
  | cons e es ih => rw [List.cons_append, copyEntries_cons, copyEntries_cons, ih, bind_assoc]

theorem coreAt_mem_congr (hsame : fs'.coreAt p = fs.coreAt p) : p ∈ fs'.nodes ↔ p ∈ fs.nodes := by
  rw [← not_iff_not, ← coreAt_eq_none, hsame, coreAt_eq_none]

/-- ListedNames names lead from the source to the destination. -/
def Reaches (src dst : String) : Prop := ∃ names, ListedNames names ∧ names ≠ [] ∧ dst = descend src names

/-- The child on the way to the destination is copied below the destination, where it is on the way again. -/
theorem Reaches.child (hsrc : validPath src = true) {d : String} {names : List String} (hnames : ListedNames (d :: names))
    (hdst : dst = descend src (d :: names)) :
    Reaches (childPath src d) (childPath dst d) := by
  obtain ⟨hd, hrest⟩ := listed_cons.mp hnames
  have hlisted : ListedNames (names ++ [d]) := by
    intro c hc
    rcases List.mem_append.mp hc with hc | hc
    · exact hrest c hc
    · rw [List.mem_singleton.mp hc]
      exact hd
  refine ⟨names ++ [d], hlisted, by simp, ?_⟩
  apply components_injective
  rw [components_childPath dst hd.1, hdst, components_descend hsrc hnames.valid,
    components_descend (childPath_valid hsrc hd.1) hlisted.valid, components_childPath src hd.1]
  simp

/-- Copying a directory to a place that is listed below it does not come to an end. -/
theorem copyAll_diverges (rounds depth : Nat) {fs : MemFs} {src dst : String} (h : Ready src dst fs) (hdir : fs.isDirNode src = true)
    (hreach : Reaches src dst) : (memFs.copyAll rounds depth src dst fs).1 = .abort := by
  induction depth generalizing fs src dst with
  | zero => rfl
  | succ depth ih =>
    obtain ⟨c, hc, hisDir⟩ := coreAt_of_isDirNode hdir
    have hlink : c.mode.isSymlink = false := by
      by_contra hlink
      rw [Bool.not_eq_false] at hlink
      rw [(h.tree.plain hc).oneKind hlink] at hisDir
      cases hisDir
    obtain ⟨fs₁, hshape, hout⟩ := copyAll_dir h.tree hc h.dst_valid h.absent h.parent hlink hisDir rounds depth
    have hn : (NodeInner.dir (baseName dst) (FileMode.dir ||| c.mode)).core = c.copied := (NodeCore.copied_of_dir hlink hisDir).symm
    have htree : fs₁.Copyable := h.tree.insert h.dst_valid h.absent h.parent (hn ▸ (h.tree.plain hc).copied) hshape
    have hdirDst : fs₁.isDirNode dst = true := by
      rw [isDirNode_eq ((h.tree.coreAt_insert hshape dst).trans (if_pos rfl)), hn, NodeCore.isDir_copied (h.tree.plain hc), hisDir]
    obtain ⟨names, hnames, hne, hdst⟩ := hreach
    obtain ⟨d, rest, rfl⟩ := List.exists_cons_of_ne_nil hne
    obtain ⟨hd, hrest⟩ := listed_cons.mp hnames
    have hchild := childPath_valid (h.tree.valid hc) hd.1
    have hway : within (childPath src d) dst = true := by
      rw [hdst, ← descend_childPath src hd.1]
      exact within_descend hchild hrest.valid
    have hdirChild : fs₁.isDirNode (childPath src d) = true := by
      rcases within_iff_below.mp hway with heq | hbelow
      · rw [← heq]
        exact hdirDst
      · exact htree.tree.tree.isDirNode_of_below htree.tree.alloc (mem_of_isDirNode hdirDst) hbelow
    obtain ⟨e, he, rfl⟩ := List.mem_map.mp ((mem_listing htree.tree.alloc htree.tree.tree.parentClosed).mpr
      ⟨hd.2, hd.1, mem_of_isDirNode hdirChild⟩)
    obtain ⟨before, after, hsplit⟩ := List.append_of_mem he
    have hnodup := listing_nodup fs₁ src
    have hentry : ∀ e' ∈ before, (ValidName e'.name ∧ hiddenName e'.name = false) ∧ childPath src e'.name ∈ fs₁.nodes :=
      fun e' he' => htree.entry_of_listing (hsplit ▸ List.mem_append_left _ he')
    rw [hsplit, List.map_append, List.map_cons] at hnodup
    have hdistinct : ∀ e' ∈ before, e'.name ≠ e.name := fun e' he' heq =>
      (List.nodup_append.mp hnodup).2.2 _ (List.mem_map_of_mem he') _ List.mem_cons_self heq
    have hapart : ∀ e' ∈ before, ListedApart (childPath src e'.name) dst := by
      intro e' he' ns hns
      by_contra hin
      rw [Bool.not_eq_false] at hin
      have hbeside := within_childPath_of_ne src hd.1 (hentry e' he').1.1 (hdistinct e' he').symm
        (within_descend (childPath_valid (h.tree.valid hc) (hentry e' he').1.1) hns.valid)
      rw [within_trans hway hin] at hbeside
      cases hbeside
    rw [hout, hsplit, copyEntries_append]
    rcases copyEntries_copies (fun h hapart => copyAll_ends rounds depth h hapart) h.dst_valid before
        (List.nodup_append.mp hnodup).1 (fun e' he' => (hentry e' he').1) hapart htree hdirDst (fun e' he' => (hentry e' he').2)
        (fun e' he' => not_mem_child_of_insert h hshape (hentry e' he').1.1) with ⟨habort, -⟩ | ⟨fs₂, hok, htree₂, hall⟩
    · rw [bind_abort (Prod.ext habort rfl)]
    · have hsrc₂ : fs₂.coreAt (childPath src e.name) = fs₁.coreAt (childPath src e.name) := by
        refine hall.outside _ fun e' he' => ?_
        by_contra hin
        rw [Bool.not_eq_false] at hin
        have hself := not_within_self_child dst (hentry e' he').1.1
        rw [within_trans hin hway] at hself
        cases hself
      have hfree₂ : childPath dst e.name ∉ fs₂.nodes := by
        rw [coreAt_mem_congr (hall.outside _ fun e' he' =>
          within_childPath_of_ne dst (hentry e' he').1.1 hd.1 (hdistinct e' he') (within_self _))]
        exact not_mem_child_of_insert h hshape hd.1
      have hdst₂ : fs₂.isDirNode dst = true := by
        rw [isDirNode_of_coreAt (hall.outside dst fun e' he' => not_within_self_child dst (hentry e' he').1.1), hdirDst]
      have hready : Ready (childPath src e.name) (childPath dst e.name) fs₂ :=
        ⟨htree₂, (coreAt_mem_congr hsrc₂).mpr (mem_of_isDirNode hdirChild), childPath_valid h.dst_valid hd.1, hfree₂,
          by rw [parentPath_childPath h.dst_valid hd.1]; exact hdst₂⟩
      have hnext := ih hready (by rw [isDirNode_of_coreAt hsrc₂, hdirChild]) (Reaches.child (h.tree.valid hc) hnames hdst)
      rw [bind_ok hok, copyEntries_cons, bind_abort (Prod.ext hnext rfl)]


/-! ## When copies are faithful -/

/-- Some bound holds for all nodes of a tree. -/
theorem exists_bound (fs : MemFs) (size : String → NodeId → Nat) :
    ∃ n, ∀ (p : String) (i : NodeId), fs.nodes[p]? = some i → size p i ≤ n := by
  refine ⟨(fs.nodes.toList.map fun kv => size kv.1 kv.2).sum, fun p i hi => ?_⟩
  have hmem : (p, i) ∈ fs.nodes.toList := Std.ExtTreeMap.mem_toList_iff_getElem?_eq_some.mpr hi
  exact List.le_sum_of_mem (List.mem_map.mpr ⟨(p, i), hmem, rfl⟩)

theorem exists_enough (fs : MemFs) (hsrc : validPath src = true) : ∃ rounds depth, Enough rounds depth src fs := by
  obtain ⟨deepest, hdeepest⟩ := fs.exists_bound fun p _ => (components p).length
  obtain ⟨longest, hlongest⟩ := fs.exists_bound fun _ i => (fs.heap i).data.length
  refine ⟨longest + 2, deepest + 1, fun names hnames hmem => ?_, fun names hnames c hc _ _ => ?_⟩
  · obtain ⟨i, hi⟩ := mem_nodes_iff.mp hmem
    have hle := hdeepest _ i hi
    rw [components_descend hsrc hnames.valid, List.length_append] at hle
    omega
  · obtain ⟨i, hi, rfl⟩ := coreAt_eq_some.mp hc
    have hle := hlongest _ i hi
    show (fs.heap i).data.length + 8191 < _
    omega

/-- When listed names do not lead to the destination, the listed tree is apart from it. -/
theorem Ready.apart (h : Ready src dst fs) (hnot : ¬Reaches src dst) : ListedApart src dst := by
  have hsrc : validPath src = true := by
    obtain ⟨i, hi⟩ := mem_nodes_iff.mp h.src_mem
    exact h.tree.tree.alloc.valid hi
  intro names hnames
  by_contra hin
  rw [Bool.not_eq_false] at hin
  rcases within_total hin (within_descend hsrc hnames.valid) with habove | hbelow
  · rcases within_iff_below.mp habove with heq | hbelow
    · exact h.absent (heq ▸ h.src_mem)
    · exact h.absent (mem_of_isDirNode (h.tree.tree.tree.isDirNode_of_below h.tree.tree.alloc h.src_mem hbelow))
  · obtain ⟨ns, -, hdst⟩ := eq_descend_of_within h.dst_valid hbelow
    obtain ⟨cs, hcs⟩ := within_iff.mp hbelow
    obtain ⟨ds, hds⟩ := within_iff.mp hin
    rw [components_descend hsrc hnames.valid, hcs, List.append_assoc, List.append_cancel_left_eq] at hds
    refine hnot ⟨cs, fun c hc => hnames c (hds ▸ List.mem_append_left _ hc), ?_, ?_⟩
    · rintro rfl
      rw [List.append_nil] at hcs
      exact h.absent (components_injective hcs ▸ h.src_mem)
    · rw [descend, ← hcs, ofComponents_components]

theorem Ready.isDirNode_of_reaches (h : Ready src dst fs) (hreach : Reaches src dst) : fs.isDirNode src = true := by
  obtain ⟨names, hnames, hne, hdst⟩ := hreach
  obtain ⟨i, hi⟩ := mem_nodes_iff.mp h.src_mem
  have hsrc := h.tree.tree.alloc.valid hi
  have hparent : within src (parentPath dst) = true := by
    rw [within_iff]
    refine ⟨names.dropLast, ?_⟩
    rw [components_parentPath h.dst_valid, hdst, components_descend hsrc hnames.valid, List.dropLast_append_of_ne_nil hne]
  rcases within_iff_below.mp hparent with heq | hbelow
  · rw [← heq]
    exact h.parent
  · exact h.tree.tree.tree.isDirNode_of_below h.tree.tree.alloc (mem_of_isDirNode h.parent) hbelow

theorem freeLstat_of_absent (habsent : src ∉ fs.nodes) : ∃ e, memFs.freeLstat src fs = (.err e, fs) := by
  have hnone : fs.nodes[src]? = none := Option.map_eq_none_iff.mp (coreAt_eq_none.mpr habsent)
  have hstat : ∀ ctx, ∃ e, stat ctx src fs = (.err e, fs) := by
    intro ctx
    rw [stat, reads_apply, statAt]
    cases hvalid : validPath src with
    | false => exact ⟨_, rfl⟩
    | true =>
      rw [cleanPath_of_valid hvalid]
      simp [hnone]
  exact hstat _

/-- What a copy is to be: it comes to an end, and to a destination outside of the source it brings the names that listings show,
with their kinds, permissions, contents and targets, and changes nothing else. -/
structure CopiesFaithfully (fs : MemFs) (src dst : String) : Prop where
  returns : ∃ rounds depth, (memFs.copyAll rounds depth src dst fs).1 ≠ .abort
  faithful : within src dst = false → ∀ rounds depth fs', memFs.copyAll rounds depth src dst fs = (.ok (), fs') →
    (∀ names, ListedNames names → (fs'.coreAt (descend dst names)).map NodeCore.view = (fs.coreAt (descend src names)).map NodeCore.view) ∧
      ∀ q, within dst q = false → fs'.coreAt q = fs.coreAt q

/-- A copy is faithful exactly when listings do not lead from the source to the destination and, unless the destination is
within the source, every listed link has all permissions and every listed file has a mode. -/
theorem copiesFaithfully_iff (h : fs.Copyable) (hdst : validPath dst = true) (habsent : dst ∉ fs.nodes)
    (hpar : fs.isDirNode (parentPath dst) = true) :
    CopiesFaithfully fs src dst ↔ (src ∈ fs.nodes → ¬Reaches src dst ∧ (within src dst = false →
      ∀ names, ListedNames names → ∀ c, fs.coreAt (descend src names) = some c → c.Kept)) := by
  constructor
  · intro hcopy hsrc
    have hready : Ready src dst fs := ⟨h, hsrc, hdst, habsent, hpar⟩
    have hnot : ¬Reaches src dst := by
      intro hreach
      obtain ⟨rounds, depth, hreturns⟩ := hcopy.returns
      exact hreturns (copyAll_diverges rounds depth hready (hready.isDirNode_of_reaches hreach) hreach)
    refine ⟨hnot, fun hout names hnames c hc => ?_⟩
    obtain ⟨i, hi⟩ := mem_nodes_iff.mp hsrc
    obtain ⟨rounds, depth, henough⟩ := exists_enough fs (h.tree.alloc.valid hi)
    rcases copyAll_ends rounds depth hready (hready.apart hnot) with ⟨-, hshort⟩ | ⟨hok, -, hcopied⟩
    · exact absurd henough hshort
    · have hview := (hcopy.faithful hout rounds depth _ (Prod.ext hok rfl)).1 names hnames
      rw [hcopied.inside names hnames, hc] at hview
      exact (NodeCore.view_copied c).mp (Option.some.inj hview)
  · intro hcond
    by_cases hsrc : src ∈ fs.nodes
    · obtain ⟨hnot, hkept⟩ := hcond hsrc
      have hready : Ready src dst fs := ⟨h, hsrc, hdst, habsent, hpar⟩
      have hends := fun rounds depth => copyAll_ends rounds depth hready (hready.apart hnot)
      refine ⟨?_, fun hout rounds depth fs' hok => ?_⟩
      · obtain ⟨i, hi⟩ := mem_nodes_iff.mp hsrc
        obtain ⟨rounds, depth, henough⟩ := exists_enough fs (h.tree.alloc.valid hi)
        refine ⟨rounds, depth, fun habort => ?_⟩
        rcases hends rounds depth with ⟨-, hshort⟩ | ⟨hok, -, -⟩
        · exact hshort henough
        · rw [habort] at hok
          cases hok
      · rcases hends rounds depth with ⟨habort, -⟩ | ⟨-, -, hcopied⟩
        · rw [hok] at habort
          cases habort
        · rw [hok] at hcopied
          refine ⟨fun names hnames => ?_, hcopied.outside⟩
          rw [hcopied.inside names hnames]
          cases hc : fs.coreAt (descend src names) with
          | none => rfl
          | some c => exact congrArg some ((NodeCore.view_copied c).mpr (hkept hout names hnames c hc))
    · obtain ⟨e, hstat⟩ := freeLstat_of_absent hsrc
      have herr : ∀ rounds depth, memFs.copyAll rounds (depth + 1) src dst fs = (.err e, fs) := by
        intro rounds depth
        unfold FileSystem.copyAll
        rw [bind_err hstat]
      refine ⟨⟨0, 1, by rw [herr]; nofun⟩, fun _ rounds depth fs' hok => ?_⟩
      cases depth with
      | zero => cases hok
      | succ depth =>
        rw [herr] at hok
        cases hok


/-! One tree, copied beside itself and into itself. -/

theorem Reaches.within (hsrc : validPath src = true) (h : Reaches src dst) : within src dst = true := by
  obtain ⟨names, hnames, -, rfl⟩ := h
  exact within_descend hsrc hnames.valid

instance (c : NodeCore) : Decidable c.Plain :=
  decidable_of_iff ((c.mode.isSymlink = true → c.mode.isDir = false) ∧ (c.mode.isSymlink = false → c.data.length ≤ isizeMax))
    ⟨fun h => ⟨h.1, h.2⟩, fun h => ⟨h.oneKind, h.fits⟩⟩

instance (c : NodeCore) : Decidable c.Kept :=
  decidable_of_iff ((c.mode.isSymlink = true → c.mode.perm = 0o777) ∧
    (c.mode.isSymlink = false → c.mode.isDir = false → c.mode.bits ≠ 0)) ⟨fun h => ⟨h.1, h.2⟩, fun h => ⟨h.link, h.file⟩⟩

theorem forall_core {P : NodeCore → Prop} (h : ∀ kv ∈ fs.nodes.toList, P (fs.heap kv.2).core) {c : NodeCore}
    (hc : fs.coreAt p = some c) : P c := by
  obtain ⟨i, hi, rfl⟩ := coreAt_eq_some.mp hc
  exact h (p, i) (Std.ExtTreeMap.mem_toList_iff_getElem?_eq_some.mpr hi)

def copyOps : List MemOp :=
  [.mkdir "a" (FileMode.fromPerm 0o700), .create "a/f", .write 0 [104, 105], .close 0, .symlink "f" "a/l"]

def copyTree : MemFs := (run MemWorld.step (MemWorld.init fun _ => 0) copyOps).fs

theorem copyTree_copyable : copyTree.Copyable := by
  have hsteps : StepsMeet MemWorld.step MemWorld.TreeStep (MemWorld.init fun _ => 0) copyOps := by decide +kernel
  refine ⟨run_invariant (I := fun w : MemWorld => w.fs.TreeInv) (fun _ op hw hok => MemWorld.step_treeInv op hw hok)
    (MemWorld.init_treeInv _) hsteps, fun {p c} hc => ?_⟩
  exact forall_core (by decide +kernel) hc

/-- The tree is copied beside itself. -/
theorem copiesFaithfully_copyTree : CopiesFaithfully copyTree "a" "b" := by
  refine (copiesFaithfully_iff copyTree_copyable (by decide) (by decide +kernel) (by decide +kernel)).mpr fun _ =>
    ⟨fun hreach => ?_, fun _ => ?_⟩
  · exact absurd (hreach.within (by decide)) (by decide +kernel)
  · exact fun names _ c hc => forall_core (by decide +kernel) hc

/-- Copied into itself, the recursion has no end. -/
theorem not_copiesFaithfully : ¬ ∀ (fs : MemFs) (src dst : String), fs.Copyable → validPath dst = true → dst ∉ fs.nodes →
    fs.isDirNode (parentPath dst) = true → CopiesFaithfully fs src dst := by
  intro hall
  obtain ⟨rounds, depth, hreturns⟩ :=
    (hall copyTree "a" "a/b" copyTree_copyable (by decide) (by decide +kernel) (by decide +kernel)).returns
  have hready : Ready "a" "a/b" copyTree :=
    ⟨copyTree_copyable, by decide +kernel, by decide, by decide +kernel, by decide +kernel⟩
  refine hreturns (copyAll_diverges rounds depth hready (by decide +kernel) ⟨["b"], ?_, by decide, by decide⟩)
  intro c hc
  rw [List.mem_singleton.mp hc]
  decide

end MemFs
end Star9
