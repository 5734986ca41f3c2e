import Star9.Fs.MemWrite
import Star9.Fs.MemRun
import Star9.Vfs.Namespace

/-!
# Namespaces over in-memory file systems

The file systems that are bound live side by side; a binding refers to one by its
number, and one may be bound at several paths. A handle that a namespace gives out
is one of these file systems or a directory that the namespace has merged.
-/
namespace Star9
open Base Prog

abbrev Mems := Nat → MemFs

inductive SpaceFile where
  | mem (id : Nat) (f : MemFile)
  | dir (f : DirFile)

section
variable {α : Type}

/-- A call on one of the file systems. -/
def onMem (id : Nat) (p : Prog MemFs Error α) : Prog Mems Error α := fun s =>
  ((p (s id)).1, Function.update s id (p (s id)).2)

def opensMem (id : Nat) (p : Prog MemFs Error MemFile) : Prog Mems Error SpaceFile := SpaceFile.mem id <$> onMem id p

namespace SpaceFile

def dispatch (pm : Prog (MemFile × MemFs) Error α) (pd : Prog (DirFile × Mems) Error α) :
    Prog (SpaceFile × Mems) Error α := fun (f, s) =>
  match f with
  | .mem id f => ((pm (f, s id)).1, .mem id (pm (f, s id)).2.1, Function.update s id (pm (f, s id)).2.2)
  | .dir f => ((pd (f, s)).1, .dir (pd (f, s)).2.1, (pd (f, s)).2.2)

def handle : FileHandle Mems SpaceFile where
  read len := dispatch (MemFile.handle.read len) (do throw (.path "read" (← DirFile.stat).name .invalid))
  write data := dispatch (MemFile.handle.write data) (throw (.kind .permissionDenied))
  readAt len offset := dispatch (MemFile.handle.readAt len offset)
    (FileHandle.defaultReadAt (fun _ => throw (.kind .notSupported))
      (fun _ => do throw (.path "read" (← DirFile.stat).name .invalid)) len offset)
  writeAt data offset := dispatch (MemFile.handle.writeAt data offset)
    (FileHandle.defaultWriteAt (fun _ => throw (.kind .notSupported)) (fun _ => throw (.kind .permissionDenied)) data offset)
  seek pos := dispatch (MemFile.handle.seek pos) (throw (.kind .notSupported))
  stat := dispatch MemFile.handle.stat DirFile.stat
  readDir count := dispatch (MemFile.handle.readDir count) (DirFile.readDir count)
  sync := dispatch MemFile.handle.sync (throw (.kind .notSupported))
  close := dispatch MemFile.handle.close (pure ())

end SpaceFile
end

def memAt (id : Nat) : FileSystem Mems SpaceFile where
  open_ ctx name := opensMem id (memFs.open_ ctx name)
  stat ctx name := onMem id (memFs.stat ctx name)
  lstat ctx name := onMem id (memFs.lstat ctx name)
  readDir ctx name := onMem id (memFs.readDir ctx name)
  create name := opensMem id (memFs.create name)
  openFile name flags perm := opensMem id (memFs.openFile name flags perm)
  mkdir name perm := onMem id (memFs.mkdir name perm)
  remove name := onMem id (memFs.remove name)
  rename old new := onMem id (memFs.rename old new)
  link old new := onMem id (memFs.link old new)
  chmod name mode := onMem id (memFs.chmod name mode)
  chown name uid gid := onMem id (memFs.chown name uid gid)
  chtimes name mtime := onMem id (memFs.chtimes name mtime)
  truncate name size := onMem id (memFs.truncate name size)
  symlink old new := onMem id (memFs.symlink old new)
  readlink name := onMem id (memFs.readlink name)
  setXattr name attr data := onMem id (memFs.setXattr name attr data)
  getXattr name attr := onMem id (memFs.getXattr name attr)
  listXattrs name := onMem id (memFs.listXattrs name)
  removeXattr name attr := onMem id (memFs.removeXattr name attr)
  file := SpaceFile.handle

def memSpace (ns : Namespace Nat) : FileSystem Mems SpaceFile := ns.fileSystem memAt .dir SpaceFile.handle

/-! ## Calls on one file system -/

section
variable {α : Type} {id : Nat} {s : Mems}

theorem onMem_apply (p : Prog MemFs Error α) : onMem id p s = ((p (s id)).1, Function.update s id (p (s id)).2) := rfl

theorem onMem_of_state {p : Prog MemFs Error α} (h : (p (s id)).2 = s id) : onMem id p s = ((p (s id)).1, s) := by
  rw [onMem_apply, h, Function.update_eq_self]

theorem opensMem_ok {p : Prog MemFs Error MemFile} {f : MemFile} {m : MemFs} (h : p (s id) = (.ok f, m)) :
    opensMem id p s = (.ok (.mem id f), Function.update s id m) := by
  unfold opensMem
  rw [map_apply, onMem_apply, h]

/-- What the file systems hold, up to names, sizes and times of nodes. -/
def shapes (s : Mems) : Nat → Shape := fun id => (s id).shape

theorem onMem_shapes {p : Prog MemFs Error α} (h : Preserves MemFs.shape p) : Preserves shapes (onMem id p) := by
  intro s
  funext j
  unfold shapes onMem
  dsimp only
  by_cases hj : j = id
  · subst hj
    rw [Function.update_self]
    exact h (s j)
  · rw [Function.update_of_ne hj]

theorem opensMem_shapes {p : Prog MemFs Error MemFile} (h : Preserves MemFs.shape p) : Preserves shapes (opensMem id p) := by
  intro s
  unfold opensMem
  rw [map_apply]
  have hp : shapes (onMem id p s).2 = shapes s := onMem_shapes h s
  rcases hr : onMem id p s with ⟨a | e | _, s'⟩
  · rw [hr] at hp
    exact hp
  · rw [hr] at hp
    exact hp
  · rw [hr] at hp
    exact hp

end

namespace MemFs
variable {fs : MemFs}

def SymlinkFree (fs : MemFs) : Prop := ∀ (p : String) (i : NodeId), fs.nodes[p]? = some i → (fs.heap i).metadata.mode.isSymlink = false

theorem SymlinkFree.of_shape {fs' : MemFs} (h : fs.SymlinkFree) (hs : fs'.shape = fs.shape) : fs'.SymlinkFree := by
  intro p i hi
  have hnodes : fs'.nodes = fs.nodes := congrArg Shape.nodes hs
  have hmode : (fs'.heap i).metadata.mode = (fs.heap i).metadata.mode :=
    congrArg NodeCore.mode (congrFun (congrArg Shape.core hs) i)
  rw [hnodes] at hi
  rw [hmode]
  exact h p i hi

/-- A well-formed tree without symlinks. -/
structure PlainTree (fs : MemFs) : Prop where
  tree : fs.TreeInv
  links : fs.SymlinkFree

theorem stat_of_none {ctx : FsContext} {p : String} (hp : validPath p = true) (h : fs.nodes[p]? = none) :
    (stat ctx p fs).1 = .err (.path "stat" p .notFound) := by
  rw [stat, reads_apply, statAt, hp, cleanPath_of_valid hp]
  simp [h]

theorem SymlinkFree.stat (h : fs.SymlinkFree) {ctx : FsContext} {p : String} {i : NodeId} (hp : validPath p = true)
    (hi : fs.nodes[p]? = some i) : (MemFs.stat ctx p fs).1 = .ok (fs.heap i).metadata := by
  rw [MemFs.stat, reads_apply, statAt, hp, cleanPath_of_valid hp]
  simp [hi, h p i hi]

end MemFs

/-! ## How a call goes through the layers -/

namespace Namespace
section
variable {R σ η α : Type} {fs : R → FileSystem σ η} {ofDir : DirFile → η} {ns : Namespace R} {ctx : FsContext} {p : String}

theorem routeWrite_of_bound {f : BindTarget R → String → Prog σ Error α} {op : String} (hp : validPath p = true)
    {targets : List (BindTarget R)} (h : ns.bindings[p]? = some targets) :
    routeWrite f ns op p = writeDirect f (.kind .notSupported) targets := by
  unfold routeWrite
  dsimp only
  rw [cleanPath_of_valid hp, h]

theorem routeWrite_of_not_bound {f : BindTarget R → String → Prog σ Error α} {op : String} (hp : validPath p = true)
    (h : ns.bindings[p]? = none) : routeWrite f ns op p = writeLayers f (.path op p .notFound) (ns.layers p) := by
  unfold routeWrite
  dsimp only
  rw [cleanPath_of_valid hp, h]

theorem targetsAt_of_bound {targets : List (BindTarget R)} (h : ns.bindings[p]? = some targets) : ns.targetsAt p = targets := by
  rw [targetsAt, h, Option.getD_some]

theorem targetsAt_of_not_bound (h : ns.bindings[p]? = none) : ns.targetsAt p = [] := by
  rw [targetsAt, h, Option.getD_none]

variable (hp : validPath p = true) {s s₁ s₂ : σ}
include hp

theorem open_of_direct {f : η} (h : openDirect fs (ctx.withOrigin p "open") ⟨none, []⟩ (ns.targetsAt p) s = (.ok (.inl f), s₁)) :
    open_ fs ofDir ns ctx p s = (.ok f, s₁) := by
  unfold open_
  dsimp only
  rw [hp, cleanPath_of_valid hp, branch_apply, if_neg (by decide), bind_ok h]
  rfl

variable {acc : Merged}
  (hdirect : openDirect fs (ctx.withOrigin p "open") ⟨none, []⟩ (ns.targetsAt p) s = (.ok (.inr acc), s₁))
include hdirect

theorem open_of_layers {f : η} (h : openLayers fs (ctx.withOrigin p "open") acc (ns.outerLayers p) s₁ = (.ok (.inl f), s₂)) :
    open_ fs ofDir ns ctx p s = (.ok f, s₂) := by
  unfold open_
  dsimp only
  rw [hp, cleanPath_of_valid hp, branch_apply, if_neg (by decide), bind_ok hdirect]
  dsimp only
  rw [bind_ok h]
  rfl

end
end Namespace

/-! ## Reading leaves everything as it is -/

namespace Namespace
variable {R σ η β : Type} {fs : R → FileSystem σ η} {obs : σ → β}

/-- The calls by which a namespace reads leave an observation of the bound file systems alone. -/
structure Reads (obs : σ → β) (fs : FileSystem σ η) : Prop where
  open_ : ∀ ctx name, Preserves obs (fs.open_ ctx name)
  stat : ∀ ctx name, Preserves obs (fs.stat ctx name)
  readDir : ∀ ctx name, Preserves obs (fs.readDir ctx name)

variable (hfs : ∀ r, Reads obs (fs r))
include hfs

theorem preserves_targetMetadata (ctx : FsContext) (target : BindTarget R) : Preserves obs (targetMetadata fs ctx target) := by
  refine preserves_bind (preserves_attempt ((hfs _).stat _ _)) fun r => ?_
  split
  · exact preserves_pure _
  · exact preserves_pure _

theorem preserves_boundStep (ctx : FsContext) (name : String) (acc : List DirEntry × Std.ExtTreeSet String)
    (binding : String × List (BindTarget R)) : Preserves obs (boundStep fs ctx name acc binding) := by
  unfold boundStep
  split
  · exact preserves_pure _
  · split
    · exact preserves_pure _
    · refine preserves_bind (preserves_mapM fun target _ => ?_) fun _ => preserves_pure _
      exact preserves_bind (preserves_targetMetadata hfs ctx target) fun _ => preserves_pure _

theorem preserves_synthesizeEntries (ns : Namespace R) (ctx : FsContext) (name : String) :
    Preserves obs (synthesizeEntries fs ns ctx name) := by
  unfold synthesizeEntries
  refine preserves_bind ?_ fun _ => preserves_pure _
  generalize (([], ∅) : List DirEntry × Std.ExtTreeSet String) = acc
  induction ns.bindings.toList generalizing acc with
  | nil => exact preserves_pure _
  | cons binding rest ih => exact preserves_bind (preserves_boundStep hfs ctx name acc binding) fun acc' => ih acc'

theorem preserves_openDirect (ctx : FsContext) (acc : Merged) (targets : List (BindTarget R)) :
    Preserves obs (openDirect fs ctx acc targets) := by
  induction targets generalizing acc with
  | nil => exact preserves_pure _
  | cons target rest ih =>
    refine preserves_bind (preserves_targetMetadata hfs ctx target) fun metadata => ?_
    refine preserves_ite (preserves_bind ((hfs _).readDir _ _) fun _ => ih _) ?_
    exact preserves_bind ((hfs _).open_ _ _) fun _ => preserves_pure _

theorem preserves_openLayers (ctx : FsContext) (acc : Merged) (layers : List (BindTarget R × String)) :
    Preserves obs (openLayers fs ctx acc layers) := by
  induction layers generalizing acc with
  | nil => exact preserves_pure _
  | cons layer rest ih =>
    refine preserves_bind (preserves_attempt ((hfs _).stat _ _)) fun r => ?_
    split
    · refine preserves_ite (preserves_bind ((hfs _).readDir _ _) fun _ => ih _) ?_
      exact preserves_bind ((hfs _).open_ _ _) fun _ => preserves_pure _
    · exact preserves_ite (ih _) (preserves_throw _)

theorem preserves_open (ofDir : DirFile → η) (ns : Namespace R) (ctx : FsContext) (name : String) :
    Preserves obs (open_ fs ofDir ns ctx name) := by
  unfold open_
  refine preserves_ite (preserves_throw _) (preserves_bind (preserves_openDirect hfs _ _ _) fun r => ?_)
  split
  · exact preserves_pure _
  · refine preserves_bind (preserves_openLayers hfs _ _ _) fun r => ?_
    split
    · exact preserves_pure _
    · refine preserves_bind (preserves_synthesizeEntries hfs _ _ _) fun _ => ?_
      exact preserves_ite (preserves_pure _) (preserves_throw _)

theorem preserves_statDirect (ctx : FsContext) (targets : List (BindTarget R)) : Preserves obs (statDirect fs ctx targets) := by
  induction targets with
  | nil => exact preserves_pure _
  | cons target rest ih =>
    refine preserves_bind (preserves_attempt ((hfs _).stat _ _)) fun r => ?_
    split
    · exact preserves_pure _
    · exact ih

theorem preserves_statLayers (ctx : FsContext) (layers : List (BindTarget R × String)) :
    Preserves obs (statLayers fs ctx layers) := by
  induction layers with
  | nil => exact preserves_pure _
  | cons layer rest ih =>
    refine preserves_bind (preserves_attempt ((hfs _).stat _ _)) fun r => ?_
    split
    · exact preserves_pure _
    · exact preserves_ite ih (preserves_throw _)

theorem preserves_stat (ns : Namespace R) (ctx : FsContext) (name : String) : Preserves obs (stat fs ns ctx name) := by
  unfold stat
  refine preserves_ite (preserves_throw _) (preserves_ite (preserves_pure _) ?_)
  refine preserves_bind (preserves_statDirect hfs _ _) fun r => ?_
  split
  · exact preserves_pure _
  · refine preserves_bind (preserves_statLayers hfs _ _) fun r => ?_
    split
    · exact preserves_pure _
    · refine preserves_bind (preserves_synthesizeEntries hfs _ _ _) fun _ => ?_
      exact preserves_ite (preserves_pure _) (preserves_throw _)

end Namespace

end Star9
