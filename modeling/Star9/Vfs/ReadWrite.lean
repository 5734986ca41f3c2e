import Star9.Vfs.MemSpace

/-!
# Reading what was written through a namespace

A create goes to the first layer that has the parent of the name, and reading
finds the name there: the layers before it do not have the parent, so they do not
have the name, and the new node is not theirs even where a layer is of the same
file system.
-/
namespace Star9
open Base Prog

/-! ## Writing a new file -/

namespace MemFs
variable {fs fs' : MemFs} {id : NodeId}

/-- A handle on a file that was opened empty and has been written to so far. -/
structure WrittenFile (id : NodeId) (out : Bytes) (f : NodeFile) : Prop where
  node : f.node = id
  data : f.data = out
  offset : f.offset.toNat = out.length
  closed : f.closed = false
  isFile : f.metadata.mode.isDir = false
  room : out.length ≤ isizeMax
  clean : f.dirty = false → out = []

theorem FreshFile.written {f : NodeFile} (hf : FreshFile id f) : WrittenFile id [] f where
  node := hf.node
  data := hf.data
  offset := by rw [hf.offset]; rfl
  closed := hf.closed
  isFile := hf.isFile
  room := Nat.zero_le _
  clean _ := rfl

theorem overwrite_end (out new : Bytes) :
    overwrite (if out.length < out.length + new.length then resize out (out.length + new.length) else out) out.length new =
      out ++ new := by
  have htake : (if out.length < out.length + new.length then resize out (out.length + new.length) else out).take out.length =
      out := by
    split
    · simp [resize]
    · simp
  have hdrop : (if out.length < out.length + new.length then resize out (out.length + new.length) else out).drop
      (out.length + new.length) = [] := by
    rw [List.drop_eq_nil_iff]
    split
    · exact Nat.le_of_eq (resize_length _ _)
    · omega
  rw [overwrite, htake, hdrop, List.append_nil]

theorem write_written {out : Bytes} {f : NodeFile} (hf : WrittenFile id out f) (new : Bytes) {n : Nat} {g : MemFile}
    (h : MemFile.handle.write new (.node f, fs) = (.ok n, g, fs')) :
    ∃ f', g = .node f' ∧ WrittenFile id (out ++ new) f' ∧ fs'.shape = fs.shape := by
  have hroom := hf.room
  have hstart : resizeFails out out.length = false := by simp [resizeFails]
  simp only [MemFile.handle, MemFile.dispatch, NodeFile.write, hf.closed, hf.isFile, hf.offset, hf.data, hstart,
    Bool.false_eq_true, if_false, lt_self_iff_false] at h
  by_cases hfull : resizeFails out (min (out.length + new.length) (2 ^ 64 - 1)) = true
  · rw [if_pos hfull] at h
    cases h
  · have hlen : out.length + new.length ≤ isizeMax := by
      simp only [resizeFails, Bool.and_eq_true, decide_eq_true_eq, not_and, not_lt] at hfull
      unfold isizeMax at hroom hfull ⊢
      omega
    have hstop : min (out.length + new.length) (2 ^ 64 - 1) = out.length + new.length := by
      unfold isizeMax at hlen
      omega
    rw [if_neg hfull, hstop, overwrite_end] at h
    cases h
    refine ⟨_, rfl, ⟨hf.node, rfl, ?_, rfl, hf.isFile, ?_, fun hdirty => by cases hdirty⟩, rfl⟩
    · rw [List.length_append]
      exact UInt64.toNat_ofNat_of_lt' (by unfold isizeMax at hlen; show _ < 2 ^ 64; omega)
    · rwa [List.length_append]

theorem close_new {p : String} {out : Bytes} {mode : FileMode} {f : NodeFile} (hf : WrittenFile fs.next out f)
    (hfs : fs'.shape = (fs.insertNew p (NodeInner.file (baseName p) [] mode)).shape) :
    ∃ g fs'', MemFile.handle.close (.node f, fs') = (.ok (), g, fs'') ∧
      fs''.shape = (fs.insertNew p (NodeInner.file (baseName p) out mode)).shape := by
  simp only [MemFile.handle, MemFile.dispatch, NodeFile.close, NodeFile.sync, hf.closed, Bool.false_eq_true, if_false]
  cases hdirty : f.dirty with
  | true =>
    refine ⟨_, _, rfl, ?_⟩
    rw [hf.node, hf.data]
    refine shape_updateNode_insertNew (f := NodeInner.setData out (fs'.clock fs'.ticks)) hfs ?_
    rw [NodeInner.core_setData, (core_of_insertNew hfs).2]
    rfl
  | false =>
    refine ⟨_, _, rfl, ?_⟩
    rw [hf.clean hdirty]
    exact hfs

theorem parentExists_of_mem (hlinks : fs.SymlinkFree) {p : String} (h : parentPath p ∈ fs.nodes) :
    (parentExists p fs).1 = .ok true := by
  obtain ⟨i, hi⟩ := mem_nodes_iff.mp h
  unfold parentExists
  split
  · rfl
  · have hstat : MemFs.stat (FsContext.new.withOrigin (parentPath p) "stat") (parentPath p) fs =
        (.ok (fs.heap i).metadata, fs) := Prod.ext (hlinks.stat (parentPath_valid p) hi) rfl
    unfold FileSystem.existsWith
    rw [bind_ok (attempt_ok hstat)]
    rfl

theorem create_new (hlinks : fs.SymlinkFree) {p : String} (hp : validPath p = true) (h : parentPath p ∈ fs.nodes) :
    ∃ f fs', memFs.create p fs = (.ok (.node f), fs') ∧ FreshFile fs.next f ∧
      fs'.shape = (fs.insertNew p (NodeInner.file (baseName p) [] (FileMode.fromPerm 0o644))).shape := by
  have hpar : (parentExists (cleanPath p) fs).1 = .ok true := by
    rw [cleanPath_of_valid hp]
    exact parentExists_of_mem hlinks h
  have hcreate := create_of_parent hpar
  rw [cleanPath_of_valid hp] at hcreate
  generalize hfs : (fs.insertNew p (NodeInner.file (baseName p) [] (FileMode.fromPerm 0o644))).recomputeDirSizes = fs₁ at hcreate
  have hshape : fs₁.shape = (fs.insertNew p (NodeInner.file (baseName p) [] (FileMode.fromPerm 0o644))).shape := by
    rw [← hfs]
    exact shape_recomputeDirSizes
  have hcore := (core_of_insertNew hshape).2
  have hmode : (fs₁.heap fs.next).metadata.mode = FileMode.fromPerm 0o644 := congrArg NodeCore.mode hcore
  obtain ⟨f, hopen, hfresh⟩ := freshFile_openNode fs₁ fs.next (congrArg NodeCore.data hcore) (by simp [Metadata.isDir, hmode])
  exact ⟨f, fs₁, hcreate.trans hopen, hfresh, hshape⟩

/-- A path whose parent is missing is missing itself. -/
theorem TreeInv.nodes_of_no_parent (h : fs.TreeInv) {p : String} (hpar : parentPath p ∉ fs.nodes) : fs.nodes[p]? = none := by
  by_contra hne
  obtain ⟨i, hi⟩ := Option.ne_none_iff_exists'.mp hne
  have hmem : p ∈ fs.nodes := mem_nodes_iff.mpr ⟨i, hi⟩
  by_cases hdot : p = "."
  · rw [hdot, parentPath_dot, ← hdot] at hpar
    exact hpar hmem
  · exact hpar (mem_of_isDirNode (h.tree.2 p hmem hdot))

end MemFs

/-! ## Calls on the layers of a name -/

section
variable {id : Nat} {s : Mems} {p : String}

theorem memAt_stat_of_none (ctx : FsContext) (hp : validPath p = true) (h : (s id).nodes[p]? = none) :
    (memAt id).stat ctx p s = (.err (.path "stat" p .notFound), s) := by
  have hstat : (MemFs.stat ctx p (s id)).1 = _ := MemFs.stat_of_none hp h
  exact (onMem_of_state rfl).trans (by rw [← hstat]; rfl)

theorem memAt_stat_of_some (ctx : FsContext) (hp : validPath p = true) (hlinks : (s id).SymlinkFree) {i : NodeId}
    (h : (s id).nodes[p]? = some i) : (memAt id).stat ctx p s = (.ok ((s id).heap i).metadata, s) := by
  have hstat : (MemFs.stat ctx p (s id)).1 = _ := hlinks.stat hp h
  exact (onMem_of_state rfl).trans (by rw [← hstat]; rfl)

end

namespace Namespace

theorem targetPath_valid (bindPath target name : String) : validPath (targetPath bindPath target name) = true := by
  unfold targetPath
  dsimp only
  split
  · exact cleanPath_valid _
  · split
    · split
      · exact cleanPath_valid _
      · exact cleanPath_valid _
    · split
      · exact cleanPath_valid _
      · exact cleanPath_valid _

theorem valid_of_mem_layersOf {R : Type} {name : String} {entries : List (String × List (BindTarget R))}
    {layer : BindTarget R × String} (h : layer ∈ layersOf name entries) : validPath layer.2 = true := by
  obtain ⟨entry, -, hlayer⟩ := List.mem_flatMap.mp h
  obtain ⟨target, -, rfl⟩ := List.mem_map.mp hlayer
  exact targetPath_valid _ _ _

/-- A name that is no bind path has only layers of bind paths above it. -/
theorem outerLayers_eq {R : Type} {ns : Namespace R} {name : String} (h : ns.bindings[name]? = none) :
    ns.outerLayers name = ns.layers name := by
  unfold outerLayers layers
  congr 1
  rw [List.filter_eq_self]
  intro entry hentry
  have hmem : entry ∈ ns.bindings.toList := (List.mem_filter.mp ((List.perm_insertionSort _ _).mem_iff.mp hentry)).1
  have hget := Std.ExtTreeMap.mem_toList_iff_getElem?_eq_some.mp hmem
  rw [decide_eq_true_eq]
  intro heq
  rw [heq, h] at hget
  cases hget

/-- The layer has the parent of the path that the name has there. -/
def hasParent (s : Mems) (layer : BindTarget Nat × String) : Bool := ((s layer.1.fs).nodes[parentPath layer.2]?).isSome

variable {s s' : Mems}

def createIn (target : BindTarget Nat) (full : String) : Prog Mems Error SpaceFile :=
  withParent memAt "create" (fun target full => (memAt target.fs).create full) target full

theorem createIn_of_parent (hlinks : ∀ id, (s id).SymlinkFree) {target : BindTarget Nat} {full : String}
    (h : hasParent s (target, full) = true) : createIn target full s = (memAt target.fs).create full s := by
  obtain ⟨i, hi⟩ := Option.isSome_iff_exists.mp h
  have hstat := memAt_stat_of_some FsContext.new (parentPath_valid full) (hlinks target.fs) hi
  unfold createIn withParent
  rw [bind_ok (attempt_ok hstat)]

theorem createIn_of_no_parent {target : BindTarget Nat} {full : String} (h : hasParent s (target, full) = false) :
    createIn target full s = (.err (.path "create" full .notFound), s) := by
  have hstat := memAt_stat_of_none (s := s) FsContext.new (parentPath_valid full) (Option.isSome_eq_false_iff.mp h |> Option.isNone_iff_eq_none.mp)
  unfold createIn withParent
  rw [bind_ok (attempt_err hstat)]
  rfl

/-- A new empty file in one of the file systems, and a handle on it. -/
structure CreatedAt (s : Mems) (id : Nat) (full : String) (f : SpaceFile) (s' : Mems) : Prop where
  handle : ∃ g, f = .mem id (.node g) ∧ MemFs.FreshFile (s id).next g
  shape : (s' id).shape = ((s id).insertNew full (NodeInner.file (baseName full) [] (FileMode.fromPerm 0o644))).shape
  others : ∀ j, j ≠ id → s' j = s j

theorem createIn_cases (hlinks : ∀ id, (s id).SymlinkFree) (target : BindTarget Nat) {full : String} (hfull : validPath full = true) :
    (hasParent s (target, full) = true ∧ ∃ f s', createIn target full s = (.ok f, s') ∧ CreatedAt s target.fs full f s') ∨
    (hasParent s (target, full) = false ∧ createIn target full s = (.err (.path "create" full .notFound), s)) := by
  cases h : hasParent s (target, full) with
  | true =>
    have hmem : parentPath full ∈ (s target.fs).nodes := Std.ExtTreeMap.isSome_getElem?_iff_mem.mp h
    obtain ⟨g, m, hcreate, hfresh, hshape⟩ := MemFs.create_new (hlinks target.fs) hfull hmem
    refine .inl ⟨rfl, .mem target.fs (.node g), Function.update s target.fs m, ?_, ⟨g, rfl, hfresh⟩, ?_, fun j hj => ?_⟩
    · rw [createIn_of_parent hlinks h]
      exact opensMem_ok hcreate
    · rw [Function.update_self]
      exact hshape
    · rw [Function.update_of_ne hj]
  | false => exact .inr ⟨rfl, createIn_of_no_parent h⟩

/-- A create that succeeds is one in the first layer that has the parent. -/
theorem writeLayers_create (hlinks : ∀ id, (s id).SymlinkFree) {failed : Error} {layers : List (BindTarget Nat × String)}
    (hvalid : ∀ layer ∈ layers, validPath layer.2 = true) {f : SpaceFile}
    (h : writeLayers createIn failed layers s = (.ok f, s')) :
    ∃ target full, layers.find? (hasParent s) = some (target, full) ∧ CreatedAt s target.fs full f s' := by
  induction layers with
  | nil => cases h
  | cons layer rest ih =>
    obtain ⟨target, full⟩ := layer
    unfold writeLayers at h
    rcases createIn_cases hlinks target (hvalid _ List.mem_cons_self) with
      ⟨hpar, g, s₁, hcreate, hnew⟩ | ⟨hpar, hcreate⟩
    · rw [bind_ok (attempt_ok hcreate)] at h
      cases h
      exact ⟨target, full, List.find?_cons_of_pos hpar, hnew⟩
    · rw [bind_ok (attempt_err hcreate)] at h
      obtain ⟨t, q, hfind, hok⟩ := ih (fun layer hlayer => hvalid layer (List.mem_cons_of_mem _ hlayer)) h
      exact ⟨t, q, (List.find?_cons_of_neg (by rw [hpar]; exact Bool.false_ne_true)).trans hfind, hok⟩

/-- A create at a bind path is one in its first layer. -/
theorem writeDirect_create (hlinks : ∀ id, (s id).SymlinkFree) {last : Error} {targets : List (BindTarget Nat)} {f : SpaceFile}
    (h : writeDirect createIn last targets s = (.ok f, s')) :
    ∃ target rest, targets = target :: rest ∧ CreatedAt s target.fs target.path f s' := by
  cases targets with
  | nil => cases h
  | cons target rest =>
    unfold writeDirect at h
    rcases createIn_cases hlinks target target.valid with ⟨-, g, s₁, hcreate, hnew⟩ | ⟨-, hcreate⟩
    · rw [bind_ok (attempt_ok hcreate)] at h
      cases h
      exact ⟨target, rest, rfl, hnew⟩
    · rw [bind_ok (attempt_err hcreate)] at h
      cases h

/-- A file with these contents was put at a path of one of the file systems. -/
structure FileAt (s : Mems) (id : Nat) (full : String) (data : Bytes) (s' : Mems) : Prop where
  valid : validPath full = true
  shape : (s' id).shape = ((s id).insertNew full (NodeInner.file (baseName full) data (FileMode.fromPerm 0o644))).shape
  others : ∀ j, j ≠ id → (s' j).shape = (s j).shape

section
variable {id : Nat} {full : String} {data : Bytes} (hnew : FileAt s id full data s')
include hnew

/-- The paths that the new file did not stand at are as before. -/
theorem FileAt.nodes_of_ne {j : Nat} {q : String} (h : j = id → q ≠ full) : (s' j).nodes[q]?.isSome = (s j).nodes[q]?.isSome := by
  by_cases hj : j = id
  · subst hj
    rw [show (s' j).nodes = _ from congrArg Shape.nodes hnew.shape]
    exact congrArg Option.isSome (by rw [MemFs.shape, MemFs.insertNew_get, if_neg (Ne.symm (h rfl))])
  · have hnodes : (s' j).nodes = (s j).nodes := congrArg Shape.nodes (hnew.others j hj)
    rw [hnodes]

theorem FileAt.symlinkFree (hlinks : ∀ id, (s id).SymlinkFree) (j : Nat) : (s' j).SymlinkFree := by
  by_cases hj : j = id
  · subst hj
    refine MemFs.SymlinkFree.of_shape (fun q i hi => ?_) hnew.shape
    rw [MemFs.insertNew_get] at hi
    split at hi
    · cases hi
      simp [MemFs.insertNew, NodeInner.file]
    · by_cases hnext : i = (s j).next
      · subst hnext
        simp [MemFs.insertNew, NodeInner.file]
      · have hold := hlinks j q i hi
        simpa [MemFs.insertNew, hnext] using hold
  · exact (hlinks j).of_shape (hnew.others j hj)

theorem FileAt.node : ∃ i, (s' id).nodes[full]? = some i ∧ ((s' id).heap i).data = data ∧
    ((s' id).heap i).metadata.isDir = false := by
  obtain ⟨hnode, hcore⟩ := MemFs.core_of_insertNew hnew.shape
  have hmode : ((s' id).heap (s id).next).metadata.mode = FileMode.fromPerm 0o644 := congrArg NodeCore.mode hcore
  exact ⟨_, hnode, congrArg NodeCore.data hcore, by simp [Metadata.isDir, hmode]⟩

end

/-! ## Finding the file -/

/-- A handle on a file of one of the file systems, at its beginning. -/
structure OpenedAt (id : Nat) (data : Bytes) (f : SpaceFile) : Prop where
  handle : ∃ g : NodeFile, f = .mem id (.node g) ∧ g.data = data ∧ g.offset = 0 ∧ g.dirty = false ∧ g.closed = false ∧
    g.metadata.mode.isDir = false

theorem FileAt.open_ {id : Nat} {full : String} {data : Bytes} (hnew : FileAt s id full data s') (hlinks : ∀ id, (s id).SymlinkFree)
    (ctx : FsContext) : ∃ f s'', (memAt id).open_ ctx full s' = (.ok f, s'') ∧ OpenedAt id data f := by
  obtain ⟨i, hi, hdata, hdir⟩ := hnew.node
  have hopen := MemFs.open_of_file ctx hnew.valid hi (hnew.symlinkFree hlinks id full i hi) hdir
  refine ⟨_, _, opensMem_ok hopen, ⟨_, rfl, ?_, rfl, rfl, rfl, ?_⟩⟩
  · simpa [NodeInner.setName] using hdata
  · simpa [NodeInner.setName, Metadata.isDir] using hdir

/-- The search of `open` ends at the first layer that had the parent. -/
theorem openLayers_create (htree : ∀ id, (s id).PlainTree) {layers : List (BindTarget Nat × String)}
    (hvalid : ∀ layer ∈ layers, validPath layer.2 = true) {target : BindTarget Nat} {full : String} {data : Bytes}
    (hfind : layers.find? (hasParent s) = some (target, full)) (hnew : FileAt s target.fs full data s') (ctx : FsContext) (acc : Merged) :
    ∃ f s'', openLayers memAt ctx acc layers s' = (.ok (.inl f), s'') ∧ OpenedAt target.fs data f := by
  have hlinks : ∀ id, (s id).SymlinkFree := fun id => (htree id).links
  induction layers with
  | nil => cases hfind
  | cons layer rest ih =>
    obtain ⟨t, q⟩ := layer
    have hq := hvalid _ List.mem_cons_self
    unfold openLayers
    cases hpar : hasParent s (t, q) with
    | true =>
      rw [List.find?_cons_of_pos hpar] at hfind
      cases hfind
      obtain ⟨i, hi, -, hdir⟩ := hnew.node
      have hstat := memAt_stat_of_some ctx hq (hnew.symlinkFree hlinks _) hi
      obtain ⟨f, s'', hopen, hf⟩ := hnew.open_ hlinks ctx
      refine ⟨f, s'', ?_, hf⟩
      rw [bind_ok (attempt_ok hstat)]
      exact (congrFun (if_neg (by rw [hdir]; exact Bool.false_ne_true)) s').trans (by rw [bind_ok hopen]; rfl)
    | false =>
      -- the layer has neither the parent nor the name, and is not given the name by the create
      rw [List.find?_cons_of_neg (by rw [hpar]; exact Bool.false_ne_true)] at hfind
      have hmissing : parentPath q ∉ (s t.fs).nodes := fun hmem => by
        have hthere : hasParent s (t, q) = true := Std.ExtTreeMap.isSome_getElem?_iff_mem.mpr hmem
        rw [hthere] at hpar
        cases hpar
      have hne : t.fs = target.fs → q ≠ full := by
        rintro hsame rfl
        have htaken := List.find?_some hfind
        unfold hasParent at htaken hpar
        dsimp only at htaken hpar
        rw [hsame, htaken] at hpar
        cases hpar
      have hnone : (s' t.fs).nodes[q]? = none := by
        have hsome := hnew.nodes_of_ne hne
        rw [(htree t.fs).tree.nodes_of_no_parent hmissing] at hsome
        exact Option.isNone_iff_eq_none.mp (Option.isSome_eq_false_iff.mp hsome)
      have hstat := memAt_stat_of_none ctx hq hnone
      rw [bind_ok (attempt_err hstat)]
      exact ih (fun layer hlayer => hvalid layer (List.mem_cons_of_mem _ hlayer)) hfind

theorem openDirect_create {target : BindTarget Nat} {rest : List (BindTarget Nat)} {data : Bytes}
    (hlinks : ∀ id, (s id).SymlinkFree) (hnew : FileAt s target.fs target.path data s') (ctx : FsContext) (acc : Merged) :
    ∃ f s'', openDirect memAt ctx acc (target :: rest) s' = (.ok (.inl f), s'') ∧ OpenedAt target.fs data f := by
  obtain ⟨i, hi, -, hdir⟩ := hnew.node
  have hstat := memAt_stat_of_some ctx hnew.valid (hnew.symlinkFree hlinks _) hi
  have hmetadata : targetMetadata memAt ctx target s' = (.ok ((s' target.fs).heap i).metadata, s') := by
    unfold targetMetadata
    rw [bind_ok (attempt_ok hstat)]
    rfl
  obtain ⟨f, s'', hopen, hf⟩ := hnew.open_ hlinks ctx
  refine ⟨f, s'', ?_, hf⟩
  unfold openDirect
  rw [bind_ok hmetadata, branch_apply, if_neg (by rw [hdir]; exact Bool.false_ne_true), bind_ok hopen]
  rfl

end Namespace

/-! ## Handles -/

section
variable {α : Type} {id : Nat}

theorem withFile_mem {pm : Prog (MemFile × MemFs) Error α} {pd : Prog (DirFile × Mems) Error α} {f g : MemFile}
    {r : Except Error α} {s : Mems} {m : MemFs} (h : withFile f pm (s id) = (.ok (r, g), m)) :
    withFile (.mem id f) (SpaceFile.dispatch pm pd) s = (.ok (r, .mem id g), Function.update s id m) := by
  unfold withFile at h ⊢
  unfold SpaceFile.dispatch
  dsimp only
  rcases hp : pm (f, s id) with ⟨a | e | _, g', m'⟩
  · rw [hp] at h
    cases h
    rfl
  · rw [hp] at h
    cases h
    rfl
  · rw [hp] at h
    cases h

/-- Reading through a namespace is reading from the file system of the handle. -/
theorem readLoop_mem (ns : Namespace Nat) {rounds : Nat} {f g : MemFile} {out data : Bytes} {s : Mems} {m : MemFs}
    (h : memFs.readLoop rounds f out (s id) = (.ok (data, g), m)) :
    (memSpace ns).readLoop rounds (.mem id f) out s = (.ok (data, .mem id g), Function.update s id m) := by
  induction rounds generalizing f out s with
  | zero => cases h
  | succ rounds ih =>
    unfold FileSystem.readLoop at h ⊢
    obtain ⟨⟨r, f₁⟩, m₁, hread, hrest⟩ := bind_eq_ok.mp h
    have hspace : withFile (.mem id f) ((memSpace ns).file.read 8192) s = (.ok (r, .mem id f₁), Function.update s id m₁) :=
      withFile_mem hread
    rw [bind_ok hspace]
    cases r with
    | ok chunk =>
      cases chunk with
      | nil =>
        cases hrest
        rfl
      | cons b bs =>
        dsimp only at hrest ⊢
        rw [branch_apply] at hrest ⊢
        split at hrest
        · cases hrest
        · rename_i hlen
          rw [if_neg hlen]
          have hsame : (Function.update s id m₁) id = m₁ := Function.update_self _ _ _
          rw [← hsame] at hrest
          rw [ih hrest, Function.update_idem]
    | error err =>
      dsimp only at hrest ⊢
      rw [branch_apply] at hrest ⊢
      split at hrest
      · rename_i heof
        cases hrest
        rw [if_pos heof]
        rfl
      · cases hrest

/-- The data is written to a handle, in pieces. -/
def writeAll {σ η : Type} (file : FileHandle σ η) : List Bytes → Prog (η × σ) Error Unit
  | [] => pure ()
  | chunk :: rest => do
    let _ ← file.write chunk
    writeAll file rest

theorem writeAll_mem {chunks : List Bytes} {i : NodeId} {out : Bytes} {f : NodeFile} (hf : MemFs.WrittenFile i out f) {s s' : Mems}
    {g : SpaceFile} (h : writeAll SpaceFile.handle chunks (.mem id (.node f), s) = (.ok (), g, s')) :
    ∃ f', g = .mem id (.node f') ∧ MemFs.WrittenFile i (out ++ chunks.flatten) f' ∧ shapes s' = shapes s := by
  induction chunks generalizing f out s with
  | nil =>
    cases h
    exact ⟨f, rfl, by simpa using hf, rfl⟩
  | cons chunk rest ih =>
    obtain ⟨n, ⟨g₁, s₁⟩, hwrite, hrest⟩ := bind_eq_ok.mp h
    have hn : (MemFile.handle.write chunk (.node f, s id)).1 = .ok n := congrArg Prod.fst hwrite
    have hmem : MemFile.handle.write chunk (.node f, s id) = (.ok n, (MemFile.handle.write chunk (.node f, s id)).2) :=
      Prod.ext hn rfl
    obtain ⟨f₁, hg, hf₁, hshape⟩ := MemFs.write_written hf chunk hmem
    have hg₁ : g₁ = .mem id (.node f₁) := by
      rw [← hg]
      exact (congrArg (fun r => r.2.1) hwrite).symm
    have hs₁ : s₁ = Function.update s id (MemFile.handle.write chunk (.node f, s id)).2.2 :=
      (congrArg (fun r => r.2.2) hwrite).symm
    rw [hg₁] at hrest
    obtain ⟨f', hg', hf', hshapes⟩ := ih hf₁ hrest
    refine ⟨f', hg', by simpa using hf', hshapes.trans ?_⟩
    funext j
    rw [hs₁]
    unfold shapes
    by_cases hj : j = id
    · subst hj
      rw [Function.update_self]
      exact hshape
    · rw [Function.update_of_ne hj]

end

/-! ## Read-your-writes -/

/-- The calls that read through a namespace. -/
inductive SpaceRead where
  | stat (ctx : FsContext) (name : String)
  | open_ (ctx : FsContext) (name : String)
  | readDir (ctx : FsContext) (name : String)

def SpaceRead.run (ns : Namespace Nat) (s : Mems) : SpaceRead → Mems
  | .stat ctx name => ((memSpace ns).stat ctx name s).2
  | .open_ ctx name => ((memSpace ns).open_ ctx name s).2
  | .readDir ctx name => ((memSpace ns).readDir ctx name s).2

theorem memAt_reads (id : Nat) : Namespace.Reads shapes (memAt id) where
  open_ ctx name := opensMem_shapes (MemFs.preserves_open ctx name)
  stat ctx name := onMem_shapes (MemFs.preserves_stat _ ctx name)
  readDir ctx name := onMem_shapes (MemFs.preserves_readDir ctx name)

theorem SpaceFile.readDir_shapes (f : SpaceFile) (count : Int) (s : Mems) :
    shapes (SpaceFile.handle.readDir count (f, s)).2.2 = shapes s := by
  cases f with
  | mem id f =>
    funext j
    unfold shapes SpaceFile.handle SpaceFile.dispatch
    dsimp only
    by_cases hj : j = id
    · subst hj
      rw [Function.update_self]
      exact MemFile.preserves_readDir MemFs.shape count (f, s j)
    · rw [Function.update_of_ne hj]
  | dir f =>
    unfold SpaceFile.handle SpaceFile.dispatch DirFile.readDir
    dsimp only
    split
    · rfl
    · split
      · rfl
      · rfl

theorem SpaceRead.run_shapes (ns : Namespace Nat) (s : Mems) (read : SpaceRead) : shapes (read.run ns s) = shapes s := by
  cases read with
  | stat ctx name => exact Namespace.preserves_stat memAt_reads ns ctx name s
  | open_ ctx name => exact Namespace.preserves_open memAt_reads _ ns ctx name s
  | readDir ctx name =>
    have hread : Preserves shapes ((memSpace ns).readDir ctx name) := by
      refine preserves_bind (Namespace.preserves_open memAt_reads _ ns _ name) fun f => ?_
      refine preserves_bind (preserves_withFile (fun s => SpaceFile.readDir_shapes s.1 (-1) s.2) f) fun _ => ?_
      exact preserves_bind (preserves_ofExcept _) fun _ => preserves_pure _
    exact hread s

namespace Namespace

/-- Through which layer a create at a name goes, and that `open` finds what is put there. -/
theorem create_found {ns : Namespace Nat} {s s' : Mems} (htree : ∀ id, (s id).PlainTree) {p : String} (hp : validPath p = true)
    {f : SpaceFile} (h : create memAt ns p s = (.ok f, s')) :
    ∃ id full, validPath full = true ∧ CreatedAt s id full f s' ∧
      ∀ data s'', FileAt s id full data s'' → ∀ ctx, ∃ f' s₁, (memSpace ns).open_ ctx p s'' = (.ok f', s₁) ∧ OpenedAt id data f' := by
  have hlinks : ∀ id, (s id).SymlinkFree := fun id => (htree id).links
  cases hb : ns.bindings[p]? with
  | some targets =>
    have hroute : create memAt ns p = writeDirect createIn (.kind .notSupported) targets := routeWrite_of_bound hp hb
    rw [hroute] at h
    obtain ⟨target, rest, rfl, hnew⟩ := writeDirect_create hlinks h
    refine ⟨target.fs, target.path, target.valid, hnew, fun data s'' hfile ctx => ?_⟩
    obtain ⟨f', s₁, hfound, hf'⟩ := openDirect_create hlinks hfile (ctx.withOrigin p "open") ⟨none, []⟩
    rw [← targetsAt_of_bound hb] at hfound
    exact ⟨f', s₁, open_of_direct hp hfound, hf'⟩
  | none =>
    have hroute : create memAt ns p = writeLayers createIn (.path "create" p .notFound) (ns.layers p) :=
      routeWrite_of_not_bound hp hb
    rw [hroute] at h
    have hvalid : ∀ layer ∈ ns.layers p, validPath layer.2 = true := fun _ => valid_of_mem_layersOf
    obtain ⟨target, full, hfind, hnew⟩ := writeLayers_create hlinks hvalid h
    refine ⟨target.fs, full, hvalid _ (List.mem_of_find?_eq_some hfind), hnew, fun data s'' hfile ctx => ?_⟩
    obtain ⟨f', s₁, hfound, hf'⟩ := openLayers_create htree hvalid hfind hfile (ctx.withOrigin p "open") ⟨none, []⟩
    rw [← outerLayers_eq hb] at hfound
    have hnone : openDirect memAt (ctx.withOrigin p "open") ⟨none, []⟩ (ns.targetsAt p) s'' = (.ok (.inr ⟨none, []⟩), s'') := by
      rw [targetsAt_of_not_bound hb]
      rfl
    exact ⟨f', s₁, open_of_layers hp hnone hfound, hf'⟩

theorem run_reads_shapes (ns : Namespace Nat) (reads : List SpaceRead) (s : Mems) :
    shapes (reads.foldl (SpaceRead.run ns) s) = shapes s := by
  induction reads generalizing s with
  | nil => rfl
  | cons read rest ih => exact (ih _).trans (SpaceRead.run_shapes ns s read)

/-- What is written to a file that was created through a namespace and closed is
read through the namespace, after any calls that only read. -/
theorem readFile_created (ns : Namespace Nat) (s : Mems) (htree : ∀ id, (s id).PlainTree) {p : String} (hp : validPath p = true)
    {f f₁ f₂ : SpaceFile} {s₁ s₂ s₃ : Mems} {chunks : List Bytes} (hcreate : (memSpace ns).create p s = (.ok f, s₁))
    (hwrite : writeAll (memSpace ns).file chunks (f, s₁) = (.ok (), f₁, s₂))
    (hclose : (memSpace ns).file.close (f₁, s₂) = (.ok (), f₂, s₃)) (reads : List SpaceRead) {rounds : Nat}
    (hrounds : chunks.flatten.length ≤ 8192 * rounds) :
    ((memSpace ns).readFile (rounds + 1) p (reads.foldl (SpaceRead.run ns) s₃)).1 = .ok chunks.flatten := by
  obtain ⟨id, full, hfull, ⟨⟨g, rfl, hfresh⟩, hshape, hothers⟩, hfind⟩ := create_found htree hp hcreate
  obtain ⟨g₁, rfl, hg₁, hshapes⟩ := writeAll_mem hfresh.written hwrite
  rw [List.nil_append] at hg₁
  have hs₂ : (s₂ id).shape = ((s id).insertNew full (NodeInner.file (baseName full) [] (FileMode.fromPerm 0o644))).shape :=
    (congrFun hshapes id).trans hshape
  obtain ⟨r, m, hmem, hclosed⟩ := MemFs.close_new hg₁ hs₂
  have hs₃ : s₃ = Function.update s₂ id (MemFile.handle.close (.node g₁, s₂ id)).2.2 := (congrArg (fun x => x.2.2) hclose).symm
  rw [hmem] at hs₃
  have hshapes₄ := run_reads_shapes ns reads s₃
  generalize reads.foldl (SpaceRead.run ns) s₃ = s₄ at hshapes₄
  have hfile : FileAt s id full chunks.flatten s₄ := by
    refine ⟨hfull, ?_, fun j hj => ?_⟩
    · have hid : (s₄ id).shape = (s₃ id).shape := congrFun hshapes₄ id
      rw [hid, hs₃, Function.update_self]
      exact hclosed
    · have hsame : (s₄ j).shape = (s₃ j).shape := congrFun hshapes₄ j
      have hsame₂ : (s₂ j).shape = (s₁ j).shape := congrFun hshapes j
      rw [hsame, hs₃, Function.update_of_ne hj, hsame₂, hothers j hj]
  obtain ⟨f', s₅, hopen, ⟨h, rfl, hdata, hoffset, hdirty, hclosed', hmode⟩⟩ := hfind _ _ hfile (FsContext.new.withOrigin p "open")
  have hroom := hg₁.room
  have hzero : h.offset.toNat = 0 := by rw [hoffset]; rfl
  obtain ⟨k, hk, hloop⟩ := MemFs.readLoop_rest hclosed' hmode (by rw [hdata]; unfold isizeMax at hroom; omega) hdirty
    (by rw [hzero]; exact Nat.zero_le _) rounds (by rw [hdata, hzero]; exact hrounds) [] (s₅ id)
  rw [hzero, List.drop_zero, List.nil_append, hdata] at hloop
  have hread := readLoop_mem ns hloop
  unfold FileSystem.readFile
  obtain ⟨⟨r', k'⟩, hdone⟩ := MemFile.withFile_close_of_settled (f := .node k) (by simp [MemFile.settled, hk]) (s₅ id)
  have hsame : Function.update s₅ id (s₅ id) id = s₅ id := Function.update_self _ _ _
  rw [← hsame] at hdone
  have hspace : withFile (.mem id (.node k)) (memSpace ns).file.close (Function.update s₅ id (s₅ id)) = _ := withFile_mem hdone
  rw [bind_ok hopen, bind_ok hread]
  exact congrArg Prod.fst (bind_ok hspace)

/-! ## A run through two layers -/

def emptyMems : Mems := fun _ => MemFs.new fun _ => 0

theorem emptyMems_plain (id : Nat) : (emptyMems id).PlainTree := by
  refine ⟨MemWorld.init_treeInv _, fun p i _ => ?_⟩
  have hmode : ((emptyMems id).heap i).metadata.mode = FileMode.dir ||| FileMode.fromPerm 0o755 ||| FileMode.dir := rfl
  rw [hmode]
  decide

/-- One file system at the root and at `a`, another over the root. -/
def twoLayers : Namespace Nat :=
  let root : BindTarget Nat := { fs := 0, path := ".", metadata := Metadata.dir "." 0o755, valid := validPath_dot }
  let upper : BindTarget Nat := { fs := 1, path := ".", metadata := Metadata.dir "." 0o755, valid := validPath_dot }
  ((Namespace.new.addTarget "." validPath_dot root .after).addTarget "." validPath_dot upper .after).addTarget "a" rfl root .replace

def fileOf (r : Outcome Error SpaceFile) : SpaceFile :=
  match r with
  | .ok f => f
  | _ => .dir (DirFile.new (Metadata.dir "." 0o755) [])

theorem eq_of_isOk {α σ : Type} {r : Outcome Error α × σ} (h : r.1.isOk = true) : ∃ a, r = (.ok a, r.2) := by
  rcases r with ⟨a | e | _, s⟩
  · exact ⟨a, rfl⟩
  · cases h
  · cases h

theorem fileOf_of_isOk {σ : Type} {r : Outcome Error SpaceFile × σ} (h : r.1.isOk = true) : r = (.ok (fileOf r.1), r.2) := by
  obtain ⟨a, ha⟩ := eq_of_isOk h
  rw [ha]
  rfl

def created : Outcome Error SpaceFile × Mems := (memSpace twoLayers).create "a/f" emptyMems

def written : Outcome Error Unit × SpaceFile × Mems :=
  writeAll (memSpace twoLayers).file [[104], [105]] (fileOf created.1, created.2)

def closed : Outcome Error Unit × SpaceFile × Mems := (memSpace twoLayers).file.close written.2

theorem readFile_created_twoLayers : created.1.isOk = true ∧
    ((memSpace twoLayers).readFile 2 "a/f" ([SpaceRead.stat FsContext.new "a"].foldl (SpaceRead.run twoLayers) closed.2.2)).1 =
      .ok [104, 105] := by
  have hcreated : created.1.isOk = true := by decide +kernel
  obtain ⟨_, hwritten⟩ := eq_of_isOk (show written.1.isOk = true by decide +kernel)
  obtain ⟨_, hclosed⟩ := eq_of_isOk (show closed.1.isOk = true by decide +kernel)
  exact ⟨hcreated, readFile_created twoLayers emptyMems emptyMems_plain (by decide) (fileOf_of_isOk hcreated) hwritten hclosed
    [.stat FsContext.new "a"] (show ([[104], [105]] : List Bytes).flatten.length ≤ 8192 * 1 by decide)⟩

end Namespace
end Star9
