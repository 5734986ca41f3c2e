import Star9.Base.Run
import Star9.Sync.KeepLocal
import Star9.Sync.SyncFs

/-!
# A pull against a writer

One pull under `keepLocal`, which takes its snapshot of the dirty map, collects the
paths of both trees and then goes through them path by path, against a writer that
opens a file of the `SyncFs`, writes it and closes it. The close commits the data and
marks the path in two steps, and no lock holds the two sides apart.
-/
namespace Star9
open Base Prog

inductive PullPhase where
  | idle
  | snapshot (dirty : DirtyMap)
  | deleting (remotePaths todo : List String) (st : PullState)
  | syncing (todo : List String) (st : PullState)
  | finished
  | failed

/-- `committed` is what the file held when the close of the local handle returned. -/
inductive WriterPhase where
  | idle
  | writing (h : SyncHandle MemFile)
  | closed (h : SyncHandle MemFile) (committed : Bytes)
  | done (committed : Bytes)
  | failed

structure PullRace where
  store : SyncStore MemFs
  remote : MemFs
  pull : PullPhase
  writer : WriterPhase

inductive WriterOp where
  | create
  | openFile (flags : OpenFlags) (perm : FileMode)
  | write (data : Bytes)
  | writeAt (data : Bytes) (offset : UInt64)
  | seek (pos : SeekFrom)
  | close
  | mark

inductive PullRaceOp where
  | pull
  | writer (op : WriterOp)

namespace PullRace
variable (path : String) (rounds depth : Nat)

def start (store : SyncStore MemFs) (remote : MemFs) : PullRace := { store, remote, pull := .idle, writer := .idle }

/-! ## The pull -/

/-- The pull goes on, or ends with its first error. -/
def advance {α : Type} (w : PullRace) (p : Prog (MemFs × MemFs) Error α) (next : α → PullPhase) : PullRace :=
  let r := p (w.store.localFs, w.remote)
  { w with
    store := { w.store with localFs := r.2.1 }
    remote := r.2.2
    pull := match r.1 with
      | .ok a => next a
      | _ => .failed }

def collectBoth : Prog (MemFs × MemFs) Error (List String × List String) := do
  let remotePaths ← onThere (collectPaths memFs depth)
  let localPaths ← onHere (collectPaths memFs depth)
  pure (remotePaths, localPaths)

/-- Under `keepLocal` the pull clears no mark. -/
def pullStep (w : PullRace) : PullRace :=
  match w.pull with
  | .idle => { w with pull := .snapshot w.store.marks.dirty }
  | .snapshot dirty =>
    w.advance (collectBoth depth) fun paths => .deleting paths.1 paths.2.reverse { dirty, retained := ∅ }
  | .deleting remotePaths [] st => { w with pull := .syncing remotePaths st }
  | .deleting remotePaths (q :: todo) st =>
    w.advance (deleteStep memFs depth .keepLocal remotePaths st q) (.deleting remotePaths todo)
  | .syncing [] _ => { w with pull := .finished }
  | .syncing (q :: todo) st => w.advance (syncStep memFs memFs rounds depth .keepLocal st q) (.syncing todo)
  | .finished => w
  | .failed => w

/-! ## The writer -/

def opened (w : PullRace) (p : Prog (SyncStore MemFs) Error (SyncHandle MemFile)) : PullRace :=
  let r := p w.store
  { w with
    store := r.2
    writer := match r.1 with
      | .ok h => .writing h
      | _ => .failed }

/-- A call on the handle that is written; whether it succeeds is not looked at. -/
def onHandleOf {α : Type} (w : PullRace) (h : SyncHandle MemFile)
    (p : Prog (SyncHandle MemFile × SyncStore MemFs) Error α) : PullRace :=
  { w with store := (p (h, w.store)).2.2, writer := .writing (p (h, w.store)).2.1 }

/-- The bytes of the node that a handle is about. -/
def bytesOf (fs : MemFs) (h : SyncHandle MemFile) : Bytes :=
  match h.inner with
  | .node f => (fs.heap f.node).data
  | .dir _ => []

def closeInner (w : PullRace) (h : SyncHandle MemFile) : PullRace :=
  let r := SyncHandle.onInner memFs.file.close (h, w.store)
  { w with
    store := r.2.2
    writer := match r.1 with
      | .ok () => .closed r.2.1 (bytesOf r.2.2.localFs r.2.1)
      | _ => .failed }

def writerStep (w : PullRace) (op : WriterOp) : PullRace :=
  match op, w.writer with
  | .create, .idle => w.opened ((syncFs memFs).create path)
  | .openFile flags perm, .idle => w.opened ((syncFs memFs).openFile path flags perm)
  | .write data, .writing h => w.onHandleOf h ((syncFs memFs).file.write data)
  | .writeAt data offset, .writing h => w.onHandleOf h ((syncFs memFs).file.writeAt data offset)
  | .seek pos, .writing h => w.onHandleOf h ((syncFs memFs).file.seek pos)
  | .close, .writing h => w.closeInner h
  | .mark, .closed h committed => { w with store := (SyncHandle.markClosed (h, w.store)).2.2, writer := .done committed }
  | _, _ => w

def step (w : PullRace) : PullRaceOp → PullRace
  | .pull => w.pullStep rounds depth
  | .writer op => w.writerStep path op

/-! ## The condition on a step -/

/-- The remote has a file at the path with the bytes that the local file has. -/
def SameBytes (q : String) (w : MemFs × MemFs) : Prop :=
  ∃ metadata, (memFs.freeLstat q w.2).1 = .ok metadata ∧ metadata.isDir = false ∧ metadata.mode.isSymlink = false ∧
    ∃ data, (memFs.readFile rounds q w.2).1 = .ok data ∧ (prepareFile memFs rounds depth q data w.1).1 = .ok false

/-- A directory on both sides. -/
def BothDirs (q : String) (w : MemFs × MemFs) : Prop :=
  (∃ metadata, (memFs.freeLstat q w.2).1 = .ok metadata ∧ metadata.isDir = true) ∧ (localIsDir memFs q w.1).1 = .ok true

instance (q : String) (w : MemFs × MemFs) : Decidable (SameBytes rounds depth q w) := inferInstanceAs (Decidable (∃ _, _))

instance (q : String) (w : MemFs × MemFs) : Decidable (BothDirs q w) := inferInstanceAs (Decidable (_ ∧ _))

def started (w : PullRace) : Bool :=
  match w.writer with
  | .idle => false
  | .failed => false
  | _ => true

/-- The path that the pull is about to visit does not overlap that of the writer, or the snapshot has a mark for it,
or there is nothing to do. -/
def visitsElsewhere (w : PullRace) : Bool :=
  match w.pull with
  | .deleting remotePaths (q :: _) st =>
    remotePaths.contains q = true ∨ overlapping st.dirty q ≠ [] ∨ pathsOverlap q path = false
  | .syncing (q :: _) st =>
    overlapping st.dirty q ≠ [] ∨ pathsOverlap q path = false ∨ BothDirs q (w.store.localFs, w.remote) ∨
      SameBytes rounds depth q (w.store.localFs, w.remote)
  | _ => true

/-- A file that was opened is the one at the path, and not one that a symlink leads to. -/
def opensHere (w : PullRace) : Bool :=
  match w.writer with
  | .writing h =>
    match h.inner with
    | .node f => w.store.localFs.nodes[path]? == some f.node
    | .dir _ => false
  | _ => true

def RaceStep (w : PullRace) : PullRaceOp → Prop
  | .pull => w.started = true → w.visitsElsewhere path rounds depth = true
  | .writer op => w.started = false → (w.writerStep path op).opensHere path = true

instance (w : PullRace) : ∀ op, Decidable (RaceStep path rounds depth w op)
  | .pull => inferInstanceAs (Decidable (_ → _))
  | .writer _ => inferInstanceAs (Decidable (_ → _))

/-- The file is at its path and holds these bytes. -/
def Holds (fs : MemFs) (data : Bytes) : Prop := ∃ id, fs.nodes[path]? = some id ∧ (fs.heap id).data = data

/-- What the writer has committed is there. -/
def Kept (w : PullRace) : Prop := ∀ committed, w.writer = .done committed → Holds path w.store.localFs committed

/-! ## A pull that nothing runs against -/

section
variable {path rounds depth} {w : PullRace}

def trees (w : PullRace) : MemFs × MemFs := (w.store.localFs, w.remote)

theorem trees_advance {α : Type} (p : Prog (MemFs × MemFs) Error α) (next : α → PullPhase) :
    (w.advance p next).trees = (p w.trees).2 := rfl

theorem pull_advance_ok {α : Type} {p : Prog (MemFs × MemFs) Error α} {a : α} {v : MemFs × MemFs}
    (h : p w.trees = (.ok a, v)) (next : α → PullPhase) : (w.advance p next).pull = next a ∧ (w.advance p next).trees = v := by
  have hr : p (w.store.localFs, w.remote) = (.ok a, v) := h
  unfold advance trees
  dsimp only
  rw [hr]
  exact ⟨rfl, rfl⟩

theorem pull_advance_failed {α : Type} {p : Prog (MemFs × MemFs) Error α} {next : α → PullPhase}
    (h : (p w.trees).1.isOk = false) : (w.advance p next).pull = .failed := by
  have hr : (p (w.store.localFs, w.remote)).1.isOk = false := h
  unfold advance
  dsimp only
  cases hp : (p (w.store.localFs, w.remote)).1 with
  | ok a =>
    rw [hp] at hr
    cases hr
  | err _ => rfl
  | abort => rfl

theorem run_failed (h : w.pull = .failed) (n : Nat) : run (step path rounds depth) w (List.replicate n .pull) = w := by
  induction n with
  | zero => rfl
  | succ n ih =>
    have hstep : w.step path rounds depth .pull = w := by rw [step, pullStep, h]
    rw [List.replicate_succ, run_cons, hstep, ih]

/-- A pass over some paths, as one step for each path and one to leave it. -/
theorem run_pass {f : PullState → String → Prog (MemFs × MemFs) Error PullState} {phase : List String → PullState → PullPhase}
    {n : Nat} {k : PullState → Prog (MemFs × MemFs) Error PullState}
    (hstep : ∀ (w : PullRace) q todo st, w.pull = phase (q :: todo) st →
      w.step path rounds depth .pull = w.advance (f st q) (phase todo))
    (hlast : ∀ (w : PullRace) st, w.pull = phase [] st →
      (run (step path rounds depth) w (List.replicate n .pull)).trees = (k st w.trees).2)
    (todo : List String) (st : PullState) (h : w.pull = phase todo st) :
    (run (step path rounds depth) w (List.replicate (todo.length + n) .pull)).trees =
      ((todo.foldlM f st >>= k) w.trees).2 := by
  induction todo generalizing w st with
  | nil =>
    rw [List.length_nil, Nat.zero_add, List.foldlM_nil, pure_bind]
    exact hlast w st h
  | cons q todo ih =>
    have hlen : (q :: todo).length + n = (todo.length + n) + 1 := by
      rw [List.length_cons]
      omega
    rw [hlen, List.replicate_succ, run_cons, hstep w q todo st h, List.foldlM_cons, bind_assoc]
    rcases hf : f st q w.trees with ⟨st' | e | _, v⟩
    · have hnext := pull_advance_ok hf (phase todo)
      rw [ih st' hnext.1, bind_ok hf, hnext.2]
    · rw [run_failed (pull_advance_failed (by rw [hf]; rfl)), trees_advance, bind_err hf, hf]
    · rw [run_failed (pull_advance_failed (by rw [hf]; rfl)), trees_advance, bind_abort hf, hf]

theorem run_syncing (todo : List String) (st : PullState) (h : w.pull = .syncing todo st) :
    (run (step path rounds depth) w (List.replicate (todo.length + 0) .pull)).trees =
      ((todo.foldlM (syncStep memFs memFs rounds depth .keepLocal) st >>= pure) w.trees).2 := by
  refine run_pass (fun w q todo st h => ?_) (fun w st _ => rfl) todo st h
  rw [step, pullStep, h]

theorem run_deleting (remotePaths todo : List String) (st : PullState) (h : w.pull = .deleting remotePaths todo st) :
    (run (step path rounds depth) w (List.replicate (todo.length + (remotePaths.length + 1)) .pull)).trees =
      ((todo.foldlM (deleteStep memFs depth .keepLocal remotePaths) st >>= fun st =>
        remotePaths.foldlM (syncStep memFs memFs rounds depth .keepLocal) st) w.trees).2 := by
  refine run_pass (fun w q todo st h => ?_) (fun w st h => ?_) todo st h
  · rw [step, pullStep, h]
  · have hstep : w.step path rounds depth .pull = { w with pull := .syncing remotePaths st } := by rw [step, pullStep, h]
    rw [List.replicate_succ, run_cons, hstep]
    refine (run_syncing remotePaths st rfl).trans ?_
    rw [bind_pure]
    rfl

/-- The steps of the pull, one after the other, do to the two trees what the pull does. -/
theorem run_pull_trees (store : SyncStore MemFs) (remote : MemFs) :
    ∃ n, (run (step path rounds depth) (start store remote) (List.replicate n .pull)).trees =
      (pullPasses memFs memFs rounds depth .keepLocal store.marks.dirty (store.localFs, remote)).2 := by
  have hpasses : pullPasses memFs memFs rounds depth .keepLocal store.marks.dirty (store.localFs, remote) =
      (collectBoth depth >>= fun paths => paths.2.reverse.foldlM (deleteStep memFs depth .keepLocal paths.1)
        { dirty := store.marks.dirty, retained := ∅ } >>= fun st =>
          paths.1.foldlM (syncStep memFs memFs rounds depth .keepLocal) st) (store.localFs, remote) := by
    unfold pullPasses collectBoth
    simp only [bind_assoc, pure_bind]
  rw [hpasses]
  rcases hc : collectBoth depth (store.localFs, remote) with ⟨paths | e | _, v⟩
  · refine ⟨(paths.2.reverse.length + (paths.1.length + 1)) + 1 + 1, ?_⟩
    rw [List.replicate_succ, run_cons, List.replicate_succ, run_cons, bind_ok hc]
    let snapshot : PullRace := { start store remote with pull := .snapshot store.marks.dirty }
    have hcollect : collectBoth depth snapshot.trees = (.ok paths, v) := hc
    have hnext := pull_advance_ok hcollect fun paths =>
      .deleting paths.1 paths.2.reverse { dirty := store.marks.dirty, retained := ∅ }
    refine (run_deleting paths.1 paths.2.reverse _ hnext.1).trans ?_
    rw [hnext.2]
  · refine ⟨2, ?_⟩
    rw [bind_err hc]
    exact congrArg Prod.snd hc
  · refine ⟨2, ?_⟩
    rw [bind_abort hc]
    exact congrArg Prod.snd hc

end

/-! ## What stays in its place -/

/-- The local tree is well formed, and the node of the writer is at the path with its bytes. -/
structure Stands (node : Option (NodeId × Bytes)) (fs : MemFs) : Prop where
  alloc : fs.Allocated
  here : ∀ id data, node = some (id, data) → fs.nodes[path]? = some id ∧ (fs.heap id).data = data

variable {path rounds depth} {node : Option (NodeId × Bytes)} {fs fs' : MemFs} {q : String}

namespace Stands

theorem of_shape (h : Stands path node fs) (hs : fs'.shape = fs.shape) : Stands path node fs' where
  alloc := h.alloc.of_shape hs
  here id data hnode := by
    have hnodes : fs'.nodes = fs.nodes := congrArg Shape.nodes hs
    have hdata : (fs'.heap id).data = (fs.heap id).data := congrArg NodeCore.data (congrFun (congrArg Shape.core hs) id)
    rw [hnodes, hdata]
    exact h.here id data hnode

theorem insertNew (h : Stands path node fs) (hq : validPath q = true) (hne : node ≠ none → q ≠ path) (n : NodeInner) :
    Stands path node (fs.insertNew q n) where
  alloc := h.alloc.insertNew hq n
  here id data hnode := by
    obtain ⟨hid, hdata⟩ := h.here id data hnode
    have hne' : q ≠ path := hne (by rw [hnode]; exact nofun)
    have hlt : id ≠ fs.next := Nat.ne_of_lt (h.alloc.lt_next hid)
    refine ⟨?_, ?_⟩
    · rw [MemFs.insertNew_get, if_neg hne']
      exact hid
    · change (Function.update fs.heap fs.next n id).data = data
      rw [Function.update_of_ne hlt]
      exact hdata

theorem eraseNode (h : Stands path node fs) (hne : node ≠ none → q ≠ path) : Stands path node (fs.eraseNode q) where
  alloc := h.alloc.eraseNode q
  here id data hnode := by
    obtain ⟨hid, hdata⟩ := h.here id data hnode
    refine ⟨?_, hdata⟩
    rw [MemFs.eraseNode_get, if_neg (hne (by rw [hnode]; exact nofun))]
    exact hid

theorem safe_remove (hq : validPath q = true) (hne : node ≠ none → q ≠ path) :
    Safe (Stands path node) (fun _ => True) (MemFs.remove q) := by
  refine fun fs h => ⟨?_, fun _ _ => trivial⟩
  rcases MemFs.remove_cases fs q with hs | ⟨-, -, -, hs⟩
  · exact h.of_shape hs
  · rw [cleanPath_of_valid hq] at hs
    exact (h.eraseNode hne).of_shape hs

theorem safe_mkdir (hq : validPath q = true) (hne : node ≠ none → q ≠ path) (perm : FileMode) :
    Safe (Stands path node) (fun _ => True) (MemFs.mkdir q perm) := by
  refine fun fs h => ⟨?_, fun _ _ => trivial⟩
  cases hn : fs.nodes[cleanPath q]? with
  | some i =>
    rw [MemFs.mkdir_of_exists hn]
    exact h
  | none =>
    by_cases hpar : (MemFs.parentExists (cleanPath q) fs).1 = .ok true
    · rw [MemFs.mkdir_of_parent hn hpar, cleanPath_of_valid hq]
      exact (h.insertNew hq hne _).of_shape MemFs.shape_recomputeDirSizes
    · rw [(MemFs.mkdir_of_no_parent hn hpar).2]
      exact h

theorem safe_symlink (hq : validPath q = true) (hne : node ≠ none → q ≠ path) (target : String) :
    Safe (Stands path node) (fun _ => True) (MemFs.symlink target q) := by
  refine fun fs h => ⟨?_, fun _ _ => trivial⟩
  by_cases hpar : (MemFs.parentExists (cleanPath q) fs).1 = .ok true
  · rw [MemFs.symlink_of_parent hpar, cleanPath_of_valid hq]
    exact (h.insertNew hq hne _).of_shape MemFs.shape_recomputeDirSizes
  · rw [(MemFs.symlink_of_no_parent hpar).2]
    exact h

theorem safe_writeFile (hq : validPath q = true) (hne : node ≠ none → q ≠ path) (data : Bytes) (perm : FileMode) :
    Safe (Stands path node) (fun _ => True) (memFs.writeFile q data perm) := by
  refine fun fs h => ⟨?_, fun _ _ => trivial⟩
  rcases MemFs.writeFile_cases hq data perm fs with hs | ⟨n, hs⟩
  · exact h.of_shape hs
  · exact (h.insertNew hq hne n).of_shape hs

end Stands

/-- A path that does not overlap that of the writer. -/
theorem untouched_stands (hpath : IsCollected path) (hq : IsCollected q) (hoverlap : node ≠ none → pathsOverlap q path = false) :
    Untouched (Stands path node) q := by
  have hapart : node ≠ none → within q path = false ∧ within path q = false := by
    intro hnode
    have h := hoverlap hnode
    have hcq := cleanPath_of_valid hq.1
    have hcp := cleanPath_of_valid hpath.1
    rw [pathsOverlap, pathContains_eq (by rw [hcq]; exact hq.2), pathContains_eq (by rw [hcp]; exact hpath.2), hcq, hcp,
      Bool.or_eq_false_iff] at h
    exact h
  have hbelow : ∀ r, within q r = true → node ≠ none → r ≠ path := by
    rintro r hr hnode rfl
    rw [(hapart hnode).1] at hr
    cases hr
  have habove : ∀ r, within r q = true → node ≠ none → r ≠ path := by
    rintro r hr hnode rfl
    rw [(hapart hnode).2] at hr
    cases hr
  exact {
    valid := hq.1
    shape := fun _ _ h hs => h.of_shape hs
    alloc := fun _ h => h.alloc
    remove := fun r hr hqr => Stands.safe_remove hr (hbelow r hqr)
    mkdir := fun r perm hr hrq => Stands.safe_mkdir hr (habove r hrq) perm
    symlink := fun target => Stands.safe_symlink hq.1 (hbelow q (within_self q)) target
    writeFile := fun data perm => Stands.safe_writeFile hq.1 (hbelow q (within_self q)) data perm }

/-! ## The pull keeps the file in its place -/

theorem prepareFile_same {data : Bytes} (h : (prepareFile memFs rounds depth q data fs).1 = .ok false) :
    (prepareFile memFs rounds depth q data fs).2.shape = fs.shape := by
  have hexists := MemFs.preserves_existsWith id q fs
  obtain ⟨b, fs₁, hb, hrest⟩ := bind_fst_eq_ok.mp h
  have hstate : (FileSystem.existsWith memFs.stat q fs).2 = fs := hexists
  rw [hb] at hstate
  obtain rfl : fs₁ = fs := hstate
  unfold prepareFile
  rw [bind_ok hb]
  cases b with
  | false =>
    obtain ⟨-, fs₂, -, hpure⟩ := bind_fst_eq_ok.mp hrest
    cases hpure
  | true =>
    obtain ⟨metadata, fs₂, hlstat, hkind⟩ := bind_fst_eq_ok.mp hrest
    obtain rfl : fs₂ = fs₁ := (congrArg Prod.snd hlstat).symm
    rw [if_pos rfl, bind_ok hlstat]
    by_cases hleaf : (metadata.isDir || metadata.mode.isSymlink) = true
    · rw [if_pos hleaf] at hkind
      obtain ⟨-, fs₃, -, hpure⟩ := bind_fst_eq_ok.mp hkind
      cases hpure
    · rw [if_neg hleaf, bind_state fun _ _ => rfl]
      exact MemFs.preserves_readFile rounds q fs₂

/-- A file of the remote with the bytes that are here is not written. -/
theorem syncPathFromRemote_same {w : MemFs × MemFs} (h : SameBytes rounds depth q w) :
    (syncPathFromRemote memFs memFs rounds depth q w).2.1.shape = w.1.shape ∧
      (syncPathFromRemote memFs memFs rounds depth q w).2.2.shape = w.2.shape := by
  obtain ⟨metadata, hlstat, hdir, hlink, data, hread, hprepare⟩ := h
  have hshape := prepareFile_same hprepare
  have hremote := MemFs.preserves_readFile rounds q w.2
  have hlstat' : onThere (memFs.freeLstat q) w = (.ok metadata, w) := Prod.ext hlstat rfl
  have hread' : onThere (memFs.readFile rounds q) w = (.ok data, w.1, (memFs.readFile rounds q w.2).2) :=
    Prod.ext hread rfl
  have hfile : syncFileHere memFs rounds depth q data metadata.mode w.1 =
      (.ok (), (prepareFile memFs rounds depth q data w.1).2) := by
    unfold syncFileHere
    rw [bind_ok (Prod.ext hprepare rfl)]
    rfl
  unfold syncPathFromRemote
  rw [bind_ok hlstat', hdir, if_neg Bool.false_ne_true, hlink, if_neg Bool.false_ne_true, bind_ok hread', onHere, zoom_apply,
    hfile]
  exact ⟨hshape, hremote⟩

theorem resolving_cases (st : PullState) (conflicts : List String) (act : Prog (MemFs × MemFs) Error Unit) (cleared : DirtyMap)
    (w : MemFs × MemFs) : (resolving .keepLocal st conflicts act cleared w).2 = w ∨
      conflicts = [] ∧ (resolving .keepLocal st conflicts act cleared w).2 = (act w).2 := by
  unfold resolving
  rw [branch_apply]
  split
  · exact Or.inr ⟨List.isEmpty_iff.mp ‹_›, bind_state (fun _ _ => rfl) w⟩
  · exact Or.inl rfl

/-- A pull that keeps local changes leaves a path that its snapshot overlaps, unless it is a directory on both
sides. -/
theorem syncStep_state (hq : IsCollected q) (st : PullState) (w : MemFs × MemFs) :
    (syncStep memFs memFs rounds depth .keepLocal st q w).2 = w ∨
    (overlapping st.dirty q = [] ∨ BothDirs q w) ∧
      (syncStep memFs memFs rounds depth .keepLocal st q w).2 = (syncPathFromRemote memFs memFs rounds depth q w).2 := by
  have hstate := pullPathAction_state q w
  unfold syncStep
  rw [bind_apply]
  rcases ha : pullPathAction memFs memFs q w with ⟨action | e | _, w'⟩ <;> rw [ha] at hstate <;>
    obtain rfl : w' = w := hstate
  · dsimp only
    rw [bind_apply]
    by_cases hdir : action = .syncRemoteDir
    · subst hdir
      rw [onHere, zoom_apply, conflictingDirtyPaths_dir hq.1]
      rcases hl : (localIsDir memFs q w'.1).1 with b | e | _
      · cases b with
        | true =>
          rcases resolving_cases st _ _ _ w' with h | ⟨-, h⟩
          · exact Or.inl h
          · exact Or.inr ⟨Or.inr ⟨pullPathAction_dir (congrArg Prod.fst ha), hl⟩, h⟩
        | false =>
          rcases resolving_cases st _ _ _ w' with h | ⟨hnil, h⟩
          · exact Or.inl h
          · exact Or.inr ⟨Or.inl hnil, h⟩
      · exact Or.inl rfl
      · exact Or.inl rfl
    · have hconflicts : onHere (conflictingDirtyPaths memFs st.dirty q action) w' = (.ok (overlapping st.dirty q), w') := by
        have hclean := cleanPath_of_valid hq.1
        cases action with
        | deleteLocal => exact congrArg (fun r => (Outcome.ok (overlapping st.dirty r), w')) hclean
        | syncRemoteLeaf => exact congrArg (fun r => (Outcome.ok (overlapping st.dirty r), w')) hclean
        | syncRemoteDir => exact absurd rfl hdir
      rw [hconflicts]
      rcases resolving_cases st (overlapping st.dirty q) _ _ w' with h | ⟨hnil, h⟩
      · exact Or.inl h
      · exact Or.inr ⟨Or.inl hnil, h⟩
  · exact Or.inl rfl
  · exact Or.inl rfl

/-- Both trees are well formed, and the file of the writer is in its place. -/
def BothStand (path : String) (node : Option (NodeId × Bytes)) (w : MemFs × MemFs) : Prop :=
  Stands path node w.1 ∧ w.2.Allocated

theorem syncStep_stands (hpath : IsCollected path) (hq : IsCollected q) {st : PullState} {w : MemFs × MemFs}
    (hw : BothStand path node w)
    (hok : node ≠ none → overlapping st.dirty q ≠ [] ∨ pathsOverlap q path = false ∨ BothDirs q w ∨ SameBytes rounds depth q w) :
    BothStand path node (syncStep memFs memFs rounds depth .keepLocal st q w).2 := by
  have hdirs : BothDirs q w → BothStand path node (syncPathFromRemote memFs memFs rounds depth q w).2 := by
    intro ⟨⟨metadata, hremote, hdir⟩, hlocal⟩
    rw [syncPathFromRemote_of_dirs rounds depth hremote hdir hlocal]
    exact hw
  have hsame : SameBytes rounds depth q w → BothStand path node (syncPathFromRemote memFs memFs rounds depth q w).2 :=
    fun h => ⟨hw.1.of_shape (syncPathFromRemote_same h).1, hw.2.of_shape (syncPathFromRemote_same h).2⟩
  have hclear : (node ≠ none → pathsOverlap q path = false) →
      BothStand path node (syncPathFromRemote memFs memFs rounds depth q w).2 :=
    fun h => ((untouched_stands hpath hq h).safe_syncPathFromRemote rounds depth w hw).1
  rcases syncStep_state hq st w with hs | ⟨hwhy, hs⟩ <;> rw [hs]
  · exact hw
  · by_cases hnode : node = none
    · exact hclear fun h => absurd hnode h
    · rcases hok hnode with h | h | h | h
      · rcases hwhy with hnil | hboth
        · exact absurd hnil h
        · exact hdirs hboth
      · exact hclear fun _ => h
      · exact hdirs h
      · exact hsame h

theorem deleteStep_stands (hpath : IsCollected path) (hq : IsCollected q) {remotePaths : List String} {st : PullState}
    {w : MemFs × MemFs} (hw : BothStand path node w)
    (hok : node ≠ none → remotePaths.contains q = true ∨ overlapping st.dirty q ≠ [] ∨ pathsOverlap q path = false) :
    BothStand path node (deleteStep memFs depth .keepLocal remotePaths st q w).2 := by
  unfold deleteStep
  rw [branch_apply]
  split
  · exact hw
  · rename_i hgone
    have hconflicts : onHere (conflictingDirtyPaths memFs st.dirty q .deleteLocal) w = (.ok (overlapping st.dirty q), w) :=
      congrArg (fun r => (Outcome.ok (overlapping st.dirty r), w)) (cleanPath_of_valid hq.1)
    rw [bind_ok hconflicts]
    rcases resolving_cases st (overlapping st.dirty q) (onHere (removeLocalPath memFs depth q))
      (clearDirtySubtree st.dirty q) w with hs | ⟨hnil, hs⟩ <;> rw [hs]
    · exact hw
    · have hclear : node ≠ none → pathsOverlap q path = false := by
        intro hnode
        rcases hok hnode with h | h | h
        · exact absurd h hgone
        · exact absurd hnil h
        · exact h
      exact (safe_onHere ((untouched_stands hpath hq hclear).safe_removeLocalPath depth) w hw).1

/-! ## The writer keeps the file in its place -/

/-- A call that writes to no node, and after which the handle is about the same one. -/
def WithinHandle {α : Type} (p : Prog (MemFile × MemFs) Error α) : Prop :=
  ∀ f fs, ∃ g, (p (.node f, fs)).2.1 = .node g ∧ g.node = f.node ∧ (p (.node f, fs)).2.2.shape = fs.shape

theorem withinHandle_write (data : Bytes) : WithinHandle (memFs.file.write data) := by
  intro f fs
  refine ⟨(NodeFile.write data (f, fs)).2.1, rfl, ?_, MemFile.write_shape data (.node f) fs⟩
  unfold NodeFile.write
  dsimp only
  split_ifs <;> rfl

theorem withinHandle_writeAt (data : Bytes) (offset : UInt64) : WithinHandle (memFs.file.writeAt data offset) := by
  intro f fs
  refine ⟨(NodeFile.writeAt data offset (f, fs)).2.1, rfl, ?_, MemFile.writeAt_shape data offset (.node f) fs⟩
  unfold NodeFile.writeAt NodeFile.write
  dsimp only
  split_ifs <;> rfl

theorem withinHandle_seek (pos : SeekFrom) : WithinHandle (memFs.file.seek pos) := by
  intro f fs
  refine ⟨(NodeFile.seek pos (f, fs)).2.1, rfl, ?_, congrArg MemFs.shape (MemFile.seek_state pos (.node f) fs)⟩
  unfold NodeFile.seek
  cases pos <;> (dsimp only; split_ifs <;> rfl)

theorem inner_setInner (h : SyncHandle MemFile) (f : MemFile) : (h.setInner f).inner = f := by
  cases h <;> rfl

theorem inner_setDirty (h : SyncHandle MemFile) : h.setDirty.inner = h.inner := by
  cases h <;> rfl

theorem noteWritten_state (p : Prog (MemFile × MemFs) Error Nat) (h : SyncHandle MemFile) (s : SyncStore MemFs) :
    (SyncHandle.noteWritten p (h, s)).2.1.inner = (p (h.inner, s.localFs)).2.1 ∧
      (SyncHandle.noteWritten p (h, s)).2.2.localFs = (p (h.inner, s.localFs)).2.2 := by
  unfold SyncHandle.noteWritten
  rw [bind_apply]
  unfold SyncHandle.onInner
  dsimp only
  cases hp : (p (h.inner, s.localFs)).1 with
  | ok written =>
    dsimp only
    rw [branch_apply]
    split
    · exact ⟨(inner_setDirty _).trans (inner_setInner _ _), rfl⟩
    · exact ⟨inner_setInner _ _, rfl⟩
  | err e => exact ⟨inner_setInner _ _, rfl⟩
  | abort => exact ⟨inner_setInner _ _, rfl⟩

/-- The handle of the writer is about the node at its path. -/
def HandleStands (path : String) (h : SyncHandle MemFile) (data : Bytes) (fs : MemFs) : Prop :=
  ∃ f, h.inner = .node f ∧ Stands path (some (f.node, data)) fs

theorem HandleStands.within {h h' : SyncHandle MemFile} {data : Bytes} {α : Type} {p : Prog (MemFile × MemFs) Error α}
    (hp : WithinHandle p) (hstands : HandleStands path h data fs) (hinner : h'.inner = (p (h.inner, fs)).2.1)
    (hfs : fs' = (p (h.inner, fs)).2.2) : HandleStands path h' data fs' := by
  obtain ⟨f, hf, hstands⟩ := hstands
  obtain ⟨g, hg, hnode, hshape⟩ := hp f fs
  rw [hf] at hinner hfs
  refine ⟨g, hinner.trans hg, ?_⟩
  rw [hnode, hfs]
  exact hstands.of_shape hshape

theorem Stands.setData {id : NodeId} {data : Bytes} (h : Stands path (some (id, data)) fs) (committed : Bytes) :
    Stands path (some (id, committed)) (fs.setData id committed) where
  alloc := h.alloc.of_kinds (MemFs.kinds_setData id committed)
  here i bytes hnode := by
    cases hnode
    refine ⟨(h.here id data rfl).1, ?_⟩
    change (Function.update fs.heap id _ id).data = committed
    rw [Function.update_self]
    rfl

/-- A close fails on a closed handle, and otherwise gives the node the data of a dirty one. -/
theorem close_cases (f : NodeFile) (fs : MemFs) :
    (memFs.file.close (.node f, fs)).1.isOk = false ∧ (memFs.file.close (.node f, fs)).2.2 = fs ∨
    ∃ g, g.node = f.node ∧ (memFs.file.close (.node f, fs) = (.ok (), .node g, fs.setData f.node f.data) ∨
      memFs.file.close (.node f, fs) = (.ok (), .node g, fs)) := by
  have hclose : memFs.file.close (.node f, fs) =
      ((NodeFile.close (f, fs)).1, .node (NodeFile.close (f, fs)).2.1, (NodeFile.close (f, fs)).2.2) := rfl
  rw [hclose]
  by_cases hclosed : f.closed = true
  · left
    unfold NodeFile.close
    dsimp only
    rw [if_pos hclosed]
    exact ⟨rfl, rfl⟩
  · right
    unfold NodeFile.close NodeFile.sync
    dsimp only
    rw [if_neg hclosed]
    by_cases hdirty : f.dirty = true
    · rw [if_pos hdirty]
      exact ⟨{ f with dirty := false, closed := true }, rfl, Or.inl rfl⟩
    · rw [if_neg hdirty]
      exact ⟨{ f with closed := true }, rfl, Or.inr rfl⟩

/-- What a close of the local handle commits is at the path. -/
theorem closeInner_stands {w : PullRace} {h : SyncHandle MemFile} {data : Bytes}
    (hstands : HandleStands path h data w.store.localFs) :
    (w.closeInner h).writer = .failed ∧ (w.closeInner h).store.localFs = w.store.localFs ∨
      ∃ h' committed, (w.closeInner h).writer = .closed h' committed ∧
        HandleStands path h' committed (w.closeInner h).store.localFs := by
  obtain ⟨f, hf, hstands⟩ := hstands
  have hnode : ∀ (g : NodeFile) (fs : MemFs) (bytes : Bytes), g.node = f.node → Stands path (some (f.node, bytes)) fs →
      HandleStands path (h.setInner (.node g)) (bytesOf fs (h.setInner (.node g))) fs := by
    intro g fs bytes hg hfs
    refine ⟨g, inner_setInner _ _, ?_⟩
    rw [bytesOf, inner_setInner, hg]
    dsimp only
    rw [hg, (hfs.here f.node bytes rfl).2]
    exact hfs
  unfold closeInner SyncHandle.onInner
  dsimp only
  rw [hf]
  rcases close_cases f w.store.localFs with ⟨hfail, hstate⟩ | ⟨g, hg, hclose | hclose⟩
  · left
    refine ⟨?_, hstate⟩
    cases hr : (memFs.file.close (.node f, w.store.localFs)).1 with
    | ok _ =>
      rw [hr] at hfail
      cases hfail
    | err _ => rfl
    | abort => rfl
  · right
    rw [hclose]
    exact ⟨_, _, rfl, hnode g _ f.data hg (hstands.setData f.data)⟩
  · right
    rw [hclose]
    exact ⟨_, _, rfl, hnode g _ data hg hstands⟩

theorem allocated_create (h : fs.Allocated) (name : String) : (MemFs.create name fs).2.Allocated := by
  by_cases hpar : (MemFs.parentExists (cleanPath name) fs).1 = .ok true
  · rw [MemFs.create_of_parent hpar, MemFs.openNode_state]
    exact (h.insertNew (cleanPath_valid name) _).of_shape MemFs.shape_recomputeDirSizes
  · rw [(MemFs.create_of_no_parent hpar).2]
    exact h

theorem allocated_openFile (h : fs.Allocated) (name : String) (flags : OpenFlags) (perm : FileMode) :
    (memFs.openFile name flags perm fs).2.Allocated := by
  have hchmod : ∀ fs : MemFs, fs.Allocated → (MemFs.chmod name perm fs).2.Allocated :=
    fun fs h => h.of_kinds (MemFs.chmod_kinds name perm fs)
  rcases MemFs.openFile_cases name flags perm fs with hs | ⟨-, fs₁, hs₁, ⟨-, -, hs⟩ | ⟨-, -, hs⟩⟩
  · exact h.of_shape hs
  · exact (hchmod fs₁ (h.of_shape hs₁)).of_shape hs
  · have hcreate := allocated_create (h.of_shape hs₁) name
    split at hs
    · exact hcreate.of_shape hs
    · exact (hchmod _ hcreate).of_shape hs

/-! ## The invariant -/

/-- From the time it is opened, the file of the writer is in its place. -/
def WriterStands (path : String) (w : PullRace) : Prop :=
  match w.writer with
  | .idle => w.store.localFs.Allocated
  | .writing h => ∃ data, HandleStands path h data w.store.localFs
  | .closed h committed => HandleStands path h committed w.store.localFs
  | .done committed => ∃ id, Stands path (some (id, committed)) w.store.localFs
  | .failed => w.store.localFs.Allocated

def PullPhase.paths : PullPhase → List String
  | .deleting remotePaths todo _ => remotePaths ++ todo
  | .syncing todo _ => todo
  | _ => []

structure Inv (path : String) (w : PullRace) : Prop where
  writer : WriterStands path w
  remote : w.remote.Allocated
  collected : ∀ q ∈ PullPhase.paths w.pull, IsCollected q

theorem stands_none (h : fs.Allocated) : Stands path none fs := ⟨h, nofun⟩

/-- What a writer needs of the local tree does not depend on the pull. -/
theorem WriterStands.frame {w : PullRace} (h : WriterStands path w) :
    ∃ node, (node ≠ none → w.started = true) ∧ Stands path node w.store.localFs ∧
      ∀ w' : PullRace, w'.writer = w.writer → Stands path node w'.store.localFs → WriterStands path w' := by
  unfold WriterStands at h
  cases hw : w.writer with
  | idle =>
    rw [hw] at h
    refine ⟨none, fun hne => absurd rfl hne, stands_none h, fun w' hw' hfs => ?_⟩
    rw [WriterStands, hw']
    exact hfs.alloc
  | writing handle =>
    rw [hw] at h
    obtain ⟨data, f, hf, hstands⟩ := h
    refine ⟨_, fun _ => by rw [started, hw], hstands, fun w' hw' hfs => ?_⟩
    rw [WriterStands, hw']
    exact ⟨data, f, hf, hfs⟩
  | closed handle committed =>
    rw [hw] at h
    obtain ⟨f, hf, hstands⟩ := h
    refine ⟨_, fun _ => by rw [started, hw], hstands, fun w' hw' hfs => ?_⟩
    rw [WriterStands, hw']
    exact ⟨f, hf, hfs⟩
  | done committed =>
    rw [hw] at h
    obtain ⟨id, hstands⟩ := h
    refine ⟨_, fun _ => by rw [started, hw], hstands, fun w' hw' hfs => ?_⟩
    rw [WriterStands, hw']
    exact ⟨id, hfs⟩
  | failed =>
    rw [hw] at h
    refine ⟨none, fun hne => absurd rfl hne, stands_none h, fun w' hw' hfs => ?_⟩
    rw [WriterStands, hw']
    exact hfs.alloc

theorem Inv.advance {w : PullRace} (h : Inv path w) {α : Type} {p : Prog (MemFs × MemFs) Error α} {next : α → PullPhase}
    (hstands : ∀ node, (node ≠ none → w.started = true) → BothStand path node (w.store.localFs, w.remote) →
      BothStand path node (p (w.store.localFs, w.remote)).2)
    (hnext : ∀ a, (p (w.store.localFs, w.remote)).1 = .ok a → ∀ q ∈ PullPhase.paths (next a), IsCollected q) :
    Inv path (w.advance p next) := by
  obtain ⟨node, hstarted, hhere, hframe⟩ := h.writer.frame
  have hafter := hstands node hstarted ⟨hhere, h.remote⟩
  refine ⟨hframe _ rfl hafter.1, hafter.2, ?_⟩
  unfold PullRace.advance
  dsimp only
  cases hp : (p (w.store.localFs, w.remote)).1 with
  | ok a => exact hnext a hp
  | err _ => exact List.forall_mem_nil _
  | abort => exact List.forall_mem_nil _

theorem safe_collectBoth : Safe (BothStand path node)
    (fun paths => ∀ q ∈ paths.1 ++ paths.2, IsCollected q) (collectBoth depth) := by
  have hremote : Safe (BothStand path node) (fun paths => ∀ q ∈ paths, IsCollected q) (onThere (collectPaths memFs depth)) :=
    safe_onThere (safe_collectPaths depth (fun _ _ h hs => h.of_shape hs) fun _ h => h)
  have hlocal : Safe (BothStand path node) (fun paths => ∀ q ∈ paths, IsCollected q) (onHere (collectPaths memFs depth)) :=
    safe_onHere (safe_collectPaths depth (fun _ _ h hs => h.of_shape hs) fun _ h => h.alloc)
  refine safe_bind hremote fun remotePaths hr => safe_bind hlocal fun localPaths hl => safe_pure ?_
  intro q hq
  rcases List.mem_append.mp hq with hq | hq
  · exact hr q hq
  · exact hl q hq

theorem pullStep_inv (hpath : IsCollected path) {w : PullRace} (h : Inv path w) (hok : RaceStep path rounds depth w .pull) :
    Inv path (w.pullStep rounds depth) := by
  have hkeep : ∀ next, (∀ q ∈ PullPhase.paths next, IsCollected q) → Inv path { w with pull := next } := by
    intro next hnext
    obtain ⟨node, -, hhere, hframe⟩ := h.writer.frame
    exact ⟨hframe _ rfl hhere, h.remote, hnext⟩
  have hcollected := h.collected
  unfold RaceStep visitsElsewhere at hok
  unfold pullStep
  cases hp : w.pull with
  | idle => exact hkeep _ (List.forall_mem_nil _)
  | snapshot dirty =>
    refine h.advance (fun node _ hw => (safe_collectBoth _ hw).1) fun paths hpaths q hq => ?_
    obtain ⟨node, -, hhere, -⟩ := h.writer.frame
    have hboth : BothStand path node (w.store.localFs, w.remote) := ⟨hhere, h.remote⟩
    refine (safe_collectBoth _ hboth).2 paths hpaths q ?_
    rcases List.mem_append.mp hq with hq | hq
    · exact List.mem_append_left _ hq
    · exact List.mem_append_right _ (List.mem_reverse.mp hq)
  | deleting remotePaths todo st =>
    rw [hp] at hok hcollected
    cases todo with
    | nil => exact hkeep _ fun q hq => hcollected q (List.mem_append_left _ hq)
    | cons q todo =>
      refine h.advance (fun node hnode hw => ?_) fun st' _ r hr => hcollected r ?_
      · have hq : IsCollected q := hcollected q (List.mem_append_right _ List.mem_cons_self)
        exact deleteStep_stands hpath hq hw fun hne => of_decide_eq_true (hok (hnode hne))
      · rcases List.mem_append.mp hr with hr | hr
        · exact List.mem_append_left _ hr
        · exact List.mem_append_right _ (List.mem_cons_of_mem q hr)
  | syncing todo st =>
    rw [hp] at hok hcollected
    cases todo with
    | nil => exact hkeep _ (List.forall_mem_nil _)
    | cons q todo =>
      refine h.advance (fun node hnode hw => ?_) fun st' _ r hr => hcollected r (List.mem_cons_of_mem q hr)
      exact syncStep_stands hpath (hcollected q List.mem_cons_self) hw fun hne => of_decide_eq_true (hok (hnode hne))
  | finished => exact h
  | failed => exact h

theorem opened_inv {w : PullRace} (h : Inv path w) {p : Prog (SyncStore MemFs) Error (SyncHandle MemFile)}
    (halloc : (p w.store).2.localFs.Allocated)
    (hfile : (w.opened p).opensHere path = true) : Inv path (w.opened p) := by
  refine ⟨?_, h.remote, h.collected⟩
  unfold opened opensHere at hfile
  unfold opened WriterStands
  dsimp only at hfile ⊢
  cases hp : (p w.store).1 with
  | ok handle =>
    rw [hp] at hfile
    dsimp only at hfile
    cases hf : handle.inner with
    | node f =>
      rw [hf] at hfile
      refine ⟨((p w.store).2.localFs.heap f.node).data, f, hf, halloc, fun id data hsome => ?_⟩
      cases hsome
      exact ⟨beq_iff_eq.mp hfile, rfl⟩
    | dir f =>
      rw [hf] at hfile
      cases hfile
  | err _ => exact halloc
  | abort => exact halloc

theorem onHandleOf_inv {w : PullRace} (h : Inv path w) {handle : SyncHandle MemFile} (hw : w.writer = .writing handle)
    {α β : Type} {p : Prog (SyncHandle MemFile × SyncStore MemFs) Error α} {inner : Prog (MemFile × MemFs) Error β}
    (hinner : WithinHandle inner)
    (hp : (p (handle, w.store)).2.1.inner = (inner (handle.inner, w.store.localFs)).2.1 ∧
      (p (handle, w.store)).2.2.localFs = (inner (handle.inner, w.store.localFs)).2.2) :
    Inv path (w.onHandleOf handle p) := by
  refine ⟨?_, h.remote, h.collected⟩
  have hwriter := h.writer
  unfold WriterStands at hwriter
  rw [hw] at hwriter
  obtain ⟨data, hstands⟩ := hwriter
  exact ⟨data, hstands.within hinner hp.1 hp.2⟩

theorem writerStep_inv {w : PullRace} (h : Inv path w) {op : WriterOp}
    (hok : RaceStep path rounds depth w (.writer op)) : Inv path (w.writerStep path op) := by
  have hwriter := h.writer
  unfold WriterStands at hwriter
  unfold RaceStep at hok
  cases hw : w.writer with
  | idle =>
    rw [hw] at hwriter
    have hfile := hok (by rw [started, hw])
    cases op with
    | create =>
      unfold writerStep at hfile ⊢
      rw [hw] at hfile ⊢
      refine opened_inv h ?_ hfile
      have hstate : ((syncFs memFs).create path w.store).2.localFs = (MemFs.create path w.store.localFs).2 :=
        congrArg SyncStore.localFs (bind_state (fun _ _ => rfl) w.store)
      rw [hstate]
      exact allocated_create hwriter path
    | openFile flags perm =>
      unfold writerStep at hfile ⊢
      rw [hw] at hfile ⊢
      refine opened_inv h ?_ hfile
      have hstate : ((syncFs memFs).openFile path flags perm w.store).2.localFs =
          (memFs.openFile path flags perm w.store.localFs).2 :=
        congrArg SyncStore.localFs (bind_state (fun _ _ => rfl) w.store)
      rw [hstate]
      exact allocated_openFile hwriter path flags perm
    | _ =>
      unfold writerStep
      rw [hw]
      exact h
  | writing handle =>
    rw [hw] at hwriter
    unfold writerStep
    rw [hw]
    cases op with
    | write data => exact onHandleOf_inv h hw (withinHandle_write data) (noteWritten_state _ _ _)
    | writeAt data offset => exact onHandleOf_inv h hw (withinHandle_writeAt data offset) (noteWritten_state _ _ _)
    | seek pos => exact onHandleOf_inv h hw (withinHandle_seek pos) ⟨inner_setInner _ _, rfl⟩
    | close =>
      obtain ⟨data, hstands⟩ := hwriter
      refine ⟨?_, h.remote, h.collected⟩
      unfold WriterStands
      rcases closeInner_stands hstands with ⟨hfail, hstate⟩ | ⟨handle', committed, hclosed, hafter⟩
      · rw [hfail, hstate]
        obtain ⟨f, -, hfs⟩ := hstands
        exact hfs.alloc
      · rw [hclosed]
        exact hafter
    | _ => exact h
  | closed handle committed =>
    rw [hw] at hwriter
    unfold writerStep
    rw [hw]
    cases op with
    | mark =>
      obtain ⟨f, -, hfs⟩ := hwriter
      refine ⟨⟨f.node, ?_⟩, h.remote, h.collected⟩
      have hstate : (SyncHandle.markClosed (handle, w.store)).2.2.localFs = w.store.localFs := by
        unfold SyncHandle.markClosed Prog.modify
        dsimp only
        split <;> rfl
      rw [hstate]
      exact hfs
    | _ => exact h
  | done committed =>
    unfold writerStep
    rw [hw]
    cases op <;> exact h
  | failed =>
    unfold writerStep
    rw [hw]
    cases op <;> exact h

theorem step_inv (hpath : IsCollected path) (w : PullRace) (op : PullRaceOp) (h : Inv path w)
    (hok : RaceStep path rounds depth w op) : Inv path (w.step path rounds depth op) := by
  cases op with
  | pull => exact pullStep_inv hpath h hok
  | writer op => exact writerStep_inv h hok

theorem Inv.kept {w : PullRace} (h : Inv path w) : Kept path w := by
  intro committed hw
  have hwriter := h.writer
  unfold WriterStands at hwriter
  rw [hw] at hwriter
  obtain ⟨id, hstands⟩ := hwriter
  exact ⟨id, hstands.here id committed rfl⟩

theorem start_inv {store : SyncStore MemFs} {remote : MemFs} (hlocal : store.localFs.Allocated) (hremote : remote.Allocated) :
    Inv path (start store remote) := ⟨hlocal, hremote, List.forall_mem_nil _⟩

/-- What the writer has committed stays, in every interleaving in which the pull stays away from it. -/
theorem pull_keeps_commit (hpath : IsCollected path) {store : SyncStore MemFs} {remote : MemFs}
    (hlocal : store.localFs.Allocated) (hremote : remote.Allocated) {ops : List PullRaceOp}
    (hsteps : StepsMeet (step path rounds depth) (RaceStep path rounds depth) (start store remote) ops) (k : Nat) :
    Kept path (run (step path rounds depth) (start store remote) (ops.take k)) :=
  (run_invariant (step_inv hpath) (start_inv hlocal hremote) (hsteps.take k)).kept

/-! ## Runs -/

def finished (w : PullRace) : Bool :=
  match w.pull with
  | .finished => true
  | _ => false

def committed (w : PullRace) : Option Bytes :=
  match w.writer with
  | .done data => some data
  | _ => none

theorem writer_of_committed {w : PullRace} {data : Bytes} (h : w.committed = some data) : w.writer = .done data := by
  unfold committed at h
  split at h
  · rename_i hw
    rw [hw, Option.some.inj h]
  · cases h

/-- The bytes at a path. -/
def bytesAt (fs : MemFs) (q : String) : Option Bytes := fs.nodes[q]?.map fun id => (fs.heap id).data

theorem Holds.bytesAt {data : Bytes} (h : Holds path fs data) : bytesAt fs path = some data := by
  obtain ⟨id, hid, hdata⟩ := h
  rw [PullRace.bytesAt, hid, Option.map_some, hdata]

def emptyFs : MemFs := MemFs.new fun _ => 0

def oneFile : MemFs := (run MemWorld.step (MemWorld.init fun _ => 0) [.create "f"]).fs

theorem emptyFs_allocated : emptyFs.Allocated := (MemWorld.init_treeInv fun _ => 0).alloc

theorem oneFile_allocated : oneFile.Allocated := by
  have hsteps : StepsMeet MemWorld.step MemWorld.TreeStep (MemWorld.init fun _ => 0) [.create "f"] := by decide +kernel
  exact (run_invariant (I := fun w : MemWorld => w.fs.TreeInv) (fun _ op hw hok => MemWorld.step_treeInv op hw hok)
    (MemWorld.init_treeInv fun _ => 0) hsteps).alloc

/-- The pull takes its snapshot while the file is being written. -/
def lateMark : List PullRaceOp :=
  [.writer .create, .writer (.write [7]), .pull, .pull, .writer .close, .pull, .pull, .pull, .pull, .writer .mark]

/-- The pull writes the bytes of the remote over a file that was closed but is not marked in its snapshot. -/
theorem pull_destroys_commit :
    ¬ ∀ (store : SyncStore MemFs) (remote : MemFs) (ops : List PullRaceOp), store.localFs.Allocated → remote.Allocated →
      (run (step "f" 4 4) (start store remote) ops).finished = true →
      Kept "f" (run (step "f" 4 4) (start store remote) ops) := by
  intro hkept
  have hend : (run (step "f" 4 4) (start ⟨emptyFs, SyncState.new⟩ oneFile) lateMark).finished = true ∧
      (run (step "f" 4 4) (start ⟨emptyFs, SyncState.new⟩ oneFile) lateMark).committed = some [7] ∧
      bytesAt (run (step "f" 4 4) (start ⟨emptyFs, SyncState.new⟩ oneFile) lateMark).store.localFs "f" = some [] := by
    decide +kernel
  have hholds := hkept ⟨emptyFs, SyncState.new⟩ oneFile lateMark emptyFs_allocated oneFile_allocated hend.1 [7]
    (writer_of_committed hend.2.1)
  have hbytes := hholds.bytesAt
  rw [hend.2.2] at hbytes
  cases hbytes

/-- A mark from an earlier write is in the snapshot. -/
theorem pull_keeps_commit_lateMark :
    Kept "f" (run (step "f" 4 4) (start ⟨emptyFs, SyncState.new.markDirty "f" .upsert⟩ oneFile) lateMark) ∧
    (run (step "f" 4 4) (start ⟨emptyFs, SyncState.new.markDirty "f" .upsert⟩ oneFile) lateMark).finished = true ∧
    (run (step "f" 4 4) (start ⟨emptyFs, SyncState.new.markDirty "f" .upsert⟩ oneFile) lateMark).committed = some [7] := by
  have hsteps : StepsMeet (step "f" 4 4) (RaceStep "f" 4 4) (start ⟨emptyFs, SyncState.new.markDirty "f" .upsert⟩ oneFile)
      lateMark := by decide +kernel
  have hkept := pull_keeps_commit ⟨by decide, by decide⟩ emptyFs_allocated oneFile_allocated hsteps 10
  refine ⟨hkept, ?_⟩
  decide +kernel

end PullRace
end Star9
