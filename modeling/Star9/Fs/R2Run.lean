import Star9.Base.Run
import Star9.Fs.R2Move

/-!
# Runs of the object store file system

Calls on one file system over a store that was empty, and on the handles it gave
out. The store stays sound over every run whose steps put things only under names
that can be entered.
-/
namespace Star9
open Base Prog

structure R2World where
  store : InMemoryObjectStore
  files : List HttpHandle

inductive R2Op where
  | openFile (name : String) (flags : OpenFlags) (perm : FileMode)
  | create (name : String)
  | write (file : Nat) (data : Bytes)
  | writeAt (file : Nat) (data : Bytes) (offset : UInt64)
  | seek (file : Nat) (pos : SeekFrom)
  | close (file : Nat)
  | mkdir (name : String) (perm : FileMode)
  | remove (name : String)
  | rename (old new : String)
  | symlink (old new : String)

namespace R2World
variable (fs : R2Fs) {α : Type}

def call (p : Prog InMemoryObjectStore Error α) (w : R2World) : R2World := { w with store := (p w.store).2 }

def opens (p : Prog InMemoryObjectStore Error HttpHandle) (w : R2World) : R2World :=
  match p w.store with
  | (.ok handle, store) => { store, files := w.files ++ [handle] }
  | (_, store) => { w with store }

def onFile (p : Prog (HttpWriteFile × InMemoryObjectStore) Error α) (file : Nat) (w : R2World) : R2World :=
  match w.files[file]? with
  | some (.write f) => { store := (p (f, w.store)).2.2, files := w.files.set file (.write (p (f, w.store)).2.1) }
  | _ => w

/-- `rounds` is how many links a file may be found through when it is opened. -/
def step (rounds : Nat) (w : R2World) : R2Op → R2World
  | .openFile name flags perm => w.opens (R2Fs.openFile fs rounds name flags perm)
  | .create name => w.opens (R2Fs.create fs rounds name)
  | .write file data => w.onFile (HttpWriteFile.write data) file
  | .writeAt file data offset => w.onFile (HttpWriteFile.writeAt data offset) file
  | .seek file pos => w.onFile (HttpWriteFile.seek pos) file
  | .close file => w.onFile (R2Fs.close fs) file
  | .mkdir name perm => w.call (R2Fs.mkdir fs name perm)
  | .remove name => w.call (R2Fs.remove fs name)
  | .rename old new => w.call (R2Fs.rename fs old new)
  | .symlink old new => w.call (R2Fs.symlink fs old new)

/-- A file system over an empty store. -/
def mount (clock : Nat → SystemTime) : R2World := { store := (R2Fs.ensureRoot fs (.new clock)).2, files := [] }

/-- What `ops` on a file system with a base path make of an empty store. -/
def reached (basePath : String) (rounds : Nat) (clock : Nat → SystemTime) (ops : List R2Op) : R2World :=
  run (step (R2Fs.withBasePath basePath) rounds) (mount (R2Fs.withBasePath basePath) clock) ops

end R2World

/-! ## What a consistent store is -/

namespace R2Fs
variable (fs : R2Fs)

/-- The entries of the directory at a path. -/
def listing (m : Std.ExtTreeMap String Object) (p : String) : List (String × FileMode) := ((fs.view m).list p).toList

/-- An object is there for a path exactly when its parent lists its name once, and
the entry has the mode of the object. -/
def StoreConsistent (m : Std.ExtTreeMap String Object) : Prop :=
  ∀ p, validPath p = true → p ≠ "." →
    ((m[fs.key p]?).isSome = true ↔ ∃ mode, (fs.listing m (parentPath p)).filter (·.1 = baseName p) = [(baseName p, mode)]) ∧
    ∀ o, m[fs.key p]? = some o → (baseName p, objectMode o) ∈ fs.listing m (parentPath p)

variable {fs} {m : Std.ExtTreeMap String Object}

theorem mem_listing {p name : String} {mode : FileMode} :
    (name, mode) ∈ fs.listing m p ↔ ((fs.view m).list p)[name]? = some mode :=
  Std.ExtTreeMap.mem_toList_iff_getElem?_eq_some

theorem listing_distinct (m : Std.ExtTreeMap String Object) (p : String) : (fs.listing m p).Nodup :=
  (Std.ExtTreeMap.distinct_keys_toList (t := (fs.view m).list p)).imp fun {a b} h heq => h (by rw [heq]; simp)

theorem listing_once {p name : String} {mode : FileMode} :
    (fs.listing m p).filter (·.1 = name) = [(name, mode)] ↔ ((fs.view m).list p)[name]? = some mode := by
  have hmem (entry : String × FileMode) : entry ∈ (fs.listing m p).filter (·.1 = name) ↔
      ((fs.view m).list p)[name]? = some entry.2 ∧ entry.1 = name := by
    rw [List.mem_filter, mem_listing, decide_eq_true_eq]
    refine and_congr_left fun hname => ?_
    rw [hname]
  constructor
  · intro h
    exact ((hmem (name, mode)).mp (by rw [h]; exact List.mem_singleton_self _)).1
  · intro h
    have hperm : ((fs.listing m p).filter (·.1 = name)).Perm [(name, mode)] := by
      rw [List.perm_ext_iff_of_nodup ((listing_distinct m p).filter _) (List.nodup_singleton _)]
      intro entry
      rw [hmem, h, List.mem_singleton]
      constructor
      · rintro ⟨hmode, hname⟩
        exact Prod.ext hname (Option.some.inj hmode).symm
      · rintro rfl
        exact ⟨rfl, rfl⟩
    exact List.perm_singleton.mp hperm

theorem Sound.storeConsistent (h : fs.Sound m) : fs.StoreConsistent m := by
  intro p hp hdot
  have hentry := h.coherent.entry p hp hdot
  constructor
  · constructor
    · intro hsome
      obtain ⟨o, ho⟩ := Option.isSome_iff_exists.mp hsome
      exact ⟨objectMode o, listing_once.mpr (hentry.trans (view_of_getElem? ho).1)⟩
    · rintro ⟨mode, honce⟩
      obtain ⟨o, ho, -⟩ := Option.map_eq_some_iff.mp (hentry.symm.trans (listing_once.mp honce))
      exact Option.isSome_iff_exists.mpr ⟨o, ho⟩
  · intro o ho
    rw [mem_listing, hentry, (view_of_getElem? ho).1]

theorem view_empty_coherent : (fs.view ∅).Coherent where
  entry p _ _ := by simp [view]
  dirMode p _ mode hmode := by simp [view] at hmode
  listed p _ hne := by simp [view] at hne

variable (fs) in
theorem ensureRoot_sound (clock : Nat → SystemTime) : fs.Sound (ensureRoot fs (.new clock)).2.objects := by
  have hlist : objectListing (listingObjectAt [] (clock 0)) = ∅ := objectListing_listingObjectAt plainMap_empty (clock 0)
  have hview := view_insert fs ∅ validPath_dot (listingObjectAt [] (clock 0))
  have hobjects : (ensureRoot fs (.new clock)).2.objects = (∅ : Std.ExtTreeMap String Object).insert (fs.key ".")
      (listingObjectAt [] (clock 0)) := by
    unfold ensureRoot
    rw [bind_apply]
    simp [InMemoryObjectStore.get, InMemoryObjectStore.new]
    rfl
  rw [hobjects]
  rw [hlist, objectMode_listingObjectAt] at hview
  refine ⟨(view_empty_coherent.setRoot (fun _ hm => ?_) (by simp [view])).of_agrees hview, ?_⟩
  · cases hm
    exact fun _ => rfl
  · have hnone : fs.Keyed ∅ := fun k hk => by simp at hk
    exact hnone.insert rfl _

/-! ## Opening -/

/-- A file opened for writing is closed into a plain file. -/
def Closable : HttpHandle → Prop
  | .write f => validPath f.path = true ∧ ∃ perm, f.metadata.mode = FileMode.fromPerm perm
  | _ => True

theorem nodeOf_preserves (name : String) (o : Object) : Preserves id (nodeOf name o) := by
  unfold nodeOf
  split
  · exact preserves_pure _
  · exact preserves_throw _
  · exact preserves_abort

theorem getNode_preserves (name : String) : Preserves id (getNode fs name) := by
  unfold getNode getObject
  refine preserves_bind ?_ fun o => nodeOf_preserves name o
  refine preserves_bind (fun _ => rfl) fun o => ?_
  split
  · exact preserves_pure _
  · exact preserves_throw _

theorem followNode_preserves (op : String) (ctx : FsContext) (rounds : Nat) (name : String) :
    Preserves id (followNode fs op ctx rounds name) := by
  induction rounds generalizing name with
  | zero => exact preserves_abort
  | succ rounds ih =>
    unfold followNode
    refine preserves_ite (preserves_throw _) ?_
    refine preserves_bind (getNode_preserves _) fun node => ?_
    exact preserves_ite (ih _) (preserves_pure _)

theorem open_preserves (rounds : Nat) (ctx : FsContext) (name : String) : Preserves id (open_ fs rounds ctx name) :=
  preserves_bind (followNode_preserves _ ctx rounds name) fun _ => preserves_pure _

theorem writeBase_preserves (rounds : Nat) (name : String) (flags : OpenFlags) :
    Preserves id (writeBase fs rounds name flags) := by
  unfold writeBase readFile
  refine preserves_ite (preserves_pure _) (preserves_bind (preserves_attempt ?_) fun r => ?_)
  · refine preserves_bind (open_preserves rounds _ name) fun handle => ?_
    split
    · exact preserves_pure _
    · exact preserves_throw _
    · exact preserves_throw _
  · split
    · exact preserves_pure _
    · exact preserves_pure _

theorem openFile_preserves (rounds : Nat) (name : String) (flags : OpenFlags) (perm : FileMode) :
    Preserves id (openFile fs rounds name flags perm) := by
  unfold openFile
  refine preserves_ite (open_preserves rounds _ name) ?_
  exact preserves_bind (writeBase_preserves rounds _ flags) fun _ => preserves_pure _

theorem openFile_closable (rounds : Nat) (name : String) (flags : OpenFlags) (perm : FileMode) (s : InMemoryObjectStore)
    {handle : HttpHandle} (h : (openFile fs rounds name flags perm s).1 = .ok handle) : Closable handle := by
  unfold openFile at h
  rw [branch_apply] at h
  split at h
  · unfold open_ at h
    obtain ⟨node, s', -, hnode⟩ := bind_fst_eq_ok.mp h
    cases hnode
    unfold openNode
    split
    · trivial
    · trivial
  · obtain ⟨data, s', -, hdata⟩ := bind_fst_eq_ok.mp h
    cases hdata
    exact ⟨cleanPath_valid name, _, FileMode.withPerm_perm _⟩

end R2Fs

/-! ## Runs -/

namespace R2World
variable (fs : R2Fs) (rounds : Nat) {α : Type}

/-- A step that puts something under a name finds that it can be entered, unless
the step fails before it changes the store. -/
def EntersAt (w : R2World) : R2Op → Prop
  | .close file =>
    match w.files[file]? with
    | some (.write f) => f.closed = false → fs.Enterable w.store.objects f.path
    | _ => True
  | .mkdir name _ =>
    (w.store.objects[fs.key (parentPath (cleanPath name))]?).isSome = true → fs.Enterable w.store.objects (cleanPath name)
  | .symlink _ new =>
    (w.store.objects[fs.key (parentPath (cleanPath new))]?).isSome = true → fs.Enterable w.store.objects (cleanPath new)
  | .rename old new => fs.Renamable w.store.objects (cleanPath old) (cleanPath new)
  | _ => True

structure SoundWorld (w : R2World) : Prop where
  store : fs.Sound w.store.objects
  files : ∀ handle ∈ w.files, R2Fs.Closable handle

variable {fs} {w : R2World}

theorem SoundWorld.call (h : SoundWorld fs w) {p : Prog InMemoryObjectStore Error α} (hp : fs.Sound (p w.store).2.objects) :
    SoundWorld fs (w.call p) := ⟨hp, h.files⟩

theorem SoundWorld.opens (h : SoundWorld fs w) {p : Prog InMemoryObjectStore Error HttpHandle} (hstore : (p w.store).2 = w.store)
    (hp : ∀ handle, (p w.store).1 = .ok handle → R2Fs.Closable handle) : SoundWorld fs (w.opens p) := by
  unfold R2World.opens
  generalize p w.store = result at hstore hp
  obtain ⟨r, store⟩ := result
  obtain rfl : store = w.store := hstore
  cases r with
  | ok handle =>
    refine ⟨h.store, fun handle' hmem => ?_⟩
    rcases List.mem_append.mp hmem with hmem | hmem
    · exact h.files handle' hmem
    · rw [List.mem_singleton.mp hmem]
      exact hp handle rfl
  | err e => exact ⟨h.store, h.files⟩
  | abort => exact ⟨h.store, h.files⟩

theorem SoundWorld.onFile (h : SoundWorld fs w) {p : Prog (HttpWriteFile × InMemoryObjectStore) Error α} {file : Nat}
    (hstore : ∀ f, w.files[file]? = some (.write f) → fs.Sound (p (f, w.store)).2.2.objects)
    (hfile : ∀ f, (p (f, w.store)).2.1.path = f.path ∧ (p (f, w.store)).2.1.metadata.mode = f.metadata.mode) :
    SoundWorld fs (w.onFile p file) := by
  unfold R2World.onFile
  split
  · rename_i f hget
    refine ⟨hstore f hget, fun handle hmem => ?_⟩
    rcases List.mem_or_eq_of_mem_set hmem with hmem | rfl
    · exact h.files handle hmem
    · have hf := h.files _ (List.mem_of_getElem? hget)
      unfold R2Fs.Closable at hf ⊢
      dsimp only at hf ⊢
      rw [(hfile f).1, (hfile f).2]
      exact hf
  · exact h

/-- Writing and seeking leave a file the one that was opened. -/
theorem write_keeps (data : Bytes) (f : HttpWriteFile) (s : InMemoryObjectStore) :
    (HttpWriteFile.write data (f, s)).2.1.path = f.path ∧
    (HttpWriteFile.write data (f, s)).2.1.metadata.mode = f.metadata.mode ∧ (HttpWriteFile.write data (f, s)).2.2 = s := by
  unfold HttpWriteFile.write
  dsimp only
  split
  · exact ⟨rfl, rfl, rfl⟩
  · split
    · exact ⟨rfl, rfl, rfl⟩
    · exact ⟨rfl, rfl, rfl⟩

theorem seek_keeps (pos : SeekFrom) (f : HttpWriteFile) (s : InMemoryObjectStore) :
    (HttpWriteFile.seek pos (f, s)).2.1.path = f.path ∧
    (HttpWriteFile.seek pos (f, s)).2.1.metadata.mode = f.metadata.mode ∧ (HttpWriteFile.seek pos (f, s)).2.2 = s := by
  unfold HttpWriteFile.seek
  dsimp only
  cases pos
  all_goals
    dsimp only
    split
    · exact ⟨rfl, rfl, rfl⟩
    · exact ⟨rfl, rfl, rfl⟩

/-- A close puts the file whatever it returns. -/
theorem close_cases (fs : R2Fs) (f : HttpWriteFile) (s : InMemoryObjectStore) :
    (R2Fs.close fs (f, s)).2.1.path = f.path ∧ (R2Fs.close fs (f, s)).2.1.metadata.mode = f.metadata.mode ∧
    (f.closed = true ∧ (R2Fs.close fs (f, s)).2.2 = s ∨
      f.closed = false ∧ (R2Fs.close fs (f, s)).2.2 = (R2Fs.putFileObject fs f.path f.metadata.mode f.data s).2) := by
  unfold R2Fs.close
  dsimp only
  cases hclosed : f.closed with
  | true => exact ⟨rfl, rfl, .inl ⟨rfl, rfl⟩⟩
  | false =>
    rw [if_neg Bool.false_ne_true]
    rcases R2Fs.putFileObject fs f.path f.metadata.mode f.data s with ⟨a | e | _, s'⟩
    · exact ⟨rfl, rfl, .inr ⟨rfl, rfl⟩⟩
    · exact ⟨rfl, rfl, .inr ⟨rfl, rfl⟩⟩
    · exact ⟨rfl, rfl, .inr ⟨rfl, rfl⟩⟩

theorem SoundWorld.step (h : SoundWorld fs w) {op : R2Op} (hop : EntersAt fs w op) : SoundWorld fs (step fs rounds w op) := by
  cases op with
  | openFile name flags perm =>
    exact h.opens (R2Fs.openFile_preserves rounds name flags perm w.store) fun _ =>
      R2Fs.openFile_closable rounds name flags perm w.store
  | create name =>
    have hstore : (R2Fs.create fs rounds name w.store).2 = w.store := R2Fs.openFile_preserves rounds name _ _ w.store
    exact h.opens hstore fun _ => R2Fs.openFile_closable rounds name _ _ w.store
  | write file data =>
    refine h.onFile (fun f _ => ?_) fun f => ⟨(write_keeps data f w.store).1, (write_keeps data f w.store).2.1⟩
    rw [(write_keeps data f w.store).2.2]
    exact h.store
  | writeAt file data offset =>
    have hkeeps (f : HttpWriteFile) := write_keeps data { f with offset := offset.toNat } w.store
    refine h.onFile (fun f _ => ?_) fun f => ⟨(hkeeps f).1, (hkeeps f).2.1⟩
    rw [show (HttpWriteFile.writeAt data offset (f, w.store)).2.2 = w.store from (hkeeps f).2.2]
    exact h.store
  | seek file pos =>
    refine h.onFile (fun f _ => ?_) fun f => ⟨(seek_keeps pos f w.store).1, (seek_keeps pos f w.store).2.1⟩
    rw [(seek_keeps pos f w.store).2.2]
    exact h.store
  | close file =>
    refine h.onFile (fun f hf => ?_) fun f => ⟨(close_cases fs f w.store).1, (close_cases fs f w.store).2.1⟩
    rcases (close_cases fs f w.store).2.2 with ⟨-, hs⟩ | ⟨hclosed, hs⟩
    · rw [hs]
      exact h.store
    · rw [hs]
      have henter : fs.Enterable w.store.objects f.path := by
        unfold EntersAt at hop
        dsimp only at hop
        rw [hf] at hop
        exact hop hclosed
      obtain ⟨hpath, perm, hmode⟩ := h.files _ (List.mem_of_getElem? hf)
      rw [hmode]
      exact R2Fs.putFileObject_sound h.store hpath henter perm f.data
  | mkdir name perm => exact h.call (R2Fs.mkdir_sound h.store name perm hop)
  | remove name => exact h.call (R2Fs.remove_sound h.store name)
  | rename old new => exact h.call (R2Fs.rename_sound h.store old new hop)
  | symlink old new => exact h.call (R2Fs.symlink_sound h.store old new hop)

theorem mount_sound (clock : Nat → SystemTime) : SoundWorld fs (mount fs clock) :=
  ⟨R2Fs.ensureRoot_sound fs clock, fun _ hmem => by cases hmem⟩

/-- A store that was empty is consistent after every run of operations that put
things only under names that can be entered. -/
theorem run_storeConsistent (basePath : String) (clock : Nat → SystemTime) (ops : List R2Op)
    (h : StepsMeet (step (R2Fs.withBasePath basePath) rounds) (EntersAt (R2Fs.withBasePath basePath))
      (mount (R2Fs.withBasePath basePath) clock) ops) :
    (R2Fs.withBasePath basePath).StoreConsistent (reached basePath rounds clock ops).store.objects := by
  have hrun : SoundWorld (R2Fs.withBasePath basePath) (reached basePath rounds clock ops) :=
    run_invariant (fun _ _ hw hop => hw.step rounds hop) (mount_sound clock) h
  exact hrun.store.storeConsistent

/-! ## Two runs -/

def moveRun : List R2Op :=
  [.mkdir "d" directoryMode, .create "d/f", .write 0 [104, 105], .close 0, .rename "d" "e"]

theorem enterable_of_checks {m : Std.ExtTreeMap String Object} {n : String} (hempty : ((fs.view m).list n).isEmpty = true)
    (hspace : Spaceless (baseName n)) (hdir : fs.isDirectory m (parentPath n) = true) : fs.Enterable m n :=
  ⟨Std.ExtTreeMap.isEmpty_iff.mp hempty, .inr ⟨hspace, hdir⟩⟩

theorem spaceless_singleton {c : Char} (h : isWhiteSpace c = false) : Spaceless (String.ofList [c]) :=
  spaceless_ofList.mpr ⟨List.cons_ne_nil c [], fun d hd => by rw [List.mem_singleton.mp hd]; exact h⟩

theorem moveRun_enters : StepsMeet (step (R2Fs.withBasePath "") 1) (EntersAt (R2Fs.withBasePath ""))
    (mount (R2Fs.withBasePath "") fun _ => 0) moveRun := by
  refine ⟨fun _ => ?_, trivial, trivial, fun _ => ?_, fun _ _ => ⟨by decide +kernel, ?_⟩, trivial⟩
  · exact enterable_of_checks (by decide +kernel) (spaceless_singleton (by decide : isWhiteSpace 'd' = false)) (by decide +kernel)
  · exact enterable_of_checks (by decide +kernel) (spaceless_singleton (by decide : isWhiteSpace 'f' = false)) (by decide +kernel)
  · exact enterable_of_checks (by decide +kernel) (spaceless_singleton (by decide : isWhiteSpace 'e' = false)) (by decide +kernel)

/-- A directory with a file is moved. -/
theorem run_storeConsistent_moveRun :
    (R2Fs.withBasePath "").StoreConsistent (reached "" 1 (fun _ => 0) moveRun).store.objects ∧
    (reached "" 1 (fun _ => 0) moveRun).store.objects.keys = ["/", "/e", "/e/f"] :=
  ⟨run_storeConsistent 1 "" (fun _ => 0) moveRun moveRun_enters, by decide +kernel⟩

def againRun : List R2Op := [.mkdir "d" directoryMode, .create "d/f", .close 0, .mkdir "d" directoryMode]

/-- A directory that is made again loses its listing, but not the objects below it. -/
theorem run_not_storeConsistent :
    ¬∀ (basePath : String) (rounds : Nat) (clock : Nat → SystemTime) (ops : List R2Op),
      (R2Fs.withBasePath basePath).StoreConsistent (reached basePath rounds clock ops).store.objects := by
  intro h
  have hagain := h "" 1 (fun _ => 0) againRun
  obtain ⟨mode, honce⟩ := (hagain "d/f" (by decide) (by decide)).1.mp (by decide +kernel)
  have hempty : (R2Fs.withBasePath "").listing (reached "" 1 (fun _ => 0) againRun).store.objects (parentPath "d/f") = [] := by
    decide +kernel
  rw [hempty] at honce
  cases honce

end R2World
end Star9
