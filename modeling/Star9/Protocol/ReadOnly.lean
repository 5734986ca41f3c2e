import Star9.Base.Run
import Star9.Fs.MemState
import Star9.Protocol.Loopback

/-!
# Reading an in-memory file system through 9P

The read-side operations of the client keep the shape of the backing file system
and leave no dirty file in the fid table, with one exception: an open asks for
write access first, and the server then sets the permission bits of the file.
-/
namespace Star9
open Base Prog NinePServer

def MemFile.clean : MemFile → Bool
  | .node f => !f.dirty
  | .dir _ => true

def FidHandle.clean : FidHandle MemFile → Bool
  | .none | .xattrRead _ => true
  | .file f => f.clean
  | .xattrWrite _ => false

/-- The file system has a given shape, and no fid holds unwritten changes. -/
structure ReadInv (S : Shape) (s : ServerState MemFs MemFile) : Prop where
  shape : s.fsys.shape = S
  clean : ∀ fid st, s.fids fid = some st → st.handle.clean = true

/-- Safe steps of the server that end in any value. -/
def Reads {α : Type} (S : Shape) (p : Prog (ServerState MemFs MemFile) Error α) : Prop :=
  Safe (ReadInv S) (fun _ => True) p

section Server
variable {α : Type} {S : Shape}

theorem reads_of_state {p : Prog (ServerState MemFs MemFile) Error α} (h : ∀ s, (p s).2 = s) : Reads S p := by
  intro s hs
  rw [h s]
  exact ⟨hs, fun _ _ => trivial⟩

theorem reads_onFs {p : Prog MemFs Error α} (hp : Preserves MemFs.shape p) : Reads S (onFs p) := by
  intro s hs
  exact ⟨⟨(hp s.fsys).trans hs.shape, hs.clean⟩, fun _ _ => trivial⟩

theorem reads_getFid (fid : UInt32) :
    Safe (ReadInv S) (fun st => st.handle.clean = true) (getFid fid : Prog (ServerState MemFs MemFile) _ _) := by
  intro s hs
  rw [getFid, get_bind]
  cases hfid : s.fids fid with
  | none =>
    refine ⟨hs, fun st hst => ?_⟩
    cases hst
  | some st =>
    refine ⟨hs, fun st' hst' => ?_⟩
    cases hst'
    exact hs.clean fid st hfid

theorem reads_fidPath (fid : UInt32) : Reads S (fidPath fid : Prog (ServerState MemFs MemFile) _ _) :=
  safe_bind (reads_getFid fid) fun _ _ => safe_pure trivial

theorem reads_setFid (fid : UInt32) {st : Option (FidState MemFile)}
    (h : ∀ st', st = some st' → st'.handle.clean = true) :
    Reads S (setFid fid st : Prog (ServerState MemFs MemFile) _ _) := by
  refine safe_modify fun s hs => ⟨hs.shape, fun fid' st' hst' => ?_⟩
  dsimp only at hst'
  by_cases hf : fid' = fid
  · subst hf
    rw [Function.update_self] at hst'
    exact h st' hst'
  · rw [Function.update_of_ne hf] at hst'
    exact hs.clean fid' st' hst'

/-- A call on a clean file that keeps it clean and keeps the shape. -/
theorem reads_onFile (fid : UInt32) (st : FidState MemFile) {f : MemFile} (hf : f.clean = true)
    {p : Prog (MemFile × MemFs) Error α}
    (hp : ∀ f fs, f.clean = true → (p (f, fs)).2.1.clean = true ∧ (p (f, fs)).2.2.shape = fs.shape) :
    Reads S (onFile fid st f p) := by
  intro s hs
  obtain ⟨hclean, hshape⟩ := hp f s.fsys hf
  refine ⟨⟨hshape.trans hs.shape, fun fid' st' hst' => ?_⟩, fun _ _ => trivial⟩
  simp only [onFile] at hst'
  by_cases hfid : fid' = fid
  · subst hfid
    rw [Function.update_self] at hst'
    cases hst'
    exact hclean
  · rw [Function.update_of_ne hfid] at hst'
    exact hs.clean fid' st' hst'

theorem preserves_lstat {δ : Type} {obs : MemFs → δ} (ctx : FsContext) (name : String) :
    Preserves obs (memFs.lstat ctx name) :=
  preserves_reads _

theorem preserves_qidFor {δ : Type} {obs : MemFs → δ} (path : String) : Preserves obs (qidFor memFs path) :=
  preserves_bind (preserves_lstat _ _) fun _ => preserves_pure _

theorem preserves_attrFor (path : String) (metadata : Metadata) (mask : UInt64) :
    Preserves MemFs.shape (attrFor memFs path metadata mask) := by
  refine preserves_bind (preserves_ite (preserves_bind (preserves_attempt (MemFs.preserves_readDir _ _)) fun r => ?_)
    (preserves_pure _)) fun _ => preserves_pure _
  split
  · exact preserves_pure _
  · exact preserves_pure _

theorem reads_walk (fid newfid : UInt32) (names : List String) : Reads S (walk memFs fid newfid names) := by
  have hloop : ∀ path qids, Reads S (walkLoop memFs path qids names) := by
    induction names with
    | nil => exact fun _ _ => safe_pure trivial
    | cons name names ih =>
      intro path qids
      refine safe_ite (fun _ => safe_throw _) fun _ => ?_
      refine safe_bind (safe_attempt (reads_onFs (preserves_qidFor _))) fun r _ => ?_
      cases r with
      | ok qid => exact ih _ _
      | error err => exact safe_ite (fun _ => safe_throw _) fun _ => safe_pure trivial
  have hbase : Reads S (walkBase fid newfid : Prog (ServerState MemFs MemFile) _ _) :=
    safe_bind safe_get fun _ _ => safe_ite (fun _ => safe_throw _) fun _ => reads_fidPath fid
  refine safe_bind hbase fun base _ => safe_bind (hloop base []) fun r _ => ?_
  refine safe_bind (reads_setFid newfid fun st' hst' => ?_) fun _ _ => safe_pure trivial
  cases hst'
  rfl

theorem reads_getattr (fid : UInt32) (mask : UInt64) : Reads S (getattr memFs fid mask) := by
  have hmeta : ∀ st, st.handle.clean = true → Reads S (fidMetadata memFs fid st) := by
    intro st hst
    unfold fidMetadata
    cases hh : st.handle with
    | none => exact reads_onFs (preserves_lstat _ _)
    | xattrRead data => exact safe_pure trivial
    | xattrWrite write => exact safe_pure trivial
    | file f =>
      rw [hh] at hst
      refine reads_onFile fid st hst fun f fs hf => ?_
      cases f <;> exact ⟨hf, rfl⟩
  exact safe_bind (reads_getFid fid) fun st hst => safe_bind (hmeta st hst) fun _ _ =>
    safe_bind (reads_onFs (preserves_attrFor _ _ _)) fun _ _ => safe_pure trivial

theorem preserves_nodeOr (op name : String) : Preserves MemFs.shape (MemFs.nodeOr op name) :=
  preserves_bind preserves_get fun _ => preserves_ofOption _ _

theorem reads_xattrwalk (fid newfid : UInt32) (name : String) : Reads S (xattrwalk memFs fid newfid name) := by
  have hdata : ∀ path, Preserves MemFs.shape (xattrData memFs path name) := fun path =>
    preserves_ite (preserves_bind (preserves_bind (preserves_nodeOr _ _) fun _ => preserves_bind preserves_get
      fun _ => preserves_pure _) fun _ => preserves_pure _)
      (preserves_bind (preserves_nodeOr _ _) fun _ => preserves_bind preserves_get fun _ => preserves_ofOption _ _)
  have hbase : Reads S (walkBase fid newfid : Prog (ServerState MemFs MemFile) _ _) :=
    safe_bind safe_get fun _ _ => safe_ite (fun _ => safe_throw _) fun _ => reads_fidPath fid
  refine safe_bind hbase fun path _ => safe_bind (reads_onFs (hdata path)) fun data _ => ?_
  refine safe_bind (reads_setFid newfid fun st' hst' => ?_) fun _ _ => safe_pure trivial
  cases hst'
  rfl

theorem reads_read (fid : UInt32) (offset : UInt64) (count : UInt32) :
    Reads S (read memFs fid offset count) := by
  refine safe_bind (reads_getFid fid) fun st hst => ?_
  cases hh : st.handle with
  | none => exact safe_throw _
  | xattrRead data => exact safe_pure trivial
  | xattrWrite write => exact safe_throw _
  | file f =>
    rw [hh] at hst
    refine safe_bind (reads_onFile fid st hst fun f fs hf => ?_) fun _ _ => safe_pure trivial
    cases f with
    | node f =>
      simp only [memFs, MemFile.handle, MemFile.dispatch, NodeFile.readAt]
      split <;> exact ⟨hf, rfl⟩
    | dir f => exact ⟨hf, rfl⟩

/-- Closing a clean file writes nothing. -/
theorem close_clean {f : MemFile} (hf : f.clean = true) (fs : MemFs) :
    (memFs.file.close (f, fs)).2.2 = fs := by
  cases f with
  | dir f => rfl
  | node f =>
    have hdirty : f.dirty = false := by simpa [MemFile.clean] using hf
    simp only [memFs, MemFile.handle, MemFile.dispatch, NodeFile.close, NodeFile.sync, hdirty, Bool.false_eq_true,
      if_false]
    split <;> rfl

theorem preserves_close_clean {f : MemFile} (hf : f.clean = true) :
    Preserves MemFs.shape (withFile f memFs.file.close) := by
  intro fs
  have hclose := close_clean hf fs
  unfold withFile
  rcases h : memFs.file.close (f, fs) with ⟨_ | e | _, f', fs'⟩ <;> rw [h] at hclose <;>
    exact congrArg MemFs.shape hclose

theorem reads_clunk (fid : UInt32) : Reads S (clunk memFs fid) := by
  refine safe_bind (reads_getFid fid) fun st hst => ?_
  refine safe_bind (reads_setFid fid nofun) fun _ _ => ?_
  cases hh : st.handle with
  | none => exact safe_pure trivial
  | xattrRead data => exact safe_pure trivial
  | xattrWrite write =>
    rw [hh] at hst
    cases hst
  | file f =>
    rw [hh] at hst
    exact safe_bind (reads_onFs (preserves_close_clean hst)) fun r _ =>
      reads_of_state fun s => by obtain ⟨_ | _, _⟩ := r <;> rfl

theorem reads_readdir (fid : UInt32) (offset : UInt64) (count : UInt32) :
    Reads S (readdir memFs fid offset count) := by
  have hloop : ∀ path (entries : List DirEntry) index data,
      Reads S (readdirLoop memFs path offset.toNat count.toNat index entries data) := by
    intro path entries
    induction entries with
    | nil => exact fun _ _ => safe_pure trivial
    | cons entry entries ih =>
      intro index data
      refine safe_ite (fun _ => ih _ _) fun _ => ?_
      refine safe_bind (reads_onFs (preserves_qidFor _)) fun qid _ => ?_
      refine safe_bind (reads_of_state fun s => ?_) fun encoded _ => ?_
      · cases encodeDirents [_] <;> rfl
      · exact safe_ite (fun _ => safe_pure trivial) fun _ => ih _ _
  exact safe_bind (reads_fidPath fid) fun path _ => safe_bind (reads_onFs (MemFs.preserves_readDir _ _)) fun _ _ =>
    safe_bind (hloop path _ _ _) fun _ _ => safe_pure trivial

theorem reads_readlink (fid : UInt32) : Reads S (readlink memFs fid) := by
  refine safe_bind (reads_fidPath fid) fun path _ => safe_bind (reads_onFs ?_) fun _ _ => safe_pure trivial
  exact preserves_bind (preserves_nodeOr _ _) fun _ => preserves_bind preserves_get fun _ =>
    preserves_ite (preserves_throw _) (preserves_pure _)

end Server

/-! ## Opening on the server -/

namespace MemFs

theorem returns_openAt_clean (depth : Nat) (ctx : FsContext) (name : String) :
    Returns (fun f => f.clean = true) (openAt depth ctx name) := by
  have hdir : ∀ name, Returns (fun f => f.clean = true) (openDir name) := fun name =>
    returns_bind fun _ => returns_ite (returns_throw _) (returns_pure rfl)
  induction depth generalizing name with
  | zero => exact returns_abort
  | succ depth ih =>
    refine returns_ite (returns_throw _) (returns_bind fun fs => ?_)
    dsimp only
    split
    · exact returns_ite (ih _) (returns_ite (returns_bind fun _ => returns_bind fun _ => returns_pure rfl) (hdir _))
    · exact hdir _

theorem returns_open_clean (ctx : FsContext) (name : String) :
    Returns (fun f => f.clean = true) (open_ ctx name) :=
  returns_bind fun _ => returns_openAt_clean _ _ _

/-- The mode that the server sets on every file it opens for writing. -/
def openPerm : FileMode := FileMode.fromPerm 0o666

/-- The file cannot be opened, or has the permission bits that opening it sets. -/
def openKeeps (name : String) (fs : MemFs) : Bool :=
  !(open_ FsContext.new name fs).1.isOk || match fs.nodes[cleanPath name]? with
    | some id => (fs.heap id).metadata.mode.perm == openPerm.perm
    | none => true

theorem chmod_shape {name : String} {fs : MemFs} (h : ∀ id, fs.nodes[cleanPath name]? = some id →
    (fs.heap id).metadata.mode.perm = openPerm.perm) : (chmod name openPerm fs).2.shape = fs.shape := by
  rw [chmod, bind_of_state (by rw [nodeOr, get_bind]; cases fs.nodes[cleanPath name]? <;> rfl)]
  rw [nodeOr, get_bind]
  cases hid : fs.nodes[cleanPath name]? with
  | none => rfl
  | some id =>
    simp only [ofOption_some, pure_apply, get_bind, modify_apply, ← h id hid, FileMode.typeBits_or_perm]
    refine shape_ext rfl rfl fun i => ?_
    rw [updateNode_heap]
    by_cases hi : i = id
    · subst hi
      rw [Function.update_self]
      rfl
    · rw [Function.update_of_ne hi]

theorem chmodSupported_shape {name : String} {fs : MemFs} (h : ∀ id, fs.nodes[cleanPath name]? = some id →
    (fs.heap id).metadata.mode.perm = openPerm.perm) :
    (FileSystem.chmodSupported chmod name openPerm fs).2.shape = fs.shape := by
  rw [FileSystem.chmodSupported, bind_state (fun r fs => ?_), attempt_state]
  · exact chmod_shape h
  · split <;> rfl

/-- What is left of an open for reading and writing once the file was found. -/
theorem openFile_rdwr_eq (name : String) (fs : MemFs) :
    memFs.openFile name .rdwr openPerm fs = (open_ FsContext.new name >>= fun f =>
      FileSystem.openWithPerm open_ chmod MemFile.handle name openPerm f >>= fun f => pure f) fs := by
  have hcreate : FileSystem.openOrCreate open_ create name .rdwr fs =
      (open_ FsContext.new name >>= fun f => pure (f, false)) fs := by
    rw [FileSystem.openOrCreate, bind_apply, attempt, bind_apply]
    rcases open_ FsContext.new name fs with ⟨f | e | _, fs'⟩ <;> rfl
  simp only [memFs]
  rw [FileSystem.defaultOpenFile, if_pos (by decide), bind_apply, hcreate, bind_apply, bind_apply]
  rcases open_ FsContext.new name fs with ⟨f | e | _, fs'⟩ <;> rfl

theorem safe_open {S : Shape} (ctx : FsContext) (name : String) :
    Safe (fun fs => fs.shape = S) (fun f => f.clean = true) (open_ ctx name) := fun fs hs =>
  ⟨(preserves_open ctx name fs).trans hs, fun f hf => returns_open_clean ctx name fs f hf⟩

theorem safe_openWithPerm {S : Shape} {name : String} (h : ∀ id, S.nodes[cleanPath name]? = some id →
    (S.core id).mode.perm = openPerm.perm) {f : MemFile} (hf : f.clean = true) :
    Safe (fun fs => fs.shape = S) (fun f => f.clean = true)
      (FileSystem.openWithPerm open_ chmod MemFile.handle name openPerm f) := by
  have hchmod : Safe (fun fs => fs.shape = S) (fun _ => True)
      (FileSystem.chmodSupported chmod name openPerm) := by
    rintro fs rfl
    exact ⟨chmodSupported_shape h, fun _ _ => trivial⟩
  have hclose : Safe (fun fs => fs.shape = S) (fun _ => True) (withFile f MemFile.handle.close) :=
    safe_of_preserves (P := fun S' : Shape => S' = S) (preserves_close_clean hf)
  rw [FileSystem.openWithPerm, if_pos (by decide)]
  exact safe_bind hclose fun _ _ => safe_bind hchmod fun _ _ => safe_open _ _

/-- An open for reading and writing keeps the shape of a state that allows it. -/
theorem openFile_rdwr {name : String} {fs : MemFs} (h : openKeeps name fs = true) :
    (memFs.openFile name .rdwr openPerm fs).2.shape = fs.shape ∧
      ∀ f, (memFs.openFile name .rdwr openPerm fs).1 = .ok f → f.clean = true := by
  have hopen := safe_open FsContext.new name fs rfl
  rw [openFile_rdwr_eq, bind_apply]
  rcases ho : open_ FsContext.new name fs with ⟨f | e | _, fs'⟩ <;> rw [ho] at hopen
  · have hperm : ∀ id, fs.shape.nodes[cleanPath name]? = some id →
        (fs.shape.core id).mode.perm = openPerm.perm := by
      intro id hid
      have hid' : fs.nodes[cleanPath name]? = some id := hid
      rw [openKeeps, ho, hid'] at h
      have hp : (fs.heap id).metadata.mode.perm = openPerm.perm := by simpa using h
      exact hp
    exact safe_bind (safe_openWithPerm hperm (hopen.2 f rfl)) (fun _ hf => safe_pure hf) fs' hopen.1
  · exact ⟨hopen.1, nofun⟩
  · exact ⟨hopen.1, nofun⟩

theorem openFile_rdonly (name : String) (perm : FileMode) :
    memFs.openFile name .rdonly perm = open_ FsContext.new name := by
  simp only [memFs]
  rw [FileSystem.defaultOpenFile, if_neg (by decide)]

end MemFs

/-! The handler for opens, on a state where the open is allowed. -/

theorem reads_lopenRest {S : Shape} (fid flags : UInt32) (path : String) {f : MemFile} (hf : f.clean = true) :
    Reads S (do
      let qid ← onFs (qidFor memFs path)
      let st ← getFid fid
      setFid fid (some { st with handle := .file f, flags })
      pure (.lopen qid 0) : Prog (ServerState MemFs MemFile) Error NinePResponse) := by
  refine safe_bind (reads_onFs (preserves_qidFor _)) fun qid _ => safe_bind (reads_getFid fid) fun st _ => ?_
  refine safe_bind (reads_setFid fid fun st' hst' => ?_) fun _ _ => safe_pure trivial
  cases hst'
  exact hf

theorem reads_lopen_rdonly {S : Shape} (fid : UInt32) : Reads S (lopen memFs fid OpenFlags.rdonly.bits) := by
  refine safe_bind (reads_fidPath fid) fun path _ => ?_
  have hopen : Safe (ReadInv S) (fun f => f.clean = true) (onFs (memFs.openFile path
      (openFlagsFrom9p OpenFlags.rdonly.bits) (FileMode.fromPerm 0o666))) := by
    intro s hs
    rw [show openFlagsFrom9p OpenFlags.rdonly.bits = .rdonly by decide, MemFs.openFile_rdonly]
    obtain ⟨hshape, hclean⟩ := MemFs.safe_open FsContext.new path s.fsys hs.shape
    exact ⟨⟨hshape, hs.clean⟩, hclean⟩
  exact safe_bind hopen fun f hf => reads_lopenRest fid _ path hf

theorem readInv_lopen_rdwr {S : Shape} {fid : UInt32} {s : ServerState MemFs MemFile} (hs : ReadInv S s)
    (h : ∀ st, s.fids fid = some st → MemFs.openKeeps st.path s.fsys = true) :
    ReadInv S (lopen memFs fid OpenFlags.rdwr.bits s).2 := by
  rw [lopen]
  cases hfid : s.fids fid with
  | none =>
    have hpath : fidPath fid s = (.err (.kind .invalid), s) := by
      rw [fidPath, bind_err]
      rw [getFid, get_bind, hfid]
      rfl
    rw [bind_err hpath]
    exact hs
  | some st =>
    have hflags : openFlagsFrom9p OpenFlags.rdwr.bits = .rdwr := by decide
    obtain ⟨hshape, hclean⟩ := MemFs.openFile_rdwr (h st hfid)
    rw [bind_ok (fidPath_eq_ok.mpr ⟨st, hfid, rfl, rfl⟩), hflags]
    rcases ho : memFs.openFile st.path .rdwr MemFs.openPerm s.fsys with ⟨f | e | _, fsys⟩ <;>
      rw [ho] at hshape hclean
    · have hs' : ReadInv S { s with fsys } := ⟨hshape.trans hs.shape, hs.clean⟩
      have hopen : onFs (memFs.openFile st.path .rdwr (FileMode.fromPerm 0o666)) s = (.ok f, { s with fsys }) :=
        onFs_eq_ok.mpr ⟨congrArg Prod.fst ho, by rw [show FileMode.fromPerm 0o666 = MemFs.openPerm from rfl, ho]⟩
      rw [bind_ok hopen]
      exact (reads_lopenRest fid _ st.path (hclean f rfl) _ hs').1
    · have hopen : onFs (memFs.openFile st.path .rdwr (FileMode.fromPerm 0o666)) s = (.err e, { s with fsys }) := by
        rw [onFs, zoom_apply, show FileMode.fromPerm 0o666 = MemFs.openPerm from rfl, ho]
      rw [bind_err hopen]
      exact ⟨hshape.trans hs.shape, hs.clean⟩
    · have hopen : onFs (memFs.openFile st.path .rdwr (FileMode.fromPerm 0o666)) s = (.abort, { s with fsys }) := by
        rw [onFs, zoom_apply, show FileMode.fromPerm 0o666 = MemFs.openPerm from rfl, ho]
      rw [bind_abort hopen]
      exact ⟨hshape.trans hs.shape, hs.clean⟩

/-! ## The read side of the client -/

namespace NinePClientFs
variable {α β : Type} {S : Shape}

/-- Safe steps of the client that end in any value. -/
def Browses (S : Shape) (p : Prog (Session MemFs MemFile) Error α) : Prop :=
  Safe (fun s => ReadInv S s.transport) (fun _ => True) p

theorem browses_of_transport {p : Prog (Session MemFs MemFile) Error α}
    (h : ∀ s, (p s).2.transport = s.transport) : Browses S p := by
  intro s hs
  have hs' : ReadInv S (p s).2.transport := by
    rw [h s]
    exact hs
  exact ⟨hs', fun _ _ => trivial⟩

theorem browses_pure (a : α) : Browses S (pure a) := safe_pure trivial

theorem browses_throw (e : Error) : Browses S (throw e : Prog _ _ α) := safe_throw e

theorem browses_abort : Browses S (Prog.abort : Prog _ _ α) := fun _ hs => ⟨hs, nofun⟩

theorem browses_ofExcept (x : Except Error α) : Browses S (Prog.ofExcept x) := by
  cases x with
  | ok a => exact browses_pure a
  | error e => exact browses_throw e

theorem browses_bind {p : Prog (Session MemFs MemFile) Error α} {g : α → Prog (Session MemFs MemFile) Error β}
    (hp : Browses S p) (hg : ∀ a, Browses S (g a)) : Browses S (p >>= g) := safe_bind hp fun a _ => hg a

theorem browses_attempt {p : Prog (Session MemFs MemFile) Error α} (hp : Browses S p) :
    Browses S (attempt p) := safe_mono (safe_attempt hp) fun _ _ => trivial

theorem browses_ite {c : Prop} [Decidable c] {p q : Prog (Session MemFs MemFile) Error α} (hp : Browses S p)
    (hq : Browses S q) : Browses S (if c then p else q) := safe_ite (fun _ => hp) fun _ => hq

/-- The requests that only read. -/
def isRead : NinePRequest → Bool
  | .walk .. | .getAttr .. | .xattrWalk .. | .read .. | .clunk .. | .readdir .. | .readlink .. => true
  | .lopen _ flags => flags == OpenFlags.rdonly.bits
  | _ => false

theorem browses_call {request : NinePRequest} (h : isRead request = true) :
    Browses S (call (loopbackTransport memFs) request) := by
  refine safe_call memFs ?_
  cases request with
  | walk fid newfid names => exact reads_walk fid newfid names
  | getAttr fid mask => exact reads_getattr fid mask
  | xattrWalk fid newfid name => exact reads_xattrwalk fid newfid name
  | read fid offset count => exact reads_read fid offset count
  | clunk fid => exact safe_bind (reads_clunk fid) fun _ _ => safe_pure trivial
  | readdir fid offset count => exact reads_readdir fid offset count
  | readlink fid => exact reads_readlink fid
  | lopen fid flags =>
    obtain rfl := eq_of_beq h
    exact reads_lopen_rdonly fid
  | _ => cases h

/-- A call of which one kind of answer is taken apart. -/
theorem browses_call_then {request : NinePRequest} (h : isRead request = true)
    {g : NinePResponse → Prog (Session MemFs MemFile) Error α} (hg : ∀ r, Browses S (g r)) :
    Browses S (call (loopbackTransport memFs) request >>= g) := browses_bind (browses_call h) hg

theorem browses_clunkFid (fid : UInt32) : Browses S (clunkFid (loopbackTransport memFs) fid) := by
  refine browses_call_then rfl fun r => ?_
  split
  · exact browses_pure _
  · exact browses_throw _

theorem browses_clunkAndThrow (fid : UInt32) (e : Error) :
    Browses S (clunkAndThrow (loopbackTransport memFs) fid e : Prog _ _ α) :=
  browses_bind (browses_attempt (browses_clunkFid fid)) fun _ => browses_throw e

theorem browses_thenClunk (fid : UInt32) {p : Prog (Session MemFs MemFile) Error α} (hp : Browses S p) :
    Browses S (thenClunk (loopbackTransport memFs) fid p) :=
  browses_bind (browses_attempt hp) fun _ => browses_bind (browses_attempt (browses_clunkFid fid)) fun _ =>
    browses_bind (browses_ofExcept _) fun _ => browses_bind (browses_ofExcept _) fun _ => browses_pure _

theorem browses_allocFid : Browses S (allocFid : Prog (Session MemFs MemFile) _ _) :=
  browses_of_transport fun _ => rfl

theorem browses_walkFid (name : String) : Browses S (walkFid (loopbackTransport memFs) name) := by
  refine browses_bind (browses_ofExcept _) fun path => browses_bind browses_allocFid fun fid => ?_
  refine browses_call_then rfl fun r => ?_
  unfold walked
  split
  · exact browses_ite (browses_pure _) (browses_clunkAndThrow _ _)
  · exact browses_throw _

theorem browses_getattrFid (fid : UInt32) (path : String) :
    Browses S (getattrFid (loopbackTransport memFs) fid path) := by
  refine browses_call_then rfl fun r => ?_
  split
  · split
    · exact browses_pure _
    · exact browses_abort
  · exact browses_throw _

theorem browses_stat (name : String) : Browses S (stat (loopbackTransport memFs) name) :=
  browses_bind (browses_ofExcept _) fun path => browses_bind (browses_walkFid path) fun fid =>
    browses_thenClunk fid (browses_getattrFid fid path)

theorem browses_readlink (name : String) : Browses S (readlink (loopbackTransport memFs) name) := by
  refine browses_bind (browses_walkFid name) fun fid => browses_thenClunk fid (browses_call_then rfl fun r => ?_)
  split
  · exact browses_pure _
  · exact browses_throw _

theorem browses_readChunk (fid : UInt32) (offset : UInt64) (count : UInt32) :
    Browses S (readChunk (loopbackTransport memFs) fid offset count) := by
  refine browses_call_then rfl fun r => ?_
  split
  · exact browses_pure _
  · exact browses_throw _

theorem browses_readAllFid (fid : UInt32) (size : UInt64) :
    Browses S (readAllFid (loopbackTransport memFs) fid size) := by
  have hloop : ∀ count rounds offset data,
      Browses S (readAllLoop (loopbackTransport memFs) fid size count rounds offset data) := by
    intro count rounds
    induction rounds with
    | zero => exact fun _ _ => browses_pure _
    | succ rounds ih =>
      intro offset data
      exact browses_ite (browses_bind (browses_readChunk _ _ _) fun _ => browses_ite (browses_throw _)
        (browses_ite (browses_throw _) (ih _ _))) (browses_pure _)
  exact browses_bind (browses_of_transport fun _ => rfl) fun _ => hloop _ _ _ _

theorem browses_xattrwalkFid (path attr : String) :
    Browses S (xattrwalkFid (loopbackTransport memFs) path attr) := by
  refine browses_bind (browses_walkFid path) fun fid => browses_bind browses_allocFid fun newfid => ?_
  have hcall : Browses S (xattrwalkCall (loopbackTransport memFs) fid newfid attr) := by
    refine browses_call_then rfl fun r => ?_
    split
    · exact browses_pure _
    · exact browses_throw _
  refine browses_bind (browses_attempt (browses_thenClunk fid hcall)) fun r => ?_
  split
  · exact browses_pure _
  · exact browses_clunkAndThrow _ _

theorem browses_getXattr (name attr : String) : Browses S (getXattr (loopbackTransport memFs) name attr) :=
  browses_bind (browses_ofExcept _) fun path => browses_bind (browses_xattrwalkFid path attr) fun v =>
    browses_thenClunk v.1 (browses_readAllFid v.1 v.2)

theorem browses_listXattrs (name : String) : Browses S (listXattrs (loopbackTransport memFs) name) :=
  browses_bind (browses_ofExcept _) fun path => browses_bind (browses_xattrwalkFid path "") fun v =>
    browses_thenClunk v.1 (browses_bind (browses_readAllFid v.1 v.2) fun _ => browses_ofExcept _)

theorem browses_expect {request : NinePRequest} (h : isRead request = true) (accepts : NinePResponse → Bool) :
    Browses S (expect (loopbackTransport memFs) accepts request) :=
  browses_call_then h fun _ => browses_ite (browses_pure _) (browses_throw _)

theorem browses_openExisting_rdonly (name : String) :
    Browses S (openExisting (loopbackTransport memFs) name OpenFlags.rdonly.bits) := by
  refine browses_bind (browses_ofExcept _) fun path => browses_bind (browses_walkFid path) fun fid => ?_
  refine browses_bind (browses_attempt (browses_expect (by rfl) _)) fun r => ?_
  split
  · exact browses_pure _
  · exact browses_clunkAndThrow _ _

/-- Walking looks the names up and changes nothing. -/
theorem walkOutcome_state (path : String) (s : Session MemFs MemFile) :
    (walkOutcome memFs path s).2 = s.transport.fsys := by
  have hresolve : ∀ names path, Preserves id (resolveNames memFs path names) := by
    intro names
    induction names with
    | nil => exact fun _ => preserves_pure _
    | cons name names ih => exact fun _ => preserves_bind (preserves_qidFor _) fun _ => ih _
  unfold walkOutcome
  split
  · exact hresolve _ _ _
  · rfl

/-- An open that does not find its file, or that finds nothing to set on it. -/
def openLeaves (name : String) (s : Session MemFs MemFile) : Bool :=
  match validatedClientPath "open" name, s.transport.fids rootFid with
  | .ok path, some root => !(walkOutcome memFs path s).1.isOk ||
      MemFs.openKeeps ((walkNames path).foldl walkJoin root.path) s.transport.fsys
  | _, _ => true

theorem readInv_openFid_rdwr {fid : UInt32} (path : String) {s : Session MemFs MemFile}
    (hs : ReadInv S s.transport)
    (h : ∀ st, s.transport.fids fid = some st → MemFs.openKeeps st.path s.transport.fsys = true) :
    ReadInv S (openFid (loopbackTransport memFs) isLopen (.lopen fid OpenFlags.rdwr.bits) fid path s).2.transport := by
  have hcall : ReadInv S (call (loopbackTransport memFs) (.lopen fid OpenFlags.rdwr.bits) s).2.transport := by
    rcases call_cases memFs (.lopen fid OpenFlags.rdwr.bits) s with ⟨hstate, -⟩ | ⟨hstate, -⟩
    · rw [hstate, Session.retag_transport]
      exact hs
    · rw [hstate]
      exact readInv_lopen_rdwr hs h
  have hexpect : ReadInv S (attempt (expect (loopbackTransport memFs) isLopen
      (.lopen fid OpenFlags.rdwr.bits)) s).2.transport := by
    rw [attempt_state, expect, bind_state fun r s => by rw [branch_apply]; split <;> rfl]
    exact hcall
  rw [openFid, bind_apply]
  rcases hr : attempt (expect (loopbackTransport memFs) isLopen (.lopen fid OpenFlags.rdwr.bits)) s with
    ⟨r | e | _, s'⟩ <;> rw [hr] at hexpect
  · cases r with
    | ok a => exact hexpect
    | error e => exact (browses_clunkAndThrow fid e s' hexpect).1
  · exact hexpect
  · exact hexpect

theorem readInv_openExisting_rdwr {name : String} {s : Session MemFs MemFile} (hs : ReadInv S s.transport)
    (h : openLeaves name s = true) :
    ReadInv S (openExisting (loopbackTransport memFs) name OpenFlags.rdwr.bits s).2.transport := by
  unfold openLeaves at h
  rw [openExisting]
  cases hpath : validatedClientPath "open" name with
  | error e => exact hs
  | ok path =>
    have hwalk := (browses_walkFid path s hs).1
    rw [ofExcept_ok, bind_ok (pure_apply path s), bind_apply]
    rcases hw : walkFid (loopbackTransport memFs) path s with ⟨fid | e | _, s'⟩ <;> rw [hw] at hwalk
    · obtain ⟨root, fsys, hroot, hout, htransport⟩ := walkFid_eq_ok memFs (validatedClientPath_valid hpath) hw
      have hfsys : fsys = s.transport.fsys := (congrArg Prod.snd hout).symm.trans (walkOutcome_state path s)
      refine readInv_openFid_rdwr path hwalk fun st hst => ?_
      rw [htransport] at hst ⊢
      rw [ServerState.setFid_fids, Function.update_self] at hst
      cases hst
      rw [hpath, hroot] at h
      simp only [hout, Outcome.isOk_ok, Bool.not_true, Bool.false_or, ← hfsys] at h
      exact h
    · exact hwalk
    · exact hwalk

theorem readInv_open {name : String} {s : Session MemFs MemFile} (hs : ReadInv S s.transport)
    (h : openLeaves name s = true) :
    ReadInv S (open_ (loopbackTransport memFs) name s).2.transport := by
  have hrdwr := readInv_openExisting_rdwr hs h
  rw [← attempt_state] at hrdwr
  rw [open_, bind_apply]
  rcases hr : attempt (openExisting (loopbackTransport memFs) name OpenFlags.rdwr.bits) s with
    ⟨r | e | _, s'⟩ <;> rw [hr] at hrdwr
  · cases r with
    | ok f => exact hrdwr
    | error e => exact (browses_openExisting_rdonly name s' hrdwr).1
  · exact hrdwr
  · exact hrdwr

end NinePClientFs

/-! ## Open files of the client -/

namespace NinePFile
open NinePClientFs
variable {α β : Type} {S : Shape}

/-- Safe steps on a file of the client. -/
def Browses (S : Shape) (p : Prog (NinePFile × Session MemFs MemFile) Error α) : Prop :=
  Safe (fun s => ReadInv S s.2.transport) (fun _ => True) p

theorem browses_onClient {p : Prog (Session MemFs MemFile) Error α} (hp : NinePClientFs.Browses S p) :
    Browses S (onClient p) := fun s hs => ⟨(hp s.2 hs).1, fun _ _ => trivial⟩

theorem browses_file : Browses S (file : Prog (NinePFile × Session MemFs MemFile) _ _) :=
  safe_reads fun _ _ _ _ => trivial

theorem browses_update (g : NinePFile → NinePFile) :
    Browses S (update g : Prog (NinePFile × Session MemFs MemFile) _ _) := safe_modify fun _ hs => hs

theorem browses_pure (a : α) : Browses S (pure a) := safe_pure trivial

theorem browses_throw (e : Error) : Browses S (throw e : Prog _ _ α) := safe_throw e

theorem browses_bind {p : Prog (NinePFile × Session MemFs MemFile) Error α}
    {g : α → Prog (NinePFile × Session MemFs MemFile) Error β} (hp : Browses S p)
    (hg : ∀ a, Browses S (g a)) : Browses S (p >>= g) := safe_bind hp fun a _ => hg a

theorem browses_ite {c : Prop} [Decidable c] {p q : Prog (NinePFile × Session MemFs MemFile) Error α}
    (hp : Browses S p) (hq : Browses S q) : Browses S (if c then p else q) :=
  safe_ite (fun _ => hp) fun _ => hq

theorem browses_ensureOpen : Browses S (ensureOpen : Prog (NinePFile × Session MemFs MemFile) _ _) :=
  browses_bind browses_file fun _ => browses_ite (browses_throw _) (browses_pure _)

theorem browses_readFrom (offset : UInt64) (len : Nat) :
    Browses S (readFrom (loopbackTransport memFs) offset len) :=
  browses_bind browses_file fun _ => browses_ite (browses_throw _)
    (browses_bind (browses_onClient (browses_readChunk _ _ _)) fun _ =>
      browses_ite (fun _ hs => ⟨hs, nofun⟩) (browses_pure _))

theorem browses_read (len : Nat) : Browses S (read (loopbackTransport memFs) len) :=
  browses_bind browses_ensureOpen fun _ => browses_bind browses_file fun _ =>
    browses_bind (browses_readFrom _ _) fun _ => browses_bind (browses_update _) fun _ => browses_pure _

theorem browses_readAt (len : Nat) (offset : UInt64) : Browses S (readAt (loopbackTransport memFs) len offset) :=
  browses_bind browses_ensureOpen fun _ => browses_readFrom _ _

theorem browses_stat : Browses S (stat (loopbackTransport memFs)) :=
  browses_bind browses_ensureOpen fun _ => browses_bind browses_file fun _ =>
    browses_onClient (browses_getattrFid _ _)

theorem browses_seek (pos : SeekFrom) : Browses S (seek (loopbackTransport memFs) pos) := by
  have htarget : Browses S (seekTarget (loopbackTransport memFs) pos) := by
    cases pos with
    | start pos => exact browses_pure _
    | current delta => exact browses_bind browses_file fun _ => browses_pure _
    | fromEnd delta => exact browses_bind browses_stat fun _ => browses_pure _
  exact browses_bind browses_ensureOpen fun _ => browses_bind htarget fun _ => browses_ite (browses_throw _)
    (browses_bind (browses_update _) fun _ => browses_pure _)

theorem browses_readDirLoop (fid count : UInt32) (rounds : Nat) (offset : UInt64) (entries : List DirEntry) :
    NinePClientFs.Browses S (readDirLoop (loopbackTransport memFs) fid count rounds offset entries) := by
  have hchunk : ∀ offset, NinePClientFs.Browses S (readdirChunk (loopbackTransport memFs) fid offset count) := by
    refine fun offset => browses_call_then rfl fun r => ?_
    split
    · exact NinePClientFs.browses_pure _
    · exact NinePClientFs.browses_throw _
  induction rounds generalizing offset entries with
  | zero => exact browses_abort
  | succ rounds ih =>
    refine NinePClientFs.browses_bind (hchunk offset) fun data => NinePClientFs.browses_ite
      (NinePClientFs.browses_pure _) (NinePClientFs.browses_bind (browses_ofExcept _) fun dirents => ?_)
    split
    · exact NinePClientFs.browses_pure _
    · exact ih _ _

theorem browses_readDir (rounds : Nat) (count : Int) :
    Browses S (readDir (loopbackTransport memFs) rounds count) := by
  have hentries : Browses S (cachedEntries (loopbackTransport memFs) rounds) := by
    refine browses_bind browses_file fun f => ?_
    split
    · exact browses_pure _
    · exact browses_bind (browses_onClient (browses_of_transport fun _ => rfl)) fun _ =>
        browses_bind (browses_onClient (browses_readDirLoop _ _ _ _ _)) fun _ =>
          browses_bind (browses_update _) fun _ => browses_pure _
  exact browses_bind browses_ensureOpen fun _ => browses_bind hentries fun _ => browses_bind browses_file fun _ =>
    browses_ite (browses_bind (browses_update _) fun _ => browses_pure _) (browses_ite (browses_pure _)
      (browses_bind (browses_update _) fun _ => browses_pure _))

theorem browses_close : Browses S (close (loopbackTransport memFs)) :=
  browses_bind browses_ensureOpen fun _ => browses_bind browses_file fun _ =>
    browses_bind (browses_onClient (browses_clunkFid _)) fun _ => browses_update _

theorem browses_drop (f : NinePFile) : NinePClientFs.Browses S (f.drop (loopbackTransport memFs)) :=
  NinePClientFs.browses_ite (NinePClientFs.browses_pure _)
    (NinePClientFs.browses_bind (browses_attempt (browses_clunkFid _)) fun _ => NinePClientFs.browses_pure _)

theorem browses_withFile (f : NinePFile) {p : Prog (NinePFile × Session MemFs MemFile) Error α}
    (hp : Browses S p) : NinePClientFs.Browses S (withFile f p) := by
  intro s hs
  have hs' := (hp (f, s) hs).1
  unfold withFile
  rcases h : p (f, s) with ⟨a | e | _, f', s'⟩ <;> rw [h] at hs' <;> exact ⟨hs', fun _ _ => trivial⟩

end NinePFile

theorem NinePClientFs.browses_readDir {S : Shape} (rounds : Nat) (name : String) :
    Browses S (readDir (loopbackTransport memFs) rounds name) := by
  refine browses_bind (browses_openExisting_rdonly name) fun f => ?_
  refine browses_bind (NinePFile.browses_withFile f (NinePFile.browses_readDir rounds (-1))) fun r => ?_
  exact browses_bind (NinePFile.browses_withFile r.2 NinePFile.browses_close) fun c =>
    browses_bind (NinePFile.browses_drop c.2) fun _ => browses_bind (browses_ofExcept _) fun _ =>
      browses_bind (browses_ofExcept _) fun _ => browses_pure _

/-! ## Runs of readers -/

/-- The calls of a reader; a file is named by its place in the list of open files. -/
inductive ReadOp where
  | open_ (ctx : FsContext) (name : String)
  | stat (ctx : FsContext) (name : String)
  | lstat (ctx : FsContext) (name : String)
  | readDir (ctx : FsContext) (name : String)
  | readlink (name : String)
  | getXattr (name attr : String)
  | listXattrs (name : String)
  | read (file : Nat) (len : Nat)
  | readAt (file : Nat) (len : Nat) (offset : UInt64)
  | seek (file : Nat) (pos : SeekFrom)
  | statFile (file : Nat)
  | readDirFile (file : Nat) (count : Int)
  | close (file : Nat)
  | drop (file : Nat)

/-- A client with its open files. -/
structure ReadWorld where
  session : Session MemFs MemFile
  files : List NinePFile

namespace ReadWorld
variable {α : Type} (rounds : Nat)

abbrev client : FileSystem (Session MemFs MemFile) NinePFile := clientFs (loopbackTransport memFs) rounds

def mount (fsys : MemFs) (clock : Nat → SystemTime) : ReadWorld where
  session := (NinePClientFs.connect (loopbackTransport memFs) (ClientState.new (NinePServer.new fsys clock))).2
  files := []

def call (w : ReadWorld) (p : Prog (Session MemFs MemFile) Error α) : ReadWorld :=
  { w with session := (p w.session).2 }

/-- Whatever the open returns, a file it returns is kept. -/
def opening (w : ReadWorld) (p : Prog (Session MemFs MemFile) Error NinePFile) : ReadWorld where
  session := (p w.session).2
  files := w.files ++ (p w.session).1.toOption.toList

def onFile (w : ReadWorld) (file : Nat) (p : Prog (NinePFile × Session MemFs MemFile) Error α) : ReadWorld :=
  match w.files[file]? with
  | some f => { session := (p (f, w.session)).2.2, files := w.files.set file (p (f, w.session)).2.1 }
  | none => w

def dropFile (w : ReadWorld) (file : Nat) : ReadWorld :=
  match w.files[file]? with
  | some f => { session := (f.drop (loopbackTransport memFs) w.session).2, files := w.files.eraseIdx file }
  | none => w

def step (w : ReadWorld) : ReadOp → ReadWorld
  | .open_ ctx name => w.opening ((client rounds).open_ ctx name)
  | .stat ctx name => w.call ((client rounds).stat ctx name)
  | .lstat ctx name => w.call ((client rounds).lstat ctx name)
  | .readDir ctx name => w.call ((client rounds).readDir ctx name)
  | .readlink name => w.call ((client rounds).readlink name)
  | .getXattr name attr => w.call ((client rounds).getXattr name attr)
  | .listXattrs name => w.call ((client rounds).listXattrs name)
  | .read file len => w.onFile file ((client rounds).file.read len)
  | .readAt file len offset => w.onFile file ((client rounds).file.readAt len offset)
  | .seek file pos => w.onFile file ((client rounds).file.seek pos)
  | .statFile file => w.onFile file (client rounds).file.stat
  | .readDirFile file count => w.onFile file ((client rounds).file.readDir count)
  | .close file => w.onFile file (client rounds).file.close
  | .drop file => w.dropFile file

/-- What a reader sees of the backing file system and must leave alone. -/
def shape (w : ReadWorld) : Shape := w.session.transport.fsys.shape

/-- The steps that do not reach the mode change of an open. -/
def ReadStep (w : ReadWorld) : ReadOp → Prop
  | .open_ _ name => NinePClientFs.openLeaves name w.session = true
  | _ => True

instance (w : ReadWorld) (op : ReadOp) : Decidable (ReadStep w op) := by
  unfold ReadStep
  split <;> infer_instance

variable {rounds} {S : Shape} {w : ReadWorld}

theorem readInv_call (h : ReadInv S w.session.transport) {p : Prog (Session MemFs MemFile) Error α}
    (hp : NinePClientFs.Browses S p) : ReadInv S (w.call p).session.transport := (hp w.session h).1

theorem readInv_onFile (h : ReadInv S w.session.transport) (file : Nat)
    {p : Prog (NinePFile × Session MemFs MemFile) Error α} (hp : NinePFile.Browses S p) :
    ReadInv S (w.onFile file p).session.transport := by
  unfold onFile
  cases w.files[file]? with
  | none => exact h
  | some f => exact (hp (f, w.session) h).1

theorem readInv_dropFile (h : ReadInv S w.session.transport) (file : Nat) :
    ReadInv S (w.dropFile file).session.transport := by
  unfold dropFile
  cases w.files[file]? with
  | none => exact h
  | some f => exact (NinePFile.browses_drop f w.session h).1

theorem readInv_step (h : ReadInv S w.session.transport) (op : ReadOp) (hok : ReadStep w op) :
    ReadInv S (w.step rounds op).session.transport := by
  cases op with
  | open_ ctx name => exact NinePClientFs.readInv_open h hok
  | stat ctx name => exact readInv_call h (NinePClientFs.browses_stat name)
  | lstat ctx name => exact readInv_call h (NinePClientFs.browses_stat name)
  | readDir ctx name => exact readInv_call h (NinePClientFs.browses_readDir rounds name)
  | readlink name => exact readInv_call h (NinePClientFs.browses_readlink name)
  | getXattr name attr => exact readInv_call h (NinePClientFs.browses_getXattr name attr)
  | listXattrs name => exact readInv_call h (NinePClientFs.browses_listXattrs name)
  | read file len => exact readInv_onFile h file (NinePFile.browses_read len)
  | readAt file len offset => exact readInv_onFile h file (NinePFile.browses_readAt len offset)
  | seek file pos => exact readInv_onFile h file (NinePFile.browses_seek pos)
  | statFile file => exact readInv_onFile h file NinePFile.browses_stat
  | readDirFile file count => exact readInv_onFile h file (NinePFile.browses_readDir rounds count)
  | close file => exact readInv_onFile h file NinePFile.browses_close
  | drop file => exact readInv_dropFile h file

theorem readInv_mount (fsys : MemFs) (clock : Nat → SystemTime) :
    ReadInv fsys.shape (mount fsys clock).session.transport := by
  have hversion : NinePClientFs.Browses fsys.shape (NinePClientFs.call (loopbackTransport memFs)
      (.version defaultMsize version9P)) :=
    NinePClientFs.safe_call memFs (safe_bind (safe_modify fun s hs => ⟨hs.shape, hs.clean⟩) fun _ _ => safe_pure trivial)
  have hattach : NinePClientFs.Browses fsys.shape (NinePClientFs.call (loopbackTransport memFs)
      (.attach rootFid nofid "star9" "" 0)) := by
    refine NinePClientFs.safe_call memFs (safe_bind (reads_onFs (preserves_qidFor _)) fun _ _ =>
      safe_bind (reads_setFid rootFid fun st hst => ?_) fun _ _ => safe_pure trivial)
    cases hst
    rfl
  have hconnect : NinePClientFs.Browses fsys.shape (NinePClientFs.connect (loopbackTransport memFs)) := by
    refine NinePClientFs.browses_bind hversion fun r => ?_
    split
    · refine NinePClientFs.browses_ite ?_ (NinePClientFs.browses_throw _)
      refine NinePClientFs.browses_bind (NinePClientFs.browses_of_transport fun _ => rfl) fun _ => ?_
      refine NinePClientFs.browses_bind hattach fun r => ?_
      split
      · exact NinePClientFs.browses_pure _
      · exact NinePClientFs.browses_throw _
    · exact NinePClientFs.browses_throw _
  have hnew : ReadInv fsys.shape (NinePServer.new fsys clock) := ⟨rfl, fun fid st h => by cases h⟩
  exact (hconnect (ClientState.new (NinePServer.new fsys clock)) hnew).1

/-- In a run of reads whose opens set no permission bits, the backing file system
keeps every node as it was. -/
theorem run_shape (rounds : Nat) (fsys : MemFs) (clock : Nat → SystemTime) (ops : List ReadOp)
    (h : StepsMeet (step rounds) ReadStep (mount fsys clock) ops) (k : Nat) :
    (run (step rounds) (mount fsys clock) (ops.take k)).shape = fsys.shape :=
  (run_invariant (I := fun w : ReadWorld => ReadInv fsys.shape w.session.transport)
    (fun _ op hw hok => readInv_step hw op hok) (readInv_mount fsys clock) (h.take k)).shape

/-- A file system with one empty file. -/
def oneFile (mode : FileMode) : MemFs :=
  (MemFs.chmod "f" mode (MemFs.create "f" (MemFs.new fun _ => 0)).2).2

def readRun : List ReadOp :=
  [.open_ FsContext.new "f", .read 0 16, .statFile 0, .close 0, .drop 0, .stat FsContext.new "f",
   .readDir FsContext.new ".", .open_ FsContext.new "g", .getXattr "f" "a", .listXattrs "f"]

theorem run_shape_readRun :
    StepsMeet (step 8) ReadStep (mount (oneFile MemFs.openPerm) fun _ => 0) readRun ∧
    (run (step 8) (mount (oneFile MemFs.openPerm) fun _ => 0) (readRun.take 10)).shape =
      (oneFile MemFs.openPerm).shape := by
  have h : StepsMeet (step 8) ReadStep (mount (oneFile MemFs.openPerm) fun _ => 0) readRun := by
    decide +kernel
  exact ⟨h, run_shape 8 _ _ _ h 10⟩

/-- The open of a file with mode 644 leaves it with mode 666. -/
theorem run_not_shape : ¬ ∀ (rounds : Nat) (fsys : MemFs) (clock : Nat → SystemTime) (ops : List ReadOp),
    (run (step rounds) (mount fsys clock) ops).shape = fsys.shape := by
  intro h
  have hmode := congrArg (fun S : Shape => (S.core 1).mode.perm)
    (h 8 (oneFile (FileMode.fromPerm 0o644)) (fun _ => 0) [.open_ FsContext.new "f"])
  have hafter : ((run (step 8) (mount (oneFile (FileMode.fromPerm 0o644)) fun _ => 0)
      [.open_ FsContext.new "f"]).shape.core 1).mode.perm = 0o666 := by
    decide +kernel
  have hbefore : ((oneFile (FileMode.fromPerm 0o644)).shape.core 1).mode.perm = 0o644 := by
    decide +kernel
  rw [hafter, hbefore] at hmode
  revert hmode
  decide

end ReadWorld
end Star9
