import Star9.Base.Run
import Star9.Core.PathOrder
import Star9.Fs.MemFs
import Star9.Protocol.Server

/-!
# The server stays below the exported root

The backing file system is wrapped so that it keeps a log of every path operand it is
called with. Whatever the requests are, the paths in the fid table and in the log are
valid: relative, clean and without a dot-dot component. The one exception is the target
of a symlink, which the server passes on as the client sent it.
-/
namespace Star9
open Base Prog

/-- A path that a call of the file system acts on, or the target of a new symlink. -/
inductive Operand where
  | path (name : String)
  | target (name : String)
  deriving DecidableEq

namespace Operand

def name : Operand → String
  | path name => name
  | target name => name

/-- A path is valid, and a target is one of those in `T`. -/
def Allowed (T : String → Prop) : Operand → Prop
  | path name => validPath name = true
  | target name => T name

end Operand

section Logged
variable {σ η α : Type}

/-- Call the file system and note the path operands of the call. -/
def logging (operands : List Operand) (p : Prog σ Error α) : Prog (σ × List Operand) Error α := fun s =>
  ((p s.1).1, (p s.1).2, s.2 ++ operands)

/-- Calls on open files carry no path. -/
def unlogged (p : Prog (η × σ) Error α) : Prog (η × (σ × List Operand)) Error α := fun s =>
  ((p (s.1, s.2.1)).1, (p (s.1, s.2.1)).2.1, (p (s.1, s.2.1)).2.2, s.2.2)

def loggedFile (file : FileHandle σ η) : FileHandle (σ × List Operand) η where
  read len := unlogged (file.read len)
  write data := unlogged (file.write data)
  readAt len offset := unlogged (file.readAt len offset)
  writeAt data offset := unlogged (file.writeAt data offset)
  seek pos := unlogged (file.seek pos)
  stat := unlogged file.stat
  readDir count := unlogged (file.readDir count)
  sync := unlogged file.sync
  close := unlogged file.close

def logged (fs : FileSystem σ η) : FileSystem (σ × List Operand) η where
  open_ ctx name := logging [.path name] (fs.open_ ctx name)
  stat ctx name := logging [.path name] (fs.stat ctx name)
  lstat ctx name := logging [.path name] (fs.lstat ctx name)
  readDir ctx name := logging [.path name] (fs.readDir ctx name)
  create name := logging [.path name] (fs.create name)
  openFile name flags perm := logging [.path name] (fs.openFile name flags perm)
  mkdir name perm := logging [.path name] (fs.mkdir name perm)
  remove name := logging [.path name] (fs.remove name)
  rename old new := logging [.path old, .path new] (fs.rename old new)
  link old new := logging [.path old, .path new] (fs.link old new)
  chmod name mode := logging [.path name] (fs.chmod name mode)
  chown name uid gid := logging [.path name] (fs.chown name uid gid)
  chtimes name mtime := logging [.path name] (fs.chtimes name mtime)
  truncate name size := logging [.path name] (fs.truncate name size)
  symlink old new := logging [.target old, .path new] (fs.symlink old new)
  readlink name := logging [.path name] (fs.readlink name)
  setXattr name attr data := logging [.path name] (fs.setXattr name attr data)
  getXattr name attr := logging [.path name] (fs.getXattr name attr)
  listXattrs name := logging [.path name] (fs.listXattrs name)
  removeXattr name attr := logging [.path name] (fs.removeXattr name attr)
  file := loggedFile fs.file

end Logged

/-! ## Joined paths -/

theorem joinPath_valid (base name : String) : validPath (joinPath base name) = true :=
  cleanPath_valid _

theorem walkJoin_valid {base : String} (hb : validPath base = true) (name : String) :
    validPath (walkJoin base name) = true := by
  unfold walkJoin
  split
  · exact hb
  · split
    · exact parentPath_valid base
    · exact joinPath_valid base name

theorem checkedJoin_valid {base name path : String} (h : checkedJoin base name = .ok path) :
    validPath path = true := by
  unfold checkedJoin at h
  split at h
  · cases h
  · cases h
    exact joinPath_valid base name

namespace NinePServer
variable {σ η α β : Type} {T : String → Prop} (fs : FileSystem σ η)

/-- Every path in the fid table and in the log of calls is valid, but for targets of symlinks in `T`. -/
def Confined (T : String → Prop) (s : ServerState (σ × List Operand) η) : Prop :=
  (∀ fid st, s.fids fid = some st → validPath st.path = true) ∧ ∀ o ∈ s.fsys.2, o.Allowed T

/-- A program of the server that keeps confinement. -/
abbrev Confines (T : String → Prop) (V : α → Prop) (p : Prog (ServerState (σ × List Operand) η) Error α) : Prop :=
  Safe (Confined T) V p

/-! ## The building blocks -/

/-- A program on the backing file system that only ever names valid paths. -/
def LogsValid (T : String → Prop) (p : Prog (σ × List Operand) Error α) : Prop :=
  ∀ s, (∀ o ∈ s.2, o.Allowed T) → ∀ o ∈ (p s).2.2, o.Allowed T

theorem logsValid_logging {operands : List Operand} (h : ∀ o ∈ operands, o.Allowed T) (p : Prog σ Error α) :
    LogsValid T (logging operands p) := by
  intro s hs q hq
  rcases List.mem_append.mp hq with hq | hq
  · exact hs q hq
  · exact h q hq

theorem allowed_path {name : String} (h : validPath name = true) : (Operand.path name).Allowed T := h

theorem allowed_target {name : String} (h : T name) : (Operand.target name).Allowed T := h

theorem logsValid_one {name : String} (h : validPath name = true) (p : Prog σ Error α) :
    LogsValid T (logging [.path name] p) :=
  logsValid_logging (by simpa using allowed_path h) p

theorem logsValid_pure (a : α) : LogsValid T (pure a : Prog (σ × List Operand) Error α) := fun _ hs => hs

theorem logsValid_bind {p : Prog (σ × List Operand) Error α} {f : α → Prog (σ × List Operand) Error β}
    (hp : LogsValid T p) (hf : ∀ a, LogsValid T (f a)) : LogsValid T (p >>= f) := by
  intro s hs
  have h := hp s hs
  rw [bind_apply]
  rcases hr : p s with ⟨a | e | _, s'⟩ <;> rw [hr] at h
  · exact hf a s' h
  · exact h
  · exact h

theorem logsValid_attempt {p : Prog (σ × List Operand) Error α} (hp : LogsValid T p) :
    LogsValid T (attempt p) := by
  intro s hs
  have h := hp s hs
  unfold attempt
  rcases hr : p s with ⟨a | e | _, s'⟩ <;> rw [hr] at h <;> exact h

theorem logsValid_ite {c : Prop} [Decidable c] {p q : Prog (σ × List Operand) Error α} (hp : LogsValid T p)
    (hq : LogsValid T q) : LogsValid T (if c then p else q) := by
  split
  · exact hp
  · exact hq

theorem logsValid_withFile (f : η) (p : Prog (η × σ) Error α) : LogsValid T (withFile f (unlogged p)) := by
  intro s hs
  unfold withFile unlogged
  rcases (p (f, s.1)) with ⟨a | e | _, f', s'⟩ <;> exact hs

theorem confines_onFs {p : Prog (σ × List Operand) Error α} (hp : LogsValid T p) :
    Confines T (fun _ => True) (onFs p : Prog (ServerState (σ × List Operand) η) Error α) := by
  intro s hs
  exact ⟨⟨hs.1, hp s.fsys hs.2⟩, fun _ _ => trivial⟩

theorem logsValid_qidFor {path : String} (h : validPath path = true) :
    LogsValid T (qidFor (logged fs) path) :=
  logsValid_bind (logsValid_one h _) fun _ => logsValid_pure _

theorem logsValid_attrFor {path : String} (h : validPath path = true) (metadata : Metadata)
    (requestMask : UInt64) : LogsValid T (attrFor (logged fs) path metadata requestMask) := by
  refine logsValid_bind (logsValid_ite ?_ (logsValid_pure _)) fun _ => logsValid_pure _
  refine logsValid_bind (logsValid_attempt (logsValid_one h _)) fun r => ?_
  cases r <;> exact logsValid_pure _

theorem confines_setFid {st : Option (FidState η)} (h : ∀ st', st = some st' → validPath st'.path = true)
    (fid : UInt32) : Confines T (fun _ => True)
      (setFid fid st : Prog (ServerState (σ × List Operand) η) Error Unit) := by
  refine safe_modify fun s hs => ⟨fun fid' st' hst => ?_, hs.2⟩
  dsimp only at hst
  by_cases hf : fid' = fid
  · subst hf
    rw [Function.update_self] at hst
    exact h st' hst
  · rw [Function.update_of_ne hf] at hst
    exact hs.1 fid' st' hst

theorem confines_getFid (fid : UInt32) :
    Confines T (fun st => validPath st.path = true)
      (getFid fid : Prog (ServerState (σ × List Operand) η) Error (FidState η)) := by
  intro s hs
  simp only [getFid, get_bind]
  cases hf : s.fids fid with
  | none => exact ⟨hs, fun _ h => by cases h⟩
  | some st => exact ⟨hs, fun _ h => by cases h; exact hs.1 fid _ hf⟩

theorem confines_fidPath (fid : UInt32) :
    Confines T (fun path => validPath path = true)
      (fidPath fid : Prog (ServerState (σ × List Operand) η) Error String) :=
  safe_bind (confines_getFid fid) fun _ h => safe_pure h

theorem confines_onFile {st : FidState η} (h : validPath st.path = true) (fid : UInt32) (f : η)
    (p : Prog (η × σ) Error α) : Confines T (fun _ => True) (onFile fid st f (unlogged p)) := by
  intro s hs
  refine ⟨⟨fun fid' st' hst => ?_, hs.2⟩, fun _ _ => trivial⟩
  simp only [onFile] at hst
  by_cases hf : fid' = fid
  · subst hf
    rw [Function.update_self, Option.some.injEq] at hst
    subst hst
    exact h
  · rw [Function.update_of_ne hf] at hst
    exact hs.1 fid' st' hst

theorem confines_ofExcept {V : α → Prop} {x : Except Error α} (h : ∀ a, x = .ok a → V a) :
    Confines T V (Prog.ofExcept x : Prog (ServerState (σ × List Operand) η) Error α) := by
  cases x with
  | ok a => exact safe_pure (h a rfl)
  | error e => exact safe_throw e

theorem confines_checkedJoin (base name : String) :
    Confines T (fun path => validPath path = true)
      (Prog.ofExcept (checkedJoin base name) : Prog (ServerState (σ × List Operand) η) Error String) :=
  confines_ofExcept fun _ h => checkedJoin_valid h

theorem confines_walkBase (fid newfid : UInt32) :
    Confines T (fun path => validPath path = true)
      (walkBase fid newfid : Prog (ServerState (σ × List Operand) η) Error String) :=
  safe_bind safe_get fun _ _ => safe_ite (fun _ => safe_throw _) fun _ => confines_fidPath fid

/-! ## The handlers -/

theorem confines_walkLoop {path : String} (h : validPath path = true) (qids : List Qid) (names : List String) :
    Confines T (fun r => validPath r.1 = true) (walkLoop (logged fs) path qids names) := by
  induction names generalizing path qids with
  | nil => exact safe_pure h
  | cons name names ih =>
    refine safe_ite (fun _ => safe_throw _) fun _ => ?_
    have hnext := walkJoin_valid h name
    refine safe_bind (safe_attempt (confines_onFs (logsValid_qidFor fs hnext))) fun r _ => ?_
    cases r with
    | ok qid => exact ih hnext _
    | error err => exact safe_ite (fun _ => safe_throw _) fun _ => safe_pure h

theorem confines_walk (fid newfid : UInt32) (names : List String) :
    Confines T (fun _ => True) (walk (logged fs) fid newfid names) := by
  refine safe_bind (confines_walkBase fid newfid) fun base hbase => ?_
  refine safe_bind (confines_walkLoop fs hbase [] names) fun r hr => ?_
  refine safe_bind (confines_setFid ?_ newfid) fun _ _ => safe_pure trivial
  intro st hst
  cases hst
  exact hr

theorem confines_attach (fid : UInt32) : Confines T (fun _ => True) (attach (logged fs) fid) := by
  refine safe_bind (confines_onFs (logsValid_qidFor fs (by decide))) fun _ _ => ?_
  refine safe_bind (confines_setFid ?_ fid) fun _ _ => safe_pure trivial
  intro st hst
  cases hst
  exact validPath_dot

theorem confines_lopen (fid flags : UInt32) : Confines T (fun _ => True) (lopen (logged fs) fid flags) := by
  refine safe_bind (confines_fidPath fid) fun path hpath => ?_
  refine safe_bind (confines_onFs (logsValid_one hpath _)) fun f _ => ?_
  refine safe_bind (confines_onFs (logsValid_qidFor fs hpath)) fun _ _ => ?_
  refine safe_bind (confines_getFid fid) fun st hst => ?_
  refine safe_bind (confines_setFid ?_ fid) fun _ _ => safe_pure trivial
  intro st' hst'
  cases hst'
  exact hst

theorem confines_lcreate (fid : UInt32) (name : String) (flags mode : UInt32) :
    Confines T (fun _ => True) (lcreate (logged fs) fid name flags mode) := by
  refine safe_bind (confines_fidPath fid) fun parent _ => ?_
  refine safe_bind (confines_checkedJoin parent name) fun path hpath => ?_
  refine safe_bind (confines_onFs (logsValid_one hpath _)) fun f _ => ?_
  refine safe_bind (confines_onFs (logsValid_qidFor fs hpath)) fun _ _ => ?_
  refine safe_bind (confines_getFid fid) fun _ _ => ?_
  refine safe_bind (confines_setFid ?_ fid) fun _ _ => safe_pure trivial
  intro st' hst'
  cases hst'
  exact hpath

theorem confines_getattr (fid : UInt32) (requestMask : UInt64) :
    Confines T (fun _ => True) (getattr (logged fs) fid requestMask) := by
  refine safe_bind (confines_getFid fid) fun st hst => ?_
  refine safe_bind (V := fun _ => True) ?_ fun metadata _ => ?_
  · unfold fidMetadata
    split
    · exact confines_onFile hst fid _ _
    · exact confines_onFs (logsValid_one hst _)
    · exact safe_pure trivial
    · exact safe_pure trivial
  · exact safe_bind (confines_onFs (logsValid_attrFor fs hst metadata requestMask)) fun _ _ =>
      safe_pure trivial

theorem confines_whenSet {c : Bool} {p : Prog (ServerState (σ × List Operand) η) Error Unit}
    (hp : Confines T (fun _ => True) p) : Confines T (fun _ => True) (whenSet c p) :=
  safe_ite (fun _ => hp) fun _ => safe_pure trivial

theorem confines_currentTime :
    Confines T (fun _ => True) (currentTime : Prog (ServerState (σ × List Operand) η) Error SystemTime) :=
  fun _ hs => ⟨hs, fun _ _ => trivial⟩

theorem confines_setattr (fid : UInt32) (attr : SetAttr) :
    Confines T (fun _ => True) (setattr (logged fs) fid attr) := by
  refine safe_bind (confines_fidPath fid) fun path hpath => ?_
  refine safe_bind (confines_whenSet (confines_onFs (logsValid_one hpath _))) fun _ _ => ?_
  refine safe_bind (confines_whenSet (confines_onFs (logsValid_one hpath _))) fun _ _ => ?_
  refine safe_bind (confines_whenSet ?_) fun _ _ => ?_
  · exact safe_bind (confines_onFs (logsValid_one hpath _)) fun _ _ =>
      confines_onFs (logsValid_one hpath _)
  refine safe_bind (confines_whenSet ?_) fun _ _ => safe_pure trivial
  refine safe_bind (V := fun _ => True) (safe_ite (fun _ => ?_) fun _ => confines_currentTime) fun _ _ =>
    confines_onFs (logsValid_one hpath _)
  split
  · exact safe_pure trivial
  · exact fun _ hs => ⟨hs, fun _ _ => trivial⟩

theorem confines_xattrwalk (fid newfid : UInt32) (name : String) :
    Confines T (fun _ => True) (xattrwalk (logged fs) fid newfid name) := by
  refine safe_bind (confines_walkBase fid newfid) fun path hpath => ?_
  refine safe_bind (confines_onFs (logsValid_ite ?_ (logsValid_one hpath _))) fun data _ => ?_
  · exact logsValid_bind (logsValid_one hpath _) fun _ => logsValid_pure _
  refine safe_bind (confines_setFid ?_ newfid) fun _ _ => safe_pure trivial
  intro st hst
  cases hst
  exact hpath

theorem confines_xattrcreate (fid : UInt32) (name : String) (size : UInt64) (flags : UInt32) :
    Confines T (fun _ => True)
      (xattrcreate fid name size flags : Prog (ServerState (σ × List Operand) η) Error NinePResponse) := by
  refine safe_ite (fun _ => safe_throw _) fun _ => safe_bind (confines_getFid fid) fun st hst => ?_
  split
  · exact fun _ hs => ⟨hs, fun _ _ => trivial⟩
  · refine safe_bind (confines_setFid ?_ fid) fun _ _ => safe_pure trivial
    intro st' hst'
    cases hst'
    exact hst

theorem confines_read (fid : UInt32) (offset : UInt64) (count : UInt32) :
    Confines T (fun _ => True) (read (logged fs) fid offset count) := by
  refine safe_bind (confines_getFid fid) fun st hst => ?_
  split
  · exact safe_bind (confines_onFile hst fid _ _) fun _ _ => safe_pure trivial
  · exact safe_pure trivial
  · exact safe_throw _
  · exact safe_throw _

theorem confines_write (fid : UInt32) (offset : UInt64) (data : Bytes) :
    Confines T (fun _ => True) (write (logged fs) fid offset data) := by
  refine safe_bind (confines_getFid fid) fun st hst => ?_
  refine safe_bind (V := fun _ => True) ?_ fun count _ =>
    safe_ite (fun _ => safe_pure trivial) fun _ => safe_throw _
  unfold writeHandle
  split
  · exact confines_onFile hst fid _ _
  · refine safe_bind (V := fun _ => True) (safe_reads fun _ _ _ _ => trivial) fun write _ => ?_
    refine safe_bind (confines_setFid ?_ fid) fun _ _ => safe_pure trivial
    intro st' hst'
    cases hst'
    exact hst
  · exact safe_throw _
  · exact safe_throw _

theorem confines_forget (fid : UInt32) : Confines T (fun _ => True)
    (setFid fid none : Prog (ServerState (σ × List Operand) η) Error Unit) :=
  confines_setFid (fun _ h => by cases h) fid

theorem confines_commitXattr {path : String} (h : validPath path = true) (write : XattrWriteState) :
    Confines T (fun _ => True) (commitXattr (logged fs) path write) := by
  refine safe_ite (fun _ => safe_pure trivial) fun _ => safe_ite (fun _ => safe_throw _) fun _ => ?_
  exact safe_bind (confines_onFs (logsValid_one h _)) fun _ _ => safe_pure trivial

theorem confines_clunk (fid : UInt32) : Confines T (fun _ => True) (clunk (logged fs) fid) := by
  refine safe_bind (confines_getFid fid) fun st hst => safe_bind (confines_forget fid) fun _ _ => ?_
  split
  · exact safe_bind (confines_commitXattr fs hst _) fun _ _ => safe_pure trivial
  · exact safe_bind (confines_onFs (logsValid_withFile _ _)) fun _ _ =>
      confines_ofExcept fun _ _ => trivial
  · exact safe_pure trivial

theorem confines_remove (fid : UInt32) : Confines T (fun _ => True) (remove (logged fs) fid) := by
  refine safe_bind (confines_getFid fid) fun st hst => safe_bind (confines_forget fid) fun _ _ => ?_
  refine safe_ite (fun _ => safe_throw _) fun _ => ?_
  refine safe_bind (V := fun _ => True) ?_ fun _ _ =>
    safe_bind (confines_onFs (logsValid_one hst _)) fun _ _ => safe_pure trivial
  unfold closeQuietly
  split
  · exact safe_bind (confines_onFs (logsValid_withFile _ _)) fun _ _ => safe_pure trivial
  · exact safe_pure trivial

theorem confines_mkdir (fid : UInt32) (name : String) (mode : UInt32) :
    Confines T (fun _ => True) (mkdir (logged fs) fid name mode) := by
  refine safe_bind (confines_fidPath fid) fun parent _ => ?_
  refine safe_bind (confines_checkedJoin parent name) fun path hpath => ?_
  refine safe_bind (confines_onFs (logsValid_one hpath _)) fun _ _ => ?_
  exact safe_bind (confines_onFs (logsValid_qidFor fs hpath)) fun _ _ => safe_pure trivial

theorem logsValid_two {old new : Operand} (hold : old.Allowed T) (hnew : new.Allowed T)
    (p : Prog σ Error α) : LogsValid T (logging [old, new] p) := by
  refine logsValid_logging (fun o ho => ?_) p
  simp only [List.mem_cons, List.not_mem_nil, or_false] at ho
  rcases ho with rfl | rfl
  · exact hold
  · exact hnew

theorem confines_link (fid newdirfid : UInt32) (name : String) :
    Confines T (fun _ => True) (link (logged fs) fid newdirfid name) := by
  refine safe_bind (confines_fidPath fid) fun old hold => ?_
  refine safe_bind (confines_fidPath newdirfid) fun dir _ => ?_
  refine safe_bind (confines_checkedJoin dir name) fun new hnew => ?_
  exact safe_bind (confines_onFs (logsValid_two (allowed_path hold) (allowed_path hnew) _)) fun _ _ => safe_pure trivial

theorem confines_readdirLoop (path : String) (offset count index : Nat) (entries : List DirEntry)
    (data : Bytes) :
    Confines T (fun _ => True) (readdirLoop (logged fs) path offset count index entries data) := by
  induction entries generalizing index data with
  | nil => exact safe_pure trivial
  | cons entry entries ih =>
    refine safe_ite (fun _ => ih _ _) fun _ => ?_
    refine safe_bind (confines_onFs (logsValid_qidFor fs (joinPath_valid _ _))) fun qid _ => ?_
    refine safe_bind (V := fun _ => True) (confines_ofExcept fun _ _ => trivial) fun encoded _ => ?_
    exact safe_ite (fun _ => safe_pure trivial) fun _ => ih _ _

theorem confines_readdir (fid : UInt32) (offset : UInt64) (count : UInt32) :
    Confines T (fun _ => True) (readdir (logged fs) fid offset count) := by
  refine safe_bind (confines_fidPath fid) fun path hpath => ?_
  refine safe_bind (confines_onFs (logsValid_one hpath _)) fun entries _ => ?_
  exact safe_bind (confines_readdirLoop fs _ _ _ _ _ _) fun _ _ => safe_pure trivial

theorem confines_renameAt (olddirfid : UInt32) (oldname : String) (newdirfid : UInt32) (newname : String) :
    Confines T (fun _ => True) (renameAt (logged fs) olddirfid oldname newdirfid newname) := by
  refine safe_bind (confines_fidPath olddirfid) fun olddir _ => ?_
  refine safe_bind (confines_checkedJoin olddir oldname) fun old hold => ?_
  refine safe_bind (confines_fidPath newdirfid) fun newdir _ => ?_
  refine safe_bind (confines_checkedJoin newdir newname) fun new hnew => ?_
  exact safe_bind (confines_onFs (logsValid_two (allowed_path hold) (allowed_path hnew) _)) fun _ _ => safe_pure trivial

theorem logsValid_unlinkRefused {path : String} (h : validPath path = true) (metadata : Metadata)
    (flags : UInt32) : LogsValid T (unlinkRefused (logged fs) path metadata flags) := by
  refine logsValid_ite (logsValid_pure _) (logsValid_ite (logsValid_pure _) ?_)
  exact logsValid_ite (logsValid_bind (logsValid_one h _) fun _ => logsValid_pure _) (logsValid_pure _)

theorem confines_unlinkAt (dirfid : UInt32) (name : String) (flags : UInt32) :
    Confines T (fun _ => True) (unlinkAt (logged fs) dirfid name flags) := by
  refine safe_bind (confines_fidPath dirfid) fun dir _ => ?_
  refine safe_bind (confines_checkedJoin dir name) fun path hpath => ?_
  refine safe_bind (confines_onFs (logsValid_one hpath _)) fun metadata _ => ?_
  refine safe_bind (confines_onFs (logsValid_unlinkRefused fs hpath metadata flags)) fun refused _ => ?_
  cases refused with
  | some kind => exact safe_throw _
  | none => exact safe_bind (confines_onFs (logsValid_one hpath _)) fun _ _ => safe_pure trivial

/-- Only the target of a symlink reaches the file system unchecked. -/
theorem confines_symlink (fid : UInt32) (name : String) {target : String} (htarget : T target) :
    Confines T (fun _ => True) (symlink (logged fs) fid name target) := by
  refine safe_bind (confines_fidPath fid) fun dir _ => ?_
  refine safe_bind (confines_checkedJoin dir name) fun path hpath => ?_
  refine safe_bind (confines_onFs (logsValid_two (allowed_target htarget) (allowed_path hpath) _)) fun _ _ => ?_
  exact safe_bind (confines_onFs (logsValid_qidFor fs hpath)) fun _ _ => safe_pure trivial

theorem confines_readlink (fid : UInt32) : Confines T (fun _ => True) (readlink (logged fs) fid) := by
  refine safe_bind (confines_fidPath fid) fun path hpath => ?_
  exact safe_bind (confines_onFs (logsValid_one hpath _)) fun _ _ => safe_pure trivial

theorem confines_fsync (fid : UInt32) : Confines T (fun _ => True) (fsync (logged fs) fid) := by
  refine safe_bind (confines_getFid fid) fun st hst => ?_
  split
  · refine safe_bind (safe_attempt (confines_onFile hst fid _ _)) fun r _ => ?_
    split
    · exact safe_pure trivial
    · exact safe_pure trivial
    · exact safe_throw _
  · refine safe_bind (confines_commitXattr fs hst _) fun write _ => ?_
    refine safe_bind (confines_setFid ?_ fid) fun _ _ => safe_pure trivial
    intro st' hst'
    cases hst'
    exact hst
  · exact safe_pure trivial

theorem confines_version (msize : UInt32) (v : String) : Confines T (fun _ => True)
    (version msize v : Prog (ServerState (σ × List Operand) η) Error NinePResponse) :=
  safe_bind (safe_modify fun _ hs => hs) fun _ _ => safe_pure trivial

/-- The target that a request has, if any, is in `T`. -/
def TargetIn (T : String → Prop) : NinePRequest → Prop
  | .symlink _ _ target _ => T target
  | _ => True

theorem confines_handle {request : NinePRequest} (htarget : TargetIn T request) :
    Confines T (fun _ => True) (handle (logged fs) request) := by
  cases request with
  | version msize v => exact confines_version msize v
  | attach fid => exact confines_attach fs fid
  | walk fid newfid names => exact confines_walk fs fid newfid names
  | lopen fid flags => exact confines_lopen fs fid flags
  | lcreate fid name flags mode => exact confines_lcreate fs fid name flags mode
  | getAttr fid mask => exact confines_getattr fs fid mask
  | setAttr fid attr => exact confines_setattr fs fid attr
  | xattrWalk fid newfid name => exact confines_xattrwalk fs fid newfid name
  | xattrCreate fid name size flags => exact confines_xattrcreate fid name size flags
  | read fid offset count => exact confines_read fs fid offset count
  | write fid offset data => exact confines_write fs fid offset data
  | clunk fid => exact safe_bind (confines_clunk fs fid) fun _ _ => safe_pure trivial
  | remove fid => exact confines_remove fs fid
  | mkdir fid name mode => exact confines_mkdir fs fid name mode
  | link fid newdirfid name => exact confines_link fs fid newdirfid name
  | readdir fid offset count => exact confines_readdir fs fid offset count
  | renameAt olddirfid oldname newdirfid newname =>
    exact confines_renameAt fs olddirfid oldname newdirfid newname
  | unlinkAt dirfid name flags => exact confines_unlinkAt fs dirfid name flags
  | symlink fid name target => exact confines_symlink fs fid name htarget
  | readlink fid => exact confines_readlink fs fid
  | fsync fid => exact confines_fsync fs fid
  | flush => exact safe_pure trivial

theorem confines_respond {request : NinePRequest} (htarget : TargetIn T request) :
    Confines T (fun _ => True) (respond (logged fs) request) := by
  refine safe_bind (safe_attempt (confines_handle fs htarget)) fun r _ => ?_
  cases r <;> exact safe_pure trivial

/-- The state after a sequence of requests, whatever each of them is answered. -/
def serve (requests : List NinePRequest) (s : ServerState σ η) : ServerState σ η :=
  run (fun s request => (respond fs request s).2) s requests

theorem serve_keeps {requests : List NinePRequest} (htargets : ∀ request ∈ requests, TargetIn T request)
    {s : ServerState (σ × List Operand) η} (hs : Confined T s) : Confined T (serve (logged fs) requests s) :=
  run_invariant_of_mem (fun s _ hs htarget => (confines_respond fs htarget s hs).1) hs htargets

theorem confined_new (T : String → Prop) (fsys : σ) (clock : Nat → SystemTime) :
    Confined T (new (fsys, []) clock : ServerState (σ × List Operand) η) := by
  refine ⟨fun fid st hst => ?_, fun p hp => ?_⟩
  · cases hst
  · cases hp

/-- No sequence of requests makes the server store a path, or name one to the backing file system,
that is not a valid path below the root, except as the target of a symlink that a request asked for.
Requests for symlinks with valid targets name nothing else at all. -/
theorem serve_confined (fsys : σ) (clock : Nat → SystemTime) (requests : List NinePRequest) :
    Confined (fun target => ∃ fid name gid, .symlink fid name target gid ∈ requests) (serve (logged fs) requests (new (fsys, []) clock)) ∧
    ((∀ request ∈ requests, TargetIn (fun p => validPath p = true) request) →
      Confined (fun p => validPath p = true) (serve (logged fs) requests (new (fsys, []) clock))) := by
  refine ⟨serve_keeps fs (fun request hrequest => ?_) (confined_new _ fsys clock), fun htargets => ?_⟩
  · cases request with
    | symlink fid name target gid => exact ⟨fid, name, gid, hrequest⟩
    | _ => trivial
  · exact serve_keeps fs htargets (confined_new _ fsys clock)

/-- The target of a request reaches the file system as it was sent. -/
theorem serve_not_confined : ¬ Confined (fun p => validPath p = true)
    (serve (logged memFs) [.attach 1 nofid "" "" 0, .symlink 1 "l" "../../etc/passwd" 0] (new (MemFs.new fun _ => 0, []) fun _ => 0)) := by
  intro h
  have hlogged : Operand.target "../../etc/passwd" ∈
      (serve (logged memFs) [.attach 1 nofid "" "" 0, .symlink 1 "l" "../../etc/passwd" 0] (new (MemFs.new fun _ => 0, []) fun _ => 0)).fsys.2 := by
    decide +kernel
  have hvalid : validPath "../../etc/passwd" = true := h.2 _ hlogged
  exact absurd hvalid (by decide)

end NinePServer
end Star9
