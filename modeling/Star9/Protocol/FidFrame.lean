import Star9.Protocol.Loopback

/-!
# What a request does to the fid table

A request only writes the entries of the fids it names, and a clunk clears the
one it names whatever else it returns.
-/
namespace Star9
open Base Prog

/-! ## Requests write only their own fids -/

def touched : NinePRequest → List UInt32
  | .attach fid .. | .lopen fid _ | .lcreate fid .. | .getAttr fid _ | .xattrCreate fid .. | .read fid ..
  | .write fid .. | .clunk fid | .remove fid | .fsync fid => [fid]
  | .walk _ newfid _ | .xattrWalk _ newfid _ => [newfid]
  | .version .. | .setAttr .. | .mkdir .. | .link .. | .readdir .. | .renameAt .. | .unlinkAt .. | .symlink ..
  | .readlink .. | .flush .. => []

namespace NinePServer
variable {σ η α : Type} (fs : FileSystem σ η) {f : UInt32}

/-- The entry of a fid is the same after the run. -/
def Keeps (f : UInt32) (p : Prog (ServerState σ η) Error α) : Prop := Preserves (fun s => s.fids f) p

theorem keeps_onFs (p : Prog σ Error α) : Keeps f (onFs p : Prog (ServerState σ η) Error α) := fun _ => rfl

theorem keeps_getFid (fid : UInt32) : Keeps f (getFid fid : Prog (ServerState σ η) Error _) :=
  preserves_bind preserves_get fun _ => preserves_ofOption _ _

theorem keeps_fidPath (fid : UInt32) : Keeps f (fidPath fid : Prog (ServerState σ η) Error _) :=
  preserves_bind (keeps_getFid fid) fun _ => preserves_pure _

theorem keeps_setFid {fid : UInt32} (h : f ≠ fid) (st : Option (FidState η)) :
    Keeps f (setFid fid st : Prog (ServerState σ η) Error Unit) :=
  preserves_modify fun _ => Function.update_of_ne h ..

theorem keeps_onFile {fid : UInt32} (h : f ≠ fid) (st : FidState η) (file : η) (p : Prog (η × σ) Error α) :
    Keeps f (onFile fid st file p) := by
  intro s
  rw [onFile]
  exact Function.update_of_ne h ..

theorem keeps_checkedJoin (base name : String) :
    Keeps f (Prog.ofExcept (checkedJoin base name) : Prog (ServerState σ η) Error String) :=
  preserves_ofExcept _

theorem keeps_attach {fid : UInt32} (h : f ≠ fid) : Keeps f (attach fs fid) :=
  preserves_bind (keeps_onFs _) fun _ => preserves_bind (keeps_setFid h _) fun _ => preserves_pure _

theorem keeps_walkBase (fid newfid : UInt32) :
    Keeps f (walkBase fid newfid : Prog (ServerState σ η) Error String) :=
  preserves_bind preserves_get fun _ => preserves_ite (preserves_throw _) (keeps_fidPath fid)

theorem keeps_walkLoop (path : String) (qids : List Qid) (names : List String) :
    Keeps f (walkLoop fs path qids names) := by
  induction names generalizing path qids with
  | nil => exact preserves_pure _
  | cons name names ih =>
    refine preserves_ite (preserves_throw _) (preserves_bind (preserves_attempt (keeps_onFs _)) fun r => ?_)
    cases r with
    | ok qid => exact ih _ _
    | error err => exact preserves_ite (preserves_throw _) (preserves_pure _)

theorem keeps_walk {newfid : UInt32} (h : f ≠ newfid) (fid : UInt32) (names : List String) :
    Keeps f (walk fs fid newfid names) :=
  preserves_bind (keeps_walkBase fid newfid) fun _ => preserves_bind (keeps_walkLoop fs _ _ _) fun _ =>
    preserves_bind (keeps_setFid h _) fun _ => preserves_pure _

theorem keeps_lopen {fid : UInt32} (h : f ≠ fid) (flags : UInt32) : Keeps f (lopen fs fid flags) :=
  preserves_bind (keeps_fidPath fid) fun _ => preserves_bind (keeps_onFs _) fun _ =>
    preserves_bind (keeps_onFs _) fun _ => preserves_bind (keeps_getFid fid) fun _ =>
      preserves_bind (keeps_setFid h _) fun _ => preserves_pure _

theorem keeps_lcreate {fid : UInt32} (h : f ≠ fid) (name : String) (flags mode : UInt32) :
    Keeps f (lcreate fs fid name flags mode) :=
  preserves_bind (keeps_fidPath fid) fun _ => preserves_bind (keeps_checkedJoin _ _) fun _ =>
    preserves_bind (keeps_onFs _) fun _ => preserves_bind (keeps_onFs _) fun _ =>
      preserves_bind (keeps_getFid fid) fun _ => preserves_bind (keeps_setFid h _) fun _ => preserves_pure _

theorem keeps_getattr {fid : UInt32} (h : f ≠ fid) (mask : UInt64) : Keeps f (getattr fs fid mask) := by
  refine preserves_bind (keeps_getFid fid) fun st => preserves_bind ?_ fun _ =>
    preserves_bind (keeps_onFs _) fun _ => preserves_pure _
  unfold fidMetadata
  split
  · exact keeps_onFile h st _ _
  · exact keeps_onFs _
  · exact preserves_pure _
  · exact preserves_pure _

theorem keeps_whenSet (c : Bool) {p : Prog (ServerState σ η) Error Unit} (hp : Keeps f p) :
    Keeps f (whenSet c p) :=
  preserves_ite hp (preserves_pure _)

theorem keeps_setMtime (path : String) (attr : SetAttr) : Keeps f (setMtime fs path attr) := by
  refine preserves_bind (preserves_ite ?_ fun _ => rfl) fun _ => keeps_onFs _
  split
  · exact preserves_pure _
  · exact preserves_abort

theorem keeps_setattr (fid : UInt32) (attr : SetAttr) : Keeps f (setattr fs fid attr) :=
  preserves_bind (keeps_fidPath fid) fun _ => preserves_bind (keeps_whenSet _ (keeps_onFs _)) fun _ =>
    preserves_bind (keeps_whenSet _ (keeps_onFs _)) fun _ =>
      preserves_bind (keeps_whenSet _ (preserves_bind (keeps_onFs _) fun _ => keeps_onFs _)) fun _ =>
        preserves_bind (keeps_whenSet _ (keeps_setMtime fs _ _)) fun _ => preserves_pure _

theorem keeps_xattrwalk {newfid : UInt32} (h : f ≠ newfid) (fid : UInt32) (name : String) :
    Keeps f (xattrwalk fs fid newfid name) :=
  preserves_bind (keeps_walkBase fid newfid) fun _ => preserves_bind (keeps_onFs _) fun _ =>
    preserves_bind (keeps_setFid h _) fun _ => preserves_pure _

theorem keeps_xattrcreate {fid : UInt32} (h : f ≠ fid) (name : String) (size : UInt64) (flags : UInt32) :
    Keeps f (xattrcreate fid name size flags : Prog (ServerState σ η) Error _) := by
  refine preserves_ite (preserves_throw _) (preserves_bind (keeps_getFid fid) fun st => ?_)
  split
  · exact preserves_abort
  · exact preserves_bind (keeps_setFid h _) fun _ => preserves_pure _

theorem keeps_read {fid : UInt32} (h : f ≠ fid) (offset : UInt64) (count : UInt32) :
    Keeps f (read fs fid offset count) := by
  refine preserves_bind (keeps_getFid fid) fun st => ?_
  split
  · exact preserves_bind (keeps_onFile h st _ _) fun _ => preserves_pure _
  · exact preserves_pure _
  · exact preserves_throw _
  · exact preserves_throw _

theorem keeps_write {fid : UInt32} (h : f ≠ fid) (offset : UInt64) (data : Bytes) :
    Keeps f (write fs fid offset data) := by
  refine preserves_bind (keeps_getFid fid) fun st => preserves_bind ?_ fun _ =>
    preserves_ite (preserves_pure _) (preserves_throw _)
  unfold writeHandle
  split
  · exact keeps_onFile h st _ _
  · exact preserves_bind (preserves_reads _) fun _ => preserves_bind (keeps_setFid h _) fun _ =>
      preserves_pure _
  · exact preserves_throw _
  · exact preserves_throw _

theorem keeps_commitXattr (path : String) (write : XattrWriteState) : Keeps f (commitXattr fs path write) :=
  preserves_ite (preserves_pure _) (preserves_ite (preserves_throw _)
    (preserves_bind (keeps_onFs _) fun _ => preserves_pure _))

/-- What is left of a clunk once the fid has left the table. -/
theorem keeps_clunkRest (st : FidState η) : Keeps f (match st.handle with
    | .xattrWrite write => do
      let _ ← commitXattr fs st.path write
      pure ()
    | .file file => do
      let (r, _) ← onFs (withFile file fs.file.close)
      Prog.ofExcept r
    | _ => pure () : Prog (ServerState σ η) Error Unit) := by
  split
  · exact preserves_bind (keeps_commitXattr fs _ _) fun _ => preserves_pure _
  · exact preserves_bind (keeps_onFs _) fun _ => preserves_ofExcept _
  · exact preserves_pure _

theorem keeps_clunk {fid : UInt32} (h : f ≠ fid) : Keeps f (clunk fs fid) :=
  preserves_bind (keeps_getFid fid) fun st => preserves_bind (keeps_setFid h _) fun _ => keeps_clunkRest fs st

theorem keeps_remove {fid : UInt32} (h : f ≠ fid) : Keeps f (remove fs fid) := by
  refine preserves_bind (keeps_getFid fid) fun st => preserves_bind (keeps_setFid h _) fun _ =>
    preserves_ite (preserves_throw _) (preserves_bind ?_ fun _ => preserves_bind (keeps_onFs _) fun _ =>
      preserves_pure _)
  unfold closeQuietly
  split
  · exact preserves_bind (keeps_onFs _) fun _ => preserves_pure _
  · exact preserves_pure _

theorem keeps_mkdir (fid : UInt32) (name : String) (mode : UInt32) : Keeps f (mkdir fs fid name mode) :=
  preserves_bind (keeps_fidPath fid) fun _ => preserves_bind (keeps_checkedJoin _ _) fun _ =>
    preserves_bind (keeps_onFs _) fun _ => preserves_bind (keeps_onFs _) fun _ => preserves_pure _

theorem keeps_link (fid newdirfid : UInt32) (name : String) : Keeps f (link fs fid newdirfid name) :=
  preserves_bind (keeps_fidPath fid) fun _ => preserves_bind (keeps_fidPath newdirfid) fun _ =>
    preserves_bind (keeps_checkedJoin _ _) fun _ => preserves_bind (keeps_onFs _) fun _ => preserves_pure _

theorem keeps_readdirLoop (path : String) (offset count index : Nat) (entries : List DirEntry) (data : Bytes) :
    Keeps f (readdirLoop fs path offset count index entries data) := by
  induction entries generalizing index data with
  | nil => exact preserves_pure _
  | cons entry entries ih =>
    exact preserves_ite (ih _ _) (preserves_bind (keeps_onFs _) fun _ =>
      preserves_bind (preserves_ofExcept _) fun _ => preserves_ite (preserves_pure _) (ih _ _))

theorem keeps_readdir (fid : UInt32) (offset : UInt64) (count : UInt32) :
    Keeps f (readdir fs fid offset count) :=
  preserves_bind (keeps_fidPath fid) fun _ => preserves_bind (keeps_onFs _) fun _ =>
    preserves_bind (keeps_readdirLoop fs _ _ _ _ _ _) fun _ => preserves_pure _

theorem keeps_renameAt (olddirfid : UInt32) (oldname : String) (newdirfid : UInt32) (newname : String) :
    Keeps f (renameAt fs olddirfid oldname newdirfid newname) :=
  preserves_bind (keeps_fidPath olddirfid) fun _ => preserves_bind (keeps_checkedJoin _ _) fun _ =>
    preserves_bind (keeps_fidPath newdirfid) fun _ => preserves_bind (keeps_checkedJoin _ _) fun _ =>
      preserves_bind (keeps_onFs _) fun _ => preserves_pure _

theorem keeps_unlinkAt (dirfid : UInt32) (name : String) (flags : UInt32) :
    Keeps f (unlinkAt fs dirfid name flags) := by
  refine preserves_bind (keeps_fidPath dirfid) fun _ => preserves_bind (keeps_checkedJoin _ _) fun _ =>
    preserves_bind (keeps_onFs _) fun _ => preserves_bind (keeps_onFs _) fun refused => ?_
  cases refused with
  | some kind => exact preserves_throw _
  | none => exact preserves_bind (keeps_onFs _) fun _ => preserves_pure _

theorem keeps_symlink (fid : UInt32) (name target : String) : Keeps f (symlink fs fid name target) :=
  preserves_bind (keeps_fidPath fid) fun _ => preserves_bind (keeps_checkedJoin _ _) fun _ =>
    preserves_bind (keeps_onFs _) fun _ => preserves_bind (keeps_onFs _) fun _ => preserves_pure _

theorem keeps_readlink (fid : UInt32) : Keeps f (readlink fs fid) :=
  preserves_bind (keeps_fidPath fid) fun _ => preserves_bind (keeps_onFs _) fun _ => preserves_pure _

theorem keeps_fsync {fid : UInt32} (h : f ≠ fid) : Keeps f (fsync fs fid) := by
  refine preserves_bind (keeps_getFid fid) fun st => ?_
  split
  · refine preserves_bind (preserves_attempt (keeps_onFile h st _ _)) fun r => ?_
    split
    · exact preserves_pure _
    · exact preserves_pure _
    · exact preserves_throw _
  · exact preserves_bind (keeps_commitXattr fs _ _) fun _ => preserves_bind (keeps_setFid h _) fun _ =>
      preserves_pure _
  · exact preserves_pure _

theorem keeps_handle {request : NinePRequest} (h : f ∉ touched request) : Keeps f (handle fs request) := by
  cases request with
  | version msize v => exact preserves_bind (preserves_modify fun _ => rfl) fun _ => preserves_pure _
  | attach fid => exact keeps_attach fs (List.ne_of_not_mem_cons h)
  | walk fid newfid names => exact keeps_walk fs (List.ne_of_not_mem_cons h) fid names
  | lopen fid flags => exact keeps_lopen fs (List.ne_of_not_mem_cons h) flags
  | lcreate fid name flags mode gid => exact keeps_lcreate fs (List.ne_of_not_mem_cons h) name flags mode
  | getAttr fid mask => exact keeps_getattr fs (List.ne_of_not_mem_cons h) mask
  | setAttr fid attr => exact keeps_setattr fs fid attr
  | xattrWalk fid newfid name => exact keeps_xattrwalk fs (List.ne_of_not_mem_cons h) fid name
  | xattrCreate fid name size flags => exact keeps_xattrcreate (List.ne_of_not_mem_cons h) name size flags
  | read fid offset count => exact keeps_read fs (List.ne_of_not_mem_cons h) offset count
  | write fid offset data => exact keeps_write fs (List.ne_of_not_mem_cons h) offset data
  | clunk fid => exact preserves_bind (keeps_clunk fs (List.ne_of_not_mem_cons h)) fun _ => preserves_pure _
  | remove fid => exact keeps_remove fs (List.ne_of_not_mem_cons h)
  | mkdir fid name mode gid => exact keeps_mkdir fs fid name mode
  | link fid newdirfid name => exact keeps_link fs fid newdirfid name
  | readdir fid offset count => exact keeps_readdir fs fid offset count
  | renameAt olddirfid oldname newdirfid newname =>
    exact keeps_renameAt fs olddirfid oldname newdirfid newname
  | unlinkAt dirfid name flags => exact keeps_unlinkAt fs dirfid name flags
  | symlink fid name target gid => exact keeps_symlink fs fid name target
  | readlink fid => exact keeps_readlink fs fid
  | fsync fid => exact keeps_fsync fs (List.ne_of_not_mem_cons h)
  | flush oldtag => exact preserves_pure _

/-- The clunked fid is gone, however the close or the commit went. -/
theorem handle_clunk_fids (fid : UInt32) (server : ServerState σ η) :
    (handle fs (.clunk fid) server).2.fids = Function.update server.fids fid none := by
  funext f
  by_cases hf : f = fid
  · subst hf
    rw [Function.update_self]
    have hclunk : (clunk fs f server).2.fids f = none := by
      rw [clunk, bind_of_state (by rw [getFid, get_bind]; cases server.fids f <;> rfl)]
      cases hfid : server.fids f with
      | none =>
        rw [getFid, get_bind, hfid]
        exact hfid
      | some st =>
        rw [getFid_eq_ok.mpr ⟨hfid, rfl⟩]
        exact (keeps_clunkRest fs st _).trans (Function.update_self ..)
    rw [handle, bind_apply]
    rcases hc : clunk fs f server with ⟨_ | e | _, server'⟩ <;> rw [hc] at hclunk <;> exact hclunk
  · rw [Function.update_of_ne hf]
    exact keeps_handle fs (by simpa [touched] using hf) server

end NinePServer
end Star9
