import Star9.Fs.MemAppend
import Star9.Fs.HttpServer

/-!
# The in-memory file system behind the handler

What a request does to the contents of the files that are served, and what the
client learns of it.
-/
namespace Star9
open Base Prog

namespace MemFs
variable {fs fs' : MemFs} {p : String} {id : NodeId}

theorem contents_updateNode {f : NodeInner → NodeInner} (hf : ∀ n, (f n).data = n.data) : (fs.updateNode id f).contents = fs.contents := by
  funext q
  unfold contents coreAt
  rw [updateNode_nodes]
  cases fs.nodes[q]? with
  | none => rfl
  | some i =>
    rw [updateNode_heap]
    by_cases hi : i = id
    · subst hi
      simpa [NodeInner.core] using hf (fs.heap i)
    · simp [Function.update_of_ne hi]

/-- A change to the metadata of a node. -/
theorem preserves_contents_node {op name : String} {f : NodeId → MemFs → NodeInner → NodeInner}
    (hf : ∀ id fs n, (f id fs n).data = n.data) :
    Preserves contents (do
      let id ← nodeOr op name
      let fs ← get
      modify (updateNode id (f id fs)) : Prog MemFs Error Unit) := by
  refine preserves_bind (preserves_nodeOr _ _ _) fun id => preserves_bind preserves_get fun fs => ?_
  exact preserves_modify fun fs' => contents_updateNode (hf id fs)

theorem chmod_contents (name : String) (mode : FileMode) : Preserves contents (chmod name mode) :=
  preserves_contents_node fun _ _ _ => rfl

theorem chown_contents (name : String) (uid gid : UInt32) : Preserves contents (chown name uid gid) :=
  preserves_bind (preserves_nodeOr _ _ _) fun _ => preserves_modify fun _ => contents_updateNode fun _ => rfl

theorem chtimes_contents (name : String) (mtime : SystemTime) : Preserves contents (chtimes name mtime) :=
  preserves_bind (preserves_nodeOr _ _ _) fun _ => preserves_modify fun _ => contents_updateNode fun _ => rfl

/-- A file that was written contains what was written, and no other contents changed. -/
theorem writeFile_contents (hp : validPath p = true) (ha : fs.IdsBelow) {data : Bytes} {perm : FileMode}
    (hok : (memFs.writeFile p data perm fs).1 = .ok ()) (q : String) :
    (memFs.writeFile p data perm fs).2.contents q = if q = p then data else fs.contents q := by
  rw [contents_of_shape (writeFile_ok hp hok)]
  unfold contents
  rw [coreAt_insertNew ha]
  split <;> rfl

/-- A new directory contains nothing. -/
theorem mkdir_contents (ha : fs.IdsBelow) (name : String) (perm : FileMode) : (mkdir name perm fs).2.contents = fs.contents := by
  cases hi : fs.nodes[cleanPath name]? with
  | some id => rw [mkdir_of_exists hi]
  | none =>
    by_cases hpar : (parentExists (cleanPath name) fs).1 = .ok true
    · rw [mkdir_of_parent hi hpar]
      funext q
      rw [contents_of_shape shape_recomputeDirSizes]
      unfold contents
      rw [coreAt_insertNew ha]
      split
      · rename_i heq
        rw [heq, coreAt, hi]
        rfl
      · rfl
    · rw [(mkdir_of_no_parent hi hpar).2]

end MemFs

theorem ignoreUnsupported_preserves {σ β : Type} {obs : σ → β} {p : Prog σ Error Unit} (hp : Preserves obs p) :
    Preserves obs (ignoreUnsupported p) := by
  refine preserves_bind (preserves_attempt hp) fun r => ?_
  cases r with
  | ok _ => exact preserves_pure _
  | error _ => exact preserves_ite (preserves_pure _) (preserves_throw _)

theorem parseRequestTarget_valid (url : String) : validPath (parseRequestTarget url).path = true := by
  unfold parseRequestTarget
  dsimp only
  generalize trim (trimStartSlash _) = cleaned
  split
  · exact validPath_dot
  · exact cleanPath_valid cleaned

theorem responseFromError_status (err : Error) : 400 ≤ (responseFromError err).status := by
  unfold responseFromError
  cases err.errorKind <;> dsimp only <;> decide

namespace HttpFsHandler
variable {h : HttpFsHandler MemFs MemFile} (hfs : h.fsys = memFs) {m : MemFs} {name : String} {request : HttpRequest} {r : HttpResponse}
include hfs

theorem applyMetadataHeaders_contents (name : String) (headers : Headers) :
    Preserves MemFs.contents (applyMetadataHeaders h name headers) := by
  unfold applyMetadataHeaders applyMode applyOwnership applyModified
  rw [hfs]
  refine preserves_bind (MemFs.preserves_stat _ _ _) fun _ => preserves_bind ?_ fun _ => preserves_bind ?_ fun _ => ?_
  · split
    · exact ignoreUnsupported_preserves (MemFs.chmod_contents _ _)
    · exact preserves_pure _
  · split
    · exact ignoreUnsupported_preserves (MemFs.chown_contents _ _ _)
    · exact preserves_pure _
  · split
    · exact preserves_pure _
    · split
      · exact ignoreUnsupported_preserves (MemFs.chtimes_contents _ _)
      · exact preserves_throw _
      · exact preserves_abort

theorem putDirectory_contents (ha : m.IdsBelow) (name : String) (headers : Headers) :
    (putDirectory h name headers m).2.contents = m.contents := by
  unfold putDirectory
  rw [hfs, bind_state, attempt_state]
  · exact MemFs.mkdir_contents ha _ _
  · intro r s
    cases r with
    | ok _ => rfl
    | error err =>
      dsimp only
      rw [branch_apply]
      split
      · rw [bind_state]
        · exact (attempt_state _ s).trans (MemFs.preserves_stat (fun s => s) _ _ s)
        · intro r s
          cases r with
          | ok metadata =>
            dsimp only
            rw [branch_apply]
            split <;> rfl
          | error _ => rfl
      · rfl

/-- A PUT that is answered has put the body at the path, or has touched no contents. -/
theorem handlePut_contents (ha : m.IdsBelow) {target : RequestTarget} (hvalid : validPath target.path = true)
    (htype : headerValue request.headers "Content-Type" = some "application/octet-stream")
    (hok : (handlePut h target.path target.hadTrailingSlash request m).1 = .ok r) (q : String) :
    (handlePut h target.path target.hadTrailingSlash request m).2.contents q =
      if target = ⟨q, false⟩ then request.body else m.contents q := by
  obtain ⟨u, m₁, hput, -⟩ := bind_fst_eq_ok.mp hok
  have hafter : (handlePut h target.path target.hadTrailingSlash request m).2.contents = m₁.contents := by
    unfold handlePut
    rw [bind_ok hput]
    exact preserves_bind (applyMetadataHeaders_contents hfs _ _) (fun _ => preserves_pure _) m₁
  rw [hafter]
  unfold putContents at hput
  rw [htype] at hput
  dsimp only [Option.getD_some] at hput
  rw [if_neg (by decide)] at hput
  cases hslash : target.hadTrailingSlash with
  | true =>
    rw [if_pos (by rw [hslash, Bool.or_true])] at hput
    have hne : target ≠ ⟨q, false⟩ := fun heq => by
      rw [heq] at hslash
      cases hslash
    rw [if_neg hne]
    have hcontents := putDirectory_contents hfs ha target.path request.headers
    rw [hput] at hcontents
    exact congrFun hcontents q
  | false =>
    rw [if_neg (by rw [hslash]; decide)] at hput
    unfold putFile at hput
    rw [hfs] at hput
    have hcontents := MemFs.writeFile_contents hvalid ha (congrArg Prod.fst hput) q
    have hput' := congrArg Prod.snd hput
    dsimp only at hput'
    rw [hput'] at hcontents
    rw [hcontents]
    have htarget : target = ⟨q, false⟩ ↔ q = target.path := by
      constructor
      · rintro rfl
        rfl
      · rintro rfl
        rw [← hslash]
    simp only [htarget]

omit hfs in
/-- A success was not made of an error. -/
theorem dispatch_of_handle (hok : (h.handle request m).1 = .ok r) (hstatus : r.status < 400) :
    dispatch h request m = (.ok r, (h.handle request m).2) := by
  unfold handle at hok ⊢
  rcases hd : dispatch h request m with ⟨r' | err | _, m'⟩
  · rw [bind_ok (attempt_ok hd)] at hok ⊢
    cases hok
    rfl
  · rw [bind_ok (attempt_err hd)] at hok
    cases hok
    have herror := responseFromError_status err
    exact absurd hstatus (UInt16.not_lt.mpr herror)
  · rw [bind_abort (attempt_abort hd)] at hok
    cases hok

omit hfs in
theorem served_append (exchanges : List Exchange) (x : Exchange) :
    h.served m (exchanges ++ [x]) = (h.handle x.request (h.served m exchanges)).2 := by
  unfold served
  rw [List.foldl_append]
  rfl

omit hfs in
theorem handle_of_transport {exchanges : List Exchange} (hanswer : h.transport m exchanges request = .ok r) :
    (h.handle request (h.served m exchanges)).1 = .ok r := by
  unfold transport at hanswer
  split at hanswer
  · rename_i response hresponse
    cases hanswer
    exact hresponse
  · cases hanswer
  · cases hanswer

/-- What a PUT that succeeds does to the contents. -/
theorem handle_put_contents (ha : m.IdsBelow) (hmethod : request.method = .put)
    (htype : headerValue request.headers "Content-Type" = some "application/octet-stream")
    (hok : (h.handle request m).1 = .ok r) (hstatus : r.status ≤ 299) (q : String) :
    (h.handle request m).2.contents q =
      if parseRequestTarget request.url = ⟨q, false⟩ then request.body else m.contents q := by
  have hdispatch := dispatch_of_handle hok (UInt16.lt_of_le_of_lt hstatus (by decide))
  unfold dispatch at hdispatch
  rw [hmethod] at hdispatch
  dsimp only at hdispatch
  have hcontents := handlePut_contents hfs ha (parseRequestTarget_valid request.url) htype
    (congrArg Prod.fst hdispatch) q
  rw [congrArg Prod.snd hdispatch] at hcontents
  exact hcontents

end HttpFsHandler

/-! ## What the client learns -/

namespace HttpFs
variable {transport : HttpTransport} {fs : HttpFs} {name contentType : String} {mode : FileMode} {body : Bytes}

/-- The headers of a PUT at a time, with the time stamp of the change. -/
def putHeaders (contentType : String) (mode : FileMode) (len : Nat) (now changed : SystemTime) : Headers :=
  (∅ : Headers).insert "Content-Type" contentType
    |>.insert "Content-Mode" (formatHttpMode mode)
    |>.insert "Content-Modified" (toString (unixSecs now))
    |>.insert "Content-Ownership" "0:0"
    |>.insert "Content-Length" (toString len)
    |>.insert "Change-Timestamp" (toString (unixMicros changed))

theorem headerValue_putHeaders (contentType : String) (mode : FileMode) (len : Nat) (now changed : SystemTime) :
    headerValue (putHeaders contentType mode len now changed) "Content-Type" = some contentType := by
  apply headerValue_of_unique
  · simp [putHeaders, Std.ExtTreeMap.getElem_insert]
  · intro key hkey hcase
    simp only [putHeaders, Std.ExtTreeMap.mem_insert, compare_eq_iff_eq, Std.ExtTreeMap.not_mem_empty, or_false] at hkey
    revert hcase
    rcases hkey with rfl | rfl | rfl | rfl | rfl | rfl <;> decide +kernel

theorem ok_of_responseStatusResult {response answer : HttpResponse} (h : responseStatusResult name response = .ok answer) :
    answer = response ∧ response.status ≤ 299 := by
  unfold responseStatusResult at h
  split at h
  · rename_i hstatus
    cases h
    exact ⟨rfl, hstatus.2⟩
  · split at h <;> cases h

/-- A PUT that succeeds is one exchange, answered with a success. -/
theorem putNode_exchange (hok : (putNode transport name contentType mode body fs).1 = .ok ()) :
    ∃ request answer, request.method = .put ∧ request.url = fs.buildUrl name ∧ request.body = body ∧
      headerValue request.headers "Content-Type" = some contentType ∧
      transport fs.exchanges request = .ok answer ∧ answer.status ≤ 299 ∧
      (putNode transport name contentType mode body fs).2.exchanges = fs.exchanges ++ [{ request, answer := .ok answer }] := by
  let headers := putHeaders contentType mode body.length (fs.clock fs.ticks) (fs.clock (fs.ticks + 1))
  let request : HttpRequest := { method := .put, url := fs.buildUrl name, headers, body }
  let asked : HttpFs :=
    { fs with ticks := fs.ticks + 2, exchanges := fs.exchanges ++ [{ request, answer := transport fs.exchanges request }] }
  have hput : putNode transport name contentType mode body fs = ((Prog.ofExcept (transport fs.exchanges request) >>= fun response =>
      Prog.ofExcept (responseStatusResult name response)) >>= fun _ => invalidateCacheAfterPut name) asked := rfl
  rw [hput] at hok ⊢
  obtain ⟨answer, s₁, hrequest, -⟩ := bind_fst_eq_ok.mp hok
  rw [bind_ok hrequest]
  obtain ⟨response, s₂, hanswer, hstatus⟩ := bind_eq_ok.mp hrequest
  obtain ⟨hresponse, rfl⟩ := ofExcept_eq_ok.mp hanswer
  obtain ⟨hsuccess, rfl⟩ := ofExcept_eq_ok.mp hstatus
  obtain ⟨rfl, hle⟩ := ok_of_responseStatusResult hsuccess
  refine ⟨request, answer, rfl, rfl, rfl, headerValue_putHeaders _ _ _ _ _, hresponse, hle, ?_⟩
  show asked.exchanges = _
  rw [show asked.exchanges = fs.exchanges ++ [{ request, answer := transport fs.exchanges request }] from rfl, hresponse]

end HttpFs
end Star9
