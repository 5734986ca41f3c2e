import Star9.Protocol.Client
import Star9.Protocol.Codec
import Star9.Protocol.FrameSize

/-!
# Calls over the loopback transport

Over the loopback the codec drops out of a call: a request that can be encoded
reaches the handler as it is, and an answer that can be encoded comes back as it
is. What a walk does to the fid table is read off from the names it resolves.
-/
namespace Star9
open Base Prog

/-! ## Messages that can be encoded -/

def requestFits (request : NinePRequest) : Bool :=
  match encodeRequestBody request with
  | .ok (_, body) => 7 + body.length < 2 ^ 32
  | .error _ => false

def responseFits (response : NinePResponse) : Bool :=
  match encodeResponseBody response with
  | .ok (_, body) => 7 + body.length < 2 ^ 32
  | .error _ => false

theorem encodeFrame_of_lt {body : Bytes} (h : 7 + body.length < 2 ^ 32) (typ : UInt8) (tag : UInt16) :
    ∃ frame, encodeFrame typ tag body = .ok frame := by
  simp only [encodeFrame, if_pos h]
  exact ⟨_, rfl⟩

theorem encodeFrame_of_ge {body : Bytes} (h : ¬ 7 + body.length < 2 ^ 32) (typ : UInt8) (tag : UInt16) :
    ∃ e, encodeFrame typ tag body = .error e := by
  simp only [encodeFrame, if_neg h]
  exact ⟨_, rfl⟩

theorem encodeRequest_of_fits {request : NinePRequest} (h : requestFits request = true) (tag : UInt16) :
    ∃ frame, encodeRequest tag request = .ok frame := by
  unfold requestFits at h
  unfold encodeRequest
  cases hb : encodeRequestBody request with
  | error e => rw [hb] at h; cases h
  | ok b =>
    rw [hb] at h
    exact encodeFrame_of_lt (of_decide_eq_true h) b.1 tag

theorem encodeRequest_of_not_fits {request : NinePRequest} (h : requestFits request = false) (tag : UInt16) :
    ∃ e, encodeRequest tag request = .error e := by
  unfold requestFits at h
  unfold encodeRequest
  cases hb : encodeRequestBody request with
  | error e => exact ⟨e, rfl⟩
  | ok b =>
    rw [hb] at h
    exact encodeFrame_of_ge (of_decide_eq_false h) b.1 tag

theorem encodeResponse_of_fits {response : NinePResponse} (h : responseFits response = true) (tag : UInt16) :
    ∃ frame, encodeResponse tag response = .ok frame := by
  unfold responseFits at h
  unfold encodeResponse
  cases hb : encodeResponseBody response with
  | error e => rw [hb] at h; cases h
  | ok b =>
    rw [hb] at h
    exact encodeFrame_of_lt (of_decide_eq_true h) b.1 tag

theorem encodeResponse_of_not_fits {response : NinePResponse} (h : responseFits response = false)
    (tag : UInt16) : ∃ e, encodeResponse tag response = .error e := by
  unfold responseFits at h
  unfold encodeResponse
  cases hb : encodeResponseBody response with
  | error e => exact ⟨e, rfl⟩
  | ok b =>
    rw [hb] at h
    exact encodeFrame_of_ge (of_decide_eq_false h) b.1 tag

/-! ## Server states -/

namespace ServerState
variable {σ η : Type}

def setFsys (server : ServerState σ η) (fsys : σ) : ServerState σ η := { server with fsys }

def setFid (server : ServerState σ η) (fid : UInt32) (st : Option (FidState η)) : ServerState σ η :=
  { server with fids := Function.update server.fids fid st }

@[simp] theorem setFsys_fids (server : ServerState σ η) (fsys : σ) : (server.setFsys fsys).fids = server.fids :=
  rfl

@[simp] theorem setFsys_fsys (server : ServerState σ η) (fsys : σ) : (server.setFsys fsys).fsys = fsys := rfl

@[simp] theorem setFid_fids (server : ServerState σ η) (fid : UInt32) (st : Option (FidState η)) :
    (server.setFid fid st).fids = Function.update server.fids fid st := rfl

@[simp] theorem setFid_fsys (server : ServerState σ η) (fid : UInt32) (st : Option (FidState η)) :
    (server.setFid fid st).fsys = server.fsys := rfl

@[simp] theorem setFid_setFid (server : ServerState σ η) (fid : UInt32) (st st' : Option (FidState η)) :
    (server.setFid fid st).setFid fid st' = server.setFid fid st' := by
  simp [setFid]

@[simp] theorem setFsys_setFsys (server : ServerState σ η) (fsys fsys' : σ) :
    (server.setFsys fsys).setFsys fsys' = server.setFsys fsys' := rfl

/-- Clearing a fid that is free changes nothing. -/
theorem setFid_free {server : ServerState σ η} {fid : UInt32} (h : server.fids fid = none) :
    server.setFid fid none = server := by
  rw [setFid, ← h, Function.update_eq_self]

end ServerState

/-! ## A call -/

/-- A client with the server it talks to. -/
abbrev Session (σ η : Type) := ClientState (ServerState σ η)

namespace Session
variable {σ η : Type}

def retag (s : Session σ η) : Session σ η := (NinePClientFs.allocTag s).2

def withServer (s : Session σ η) (server : ServerState σ η) : Session σ η := { s with transport := server }

@[simp] theorem retag_transport (s : Session σ η) : s.retag.transport = s.transport := by
  unfold retag NinePClientFs.allocTag
  split <;> rfl

@[simp] theorem retag_nextFid (s : Session σ η) : s.retag.nextFid = s.nextFid := by
  unfold retag NinePClientFs.allocTag
  split <;> rfl

@[simp] theorem retag_msize (s : Session σ η) : s.retag.msize = s.msize := by
  unfold retag NinePClientFs.allocTag
  split <;> rfl

@[simp] theorem withServer_transport (s : Session σ η) (server : ServerState σ η) :
    (s.withServer server).transport = server := rfl

@[simp] theorem withServer_nextFid (s : Session σ η) (server : ServerState σ η) :
    (s.withServer server).nextFid = s.nextFid := rfl

@[simp] theorem withServer_msize (s : Session σ η) (server : ServerState σ η) :
    (s.withServer server).msize = s.msize := rfl

/-- Up to its tags, the session after `k` fids were taken and the server went on
to `server`. -/
structure Next (s : Session σ η) (k : UInt32) (server : ServerState σ η) (s' : Session σ η) : Prop where
  transport : s'.transport = server
  nextFid : s'.nextFid = s.nextFid + k
  msize : s'.msize = s.msize

theorem next_withServer (s : Session σ η) (server : ServerState σ η) :
    Next s 0 server (s.retag.withServer server) where
  transport := rfl
  nextFid := by simp
  msize := by simp

theorem Next.trans {s s₁ s₂ : Session σ η} {k k₁ : UInt32} {server server₁ : ServerState σ η}
    (h : Next s k server s₁) (h₁ : Next s₁ k₁ server₁ s₂) : Next s (k + k₁) server₁ s₂ where
  transport := h₁.transport
  nextFid := by rw [h₁.nextFid, h.nextFid, UInt32.add_assoc]
  msize := h₁.msize.trans h.msize

end Session

namespace NinePClientFs
open NinePServer
variable {σ η : Type} (fs : FileSystem σ η)

theorem allocTag_eq (s : Session σ η) : ∃ tag, allocTag s = (.ok tag, s.retag) := by
  unfold Session.retag allocTag
  split
  · exact ⟨_, rfl⟩
  · exact ⟨_, rfl⟩

section Call
variable {request : NinePRequest} {s : Session σ η}

theorem call_of_not_fits (h : requestFits request = false) (s : Session σ η) :
    ∃ e, call (loopbackTransport fs) request s = (.err e, s.retag) := by
  obtain ⟨tag, htag⟩ := allocTag_eq s
  obtain ⟨e, he⟩ := encodeRequest_of_not_fits h tag
  exact ⟨e, by rw [call, bind_ok htag, he]; rfl⟩

/-- A request that can be encoded reaches the handler, and its answer is encoded. -/
theorem call_of_fits (h : requestFits request = true) (s : Session σ η) : ∃ tag,
    call (loopbackTransport fs) request s =
      match respond fs request s.transport with
      | (.ok r, server) => match encodeResponse tag r with
        | .ok _ => received r (s.retag.withServer server)
        | .error e => (.err e, s.retag.withServer server)
      | (.err e, server) => (.err e, s.retag.withServer server)
      | (.abort, server) => (.abort, s.retag.withServer server) := by
  obtain ⟨tag, htag⟩ := allocTag_eq s
  obtain ⟨frame, hframe⟩ := encodeRequest_of_fits h tag
  refine ⟨tag, ?_⟩
  rw [call, bind_ok htag, hframe, ofExcept_ok, bind_ok (pure_apply _ _), bind_apply]
  have hround : onTransport ((loopbackTransport fs).roundTrip frame) s.retag =
      ((handleFrame fs frame s.transport).1, s.retag.withServer (handleFrame fs frame s.transport).2) := by
    rw [onTransport, zoom_apply, Session.retag_transport]
    rfl
  have hserve : handleFrame fs frame s.transport =
      (respond fs request >>= fun r => Prog.ofExcept (encodeResponse tag r)) s.transport := by
    rw [handleFrame, encodeRequest_eq_ok_iff.mp hframe]
    rfl
  rw [hround, hserve, bind_apply]
  rcases respond fs request s.transport with ⟨r | e | _, server⟩
  · cases hr : encodeResponse tag r with
    | error e => simp only [hr, ofExcept_error, throw_apply]
    | ok reply =>
      simp only [hr, ofExcept_ok, pure_apply]
      rw [encodeResponse_eq_ok_iff.mp hr, ofExcept_ok, bind_ok (pure_apply _ _)]
      simp only [ne_eq, not_true_eq_false, if_false]
  · rfl
  · rfl

theorem respond_of_ok {server : ServerState σ η} {r : NinePResponse} {server' : ServerState σ η}
    (h : handle fs request server = (.ok r, server')) : respond fs request server = (.ok r, server') := by
  rw [respond, bind_ok (attempt_ok h)]
  rfl

theorem respond_of_err {server : ServerState σ η} {e : Error} {server' : ServerState σ η}
    (h : handle fs request server = (.err e, server')) :
    respond fs request server = (.ok (.lerror (errnoForError e)), server') := by
  rw [respond, bind_ok (attempt_err h)]
  rfl

theorem respond_of_abort {server server' : ServerState σ η}
    (h : handle fs request server = (.abort, server')) : respond fs request server = (.abort, server') := by
  rw [respond, bind_abort (attempt_abort h)]

theorem call_of_ok (h : requestFits request = true) {r : NinePResponse} {server : ServerState σ η}
    (hh : handle fs request s.transport = (.ok r, server)) (hr : responseFits r = true) :
    call (loopbackTransport fs) request s = received r (s.retag.withServer server) := by
  obtain ⟨tag, hcall⟩ := call_of_fits fs h s
  obtain ⟨reply, hreply⟩ := encodeResponse_of_fits hr tag
  rw [hcall, respond_of_ok fs hh]
  simp only [hreply]

theorem call_of_unfit_reply (h : requestFits request = true) {r : NinePResponse} {server : ServerState σ η}
    (hh : handle fs request s.transport = (.ok r, server)) (hr : responseFits r = false) :
    ∃ e, call (loopbackTransport fs) request s = (.err e, s.retag.withServer server) := by
  obtain ⟨tag, hcall⟩ := call_of_fits fs h s
  obtain ⟨e, he⟩ := encodeResponse_of_not_fits hr tag
  refine ⟨e, ?_⟩
  rw [hcall, respond_of_ok fs hh]
  simp only [he]

theorem call_of_err (h : requestFits request = true) {e : Error} {server : ServerState σ η}
    (hh : handle fs request s.transport = (.err e, server)) :
    call (loopbackTransport fs) request s =
      (.err (errnoToError (errnoForError e)), s.retag.withServer server) := by
  obtain ⟨tag, hcall⟩ := call_of_fits fs h s
  obtain ⟨reply, hreply⟩ := encodeResponse_of_fits
    (show responseFits (.lerror (errnoForError e)) = true by
      simp only [responseFits, encodeResponseBody, putU32_length]; rfl) tag
  rw [hcall, respond_of_err fs hh]
  simp only [hreply]
  rfl

theorem call_of_abort (h : requestFits request = true) {server : ServerState σ η}
    (hh : handle fs request s.transport = (.abort, server)) :
    call (loopbackTransport fs) request s = (.abort, s.retag.withServer server) := by
  obtain ⟨tag, hcall⟩ := call_of_fits fs h s
  rw [hcall, respond_of_abort fs hh]

theorem received_state (r : NinePResponse) (s : Session σ η) : (received r s).2 = s := by
  cases r <;> rfl

theorem received_fst_eq_ok {r r' : NinePResponse} {s : Session σ η} (h : (received r s).1 = .ok r') :
    r' = r := by
  cases r <;> cases h <;> rfl

/-- The handler ran, and a value came from the handler. -/
theorem call_state (h : requestFits request = true) (s : Session σ η) :
    (call (loopbackTransport fs) request s).2 = s.retag.withServer (handle fs request s.transport).2 ∧
      ∀ r, (call (loopbackTransport fs) request s).1 = .ok r → (handle fs request s.transport).1 = .ok r := by
  rcases hh : handle fs request s.transport with ⟨r | e | _, server⟩
  · cases hr : responseFits r with
    | true =>
      rw [call_of_ok fs h hh hr]
      exact ⟨received_state r _, fun r' hr' => congrArg Outcome.ok (received_fst_eq_ok hr').symm⟩
    | false =>
      obtain ⟨e, he⟩ := call_of_unfit_reply fs h hh hr
      rw [he]
      exact ⟨rfl, nofun⟩
  · rw [call_of_err fs h hh]
    exact ⟨rfl, nofun⟩
  · rw [call_of_abort fs h hh]
    exact ⟨rfl, nofun⟩

/-- Either nothing was sent, or the handler ran. -/
theorem call_cases (request : NinePRequest) (s : Session σ η) :
    ((call (loopbackTransport fs) request s).2 = s.retag ∧
      ∃ e, (call (loopbackTransport fs) request s).1 = .err e) ∨
    ((call (loopbackTransport fs) request s).2 = s.retag.withServer (handle fs request s.transport).2 ∧
      ∀ r, (call (loopbackTransport fs) request s).1 = .ok r → (handle fs request s.transport).1 = .ok r) := by
  cases hfits : requestFits request with
  | false =>
    obtain ⟨e, he⟩ := call_of_not_fits fs hfits s
    exact Or.inl ⟨by rw [he], e, by rw [he]⟩
  | true => exact Or.inr (call_state fs hfits s)

/-- What the handler keeps is kept by the call. -/
theorem preserves_call {β : Type} {obs : ServerState σ η → β} (h : Preserves obs (handle fs request)) :
    Preserves (fun s : Session σ η => obs s.transport) (call (loopbackTransport fs) request) := by
  intro s
  rcases call_cases fs request s with ⟨hs, -⟩ | ⟨hs, -⟩
  · rw [hs]
    exact congrArg obs s.retag_transport
  · rw [hs]
    exact h s.transport

theorem safe_call {I : ServerState σ η → Prop} {V : NinePResponse → Prop} (h : Safe I V (handle fs request)) :
    Safe (fun s : Session σ η => I s.transport) V (call (loopbackTransport fs) request) := by
  intro s hs
  rcases call_cases fs request s with ⟨hstate, e, he⟩ | ⟨hstate, hval⟩
  · rw [hstate, he]
    have hI : I s.retag.transport := by rwa [Session.retag_transport]
    exact ⟨hI, nofun⟩
  · rw [hstate]
    exact ⟨(h s.transport hs).1, fun r hr => (h s.transport hs).2 r (hval r hr)⟩

theorem call_nextFid (request : NinePRequest) (s : Session σ η) :
    (call (loopbackTransport fs) request s).2.nextFid = s.nextFid := by
  rcases call_cases fs request s with ⟨hs, -⟩ | ⟨hs, -⟩ <;> rw [hs] <;> simp

end Call

/-- The work comes first; the clunk is done unless the work panics. -/
theorem thenClunk_apply {τ α : Type} (t : NinePTransport τ) (fid : UInt32)
    (p : Prog (ClientState τ) Error α) (s : ClientState τ) :
    thenClunk t fid p s = match p s with
      | (.ok a, s₁) => match clunkFid t fid s₁ with
        | (.ok (), s₂) => (.ok a, s₂)
        | (.err e, s₂) => (.err e, s₂)
        | (.abort, s₂) => (.abort, s₂)
      | (.err e, s₁) => match clunkFid t fid s₁ with
        | (.abort, s₂) => (.abort, s₂)
        | (_, s₂) => (.err e, s₂)
      | (.abort, s₁) => (.abort, s₁) := by
  rw [thenClunk, bind_apply, attempt]
  rcases p s with ⟨a | e | _, s₁⟩
  · simp only [bind_apply, attempt]
    rcases clunkFid t fid s₁ with ⟨_ | e | _, s₂⟩ <;> rfl
  · simp only [bind_apply, attempt]
    rcases clunkFid t fid s₁ with ⟨_ | e | _, s₂⟩ <;> rfl
  · rfl

theorem thenClunk_state {τ α : Type} {t : NinePTransport τ} {fid : UInt32} {p : Prog (ClientState τ) Error α}
    {s : ClientState τ} (hret : (thenClunk t fid p s).1.returned = true) :
    (p s).1.returned = true ∧ (thenClunk t fid p s).2 = (clunkFid t fid (p s).2).2 := by
  rw [thenClunk_apply] at hret ⊢
  rcases hp : p s with ⟨a | e | _, s₁⟩
  · refine ⟨rfl, ?_⟩
    rcases hc : clunkFid t fid s₁ with ⟨_ | e | _, s₂⟩ <;> simp only [hc]
  · refine ⟨rfl, ?_⟩
    rcases hc : clunkFid t fid s₁ with ⟨_ | e | _, s₂⟩ <;> simp only [hc]
  · rw [hp] at hret
    cases hret

/-! ## A walk -/

/-- Look up every name below a path, in order. -/
def resolveNames : String → List String → Prog σ Error Unit
  | _, [] => pure ()
  | path, name :: names => do
    let _ ← qidFor fs (walkJoin path name)
    resolveNames (walkJoin path name) names

theorem hasSlash_of_validName {name : String} (h : ValidName name) : (hasSlash name || name = "") = false := by
  simp [hasSlash, h.1, h.2.2.2]

/-- The loop of the server gives up on the first missing name, and fails only if
nothing was found before it. -/
theorem walkLoop_cons {name : String} (hname : ValidName name) (names : List String) (path : String)
    (qids : List Qid) (server : ServerState σ η) :
    walkLoop fs path qids (name :: names) server =
      match qidFor fs (walkJoin path name) server.fsys with
      | (.ok qid, fsys) => walkLoop fs (walkJoin path name) (qids ++ [qid]) names (server.setFsys fsys)
      | (.err e, fsys) =>
        if qids.isEmpty then (.err e, server.setFsys fsys) else (.ok (path, qids), server.setFsys fsys)
      | (.abort, fsys) => (.abort, server.setFsys fsys) := by
  rw [walkLoop, if_neg (by rw [hasSlash_of_validName hname]; exact Bool.false_ne_true), onFs_attempt,
    bind_apply, onFs, zoom_apply, attempt]
  rcases qidFor fs (walkJoin path name) server.fsys with ⟨qid | e | _, fsys⟩
  · rfl
  · simp only [branch_apply]
    rfl
  · rfl

theorem walkLoop_of_ok {names : List String} (hnames : ∀ n ∈ names, ValidName n) {path : String}
    (qids : List Qid) (server : ServerState σ η) {fsys : σ}
    (h : resolveNames fs path names server.fsys = (.ok (), fsys)) :
    ∃ found, found.length = names.length ∧ walkLoop fs path qids names server =
      (.ok (names.foldl walkJoin path, qids ++ found), server.setFsys fsys) := by
  induction names generalizing path qids server with
  | nil =>
    cases h
    exact ⟨[], rfl, by rw [List.append_nil]; rfl⟩
  | cons name names ih =>
    rw [resolveNames, bind_eq_ok] at h
    obtain ⟨qid, fsys₁, hqid, h⟩ := h
    obtain ⟨found, hlen, hloop⟩ := ih (fun n hn => hnames n (List.mem_cons_of_mem _ hn)) (qids ++ [qid])
      (server.setFsys fsys₁) h
    refine ⟨qid :: found, by rw [List.length_cons, List.length_cons, hlen], ?_⟩
    rw [walkLoop_cons fs (hnames name List.mem_cons_self), hqid]
    simp only [hloop, ServerState.setFsys_setFsys, List.append_assoc, List.singleton_append, List.foldl_cons]

theorem walkLoop_of_err {names : List String} (hnames : ∀ n ∈ names, ValidName n) {path : String}
    (qids : List Qid) (server : ServerState σ η) {fsys : σ} {e : Error}
    (h : resolveNames fs path names server.fsys = (.err e, fsys)) :
    (∃ e', walkLoop fs path qids names server = (.err e', server.setFsys fsys)) ∨
    ∃ path' found, found.length < names.length ∧ walkLoop fs path qids names server =
      (.ok (path', qids ++ found), server.setFsys fsys) := by
  induction names generalizing path qids server with
  | nil => cases h
  | cons name names ih =>
    rw [walkLoop_cons fs (hnames name List.mem_cons_self)]
    rw [resolveNames, bind_apply] at h
    rcases hq : qidFor fs (walkJoin path name) server.fsys with ⟨qid | e₁ | _, fsys₁⟩
    · rw [hq] at h
      have hrest := ih (fun n hn => hnames n (List.mem_cons_of_mem _ hn)) (qids ++ [qid])
        (server.setFsys fsys₁) h
      rcases hrest with ⟨e', hloop⟩ | ⟨path', found, hlen, hloop⟩
      · exact Or.inl ⟨e', hloop⟩
      · refine Or.inr ⟨path', qid :: found, by simpa using hlen, ?_⟩
        simp only [hloop, ServerState.setFsys_setFsys, List.append_assoc, List.singleton_append]
    · rw [hq] at h
      cases h
      cases qids with
      | nil => exact Or.inl ⟨e, rfl⟩
      | cons q qids => exact Or.inr ⟨path, [], Nat.succ_pos _, by rw [List.append_nil]; rfl⟩
    · rw [hq] at h
      cases h

theorem walkLoop_of_abort {names : List String} (hnames : ∀ n ∈ names, ValidName n) {path : String}
    (qids : List Qid) (server : ServerState σ η) {fsys : σ}
    (h : resolveNames fs path names server.fsys = (.abort, fsys)) :
    walkLoop fs path qids names server = (.abort, server.setFsys fsys) := by
  induction names generalizing path qids server with
  | nil => cases h
  | cons name names ih =>
    rw [walkLoop_cons fs (hnames name List.mem_cons_self)]
    rw [resolveNames, bind_apply] at h
    rcases hq : qidFor fs (walkJoin path name) server.fsys with ⟨qid | e₁ | _, fsys₁⟩
    · rw [hq] at h
      exact ih (fun n hn => hnames n (List.mem_cons_of_mem _ hn)) (qids ++ [qid])
        (server.setFsys fsys₁) h
    · rw [hq] at h
      cases h
    · rw [hq] at h
      cases h
      rfl

def walkFits (names : List String) : Bool := requestFits (.walk rootFid 0 names)

theorem requestFits_iff {request : NinePRequest} : requestFits request = true ↔
    ∃ typ body, encodeRequestBody request = .ok (typ, body) ∧ 7 + body.length < 2 ^ 32 := by
  unfold requestFits
  cases hb : encodeRequestBody request with
  | error e => simp
  | ok b => simp [Prod.ext_iff]

theorem requestFits_walk_iff {fid newfid : UInt32} {names : List String} :
    requestFits (.walk fid newfid names) = true ↔ names.length < 2 ^ 16 ∧ (∀ n ∈ names, StringFits n) ∧
      17 + (names.flatMap encodeString).length < 2 ^ 32 := by
  rw [requestFits_iff]
  simp only [encodeRequestBody, except_bind_eq_ok, putCount_eq_ok, putStrings_eq_ok, Except.ok.injEq,
    Prod.mk.injEq]
  constructor
  · rintro ⟨_, _, ⟨_, ⟨hlen, rfl⟩, _, ⟨hnames, rfl⟩, -, rfl⟩, hsize⟩
    simp only [List.length_append, putU32_length, putU16_length] at hsize
    exact ⟨hlen, hnames, by omega⟩
  · rintro ⟨hlen, hnames, hsize⟩
    refine ⟨_, _, ⟨_, ⟨hlen, rfl⟩, _, ⟨hnames, rfl⟩, rfl, rfl⟩, ?_⟩
    simp only [List.length_append, putU32_length, putU16_length]
    omega

theorem requestFits_walk (fid newfid : UInt32) (names : List String) :
    requestFits (.walk fid newfid names) = walkFits names := by
  rw [Bool.eq_iff_iff, walkFits, requestFits_walk_iff, requestFits_walk_iff]

theorem responseFits_walk {names : List String} (h : walkFits names = true) {qids : List Qid}
    (hlen : qids.length ≤ names.length) : responseFits (.walk qids) = true := by
  have hcount := (requestFits_walk_iff.mp h).1
  have hok : putCount qids.length = .ok (putU16 (UInt16.ofNat qids.length)) :=
    putCount_eq_ok.mpr ⟨by omega, rfl⟩
  simp only [responseFits, encodeResponseBody, hok, except_ok_bind, List.length_append, putU16_length,
    flatMap_encodeQid_length, decide_eq_true_eq]
  omega

theorem handle_clunk_unopened {fid : UInt32} {path : String} {server : ServerState σ η}
    (h : server.fids fid = some (.unopened path)) :
    handle fs (.clunk fid) server =
      (.ok .clunk, server.setFid fid none) := by
  rw [handle, clunk, bind_apply, bind_ok (getFid_eq_ok.mpr ⟨h, rfl⟩), setFid, modify_bind]
  rfl

theorem clunkFid_unopened {fid : UInt32} {path : String} {s : Session σ η}
    (h : s.transport.fids fid = some (.unopened path)) :
    clunkFid (loopbackTransport fs) fid s = (.ok (),
      s.retag.withServer (s.transport.setFid fid none)) := by
  have hcall := call_of_ok fs (show requestFits (.clunk fid) = true from rfl) (handle_clunk_unopened fs h) rfl
  rw [clunkFid, bind_ok (hcall.trans rfl)]
  rfl

theorem walkBase_of_free {fid newfid : UInt32} {root : FidState η} {server : ServerState σ η}
    (hroot : server.fids fid = some root) (hfree : server.fids newfid = none) :
    walkBase fid newfid server = (.ok root.path, server) := by
  rw [walkBase, get_bind, hfree, if_neg (by simp)]
  exact fidPath_eq_ok.mpr ⟨root, hroot, rfl, rfl⟩

section Walk
variable {names : List String} {server : ServerState σ η} {root : FidState η} {newfid : UInt32} {fsys : σ}

theorem handle_walk_of_ok (hnames : ∀ n ∈ names, ValidName n) (hroot : server.fids rootFid = some root)
    (hfree : server.fids newfid = none)
    (h : resolveNames fs root.path names server.fsys = (.ok (), fsys)) :
    ∃ found, found.length = names.length ∧ handle fs (.walk rootFid newfid names) server =
      (.ok (.walk found), (server.setFsys fsys).setFid newfid
        (some (.unopened (names.foldl walkJoin root.path)))) := by
  obtain ⟨found, hlen, hloop⟩ := walkLoop_of_ok fs hnames [] server h
  refine ⟨found, hlen, ?_⟩
  rw [handle, walk, bind_ok (walkBase_of_free hroot hfree), bind_ok hloop]
  rfl

theorem handle_walk_of_err (hnames : ∀ n ∈ names, ValidName n) (hroot : server.fids rootFid = some root)
    (hfree : server.fids newfid = none) {e : Error}
    (h : resolveNames fs root.path names server.fsys = (.err e, fsys)) :
    (∃ e', handle fs (.walk rootFid newfid names) server = (.err e', server.setFsys fsys)) ∨
    ∃ path found, found.length < names.length ∧ handle fs (.walk rootFid newfid names) server =
      (.ok (.walk found), (server.setFsys fsys).setFid newfid (some (.unopened path))) := by
  rw [handle, walk, bind_ok (walkBase_of_free hroot hfree)]
  rcases walkLoop_of_err fs hnames [] server h with ⟨e', hloop⟩ | ⟨path, found, hlen, hloop⟩
  · exact Or.inl ⟨e', bind_err hloop⟩
  · refine Or.inr ⟨path, found, hlen, ?_⟩
    rw [bind_ok hloop]
    rfl

theorem handle_walk_of_abort (hnames : ∀ n ∈ names, ValidName n) (hroot : server.fids rootFid = some root)
    (hfree : server.fids newfid = none) (h : resolveNames fs root.path names server.fsys = (.abort, fsys)) :
    handle fs (.walk rootFid newfid names) server = (.abort, server.setFsys fsys) := by
  rw [handle, walk, bind_ok (walkBase_of_free hroot hfree)]
  exact bind_abort (walkLoop_of_abort fs hnames [] server h)

theorem handle_walk_of_no_root (names : List String) (hroot : server.fids rootFid = none) (hfree : server.fids newfid = none) :
    handle fs (.walk rootFid newfid names) server = (.err (.kind .invalid), server) := by
  have hbase : walkBase rootFid newfid server = (.err (.kind .invalid), server) := by
    rw [walkBase, get_bind, hfree, if_neg (by simp), fidPath, bind_err]
    rw [getFid, get_bind, hroot]
    rfl
  rw [handle, walk, bind_err hbase]

end Walk

/-- How the walk to a path goes on the backing file system. -/
def walkOutcome (path : String) (s : Session σ η) : Outcome Error Unit × σ :=
  match s.transport.fids rootFid, walkFits (walkNames path) with
  | some root, true => resolveNames fs root.path (walkNames path) s.transport.fsys
  | _, _ => (.err (.kind .invalid), s.transport.fsys)

theorem validatedClientPath_of_valid (op : String) {path : String} (h : validPath path = true) :
    validatedClientPath op path = .ok path := by
  have hguard : (path = "" || startsWithSlash path || (splitSlash path).any (· == "..")) = false := by
    rcases validPath_iff.mp h with rfl | hnames
    · decide
    · have hempty : path ≠ "" := by
        rintro rfl
        exact (hnames "" (by decide)).1 rfl
      have hslash : startsWithSlash path = false := by
        by_contra hs
        exact (hnames "" (head_splitSlash_of_startsWithSlash (by simpa using hs))).1 rfl
      have hdots : (splitSlash path).any (· == "..") = false := by
        rw [List.any_eq_false]
        intro c hc
        simpa using (hnames c hc).2.2.1
      simp [hempty, hslash, hdots]
  rw [validatedClientPath, hguard, cleanPath_of_valid h, h]
  rfl

theorem validatedClientPath_valid {op name path : String} (h : validatedClientPath op name = .ok path) :
    validPath path = true := by
  unfold validatedClientPath at h
  split at h
  · cases h
  · split at h
    · cases h
    · cases h
      exact cleanPath_valid name

theorem walkNames_valid {path : String} (h : validPath path = true) : ∀ n ∈ walkNames path, ValidName n :=
  fun _ hn => validName_of_mem_components h hn

section WalkFid
variable {path : String} {s : Session σ η} {fsys : σ}

/-- The session with the first free fid taken. -/
def takeFid (s : Session σ η) : Session σ η := { s with nextFid := s.nextFid + 1 }

theorem walkFid_eq (hp : validPath path = true) (s : Session σ η) :
    walkFid (loopbackTransport fs) path s =
      (call (loopbackTransport fs) (.walk rootFid s.nextFid (walkNames path)) >>=
        walked (loopbackTransport fs) s.nextFid path (walkNames path).length) (takeFid s) := by
  rw [walkFid, validatedClientPath_of_valid "walk" hp]
  rfl

theorem next_takeFid (s : Session σ η) : Session.Next s 1 s.transport (takeFid s) := ⟨rfl, rfl, rfl⟩

/-- A complete walk puts the first free fid on the path. -/
theorem walkFid_of_ok (hp : validPath path = true) (hfree : s.transport.fids s.nextFid = none)
    (h : walkOutcome fs path s = (.ok (), fsys)) :
    ∃ root s', s.transport.fids rootFid = some root ∧
      walkFid (loopbackTransport fs) path s = (.ok s.nextFid, s') ∧
      s.Next 1 ((s.transport.setFsys fsys).setFid s.nextFid
        (some (.unopened ((walkNames path).foldl walkJoin root.path)))) s' := by
  unfold walkOutcome at h
  split at h
  next root hroot hfits =>
    obtain ⟨found, hlen, hwalk⟩ := handle_walk_of_ok fs (walkNames_valid hp) hroot hfree h
    have hcall := call_of_ok fs ((requestFits_walk _ _ _).trans hfits)
      (show handle fs _ (takeFid s).transport = _ from hwalk) (responseFits_walk hfits hlen.le)
    refine ⟨root, _, hroot, ?_, (next_takeFid s).trans (Session.next_withServer (takeFid s) _)⟩
    rw [walkFid_eq fs hp, bind_ok (hcall.trans rfl), walked, if_pos hlen]
    rfl
  next => cases h

/-- A walk that stops early gives its fid back. -/
theorem clunkAndThrow_of_unopened (α : Type) {fid : UInt32} {p : String} {s : Session σ η}
    (h : s.transport.fids fid = some (.unopened p)) (e : Error) :
    ∃ s', (clunkAndThrow (loopbackTransport fs) fid e : Prog _ _ α) s = (.err e, s') ∧
      s.Next 0 (s.transport.setFid fid none) s' := by
  have hclunk := clunkFid_unopened fs h
  refine ⟨_, ?_, Session.next_withServer s _⟩
  rw [clunkAndThrow, bind_ok (attempt_ok hclunk)]
  rfl

/-- Any other walk leaves the fid table as it was. -/
theorem walkFid_of_err (hp : validPath path = true) (hfree : s.transport.fids s.nextFid = none) {e : Error}
    (h : walkOutcome fs path s = (.err e, fsys)) :
    ∃ e' s', walkFid (loopbackTransport fs) path s = (.err e', s') ∧
      s.Next 1 (s.transport.setFsys fsys) s' := by
  rw [walkFid_eq fs hp]
  unfold walkOutcome at h
  split at h
  next root hroot hfits =>
    have hfits' := (requestFits_walk rootFid s.nextFid _).trans hfits
    rcases handle_walk_of_err fs (walkNames_valid hp) hroot hfree h with ⟨e', hwalk⟩ | ⟨p, found, hlen, hwalk⟩
    · have hcall := call_of_err fs hfits' (show handle fs _ (takeFid s).transport = _ from hwalk)
      exact ⟨_, _, bind_err hcall, (next_takeFid s).trans (Session.next_withServer (takeFid s) _)⟩
    · have hcall := call_of_ok fs hfits' (show handle fs _ (takeFid s).transport = _ from hwalk)
        (responseFits_walk hfits hlen.le)
      have hfid : ((takeFid s).retag.withServer ((s.transport.setFsys fsys).setFid s.nextFid
          (some (.unopened p)))).transport.fids s.nextFid = some (.unopened p) := Function.update_self ..
      obtain ⟨s', hthrow, hnext⟩ :=
        clunkAndThrow_of_unopened fs UInt32 hfid (.path "walk" path .notFound)
      refine ⟨.path "walk" path .notFound, s', ?_, ?_⟩
      · rw [bind_ok (hcall.trans rfl), walked, if_neg hlen.ne]
        exact hthrow
      · have hall := ((next_takeFid s).trans (Session.next_withServer (takeFid s) _)).trans hnext
        have hfree' : (s.transport.setFsys fsys).fids s.nextFid = none := hfree
        rwa [Session.withServer_transport, ServerState.setFid_setFid, ServerState.setFid_free hfree'] at hall
  next hno =>
    cases h
    cases hfits : walkFits (walkNames path) with
    | false =>
      obtain ⟨e', hcall⟩ := call_of_not_fits fs
        ((requestFits_walk rootFid s.nextFid _).trans hfits) (takeFid s)
      exact ⟨e', _, bind_err hcall, by rw [Session.retag_transport]; rfl, by rw [Session.retag_nextFid]; rfl,
        by rw [Session.retag_msize]; rfl⟩
    | true =>
      have hroot : s.transport.fids rootFid = none := by
        rw [Option.eq_none_iff_forall_ne_some]
        exact fun root hroot => hno root hroot hfits
      have hwalk := handle_walk_of_no_root fs (walkNames path) hroot hfree
      have hcall := call_of_err fs ((requestFits_walk _ _ _).trans hfits)
        (show handle fs _ (takeFid s).transport = _ from hwalk)
      exact ⟨_, _, bind_err hcall, (next_takeFid s).trans (Session.next_withServer (takeFid s) _)⟩

theorem walkFid_of_abort (hp : validPath path = true) (hfree : s.transport.fids s.nextFid = none)
    (h : walkOutcome fs path s = (.abort, fsys)) : (walkFid (loopbackTransport fs) path s).1 = .abort := by
  unfold walkOutcome at h
  split at h
  next root hroot hfits =>
    have hwalk := handle_walk_of_abort fs (walkNames_valid hp) hroot hfree h
    have hcall := call_of_abort fs ((requestFits_walk _ _ _).trans hfits)
      (show handle fs _ (takeFid s).transport = _ from hwalk)
    rw [walkFid_eq fs hp, bind_abort hcall]
  next => cases h

theorem clunkAndThrow_ne_ok {α : Type} {fid : UInt32} {e : Error} {s s' : Session σ η} {x : α} :
    clunkAndThrow (loopbackTransport fs) fid e s ≠ (.ok x, s') := by
  intro h
  rw [clunkAndThrow, bind_eq_ok] at h
  obtain ⟨_, _, -, h⟩ := h
  cases h

theorem walkBase_eq_ok {fid newfid : UInt32} {server server' : ServerState σ η} {base : String}
    (h : walkBase fid newfid server = (.ok base, server')) :
    ∃ root, server.fids fid = some root ∧ root.path = base ∧ server' = server := by
  rw [walkBase, get_bind, branch_apply] at h
  split at h
  · cases h
  · exact fidPath_eq_ok.mp h

/-- Where a fid is after a walk that arrived, whether or not the fid was free. -/
theorem walkFid_eq_ok (hp : validPath path = true) {a : UInt32} {s' : Session σ η}
    (h : walkFid (loopbackTransport fs) path s = (.ok a, s')) :
    ∃ root fsys, s.transport.fids rootFid = some root ∧ walkOutcome fs path s = (.ok (), fsys) ∧
      s'.transport = (s.transport.setFsys fsys).setFid a
        (some (.unopened ((walkNames path).foldl walkJoin root.path))) := by
  rw [walkFid_eq fs hp, bind_eq_ok] at h
  obtain ⟨r, s₁, hcall, hwalked⟩ := h
  have hfits : requestFits (.walk rootFid s.nextFid (walkNames path)) = true := by
    by_contra hno
    obtain ⟨e, he⟩ := call_of_not_fits fs (Bool.eq_false_iff.mpr hno) (takeFid s)
    rw [hcall] at he
    cases he
  obtain ⟨hstate, hvalue⟩ := call_state fs hfits (takeFid s)
  rw [hcall] at hstate hvalue
  have hwalk := hvalue r rfl
  rw [handle, walk, bind_fst_eq_ok] at hwalk
  obtain ⟨base, server, hbase, hwalk⟩ := hwalk
  obtain ⟨root, hroot, rfl, rfl⟩ := walkBase_eq_ok hbase
  rw [bind_fst_eq_ok] at hwalk
  obtain ⟨⟨path', qids⟩, server, hloop, hwalk⟩ := hwalk
  cases hwalk
  have hlen : qids.length = (walkNames path).length := by
    by_contra hne
    rw [walked, if_neg hne] at hwalked
    exact clunkAndThrow_ne_ok fs hwalked
  rw [walked, if_pos hlen] at hwalked
  cases hwalked
  have houtcome : walkOutcome fs path s = resolveNames fs root.path (walkNames path) s.transport.fsys := by
    rw [walkOutcome, show s.transport.fids rootFid = some root from hroot, ← requestFits_walk, hfits]
  rw [houtcome]
  rcases hres : resolveNames fs root.path (walkNames path) s.transport.fsys with ⟨_ | e | _, fsys⟩
  · obtain ⟨found, -, hok⟩ := walkLoop_of_ok fs (walkNames_valid hp) [] (takeFid s).transport hres
    rw [hok] at hloop
    cases hloop
    refine ⟨root, fsys, hroot, rfl, ?_⟩
    have hserver : (handle fs (.walk rootFid s.nextFid (walkNames path)) (takeFid s).transport).2 =
        (s.transport.setFsys fsys).setFid s.nextFid
          (some (.unopened ((walkNames path).foldl walkJoin root.path))) := by
      rw [handle, walk, bind_ok hbase, bind_ok hok]
      rfl
    rw [← hserver]
    exact congrArg ClientState.transport hstate
  · rcases walkLoop_of_err fs (walkNames_valid hp) [] (takeFid s).transport hres with ⟨e', hno⟩ | ⟨p', found, hlt, hok⟩
    · rw [hno] at hloop
      cases hloop
    · rw [hok] at hloop
      cases hloop
      rw [List.nil_append] at hlen
      omega
  · rw [walkLoop_of_abort fs (walkNames_valid hp) [] (takeFid s).transport hres] at hloop
    cases hloop

end WalkFid

end NinePClientFs
end Star9
