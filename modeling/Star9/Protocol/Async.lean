import Star9.Base.Run
import Star9.Protocol.Server

/-!
# The asynchronous 9P server

`AsyncNinePServer` as a step function whose steps are the lock regions of its
threads, taken in any order. A request that is accepted gets a worker, and the
number of the worker stands for the identity of its cancellation flag. What the
server behind the workers returns is free: its own handlers are modelled elsewhere.
-/
namespace Star9
open Base

/-- Where a worker is: in the call of the server, before the check of the pending
map, before the queue, or at its end. -/
inductive WorkerPhase where
  | handling
  | checking (response : Bytes)
  | sending (response : Bytes)
  | finished
  | panicked

structure AsyncWorker where
  tag : UInt16
  frame : Bytes
  phase : WorkerPhase

/-- A flush between its lock region and its return, with the flag it took out. -/
structure FlushCall where
  tag : UInt16
  removed : Option Nat
  returned : Bool

inductive AsyncEvent where
  | accepted (request : Nat) (tag : UInt16)
  | duplicate (tag : UInt16)
  | flushed (call : Nat) (oldtag : UInt16)
  | rflush (call : Nat)
  | handled (request : Nat) (response : Bytes)
  | checked (request : Nat) (send : Bool)
  | delivered (request : Nat) (response : Bytes)
deriving DecidableEq

/-- The queue keeps with every response the worker that pushed it; `log` is the
history, newest event first. -/
structure AsyncNinePServer where
  pending : Std.ExtTreeMap UInt16 Nat
  cancelled : Nat → Bool
  workers : List AsyncWorker
  flushes : List FlushCall
  responses : List (Nat × Bytes)
  log : List AsyncEvent

inductive AsyncAction where
  | handleFrame (frame : Bytes)
  | flushReturn (call : Nat)
  | workerHandled (request : Nat) (result : Outcome Error Bytes)
  | workerCheck (request : Nat)
  | workerSend (request : Nat)
  | nextResponse

namespace AsyncNinePServer

def eio : UInt32 := 5

def new : AsyncNinePServer :=
  { pending := ∅, cancelled := fun _ => false, workers := [], flushes := [], responses := [], log := [] }

def pendingTags (s : AsyncNinePServer) : List UInt16 := s.pending.keys

/-! ## The calls of a client -/

/-- The lock region of `cancel`; the flag is stored after it. -/
def cancel (tag oldtag : UInt16) (s : AsyncNinePServer) : AsyncNinePServer :=
  { s with
    pending := s.pending.erase oldtag
    flushes := s.flushes ++ [{ tag, removed := s.pending[oldtag]?, returned := false }]
    log := .flushed s.flushes.length oldtag :: s.log }

def supersede (tag : UInt16) (existing : Nat) (s : AsyncNinePServer) : AsyncNinePServer :=
  { s with
    pending := s.pending.erase tag
    cancelled := Function.update s.cancelled existing true
    log := .duplicate tag :: s.log }

def accept (tag : UInt16) (frame : Bytes) (s : AsyncNinePServer) : AsyncNinePServer :=
  { s with
    pending := s.pending.insert tag s.workers.length
    cancelled := Function.update s.cancelled s.workers.length false
    workers := s.workers ++ [{ tag, frame, phase := .handling }]
    log := .accepted s.workers.length tag :: s.log }

/-- A call up to the end of its lock region, with what it returns there. A flush
has its flag to store and returns later. -/
def handleFrame (frame : Bytes) (s : AsyncNinePServer) : Option (Except Error (Option Bytes)) × AsyncNinePServer :=
  match decodeRequest frame with
  | .error err => (some (.error err), s)
  | .ok (tag, .flush oldtag) => (none, s.cancel tag oldtag)
  | .ok (tag, _) =>
    match s.pending[tag]? with
    | some existing =>
      (some ((encodeResponse tag (.lerror (errnoForError (.kind .invalid)))).map some), s.supersede tag existing)
    | none => (some (.ok none), s.accept tag frame)

def storeCancelled (removed : Option Nat) (cancelled : Nat → Bool) : Nat → Bool :=
  match removed with
  | some id => Function.update cancelled id true
  | none => cancelled

def flushReturn (call : Nat) (s : AsyncNinePServer) : Option (Except Error (Option Bytes)) × AsyncNinePServer :=
  match s.flushes[call]? with
  | none => (none, s)
  | some flush =>
    if flush.returned then (none, s)
    else (some ((encodeResponse flush.tag .flush).map some),
      { s with
        cancelled := storeCancelled flush.removed s.cancelled
        flushes := s.flushes.set call { flush with returned := true }
        log := .rflush call :: s.log })

/-- Also the last lock region of `recv_response_timeout`. -/
def nextResponse (s : AsyncNinePServer) : Option Bytes × AsyncNinePServer :=
  match s.responses with
  | [] => (none, s)
  | (id, response) :: responses =>
    (some response, { s with responses, log := .delivered id response :: s.log })

/-! ## The steps of a worker -/

def setPhase (s : AsyncNinePServer) (id : Nat) (worker : AsyncWorker) (phase : WorkerPhase) :
    AsyncNinePServer :=
  { s with workers := s.workers.set id { worker with phase } }

/-- The response of a worker; an error of the server becomes an error message. -/
def workerResponse (tag : UInt16) : Outcome Error Bytes → Option Bytes
  | .ok response => some response
  | .err _ => (encodeResponse tag (.lerror eio)).toOption
  | .abort => none

def workerHandled (id : Nat) (result : Outcome Error Bytes) (s : AsyncNinePServer) : AsyncNinePServer :=
  match s.workers[id]? with
  | some worker =>
    match worker.phase, workerResponse worker.tag result with
    | .handling, some response =>
      { s.setPhase id worker (.checking response) with log := .handled id response :: s.log }
    | .handling, none => s.setPhase id worker .panicked
    | _, _ => s
  | none => s

/-- The entry of the tag is the worker's own and its flag is not set. -/
def shouldSend (s : AsyncNinePServer) (id : Nat) (tag : UInt16) : Bool :=
  s.pending[tag]? == some id && !s.cancelled id

def workerCheck (id : Nat) (s : AsyncNinePServer) : AsyncNinePServer :=
  match s.workers[id]? with
  | some worker =>
    match worker.phase with
    | .checking response =>
      if s.shouldSend id worker.tag then
        { s.setPhase id worker (.sending response) with
          pending := s.pending.erase worker.tag
          log := .checked id true :: s.log }
      else { s.setPhase id worker .finished with log := .checked id false :: s.log }
    | _ => s
  | none => s

def workerSend (id : Nat) (s : AsyncNinePServer) : AsyncNinePServer :=
  match s.workers[id]? with
  | some worker =>
    match worker.phase with
    | .sending response =>
      { s.setPhase id worker .finished with responses := s.responses ++ [(id, response)] }
    | _ => s
  | none => s

def step (s : AsyncNinePServer) : AsyncAction → AsyncNinePServer
  | .handleFrame frame => (s.handleFrame frame).2
  | .flushReturn call => (s.flushReturn call).2
  | .workerHandled id result => s.workerHandled id result
  | .workerCheck id => s.workerCheck id
  | .workerSend id => s.workerSend id
  | .nextResponse => s.nextResponse.2

end AsyncNinePServer

/-! ## What a history says -/

namespace AsyncEvent

/-- The event takes the tag away from the request that holds it. -/
def cancels (tag : UInt16) : AsyncEvent → Bool
  | .duplicate t => t == tag
  | .flushed _ t => t == tag
  | _ => false

def checks (id : Nat) : AsyncEvent → Bool
  | .checked i _ => i == id
  | _ => false

def delivers (id : Nat) : AsyncEvent → Bool
  | .delivered i _ => i == id
  | _ => false

def accepts (id : Nat) : AsyncEvent → Bool
  | .accepted i _ => i == id
  | _ => false

end AsyncEvent

/-- The request was accepted with the tag, and since then the tag was neither
flushed nor used again and its worker has not made its check. -/
def Live (id : Nat) (tag : UInt16) : List AsyncEvent → Prop
  | [] => False
  | e :: log => e = .accepted id tag ∨ (e.cancels tag = false ∧ e.checks id = false ∧ Live id tag log)

namespace AsyncNinePServer
variable {s s' : AsyncNinePServer}

/-- Everything a step can do. -/
inductive Moves (s : AsyncNinePServer) : AsyncAction → AsyncNinePServer → Prop
  | idle (a : AsyncAction) : Moves s a s
  | flush {frame : Bytes} {tag oldtag : UInt16} (h : decodeRequest frame = .ok (tag, .flush oldtag)) :
    Moves s (.handleFrame frame) (s.cancel tag oldtag)
  | duplicate {frame : Bytes} {tag : UInt16} {existing : Nat} (h : s.pending[tag]? = some existing) :
    Moves s (.handleFrame frame) (s.supersede tag existing)
  | accept {frame : Bytes} {tag : UInt16} (h : s.pending[tag]? = none) :
    Moves s (.handleFrame frame) (s.accept tag frame)
  | flushReturn {call : Nat} {flush : FlushCall} (h : s.flushes[call]? = some flush) :
    Moves s (.flushReturn call) { s with
      cancelled := storeCancelled flush.removed s.cancelled
      flushes := s.flushes.set call { flush with returned := true }
      log := .rflush call :: s.log }
  | handled {id : Nat} {result : Outcome Error Bytes} {worker : AsyncWorker} (response : Bytes)
    (h : s.workers[id]? = some worker) (hphase : worker.phase = .handling) :
    Moves s (.workerHandled id result)
      { s.setPhase id worker (.checking response) with log := .handled id response :: s.log }
  | panicked {id : Nat} {result : Outcome Error Bytes} {worker : AsyncWorker}
    (h : s.workers[id]? = some worker) (hphase : worker.phase = .handling) :
    Moves s (.workerHandled id result) (s.setPhase id worker .panicked)
  | passed {id : Nat} {worker : AsyncWorker} {response : Bytes} (h : s.workers[id]? = some worker)
    (hphase : worker.phase = .checking response) (hsend : s.shouldSend id worker.tag = true) :
    Moves s (.workerCheck id) { s.setPhase id worker (.sending response) with
      pending := s.pending.erase worker.tag
      log := .checked id true :: s.log }
  | refused {id : Nat} {worker : AsyncWorker} {response : Bytes} (h : s.workers[id]? = some worker)
    (hphase : worker.phase = .checking response) (hsend : s.shouldSend id worker.tag = false) :
    Moves s (.workerCheck id) { s.setPhase id worker .finished with log := .checked id false :: s.log }
  | send {id : Nat} {worker : AsyncWorker} {response : Bytes} (h : s.workers[id]? = some worker)
    (hphase : worker.phase = .sending response) :
    Moves s (.workerSend id) { s.setPhase id worker .finished with
      responses := s.responses ++ [(id, response)] }
  | deliver {id : Nat} {response : Bytes} {responses : List (Nat × Bytes)}
    (h : s.responses = (id, response) :: responses) :
    Moves s .nextResponse { s with responses, log := .delivered id response :: s.log }

theorem moves_handleFrame (s : AsyncNinePServer) (frame : Bytes) :
    Moves s (.handleFrame frame) (s.handleFrame frame).2 := by
  unfold handleFrame
  split
  · exact .idle _
  · exact .flush ‹_›
  · split
    · exact .duplicate ‹_›
    · exact .accept ‹_›

theorem moves_flushReturn (s : AsyncNinePServer) (call : Nat) :
    Moves s (.flushReturn call) (s.flushReturn call).2 := by
  unfold flushReturn
  split
  · exact .idle _
  · split
    · exact .idle _
    · exact .flushReturn ‹_›

theorem moves_workerHandled (s : AsyncNinePServer) (id : Nat) (result : Outcome Error Bytes) :
    Moves s (.workerHandled id result) (s.workerHandled id result) := by
  unfold workerHandled
  split
  · split
    · exact .handled _ ‹_› ‹_›
    · exact .panicked ‹_› ‹_›
    · exact .idle _
  · exact .idle _

theorem moves_workerCheck (s : AsyncNinePServer) (id : Nat) :
    Moves s (.workerCheck id) (s.workerCheck id) := by
  unfold workerCheck
  split
  · split
    · split
      · exact .passed ‹_› ‹_› ‹_›
      · exact .refused ‹_› ‹_› (Bool.eq_false_iff.mpr ‹_›)
    · exact .idle _
  · exact .idle _

theorem moves_workerSend (s : AsyncNinePServer) (id : Nat) :
    Moves s (.workerSend id) (s.workerSend id) := by
  unfold workerSend
  split
  · split
    · exact .send ‹_› ‹_›
    · exact .idle _
  · exact .idle _

theorem moves_step (s : AsyncNinePServer) (a : AsyncAction) : Moves s a (s.step a) := by
  cases a with
  | handleFrame frame => exact moves_handleFrame s frame
  | flushReturn call => exact moves_flushReturn s call
  | workerHandled id result => exact moves_workerHandled s id result
  | workerCheck id => exact moves_workerCheck s id
  | workerSend id => exact moves_workerSend s id
  | nextResponse =>
    change Moves s .nextResponse s.nextResponse.2
    unfold nextResponse
    split
    · exact .idle _
    · exact .deliver ‹_›

/-! ## The pending map -/

/-- The map holds exactly the live requests, with their flags clear, and no flag
that a flush is still to store. -/
structure PendingInv (s : AsyncNinePServer) : Prop where
  accepted : ∀ (id : Nat) (tag : UInt16),
    .accepted id tag ∈ s.log ↔ (s.workers[id]?).map (·.tag) = some tag
  live : ∀ (id : Nat) (tag : UInt16), s.pending[tag]? = some id ↔ Live id tag s.log
  clear : ∀ (id : Nat) (tag : UInt16), s.pending[tag]? = some id → s.cancelled id = false
  taken : ∀ flush ∈ s.flushes, ∀ id, flush.removed = some id →
    id < s.workers.length ∧ ∀ tag : UInt16, s.pending[tag]? ≠ some id

end AsyncNinePServer

theorem accepted_of_live {id : Nat} {tag : UInt16} {log : List AsyncEvent} (h : Live id tag log) :
    .accepted id tag ∈ log := by
  induction log with
  | nil => exact h.elim
  | cons e log ih =>
    rcases h with rfl | ⟨-, -, h⟩
    · exact List.mem_cons_self
    · exact List.mem_cons_of_mem _ (ih h)

namespace AsyncNinePServer
variable {s : AsyncNinePServer}

theorem PendingInv.tag_eq (hs : PendingInv s) {id : Nat} {tag tag' : UInt16}
    (h : s.pending[tag]? = some id) (h' : s.pending[tag']? = some id) : tag = tag' := by
  have ha := (hs.accepted id tag).mp (accepted_of_live ((hs.live id tag).mp h))
  have ha' := (hs.accepted id tag').mp (accepted_of_live ((hs.live id tag').mp h'))
  exact Option.some.inj (ha.symm.trans ha')

theorem setPhase_tags {id : Nat} {worker : AsyncWorker} (h : s.workers[id]? = some worker)
    (phase : WorkerPhase) (j : Nat) :
    ((s.setPhase id worker phase).workers[j]?).map (·.tag) = (s.workers[j]?).map (·.tag) := by
  have hlt := (List.getElem?_eq_some_iff.mp h).1
  simp only [setPhase, List.getElem?_set]
  by_cases hj : id = j
  · subst hj
    rw [if_pos rfl, if_pos hlt, h]
    rfl
  · rw [if_neg hj]

@[simp] theorem setPhase_log (id : Nat) (worker : AsyncWorker) (phase : WorkerPhase) :
    (s.setPhase id worker phase).log = s.log := rfl

@[simp] theorem setPhase_pending (id : Nat) (worker : AsyncWorker) (phase : WorkerPhase) :
    (s.setPhase id worker phase).pending = s.pending := rfl

theorem erase_eq_some {pending : Std.ExtTreeMap UInt16 Nat} {t tag : UInt16} {id : Nat} :
    (pending.erase t)[tag]? = some id ↔ t ≠ tag ∧ pending[tag]? = some id := by
  rw [Std.ExtTreeMap.getElem?_erase]
  by_cases h : t = tag <;> simp [h]

theorem insert_eq_some {pending : Std.ExtTreeMap UInt16 Nat} {t tag : UInt16} {new id : Nat}
    (h : pending[t]? = none) :
    (pending.insert t new)[tag]? = some id ↔ (new = id ∧ t = tag) ∨ pending[tag]? = some id := by
  rw [Std.ExtTreeMap.getElem?_insert]
  by_cases ht : t = tag
  · subst ht
    simp [h]
  · simp [ht]

theorem PendingInv.lt_length (hs : PendingInv s) {id : Nat} {tag : UInt16}
    (h : .accepted id tag ∈ s.log) : id < s.workers.length := by
  obtain ⟨worker, hworker, -⟩ := Option.map_eq_some_iff.mp ((hs.accepted id tag).mp h)
  exact (List.getElem?_eq_some_iff.mp hworker).1

theorem PendingInv.pending_lt (hs : PendingInv s) {id : Nat} {tag : UInt16}
    (h : s.pending[tag]? = some id) : id < s.workers.length :=
  hs.lt_length (accepted_of_live ((hs.live id tag).mp h))

theorem PendingInv.cancel (hs : PendingInv s) (tag oldtag : UInt16) : PendingInv (s.cancel tag oldtag) where
  accepted id t := by simpa [AsyncNinePServer.cancel] using hs.accepted id t
  live id t := by
    simp only [AsyncNinePServer.cancel, erase_eq_some, hs.live, Live, AsyncEvent.cancels, AsyncEvent.checks,
      reduceCtorEq, false_or, beq_eq_false_iff_ne, true_and]
  clear id t ht := hs.clear id t (erase_eq_some.mp ht).2
  taken flush hflush id hid := by
    rcases List.mem_append.mp hflush with hmem | hmem
    · exact ⟨(hs.taken flush hmem id hid).1, fun t ht => (hs.taken flush hmem id hid).2 t (erase_eq_some.mp ht).2⟩
    · cases List.mem_singleton.mp hmem
      refine ⟨hs.pending_lt hid, fun t ht => ?_⟩
      obtain ⟨hne, ht⟩ := erase_eq_some.mp ht
      exact hne (hs.tag_eq hid ht)

theorem PendingInv.supersede (hs : PendingInv s) {tag : UInt16} {existing : Nat}
    (h : s.pending[tag]? = some existing) : PendingInv (s.supersede tag existing) where
  accepted id t := by simpa [AsyncNinePServer.supersede] using hs.accepted id t
  live id t := by
    simp only [AsyncNinePServer.supersede, erase_eq_some, hs.live, Live, AsyncEvent.cancels, AsyncEvent.checks,
      reduceCtorEq, false_or, beq_eq_false_iff_ne, true_and]
  clear id t ht := by
    obtain ⟨hne, hpending⟩ := erase_eq_some.mp ht
    have hid : id ≠ existing := by
      intro heq
      subst heq
      exact hne (hs.tag_eq h hpending)
    exact (Function.update_of_ne hid _ _).trans (hs.clear id t hpending)
  taken flush hflush id hid :=
    ⟨(hs.taken flush hflush id hid).1, fun t ht => (hs.taken flush hflush id hid).2 t (erase_eq_some.mp ht).2⟩

theorem accept_tags (tag t : UInt16) (frame : Bytes) (id : Nat) :
    ((s.accept tag frame).workers[id]?).map (·.tag) = some t ↔
      (id = s.workers.length ∧ t = tag) ∨ (s.workers[id]?).map (·.tag) = some t := by
  simp only [accept, List.getElem?_append]
  rcases Nat.lt_trichotomy id s.workers.length with hlt | heq | hgt
  · simp [hlt, hlt.ne]
  · subst heq
    simp [eq_comm]
  · obtain ⟨k, hk⟩ : ∃ k, id - s.workers.length = k + 1 := ⟨id - s.workers.length - 1, by omega⟩
    simp [hgt.ne', Nat.not_lt.mpr hgt.le, hk]

theorem PendingInv.accept (hs : PendingInv s) {tag : UInt16} (h : s.pending[tag]? = none) (frame : Bytes) :
    PendingInv (s.accept tag frame) where
  accepted id t := by
    rw [accept_tags, ← hs.accepted]
    simp [AsyncNinePServer.accept]
  live id t := by
    rw [show (s.accept tag frame).pending = s.pending.insert tag s.workers.length from rfl, insert_eq_some h,
      hs.live]
    simp [AsyncNinePServer.accept, Live, AsyncEvent.cancels, AsyncEvent.checks]
  clear id t ht := by
    rcases (insert_eq_some h).mp ht with ⟨hid, -⟩ | ht
    · rw [← hid]
      exact Function.update_self _ _ _
    · exact (Function.update_of_ne (hs.pending_lt ht).ne _ _).trans (hs.clear id t ht)
  taken flush hflush id hid := by
    obtain ⟨hlt, hne⟩ := hs.taken flush hflush id hid
    refine ⟨by simpa [AsyncNinePServer.accept] using Nat.lt_succ_of_lt hlt, fun t ht => ?_⟩
    rcases (insert_eq_some h).mp ht with ⟨heq, -⟩ | ht
    · exact hlt.ne heq.symm
    · exact hne t ht

theorem PendingInv.flushReturn (hs : PendingInv s) {call : Nat} {flush : FlushCall}
    (h : s.flushes[call]? = some flush) : PendingInv { s with
      cancelled := storeCancelled flush.removed s.cancelled
      flushes := s.flushes.set call { flush with returned := true }
      log := .rflush call :: s.log } where
  accepted id t := by simpa using hs.accepted id t
  live id t := by simpa [Live, AsyncEvent.cancels, AsyncEvent.checks] using hs.live id t
  clear id t ht := by
    have hmem := List.mem_of_getElem? h
    unfold storeCancelled
    split
    · rename_i removed hremoved
      have hid : id ≠ removed := by
        intro heq
        subst heq
        exact (hs.taken flush hmem id hremoved).2 t ht
      exact (Function.update_of_ne hid _ _).trans (hs.clear id t ht)
    · exact hs.clear id t ht
  taken flush' hflush id hid := by
    rcases List.mem_or_eq_of_mem_set hflush with hmem | heq
    · exact hs.taken flush' hmem id hid
    · subst heq
      exact hs.taken flush (List.mem_of_getElem? h) id hid

/-- A step of a worker that touches neither the map nor what makes a request live. -/
theorem PendingInv.setPhase (hs : PendingInv s) {id : Nat} {worker : AsyncWorker}
    (h : s.workers[id]? = some worker) (phase : WorkerPhase) : PendingInv (s.setPhase id worker phase) where
  accepted id' t := by
    rw [setPhase_tags h]
    exact hs.accepted id' t
  live := hs.live
  clear := hs.clear
  taken flush hflush id' hid :=
    ⟨by simpa [AsyncNinePServer.setPhase] using (hs.taken flush hflush id' hid).1,
      (hs.taken flush hflush id' hid).2⟩

/-- Events that make no request live and end none. -/
theorem PendingInv.log (hs : PendingInv s) {e : AsyncEvent} (hcancels : ∀ tag, e.cancels tag = false)
    (hchecks : ∀ id, e.checks id = false) (haccepts : ∀ id, e.accepts id = false) :
    PendingInv { s with log := e :: s.log } where
  accepted id t := by
    have hne : e ≠ .accepted id t := by
      intro heq
      have hfalse := haccepts id
      simp [heq, AsyncEvent.accepts] at hfalse
    simpa [hne.symm] using hs.accepted id t
  live id t := by
    have hne : e ≠ .accepted id t := by
      intro heq
      have hfalse := haccepts id
      simp [heq, AsyncEvent.accepts] at hfalse
    simpa [Live, hne, hcancels, hchecks] using hs.live id t
  clear := hs.clear
  taken := hs.taken

theorem PendingInv.responses (hs : PendingInv s) (responses : List (Nat × Bytes)) :
    PendingInv { s with responses } := ⟨hs.accepted, hs.live, hs.clear, hs.taken⟩

theorem PendingInv.tag_of_pending (hs : PendingInv s) {id : Nat} {worker : AsyncWorker}
    (h : s.workers[id]? = some worker) {tag : UInt16} (ht : s.pending[tag]? = some id) : worker.tag = tag := by
  have ha := (hs.accepted id tag).mp (accepted_of_live ((hs.live id tag).mp ht))
  rw [h] at ha
  exact Option.some.inj ha

theorem shouldSend_eq_true {id : Nat} {tag : UInt16} :
    s.shouldSend id tag = true ↔ s.pending[tag]? = some id ∧ s.cancelled id = false := by
  simp [shouldSend]

theorem PendingInv.passed (hs : PendingInv s) {id : Nat} {worker : AsyncWorker}
    (h : s.workers[id]? = some worker) (hsend : s.shouldSend id worker.tag = true) (phase : WorkerPhase) :
    PendingInv { s.setPhase id worker phase with
      pending := s.pending.erase worker.tag
      log := .checked id true :: s.log } where
  accepted id' t := by simpa using (hs.setPhase h phase).accepted id' t
  live id' t := by
    have hown := (shouldSend_eq_true.mp hsend).1
    rw [erase_eq_some]
    simp only [Live, AsyncEvent.cancels, AsyncEvent.checks, reduceCtorEq, false_or, true_and,
      beq_eq_false_iff_ne, ← hs.live]
    constructor
    · rintro ⟨hne, ht⟩
      refine ⟨fun heq => ?_, ht⟩
      subst heq
      exact hne (hs.tag_of_pending h ht)
    · rintro ⟨hne, ht⟩
      refine ⟨fun heq => ?_, ht⟩
      subst heq
      exact hne (Option.some.inj (hown.symm.trans ht))
  clear id' t ht := hs.clear id' t (erase_eq_some.mp ht).2
  taken flush hflush id' hid :=
    ⟨by simpa [AsyncNinePServer.setPhase] using (hs.taken flush hflush id' hid).1,
      fun t ht => (hs.taken flush hflush id' hid).2 t (erase_eq_some.mp ht).2⟩

theorem PendingInv.refused (hs : PendingInv s) {id : Nat} {worker : AsyncWorker}
    (h : s.workers[id]? = some worker) (hsend : s.shouldSend id worker.tag = false) (phase : WorkerPhase) :
    PendingInv { s.setPhase id worker phase with log := .checked id false :: s.log } where
  accepted id' t := by simpa using (hs.setPhase h phase).accepted id' t
  live id' t := by
    have hnot : ∀ t : UInt16, s.pending[t]? ≠ some id := by
      intro t ht
      have htag := hs.tag_of_pending h ht
      rw [shouldSend, htag, ht, hs.clear id t ht] at hsend
      simp at hsend
    simp only [AsyncNinePServer.setPhase, Live, AsyncEvent.cancels, AsyncEvent.checks, reduceCtorEq, false_or,
      true_and, beq_eq_false_iff_ne, ← hs.live]
    constructor
    · intro ht
      refine ⟨fun heq => ?_, ht⟩
      subst heq
      exact hnot t ht
    · exact fun ht => ht.2
  clear := hs.clear
  taken := (hs.setPhase h phase).taken

theorem PendingInv.step (hs : PendingInv s) (a : AsyncAction) : PendingInv (s.step a) := by
  have hmove := moves_step s a
  revert hmove
  generalize s.step a = s'
  intro hmove
  cases hmove with
  | idle => exact hs
  | flush => exact hs.cancel _ _
  | duplicate h => exact hs.supersede h
  | accept h => exact hs.accept h _
  | flushReturn h => exact hs.flushReturn h
  | @handled id _ worker response h =>
    have hphase := hs.setPhase h (.checking response)
    exact hphase.log (e := .handled id response) (fun _ => rfl) (fun _ => rfl) fun _ => rfl
  | panicked h => exact hs.setPhase h _
  | passed h _ hsend => exact hs.passed h hsend _
  | refused h _ hsend => exact hs.refused h hsend _
  | send h => exact (hs.setPhase h _).responses _
  | @deliver id response responses h =>
    exact (hs.responses responses).log (e := .delivered id response) (fun _ => rfl) (fun _ => rfl) fun _ => rfl

/-! ## Replies -/

def phaseOf (s : AsyncNinePServer) (id : Nat) : Option WorkerPhase := (s.workers[id]?).map (·.phase)

/-- A reply that is decided on and not yet in the queue. -/
def sendingCount : Option WorkerPhase → Nat
  | some (.sending _) => 1
  | _ => 0

def checkedCount : Option WorkerPhase → Nat
  | some (.sending _) => 1
  | some .finished => 1
  | _ => 0

theorem phaseOf_setPhase {id : Nat} {worker : AsyncWorker} (h : s.workers[id]? = some worker)
    (phase : WorkerPhase) (j : Nat) :
    (s.setPhase id worker phase).phaseOf j = if id = j then some phase else s.phaseOf j := by
  have hlt := (List.getElem?_eq_some_iff.mp h).1
  simp only [phaseOf, setPhase, List.getElem?_set]
  by_cases hj : id = j
  · rw [if_pos hj, if_pos hj, if_pos hlt]
    rfl
  · rw [if_neg hj, if_neg hj]

theorem phaseOf_accept (tag : UInt16) (frame : Bytes) (j : Nat) :
    (s.accept tag frame).phaseOf j = if s.workers.length = j then some .handling else s.phaseOf j := by
  simp only [phaseOf, accept, List.getElem?_append]
  rcases Nat.lt_trichotomy j s.workers.length with hlt | heq | hgt
  · simp [hlt, hlt.ne']
  · subst heq
    simp
  · obtain ⟨k, hk⟩ : ∃ k, j - s.workers.length = k + 1 := ⟨j - s.workers.length - 1, by omega⟩
    simp [hgt.ne, Nat.not_lt.mpr hgt.le, hk]

/-- Every check that passed has one reply, which is about to be queued, in the
queue or delivered; a worker makes one check; a reply is what the server gave. -/
structure ReplyInv (s : AsyncNinePServer) : Prop where
  count : ∀ id, sendingCount (s.phaseOf id) + s.responses.countP (·.1 == id) +
    s.log.countP (·.delivers id) = s.log.count (.checked id true)
  once : ∀ id, s.log.count (.checked id true) + s.log.count (.checked id false) = checkedCount (s.phaseOf id)
  computed : ∀ id response, s.phaseOf id = some (.checking response) ∨ s.phaseOf id = some (.sending response) →
    .handled id response ∈ s.log
  own : ∀ id response, (id, response) ∈ s.responses ∨ .delivered id response ∈ s.log →
    .handled id response ∈ s.log

theorem phaseOf_eq {id : Nat} {worker : AsyncWorker} (h : s.workers[id]? = some worker) :
    s.phaseOf id = some worker.phase := by
  rw [phaseOf, h]
  rfl

/-- Events other than those of a worker change nothing about the replies. -/
theorem ReplyInv.of_log (hs : ReplyInv s) {s' : AsyncNinePServer} {e : AsyncEvent}
    (hphase : ∀ id, s'.phaseOf id = s.phaseOf id) (hresponses : s'.responses = s.responses)
    (hlog : s'.log = e :: s.log) (hchecks : ∀ id, e.checks id = false)
    (hdelivers : ∀ id, e.delivers id = false) : ReplyInv s' := by
  have hne : ∀ id send, e ≠ .checked id send := by
    intro id send heq
    have hfalse := hchecks id
    simp [heq, AsyncEvent.checks] at hfalse
  have hne' : ∀ id response, .delivered id response ≠ e := by
    intro id response heq
    have hfalse := hdelivers id
    simp [← heq, AsyncEvent.delivers] at hfalse
  refine ⟨fun id => ?_, fun id => ?_, fun id response h => ?_, fun id response h => ?_⟩
  · rw [hphase, hresponses, hlog, List.countP_cons_of_neg (by simp [hdelivers]), List.count_cons_of_ne (hne _ _)]
    exact hs.count id
  · rw [hphase, hlog, List.count_cons_of_ne (hne _ _), List.count_cons_of_ne (hne _ _)]
    exact hs.once id
  · rw [hphase] at h
    rw [hlog]
    exact List.mem_cons_of_mem _ (hs.computed id response h)
  · rw [hresponses, hlog, List.mem_cons] at h
    rw [hlog]
    exact List.mem_cons_of_mem _ (hs.own id response (h.imp_right (·.resolve_left (hne' id response))))

theorem ReplyInv.accept (hs : ReplyInv s) (tag : UInt16) (frame : Bytes) :
    ReplyInv (s.accept tag frame) := by
  have hnew : s.phaseOf s.workers.length = none := by simp [phaseOf]
  refine ⟨fun id => ?_, fun id => ?_, fun id response h => ?_, fun id response h => ?_⟩
  · have hcount := hs.count id
    rw [phaseOf_accept]
    by_cases hid : s.workers.length = id
    · subst hid
      rw [hnew] at hcount
      simpa [AsyncNinePServer.accept, sendingCount, AsyncEvent.delivers] using hcount
    · simpa [AsyncNinePServer.accept, hid, AsyncEvent.delivers] using hcount
  · have honce := hs.once id
    rw [phaseOf_accept]
    by_cases hid : s.workers.length = id
    · subst hid
      rw [hnew] at honce
      simpa [AsyncNinePServer.accept, checkedCount] using honce
    · simpa [AsyncNinePServer.accept, hid] using honce
  · rw [phaseOf_accept] at h
    by_cases hid : s.workers.length = id
    · simp [hid] at h
    · rw [if_neg hid] at h
      exact List.mem_cons_of_mem _ (hs.computed id response h)
  · have hold : (id, response) ∈ s.responses ∨ .delivered id response ∈ s.log := by
      simpa [AsyncNinePServer.accept] using h
    exact List.mem_cons_of_mem _ (hs.own id response hold)

/-- A step of one worker, which takes it from phase `p` to phase `p'` and may add
to the history and to the queue. -/
theorem ReplyInv.worker (hs : ReplyInv s) {s' : AsyncNinePServer} {id : Nat} {p p' : WorkerPhase}
    (events : List AsyncEvent) (replies : List (Nat × Bytes)) (hp : s.phaseOf id = some p)
    (hphase : ∀ j, s'.phaseOf j = if id = j then some p' else s.phaseOf j)
    (hlog : s'.log = events ++ s.log) (hresponses : s'.responses = s.responses ++ replies)
    (hevents : ∀ e ∈ events, ∀ j, e.delivers j = false ∧ (e.checks j = true → id = j))
    (hreplies : ∀ r ∈ replies, r.1 = id ∧ .handled id r.2 ∈ s.log)
    (hcount : sendingCount (some p') + replies.length =
      sendingCount (some p) + events.count (.checked id true))
    (honce : events.count (.checked id true) + events.count (.checked id false) + checkedCount (some p) =
      checkedCount (some p'))
    (hcomputed : ∀ response, p' = .checking response ∨ p' = .sending response →
      .handled id response ∈ s'.log) : ReplyInv s' := by
  have hdelivers : ∀ j, events.countP (·.delivers j) = 0 := fun j =>
    List.countP_eq_zero.mpr fun e he => by simp [(hevents e he j).1]
  have hother : ∀ j, id ≠ j → ∀ send, events.count (.checked j send) = 0 := fun j hj send =>
    List.count_eq_zero.mpr fun hmem => hj ((hevents _ hmem j).2 (by simp [AsyncEvent.checks]))
  have hqueue : ∀ j, replies.countP (·.1 == j) = if id = j then replies.length else 0 := by
    intro j
    by_cases hj : id = j
    · rw [if_pos hj]
      exact List.countP_eq_length.mpr fun r hr => by simp [(hreplies r hr).1, hj]
    · rw [if_neg hj]
      exact List.countP_eq_zero.mpr fun r hr => by simp [(hreplies r hr).1, hj]
  refine ⟨fun j => ?_, fun j => ?_, fun j response h => ?_, fun j response h => ?_⟩
  · have hold := hs.count j
    rw [hphase, hresponses, hlog, List.countP_append, List.countP_append, List.count_append, hdelivers, hqueue]
    by_cases hj : id = j
    · subst hj
      rw [if_pos rfl, if_pos rfl]
      rw [hp] at hold
      omega
    · rw [if_neg hj, if_neg hj, hother j hj]
      omega
  · have hold := hs.once j
    rw [hphase, hlog, List.count_append, List.count_append]
    by_cases hj : id = j
    · subst hj
      rw [if_pos rfl]
      rw [hp] at hold
      omega
    · rw [if_neg hj, hother j hj, hother j hj]
      omega
  · rw [hphase] at h
    by_cases hj : id = j
    · subst hj
      rw [if_pos rfl, Option.some.injEq, Option.some.injEq] at h
      exact hcomputed response h
    · rw [if_neg hj] at h
      rw [hlog]
      exact List.mem_append_right _ (hs.computed j response h)
  · rw [hresponses, hlog, List.mem_append, List.mem_append] at h
    rw [hlog]
    refine List.mem_append_right _ ?_
    rcases h with (hmem | hmem) | (hmem | hmem)
    · exact hs.own j response (.inl hmem)
    · obtain ⟨hid, hhandled⟩ := hreplies _ hmem
      rwa [← hid] at hhandled
    · have hfalse := (hevents _ hmem j).1
      simp [AsyncEvent.delivers] at hfalse
    · exact hs.own j response (.inr hmem)

theorem ReplyInv.deliver (hs : ReplyInv s) {id : Nat} {response : Bytes} {responses : List (Nat × Bytes)}
    (h : s.responses = (id, response) :: responses) :
    ReplyInv { s with responses, log := .delivered id response :: s.log } := by
  refine ⟨fun j => ?_, fun j => ?_, fun j r hr => ?_, fun j r hr => ?_⟩
  · have hold := hs.count j
    rw [h, List.countP_cons] at hold
    have hphase : ({ s with responses, log := .delivered id response :: s.log } : AsyncNinePServer).phaseOf j =
      s.phaseOf j := rfl
    rw [hphase, List.countP_cons, List.count_cons_of_ne (by simp),
      show (AsyncEvent.delivered id response).delivers j = (id == j) from rfl]
    dsimp only at hold ⊢
    omega
  · have hold := hs.once j
    simpa [phaseOf] using hold
  · exact List.mem_cons_of_mem _ (hs.computed j r hr)
  · refine List.mem_cons_of_mem _ (hs.own j r ?_)
    rw [h]
    rcases hr with hmem | hmem
    · exact .inl (List.mem_cons_of_mem _ hmem)
    · rcases List.mem_cons.mp hmem with heq | hmem
      · cases heq
        exact .inl List.mem_cons_self
      · exact .inr hmem

theorem ReplyInv.step (hs : ReplyInv s) (a : AsyncAction) : ReplyInv (s.step a) := by
  have hmove := moves_step s a
  revert hmove
  generalize s.step a = s'
  intro hmove
  cases hmove with
  | idle => exact hs
  | flush => exact hs.of_log (fun _ => rfl) rfl rfl (fun _ => rfl) fun _ => rfl
  | duplicate => exact hs.of_log (fun _ => rfl) rfl rfl (fun _ => rfl) fun _ => rfl
  | accept => exact hs.accept _ _
  | flushReturn => exact hs.of_log (fun _ => rfl) rfl rfl (fun _ => rfl) fun _ => rfl
  | @handled id _ worker response h hp =>
    exact hs.worker [.handled id response] [] ((phaseOf_eq h).trans (congrArg some hp))
      (phaseOf_setPhase h (.checking response)) rfl (List.append_nil _).symm
      (by simp [AsyncEvent.delivers, AsyncEvent.checks]) (by simp) (by simp [sendingCount])
      (by simp [checkedCount]) (by simp)
  | @panicked id _ worker h hp =>
    exact hs.worker [] [] ((phaseOf_eq h).trans (congrArg some hp))
      (phaseOf_setPhase h .panicked) rfl (List.append_nil _).symm (by simp) (by simp) (by simp [sendingCount])
      (by simp [checkedCount]) (by simp)
  | @passed id worker response h hp =>
    have hp' := (phaseOf_eq h).trans (congrArg some hp)
    exact hs.worker [.checked id true] [] hp' (phaseOf_setPhase h (.sending response)) rfl
      (List.append_nil _).symm (by simp [AsyncEvent.delivers, AsyncEvent.checks]) (by simp)
      (by simp [sendingCount]) (by simp [checkedCount]) (by simpa using hs.computed id response (.inl hp'))
  | @refused id worker response h hp =>
    exact hs.worker [.checked id false] [] ((phaseOf_eq h).trans (congrArg some hp))
      (phaseOf_setPhase h .finished) rfl (List.append_nil _).symm
      (by simp [AsyncEvent.delivers, AsyncEvent.checks]) (by simp) (by simp [sendingCount])
      (by simp [checkedCount]) (by simp)
  | @send id worker response h hp =>
    have hp' := (phaseOf_eq h).trans (congrArg some hp)
    exact hs.worker [] [(id, response)] hp' (phaseOf_setPhase h .finished) rfl rfl
      (by simp) (by simpa using hs.computed id response (.inr hp')) (by simp [sendingCount])
      (by simp [checkedCount]) (by simp)
  | deliver h => exact hs.deliver h

end AsyncNinePServer

/-! ## The order of events -/

/-- A check passes only for a live request, and no request is accepted twice. -/
def WellOrdered : List AsyncEvent → Prop
  | [] => True
  | e :: log => (∀ id, e = .checked id true → ∃ tag, Live id tag log) ∧
    (∀ id, e.accepts id = true → ∀ e' ∈ log, e'.accepts id = false) ∧ WellOrdered log

theorem WellOrdered.of_append {after log : List AsyncEvent} (h : WellOrdered (after ++ log)) :
    WellOrdered log := by
  induction after with
  | nil => exact h
  | cons e after ih => exact ih h.2.2

theorem WellOrdered.tag_eq {log : List AsyncEvent} (h : WellOrdered log) {id : Nat} {tag tag' : UInt16}
    (ht : .accepted id tag ∈ log) (ht' : .accepted id tag' ∈ log) : tag = tag' := by
  induction log with
  | nil => cases ht
  | cons e log ih =>
    obtain ⟨-, hunique, hrest⟩ := h
    have hlate : ∀ {t t' : UInt16}, e = .accepted id t → .accepted id t' ∉ log := by
      intro t t' he hmem
      have hfalse := hunique id (by simp [he, AsyncEvent.accepts]) _ hmem
      simp [AsyncEvent.accepts] at hfalse
    rcases List.mem_cons.mp ht with he | hmem
    · rcases List.mem_cons.mp ht' with he' | hmem'
      · cases he.trans he'.symm
        rfl
      · exact absurd hmem' (hlate he.symm)
    · rcases List.mem_cons.mp ht' with he' | hmem'
      · exact absurd hmem (hlate he'.symm)
      · exact ih hrest hmem hmem'

/-- Later events do not make a request live that was accepted before. -/
theorem WellOrdered.live_before {after log : List AsyncEvent} (h : WellOrdered (after ++ log)) {id : Nat}
    {tag tag' : UInt16} (ht : .accepted id tag ∈ log) (hlive : Live id tag' (after ++ log)) : Live id tag' log := by
  induction after with
  | nil => exact hlive
  | cons e after ih =>
    rcases hlive with he | ⟨-, -, hlive⟩
    · have hfalse := h.2.1 id (by simp [he, AsyncEvent.accepts]) _ (List.mem_append_right _ ht)
      simp [AsyncEvent.accepts] at hfalse
    · exact ih h.2.2 hlive

/-- A request that has lost its tag does not pass its check any more. -/
theorem WellOrdered.not_checked {after before : List AsyncEvent} {e : AsyncEvent}
    (h : WellOrdered (after ++ e :: before)) {id : Nat} {tag : UInt16} (ht : .accepted id tag ∈ before)
    (hcancels : e.cancels tag = true) : .checked id true ∉ after := by
  intro hmem
  obtain ⟨late, early, rfl⟩ := List.append_of_mem hmem
  rw [List.append_assoc] at h
  obtain ⟨hlive, -, horder⟩ := h.of_append
  obtain ⟨tag', hlive⟩ := hlive id rfl
  have hbefore := horder.live_before (List.mem_cons_of_mem e ht) hlive
  rcases hbefore with rfl | ⟨hkeeps, -, hbefore⟩
  · cases hcancels
  · have htag := horder.of_append.2.2.tag_eq ht (accepted_of_live hbefore)
    rw [← htag, hcancels] at hkeeps
    cases hkeeps

namespace AsyncNinePServer
variable {s : AsyncNinePServer}

/-- A step adds at most one event; a check that passes is of a live request, and
an accepted request has a number of its own. -/
theorem log_step (hp : PendingInv s) (a : AsyncAction) : (s.step a).log = s.log ∨
    ∃ e, (s.step a).log = e :: s.log ∧ (∀ id, e = .checked id true → ∃ tag, Live id tag s.log) ∧
      ∀ id, e.accepts id = true → ∀ e' ∈ s.log, e'.accepts id = false := by
  have hmove := moves_step s a
  revert hmove
  generalize s.step a = s'
  intro hmove
  cases hmove with
  | idle => exact .inl rfl
  | flush => exact .inr ⟨_, rfl, nofun, nofun⟩
  | duplicate => exact .inr ⟨_, rfl, nofun, nofun⟩
  | accept =>
    refine .inr ⟨_, rfl, nofun, fun id hid e' he' => ?_⟩
    obtain rfl : s.workers.length = id := by simpa [AsyncEvent.accepts] using hid
    cases e' with
    | accepted id' tag => simpa [AsyncEvent.accepts] using (hp.lt_length he').ne
    | _ => rfl
  | flushReturn => exact .inr ⟨_, rfl, nofun, nofun⟩
  | handled => exact .inr ⟨_, rfl, nofun, nofun⟩
  | panicked => exact .inl rfl
  | @passed id worker _ _ _ hsend =>
    refine .inr ⟨_, rfl, fun id' heq => ?_, nofun⟩
    cases heq
    exact ⟨worker.tag, (hp.live id worker.tag).mp (shouldSend_eq_true.mp hsend).1⟩
  | refused => exact .inr ⟨_, rfl, nofun, nofun⟩
  | send => exact .inl rfl
  | deliver => exact .inr ⟨_, rfl, nofun, nofun⟩

structure Inv (s : AsyncNinePServer) : Prop where
  pending : PendingInv s
  replies : ReplyInv s
  order : WellOrdered s.log

theorem Inv.step (hs : Inv s) (a : AsyncAction) : Inv (s.step a) where
  pending := hs.pending.step a
  replies := hs.replies.step a
  order := by
    rcases log_step hs.pending a with hlog | ⟨e, hlog, hcheck, hunique⟩ <;> rw [hlog]
    · exact hs.order
    · exact ⟨hcheck, hunique, hs.order⟩

theorem inv_new : Inv new where
  pending := ⟨by simp [new], by simp [new, Live], by simp [new], by simp [new]⟩
  replies := ⟨by simp [new, phaseOf, sendingCount], by simp [new, phaseOf, checkedCount], by simp [new, phaseOf],
    by simp [new]⟩
  order := trivial

theorem inv_run (as : List AsyncAction) : Inv (run step new as) :=
  run_invariant_of_step (fun _ a hs => hs.step a) inv_new as

theorem Inv.checked_le_one (hs : Inv s) (id : Nat) : s.log.count (.checked id true) ≤ 1 := by
  have honce := hs.replies.once id
  have hle : checkedCount (s.phaseOf id) ≤ 1 := by
    unfold checkedCount
    split <;> omega
  omega

/-- Neither in the queue nor delivered, for a request whose check has not passed. -/
theorem Inv.no_reply (hs : Inv s) {id : Nat} (h : .checked id true ∉ s.log) :
    (∀ response, (id, response) ∉ s.responses) ∧ ∀ response, .delivered id response ∉ s.log := by
  have hcount := hs.replies.count id
  rw [List.count_eq_zero.mpr h] at hcount
  have hqueue : s.responses.countP (·.1 == id) = 0 := by omega
  have hdelivered : s.log.countP (·.delivers id) = 0 := by omega
  constructor
  · intro response hmem
    have hne := List.countP_eq_zero.mp hqueue _ hmem
    simp at hne
  · intro response hmem
    have hne := List.countP_eq_zero.mp hdelivered _ hmem
    simp [AsyncEvent.delivers] at hne

end AsyncNinePServer

/-- The worker that takes the step. -/
def AsyncAction.worker : AsyncAction → Option Nat
  | .workerHandled id _ => some id
  | .workerCheck id => some id
  | .workerSend id => some id
  | _ => none

namespace AsyncNinePServer
variable {s : AsyncNinePServer}

/-- A step of one worker leaves the entry of another request, and does not pass
the check of its own tag while another request holds it. -/
theorem worker_step {a : AsyncAction} {id j : Nat} (ha : a.worker = some id) (hj : j ≠ id)
    {tag : UInt16} (hpending : s.pending[tag]? = some j) :
    (s.step a).pending[tag]? = some j ∧
      ((s.workers[id]?).map (·.tag) = some tag →
        (s.step a).log.count (.checked id true) = s.log.count (.checked id true)) := by
  have hmove := moves_step s a
  revert hmove
  generalize s.step a = s'
  intro hmove
  cases hmove with
  | idle => exact ⟨hpending, fun _ => rfl⟩
  | flush => cases ha
  | duplicate => cases ha
  | accept => cases ha
  | flushReturn => cases ha
  | handled => exact ⟨hpending, fun _ => List.count_cons_of_ne (by simp)⟩
  | panicked => exact ⟨hpending, fun _ => rfl⟩
  | @passed id' worker _ hworker _ hsend =>
    cases ha
    have hown := (shouldSend_eq_true.mp hsend).1
    have hne : worker.tag ≠ tag := by
      intro heq
      rw [heq] at hown
      exact hj (Option.some.inj (hpending.symm.trans hown))
    refine ⟨erase_eq_some.mpr ⟨hne, hpending⟩, fun htag => ?_⟩
    rw [hworker] at htag
    exact absurd (Option.some.inj htag) hne
  | refused => exact ⟨hpending, fun _ => List.count_cons_of_ne (by simp)⟩
  | send => exact ⟨hpending, fun _ => rfl⟩
  | deliver => cases ha

theorem mem_pendingTags {tag : UInt16} : tag ∈ s.pendingTags ↔ ∃ id, s.pending[tag]? = some id := by
  rw [pendingTags, Std.ExtTreeMap.mem_keys, Std.ExtTreeMap.mem_iff_isSome_getElem?, Option.isSome_iff_exists]

/-- In every interleaving: a request is answered at most once and only with what
the server gave for it; one that lost its tag before its check is never answered;
a worker acts for its own request only; the pending tags are those of the live
requests. -/
theorem run_replies (as : List AsyncAction) :
    let s := run step new as
    (∀ id, s.responses.countP (·.1 == id) + s.log.countP (·.delivers id) ≤ 1) ∧
    (∀ id response, .delivered id response ∈ s.log → .handled id response ∈ s.log) ∧
    (∀ (id : Nat) (tag : UInt16) (e : AsyncEvent) (after before : List AsyncEvent),
      s.log = after ++ e :: before → e.cancels tag = true → .accepted id tag ∈ before →
      .checked id true ∉ before →
      (∀ response, (id, response) ∉ s.responses) ∧ ∀ response, .delivered id response ∉ s.log) ∧
    (∀ (a : AsyncAction) (id j : Nat) (tag : UInt16), a.worker = some id → j ≠ id →
      s.pending[tag]? = some j → (s.step a).pending[tag]? = some j ∧
        ((s.workers[id]?).map (·.tag) = some tag →
          (s.step a).log.count (.checked id true) = s.log.count (.checked id true))) ∧
    ∀ tag, tag ∈ s.pendingTags ↔ ∃ id, Live id tag s.log := by
  intro s
  have hs : Inv s := inv_run as
  refine ⟨fun id => ?_, fun id response h => hs.replies.own id response (.inr h), ?_, ?_, fun tag => ?_⟩
  · have hcount := hs.replies.count id
    have hle := hs.checked_le_one id
    omega
  · intro id tag e after before hlog hcancels ht hcheck
    have horder := hs.order
    rw [hlog] at horder
    have hne : .checked id true ≠ e := by
      intro heq
      subst heq
      cases hcancels
    refine hs.no_reply ?_
    rw [hlog, List.mem_append, List.mem_cons]
    exact not_or.mpr ⟨horder.not_checked ht hcancels, not_or.mpr ⟨hne, hcheck⟩⟩
  · intro a id j tag ha hj hpending
    exact worker_step ha hj hpending
  · rw [mem_pendingTags]
    exact exists_congr fun id => hs.pending.live id tag

/-! ## The flush as a barrier -/

/-- After the reply to a flush, no request that had its old tag before the flush
is answered. -/
def FlushBarrier (log : List AsyncEvent) : Prop :=
  ∀ (late mid early : List AsyncEvent) (call : Nat) (oldtag : UInt16),
    log = late ++ .rflush call :: (mid ++ .flushed call oldtag :: early) →
    ∀ id response, .accepted id oldtag ∈ early → .delivered id response ∉ late

def isSending : WorkerPhase → Bool
  | .sending _ => true
  | _ => false

/-- No reply to a request with the tag is between its check and its delivery. -/
def quiet (s : AsyncNinePServer) (oldtag : UInt16) : Bool :=
  s.workers.all (fun worker => !(worker.tag == oldtag && isSending worker.phase)) &&
    s.responses.all fun r => (s.workers[r.1]?).map (·.tag) != some oldtag

/-- A flush is handled only while no reply with its old tag is on the way. -/
def FlushStep (s : AsyncNinePServer) : AsyncAction → Prop
  | .handleFrame frame =>
    match decodeRequest frame with
    | .ok (_, .flush oldtag) => s.quiet oldtag = true
    | _ => True
  | _ => True

instance (s : AsyncNinePServer) (a : AsyncAction) : Decidable (FlushStep s a) := by
  unfold FlushStep
  split
  · split <;> infer_instance
  · infer_instance

/-- At every flush, all replies of requests with the old tag were delivered. -/
def QuietFlushes : List AsyncEvent → Prop
  | [] => True
  | e :: log => (∀ call oldtag, e = .flushed call oldtag → ∀ id, .accepted id oldtag ∈ log →
      log.countP (·.delivers id) = log.count (.checked id true)) ∧ QuietFlushes log

theorem QuietFlushes.of_append {after log : List AsyncEvent} (h : QuietFlushes (after ++ log)) :
    QuietFlushes log := by
  induction after with
  | nil => exact h
  | cons e after ih => exact ih h.2

theorem Inv.delivered_of_quiet (hs : Inv s) {oldtag : UInt16} (hquiet : s.quiet oldtag = true) {id : Nat}
    (h : .accepted id oldtag ∈ s.log) : s.log.countP (·.delivers id) = s.log.count (.checked id true) := by
  have htag := (hs.pending.accepted id oldtag).mp h
  obtain ⟨hworkers, hresponses⟩ := Bool.and_eq_true_iff.mp hquiet
  obtain ⟨worker, hworker, hworkerTag⟩ := Option.map_eq_some_iff.mp htag
  have hsending : sendingCount (s.phaseOf id) = 0 := by
    have hnot := List.all_eq_true.mp hworkers worker (List.mem_of_getElem? hworker)
    rw [phaseOf_eq hworker]
    cases hphase : worker.phase with
    | sending response => simp [hworkerTag, hphase, isSending] at hnot
    | _ => rfl
  have hqueue : s.responses.countP (·.1 == id) = 0 := by
    refine List.countP_eq_zero.mpr fun r hr heq => ?_
    have hnot := List.all_eq_true.mp hresponses r hr
    rw [eq_of_beq heq, htag] at hnot
    simp at hnot
  have hcount := hs.replies.count id
  omega

theorem QuietFlushes.step (hq : QuietFlushes s.log) (hs : Inv s) {a : AsyncAction} (ha : FlushStep s a) :
    QuietFlushes (s.step a).log := by
  have hmove := moves_step s a
  revert hmove
  generalize s.step a = s'
  intro hmove
  cases hmove with
  | @flush frame tag oldtag h =>
    refine ⟨fun call t heq id hid => ?_, hq⟩
    cases heq
    simp only [FlushStep, h] at ha
    exact hs.delivered_of_quiet ha hid
  | idle => exact hq
  | panicked => exact hq
  | send => exact hq
  | _ => exact ⟨nofun, hq⟩

theorem Inv.flushBarrier (hs : Inv s) (hq : QuietFlushes s.log) : FlushBarrier s.log := by
  intro late mid early call oldtag hlog id response hid hmem
  have hsplit : s.log = (late ++ .rflush call :: mid) ++ .flushed call oldtag :: early := by
    rw [hlog, List.append_assoc, List.cons_append]
  have horder := hs.order
  have hcount := hs.replies.count id
  rw [hsplit] at horder hq
  have hlate := List.count_eq_zero.mpr (horder.not_checked hid (by simp [AsyncEvent.cancels]))
  have hearly := hq.of_append.1 call oldtag rfl id hid
  have hdelivered : 0 < (late ++ .rflush call :: mid).countP (·.delivers id) :=
    List.countP_pos_iff.mpr ⟨_, List.mem_append_left _ hmem, by simp [AsyncEvent.delivers]⟩
  rw [hsplit, List.countP_append, List.count_append, hlate, List.countP_cons_of_neg (by simp [AsyncEvent.delivers]),
    List.count_cons_of_ne (by simp)] at hcount
  omega

/-- In a run whose flushes find no reply with their old tag on the way, every
reply to a flush is a barrier. -/
theorem run_flushBarrier (as : List AsyncAction) (h : StepsMeet step FlushStep new as) (k : Nat) :
    FlushBarrier (run step new (as.take k)).log := by
  have hinv := run_invariant (I := fun s => Inv s ∧ QuietFlushes s.log)
    (fun _ a hs ha => ⟨hs.1.step a, hs.2.step hs.1 ha⟩) ⟨inv_new, trivial⟩ (h.take k)
  exact hinv.1.flushBarrier hinv.2

/-- The frame of a clunk with tag 5. -/
def clunkFrame : Bytes := [11, 0, 0, 0, 120, 5, 0, 1, 0, 0, 0]

/-- The frame of a flush of tag 5, with tag 6. -/
def flushFrame : Bytes := [9, 0, 0, 0, 108, 6, 0, 5, 0]

def cancelledRun : List AsyncAction :=
  [.handleFrame clunkFrame, .handleFrame flushFrame, .workerHandled 0 (.ok []), .workerCheck 0, .flushReturn 0,
   .handleFrame clunkFrame, .workerHandled 1 (.ok []), .workerCheck 1, .workerSend 1, .nextResponse]

theorem run_flushBarrier_cancelledRun :
    StepsMeet step FlushStep new cancelledRun ∧ FlushBarrier (run step new (cancelledRun.take 10)).log := by
  have h : StepsMeet step FlushStep new cancelledRun := by decide +kernel
  exact ⟨h, run_flushBarrier _ h 10⟩

/-- A reply that is in the queue when its tag is flushed comes after the reply to
the flush. -/
theorem run_not_flushBarrier : ¬ ∀ as : List AsyncAction, FlushBarrier (run step new as).log := by
  intro h
  have hlog : (run step new [.handleFrame clunkFrame, .workerHandled 0 (.ok []), .workerCheck 0, .workerSend 0,
      .handleFrame flushFrame, .flushReturn 0, .nextResponse]).log =
      [.delivered 0 []] ++ .rflush 0 :: ([] ++ .flushed 0 5 ::
        [.checked 0 true, .handled 0 [], .accepted 0 5]) := by
    decide +kernel
  exact h _ _ _ _ 0 5 hlog 0 [] (by decide) (by decide)

end AsyncNinePServer
end Star9
