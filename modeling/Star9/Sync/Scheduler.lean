import Star9.Base.Run
import Star9.Core.Basic

/-!
# The debounced sync scheduler

`DebouncedSyncScheduler` as a step function whose steps are the lock regions of
its callers and of its background thread, in any order. A sync runs between the
step that begins an attempt and the step that finishes it, outside the lock, and
may end in any result. Beside the state of the source, the model counts the
requests, and every attempt keeps the count it began with.
-/
namespace Star9
open Base

/-- The first time that a `SystemTime` cannot represent. -/
def systemTimeEnd : SystemTime := 2 ^ 63 * 1000000000

structure DebouncedSyncState where
  requestedAt : Option SystemTime
  lastError : Option String
  requestSerial : UInt64
  failedRequestSerial : Option UInt64
  backgroundRunning : Bool
  shutdownRequested : Bool

inductive BackgroundThread where
  | stopped
  | waiting
  | syncing
deriving DecidableEq

structure SyncAttempt where
  serial : UInt64
  background : Bool
  seen : Nat
  finished : Bool

structure DebouncedSyncScheduler where
  state : DebouncedSyncState
  background : BackgroundThread
  attempts : List SyncAttempt
  requests : Nat

inductive SchedulerAction where
  | request (now : SystemTime)
  | runDue (now : SystemTime)
  | flush
  | startBackground (spawned : Bool)
  | backgroundWake (now : SystemTime)
  | shutdown
  | finishSyncAttempt (attempt : Nat) (result : Except String Unit)

def SchedulerAction.isRequest : SchedulerAction → Bool
  | .request _ => true
  | _ => false

namespace DebouncedSyncScheduler

def new : DebouncedSyncScheduler :=
  { state := { requestedAt := none, lastError := none, requestSerial := 0, failedRequestSerial := none,
               backgroundRunning := false, shutdownRequested := false }
    background := .stopped
    attempts := []
    requests := 0 }

/-- A due time that cannot be represented is the time of the request. -/
def dueAt (debounce : Nat) (requestedAt : SystemTime) : SystemTime :=
  if requestedAt + debounce < systemTimeEnd then requestedAt + debounce else requestedAt

def request (now : SystemTime) (s : DebouncedSyncScheduler) : DebouncedSyncScheduler :=
  { s with
    state := { s.state with
      requestedAt := some now
      lastError := none
      requestSerial := s.state.requestSerial + 1
      failedRequestSerial := none }
    requests := s.requests + 1 }

/-- An attempt takes the serial in its lock region; its sync follows. -/
def beginAttempt (background : Bool) (s : DebouncedSyncScheduler) : DebouncedSyncScheduler :=
  { s with attempts := s.attempts ++
      [{ serial := s.state.requestSerial, background, seen := s.requests, finished := false }] }

def runDue (debounce : Nat) (now : SystemTime) (s : DebouncedSyncScheduler) : DebouncedSyncScheduler :=
  match s.state.requestedAt with
  | some requestedAt => if dueAt debounce requestedAt ≤ now then s.beginAttempt false else s
  | none => s

def startBackground (spawned : Bool) (s : DebouncedSyncScheduler) : DebouncedSyncScheduler :=
  if s.state.backgroundRunning then s
  else if spawned then
    { s with
      state := { s.state with backgroundRunning := true, shutdownRequested := false }
      background := .waiting }
  else { s with state := { s.state with backgroundRunning := false, shutdownRequested := false } }

/-- One turn of the inner loop of `run_background`; where the source waits, the
thread stays where it is. -/
def backgroundTurn (debounce : Nat) (now : SystemTime) (s : DebouncedSyncScheduler) : DebouncedSyncScheduler :=
  if s.state.shutdownRequested then
    { s with
      state := { s.state with backgroundRunning := false, shutdownRequested := false }
      background := .stopped }
  else match s.state.requestedAt with
    | none => s
    | some requestedAt =>
      if s.state.failedRequestSerial = some s.state.requestSerial then s
      else if dueAt debounce requestedAt ≤ now then { s.beginAttempt true with background := .syncing }
      else s

def finishSyncAttempt (serial : UInt64) (result : Except String Unit) (state : DebouncedSyncState) :
    DebouncedSyncState :=
  if state.requestSerial = serial then
    match result with
    | .ok () => { state with requestedAt := none, lastError := none, failedRequestSerial := none }
    | .error err => { state with lastError := some err, failedRequestSerial := some serial }
  else state

def finish (id : Nat) (result : Except String Unit) (s : DebouncedSyncScheduler) : DebouncedSyncScheduler :=
  match s.attempts[id]? with
  | none => s
  | some attempt =>
    if attempt.finished then s
    else
      { s with
        state := finishSyncAttempt attempt.serial result s.state
        background := if attempt.background then .waiting else s.background
        attempts := s.attempts.set id { attempt with finished := true } }

def step (debounce : Nat) (s : DebouncedSyncScheduler) : SchedulerAction → DebouncedSyncScheduler
  | .request now => s.request now
  | .runDue now => s.runDue debounce now
  | .flush => s.beginAttempt false
  | .startBackground spawned => s.startBackground spawned
  | .backgroundWake now => if s.background = .waiting then s.backgroundTurn debounce now else s
  | .shutdown => { s with state := { s.state with shutdownRequested := true } }
  | .finishSyncAttempt id result => s.finish id result

variable {debounce : Nat} {s : DebouncedSyncScheduler}

/-! ## Serials -/

/-- Serials are the counts of requests in 64 bits, and no attempt is ahead. -/
structure SerialInv (s : DebouncedSyncScheduler) : Prop where
  serial : s.state.requestSerial = UInt64.ofNat s.requests
  attempts : ∀ attempt ∈ s.attempts, attempt.serial = UInt64.ofNat attempt.seen ∧ attempt.seen ≤ s.requests

theorem SerialInv.beginAttempt (hs : SerialInv s) (background : Bool) : SerialInv (s.beginAttempt background) where
  serial := hs.serial
  attempts attempt hmem := by
    rcases List.mem_append.mp hmem with hmem | hmem
    · exact hs.attempts attempt hmem
    · cases List.mem_singleton.mp hmem
      exact ⟨hs.serial, Nat.le_refl _⟩

theorem SerialInv.request (hs : SerialInv s) (now : SystemTime) : SerialInv (s.request now) where
  serial := by
    simp only [DebouncedSyncScheduler.request, hs.serial, UInt64.ofNat_add, UInt64.ofNat_one]
  attempts attempt hmem := by
    obtain ⟨hserial, hle⟩ := hs.attempts attempt hmem
    exact ⟨hserial, Nat.le_succ_of_le hle⟩

theorem SerialInv.of_eq (hs : SerialInv s) {s' : DebouncedSyncScheduler}
    (hserial : s'.state.requestSerial = s.state.requestSerial) (hattempts : s'.attempts = s.attempts)
    (hrequests : s'.requests = s.requests) : SerialInv s' where
  serial := by rw [hserial, hrequests, hs.serial]
  attempts := by
    rw [hattempts, hrequests]
    exact hs.attempts

theorem finishSyncAttempt_serial (serial : UInt64) (result : Except String Unit) (state : DebouncedSyncState) :
    (finishSyncAttempt serial result state).requestSerial = state.requestSerial := by
  unfold finishSyncAttempt
  split
  · split <;> rfl
  · rfl

theorem SerialInv.finish (hs : SerialInv s) (id : Nat) (result : Except String Unit) :
    SerialInv (s.finish id result) := by
  unfold DebouncedSyncScheduler.finish
  cases hid : s.attempts[id]? with
  | none => exact hs
  | some attempt =>
    dsimp only
    split
    · exact hs
    · refine ⟨?_, fun attempt' hmem => ?_⟩
      · exact (finishSyncAttempt_serial _ _ _).trans hs.serial
      · rcases List.mem_or_eq_of_mem_set hmem with hmem | heq
        · exact hs.attempts attempt' hmem
        · subst heq
          exact hs.attempts attempt (List.mem_of_getElem? hid)

theorem SerialInv.step (hs : SerialInv s) (a : SchedulerAction) : SerialInv (s.step debounce a) := by
  cases a with
  | request now => exact hs.request now
  | runDue now =>
    simp only [DebouncedSyncScheduler.step, runDue]
    split
    · split
      · exact hs.beginAttempt _
      · exact hs
    · exact hs
  | flush => exact hs.beginAttempt _
  | startBackground spawned =>
    simp only [DebouncedSyncScheduler.step, startBackground]
    split
    · exact hs
    · split
      · exact hs.of_eq rfl rfl rfl
      · exact hs.of_eq rfl rfl rfl
  | backgroundWake now =>
    simp only [DebouncedSyncScheduler.step, backgroundTurn]
    split
    · split
      · exact hs.of_eq rfl rfl rfl
      · split
        · exact hs
        · split
          · exact hs
          · split
            · exact (hs.beginAttempt true).of_eq rfl rfl rfl
            · exact hs
    · exact hs
  | shutdown => exact hs.of_eq rfl rfl rfl
  | finishSyncAttempt id result => exact hs.finish id result

theorem serialInv_run (as : List SchedulerAction) : SerialInv (run (step debounce) new as) :=
  run_invariant_of_step (fun _ a hs => hs.step a) ⟨rfl, by simp [new]⟩ as

theorem requests_step (a : SchedulerAction) :
    (s.step debounce a).requests = s.requests + if a.isRequest then 1 else 0 := by
  cases a with
  | request now => rfl
  | runDue now =>
    simp only [step, runDue]
    split
    · split <;> rfl
    · rfl
  | flush => rfl
  | startBackground spawned =>
    simp only [step, startBackground]
    split
    · rfl
    · split <;> rfl
  | backgroundWake now =>
    simp only [step, backgroundTurn]
    split
    · split
      · rfl
      · split
        · rfl
        · split
          · rfl
          · split <;> rfl
    · rfl
  | shutdown => rfl
  | finishSyncAttempt id result =>
    simp only [step, finish]
    split
    · rfl
    · split <;> rfl

theorem requests_run (s : DebouncedSyncScheduler) (as : List SchedulerAction) :
    (run (step debounce) s as).requests = s.requests + as.countP (·.isRequest) := by
  induction as generalizing s with
  | nil => rfl
  | cons a as ih =>
    rw [run_cons, ih, requests_step, List.countP_cons]
    omega

/-- While serials do not repeat, an attempt has the serial of the last request
only if it began after it. -/
theorem SerialInv.seen_eq (hs : SerialInv s) (hfew : s.requests < 2 ^ 64) {attempt : SyncAttempt}
    (hmem : attempt ∈ s.attempts) (h : s.state.requestSerial = attempt.serial) : attempt.seen = s.requests := by
  obtain ⟨hserial, hle⟩ := hs.attempts attempt hmem
  rw [hs.serial, hserial] at h
  have hval := congrArg UInt64.toNat h
  rw [UInt64.toNat_ofNat', UInt64.toNat_ofNat', Nat.mod_eq_of_lt hfew, Nat.mod_eq_of_lt (by omega)] at hval
  exact hval.symm

/-! ## What clears a request -/

theorem requestedAt_of_finish {serial : UInt64} {result : Except String Unit} {state : DebouncedSyncState}
    (hpending : state.requestedAt ≠ none) (h : (finishSyncAttempt serial result state).requestedAt = none) :
    state.requestSerial = serial ∧ result = .ok () := by
  unfold finishSyncAttempt at h
  split at h
  · split at h
    · exact ⟨‹_›, rfl⟩
    · exact absurd h hpending
  · exact absurd h hpending

/-- Only the end of a successful attempt with the current serial clears a request. -/
theorem requestedAt_step {a : SchedulerAction} (hpending : s.state.requestedAt ≠ none)
    (h : (s.step debounce a).state.requestedAt = none) :
    ∃ id attempt, a = .finishSyncAttempt id (.ok ()) ∧ s.attempts[id]? = some attempt ∧
      attempt.finished = false ∧ s.state.requestSerial = attempt.serial := by
  cases a with
  | request now => cases h
  | runDue now =>
    simp only [step, runDue] at h
    split at h
    · split at h <;> exact absurd h hpending
    · exact absurd h hpending
  | flush => exact absurd h hpending
  | startBackground spawned =>
    simp only [step, startBackground] at h
    split at h
    · exact absurd h hpending
    · split at h <;> exact absurd h hpending
  | backgroundWake now =>
    simp only [step, backgroundTurn] at h
    split at h
    · split at h
      · exact absurd h hpending
      · split at h
        · exact absurd h hpending
        · split at h
          · exact absurd h hpending
          · split at h <;> exact absurd h hpending
    · exact absurd h hpending
  | shutdown => exact absurd h hpending
  | finishSyncAttempt id result =>
    simp only [step, finish] at h
    split at h
    · exact absurd h hpending
    · rename_i attempt hid
      split at h
      · exact absurd h hpending
      · rename_i hopen
        obtain ⟨hserial, rfl⟩ := requestedAt_of_finish hpending h
        exact ⟨id, attempt, rfl, hid, by simpa using hopen, hserial⟩

/-- An attempt that began before the last request leaves the state cell alone. -/
theorem finish_stale {id : Nat} {attempt : SyncAttempt} (hid : s.attempts[id]? = some attempt)
    (hserial : s.state.requestSerial ≠ attempt.serial) (result : Except String Unit) :
    (s.finish id result).state = s.state := by
  simp only [finish, hid]
  split
  · rfl
  · simp only [finishSyncAttempt, if_neg hserial]

theorem runDue_begins {now : SystemTime} (h : (s.runDue debounce now).attempts ≠ s.attempts) :
    ∃ requestedAt, s.state.requestedAt = some requestedAt ∧ dueAt debounce requestedAt ≤ now := by
  unfold runDue at h
  split at h
  · rename_i requestedAt hpending
    split at h
    · exact ⟨requestedAt, hpending, ‹_›⟩
    · exact absurd rfl h
  · exact absurd rfl h

/-- In every interleaving of fewer than 2^64 requests: a request is cleared only by
the end of a successful attempt that began after it; an attempt that began before
it leaves it pending; and `run_due` begins an attempt only for a request that is due. -/
theorem run_keeps_request (debounce : Nat) (as : List SchedulerAction)
    (hfew : as.countP (·.isRequest) < 2 ^ 64) :
    let s := run (step debounce) new as
    (∀ a, s.state.requestedAt ≠ none → (s.step debounce a).state.requestedAt = none →
      ∃ id attempt, a = .finishSyncAttempt id (.ok ()) ∧ s.attempts[id]? = some attempt ∧
        attempt.finished = false ∧ attempt.seen = s.requests) ∧
    (∀ id attempt result, s.attempts[id]? = some attempt → attempt.seen < s.requests →
      (s.step debounce (.finishSyncAttempt id result)).state = s.state) ∧
    ∀ now, (s.step debounce (.runDue now)).attempts ≠ s.attempts →
      ∃ requestedAt, s.state.requestedAt = some requestedAt ∧ dueAt debounce requestedAt ≤ now := by
  intro s
  have hs : SerialInv s := serialInv_run as
  have hlt : s.requests < 2 ^ 64 := by
    rw [show s.requests = 0 + as.countP (·.isRequest) from requests_run new as]
    omega
  refine ⟨fun a hpending h => ?_, fun id attempt result hid hseen => ?_, fun now h => runDue_begins h⟩
  · obtain ⟨id, attempt, ha, hid, hopen, hserial⟩ := requestedAt_step hpending h
    exact ⟨id, attempt, ha, hid, hopen, hs.seen_eq hlt (List.mem_of_getElem? hid) hserial⟩
  · refine finish_stale hid (fun hserial => ?_) result
    have heq := hs.seen_eq hlt (List.mem_of_getElem? hid) hserial
    omega

theorem run_keeps_request_during_sync :
    (run (step 5) new [.request 0, .runDue 5, .request 6, .finishSyncAttempt 0 (.ok ())]).state.requestedAt =
      some 6 := by
  have h := (run_keeps_request 5 [.request 0, .runDue 5, .request 6] (by decide)).2.1
    0 { serial := 1, background := false, seen := 1, finished := false } (.ok ()) (by rfl) (by decide)
  exact (congrArg DebouncedSyncState.requestedAt h).trans (by rfl)

end DebouncedSyncScheduler
end Star9
