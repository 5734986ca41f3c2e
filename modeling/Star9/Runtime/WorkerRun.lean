import Star9.Base.Map
import Star9.Runtime.Worker

/-!
# Requests that fail

A request looks up its task and its worker before its first effect, and a failure there
changes nothing. What it does afterwards may fail as well, and is not taken back.
-/
namespace Star9
open Base Prog

namespace RuntimeProtocolHost
variable {F : Type} {h h' : RuntimeProtocolHost F}

/-! ## Look-ups and records -/

theorem lookup_of_some {rid : String} {id : Nat} (hid : lookup? rid h = some id) : lookup rid h = (.ok id, h) := by
  unfold lookup
  rw [get_bind, hid]
  rfl

theorem lookup_of_none {rid : String} (hid : lookup? rid h = none) : lookup rid h = (.err (.path "lookup" rid .notFound), h) := by
  unfold lookup
  rw [get_bind, hid]
  rfl

/-- Nothing else is recorded for the worker. -/
def Compatible (workers : Std.ExtTreeMap String String) (worker : WorkerHandle) : Prop :=
  ∀ existing, workers[worker.workerId]? = some existing → existing = worker.taskId

theorem recordWorker_of_compatible {worker : WorkerHandle} (hc : Compatible h.workers worker) :
    recordWorker worker h = (.ok (), { h with workers := h.workers.insert worker.workerId worker.taskId }) := by
  unfold recordWorker
  rw [get_bind]
  cases hw : h.workers[worker.workerId]? with
  | none => rfl
  | some existing =>
    dsimp only
    rw [if_neg (not_not.mpr (hc existing hw))]
    rfl

theorem recordWorker_of_not {worker : WorkerHandle} (hc : ¬Compatible h.workers worker) :
    recordWorker worker h = (.err (conflict worker.workerId), h) := by
  unfold recordWorker
  rw [get_bind]
  cases hw : h.workers[worker.workerId]? with
  | none =>
    refine absurd (fun existing he => ?_) hc
    rw [hw] at he
    cases he
  | some existing =>
    have hne : existing ≠ worker.taskId := by
      intro heq
      refine hc fun other he => ?_
      rw [hw] at he
      cases he
      exact heq
    dsimp only
    rw [if_pos hne]
    rfl

theorem lookupTaskForWorker_cases (worker : WorkerHandle) (h : RuntimeProtocolHost F) :
    (∃ id, lookupTaskForWorker worker h = (.ok id, h) ∧ lookup? worker.taskId h = some id ∧ Compatible h.workers worker) ∨
    ((∃ e, lookupTaskForWorker worker h = (.err e, h)) ∧ (lookup? worker.taskId h = none ∨ ¬Compatible h.workers worker)) := by
  unfold lookupTaskForWorker
  cases hid : lookup? worker.taskId h with
  | none =>
    exact .inr ⟨⟨_, bind_err (lookup_of_none hid)⟩, .inl rfl⟩
  | some id =>
    rw [bind_ok (lookup_of_some hid), get_bind]
    cases hw : h.workers[worker.workerId]? with
    | none =>
      refine .inl ⟨id, rfl, rfl, fun existing he => ?_⟩
      rw [hw] at he
      cases he
    | some existing =>
      dsimp only
      by_cases heq : existing = worker.taskId
      · rw [if_neg (not_not.mpr heq)]
        refine .inl ⟨id, rfl, rfl, fun other he => ?_⟩
        rw [hw] at he
        cases he
        exact heq
      · rw [if_pos heq]
        exact .inr ⟨⟨_, rfl⟩, .inr fun hc => heq (hc existing hw)⟩

theorem parentTask_cases (parentTaskId : Option String) (h : RuntimeProtocolHost F) :
    (∃ parent, parentTask parentTaskId h = (.ok parent, h) ∧ ∀ rid, parentTaskId = some rid → (lookup? rid h).isSome = true) ∨
    ∃ e, parentTask parentTaskId h = (.err e, h) := by
  cases parentTaskId with
  | none => exact .inl ⟨h.root, rfl, nofun⟩
  | some rid =>
    cases hid : lookup? rid h with
    | none => exact .inr ⟨_, lookup_of_none hid⟩
    | some id =>
      refine .inl ⟨id, lookup_of_some hid, fun rid' heq => ?_⟩
      cases heq
      rw [hid]
      rfl

/-- The host with one more task. -/
def allocated (kind : String) (parent : Option Nat) (h : RuntimeProtocolHost F) : RuntimeProtocolHost F :=
  { h with
    nextId := h.nextId + 1
    resources := h.resources.insert (toString (h.nextId.toNat + 1))
      (newTask (h.nextId.toNat + 1) kind (parent <|> (h.resources["1"]?).map RuntimeTask.id)) }

theorem alloc_cases (kind : String) (parent : Option Nat) (h : RuntimeProtocolHost F) :
    (h.nextId ≠ 0xffffffff ∧ alloc kind parent h = (.ok (h.nextId.toNat + 1), allocated kind parent h)) ∨
    alloc kind parent h = (.abort, h) := by
  unfold alloc
  rw [get_bind, branch_apply]
  by_cases hmax : h.nextId = 0xffffffff
  · rw [if_pos hmax]
    exact .inr rfl
  · rw [if_neg hmax]
    exact .inl ⟨hmax, rfl⟩

/-- The workers once the sender of a message is recorded. -/
def workersAfter (workerId : Option String) (id : Nat) (h : RuntimeProtocolHost F) : Std.ExtTreeMap String String :=
  match workerId with
  | some workerId => h.workers.insert workerId (toString id)
  | none => h.workers

theorem recordSender_cases (id : Nat) (workerId : Option String) (h : RuntimeProtocolHost F) :
    (recordSender id workerId h = (.ok (), { h with workers := workersAfter workerId id h }) ∧
      ∀ w, workerId = some w → Compatible h.workers ⟨w, toString id⟩) ∨
    ∃ e, recordSender id workerId h = (.err e, h) := by
  cases workerId with
  | none => exact .inl ⟨rfl, nofun⟩
  | some w =>
    by_cases hc : Compatible h.workers ⟨w, toString id⟩
    · refine .inl ⟨recordWorker_of_compatible hc, fun w' heq => ?_⟩
      cases heq
      exact hc
    · exact .inr ⟨_, recordWorker_of_not hc⟩

/-! ## Requests that fail -/

/-- The parts of the host that a request may change. -/
structure Unchanged (h h' : RuntimeProtocolHost F) : Prop where
  workers : h'.workers = h.workers
  ports : h'.ports = h.ports
  messages : h'.messages = h.messages
  tasks : h'.resources = h.resources

/-- The descriptor is open, and its file takes the bytes. -/
def Writable (env : RuntimeEnv F) (id : Nat) (fd : UInt32) (data : Bytes) (h : RuntimeProtocolHost F) : Prop :=
  ∃ task file, h.resources[toString id]? = some task ∧ task.files[fd.toNat]? = some file ∧ (env.append file.file data).1 = .ok ()

/-- The payload of the message takes effect once the message is logged. -/
def Deliverable (env : RuntimeEnv F) (id : Nat) (message : TaskMessage) (h : RuntimeProtocolHost F) : Prop :=
  match message.payload with
  | .portHandoff handoff => (lookup? handoff.worker.taskId h).isSome = true ∧ (lookup? handoff.targetTaskId h).isSome = true ∧
      Compatible (workersAfter message.workerId id h) handoff.worker
  | .stdioData stream data _ => Writable env id (stdioFd stream) data h
  | .fdData fd data _ => Writable env id fd data h
  | _ => True

/-- What the request does after its first effect does not fail. -/
def Prompt (env : RuntimeEnv F) (h : RuntimeProtocolHost F) : RuntimeRequest → Prop
  | .spawnWorker worker parentTaskId => (∀ parent, parentTaskId = some parent → (lookup? parent h).isSome = true) →
      Compatible h.workers ⟨worker.workerId, toString (h.nextId.toNat + 1)⟩
  | .startWorker worker execution => ∀ id, lookup? worker.taskId h = some id → Compatible h.workers worker →
      ∀ fd ∈ descriptors env id execution, fd.2.isOk = true
  | .openPort _ _ => True
  | .handoffPort _ => True
  | .postMessage message => ∀ id, lookup? message.taskId h = some id →
      (∀ workerId, message.workerId = some workerId → Compatible h.workers ⟨workerId, toString id⟩) → Deliverable env id message h

theorem installFds_cons (id : Nat) (fd : UInt32 × Except Error (OpenFile F)) (fds : List (UInt32 × Except Error (OpenFile F))) :
    installFds id (fd :: fds) = ((Prog.ofExcept fd.2 >>= setFd id fd.1) >>= fun _ => installFds id fds) := rfl

theorem installFds_no_err {id : Nat} {fds : List (UInt32 × Except Error (OpenFile F))} (hok : ∀ fd ∈ fds, fd.2.isOk = true)
    {e : Error} : installFds id fds h ≠ (.err e, h') := by
  induction fds generalizing h with
  | nil => nofun
  | cons fd fds ih =>
    intro herr
    rw [installFds_cons, bind_eq_err] at herr
    rcases herr with herr | ⟨_, h₁, -, herr⟩
    · have hfd := hok fd List.mem_cons_self
      cases hfile : fd.2 with
      | error e => rw [hfile] at hfd; cases hfd
      | ok file =>
        rw [hfile, ofExcept_ok, bind_eq_err] at herr
        rcases herr with herr | ⟨file', h₂, -, herr⟩
        · cases herr
        · unfold setFd at herr
          rw [branch_apply] at herr
          split at herr
          · cases herr
          · cases herr
    · exact ih (fun x hx => hok x (List.mem_cons_of_mem _ hx)) herr

theorem applyExecutionSpec_no_err {env : RuntimeEnv F} {id : Nat} {worker : WorkerHandle} {execution : ExecutionSpec}
    (hok : ∀ fd ∈ descriptors env id execution, fd.2.isOk = true) {e : Error} :
    applyExecutionSpec env id worker execution h ≠ (.err e, h') := by
  intro herr
  unfold applyExecutionSpec at herr
  rw [modify_bind, bind_eq_err] at herr
  rcases herr with herr | ⟨_, h₁, -, herr⟩
  · exact installFds_no_err hok herr
  · cases herr

theorem handoffPort_no_err {request : PortHandoff} (htask : (lookup? request.worker.taskId h).isSome = true)
    (htarget : (lookup? request.targetTaskId h).isSome = true) (hc : Compatible h.workers request.worker) {e : Error} :
    handoffPort request h ≠ (.err e, h') := by
  intro herr
  obtain ⟨target, htarget⟩ := Option.isSome_iff_exists.mp htarget
  unfold handoffPort at herr
  rcases lookupTaskForWorker_cases request.worker h with ⟨id, hlook, -, -⟩ | ⟨-, hnone | hnot⟩
  · rw [bind_ok hlook, bind_ok (lookup_of_some htarget), bind_ok (recordWorker_of_compatible hc)] at herr
    cases herr
  · rw [hnone] at htask
    cases htask
  · exact hnot hc

theorem writeTaskFd_no_err {env : RuntimeEnv F} {id : Nat} {fd : UInt32} {data : Bytes} (hw : Writable env id fd data h) {e : Error} :
    writeTaskFd env id fd data h ≠ (.err e, h') := by
  intro herr
  obtain ⟨task, file, htask, hfile, happend⟩ := hw
  unfold writeTaskFd at herr
  rw [get_bind, htask] at herr
  dsimp only at herr
  rw [hfile] at herr
  dsimp only at herr
  rw [happend] at herr
  cases herr

theorem deliverPayload_no_err {env : RuntimeEnv F} {id : Nat} {message : TaskMessage} (hd : Deliverable env id message h) {e : Error} :
    deliverPayload env id message (logMessage id message { h with workers := workersAfter message.workerId id h }) ≠ (.err e, h') := by
  intro herr
  unfold Deliverable at hd
  unfold deliverPayload at herr
  cases hp : message.payload with
  | ready => rw [hp] at herr; cases herr
  | exit status => rw [hp] at herr; cases herr
  | portOpened port => rw [hp] at herr; cases herr
  | portHandoff handoff =>
    rw [hp] at herr hd
    dsimp only at herr hd
    rw [bind_eq_err] at herr
    rcases herr with herr | ⟨_, _, -, herr⟩
    · exact handoffPort_no_err (h := logMessage id message { h with workers := workersAfter message.workerId id h }) hd.1 hd.2.1 hd.2.2 herr
    · cases herr
  | stdioData stream data eof =>
    rw [hp] at herr hd
    exact writeTaskFd_no_err (h := logMessage id message { h with workers := workersAfter message.workerId id h }) hd herr
  | fdData fd data eof =>
    rw [hp] at herr hd
    exact writeTaskFd_no_err (h := logMessage id message { h with workers := workersAfter message.workerId id h }) hd herr

theorem handleRequest_unchanged {env : RuntimeEnv F} {request : RuntimeRequest} (hprompt : Prompt env h request) {e : Error}
    (herr : handleRequest env request h = (.err e, h')) : h' = h := by
  cases request with
  | spawnWorker worker parentTaskId =>
    unfold handleRequest at herr
    rw [bind_eq_err] at herr
    rcases herr with herr | ⟨_, _, -, herr⟩
    · unfold spawnWorker at herr
      rcases parentTask_cases parentTaskId h with ⟨parent, hparent, hresolves⟩ | ⟨e', hparent⟩
      · rw [bind_ok hparent] at herr
        rcases alloc_cases "auto" (some parent) h with ⟨-, halloc⟩ | halloc
        · rw [bind_ok halloc, bind_ok (recordWorker_of_compatible (h := allocated "auto" (some parent) h) (hprompt hresolves))] at herr
          cases herr
        · rw [bind_abort halloc] at herr
          cases herr
      · rw [bind_err hparent] at herr
        exact (congrArg Prod.snd herr).symm
    · cases herr
  | startWorker worker execution =>
    unfold handleRequest startWorker at herr
    rw [bind_eq_err] at herr
    rcases herr with herr | ⟨_, _, -, herr⟩
    · rcases lookupTaskForWorker_cases worker h with ⟨id, hlook, hid, hc⟩ | ⟨⟨e', hlook⟩, -⟩
      · rw [bind_ok hlook, bind_ok (recordWorker_of_compatible hc), bind_eq_err] at herr
        rcases herr with herr | ⟨_, _, -, herr⟩
        · exact absurd herr (applyExecutionSpec_no_err (hprompt id hid hc))
        · cases herr
      · rw [bind_err hlook] at herr
        exact (congrArg Prod.snd herr).symm
    · cases herr
  | openPort worker port =>
    unfold handleRequest openPort at herr
    rw [bind_eq_err] at herr
    rcases herr with herr | ⟨_, _, -, herr⟩
    · rcases lookupTaskForWorker_cases worker h with ⟨id, hlook, hid, hc⟩ | ⟨⟨e', hlook⟩, -⟩
      · rw [bind_ok hlook, bind_ok (recordWorker_of_compatible hc)] at herr
        cases herr
      · rw [bind_err hlook] at herr
        exact (congrArg Prod.snd herr).symm
    · cases herr
  | handoffPort handoff =>
    unfold handleRequest at herr
    rw [bind_eq_err] at herr
    rcases herr with herr | ⟨_, _, -, herr⟩
    · by_cases hfine : (lookup? handoff.worker.taskId h).isSome = true ∧ (lookup? handoff.targetTaskId h).isSome = true ∧
          Compatible h.workers handoff.worker
      · exact absurd herr (handoffPort_no_err hfine.1 hfine.2.1 hfine.2.2)
      · unfold handoffPort at herr
        rcases lookupTaskForWorker_cases handoff.worker h with ⟨id, hlook, hid, hc⟩ | ⟨⟨e', hlook⟩, -⟩
        · rw [bind_ok hlook] at herr
          cases htarget : lookup? handoff.targetTaskId h with
          | none =>
            rw [bind_err (lookup_of_none htarget)] at herr
            exact (congrArg Prod.snd herr).symm
          | some target => exact absurd ⟨by rw [hid]; rfl, by rw [htarget]; rfl, hc⟩ hfine
        · rw [bind_err hlook] at herr
          exact (congrArg Prod.snd herr).symm
    · cases herr
  | postMessage message =>
    unfold handleRequest at herr
    rw [bind_eq_err] at herr
    rcases herr with herr | ⟨_, _, -, herr⟩
    · unfold postMessage at herr
      cases hid : lookup? message.taskId h with
      | none =>
        rw [bind_err (lookup_of_none hid)] at herr
        exact (congrArg Prod.snd herr).symm
      | some id =>
        rw [bind_ok (lookup_of_some hid)] at herr
        rcases recordSender_cases id message.workerId h with ⟨hrecord, hc⟩ | ⟨e', hrecord⟩
        · rw [bind_ok hrecord, modify_bind, bind_eq_err] at herr
          rcases herr with herr | ⟨_, _, -, herr⟩
          · exact absurd herr (deliverPayload_no_err (hprompt id hid hc))
          · cases herr
        · rw [bind_err hrecord] at herr
          exact (congrArg Prod.snd herr).symm
    · cases herr

/-- In every state that a run reaches, a request that fails changes nothing, unless it fails after its first effect. -/
theorem run_unchanged (ops : List (HostOp F)) (env : RuntimeEnv F) (request : RuntimeRequest)
    (hprompt : Prompt env (run step new ops) request) (e : Error) (h' : RuntimeProtocolHost F)
    (herr : handleRequest env request (run step new ops) = (.err e, h')) : Unchanged (run step new ops) h' := by
  have hsame := handleRequest_unchanged hprompt herr
  subst hsame
  exact ⟨rfl, rfl, rfl, rfl⟩

/-- Files that keep what is appended to them, and namespaces that hold nothing. -/
def plainEnv : RuntimeEnv Bytes :=
  { openPath := fun _ path => .error (.path "open" path .notFound), openVirtual := fun _ _ => []
    append := fun file data => (.ok (), file ++ data) }

def plainExecution : ExecutionSpec :=
  { module := "conflict.wasm", args := [], env := [], cwd := none, stdio := ⟨.inherit, .inherit, .inherit⟩, fds := [] }

def spawned : List (HostOp Bytes) := [.request plainEnv (.spawnWorker ⟨"w", "ignored"⟩ none)]

theorem run_unchanged_conflict :
    Unchanged (run step new spawned) (handleRequest plainEnv (.startWorker ⟨"w", "1"⟩ plainExecution) (run step new spawned)).2 := by
  refine run_unchanged spawned plainEnv (.startWorker ⟨"w", "1"⟩ plainExecution) ?_ (conflict "w") _ ?_
  · intro id _ hc
    have hw : (run step new spawned).workers["w"]? = some "2" := by decide +kernel
    exact absurd (hc "2" hw) (by decide)
  · refine Prod.ext ?_ rfl
    decide +kernel

/-- A worker spawned twice: the second request fails, and leaves a task behind. -/
theorem run_not_unchanged : ¬∀ (ops : List (HostOp Bytes)) (env : RuntimeEnv Bytes) (request : RuntimeRequest) (e : Error)
    (h' : RuntimeProtocolHost Bytes), handleRequest env request (run step new ops) = (.err e, h') → Unchanged (run step new ops) h' := by
  intro hall
  have hsame := hall spawned plainEnv (.spawnWorker ⟨"w", "ignored"⟩ none) (conflict "w")
    (handleRequest plainEnv (.spawnWorker ⟨"w", "ignored"⟩ none) (run step new spawned)).2
    (by
      refine Prod.ext ?_ rfl
      decide +kernel)
  have hleft : ((handleRequest plainEnv (.spawnWorker ⟨"w", "ignored"⟩ none) (run step new spawned)).2.resources["3"]?).isSome = true := by
    decide +kernel
  rw [hsame.tasks] at hleft
  exact absurd hleft (by decide +kernel)

end RuntimeProtocolHost
end Star9
