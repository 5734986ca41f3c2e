import Star9.Base.Bytes
import Star9.Base.Run
import Star9.Base.Triple
import Star9.Core.Basic

/-!
# Workers of the runtime

Tasks are found by number or by alias. The host binds a worker to the task id of a
request. What a task's namespace opens and what a file does with the bytes it is given
are parameters of each request; running out of task numbers or descriptors is a panic.
-/
namespace Star9
open Base Prog

inductive FdKind where
  | file
  | directory
  | pipe
  | socket
  | port
  deriving DecidableEq, Repr

structure PortDescriptor where
  portId : String
  name : String
  deriving DecidableEq, Repr

structure FdDescriptor where
  fd : UInt32
  kind : FdKind
  path : Option String
  deriving DecidableEq, Repr

inductive StreamDescriptor where
  | inherit
  | null
  | fd (descriptor : FdDescriptor)
  | port (descriptor : PortDescriptor)
  deriving DecidableEq, Repr

structure StdioSet where
  stdin : StreamDescriptor
  stdout : StreamDescriptor
  stderr : StreamDescriptor
  deriving DecidableEq, Repr

structure EnvironmentEntry where
  name : String
  value : String
  deriving DecidableEq, Repr

structure ExecutionSpec where
  module : String
  args : List String
  env : List EnvironmentEntry
  cwd : Option String
  stdio : StdioSet
  fds : List FdDescriptor
  deriving DecidableEq, Repr

structure WorkerHandle where
  workerId : String
  taskId : String
  deriving DecidableEq, Repr

structure PortHandoff where
  worker : WorkerHandle
  targetTaskId : String
  port : PortDescriptor
  deriving DecidableEq, Repr

inductive StdioStream where
  | stdin
  | stdout
  | stderr
  deriving DecidableEq, Repr

inductive ExitStatus where
  | exitCode (code : Int)
  | signal (signal : String)
  | trap (reason : String)
  deriving DecidableEq, Repr

inductive TaskMessagePayload where
  | ready
  | stdioData (stream : StdioStream) (data : Bytes) (eof : Bool)
  | fdData (fd : UInt32) (data : Bytes) (eof : Bool)
  | portOpened (port : PortDescriptor)
  | portHandoff (handoff : PortHandoff)
  | exit (status : ExitStatus)
  deriving DecidableEq, Repr

structure TaskMessage where
  taskId : String
  workerId : Option String
  sequence : Nat
  payload : TaskMessagePayload
  deriving DecidableEq, Repr

structure PortRecord where
  descriptor : PortDescriptor
  ownerTaskId : String
  workerId : Option String
  handoffTargets : List String
  deriving DecidableEq, Repr

/-! ## Tasks -/

structure OpenFile (F : Type) where
  file : F
  path : String

structure RuntimeTask (F : Type) where
  id : Nat
  parent : Option Nat
  aliasName : String
  kind : String
  cmd : String
  env : List String
  exit : String
  dir : String
  files : Std.ExtTreeMap Nat (OpenFile F)
  nextFd : Nat
  worker : Option String

/-- What a request meets outside the host: the namespaces of the tasks, the files made for
a descriptor without a path, and what a file does when it is appended to. -/
structure RuntimeEnv (F : Type) where
  openPath : Nat → String → Except Error F
  openVirtual : FdKind → String → F
  append : F → Bytes → Except Error Unit × F

/-- `acted` remembers the task that a request naming a worker has acted on. -/
structure RuntimeProtocolHost (F : Type) where
  root : Nat
  resources : Std.ExtTreeMap String (RuntimeTask F)
  aliases : Std.ExtTreeMap String Nat
  nextId : UInt32
  workers : Std.ExtTreeMap String String
  ports : Std.ExtTreeMap String PortRecord
  messages : Std.ExtTreeMap String (List TaskMessage)
  acted : List (String × Nat)

namespace RuntimeProtocolHost
variable {F : Type}

def newTask (id : Nat) (kind : String) (parent : Option Nat) : RuntimeTask F :=
  { id, parent, aliasName := "", kind, cmd := "", env := [], exit := "", dir := ".", files := ∅, nextFd := 3, worker := none }

/-- The host of a runtime that has only its root task. -/
def new : RuntimeProtocolHost F :=
  { root := 1, resources := (∅ : Std.ExtTreeMap String (RuntimeTask F)).insert "1" (newTask 1 "auto" none), aliases := ∅, nextId := 1
    workers := ∅, ports := ∅, messages := ∅, acted := [] }

/-- An id goes before an alias. -/
def lookup? (rid : String) (h : RuntimeProtocolHost F) : Option Nat :=
  match h.resources[rid]? with
  | some task => some task.id
  | none => h.aliases[rid]?

def lookup (rid : String) : Prog (RuntimeProtocolHost F) Error Nat := do
  match lookup? rid (← get) with
  | some id => pure id
  | none => throw (.path "lookup" rid .notFound)

def modifyTask (id : Nat) (f : RuntimeTask F → RuntimeTask F) (h : RuntimeProtocolHost F) : RuntimeProtocolHost F :=
  match h.resources[toString id]? with
  | some task => { h with resources := h.resources.insert (toString id) (f task) }
  | none => h

/-- The driver of the kind is registered. -/
def alloc (kind : String) (parent : Option Nat) : Prog (RuntimeProtocolHost F) Error Nat := do
  let h ← get
  if h.nextId = 0xffffffff then abort
  else do
    let id := h.nextId.toNat + 1
    let parent := parent <|> (h.resources["1"]?).map RuntimeTask.id
    modify fun h =>
      { h with nextId := h.nextId + 1, resources := h.resources.insert (toString id) (newTask id kind parent) }
    pure id

def updateAlias (id : Nat) (old new : String) (h : RuntimeProtocolHost F) : RuntimeProtocolHost F :=
  let aliases := if old = "" then h.aliases else h.aliases.erase old
  { h with aliases := if new = "" then aliases else aliases.insert new id }

def setAlias (id : Nat) (new : String) (h : RuntimeProtocolHost F) : RuntimeProtocolHost F :=
  match h.resources[toString id]? with
  | some task => updateAlias id task.aliasName new (modifyTask id (fun task => { task with aliasName := new }) h)
  | none => h

def setFd (id : Nat) (fd : UInt32) (file : OpenFile F) : Prog (RuntimeProtocolHost F) Error Unit :=
  if fd = 0xffffffff then abort
  else modify (modifyTask id fun task =>
    { task with files := task.files.insert fd.toNat file, nextFd := max task.nextFd (fd.toNat + 1) })

/-! ## Workers and ports -/

def conflict (workerId : String) : Error := .path "worker" workerId .alreadyExists

def lookupTaskForWorker (worker : WorkerHandle) : Prog (RuntimeProtocolHost F) Error Nat := do
  let task ← lookup worker.taskId
  match (← get).workers[worker.workerId]? with
  | some existing => if existing ≠ worker.taskId then throw (conflict worker.workerId) else pure task
  | none => pure task

def recordWorker (worker : WorkerHandle) : Prog (RuntimeProtocolHost F) Error Unit := do
  match (← get).workers[worker.workerId]? with
  | some existing =>
    if existing ≠ worker.taskId then throw (conflict worker.workerId)
    else modify fun h => { h with workers := h.workers.insert worker.workerId worker.taskId }
  | none => modify fun h => { h with workers := h.workers.insert worker.workerId worker.taskId }

def upsertPort (port : PortDescriptor) (ownerTaskId : String) (workerId : Option String) (handoffTarget : Option String)
    (h : RuntimeProtocolHost F) : RuntimeProtocolHost F :=
  let targets :=
    match h.ports[port.portId]? with
    | some record => record.handoffTargets
    | none => []
  { h with
    ports := h.ports.insert port.portId
      { descriptor := port, ownerTaskId, workerId, handoffTargets := targets ++ handoffTarget.toList } }

def note (workerId : String) (id : Nat) (h : RuntimeProtocolHost F) : RuntimeProtocolHost F :=
  { h with acted := h.acted ++ [(workerId, id)] }

/-! ## Descriptors -/

def renderCommand (module : String) (args : List String) : String :=
  if args = [] then module else module ++ " " ++ " ".intercalate args

def renderEnv (entries : List EnvironmentEntry) : List String := entries.map fun entry => entry.name ++ "=" ++ entry.value

def renderExitStatus : ExitStatus → String
  | .exitCode code => toString code
  | .signal signal => "signal:" ++ signal
  | .trap reason => "trap:" ++ reason

def stdioFd : StdioStream → UInt32
  | .stdin => 0
  | .stdout => 1
  | .stderr => 2

def fallbackFdPath (descriptor : FdDescriptor) (defaultFd : Option UInt32) : String :=
  match descriptor.kind with
  | .port => "port-fd:" ++ toString descriptor.fd
  | .directory => "dir-fd:" ++ toString descriptor.fd
  | .pipe => "pipe-fd:" ++ toString descriptor.fd
  | .socket => "socket-fd:" ++ toString descriptor.fd
  | .file => "file-fd:" ++ toString (defaultFd.getD descriptor.fd)

def openVirtualFd (env : RuntimeEnv F) (kind : FdKind) (name : String) : OpenFile F := ⟨env.openVirtual kind name, name⟩

def openFdDescriptor (env : RuntimeEnv F) (id : Nat) (descriptor : FdDescriptor) (defaultFd : Option UInt32) :
    Except Error (OpenFile F) :=
  match descriptor.path with
  | some path =>
    match env.openPath id path with
    | .ok file => .ok ⟨file, path⟩
    | .error e => .error e
  | none => .ok (openVirtualFd env descriptor.kind (fallbackFdPath descriptor defaultFd))

def openStreamDescriptor (env : RuntimeEnv F) (id : Nat) (name : String) : StreamDescriptor → Except Error (OpenFile F)
  | .inherit => .ok (openVirtualFd env .pipe name)
  | .null => .ok (openVirtualFd env .pipe ("null:" ++ name))
  | .fd descriptor => openFdDescriptor env id descriptor none
  | .port port => .ok (openVirtualFd env .port ("port:" ++ port.portId))

/-- The descriptors a task is given, in order. -/
def descriptors (env : RuntimeEnv F) (id : Nat) (execution : ExecutionSpec) : List (UInt32 × Except Error (OpenFile F)) :=
  [(0, openStreamDescriptor env id "stdin" execution.stdio.stdin),
    (1, openStreamDescriptor env id "stdout" execution.stdio.stdout),
    (2, openStreamDescriptor env id "stderr" execution.stdio.stderr)] ++
  execution.fds.map fun fd => (fd.fd, openFdDescriptor env id fd (some fd.fd))

def installFds (id : Nat) (fds : List (UInt32 × Except Error (OpenFile F))) : Prog (RuntimeProtocolHost F) Error Unit :=
  fds.forM fun fd => do
    let file ← Prog.ofExcept fd.2
    setFd id fd.1 file

def applyExecutionSpec (env : RuntimeEnv F) (id : Nat) (worker : WorkerHandle) (execution : ExecutionSpec) :
    Prog (RuntimeProtocolHost F) Error Unit := do
  modify (modifyTask id fun task =>
    { task with
      cmd := renderCommand execution.module execution.args
      env := renderEnv execution.env
      dir := execution.cwd.getD task.dir
      worker := some worker.workerId
      exit := "running" })
  installFds id (descriptors env id execution)
  modify (modifyTask id fun task => { task with exit := "started" })

/-- The bytes go to the end of the file, whatever comes of it. -/
def writeTaskFd (env : RuntimeEnv F) (id : Nat) (fd : UInt32) (data : Bytes) : Prog (RuntimeProtocolHost F) Error Unit := do
  match (← get).resources[toString id]? with
  | none => abort
  | some task =>
    match task.files[fd.toNat]? with
    | none => throw (.path "fd" (toString fd) .invalid)
    | some open_ => do
      let (result, file) := env.append open_.file data
      modify (modifyTask id fun task => { task with files := task.files.insert fd.toNat { open_ with file } })
      Prog.ofExcept result

/-! ## Requests -/

def parentTask : Option String → Prog (RuntimeProtocolHost F) Error Nat
  | some parentId => lookup parentId
  | none => do pure (← get).root

def spawnWorker (worker : WorkerHandle) (parentTaskId : Option String) : Prog (RuntimeProtocolHost F) Error WorkerHandle := do
  let parent ← parentTask parentTaskId
  let id ← alloc "auto" (some parent)
  let handle : WorkerHandle := { workerId := worker.workerId, taskId := toString id }
  recordWorker handle
  modify (note worker.workerId id)
  pure handle

def startWorker (env : RuntimeEnv F) (worker : WorkerHandle) (execution : ExecutionSpec) :
    Prog (RuntimeProtocolHost F) Error Unit := do
  let id ← lookupTaskForWorker worker
  recordWorker worker
  applyExecutionSpec env id worker execution
  modify (note worker.workerId id)

def openPort (worker : WorkerHandle) (port : PortDescriptor) : Prog (RuntimeProtocolHost F) Error PortDescriptor := do
  let id ← lookupTaskForWorker worker
  recordWorker worker
  modify (upsertPort port (toString id) (some worker.workerId) none)
  modify (note worker.workerId id)
  pure port

def handoffPort (request : PortHandoff) : Prog (RuntimeProtocolHost F) Error PortDescriptor := do
  let id ← lookupTaskForWorker request.worker
  let _ ← lookup request.targetTaskId
  recordWorker request.worker
  modify (upsertPort request.port request.targetTaskId (some request.worker.workerId) (some request.targetTaskId))
  modify (note request.worker.workerId id)
  pure request.port

def deliverPayload (env : RuntimeEnv F) (id : Nat) (message : TaskMessage) : Prog (RuntimeProtocolHost F) Error Unit :=
  match message.payload with
  | .exit status => modify (modifyTask id fun task => { task with exit := renderExitStatus status })
  | .portOpened port => modify (upsertPort port (toString id) message.workerId none)
  | .portHandoff handoff => do
    let _ ← handoffPort handoff
    pure ()
  | .stdioData stream data _ => writeTaskFd env id (stdioFd stream) data
  | .fdData fd data _ => writeTaskFd env id fd data
  | .ready => pure ()

def logMessage (id : Nat) (message : TaskMessage) (h : RuntimeProtocolHost F) : RuntimeProtocolHost F :=
  { h with messages := h.messages.insert (toString id) ((h.messages[toString id]?).getD [] ++ [message]) }

def recordSender (id : Nat) : Option String → Prog (RuntimeProtocolHost F) Error Unit
  | some workerId => recordWorker { workerId, taskId := toString id }
  | none => pure ()

def noteSender (id : Nat) (workerId : Option String) (h : RuntimeProtocolHost F) : RuntimeProtocolHost F :=
  match workerId with
  | some workerId => note workerId id h
  | none => h

def postMessage (env : RuntimeEnv F) (message : TaskMessage) : Prog (RuntimeProtocolHost F) Error Unit := do
  let id ← lookup message.taskId
  recordSender id message.workerId
  modify (logMessage id message)
  deliverPayload env id message
  modify (noteSender id message.workerId)

end RuntimeProtocolHost

inductive RuntimeRequest where
  | spawnWorker (worker : WorkerHandle) (parentTaskId : Option String)
  | startWorker (worker : WorkerHandle) (execution : ExecutionSpec)
  | openPort (worker : WorkerHandle) (port : PortDescriptor)
  | handoffPort (handoff : PortHandoff)
  | postMessage (message : TaskMessage)
  deriving DecidableEq, Repr

inductive RuntimeResponse where
  | worker (handle : WorkerHandle)
  | unit
  | port (descriptor : PortDescriptor)
  | taskMessage (message : TaskMessage)
  deriving DecidableEq, Repr

namespace RuntimeProtocolHost
variable {F : Type}

def handleRequest (env : RuntimeEnv F) : RuntimeRequest → Prog (RuntimeProtocolHost F) Error RuntimeResponse
  | .spawnWorker worker parentTaskId => do pure (.worker (← spawnWorker worker parentTaskId))
  | .startWorker worker execution => do
    startWorker env worker execution
    pure .unit
  | .openPort worker port => do pure (.port (← openPort worker port))
  | .handoffPort handoff => do pure (.port (← handoffPort handoff))
  | .postMessage message => do
    postMessage env message
    pure (.taskMessage message)

structure WorkerSnapshot where
  handle : WorkerHandle
  parentTaskId : Option String
  command : String
  env : List String
  cwd : String
  lifecycle : String
  deriving DecidableEq, Repr

def snapshotOf (handle : WorkerHandle) (task : RuntimeTask F) : WorkerSnapshot :=
  { handle, parentTaskId := task.parent.map toString, command := task.cmd, env := task.env, cwd := task.dir
    lifecycle := task.exit }

def workerSnapshot (workerId : String) (h : RuntimeProtocolHost F) : Except Error (Option WorkerSnapshot) :=
  match h.workers[workerId]? with
  | none => .ok none
  | some taskId =>
    match lookup? taskId h with
    | none => .error (.path "lookup" taskId .notFound)
    | some id =>
      match h.resources[toString id]? with
      | some task => .ok (some (snapshotOf { workerId, taskId } task))
      | none => .error (.path "lookup" taskId .notFound)

end RuntimeProtocolHost

/-- Beside the requests of workers a run may change aliases and, through other requests
and task files, everything else of a task. -/
inductive HostOp (F : Type) where
  | request (env : RuntimeEnv F) (request : RuntimeRequest)
  | setAlias (id : Nat) (new : String)
  | alloc (kind : String) (parent : Option Nat)
  | edit (id : Nat) (f : RuntimeTask F → RuntimeTask F)

namespace RuntimeProtocolHost
variable {F : Type}

def step (h : RuntimeProtocolHost F) : HostOp F → RuntimeProtocolHost F
  | .request env request => (handleRequest env request h).2
  | .setAlias id new => setAlias id new h
  | .alloc kind parent => (alloc kind parent h).2
  | .edit id f => modifyTask id (fun task => { f task with id := task.id, aliasName := task.aliasName, parent := task.parent }) h

end RuntimeProtocolHost
end Star9
