import Star9.Base.Bytes
import Star9.Base.Prog
import Star9.Rc.Syntax

/-!
# What rc asks of its host

Files, commands, the shared environment and process graphs, as a record of
programs over the state `H` of the host. Every effect of a script goes through
these methods.
-/
namespace Star9.Rc
open Base

abbrev RcVars := Std.ExtTreeMap String (List String)

abbrev RcEnvironment := Std.ExtTreeMap String Bytes

structure RcStat where
  isDir : Bool
  deriving DecidableEq, Repr

structure RcCommandResult where
  status : RcStatus
  stdout : String
  stderr : String
  deriving DecidableEq, Repr

structure RcCommandInvocation where
  name : String
  args : List String
  stdin : String
  env : RcVars

inductive RcProcessGraphKind where
  | pipeline
  | background
  | processSubstitutionRead
  | processSubstitutionWrite
  deriving DecidableEq, Repr

structure RcFdBindingSpec where
  fd : Nat
  path : String
  readable : Bool
  writable : Bool
  append : Bool
  dupFrom : Option Nat
  close : Bool
  deriving DecidableEq, Repr

namespace RcFdBindingSpec

def ofFile (fd : Nat) (path : String) (readable writable : Bool) : RcFdBindingSpec :=
  { fd, path, readable, writable, append := false, dupFrom := none, close := false }

def ofAppendFile (fd : Nat) (path : String) : RcFdBindingSpec := { ofFile fd path false true with append := true }

def ofDup (fd source : Nat) : RcFdBindingSpec := { ofFile fd "" false false with dupFrom := some source }

def ofClose (fd : Nat) : RcFdBindingSpec := { ofFile fd "" false false with close := true }

end RcFdBindingSpec

structure RcProcessStageSpec where
  command : String
  cwd : String
  env : RcVars
  stdin : Option String
  stdout : Option String
  stderr : Option String
  fdBindings : List RcFdBindingSpec

structure RcProcessGraphSpec where
  kind : RcProcessGraphKind
  jobId : Option UInt32
  stages : List RcProcessStageSpec

structure RcProcessStageRecord where
  command : String
  taskId : Option String
  fdBindings : List RcFdBindingSpec

structure RcProcessGraphRecord where
  graphId : String
  kind : RcProcessGraphKind
  jobId : Option UInt32
  stages : List RcProcessStageRecord

structure RcProcessStageOutcome where
  status : RcStatus

structure RcProcessJobResult where
  id : UInt32
  status : RcStatus
  stdout : String
  stderr : String

structure RcExecutableStageSpec where
  argv : List String
  stdin : String
  cwd : String
  env : RcVars
  fdBindings : List RcFdBindingSpec

structure RcExecutableGraphSpec where
  kind : RcProcessGraphKind
  jobId : Option UInt32
  stages : List RcExecutableStageSpec

structure RcStartedProcessJob where
  id : UInt32

inductive RcRforkNamespace where
  | shared
  | copy
  | clean
  deriving DecidableEq, Repr

inductive RcRforkEnvironment where
  | shared
  | copy
  | clean
  deriving DecidableEq, Repr

inductive RcRforkFd where
  | shared
  | copy
  | clean
  deriving DecidableEq, Repr

structure RcRforkSpec where
  raw : String
  namespace_ : RcRforkNamespace
  environment : RcRforkEnvironment
  fds : RcRforkFd
  newNoteGroup : Bool
  noMount : Bool
  deriving DecidableEq, Repr

namespace RcRforkSpec

def addFlag (spec : RcRforkSpec) (flag : Char) : Except RcError RcRforkSpec :=
  if flag = 'n' ∧ spec.namespace_ ≠ .clean then .ok { spec with namespace_ := .copy }
  else if flag = 'N' ∧ spec.namespace_ ≠ .copy then .ok { spec with namespace_ := .clean }
  else if flag = 'n' ∨ flag = 'N' then .error (.new "rfork flags n and N are mutually exclusive")
  else if flag = 'e' ∧ spec.environment ≠ .clean then .ok { spec with environment := .copy }
  else if flag = 'E' ∧ spec.environment ≠ .copy then .ok { spec with environment := .clean }
  else if flag = 'e' ∨ flag = 'E' then .error (.new "rfork flags e and E are mutually exclusive")
  else if flag = 'f' ∧ spec.fds ≠ .clean then .ok { spec with fds := .copy }
  else if flag = 'F' ∧ spec.fds ≠ .copy then .ok { spec with fds := .clean }
  else if flag = 'f' ∨ flag = 'F' then .error (.new "rfork flags f and F are mutually exclusive")
  else if flag = 's' then .ok { spec with newNoteGroup := true }
  else if flag = 'm' then .ok { spec with noMount := true }
  else .error (.new ("unsupported rfork flag " ++ String.singleton flag))

def parse (args : List String) : Except RcError RcRforkSpec :=
  let raw := if args.isEmpty then "ens" else joinWith "" args
  raw.toList.foldlM addFlag
    { raw, namespace_ := .shared, environment := .shared, fds := .shared, newNoteGroup := false,
      noMount := false }

end RcRforkSpec

inductive RcRforkEnvironmentOutcome where
  | unchanged
  | reload
  | cleared
  deriving DecidableEq, Repr

structure RcRforkOutcome where
  environment : RcRforkEnvironmentOutcome

structure RcHost (H : Type) where
  currentDir : H → String
  setCurrentDir : String → Prog H RcError Unit
  readFile : String → Prog H RcError Bytes
  writeFile : String → Bytes → Prog H RcError Unit
  appendFile : String → Bytes → Prog H RcError Unit
  readDir : String → Prog H RcError (List String)
  stat : String → Prog H RcError RcStat
  runCommand : RcCommandInvocation → Prog H RcError RcCommandResult
  loadEnvironment : Prog H RcError (Option RcEnvironment)
  storeEnvironment : RcEnvironment → Prog H RcError Unit
  prepareProcessGraph : RcProcessGraphSpec → Prog H RcError (Option RcProcessGraphRecord)
  finishProcessGraph : RcProcessGraphRecord → List RcProcessStageOutcome → Prog H RcError Unit
  waitProcessJob : Option UInt32 → Prog H RcError (Option (List RcProcessJobResult))
  sendNoteToProcesses : String → Prog H RcError Unit
  executeProcessGraph : RcExecutableGraphSpec → Prog H RcError (Option RcOutput)
  startProcessGraphJob : RcExecutableGraphSpec → Prog H RcError (Option RcStartedProcessJob)
  rfork : RcRforkSpec → Prog H RcError RcRforkOutcome

structure RcJob where
  id : UInt32
  status : RcStatus
  stdout : String
  stderr : String
  graph : Option RcProcessGraphRecord

structure RcSession (H : Type) where
  host : H
  vars : RcVars
  functions : Std.ExtTreeMap String Node
  lastStatus : RcStatus
  argv0 : String
  argv : List String
  jobs : List RcJob
  nextJobId : UInt32
  notesInProgress : Std.ExtTreeSet String

namespace RcSession

/-- A session before it takes anything from the environment of its host. -/
def fresh {H : Type} (host : H) : RcSession H :=
  { host, vars := ((∅ : RcVars).insert "path" [".", "bin"]).insert "ifs" [" \t\n"], functions := ∅,
    lastStatus := .success, argv0 := "rc", argv := [], jobs := [], nextJobId := 1, notesInProgress := ∅ }

end RcSession

/-- A host without files and without process graphs whose every command prints its
own name. -/
def RcHost.naming : RcHost Unit where
  currentDir _ := "."
  setCurrentDir _ := pure ()
  readFile path := throw (.new (path ++ ": not found"))
  writeFile _ _ := pure ()
  appendFile _ _ := pure ()
  readDir _ := pure []
  stat path := throw (.new (path ++ ": not found"))
  runCommand invocation := pure { status := .success, stdout := invocation.name ++ "\n", stderr := "" }
  loadEnvironment := pure none
  storeEnvironment _ := pure ()
  prepareProcessGraph _ := pure none
  finishProcessGraph _ _ := pure ()
  waitProcessJob _ := pure none
  sendNoteToProcesses _ := pure ()
  executeProcessGraph _ := pure none
  startProcessGraphJob _ := pure none
  rfork _ := pure { environment := .unchanged }

/-- What a command of the naming host returns. -/
def namedOutput (name : String) : RcOutput := .success (name ++ "\n")

/-- A parser that accepts nothing, for scripts given as syntax trees. -/
def noParse (_ : String) : Except RcError Script := .error (.new "no parser")

/-- The programs of a session over a host with state `H`. -/
abbrev RcM (H α : Type) := Prog (RcSession H) RcError α

def onHost {H α : Type} (p : Prog H RcError α) : RcM H α :=
  Prog.zoom (fun s => s.host) (fun host s => { s with host }) p

/-- A call whose failure the caller drops. -/
def ignore {H α : Type} (p : RcM H α) : RcM H Unit := do
  let _ ← Prog.attempt p
  pure ()

def attempt? {H α : Type} (p : RcM H α) : RcM H (Option α) := do
  let result ← Prog.attempt p
  pure result.toOption

end Star9.Rc
