import Star9.Rc.Host
import Star9.Task.Descriptors
import Star9.Vfs.Namespace

/-!
# Scopes of the shell host

The shell host runs in a task. `rfork` moves it into new scopes: a namespace of its own, an
environment of its own, descriptors of its own. Tasks, namespaces and environments are
shared by reference; a reference is the number of an object, in the order they are made.
-/
namespace Star9.Shell
open Base Prog Rc Star9.Task

/-- A file system that a layer keeps. -/
inductive BoundFs where
  | outside (id : Nat)
  | env (registry : Nat)
  deriving DecidableEq, Repr

abbrev EnvEntries := Std.ExtTreeMap String Bytes

/-- A task with its namespace and its descriptors. -/
structure ScopeTask (F : Type) where
  ns : Nat
  fds : FdLock F
  cmd : String

structure Runtime (σ F : Type) where
  world : σ
  tasks : Nat → ScopeTask F
  taskCount : Nat
  namespaces : Nat → Namespace BoundFs
  namespaceCount : Nat
  registries : Nat → EnvEntries
  registryCount : Nat

structure RuntimeShellHost where
  task : Nat
  nativeEnabled : Bool
  noMount : Bool
  deriving DecidableEq, Repr

structure Star9RcHost (σ F : Type) where
  runtime : Runtime σ F
  host : RuntimeShellHost
  envRegistry : Nat
  cwd : String
  noteGroup : UInt64

/-- What a namespace shows and opens, and what closing a handle does. -/
structure ShellEnv (σ F : Type) where
  stat : (Nat → EnvEntries) → Namespace BoundFs → String → σ → Except Error Metadata
  openPath : (Nat → EnvEntries) → Namespace BoundFs → OpenPath σ F
  close : CloseFile σ F

variable {σ F α : Type}

namespace Runtime

def namespaceOf (r : Runtime σ F) (task : Nat) : Namespace BoundFs := r.namespaces (r.tasks task).ns

def setNamespace (r : Runtime σ F) (id : Nat) (ns : Namespace BoundFs) : Runtime σ F :=
  { r with namespaces := Function.update r.namespaces id ns }

def addNamespace (r : Runtime σ F) (ns : Namespace BoundFs) : Runtime σ F :=
  { r with namespaces := Function.update r.namespaces r.namespaceCount ns, namespaceCount := r.namespaceCount + 1 }

/-- A new task in a namespace, without descriptors. -/
def addTask (r : Runtime σ F) (ns : Nat) : Runtime σ F :=
  { r with
    tasks := Function.update r.tasks r.taskCount { ns, fds := { table := { files := ∅, next := 3 }, poisoned := false }, cmd := "rc-scope" }
    taskCount := r.taskCount + 1 }

def addRegistry (r : Runtime σ F) (entries : EnvEntries) : Runtime σ F :=
  { r with registries := Function.update r.registries r.registryCount entries, registryCount := r.registryCount + 1 }

end Runtime

namespace Star9RcHost

abbrev ShellM (σ F : Type) := Prog (Star9RcHost σ F) Error

/-- The task of the host. -/
def task (s : Star9RcHost σ F) : ScopeTask F := s.runtime.tasks s.host.task

def namespace_ (s : Star9RcHost σ F) : Namespace BoundFs := s.runtime.namespaceOf s.host.task

def entries (s : Star9RcHost σ F) : EnvEntries := s.runtime.registries s.envRegistry

/-! ## Namespaces -/

/-- The host moves to a new task in a new namespace. -/
def enterScope (ns : Namespace BoundFs) (s : Star9RcHost σ F) : Star9RcHost σ F :=
  { s with
    runtime := (s.runtime.addNamespace ns).addTask s.runtime.namespaceCount
    host := { s.host with task := s.runtime.taskCount } }

def forkNamespaceScope (s : Star9RcHost σ F) : Star9RcHost σ F := s.enterScope s.namespace_

def cleanNamespaceScope (s : Star9RcHost σ F) : Star9RcHost σ F := s.enterScope .new

def enterNamespace (spec : RcRforkNamespace) (s : Star9RcHost σ F) : Star9RcHost σ F :=
  match spec with
  | .shared => s
  | .copy => s.forkNamespaceScope
  | .clean => { s.cleanNamespaceScope with cwd := "." }

/-! ## Environments -/

/-- The root of a registry is always there, so binding it cannot fail. -/
def bindEnv (path : String) (hpath : validPath path = true) (s : Star9RcHost σ F) : Star9RcHost σ F :=
  let target : BindTarget BoundFs :=
    { fs := .env s.envRegistry, path := ".", metadata := Metadata.dir "env" 0o777, valid := by decide }
  { s with runtime := s.runtime.setNamespace s.task.ns (s.namespace_.addTarget path hpath target .replace) }

variable (env : ShellEnv σ F)

def shows (s : Star9RcHost σ F) (path : String) : Bool :=
  (env.stat s.runtime.registries s.namespace_ path s.runtime.world).toBool

/-- The environment is bound again where the namespace showed one. -/
def replaceEnvRegistry (registry : Nat) (s : Star9RcHost σ F) : Star9RcHost σ F :=
  let rebindHash := s.shows env "#env"
  let rebindPlain := s.shows env "env"
  let s := { s with envRegistry := registry }
  let s := if rebindHash then s.bindEnv "#env" (by decide) else s
  if rebindPlain then s.bindEnv "env" (by decide) else s

/-- A new registry takes the place of the environment. -/
def newEnvRegistry (entries : EnvEntries) (s : Star9RcHost σ F) : Star9RcHost σ F :=
  { s with runtime := s.runtime.addRegistry entries }.replaceEnvRegistry env s.runtime.registryCount

def enterEnvironment (spec : RcRforkEnvironment) (s : Star9RcHost σ F) : Star9RcHost σ F :=
  match spec with
  | .shared => s
  | .copy => s.newEnvRegistry env s.entries
  | .clean => s.newEnvRegistry env ∅

def environmentOutcome : RcRforkEnvironment → RcRforkEnvironmentOutcome
  | .shared => .unchanged
  | .copy => .reload
  | .clean => .cleared

/-! ## Descriptors -/

/-- Work on the descriptors of a task. -/
def onFds (task : Nat) (p : FdM σ F α) : ShellM σ F α := fun s =>
  let r := p { world := s.runtime.world, fds := (s.runtime.tasks task).fds }
  (r.1, { s with runtime := { s.runtime with
    world := r.2.world
    tasks := Function.update s.runtime.tasks task { s.runtime.tasks task with fds := r.2.fds } } })

variable (overflow : Overflow)

/-- The host moves to the new task once every descriptor is open there. -/
def copyFds (old : Nat) : ShellM σ F Unit := do
  let s ← get
  let next := s.runtime.taskCount
  set { s with runtime := s.runtime.addTask s.task.ns }
  onFds next (reopenFdsFrom overflow (env.openPath s.runtime.registries (s.runtime.namespaceOf old)) (s.runtime.tasks old).fds)
  modify fun s => { s with host := { s.host with task := next } }

def enterFds (spec : RcRforkFd) (old : Nat) : ShellM σ F Unit :=
  match spec with
  | .shared => pure ()
  | .copy => copyFds env overflow old
  | .clean => do
    let s ← get
    onFds s.host.task (clearFds env.close)

/-! ## All together -/

def enterNoteGroup (spec : RcRforkSpec) (s : Star9RcHost σ F) : Star9RcHost σ F :=
  let noteGroup := if !spec.newNoteGroup then s.noteGroup else if s.noteGroup = 0xffffffffffffffff then s.noteGroup else s.noteGroup + 1
  let host := if spec.noMount then { s.host with noMount := true } else s.host
  { s with noteGroup, host }

def rfork (spec : RcRforkSpec) : ShellM σ F RcRforkOutcome := do
  let old ← get
  modify (enterNamespace spec.namespace_)
  modify (enterEnvironment env spec.environment)
  enterFds env overflow spec.fds old.host.task
  modify (enterNoteGroup spec)
  pure { environment := environmentOutcome spec.environment }

end Star9RcHost
end Star9.Shell
