import Star9.Shell.Rfork
import Star9.Task.Binding
import Star9.Task.FdScope

/-!
# What a failing rfork leaves

`rfork` enters its scopes one after another, and only the last of them can fail: opening the
descriptors again, or closing them. What has been entered before stays.
-/
namespace Star9.Shell
open Base Prog Rc Star9.Task

variable {σ F α : Type}

/-- Every reference is to an object that has been made. -/
structure WellFormed (s : Star9RcHost σ F) : Prop where
  task_lt : s.host.task < s.runtime.taskCount
  ns_lt : ∀ task < s.runtime.taskCount, (s.runtime.tasks task).ns < s.runtime.namespaceCount
  registry_lt : s.envRegistry < s.runtime.registryCount

/-- A host whose references are good. -/
structure HostState (σ F : Type) extends Star9RcHost σ F where
  wellFormed : WellFormed toStar9RcHost

/-- The host as its task sees it. -/
structure View (F : Type) where
  host : RuntimeShellHost
  ns : Nat
  bindings : Std.ExtTreeMap String (List (BindTarget BoundFs))
  cwd : String
  envRegistry : Nat
  entries : EnvEntries
  files : Std.ExtTreeMap UInt32 (OpenFile F)
  noteGroup : UInt64

namespace Star9RcHost

def view (s : Star9RcHost σ F) : View F :=
  { host := s.host, ns := s.task.ns, bindings := s.namespace_.bindings, cwd := s.cwd, envRegistry := s.envRegistry, entries := s.entries
    files := s.task.fds.table.files, noteGroup := s.noteGroup }

/-! ## The specification -/

/-- The bindings that the new scope starts with. -/
def baseNamespace (spec : RcRforkNamespace) (s : Star9RcHost σ F) : Namespace BoundFs :=
  match spec with
  | .shared | .copy => s.namespace_
  | .clean => .new

def baseEntries (spec : RcRforkEnvironment) (s : Star9RcHost σ F) : EnvEntries :=
  match spec with
  | .shared | .copy => s.entries
  | .clean => ∅

/-- A namespace that is not shared is made by the call, and a clean one is entered at its root. -/
def NamespaceEffect (spec : RcRforkNamespace) (s : Star9RcHost σ F) (v : View F) : Prop :=
  (if spec = .shared then v.ns = s.task.ns else s.runtime.namespaceCount ≤ v.ns) ∧ v.cwd = if spec = .clean then "." else s.cwd

/-- The root of a registry is the only layer of a path. -/
def BoundToEnv (v : View F) (path : String) : Prop :=
  ∃ target : BindTarget BoundFs, target.fs = .env v.envRegistry ∧ target.path = "." ∧ v.bindings[path]? = some [target]

/-- An environment that is not shared is made by the call; it takes the place of the one that
the namespace shows, and every other binding is as in the namespace it starts from. -/
def EnvironmentEffect (env : ShellEnv σ F) (spec : RcRforkSpec) (s : Star9RcHost σ F) (v : View F) : Prop :=
  v.entries = s.baseEntries spec.environment ∧
    if spec.environment = .shared then v.envRegistry = s.envRegistry ∧ v.bindings = (s.baseNamespace spec.namespace_).bindings
    else s.runtime.registryCount ≤ v.envRegistry ∧
      ∀ path : String,
        if (path = "#env" ∨ path = "env") ∧ (env.stat (s.runtime.addRegistry v.entries).registries (s.baseNamespace spec.namespace_) path
          s.runtime.world).toBool
        then BoundToEnv v path
        else v.bindings[path]? = (s.baseNamespace spec.namespace_).bindings[path]?

/-- Shared descriptors are those from before; copied ones are open in a task made by the call,
under the same numbers and paths; of clean ones none is open. -/
def FdsEffect (spec : RcRforkFd) (s : Star9RcHost σ F) (v : View F) : Prop :=
  match spec with
  | .shared => v.files = s.task.fds.table.files
  | .copy => s.runtime.taskCount ≤ v.host.task ∧
      ∀ fd : UInt32, (v.files[fd]?).map OpenFile.path = (s.task.fds.table.files[fd]?).map OpenFile.path
  | .clean => v.files = ∅

/-- Every component of the specification has taken effect. -/
structure TookEffect (env : ShellEnv σ F) (spec : RcRforkSpec) (s : Star9RcHost σ F) (v : View F) : Prop where
  namespace_ : NamespaceEffect spec.namespace_ s v
  environment : EnvironmentEffect env spec s v
  fds : FdsEffect spec.fds s v
  noteGroup : v.noteGroup.toNat = s.noteGroup.toNat + (if spec.newNoteGroup then 1 else 0)
  noMount : v.host.noMount = (s.host.noMount || spec.noMount)
  nativeEnabled : v.host.nativeEnabled = s.host.nativeEnabled

/-! ## What each scope leaves -/

@[simp] theorem view_enterScope (s : Star9RcHost σ F) (ns : Namespace BoundFs) :
    (s.enterScope ns).view =
      { s.view with host := { s.host with task := s.runtime.taskCount }, ns := s.runtime.namespaceCount, bindings := ns.bindings, files := ∅ } := by
  simp [view, enterScope, task, namespace_, entries, Runtime.namespaceOf, Runtime.addTask, Runtime.addNamespace]

def envTarget (registry : Nat) : BindTarget BoundFs :=
  { fs := .env registry, path := ".", metadata := Metadata.dir "env" 0o777, valid := validPath_dot }

theorem view_bindEnv (s : Star9RcHost σ F) {path : String} (hpath : validPath path = true) :
    (s.bindEnv path hpath).view = { s.view with bindings := s.view.bindings.insert path [envTarget s.envRegistry] } := by
  have hbindings := Namespace.bindings_setTargets s.namespace_ hpath (List.cons_ne_nil (envTarget s.envRegistry) [])
  simp [view, bindEnv, task, namespace_, entries, Runtime.namespaceOf, Runtime.setNamespace, Namespace.addTarget, envTarget] at hbindings ⊢
  exact hbindings

variable (env : ShellEnv σ F)

/-- The bindings with the new environment where the namespace shows one. -/
def rebound (s : Star9RcHost σ F) (registry : Nat) : Std.ExtTreeMap String (List (BindTarget BoundFs)) :=
  let bindings := if s.shows env "#env" then s.view.bindings.insert "#env" [envTarget registry] else s.view.bindings
  if s.shows env "env" then bindings.insert "env" [envTarget registry] else bindings

theorem view_replaceEnvRegistry (s : Star9RcHost σ F) (registry : Nat) :
    (s.replaceEnvRegistry env registry).view =
      { s.view with envRegistry := registry, entries := s.runtime.registries registry, bindings := s.rebound env registry } := by
  have hview : ({ s with envRegistry := registry } : Star9RcHost σ F).view =
      { s.view with envRegistry := registry, entries := s.runtime.registries registry } := rfl
  unfold replaceEnvRegistry rebound
  by_cases hhash : s.shows env "#env" <;> by_cases hplain : s.shows env "env"
  · simp [hhash, hplain, view_bindEnv, hview]
    rfl
  · simp [hhash, hplain, view_bindEnv, hview]
  · simp [hhash, hplain, view_bindEnv, hview]
  · simp [hhash, hplain, hview]

/-- The host in its new namespace and environment. -/
def inScope (spec : RcRforkSpec) (s : Star9RcHost σ F) : Star9RcHost σ F :=
  (s.enterNamespace spec.namespace_).enterEnvironment env spec.environment

theorem view_newEnvRegistry (s : Star9RcHost σ F) (entries : EnvEntries) :
    (s.newEnvRegistry env entries).view =
      { s.view with
        envRegistry := s.runtime.registryCount, entries
        bindings := ({ s with runtime := s.runtime.addRegistry entries } : Star9RcHost σ F).rebound env s.runtime.registryCount } := by
  have hentries : (s.runtime.addRegistry entries).registries s.runtime.registryCount = entries := by simp [Runtime.addRegistry]
  rw [newEnvRegistry, view_replaceEnvRegistry, hentries]
  rfl

/-! ### The namespace -/

section
variable (s : Star9RcHost σ F) (spec : RcRforkNamespace)

theorem enterNamespace_registries : (s.enterNamespace spec).runtime.registries = s.runtime.registries := by cases spec <;> rfl

theorem enterNamespace_registryCount : (s.enterNamespace spec).runtime.registryCount = s.runtime.registryCount := by cases spec <;> rfl

theorem enterNamespace_world : (s.enterNamespace spec).runtime.world = s.runtime.world := by cases spec <;> rfl

theorem enterNamespace_envRegistry : (s.enterNamespace spec).envRegistry = s.envRegistry := by cases spec <;> rfl

theorem namespace_enterScope (ns : Namespace BoundFs) : (s.enterScope ns).namespace_ = ns := by
  simp [namespace_, enterScope, Runtime.namespaceOf, Runtime.addTask, Runtime.addNamespace]

theorem namespace_enterNamespace : (s.enterNamespace spec).namespace_ = s.baseNamespace spec := by
  cases spec with
  | shared => rfl
  | copy => exact namespace_enterScope s s.namespace_
  | clean => exact namespace_enterScope s .new

theorem entries_enterNamespace : (s.enterNamespace spec).entries = s.entries := by
  rw [entries, entries, enterNamespace_registries, enterNamespace_envRegistry]

/-- What the host sees in its new namespace. -/
theorem view_enterNamespace :
    (s.enterNamespace spec).view =
      { s.view with
        host := if spec = .shared then s.host else { s.host with task := s.runtime.taskCount }
        ns := if spec = .shared then s.task.ns else s.runtime.namespaceCount
        bindings := (s.baseNamespace spec).bindings
        cwd := if spec = .clean then "." else s.cwd
        files := if spec = .shared then s.task.fds.table.files else ∅ } := by
  cases spec with
  | shared => rfl
  | copy => exact view_enterScope s s.namespace_
  | clean =>
    have hview : (s.enterNamespace .clean).view = { (s.enterScope .new).view with cwd := "." } := rfl
    rw [hview, view_enterScope]
    rfl

end

/-! ### The environment -/

/-- The bindings that the environment phase leaves. -/
def scopeBindings (spec : RcRforkSpec) (s : Star9RcHost σ F) :
    Std.ExtTreeMap String (List (BindTarget BoundFs)) :=
  let base := s.enterNamespace spec.namespace_
  match spec.environment with
  | .shared => base.view.bindings
  | .copy => ({ base with runtime := base.runtime.addRegistry s.entries } : Star9RcHost σ F).rebound env base.runtime.registryCount
  | .clean => ({ base with runtime := base.runtime.addRegistry ∅ } : Star9RcHost σ F).rebound env base.runtime.registryCount

theorem view_inScope (spec : RcRforkSpec) (s : Star9RcHost σ F) :
    (s.inScope env spec).view =
      { (s.enterNamespace spec.namespace_).view with
        envRegistry := if spec.environment = .shared then s.envRegistry else s.runtime.registryCount
        entries := s.baseEntries spec.environment
        bindings := s.scopeBindings env spec } := by
  have hcount := enterNamespace_registryCount s spec.namespace_
  have hentries := entries_enterNamespace s spec.namespace_
  cases henv : spec.environment with
  | shared =>
    have hreg : (s.enterNamespace spec.namespace_).view.envRegistry = s.envRegistry := enterNamespace_envRegistry s spec.namespace_
    have hview : (s.enterNamespace spec.namespace_).view.entries = s.entries := hentries
    rw [inScope, scopeBindings, henv, enterEnvironment, if_pos rfl, baseEntries, ← hreg, ← hview]
  | copy =>
    rw [inScope, scopeBindings, henv, enterEnvironment]
    simp only [view_newEnvRegistry, hentries, hcount]
    rfl
  | clean =>
    rw [inScope, scopeBindings, henv, enterEnvironment]
    simp only [view_newEnvRegistry, hcount]
    rfl

/-- Entering an environment leaves the tasks and the world alone. -/
structure SameTasks (s s' : Star9RcHost σ F) : Prop where
  host : s'.host = s.host
  tasks : s'.runtime.tasks = s.runtime.tasks
  taskCount : s'.runtime.taskCount = s.runtime.taskCount
  world : s'.runtime.world = s.runtime.world

theorem sameTasks_replaceEnvRegistry (s : Star9RcHost σ F) (registry : Nat) : SameTasks s (s.replaceEnvRegistry env registry) := by
  unfold replaceEnvRegistry
  by_cases hhash : s.shows env "#env" <;> by_cases hplain : s.shows env "env" <;> simp only [hhash, hplain] <;> exact ⟨rfl, rfl, rfl, rfl⟩

theorem sameTasks_enterEnvironment (s : Star9RcHost σ F) (spec : RcRforkEnvironment) : SameTasks s (s.enterEnvironment env spec) := by
  have hnew : ∀ entries, SameTasks s (s.newEnvRegistry env entries) := fun entries =>
    have hsame := sameTasks_replaceEnvRegistry env ({ s with runtime := s.runtime.addRegistry entries } : Star9RcHost σ F) s.runtime.registryCount
    ⟨hsame.host, hsame.tasks, hsame.taskCount, hsame.world⟩
  cases spec with
  | shared => exact ⟨rfl, rfl, rfl, rfl⟩
  | copy => exact hnew s.entries
  | clean => exact hnew ∅

/-- The tasks of a host that has entered its scopes. -/
structure ScopeTasks (spec : RcRforkSpec) (s s' : Star9RcHost σ F) : Prop where
  old : s'.runtime.tasks s.host.task = s.task
  task_lt : s'.host.task < s'.runtime.taskCount
  count_le : s.runtime.taskCount ≤ s'.runtime.taskCount
  world : s'.runtime.world = s.runtime.world
  shared : spec.namespace_ = .shared → s'.host.task = s.host.task
  poisoned : spec.namespace_ ≠ .shared → s'.task.fds.poisoned = false ∧ s'.task.fds.table.files = ∅

theorem scopeTasks_enterNamespace {s : Star9RcHost σ F} (h : WellFormed s) (spec : RcRforkSpec) :
    ScopeTasks spec s (s.enterNamespace spec.namespace_) := by
  have hscope : ∀ ns : Namespace BoundFs, ∀ s' : Star9RcHost σ F, spec.namespace_ ≠ .shared → s'.runtime = (s.enterScope ns).runtime →
      s'.host = (s.enterScope ns).host → ScopeTasks spec s s' := by
    intro ns s' hns hruntime hhost
    have hne : s.host.task ≠ s.runtime.taskCount := Nat.ne_of_lt h.task_lt
    constructor
    · simp [hruntime, enterScope, task, Runtime.addTask, Runtime.addNamespace, hne]
    · simp [hruntime, hhost, enterScope, Runtime.addTask, Runtime.addNamespace]
    · simp [hruntime, enterScope, Runtime.addTask, Runtime.addNamespace]
    · simp [hruntime, enterScope, Runtime.addTask, Runtime.addNamespace]
    · intro heq
      exact absurd heq hns
    · intro _
      simp [task, hruntime, hhost, enterScope, Runtime.addTask, Runtime.addNamespace]
  cases hns : spec.namespace_ with
  | shared => exact ⟨rfl, h.task_lt, le_rfl, rfl, fun _ => rfl, fun hne => absurd hns hne⟩
  | copy => exact hscope s.namespace_ _ (by simp [hns]) rfl rfl
  | clean => exact hscope .new _ (by simp [hns]) rfl rfl

theorem scopeTasks_inScope {s : Star9RcHost σ F} (h : WellFormed s) (spec : RcRforkSpec) : ScopeTasks spec s (s.inScope env spec) := by
  have hns := scopeTasks_enterNamespace h spec
  have henv := sameTasks_enterEnvironment env (s.enterNamespace spec.namespace_) spec.environment
  constructor
  · rw [inScope, henv.tasks]
    exact hns.old
  · rw [inScope, henv.host, henv.taskCount]
    exact hns.task_lt
  · rw [inScope, henv.taskCount]
    exact hns.count_le
  · rw [inScope, henv.world]
    exact hns.world
  · intro heq
    rw [inScope, henv.host]
    exact hns.shared heq
  · intro hne
    rw [inScope, task, henv.tasks, henv.host]
    exact hns.poisoned hne

/-! ### The effects of the scopes -/

theorem namespaceEffect_inScope (spec : RcRforkSpec) (s : Star9RcHost σ F) : NamespaceEffect spec.namespace_ s (s.inScope env spec).view := by
  rw [view_inScope, view_enterNamespace, NamespaceEffect]
  by_cases h : spec.namespace_ = .shared
  · simp [h]
  · simp [h]

/-- One more path is bound to the environment, if the namespace shows it. -/
theorem rebound_getElem (s : Star9RcHost σ F) (registry : Nat) (path : String) :
    (s.rebound env registry)[path]? =
      if (path = "#env" ∨ path = "env") ∧ s.shows env path then some [envTarget registry] else s.view.bindings[path]? := by
  have hne : ("env" : String) ≠ "#env" := by decide
  unfold rebound
  by_cases hhash : path = "#env"
  · subst hhash
    by_cases h : s.shows env "#env" <;> by_cases h' : s.shows env "env" <;>
      simp [h, h', Std.ExtTreeMap.getElem?_insert, Std.ExtTreeMap.getElem_insert, hne]
  · by_cases hplain : path = "env"
    · subst hplain
      by_cases h : s.shows env "#env" <;> by_cases h' : s.shows env "env" <;>
        simp [h, h', Std.ExtTreeMap.getElem?_insert, hne.symm]
    · have h₁ : ¬"#env" = path := fun heq => hhash heq.symm
      have h₂ : ¬"env" = path := fun heq => hplain heq.symm
      by_cases h : s.shows env "#env" <;> by_cases h' : s.shows env "env" <;>
        simp [h, h', Std.ExtTreeMap.getElem?_insert, hhash, hplain, h₁, h₂]

theorem environmentEffect_inScope (spec : RcRforkSpec) (s : Star9RcHost σ F) : EnvironmentEffect env spec s (s.inScope env spec).view := by
  have hbase : (s.enterNamespace spec.namespace_).view.bindings = (s.baseNamespace spec.namespace_).bindings := by
    rw [view_enterNamespace]
  have hnew : ∀ entries : EnvEntries, ∀ path : String,
      let v : View F := (s.inScope env spec).view
      v.bindings = ({ s.enterNamespace spec.namespace_ with
          runtime := (s.enterNamespace spec.namespace_).runtime.addRegistry entries } : Star9RcHost σ F).rebound env s.runtime.registryCount →
      v.envRegistry = s.runtime.registryCount →
      if (path = "#env" ∨ path = "env") ∧ (env.stat (s.runtime.addRegistry entries).registries (s.baseNamespace spec.namespace_) path
        s.runtime.world).toBool
      then BoundToEnv v path
      else v.bindings[path]? = (s.baseNamespace spec.namespace_).bindings[path]? := by
    intro entries path v hbindings hregistry
    have hshows : ({ s.enterNamespace spec.namespace_ with
        runtime := (s.enterNamespace spec.namespace_).runtime.addRegistry entries } : Star9RcHost σ F).shows env path =
        (env.stat (s.runtime.addRegistry entries).registries (s.baseNamespace spec.namespace_) path s.runtime.world).toBool := by
      rw [shows]
      congr 2
      · simp only [Runtime.addRegistry, enterNamespace_registries, enterNamespace_registryCount]
      · exact namespace_enterNamespace s spec.namespace_
      · exact enterNamespace_world s spec.namespace_
    have hget := rebound_getElem env ({ s.enterNamespace spec.namespace_ with
        runtime := (s.enterNamespace spec.namespace_).runtime.addRegistry entries } : Star9RcHost σ F) s.runtime.registryCount path
    rw [← hbindings, hshows] at hget
    split_ifs at hget ⊢ with hpath
    · exact ⟨envTarget s.runtime.registryCount, by rw [hregistry]; rfl, rfl, hget⟩
    · rw [hget, ← hbase]
      rfl
  have hcount := enterNamespace_registryCount s spec.namespace_
  have hview := view_inScope env spec s
  constructor
  · rw [hview]
  · cases henv : spec.environment with
    | shared =>
      rw [if_pos rfl, hview, henv, if_pos rfl, scopeBindings, henv]
      exact ⟨rfl, hbase⟩
    | copy =>
      rw [if_neg (by decide)]
      have hentries : (s.inScope env spec).view.entries = s.entries := by rw [hview, henv]; rfl
      have hregistry : (s.inScope env spec).view.envRegistry = s.runtime.registryCount := by rw [hview, henv]; rfl
      refine ⟨hregistry.ge, fun path => ?_⟩
      rw [hentries]
      apply hnew s.entries path _ hregistry
      rw [hview, scopeBindings, henv, hcount]
    | clean =>
      rw [if_neg (by decide)]
      have hentries : (s.inScope env spec).view.entries = ∅ := by rw [hview, henv]; rfl
      have hregistry : (s.inScope env spec).view.envRegistry = s.runtime.registryCount := by rw [hview, henv]; rfl
      refine ⟨hregistry.ge, fun path => ?_⟩
      rw [hentries]
      apply hnew ∅ path _ hregistry
      rw [hview, scopeBindings, henv, hcount]

/-! ### The descriptors -/

variable (overflow : Overflow)

/-- A new task in the same namespace, with the descriptors that have been opened. -/
def withCopy (left : TaskFds σ F) (s : Star9RcHost σ F) : Star9RcHost σ F :=
  let r := s.runtime.addTask s.task.ns
  let next := { r.tasks s.runtime.taskCount with fds := left.fds }
  { s with runtime := { r with world := left.world, tasks := Function.update r.tasks s.runtime.taskCount next } }

theorem view_withCopy {s : Star9RcHost σ F} (h : s.host.task < s.runtime.taskCount) (left : TaskFds σ F) : (s.withCopy left).view = s.view := by
  have hne : s.host.task ≠ s.runtime.taskCount := Nat.ne_of_lt h
  simp [view, withCopy, task, namespace_, entries, Runtime.namespaceOf, Runtime.addTask, hne]

theorem view_moved (s : Star9RcHost σ F) (left : TaskFds σ F) :
    ({ s.withCopy left with host := { s.host with task := s.runtime.taskCount } } : Star9RcHost σ F).view =
      { s.view with host := { s.host with task := s.runtime.taskCount }, files := left.files } := by
  simp [view, withCopy, task, namespace_, entries, Runtime.namespaceOf, Runtime.addTask, TaskFds.files]

/-- Opening the descriptors of the old task in a new one. -/
def reopened (old : Nat) (s : Star9RcHost σ F) : Outcome Error Unit × TaskFds σ F :=
  reopenFdsFrom overflow (env.openPath s.runtime.registries (s.runtime.namespaceOf old)) (s.runtime.tasks old).fds (TaskFds.new s.runtime.world)

theorem onFds_reopened (old : Nat) (s : Star9RcHost σ F) :
    onFds s.runtime.taskCount
      (reopenFdsFrom overflow (env.openPath s.runtime.registries (s.runtime.namespaceOf old)) (s.runtime.tasks old).fds)
      { s with runtime := s.runtime.addTask s.task.ns } = ((s.reopened env overflow old).1, s.withCopy (s.reopened env overflow old).2) := by
  have hnew : ((s.runtime.addTask s.task.ns).tasks s.runtime.taskCount).fds = (TaskFds.new s.runtime.world : TaskFds σ F).fds := by
    simp [Runtime.addTask, TaskFds.new]
  simp only [onFds, hnew]
  rfl

section
variable {env overflow} {s : Star9RcHost σ F} {old : Nat}

theorem copyFds_ok (h : (s.reopened env overflow old).1 = .ok ()) :
    copyFds env overflow old s =
      (.ok (), { s.withCopy (s.reopened env overflow old).2 with host := { s.host with task := s.runtime.taskCount } }) := by
  have hfds := onFds_reopened env overflow old s
  rw [h] at hfds
  rw [copyFds, get_bind]
  exact (bind_ok rfl).trans (bind_ok hfds)

theorem copyFds_err {e : Error} (h : (s.reopened env overflow old).1 = .err e) :
    copyFds env overflow old s = (.err e, s.withCopy (s.reopened env overflow old).2) := by
  have hfds := onFds_reopened env overflow old s
  rw [h] at hfds
  rw [copyFds, get_bind]
  exact (bind_ok rfl).trans (bind_err hfds)

theorem copyFds_abort (h : (s.reopened env overflow old).1 = .abort) : (copyFds env overflow old s).1 = .abort := by
  have hfds := onFds_reopened env overflow old s
  rw [h] at hfds
  rw [copyFds, get_bind]
  exact congrArg Prod.fst ((bind_ok rfl).trans (bind_abort hfds))

end

/-- Clearing the descriptors of the task of the host. -/
def clearedFds (s : Star9RcHost σ F) : Outcome Error Unit × TaskFds σ F := clearFds env.close { world := s.runtime.world, fds := s.task.fds }

theorem clearFds_host (s : Star9RcHost σ F) : (onFds s.host.task (clearFds env.close) s).1 = (s.clearedFds env).1 := rfl

theorem view_cleared {s : Star9RcHost σ F} (h : (s.clearedFds env).1 ≠ .abort) :
    (onFds s.host.task (clearFds env.close) s).2.view = { s.view with files := ∅ } := by
  have hfiles : (s.clearedFds env).2.fds.table.files = ∅ := clearFds_files h
  simp only [onFds, view, task, namespace_, entries, Runtime.namespaceOf, Function.update_self]
  rw [← hfiles]
  rfl

/-! ## When rfork is all or nothing -/

/-- What opening the descriptors again, or closing them, answers from the state before. -/
def fdsOutcome (spec : RcRforkSpec) (s : Star9RcHost σ F) : Outcome Error Unit :=
  match spec.fds with
  | .shared => .ok ()
  | .copy => ((s.inScope env spec).reopened env overflow s.host.task).1
  | .clean => if spec.namespace_ = .shared then (s.clearedFds env).1 else .ok ()

/-- A failing call leaves the host as it was, and after one that succeeds every component of the
specification has taken effect. -/
def AllOrNothing (spec : RcRforkSpec) (s : Star9RcHost σ F) : Prop :=
  (∀ e s', rfork env overflow spec s = (.err e, s') → s'.view = s.view) ∧
    ∀ outcome s', rfork env overflow spec s = (.ok outcome, s') →
      TookEffect env spec s s'.view ∧ outcome.environment = environmentOutcome spec.environment

/-- What fails must have nothing before it; shared descriptors must not be left behind in
another namespace, and the counter of note groups must not be at its end. -/
def ForkSafe (spec : RcRforkSpec) (s : Star9RcHost σ F) : Prop :=
  (∀ e, fdsOutcome env overflow spec s = .err e → spec.fds = .copy ∧ spec.namespace_ = .shared ∧ spec.environment = .shared) ∧
    (fdsOutcome env overflow spec s = .ok () →
      (spec.fds = .shared → spec.namespace_ = .shared ∨ s.task.fds.table.files = ∅) ∧
        (spec.newNoteGroup = true → s.noteGroup ≠ 0xffffffffffffffff))

section
variable {env overflow} {spec : RcRforkSpec} {s : Star9RcHost σ F}

/-- The descriptors after a phase that succeeds. -/
structure FdsDone (spec : RcRforkSpec) (s t t' : Star9RcHost σ F) : Prop where
  view : ∃ task files, t'.view = { t.view with host := { t.host with task }, files }
  effect : spec.fds ≠ .shared → FdsEffect spec.fds s t'.view
  shared : spec.fds = .shared → t' = t

theorem clearedFds_inScope (h : WellFormed s) (hns : spec.namespace_ = .shared) :
    ((s.inScope env spec).clearedFds env) = s.clearedFds env := by
  have htasks := scopeTasks_inScope env h spec
  have htask : (s.inScope env spec).task = s.task := by
    rw [task, htasks.shared hns, htasks.old]
  rw [clearedFds, clearedFds, htask, htasks.world]

theorem clearedFds_ok (h : WellFormed s) (hns : spec.namespace_ ≠ .shared) : ((s.inScope env spec).clearedFds env).1 = .ok () := by
  obtain ⟨hfree, hfiles⟩ := (scopeTasks_inScope env h spec).poisoned hns
  let t := s.inScope env spec
  exact clearFds_of_empty (s := { world := t.runtime.world, fds := t.task.fds }) hfree hfiles env.close

theorem enterFds_ok (h : WellFormed s) (hout : fdsOutcome env overflow spec s = .ok ()) :
    ∃ t', enterFds env overflow spec.fds s.host.task (s.inScope env spec) = (.ok (), t') ∧ FdsDone spec s (s.inScope env spec) t' := by
  have htasks := scopeTasks_inScope env h spec
  cases hfds : spec.fds with
  | shared => exact ⟨_, rfl, ⟨(s.inScope env spec).host.task, _, rfl⟩, fun hne => absurd hfds hne, fun _ => rfl⟩
  | copy =>
    rw [fdsOutcome, hfds] at hout
    refine ⟨_, copyFds_ok hout, ⟨_, _, view_moved _ _⟩, fun _ => ?_, fun hshared => by rw [hfds] at hshared; cases hshared⟩
    rw [view_moved, hfds]
    refine ⟨htasks.count_le, fun fd => ?_⟩
    have hreopened : (s.inScope env spec).reopened env overflow s.host.task =
        (.ok (), ((s.inScope env spec).reopened env overflow s.host.task).2) := Prod.ext hout rfl
    have hpath := reopenFdsFrom_path rfl hreopened fd
    rw [htasks.old] at hpath
    exact hpath
  | clean =>
    have hok : ((s.inScope env spec).clearedFds env).1 = .ok () := by
      by_cases hns : spec.namespace_ = .shared
      · rw [fdsOutcome, hfds] at hout
        simp only [if_pos hns] at hout
        rw [clearedFds_inScope h hns, hout]
      · exact clearedFds_ok h hns
    have hview := view_cleared env (s := s.inScope env spec) (by rw [hok]; exact Outcome.ok_ne_abort)
    refine ⟨_, Prod.ext ((clearFds_host env _).trans hok) rfl, ⟨(s.inScope env spec).host.task, _, hview⟩, fun _ => ?_, fun hshared => by
      rw [hfds] at hshared; cases hshared⟩
    rw [hfds]
    exact congrArg View.files hview

/-- A phase that fails leaves an untouched task, or one without descriptors. -/
theorem enterFds_err (h : WellFormed s) {e : Error} (hout : fdsOutcome env overflow spec s = .err e) :
    ∃ t', enterFds env overflow spec.fds s.host.task (s.inScope env spec) = (.err e, t') ∧
      (spec.fds = .copy ∧ t'.view = (s.inScope env spec).view ∨
        spec.fds = .clean ∧ s.task.fds.table.files ≠ ∅ ∧ t'.view.files = ∅) := by
  have htasks := scopeTasks_inScope env h spec
  cases hfds : spec.fds with
  | shared =>
    rw [fdsOutcome, hfds] at hout
    cases hout
  | copy =>
    rw [fdsOutcome, hfds] at hout
    exact ⟨_, copyFds_err hout, .inl ⟨rfl, view_withCopy htasks.task_lt _⟩⟩
  | clean =>
    rw [fdsOutcome, hfds] at hout
    by_cases hns : spec.namespace_ = .shared
    · simp only [if_pos hns] at hout
      have herr : ((s.inScope env spec).clearedFds env).1 = .err e := by rw [clearedFds_inScope h hns, hout]
      have hview := view_cleared env (s := s.inScope env spec) (by rw [herr]; exact Outcome.err_ne_abort)
      exact ⟨_, Prod.ext ((clearFds_host env _).trans herr) rfl, .inr ⟨rfl, files_ne_of_clearFds_err hout, congrArg View.files hview⟩⟩
    · simp only [if_neg hns] at hout
      cases hout

theorem enterFds_abort (h : WellFormed s) (hout : fdsOutcome env overflow spec s = .abort) :
    (enterFds env overflow spec.fds s.host.task (s.inScope env spec)).1 = .abort := by
  cases hfds : spec.fds with
  | shared =>
    rw [fdsOutcome, hfds] at hout
    cases hout
  | copy =>
    rw [fdsOutcome, hfds] at hout
    exact copyFds_abort hout
  | clean =>
    rw [fdsOutcome, hfds] at hout
    by_cases hns : spec.namespace_ = .shared
    · simp only [if_pos hns] at hout
      exact (clearFds_host env _).trans ((congrArg Prod.fst (clearedFds_inScope h hns)).trans hout)
    · simp only [if_neg hns] at hout
      cases hout

/-! ### The whole call -/

theorem rfork_apply (env : ShellEnv σ F) (overflow : Overflow) (spec : RcRforkSpec) (s : Star9RcHost σ F) :
    rfork env overflow spec s =
      (enterFds env overflow spec.fds s.host.task >>= fun _ => Prog.modify (enterNoteGroup spec) >>= fun _ =>
        pure ({ environment := environmentOutcome spec.environment } : RcRforkOutcome)) (s.inScope env spec) := rfl

theorem rfork_ok (h : WellFormed s) (hout : fdsOutcome env overflow spec s = .ok ()) :
    ∃ t', rfork env overflow spec s = (.ok { environment := environmentOutcome spec.environment }, enterNoteGroup spec t') ∧
      FdsDone spec s (s.inScope env spec) t' := by
  obtain ⟨t', hrun, hdone⟩ := enterFds_ok h hout
  refine ⟨t', ?_, hdone⟩
  rw [rfork_apply, bind_ok hrun]
  rfl

theorem rfork_err (h : WellFormed s) {e : Error} (hout : fdsOutcome env overflow spec s = .err e) :
    ∃ t', rfork env overflow spec s = (.err e, t') ∧
      (spec.fds = .copy ∧ t'.view = (s.inScope env spec).view ∨
        spec.fds = .clean ∧ s.task.fds.table.files ≠ ∅ ∧ t'.view.files = ∅) := by
  obtain ⟨t', hrun, hleft⟩ := enterFds_err h hout
  refine ⟨t', ?_, hleft⟩
  rw [rfork_apply, bind_err hrun]

theorem rfork_abort (h : WellFormed s) (hout : fdsOutcome env overflow spec s = .abort) : (rfork env overflow spec s).1 = .abort := by
  have hrun := enterFds_abort h hout
  rw [rfork_apply]
  exact bind_fst_abort _ hrun

theorem view_enterNoteGroup (s : Star9RcHost σ F) :
    (enterNoteGroup spec s).view =
      { s.view with
        host := { s.host with noMount := s.host.noMount || spec.noMount }
        noteGroup := if !spec.newNoteGroup then s.noteGroup else if s.noteGroup = 0xffffffffffffffff then s.noteGroup else s.noteGroup + 1 } := by
  unfold enterNoteGroup
  cases hmount : spec.noMount
  · simp [view, task, namespace_, entries]
  · simp [view, task, namespace_, entries]

/-- The view after a call that succeeds, in terms of the scopes. -/
theorem view_done {t' : Star9RcHost σ F} (hdone : FdsDone spec s (s.inScope env spec) t') :
    ∃ task, (enterNoteGroup spec t').view =
      { (s.inScope env spec).view with
        host := { (s.inScope env spec).host with task, noMount := (s.inScope env spec).host.noMount || spec.noMount }
        files := t'.view.files
        noteGroup :=
          if !spec.newNoteGroup then (s.inScope env spec).noteGroup
          else if (s.inScope env spec).noteGroup = 0xffffffffffffffff then (s.inScope env spec).noteGroup
          else (s.inScope env spec).noteGroup + 1 } := by
  obtain ⟨task, files, hview⟩ := hdone.view
  have hhost : t'.host = { (s.inScope env spec).host with task } := congrArg View.host hview
  have hnote : t'.noteGroup = (s.inScope env spec).noteGroup := congrArg View.noteGroup hview
  refine ⟨task, ?_⟩
  rw [view_enterNoteGroup, hhost, hnote, hview]

theorem host_inScope (env : ShellEnv σ F) (spec : RcRforkSpec) (s : Star9RcHost σ F) :
    (s.inScope env spec).host = if spec.namespace_ = .shared then s.host else { s.host with task := s.runtime.taskCount } := by
  have hview := congrArg View.host (view_inScope env spec s)
  rw [view_enterNamespace] at hview
  exact hview

theorem noteGroup_inScope (env : ShellEnv σ F) (spec : RcRforkSpec) (s : Star9RcHost σ F) : (s.inScope env spec).noteGroup = s.noteGroup := by
  have hview := congrArg View.noteGroup (view_inScope env spec s)
  rw [view_enterNamespace] at hview
  exact hview

theorem files_inScope (env : ShellEnv σ F) (spec : RcRforkSpec) (s : Star9RcHost σ F) :
    (s.inScope env spec).view.files = if spec.namespace_ = .shared then s.task.fds.table.files else ∅ := by
  have hview := congrArg View.files (view_inScope env spec s)
  rw [view_enterNamespace] at hview
  exact hview

/-- Only a call that shares namespace and environment leaves the scopes as they are. -/
theorem view_inScope_eq_iff (h : WellFormed s) :
    (s.inScope env spec).view = s.view ↔ spec.namespace_ = .shared ∧ spec.environment = .shared := by
  constructor
  · intro hview
    have hhost : (s.inScope env spec).host = s.host := congrArg View.host hview
    have hregistry : (s.inScope env spec).envRegistry = s.envRegistry := congrArg View.envRegistry hview
    constructor
    · by_contra hns
      rw [host_inScope, if_neg hns] at hhost
      exact absurd (congrArg RuntimeShellHost.task hhost) (Nat.ne_of_gt h.task_lt)
    · by_contra henv
      have hnew := congrArg View.envRegistry (view_inScope env spec s)
      simp only [if_neg henv] at hnew
      exact absurd (hnew.symm.trans hregistry) (Nat.ne_of_gt h.registry_lt)
  · rintro ⟨hns, henv⟩
    rw [inScope, hns, henv]
    rfl

theorem newNoteGroup_iff {n : UInt64} {fresh : Bool} :
    (if !fresh then n else if n = 0xffffffffffffffff then n else n + 1).toNat = n.toNat + (if fresh then 1 else 0) ↔
      (fresh = true → n ≠ 0xffffffffffffffff) := by
  cases fresh with
  | false => simp
  | true =>
    by_cases hmax : n = 0xffffffffffffffff
    · simp [hmax]
    · have hn : n.toNat ≠ 18446744073709551615 := fun heq => hmax (UInt64.toNat_inj.mp heq)
      have hlt := n.toNat_lt
      have hsucc : (n + 1).toNat = n.toNat + 1 := by
        rw [UInt64.toNat_add]
        simp only [UInt64.reduceToNat]
        omega
      rw [Bool.not_true, if_neg Bool.false_ne_true, if_neg hmax, if_pos rfl]
      exact iff_of_true hsucc fun _ => hmax

theorem fdsEffect_enterNoteGroup {t : Star9RcHost σ F} (fds : RcRforkFd) :
    FdsEffect fds s (enterNoteGroup spec t).view ↔ FdsEffect fds s t.view := by
  rw [view_enterNoteGroup]
  cases fds <;> rfl

theorem tookEffect_iff {t' : Star9RcHost σ F} (hdone : FdsDone spec s (s.inScope env spec) t') :
    TookEffect env spec s (enterNoteGroup spec t').view ↔
      (spec.fds = .shared → spec.namespace_ = .shared ∨ s.task.fds.table.files = ∅) ∧
        (spec.newNoteGroup = true → s.noteGroup ≠ 0xffffffffffffffff) := by
  obtain ⟨task, hview⟩ := view_done hdone
  rw [noteGroup_inScope] at hview
  have hshared : spec.fds = .shared →
      (FdsEffect spec.fds s (enterNoteGroup spec t').view ↔ spec.namespace_ = .shared ∨ s.task.fds.table.files = ∅) := by
    intro hfds
    have hfiles : (enterNoteGroup spec t').view.files = if spec.namespace_ = .shared then s.task.fds.table.files else ∅ := by
      rw [hview, hdone.shared hfds, files_inScope]
    rw [hfds, FdsEffect, hfiles]
    by_cases hns : spec.namespace_ = .shared
    · simp [hns]
    · rw [if_neg hns]
      exact ⟨fun h => .inr h.symm, fun h => (h.resolve_left hns).symm⟩
  constructor
  · intro h
    have hnote := h.noteGroup
    rw [hview] at hnote
    exact ⟨fun hfds => (hshared hfds).mp h.fds, newNoteGroup_iff.mp hnote⟩
  · rintro ⟨hfds, hnote⟩
    have hns := namespaceEffect_inScope env spec s
    have henv := environmentEffect_inScope env spec s
    have hhost := host_inScope env spec s
    constructor
    · rw [hview]
      exact hns
    · rw [hview]
      exact henv
    · by_cases h : spec.fds = .shared
      · exact (hshared h).mpr (hfds h)
      · exact (fdsEffect_enterNoteGroup spec.fds).mpr (hdone.effect h)
    · rw [hview]
      exact newNoteGroup_iff.mpr hnote
    · rw [hview]
      simp only [hhost]
      split <;> rfl
    · rw [hview]
      simp only [hhost]
      split <;> rfl

end

/-- A call is all or nothing exactly where nothing has been entered before a failure, no shared
descriptor is left behind and the counter of note groups has room. -/
theorem rfork_allOrNothing_iff (env : ShellEnv σ F) (overflow : Overflow) (spec : RcRforkSpec) (s : HostState σ F) :
    AllOrNothing env overflow spec s.toStar9RcHost ↔ ForkSafe env overflow spec s.toStar9RcHost := by
  have hwf := s.wellFormed
  rcases hout : fdsOutcome env overflow spec s.toStar9RcHost with ⟨⟩ | e | _
  · obtain ⟨t', hrun, hdone⟩ := rfork_ok hwf hout
    have heffect := tookEffect_iff hdone
    constructor
    · intro h
      exact ⟨fun e herr => absurd (hout.symm.trans herr) Outcome.err_ne_ok.symm, fun _ => heffect.mp (h.2 _ _ hrun).1⟩
    · intro h
      refine ⟨fun e s' herr => absurd (congrArg Prod.fst (hrun.symm.trans herr)) Outcome.err_ne_ok.symm, fun outcome s' hok => ?_⟩
      cases hrun.symm.trans hok
      exact ⟨heffect.mpr (h.2 hout), rfl⟩
  · obtain ⟨t', hrun, hleft⟩ := rfork_err hwf hout
    constructor
    · intro h
      have hview := h.1 e t' hrun
      refine ⟨fun _ _ => ?_, fun hok => absurd (hout.symm.trans hok) Outcome.err_ne_ok⟩
      rcases hleft with ⟨hfds, hsame⟩ | ⟨-, hopen, hnone⟩
      · exact ⟨hfds, (view_inScope_eq_iff hwf).mp (hsame.symm.trans hview)⟩
      · exact absurd ((congrArg View.files hview).symm.trans hnone) hopen
    · intro h
      obtain ⟨hfds, hshared⟩ := h.1 e hout
      refine ⟨fun e' s' herr => ?_, fun outcome s' hok => absurd (congrArg Prod.fst (hrun.symm.trans hok)) Outcome.err_ne_ok⟩
      cases hrun.symm.trans herr
      rcases hleft with ⟨-, hsame⟩ | ⟨hclean, -, -⟩
      · exact hsame.trans ((view_inScope_eq_iff hwf).mpr hshared)
      · rw [hfds] at hclean
        cases hclean
  · have habort := rfork_abort hwf hout
    refine iff_of_true ⟨fun e s' herr => ?_, fun outcome s' hok => ?_⟩ ⟨fun e herr => ?_, fun hok => ?_⟩
    · rw [herr] at habort
      cases habort
    · rw [hok] at habort
      cases habort
    · cases hout.symm.trans herr
    · cases hout.symm.trans hok

/-! ### References stay good -/

theorem wellFormed_enterScope {s : Star9RcHost σ F} (h : WellFormed s) (ns : Namespace BoundFs) : WellFormed (s.enterScope ns) where
  task_lt := Nat.lt_succ_self _
  ns_lt t ht := by
    by_cases heq : t = s.runtime.taskCount
    · subst heq
      simp [enterScope, Runtime.addTask, Runtime.addNamespace]
    · have hold : t < s.runtime.taskCount := Nat.lt_of_le_of_ne (Nat.le_of_lt_succ ht) heq
      simp only [enterScope, Runtime.addTask, Runtime.addNamespace, Function.update_of_ne heq]
      exact Nat.lt_succ_of_lt (h.ns_lt t hold)
  registry_lt := h.registry_lt

theorem wellFormed_replaceEnvRegistry (env : ShellEnv σ F) {s : Star9RcHost σ F} (h : WellFormed s) {registry : Nat}
    (hregistry : registry < s.runtime.registryCount) : WellFormed (s.replaceEnvRegistry env registry) := by
  unfold replaceEnvRegistry
  by_cases hhash : s.shows env "#env" <;> by_cases hplain : s.shows env "env" <;> simp only [hhash, hplain] <;>
    exact ⟨h.task_lt, h.ns_lt, hregistry⟩

theorem wellFormed_inScope (env : ShellEnv σ F) {s : Star9RcHost σ F} (h : WellFormed s) (spec : RcRforkSpec) :
    WellFormed (s.inScope env spec) := by
  have hns : WellFormed (s.enterNamespace spec.namespace_) := by
    cases spec.namespace_ with
    | shared => exact h
    | copy => exact wellFormed_enterScope h s.namespace_
    | clean =>
      have hclean := wellFormed_enterScope h .new
      exact ⟨hclean.task_lt, hclean.ns_lt, hclean.registry_lt⟩
  have hnew : ∀ entries, WellFormed ((s.enterNamespace spec.namespace_).newEnvRegistry env entries) := by
    intro entries
    apply wellFormed_replaceEnvRegistry env _ (Nat.lt_succ_self _)
    exact ⟨hns.task_lt, hns.ns_lt, Nat.lt_succ_of_lt hns.registry_lt⟩
  rw [inScope]
  cases spec.environment with
  | shared => exact hns
  | copy => exact hnew _
  | clean => exact hnew ∅

theorem wellFormed_onFds {s : Star9RcHost σ F} (h : WellFormed s) (task : Nat) (p : FdM σ F α) : WellFormed (onFds task p s).2 where
  task_lt := h.task_lt
  ns_lt t ht := by
    by_cases heq : t = task
    · subst heq
      simp only [onFds, Function.update_self]
      exact h.ns_lt t ht
    · simp only [onFds, Function.update_of_ne heq]
      exact h.ns_lt t ht
  registry_lt := h.registry_lt

theorem wellFormed_addTask {s : Star9RcHost σ F} (h : WellFormed s) :
    WellFormed ({ s with runtime := s.runtime.addTask s.task.ns } : Star9RcHost σ F) where
  task_lt := Nat.lt_succ_of_lt h.task_lt
  ns_lt t ht := by
    by_cases heq : t = s.runtime.taskCount
    · subst heq
      simp only [Runtime.addTask, Function.update_self]
      exact h.ns_lt s.host.task h.task_lt
    · simp only [Runtime.addTask, Function.update_of_ne heq]
      exact h.ns_lt t (Nat.lt_of_le_of_ne (Nat.le_of_lt_succ ht) heq)
  registry_lt := h.registry_lt

theorem wellFormed_copyFds (env : ShellEnv σ F) (overflow : Overflow) {s : Star9RcHost σ F} (h : WellFormed s) (old : Nat) :
    WellFormed (copyFds env overflow old s).2 := by
  let p : FdM σ F Unit := reopenFdsFrom overflow (env.openPath s.runtime.registries (s.runtime.namespaceOf old)) (s.runtime.tasks old).fds
  let s' : Star9RcHost σ F := { s with runtime := s.runtime.addTask s.task.ns }
  have hcount : (onFds s.runtime.taskCount p s').2.runtime.taskCount = s.runtime.taskCount + 1 := rfl
  have hfds : WellFormed (onFds s.runtime.taskCount p s').2 := wellFormed_onFds (wellFormed_addTask h) _ p
  have hrun : copyFds env overflow old s =
      (onFds s.runtime.taskCount p >>= fun _ => Prog.modify fun t => { t with host := { t.host with task := s.runtime.taskCount } }) s' :=
    bind_ok rfl
  rw [hrun]
  rcases hr : onFds s.runtime.taskCount p s' with ⟨u | e | _, t⟩
  · rw [hr] at hfds hcount
    rw [bind_ok hr]
    have hlt : s.runtime.taskCount < t.runtime.taskCount := by
      rw [hcount]
      exact Nat.lt_succ_self _
    exact ⟨hlt, hfds.ns_lt, hfds.registry_lt⟩
  · rw [hr] at hfds
    rw [bind_err hr]
    exact hfds
  · rw [hr] at hfds
    rw [bind_abort hr]
    exact hfds

/-- Every call leaves a host whose references are good, whatever it answers. -/
theorem wellFormed_rfork (env : ShellEnv σ F) (overflow : Overflow) (spec : RcRforkSpec) {s : Star9RcHost σ F} (h : WellFormed s) :
    WellFormed (rfork env overflow spec s).2 := by
  have hscope := wellFormed_inScope env h spec
  have hfds : WellFormed (enterFds env overflow spec.fds s.host.task (s.inScope env spec)).2 := by
    cases spec.fds with
    | shared => exact hscope
    | copy => exact wellFormed_copyFds env overflow hscope s.host.task
    | clean => exact wellFormed_onFds hscope _ _
  rw [rfork_apply]
  rcases hr : enterFds env overflow spec.fds s.host.task (s.inScope env spec) with ⟨u | e | _, t⟩
  · rw [hr] at hfds
    rw [bind_ok hr]
    have hnote : WellFormed (enterNoteGroup spec t) := by
      unfold enterNoteGroup
      cases spec.noMount <;> exact ⟨hfds.task_lt, hfds.ns_lt, hfds.registry_lt⟩
    exact hnote
  · rw [hr] at hfds
    rw [bind_err hr]
    exact hfds
  · rw [hr] at hfds
    rw [bind_abort hr]
    exact hfds

/-- A host in its first task, with the open files of that task. -/
def inTask (files : Std.ExtTreeMap UInt32 (OpenFile F)) (world : σ) : HostState σ F where
  runtime :=
    { world, tasks := fun _ => { ns := 0, fds := { table := { files, next := 10 }, poisoned := false }, cmd := "" }, taskCount := 1
      namespaces := fun _ => .new, namespaceCount := 1, registries := fun _ => ∅, registryCount := 1 }
  host := { task := 0, nativeEnabled := false, noMount := false }
  envRegistry := 0
  cwd := "."
  noteGroup := 1
  wellFormed := ⟨Nat.zero_lt_one, fun _ _ => Nat.zero_lt_one, Nat.zero_lt_one⟩

/-- A namespace in which nothing can be opened. -/
def emptyEnv : ShellEnv Unit Unit where
  stat _ _ path _ := .error (.path "stat" path .notFound)
  openPath _ _ path world := (.error (.path "open" path .notFound), world)
  close _ world := (.ok (), world)

/-- A pipe cannot be opened again by its path: the call fails, and the host is in another task. -/
theorem rfork_not_atomic :
    ¬AllOrNothing emptyEnv .panics { raw := "nf", namespace_ := .copy, environment := .shared, fds := .copy, newNoteGroup := false, noMount := false }
      (inTask ((∅ : Std.ExtTreeMap UInt32 (OpenFile Unit)).insert 9 ⟨(), "pipe"⟩) ()).toStar9RcHost := by
  intro h
  let spec : RcRforkSpec := { raw := "nf", namespace_ := .copy, environment := .shared, fds := .copy, newNoteGroup := false, noMount := false }
  let s := (inTask ((∅ : Std.ExtTreeMap UInt32 (OpenFile Unit)).insert 9 ⟨(), "pipe"⟩) ()).toStar9RcHost
  have herr : (rfork emptyEnv .panics spec s).1.isOk = false ∧ (rfork emptyEnv .panics spec s).1.returned = true := by decide +kernel
  have htask : (rfork emptyEnv .panics spec s).2.view.host.task ≠ s.view.host.task := by decide +kernel
  rcases hr : rfork emptyEnv .panics spec s with ⟨o | e | _, s'⟩
  · rw [hr] at herr
    cases herr.1
  · rw [hr] at htask
    exact htask (congrArg (fun v => v.host.task) (h.1 e s' hr))
  · rw [hr] at herr
    cases herr.2

end Star9RcHost
end Star9.Shell
