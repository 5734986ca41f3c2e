import Star9.Base.Map
import Star9.Base.Run
import Star9.Rc.Eval

/-!
# Background jobs

A background command is started by the host, or run by rc itself. The host keeps
the jobs it runs, and the session keeps those that rc has run; `wait` asks the host
first, and looks at the session's own jobs only when the host has nothing to say.
-/
namespace Star9.Rc
open Base Prog

/-- The running jobs of a host, with what each of them delivers in the end. -/
structure JobHost (B : Type) where
  base : B
  running : Std.ExtTreeMap UInt32 RcCommandResult

/-- What a host does beside its jobs to start a process graph. -/
structure JobProvider (B : Type) where
  canExecute : B → RcExecutableGraphSpec → Bool
  nextGraphRoot : Prog B RcError String
  deliver : B → RcExecutableGraphSpec → RcCommandResult

namespace JobHost
variable {B α : Type}

def onBase (p : Prog B RcError α) : Prog (JobHost B) RcError α :=
  zoom JobHost.base (fun base h => { h with base }) p

def jobResult (id : UInt32) (result : RcCommandResult) : RcProcessJobResult :=
  { id, status := result.status, stdout := result.stdout, stderr := result.stderr }

/-- The job that is asked for, or all of them; a host without such a job leaves the answer to the session. -/
def waitProcessJob (requested : Option UInt32) : Prog (JobHost B) RcError (Option (List RcProcessJobResult)) := do
  let h ← get
  match requested with
  | some id =>
    match h.running[id]? with
    | some result => do
      set { h with running := h.running.erase id }
      pure (some [jobResult id result])
    | none => pure none
  | none =>
    if h.running.isEmpty then pure none
    else do
      set { h with running := ∅ }
      pure (some (h.running.toList.map fun job => jobResult job.1 job.2))

def startProcessGraphJob (provider : JobProvider B) (spec : RcExecutableGraphSpec) :
    Prog (JobHost B) RcError (Option RcStartedProcessJob) := do
  let h ← get
  if spec.kind ≠ .background then pure none
  else
    match spec.jobId with
    | none => pure none
    | some id =>
      if !provider.canExecute h.base spec then pure none
      else do
        let _ ← onBase provider.nextGraphRoot
        modify fun h => { h with running := h.running.insert id (provider.deliver h.base spec) }
        pure (some ⟨id⟩)

end JobHost

/-- A host that runs jobs; everything else goes to the host below. -/
def RcHost.withJobs {B : Type} (provider : JobProvider B) (base : RcHost B) : RcHost (JobHost B) where
  currentDir h := base.currentDir h.base
  setCurrentDir path := JobHost.onBase (base.setCurrentDir path)
  readFile path := JobHost.onBase (base.readFile path)
  writeFile path data := JobHost.onBase (base.writeFile path data)
  appendFile path data := JobHost.onBase (base.appendFile path data)
  readDir path := JobHost.onBase (base.readDir path)
  stat path := JobHost.onBase (base.stat path)
  runCommand invocation := JobHost.onBase (base.runCommand invocation)
  loadEnvironment := JobHost.onBase base.loadEnvironment
  storeEnvironment env := JobHost.onBase (base.storeEnvironment env)
  prepareProcessGraph spec := JobHost.onBase (base.prepareProcessGraph spec)
  finishProcessGraph record outcomes := JobHost.onBase (base.finishProcessGraph record outcomes)
  waitProcessJob := JobHost.waitProcessJob
  sendNoteToProcesses note := JobHost.onBase (base.sendNoteToProcesses note)
  executeProcessGraph spec := JobHost.onBase (base.executeProcessGraph spec)
  startProcessGraphJob := JobHost.startProcessGraphJob provider
  rfork spec := JobHost.onBase (base.rfork spec)

/-! ## The two tables -/

/-- What a session and its host know about jobs. -/
structure JobTables where
  nextJobId : UInt32
  jobs : List RcJob
  running : Std.ExtTreeMap UInt32 RcCommandResult

namespace JobTables

def ofSession {B : Type} (s : RcSession (JobHost B)) : JobTables :=
  { nextJobId := s.nextJobId, jobs := s.jobs, running := s.host.running }

def empty : JobTables := { nextJobId := 1, jobs := [], running := ∅ }

def allocate (t : JobTables) : JobTables := { t with nextJobId := t.nextJobId + 1 }

def accept (id : UInt32) (result : RcCommandResult) (t : JobTables) : JobTables :=
  { t with running := t.running.insert id result }

def push (job : RcJob) (t : JobTables) : JobTables := { t with jobs := t.jobs ++ [job] }

def ofJob (job : RcJob) : RcProcessJobResult :=
  { id := job.id, status := job.status, stdout := job.stdout, stderr := job.stderr }

/-- The jobs of the session that a `wait` takes. -/
def waitSession (requested : Option UInt32) (t : JobTables) : List RcProcessJobResult × JobTables :=
  match requested with
  | none => (t.jobs.map ofJob, { t with jobs := [] })
  | some id =>
    match t.jobs.find? fun job => job.id = id with
    | none => ([], t)
    | some job => ([ofJob job], { t with jobs := t.jobs.eraseP fun job => job.id = id })

/-- The jobs that a `wait` reports, and the tables it leaves. -/
def wait (requested : Option UInt32) (t : JobTables) : List RcProcessJobResult × JobTables :=
  match requested with
  | none =>
    if t.running.isEmpty then t.waitSession none
    else (t.running.toList.map fun job => JobHost.jobResult job.1 job.2, { t with running := ∅ })
  | some id =>
    match t.running[id]? with
    | some result => ([JobHost.jobResult id result], { t with running := t.running.erase id })
    | none => t.waitSession (some id)

end JobTables

section Session
variable {B α : Type} (provider : JobProvider B) (base : RcHost B)

theorem onBase_tables (p : Prog B RcError α) :
    Preserves JobTables.ofSession (onHost (JobHost.onBase p) : RcM (JobHost B) α) := fun _ => rfl

theorem finishProcessGraph_tables (record : Option RcProcessGraphRecord) (statuses : List RcStatus) :
    Preserves JobTables.ofSession (finishProcessGraph (base.withJobs provider) record statuses) := by
  cases record with
  | none => exact preserves_pure _
  | some record => exact preserves_bind (preserves_attempt (onBase_tables _)) fun _ => preserves_pure _

theorem prepareBackgroundGraph_tables (id : UInt32) (node : Node) :
    Preserves JobTables.ofSession (prepareBackgroundGraph (base.withJobs provider) id node) := by
  refine preserves_bind preserves_get fun s => preserves_bind ?_ fun _ => preserves_pure _
  exact preserves_bind (preserves_attempt (onBase_tables _)) fun _ => preserves_pure _

theorem finishJobs_tables (jobs : List RcJob) : Preserves JobTables.ofSession (finishJobs (base.withJobs provider) jobs) := by
  induction jobs with
  | nil => exact preserves_pure _
  | cons job jobs ih => exact preserves_bind (finishProcessGraph_tables provider base _ _) fun _ => ih

theorem reportJobs_tables (jobs : List RcJob) : Preserves JobTables.ofSession (reportJobs (base.withJobs provider) jobs) :=
  preserves_bind (finishJobs_tables provider base jobs) fun _ => preserves_pure _

theorem reportJobs_output {jobs : List RcJob} {s s' : RcSession (JobHost B)} {out : RcOutput}
    (h : reportJobs (base.withJobs provider) jobs s = (.ok out, s')) : out = renderWaitResults (jobs.map JobTables.ofJob) := by
  obtain ⟨_, s₁, -, h⟩ := bind_eq_ok.mp h
  cases h
  rfl

/-- The output of a `wait` that reports these jobs. -/
def waitOutput (requested : Option UInt32) (reported : List RcProcessJobResult) : RcOutput :=
  match requested, reported with
  | some id, [] => .failure "wait" ("wait: " ++ toString id ++ ": no such job\n")
  | _, reported => renderWaitResults reported

/-- The host reports jobs of its table, or leaves the table alone and the answer to the session. -/
theorem waitProcessJob_cases (requested : Option UInt32) (s : RcSession (JobHost B)) :
    (∃ reported h, JobHost.waitProcessJob requested s.host = (.ok (some reported), h) ∧
      (JobTables.ofSession s).wait requested = (reported, JobTables.ofSession { s with host := h }) ∧
      waitOutput requested reported = renderWaitResults reported) ∨
    JobHost.waitProcessJob requested s.host = (.ok none, s.host) ∧
      (JobTables.ofSession s).wait requested = (JobTables.ofSession s).waitSession requested := by
  unfold JobHost.waitProcessJob
  rw [get_bind]
  cases requested with
  | none =>
    dsimp only
    by_cases hempty : s.host.running.isEmpty = true
    · rw [if_pos hempty]
      exact Or.inr ⟨rfl, if_pos hempty⟩
    · rw [if_neg hempty]
      exact Or.inl ⟨_, { s.host with running := ∅ }, rfl, if_neg hempty, rfl⟩
  | some id =>
    dsimp only
    cases hjob : s.host.running[id]? with
    | some result =>
      refine Or.inl ⟨_, { s.host with running := s.host.running.erase id }, rfl, ?_, rfl⟩
      simp only [JobTables.wait, JobTables.ofSession, hjob]
    | none =>
      refine Or.inr ⟨rfl, ?_⟩
      simp only [JobTables.wait, JobTables.ofSession, hjob]

/-- `wait` moves the tables on, and its output is about the jobs it takes out of them. -/
theorem waitFor_tables (requested : Option UInt32) (s : RcSession (JobHost B)) :
    JobTables.ofSession (waitFor (base.withJobs provider) requested s).2 = ((JobTables.ofSession s).wait requested).2 ∧
    ∀ out, (waitFor (base.withJobs provider) requested s).1 = .ok out →
      out = waitOutput requested ((JobTables.ofSession s).wait requested).1 := by
  have hhost : ∀ r h, (JobHost.waitProcessJob requested s.host) = (.ok r, h) →
      attempt (onHost ((base.withJobs provider).waitProcessJob requested)) s = (.ok (.ok r), { s with host := h }) := by
    intro r h hwait
    refine attempt_ok ?_
    change ((JobHost.waitProcessJob requested s.host).1, { s with host := (JobHost.waitProcessJob requested s.host).2 }) = _
    rw [hwait]
  unfold waitFor
  rcases waitProcessJob_cases requested s with ⟨reported, h, hwait, htables, hreported⟩ | ⟨hwait, htables⟩
  · rw [bind_ok (hhost _ _ hwait), htables]
    refine ⟨rfl, fun out hout => ?_⟩
    cases hout
    exact hreported.symm
  · rw [bind_ok (hhost _ _ hwait), htables]
    dsimp only
    rw [get_bind]
    cases requested with
    | none =>
      refine ⟨reportJobs_tables provider base s.jobs _, fun out hout => ?_⟩
      exact reportJobs_output provider base (Prod.ext hout rfl)
    | some id =>
      dsimp only
      unfold JobTables.waitSession
      cases hfind : s.jobs.find? fun job => job.id = id with
      | none =>
        simp only [JobTables.ofSession, hfind]
        refine ⟨rfl, fun out hout => ?_⟩
        cases hout
        rfl
      | some job =>
        simp only [JobTables.ofSession, hfind]
        refine ⟨reportJobs_tables provider base [job] _, fun out hout => ?_⟩
        exact reportJobs_output provider base (Prod.ext hout rfl)

/-- The host takes a job into its table, or leaves the table alone. -/
theorem startProcessGraphJob_cases (id : UInt32) (stages : List RcExecutableStageSpec) (h : JobHost B) :
    (∃ result h', JobHost.startProcessGraphJob provider ⟨.background, some id, stages⟩ h = (.ok (some ⟨id⟩), h') ∧
      h'.running = h.running.insert id result) ∨
    (∀ job, (JobHost.startProcessGraphJob provider ⟨.background, some id, stages⟩ h).1 ≠ .ok (some job)) ∧
      (JobHost.startProcessGraphJob provider ⟨.background, some id, stages⟩ h).2.running = h.running := by
  unfold JobHost.startProcessGraphJob
  rw [get_bind]
  dsimp only
  rw [branch_apply, if_neg (not_not.mpr rfl), branch_apply]
  cases hcan : provider.canExecute h.base ⟨.background, some id, stages⟩ with
  | false => exact Or.inr ⟨nofun, rfl⟩
  | true =>
    have hbase : JobHost.onBase provider.nextGraphRoot h =
        ((provider.nextGraphRoot h.base).1, { h with base := (provider.nextGraphRoot h.base).2 }) := by
      unfold JobHost.onBase
      rw [zoom_apply]
    rw [if_neg (by simp), bind_apply, hbase]
    rcases provider.nextGraphRoot h.base with ⟨root | e | _, b⟩
    · exact Or.inl ⟨_, _, rfl, rfl⟩
    · exact Or.inr ⟨nofun, rfl⟩
    · exact Or.inr ⟨nofun, rfl⟩

/-- A background command gets the next number, and its job then goes to one of the two
tables; before that the expansion of its words or its own run may go through other commands. -/
theorem evalBackground_tables (parse : String → Except RcError Script) (ev : Node → String → RcM (JobHost B) RcRun)
    {inner : Node} {input : String} {s s' : RcSession (JobHost B)} {run : RcRun}
    (h : evalBackground parse (base.withJobs provider) ev inner input s = (.ok run, s')) :
    (∃ stage s₁ result, executableStage (base.withJobs provider) (sourceOutput parse (base.withJobs provider) ev) inner input []
        { s with nextJobId := s.nextJobId + 1 } = (.ok (some stage), s₁) ∧
      JobTables.ofSession s' = (JobTables.ofSession s₁).accept s.nextJobId result) ∨
    ∃ s₁ s₂ out s₃ graph, tryStartBackgroundGraph (base.withJobs provider) (sourceOutput parse (base.withJobs provider) ev)
        s.nextJobId inner input { s with nextJobId := s.nextJobId + 1 } = (.ok false, s₁) ∧
      JobTables.ofSession s₂ = JobTables.ofSession s₁ ∧ ev inner input s₂ = (.ok out, s₃) ∧
      JobTables.ofSession s' = (JobTables.ofSession s₃).push
        { id := s.nextJobId, status := out.status, stdout := out.stdout, stderr := out.stderr, graph } := by
  unfold evalBackground at h
  rw [get_bind] at h
  obtain ⟨_, _, hset, h⟩ := bind_eq_ok.mp h
  cases hset
  obtain ⟨started, s₁, htry, h⟩ := bind_eq_ok.mp h
  cases started with
  | true =>
    left
    rw [branch_apply, if_pos rfl] at h
    cases h
    unfold tryStartBackgroundGraph at htry
    obtain ⟨stage, s₂, hstage, htry⟩ := bind_eq_ok.mp htry
    cases stage with
    | none => cases htry
    | some stage =>
      refine ⟨stage, s₂, ?_⟩
      obtain ⟨job, s₃, hjob, htry⟩ := bind_eq_ok.mp htry
      rw [pure_apply, Prod.mk.injEq, Outcome.ok.injEq] at htry
      obtain ⟨hsome, rfl⟩ := htry
      obtain ⟨result, s₄, hattempt, hjob⟩ := bind_eq_ok.mp hjob
      cases hjob
      have hhost : onHost ((base.withJobs provider).startProcessGraphJob ⟨.background, some s.nextJobId, [stage]⟩) s₂ =
          ((JobHost.startProcessGraphJob provider ⟨.background, some s.nextJobId, [stage]⟩ s₂.host).1, { s₂ with
            host := (JobHost.startProcessGraphJob provider ⟨.background, some s.nextJobId, [stage]⟩ s₂.host).2 }) := by
        unfold onHost
        exact zoom_apply _ _ _ s₂
      rcases startProcessGraphJob_cases provider s.nextJobId [stage] s₂.host with ⟨result', h', hstart, hrunning⟩ | ⟨hnone, -⟩
      · rw [hstart] at hhost
        rw [attempt_ok hhost] at hattempt
        cases hattempt
        refine ⟨result', hstage, ?_⟩
        simp only [JobTables.ofSession, JobTables.accept, hrunning]
      · exfalso
        rcases hrun : JobHost.startProcessGraphJob provider ⟨.background, some s.nextJobId, [stage]⟩ s₂.host with
          ⟨job | e | _, h'⟩ <;> rw [hrun] at hhost hnone
        · rw [attempt_ok hhost] at hattempt
          cases hattempt
          cases job with
          | none => cases hsome
          | some job => exact hnone job rfl
        · rw [attempt_err hhost] at hattempt
          cases hattempt
          cases hsome
        · rw [attempt_abort hhost] at hattempt
          cases hattempt
  | false =>
    right
    rw [branch_apply, if_neg Bool.false_ne_true] at h
    obtain ⟨graph, s₂, hgraph, h⟩ := bind_eq_ok.mp h
    obtain ⟨out, s₃, hout, h⟩ := bind_eq_ok.mp h
    obtain ⟨_, s₄, hfinish, h⟩ := bind_eq_ok.mp h
    cases h
    refine ⟨s₁, s₂, out, s₃, graph, htry, ?_, hout, ?_⟩
    · have := prepareBackgroundGraph_tables provider base s.nextJobId inner s₁
      rwa [hgraph] at this
    · have htables := finishProcessGraph_tables provider base graph [out.status] s₃
      rw [hfinish] at htables
      change JobTables.push _ (JobTables.ofSession s₄) = _
      rw [htables]

end Session

end Star9.Rc
