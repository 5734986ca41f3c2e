import Star9.Base.Keeps
import Star9.Rc.Eval
import Star9.Rc.ParseEnds

/-!
# The positional parameters

A function, a note function and a script found by path run under their own arguments and
give the old ones back. A script that does not parse is the exception: its name and
arguments are set before it is parsed and stay when the parse fails, and the search of the
path goes on as if nothing had happened.
-/
namespace Star9.Rc
open Base Prog

section
variable {H γ : Type} {T : Prop} {f : String → γ}

/-- What the name under which a script runs tells. -/
def nameObs (f : String → γ) (s : RcSession H) : γ := f s.argv0

theorem keeps_onHost {α : Type} (p : Prog H RcError α) : Keeps True (nameObs f) (onHost p : RcM H α) :=
  keeps_of_preserves fun _ => rfl

theorem keeps_ignore {α : Type} {p : RcM H α} (h : Keeps True (nameObs f) p) : Keeps T (nameObs f) (ignore p) :=
  keeps_bind (keeps_attempt h) fun _ => keeps_pure _

theorem keeps_attempt? {α : Type} {p : RcM H α} (h : Keeps True (nameObs f) p) : Keeps T (nameObs f) (attempt? p) :=
  keeps_bind (keeps_attempt h) fun _ => keeps_pure _

/-! ## Environment and expansion -/

section
variable {parse : String → Except RcError Script} {host : RcHost H} {src : String → RcM H RcOutput}

theorem importEnvironment_argv0 (env : RcEnvironment) (s : RcSession H) : (s.importEnvironmentWithoutPublish parse env).argv0 = s.argv0 := by
  have hentry : ∀ (s : RcSession H) (name : String) (data : Bytes), (s.importEntry parse name data).argv0 = s.argv0 := by
    intro s name data
    unfold RcSession.importEntry
    split
    · unfold RcSession.importFunction
      split
      · split
        · rfl
        · rfl
      · rfl
    · rfl
  have hall : ∀ (step : RcSession H → String × Bytes → RcSession H), (∀ s entry, (step s entry).argv0 = s.argv0) →
      ∀ (entries : List (String × Bytes)) (s : RcSession H), (entries.foldl step s).argv0 = s.argv0 := by
    intro step hstep entries
    induction entries with
    | nil => exact fun s => rfl
    | cons entry entries ih => exact fun s => (ih _).trans (hstep s entry)
  exact hall _ (fun s entry => hentry s entry.1 entry.2) env.toList s

theorem keeps_importHostEnvironment : Keeps True (nameObs f) (importHostEnvironment parse host) := by
  refine keeps_bind (keeps_onHost _) fun env => ?_
  cases env with
  | none => exact keeps_pure _
  | some env => exact keeps_modify fun s => congrArg f (importEnvironment_argv0 env s)

theorem keeps_publishEnvironment : Keeps True (nameObs f) (publishEnvironment host) := keeps_bind keeps_get fun _ => keeps_onHost _

theorem keeps_setArgs (args : List String) : Keeps T (nameObs f) (setArgs host args) :=
  keeps_bind (keeps_modify fun _ => rfl) fun _ => keeps_ignore keeps_publishEnvironment

theorem keeps_globInner (parts : List String) (base pre : String) : Keeps T (nameObs f) (globInner host base parts pre) := by
  induction parts generalizing base pre with
  | nil => exact keeps_pure _
  | cons part parts ih =>
    refine keeps_ite (ih _ _) (keeps_bind (keeps_attempt (keeps_onHost _)) fun entries => ?_)
    cases entries with
    | error _ => exact keeps_pure _
    | ok entries =>
      refine keeps_bind (keeps_mapM fun entry => ?_) fun _ => keeps_pure _
      exact keeps_ite (keeps_pure _) (keeps_ite (ih _ _) (keeps_pure _))

theorem keeps_glob (pattern : String) : Keeps T (nameObs f) (glob host pattern) := by
  unfold glob
  exact keeps_bind keeps_get fun s => keeps_bind (keeps_globInner _ _ _) fun out => keeps_pure _

theorem keeps_expandGlobOrLiteral (value : String) : Keeps T (nameObs f) (expandGlobOrLiteral host value) := by
  unfold expandGlobOrLiteral
  split
  · exact keeps_pure _
  · exact keeps_bind (keeps_glob value) fun found => keeps_pure _

theorem keeps_prepareGraph (spec : RcProcessGraphSpec) : Keeps T (nameObs f) (prepareGraph host spec) :=
  keeps_bind (keeps_attempt? (keeps_onHost _)) fun _ => keeps_pure _

theorem keeps_finishProcessGraph (record : Option RcProcessGraphRecord) (statuses : List RcStatus) :
    Keeps T (nameObs f) (finishProcessGraph host record statuses) := by
  cases record with
  | none => exact keeps_pure _
  | some record => exact keeps_ignore (keeps_onHost _)

theorem keeps_hostExecutableArgv (path : String) (args : List String) : Keeps T (nameObs f) (hostExecutableArgv host path args) := by
  refine keeps_bind (keeps_attempt (keeps_onHost _)) fun r => ?_
  cases r with
  | ok bytes => exact keeps_pure _
  | error err => exact keeps_pure _

theorem keeps_findExecutable (command : String) (args dirs : List String) : Keeps T (nameObs f) (findExecutable host command args dirs) := by
  induction dirs with
  | nil => exact keeps_pure _
  | cons dir dirs ih =>
    refine keeps_bind (keeps_hostExecutableArgv _ _) fun argv => ?_
    cases argv with
    | none => exact ih
    | some argv => exact keeps_pure _

theorem keeps_resolveExternalArgv (words : List String) : Keeps T (nameObs f) (resolveExternalArgv host words) := by
  cases words with
  | nil => exact keeps_pure _
  | cons command args =>
    refine keeps_ite (keeps_pure _) (keeps_ite (keeps_pure _) (keeps_ite (keeps_hostExecutableArgv _ _) ?_))
    exact keeps_bind keeps_get fun s => keeps_findExecutable _ _ _

section
variable (hsrc : ∀ source, Keeps False (nameObs f) (src source))
include hsrc

theorem keeps_expandPartFrom (total fuel i : Nat) (chars : List Char) (acc : List String) :
    Keeps True (nameObs f) (expandPartFrom src total fuel i chars acc) := by
  induction fuel generalizing i chars acc with
  | zero =>
    cases chars with
    | nil => exact keeps_pure acc
    | cons ch rest => exact keeps_pure acc
  | succ fuel ih =>
    cases chars with
    | nil => exact keeps_pure acc
    | cons ch rest =>
      rw [expandPartFrom]
      refine keeps_ite ?_ (keeps_ite ?_ (keeps_ite ?_ (ih _ _ _)))
      · refine keeps_bind (keeps_ofExcept _) ?_
        rintro ⟨literal, rest, i⟩
        exact ih i rest _
      · refine keeps_bind keeps_get fun s => keeps_bind (keeps_ofExcept _) ?_
        rintro ⟨values, rest, i⟩
        exact ih i rest _
      · refine keeps_bind (keeps_ofExcept _) ?_
        rintro ⟨source, rest, i⟩
        exact keeps_bind (hsrc source).may fun out => keeps_bind keeps_get fun s => ih i rest _

theorem keeps_expandRawWord (raw : String) : Keeps True (nameObs f) (expandRawWord src raw) :=
  keeps_foldlM _ (fun _ _ => keeps_bind (keeps_expandPartFrom hsrc _ _ _ _ _) fun _ => keeps_pure _) _

theorem keeps_expandWord (word : Word) : Keeps T (nameObs f) (expandWord src word) := by
  refine keeps_bind (keeps_attempt (keeps_expandRawWord hsrc word.raw)) fun r => ?_
  cases r with
  | ok values => exact keeps_pure _
  | error err => exact keeps_pure _

theorem keeps_expandWords (words : List Word) : Keeps T (nameObs f) (expandWords host src words) :=
  keeps_bind (keeps_mapM fun word => keeps_bind (keeps_expandWord hsrc word) fun _ =>
    keeps_bind (keeps_mapM fun _ => keeps_expandGlobOrLiteral _) fun _ => keeps_pure _) fun _ => keeps_pure _

theorem keeps_expandAssignments (assignments : List Assignment) : Keeps T (nameObs f) (expandAssignments host src assignments) := by
  refine keeps_mapM fun a => ?_
  split
  · exact keeps_bind (keeps_pure _) fun _ => keeps_pure _
  · exact keeps_bind (keeps_expandWords hsrc _) fun _ => keeps_pure _

/-! ## Process graphs -/

theorem keeps_redirectPath (redirect : Redirect) : Keeps True (nameObs f) (redirectPath src redirect) := by
  unfold redirectPath
  split
  · refine keeps_bind (keeps_expandWord hsrc _) fun values => ?_
    split
    · exact keeps_pure _
    · exact keeps_throw _
  · exact keeps_throw _
  · exact keeps_throw _
  · exact keeps_throw _

theorem keeps_redirectHereText (redirect : Redirect) : Keeps True (nameObs f) (redirectHereText src redirect) := by
  unfold redirectHereText
  split
  · exact keeps_ite (keeps_bind (keeps_expandRawWord hsrc _) fun _ => keeps_pure _) (keeps_pure _)
  · exact keeps_pure _
  · exact keeps_throw _
  · exact keeps_pure _

theorem keeps_stageRedirects (redirects : List Redirect) (stdin : String) (bindings : List RcFdBindingSpec) :
    Keeps T (nameObs f) (stageRedirects src redirects stdin bindings) := by
  induction redirects generalizing stdin bindings with
  | nil => exact keeps_pure _
  | cons redirect redirects ih =>
    unfold stageRedirects
    dsimp only
    split
    · exact keeps_bind (keeps_attempt? (keeps_redirectPath hsrc redirect)) (keeps_option (keeps_pure _) fun _ => ih _ _)
    · exact keeps_ite (keeps_pure _) (keeps_bind (keeps_attempt? (keeps_redirectHereText hsrc redirect)) (keeps_option (keeps_pure _) fun _ => ih _ _))
    · exact keeps_pure _
    · exact keeps_ite (keeps_pure _) (keeps_bind (keeps_attempt? (keeps_redirectHereText hsrc redirect)) (keeps_option (keeps_pure _) fun _ => ih _ _))
    · exact keeps_bind (keeps_attempt? (keeps_redirectPath hsrc redirect)) (keeps_option (keeps_pure _) fun _ => ih _ _)
    · exact keeps_pure _
    · exact keeps_bind (keeps_attempt? (keeps_redirectPath hsrc redirect)) (keeps_option (keeps_pure _) fun _ => ih _ _)
    · exact keeps_pure _
    · exact ih _ _
    · exact ih _ _

theorem keeps_executableStage (node : Node) (stdin : String) (bindings : List RcFdBindingSpec) :
    Keeps T (nameObs f) (executableStage host src node stdin bindings) := by
  unfold executableStage
  split
  · exact keeps_pure _
  · refine keeps_bind keeps_get fun s => keeps_bind (keeps_expandAssignments hsrc _) fun assigned =>
      keeps_bind (keeps_expandWords hsrc _) fun words => keeps_bind keeps_get fun s => ?_
    split
    · exact keeps_pure _
    · refine keeps_ite (keeps_pure _) (keeps_bind (keeps_stageRedirects hsrc _ _ _) fun redirected => ?_)
      split
      · exact keeps_pure _
      · refine keeps_bind (keeps_resolveExternalArgv _) fun argv => ?_
        split
        · exact keeps_pure _
        · exact keeps_bind keeps_get fun s => keeps_pure _

theorem keeps_pipelineStages (edges : List (Nat × Nat)) (input : String) (nodes : List Node) (index : Nat) :
    Keeps T (nameObs f) (pipelineStages host src edges input nodes index) := by
  induction nodes generalizing index with
  | nil => exact keeps_pure _
  | cons node nodes ih =>
    refine keeps_bind (keeps_executableStage hsrc _ _ _) fun stage => ?_
    cases stage with
    | none => exact keeps_pure _
    | some stage =>
      refine keeps_bind (ih _) fun stages => ?_
      cases stages with
      | none => exact keeps_pure _
      | some stages => exact keeps_pure _

theorem keeps_tryExecutePipelineGraph (left right : Node) (fromFd toFd : Nat) (input : String) :
    Keeps T (nameObs f) (tryExecutePipelineGraph host src left right fromFd toFd input) := by
  unfold tryExecutePipelineGraph
  split
  · exact keeps_pure _
  · refine keeps_bind (keeps_pipelineStages hsrc _ _ _ _) fun stages => ?_
    cases stages with
    | none => exact keeps_pure _
    | some stages => exact keeps_bind (keeps_attempt? (keeps_onHost _)) fun out => keeps_pure _

theorem keeps_tryStartBackgroundGraph (id : UInt32) (node : Node) (input : String) :
    Keeps T (nameObs f) (tryStartBackgroundGraph host src id node input) := by
  refine keeps_bind (keeps_executableStage hsrc _ _ _) fun stage => ?_
  cases stage with
  | none => exact keeps_pure _
  | some stage => exact keeps_bind (keeps_attempt? (keeps_onHost _)) fun job => keeps_pure _

theorem keeps_tryExecuteProcessSubstitutionGraph (kind : RcProcessGraphKind) (node : Node) (input : String) (fd : Nat) :
    Keeps T (nameObs f) (tryExecuteProcessSubstitutionGraph host src kind node input fd) := by
  refine keeps_bind (keeps_executableStage hsrc _ _ _) fun stage => ?_
  cases stage with
  | none => exact keeps_pure _
  | some stage =>
    refine keeps_bind (keeps_attempt (keeps_onHost _)) fun r => ?_
    cases r with
    | ok out => exact keeps_pure _
    | error err => exact keeps_pure _

end

/-! ## Nested evaluations -/

/-- A nested evaluation keeps the name, and so do the scripts that it runs. -/
structure NestedKeeps (parse : String → Except RcError Script) (host : RcHost H) (f : String → γ) (ev : Node → String → RcM H RcRun) : Prop where
  node : ∀ node input, Keeps False (nameObs f) (ev node input)
  script : ∀ path args input, Keeps True (nameObs f) (runRcScript parse host ev path args input)

section
variable {ev : Node → String → RcM H RcRun}

theorem keeps_evalNodesFrom (hev : ∀ node input, Keeps False (nameObs f) (ev node input)) (nodes : List Node) (input : String) (out : RcRun) :
    Keeps T (nameObs f) (evalNodesFrom ev nodes input out) := by
  induction nodes generalizing input out with
  | nil => exact keeps_pure _
  | cons node nodes ih => exact keeps_bind (hev node input).may fun next => keeps_ite (keeps_pure _) (ih _ _)

theorem keeps_evalNodes (hev : ∀ node input, Keeps False (nameObs f) (ev node input)) (nodes : List Node) (input : String) :
    Keeps T (nameObs f) (evalNodes ev nodes input) := keeps_evalNodesFrom hev nodes input _

theorem keeps_evalScript (hev : ∀ node input, Keeps False (nameObs f) (ev node input)) (script : Script) (input : String) :
    Keeps T (nameObs f) (evalScript host ev script input) :=
  keeps_bind (keeps_evalNodes hev _ _) fun _ => keeps_bind (keeps_modify fun _ => rfl) fun _ =>
    keeps_bind (keeps_ignore keeps_publishEnvironment) fun _ => keeps_pure _

theorem keeps_sourceOutput (hev : ∀ node input, Keeps False (nameObs f) (ev node input)) (source : String) :
    Keeps T (nameObs f) (sourceOutput parse host ev source) := by
  refine keeps_bind (keeps_bind (keeps_ignore keeps_importHostEnvironment) fun _ => ?_) fun _ => keeps_pure _
  split
  · exact keeps_evalScript hev _ _
  · exact keeps_bind (keeps_modify fun _ => rfl) fun _ => keeps_pure _

theorem keeps_runHostCommand (name : String) (args : List String) (stdin : String) :
    Keeps True (nameObs f) (runHostCommand host name args stdin) :=
  keeps_bind keeps_get fun _ => keeps_bind (keeps_onHost _) fun _ => keeps_pure _

theorem keeps_runExternal (name : String) (args : List String) (stdin : String) :
    Keeps T (nameObs f) (runExternal host name args stdin) := by
  refine keeps_bind (keeps_attempt (keeps_runHostCommand _ _ _)) fun r => ?_
  cases r with
  | ok out => exact keeps_pure _
  | error err => exact keeps_pure _

theorem keeps_searchPath (hev : NestedKeeps parse host f ev) (command : String) (args : List String) (input : String) (dirs : List String) :
    Keeps T (nameObs f) (searchPath parse host ev command args input dirs) := by
  induction dirs with
  | nil => exact keeps_pure _
  | cons dir dirs ih =>
    refine keeps_bind (keeps_attempt (hev.script _ _ _)) fun r => ?_
    cases r with
    | ok out => exact keeps_pure _
    | error err => exact ih

theorem keeps_runPathCommand (hev : NestedKeeps parse host f ev) (command : String) (args : List String) (input : String) :
    Keeps T (nameObs f) (runPathCommand parse host ev command args input) :=
  keeps_ite (keeps_attempt? (hev.script _ _ _)) (keeps_bind keeps_get fun _ => keeps_searchPath hev _ _ _ _)

theorem keeps_runFunction (hev : ∀ node input, Keeps False (nameObs f) (ev node input)) (body : Node) (args : List String) (input : String) :
    Keeps T (nameObs f) (runFunction host ev body args input) :=
  keeps_bind keeps_get fun _ => keeps_bind (keeps_setArgs _) fun _ => keeps_bind (hev body input).may fun _ =>
    keeps_bind (keeps_setArgs _) fun _ => keeps_pure _

theorem keeps_runNoteFunction (hev : ∀ node input, Keeps False (nameObs f) (ev node input)) (name : String) :
    Keeps T (nameObs f) (runNoteFunction host ev name) := by
  refine keeps_bind keeps_get fun s => keeps_ite (keeps_pure _) (keeps_bind (keeps_modify fun _ => rfl) fun _ => ?_)
  split
  · exact keeps_bind (keeps_runFunction hev _ _ _) fun _ => keeps_bind (keeps_pure _) fun _ => keeps_bind (keeps_modify fun _ => rfl) fun _ => keeps_pure _
  · exact keeps_bind (keeps_pure _) fun _ => keeps_bind (keeps_modify fun _ => rfl) fun _ => keeps_pure _

/-! ## Builtins -/

theorem keeps_runCd (args : List String) : Keeps T (nameObs f) (runCd host args) := by
  refine keeps_bind (keeps_attempt (keeps_onHost _)) fun r => ?_
  cases r with
  | ok _ => exact keeps_pure _
  | error err => exact keeps_pure _

theorem keeps_runExec (hev : NestedKeeps parse host f ev) (args : List String) (input : String) :
    Keeps T (nameObs f) (runExec parse host ev args input) := by
  cases args with
  | nil => exact keeps_pure _
  | cons command rest =>
    refine keeps_bind (keeps_runPathCommand hev _ _ _) fun found => ?_
    cases found with
    | some out => exact keeps_pure _
    | none => exact keeps_bind (keeps_runExternal _ _ _) fun out => keeps_pure _

theorem keeps_runDot (hev : ∀ node input, Keeps False (nameObs f) (ev node input)) (args : List String) :
    Keeps T (nameObs f) (runDot parse host ev args) := by
  unfold runDot
  split
  · refine keeps_bind (keeps_attempt (keeps_onHost _)) fun r => ?_
    cases r with
    | ok bytes => exact keeps_sourceOutput hev _
    | error err => exact keeps_pure _
  · exact keeps_pure _

theorem keeps_finishJobs (jobs : List RcJob) : Keeps T (nameObs f) (finishJobs host jobs) := by
  induction jobs with
  | nil => exact keeps_pure _
  | cons job jobs ih => exact keeps_bind (keeps_finishProcessGraph _ _) fun _ => ih

theorem keeps_reportJobs (jobs : List RcJob) : Keeps T (nameObs f) (reportJobs host jobs) :=
  keeps_bind (keeps_finishJobs _) fun _ => keeps_pure _

theorem keeps_waitFor (requested : Option UInt32) : Keeps T (nameObs f) (waitFor host requested) := by
  refine keeps_bind (keeps_attempt (keeps_onHost _)) fun r => ?_
  split
  · exact keeps_pure _
  · refine keeps_bind keeps_get fun s => ?_
    split
    · exact keeps_bind (keeps_modify fun _ => rfl) fun _ => keeps_reportJobs _
    · split
      · exact keeps_pure _
      · exact keeps_bind (keeps_modify fun _ => rfl) fun _ => keeps_reportJobs _

theorem keeps_runWait (args : List String) : Keeps T (nameObs f) (runWait host args) := by
  unfold runWait
  split
  · exact keeps_waitFor _
  · split
    · exact keeps_waitFor _
    · exact keeps_pure _
  · exact keeps_pure _

theorem keeps_runRfork (args : List String) : Keeps T (nameObs f) (runRfork parse host args) := by
  unfold runRfork
  split
  · exact keeps_pure _
  · refine keeps_bind (keeps_attempt (keeps_onHost _)) fun r => ?_
    split
    · exact keeps_pure _
    · split
      · exact keeps_pure _
      · refine keeps_bind (keeps_attempt (keeps_onHost _)) fun r => ?_
        split
        · refine keeps_bind (keeps_modify fun s => ?_) fun _ => keeps_pure _
          exact congrArg f (importEnvironment_argv0 _ _)
        · exact keeps_pure _
        · exact keeps_pure _
      · exact keeps_bind (keeps_modify fun _ => rfl) fun _ => keeps_pure _

theorem keeps_runTest (args : List String) : Keeps T (nameObs f) (runTest host args) := by
  have hstated : ∀ b : Bool, Keeps T (nameObs f) (do
      let success ← pure b
      pure (if success then RcOutput.default else failed) : RcM H RcOutput) := fun b => keeps_bind (keeps_pure b) fun _ => keeps_pure _
  unfold runTest
  dsimp only
  split
  · refine keeps_ite ?_ (keeps_ite ?_ (hstated _))
    · refine keeps_bind (keeps_attempt (keeps_onHost _)) fun r => ?_
      cases r with
      | ok stat => exact hstated _
      | error err => exact hstated _
    · refine keeps_bind (keeps_attempt (keeps_onHost _)) fun r => ?_
      cases r with
      | ok stat => exact hstated _
      | error err => exact hstated _
  · exact keeps_ite (hstated _) (keeps_ite (hstated _) (hstated _))
  · exact hstated _
  · exact hstated _

theorem keeps_runShift (args : List String) : Keeps T (nameObs f) (runShift args : RcM H RcOutput) :=
  keeps_bind (keeps_modify fun _ => rfl) fun _ => keeps_pure _

theorem keeps_runExit (hev : ∀ node input, Keeps False (nameObs f) (ev node input)) (args : List String) :
    Keeps T (nameObs f) (runExit host ev args) :=
  keeps_bind keeps_get fun _ => keeps_bind (keeps_runNoteFunction hev _) fun _ => keeps_pure _

theorem keeps_runPlainBuiltin (hev : NestedKeeps parse host f ev) (name : String) (args : List String) (input : String) :
    Keeps T (nameObs f) (runPlainBuiltin parse host ev name args input) := by
  unfold runPlainBuiltin
  refine keeps_ite (keeps_pure _) (keeps_ite (keeps_map (keeps_runCd _) _) ?_)
  refine keeps_ite (keeps_bind keeps_get fun _ => keeps_pure _) (keeps_ite (keeps_bind keeps_get fun _ => keeps_pure _) ?_)
  refine keeps_ite (keeps_pure _) (keeps_ite (keeps_pure _) (keeps_ite (keeps_pure _) ?_))
  refine keeps_ite (keeps_map (keeps_sourceOutput hev.node _) _) (keeps_ite (keeps_map (keeps_runExec hev _ _) _) ?_)
  refine keeps_ite (keeps_map (keeps_runDot hev.node _) _) (keeps_ite (keeps_map (keeps_runShift _) _) ?_)
  refine keeps_ite (keeps_bind keeps_get fun _ => keeps_pure _) (keeps_ite (keeps_map (keeps_runTest _) _) ?_)
  refine keeps_ite (keeps_pure _) (keeps_ite (keeps_map (keeps_runExit hev.node _) _) ?_)
  refine keeps_ite (keeps_map (keeps_runWait _) _) (keeps_ite (keeps_map (keeps_runRfork _) _) ?_)
  exact keeps_ite (keeps_pure _) (keeps_ite (keeps_pure _) (keeps_pure _))

theorem keeps_runBuiltin (hev : NestedKeeps parse host f ev) (name : String) (args : List String) (input : String) :
    Keeps T (nameObs f) (runBuiltin parse host ev name args input) := by
  refine keeps_ite (keeps_map ?_ _) (keeps_runPlainBuiltin hev _ _ _)
  unfold runBuiltinCommand
  split
  · exact keeps_pure _
  · refine keeps_ite (keeps_pure _) (keeps_ite ?_ (keeps_pure _))
    exact keeps_bind (keeps_runPlainBuiltin hev _ _ _) fun _ => keeps_pure _

/-! ## Redirections and simple commands -/

theorem keeps_readProcess (hev : NestedKeeps parse host f ev) (node : Node) : Keeps T (nameObs f) (readProcess parse host ev node) := by
  refine keeps_bind (keeps_tryExecuteProcessSubstitutionGraph (keeps_sourceOutput hev.node) _ _ _ _) fun out => ?_
  cases out with
  | some out => exact keeps_pure _
  | none =>
    refine keeps_bind (keeps_bind keeps_get fun _ => keeps_prepareGraph _) fun graph => ?_
    exact keeps_bind (hev.node node "").may fun out => keeps_bind (keeps_finishProcessGraph _ _) fun _ => keeps_pure _

theorem keeps_prepareRedirect (hev : NestedKeeps parse host f ev) (redirect : Redirect) (st : RedirectState) :
    Keeps True (nameObs f) (prepareRedirect parse host ev redirect st) := by
  have hsrc := @keeps_sourceOutput H γ False f parse host ev hev.node
  have hinput : Keeps True (nameObs f) (redirectInput parse host ev redirect) := by
    refine keeps_bind (keeps_redirectPath hsrc redirect) fun path => keeps_ite (keeps_pure _) ?_
    exact keeps_bind (keeps_onHost _) fun _ => keeps_pure _
  have hsink : Keeps True (nameObs f) (fileSink parse host ev redirect) :=
    keeps_bind (keeps_redirectPath hsrc redirect) fun path => keeps_pure _
  unfold prepareRedirect
  split
  · exact keeps_bind (keeps_readProcess hev _) fun _ => keeps_pure _
  · exact keeps_bind hinput fun _ => keeps_pure _
  · exact keeps_bind (keeps_redirectHereText hsrc redirect) fun _ => keeps_pure _
  · exact keeps_pure _
  · exact keeps_pure _
  · exact keeps_bind (keeps_bind keeps_get fun _ => keeps_prepareGraph _) fun _ => keeps_pure _
  · exact keeps_bind hsink fun _ => keeps_pure _

theorem keeps_prepareRedirects (hev : NestedKeeps parse host f ev) (redirects : List Redirect) (st : RedirectState) :
    Keeps T (nameObs f) (prepareRedirects parse host ev redirects st) := by
  induction redirects generalizing st with
  | nil => exact keeps_pure _
  | cons redirect redirects ih =>
    refine keeps_bind (keeps_attempt (keeps_prepareRedirect hev redirect st)) fun r => ?_
    cases r with
    | ok st => exact ih st
    | error err => exact keeps_pure _

theorem keeps_writeProcess (hev : NestedKeeps parse host f ev) (node : Node) (data : String) (fd : Nat) :
    Keeps T (nameObs f) (writeProcess parse host ev node data fd) := by
  refine keeps_bind (keeps_tryExecuteProcessSubstitutionGraph (keeps_sourceOutput hev.node) _ _ _ _) fun out => ?_
  cases out with
  | some out => exact keeps_pure _
  | none => exact (hev.node node data).may

theorem keeps_applyFdSink (hev : NestedKeeps parse host f ev) (fd : Nat) (data : String) (sinks : FdSinks) (out : RcRun) :
    Keeps T (nameObs f) (applyFdSink parse host ev fd data sinks out) := by
  refine keeps_ite (keeps_pure _) ?_
  split
  · exact keeps_pure _
  · exact keeps_pure _
  · exact keeps_pure _
  · refine keeps_bind (keeps_attempt (keeps_onHost _)) fun r => ?_
    cases r with
    | ok _ => exact keeps_pure _
    | error err => exact keeps_pure _
  · exact keeps_bind (keeps_writeProcess hev _ _ _) fun next => keeps_bind (keeps_finishProcessGraph _ _) fun _ => keeps_pure _

theorem keeps_applyOutputSinks (hev : NestedKeeps parse host f ev) (out : RcRun) (sinks : FdSinks) :
    Keeps T (nameObs f) (applyOutputSinks parse host ev out sinks) := by
  refine keeps_bind (keeps_applyFdSink hev _ _ _ _) ?_
  rintro ⟨first, err⟩
  cases err with
  | some err => exact keeps_pure _
  | none => exact keeps_applyFdSink hev _ _ _ _

theorem keeps_runCommandWords (hev : NestedKeeps parse host f ev) (command : String) (args : List String) (input : String) :
    Keeps T (nameObs f) (runCommandWords parse host ev command args input) := by
  refine keeps_bind keeps_get fun s => ?_
  split
  · exact keeps_bind (keeps_runFunction hev.node _ _ _) fun _ => keeps_pure _
  · refine keeps_bind (keeps_runBuiltin hev _ _ _) fun builtin => ?_
    split
    · exact keeps_pure _
    · refine keeps_bind (keeps_runPathCommand hev _ _ _) fun found => ?_
      split
      · exact keeps_pure _
      · exact keeps_map (keeps_runExternal _ _ _) _

theorem keeps_evalCommand (hev : NestedKeeps parse host f ev) (simple : SimpleCommand) (st : RedirectState)
    (restore : List (String × Option (List String))) : Keeps T (nameObs f) (evalCommand parse host ev simple st restore) := by
  refine keeps_bind (keeps_expandWords (keeps_sourceOutput hev.node) _) fun words => ?_
  cases words with
  | nil => exact keeps_bind (keeps_modify fun _ => rfl) fun _ => keeps_pure _
  | cons command args =>
    refine keeps_bind (keeps_runCommandWords hev _ _ _) fun out => keeps_bind (keeps_ignore keeps_importHostEnvironment) fun _ => ?_
    refine keeps_bind (keeps_applyOutputSinks hev _ _) ?_
    rintro ⟨sunk, err⟩
    exact keeps_bind (keeps_modify fun _ => rfl) fun _ => keeps_bind (keeps_modify fun _ => rfl) fun _ =>
      keeps_bind (keeps_ignore keeps_publishEnvironment) fun _ => keeps_pure _

theorem keeps_evalSimple (hev : NestedKeeps parse host f ev) (simple : SimpleCommand) (input : String) :
    Keeps T (nameObs f) (evalSimple parse host ev simple input) := by
  refine keeps_bind (keeps_expandAssignments (keeps_sourceOutput hev.node) _) fun values => keeps_ite ?_ ?_
  · exact keeps_bind (keeps_modify fun _ => rfl) fun _ => keeps_bind (keeps_ignore keeps_publishEnvironment) fun _ => keeps_pure _
  · refine keeps_get_set (fun _ => rfl) fun s => keeps_ite (keeps_evalCommand hev _ _ _) ?_
    refine keeps_bind (keeps_prepareRedirects hev _ _) ?_
    rintro ⟨st, err⟩
    cases err with
    | some err => exact keeps_bind (keeps_pure _) fun _ => keeps_pure _
    | none => exact keeps_bind (keeps_evalCommand hev _ _ _) fun _ => keeps_pure _

/-! ## Nodes -/

theorem keeps_evalPipe (hev : NestedKeeps parse host f ev) (left right : Node) (spec : Option PipeSpec) (input : String) :
    Keeps T (nameObs f) (evalPipe parse host ev left right spec input) := by
  refine keeps_bind (keeps_tryExecutePipelineGraph (keeps_sourceOutput hev.node) _ _ _ _ _) fun out => ?_
  cases out with
  | some out => exact keeps_pure _
  | none =>
    refine keeps_bind (keeps_bind keeps_get fun _ => keeps_prepareGraph _) fun graph => keeps_bind (hev.node left input).may fun l => ?_
    exact keeps_bind (hev.node right _).may fun r => keeps_bind (keeps_finishProcessGraph _ _) fun _ => keeps_pure _

theorem keeps_evalBackground (hev : NestedKeeps parse host f ev) (inner : Node) (input : String) :
    Keeps T (nameObs f) (evalBackground parse host ev inner input) := by
  refine keeps_get_set (fun _ => rfl) fun s => ?_
  refine keeps_bind (keeps_tryStartBackgroundGraph (keeps_sourceOutput hev.node) _ _ _) fun started => keeps_ite (keeps_pure _) ?_
  refine keeps_bind (keeps_bind keeps_get fun _ => keeps_prepareGraph _) fun graph => keeps_bind (hev.node inner input).may fun out => ?_
  exact keeps_bind (keeps_finishProcessGraph _ _) fun _ => keeps_bind (keeps_modify fun _ => rfl) fun _ => keeps_pure _

theorem keeps_evalIf (hev : NestedKeeps parse host f ev) (condition thenBranch : Node) (elseBranch : Option Node) (input : String) :
    Keeps T (nameObs f) (evalIf ev condition thenBranch elseBranch input) := by
  refine keeps_bind (hev.node condition input).may fun cond => ?_
  refine keeps_ite (keeps_bind (hev.node thenBranch "").may fun _ => keeps_pure _) ?_
  cases elseBranch with
  | some elseBranch => exact keeps_bind (hev.node elseBranch "").may fun _ => keeps_pure _
  | none => exact keeps_pure _

theorem keeps_evalFor (hev : NestedKeeps parse host f ev) (var : String) (values : List Word) (body : Node) :
    Keeps T (nameObs f) (evalFor parse host ev var values body) := by
  have hvalues : Keeps T (nameObs f) (forValues parse host ev values) :=
    keeps_ite (keeps_bind keeps_get fun _ => keeps_pure _) (keeps_expandWords (keeps_sourceOutput hev.node) _)
  have hrounds : ∀ values out, Keeps T (nameObs f) (forRounds ev var body values out) := by
    intro values
    induction values with
    | nil => exact fun out => keeps_pure _
    | cons value values ih => exact fun out => keeps_bind (keeps_modify fun _ => rfl) fun _ => keeps_bind (hev.node body "").may fun _ => ih _
  exact keeps_bind hvalues fun _ => keeps_bind keeps_get fun _ => keeps_bind (hrounds _ _) fun _ =>
    keeps_bind (keeps_modify fun _ => rfl) fun _ => keeps_pure _

theorem keeps_whileRounds (hev : NestedKeeps parse host f ev) (condition body : Node) (rounds : Nat) (out : RcRun) :
    Keeps T (nameObs f) (whileRounds ev condition body rounds out) := by
  induction rounds generalizing out with
  | zero => exact keeps_pure _
  | succ rounds ih =>
    refine keeps_bind (hev.node condition "").may fun cond => keeps_ite ?_ (keeps_pure _)
    exact keeps_bind (hev.node body "").may fun _ => ih _

theorem keeps_switchCases (hev : NestedKeeps parse host f ev) (value input : String) (cases : List SwitchCase) :
    Keeps T (nameObs f) (switchCases parse host ev value input cases) := by
  induction cases with
  | nil => exact keeps_pure _
  | cons case cases ih =>
    refine keeps_bind (keeps_expandWords (keeps_sourceOutput hev.node) _) fun patterns => ?_
    exact keeps_ite (keeps_evalNodes hev.node _ _) ih

theorem keeps_evalStep (hev : NestedKeeps parse host f ev) (node : Node) (input : String) :
    Keeps T (nameObs f) (evalStep parse host ev node input) := by
  cases node with
  | empty => exact keeps_pure _
  | simple command => exact keeps_evalSimple hev command input
  | block nodes => exact keeps_evalNodes hev.node nodes input
  | sequence nodes => exact keeps_evalNodes hev.node nodes input
  | and left right =>
    refine keeps_bind (hev.node left input).may fun l => keeps_ite ?_ (keeps_pure _)
    exact keeps_bind (hev.node right "").may fun r => keeps_pure _
  | or left right =>
    refine keeps_bind (hev.node left input).may fun l => keeps_ite (keeps_pure _) ?_
    exact keeps_bind (hev.node right "").may fun r => keeps_pure _
  | pipe left right spec => exact keeps_evalPipe hev left right spec input
  | not inner => exact keeps_bind (hev.node inner input).may fun out => keeps_pure _
  | background inner => exact keeps_evalBackground hev inner input
  | ite condition thenBranch elseBranch => exact keeps_evalIf hev condition thenBranch elseBranch input
  | «for» var values body => exact keeps_evalFor hev var values body
  | «while» condition body => exact keeps_whileRounds hev condition body loopLimit _
  | switch value cases => exact keeps_bind (keeps_expandWord (keeps_sourceOutput hev.node) value) fun values => keeps_switchCases hev _ _ _
  | function name body =>
    refine keeps_bind (keeps_modify fun s => ?_) fun _ => keeps_pure _
    cases body with
    | none => rfl
    | some body => rfl

/-- An observation that scripts keep is kept by every evaluation. -/
theorem nestedKeeps_evalNode
    (hscript : ∀ ev : Node → String → RcM H RcRun, (∀ node input, Keeps False (nameObs f) (ev node input)) →
      ∀ path args input, Keeps True (nameObs f) (runRcScript parse host ev path args input)) (depth : Nat) :
    NestedKeeps parse host f (evalNode parse host depth) := by
  induction depth with
  | zero =>
    have hev : ∀ node input, Keeps False (nameObs f) (evalNode parse host 0 node input) := fun _ _ => keeps_abort
    exact ⟨hev, hscript _ hev⟩
  | succ depth ih =>
    have hev : ∀ node input, Keeps False (nameObs f) (evalNode parse host (depth + 1) node input) := fun node input => keeps_evalStep ih node input
    exact ⟨hev, hscript _ hev⟩

/-- No evaluation throws. -/
theorem evalNode_neverThrows (depth : Nat) : NestedKeeps parse host (fun _ => ()) (evalNode parse host depth) :=
  nestedKeeps_evalNode (fun _ _ _ _ _ => keeps_of_preserves fun _ => rfl) depth

/-! ## Scripts found by path -/

/-- The file is a script that does not parse. -/
def unparsed (parse : String → Except RcError Script) (host : RcHost H) (path : String) (h : H) : Bool :=
  match host.readFile path h with
  | (.ok bytes, _) => !isHostExecutable path bytes && !(parse (utf8Lossy bytes)).toBool
  | _ => false

theorem setArgs_argv {args : List String} {s s' : RcSession H} (hrun : setArgs host args s = (.ok (), s')) : s'.argv = args := by
  have hkeep : Preserves RcSession.argv (ignore (publishEnvironment host)) :=
    preserves_bind (preserves_attempt (preserves_bind preserves_get fun _ => fun _ => rfl)) fun _ => preserves_pure _
  rw [setArgs, modify_bind] at hrun
  have hs := hkeep { s with argv := args }.refreshArgVars
  rw [hrun] at hs
  exact hs

theorem setArgs_argv0 {args : List String} {s s' : RcSession H} (hrun : setArgs host args s = (.ok (), s')) : s'.argv0 = s.argv0 :=
  (@keeps_setArgs H String False id host args).returned s () s' hrun

theorem preserves_runHostCommand (name : String) (args : List String) (stdin : String) :
    Preserves (fun s : RcSession H => (s.argv0, s.argv)) (runHostCommand host name args stdin) :=
  preserves_bind preserves_get fun _ => preserves_bind (fun _ => rfl) fun _ => preserves_pure _

/-- A script that runs to its end has given the old parameters back. -/
theorem runRcScript_restores {path : String} {args : List String} {input : String} {s s' : RcSession H} {out : RcOutput}
    (hrun : runRcScript parse host ev path args input s = (.ok out, s')) : s'.argv0 = s.argv0 ∧ s'.argv = s.argv := by
  obtain ⟨bytes, s₁, hread, hrun⟩ := bind_eq_ok.mp hrun
  have hsame : s₁.argv0 = s.argv0 ∧ s₁.argv = s.argv := by
    have hhost : s₁ = (onHost (host.readFile path) s).2 := by rw [hread]
    rw [hhost]
    exact ⟨rfl, rfl⟩
  rw [branch_apply] at hrun
  by_cases hexec : isHostExecutable path bytes = true
  · rw [if_pos hexec] at hrun
    have hkeep := @preserves_runHostCommand H host path args input s₁
    rw [hrun] at hkeep
    exact ⟨(congrArg Prod.fst hkeep).trans hsame.1, (congrArg Prod.snd hkeep).trans hsame.2⟩
  · rw [if_neg hexec, get_bind, modify_bind] at hrun
    obtain ⟨_, s₂, -, hrun⟩ := bind_eq_ok.mp hrun
    obtain ⟨script, s₃, -, hrun⟩ := bind_eq_ok.mp hrun
    obtain ⟨run, s₄, -, hrun⟩ := bind_eq_ok.mp hrun
    rw [modify_bind] at hrun
    obtain ⟨_, s₅, hset, hrun⟩ := bind_eq_ok.mp hrun
    cases hrun
    exact ⟨(setArgs_argv0 hset).trans hsame.1, (setArgs_argv hset).trans hsame.2⟩

/-- A script that fails has left the parameters alone, unless it does not parse. -/
theorem runRcScript_fails (hev : ∀ node input, Keeps False (nameObs fun _ => ()) (ev node input)) {path : String} {args : List String}
    {input : String} {s s' : RcSession H} {e : RcError} (hrun : runRcScript parse host ev path args input s = (.err e, s')) :
    s'.argv0 = (if unparsed parse host path s.host then path else s.argv0) ∧
      s'.argv = if unparsed parse host path s.host then args else s.argv := by
  rcases hread : host.readFile path s.host with ⟨bytes | e₁ | _, h₁⟩
  · have hfirst : onHost (host.readFile path) s = (.ok bytes, { s with host := h₁ }) := by
      rw [onHost, zoom_apply, hread]
    rw [runRcScript, bind_ok hfirst, branch_apply] at hrun
    by_cases hexec : isHostExecutable path bytes = true
    · rw [if_pos hexec] at hrun
      have hkeep := @preserves_runHostCommand H host path args input { s with host := h₁ }
      rw [hrun] at hkeep
      rw [unparsed, hread]
      simp only [hexec, Bool.not_true, Bool.false_and, Bool.false_eq_true, if_false]
      exact ⟨congrArg Prod.fst hkeep, congrArg Prod.snd hkeep⟩
    · rw [if_neg hexec, get_bind, modify_bind] at hrun
      rcases bind_eq_err.mp hrun with hset | ⟨_, s₂, hset, hrun⟩
      · exact ((@keeps_setArgs H Unit False (fun _ => ()) host args).thrown _ _ _ hset).1.elim
      cases hparse : parse (utf8Lossy bytes) with
      | error e₂ =>
        rw [hparse] at hrun
        cases hrun
        rw [unparsed, hread]
        simp only [hexec, hparse, Except.toBool, Bool.not_false, Bool.and_self, if_true]
        exact ⟨setArgs_argv0 hset, setArgs_argv hset⟩
      | ok script =>
        rw [hparse, Prog.ofExcept_ok, pure_bind] at hrun
        rcases bind_eq_err.mp hrun with hscript | ⟨run, s₃, -, hrun⟩
        · exact ((@keeps_evalScript H Unit False (fun _ => ()) host ev hev script input).thrown _ _ _ hscript).1.elim
        · rw [modify_bind] at hrun
          rcases bind_eq_err.mp hrun with hback | ⟨_, s₄, -, hrun⟩
          · exact ((@keeps_setArgs H Unit False (fun _ => ()) host s.argv).thrown _ _ _ hback).1.elim
          · cases hrun
  · have hfirst : onHost (host.readFile path) s = (.err e₁, { s with host := h₁ }) := by
      rw [onHost, zoom_apply, hread]
    rw [runRcScript, bind_err hfirst] at hrun
    cases hrun
    rw [unparsed, hread]
    exact ⟨rfl, rfl⟩
  · have hfirst : onHost (host.readFile path) s = (.abort, { s with host := h₁ }) := by
      rw [onHost, zoom_apply, hread]
    rw [runRcScript, bind_abort hfirst] at hrun
    cases hrun

/-- A script that does not parse is left after its name and arguments have been set. -/
theorem runRcScript_of_unparsed {path : String} {s : RcSession H} (h : unparsed parse host path s.host = true) (args : List String)
    (input : String) : ∃ e s₁, runRcScript parse host ev path args input s = (setArgs host args >>= fun _ => (throw e : RcM H RcOutput)) s₁ := by
  unfold unparsed at h
  rcases hread : host.readFile path s.host with ⟨bytes | e | _, h₁⟩ <;> rw [hread] at h
  · have hfirst : onHost (host.readFile path) s = (.ok bytes, { s with host := h₁ }) := by
      rw [onHost, zoom_apply, hread]
    dsimp only at h
    rw [Bool.and_eq_true, Bool.not_eq_true', Bool.not_eq_true'] at h
    cases hparse : parse (utf8Lossy bytes) with
    | ok script =>
      rw [hparse] at h
      exact absurd h.2 Bool.true_eq_false.mp
    | error e =>
      refine ⟨e, { s with host := h₁, argv0 := path }, ?_⟩
      rw [runRcScript, bind_ok hfirst, branch_apply, if_neg (by simp [h.1]), get_bind, modify_bind, hparse]
      rfl
  · exact absurd h Bool.false_ne_true
  · exact absurd h Bool.false_ne_true

theorem unparsed_of_ok {path : String} {args : List String} {input : String} {s s' : RcSession H} {out : RcOutput}
    (hrun : runRcScript parse host ev path args input s = (.ok out, s')) : unparsed parse host path s.host = false := by
  by_contra hbad
  obtain ⟨e, s₁, heq⟩ := @runRcScript_of_unparsed H parse host ev path s (Bool.eq_true_of_not_eq_false hbad) args input
  rw [heq] at hrun
  obtain ⟨_, s₂, -, hrun⟩ := bind_eq_ok.mp hrun
  cases hrun

/-- The scripts that a search of the path tries and that do not parse. -/
def strayScripts (parse : String → Except RcError Script) (host : RcHost H) (ev : Node → String → RcM H RcRun) (command : String)
    (args : List String) (input : String) : List String → RcSession H → List String
  | [], _ => []
  | dir :: dirs, s =>
    match runRcScript parse host ev (joinPath dir command) args input s with
    | (.err _, s') =>
      (if unparsed parse host (joinPath dir command) s.host then [joinPath dir command] else []) ++
        strayScripts parse host ev command args input dirs s'
    | _ => []

theorem searchPath_parameters (hev : ∀ node input, Keeps False (nameObs fun _ => ()) (ev node input)) {command : String} {args : List String}
    {input : String} {dirs : List String} {s s' : RcSession H} {out : Option RcOutput}
    (hrun : searchPath parse host ev command args input dirs s = (.ok out, s')) :
    s'.argv0 = (strayScripts parse host ev command args input dirs s).getLast?.getD s.argv0 ∧
      s'.argv = if strayScripts parse host ev command args input dirs s = [] then s.argv else args := by
  induction dirs generalizing s with
  | nil =>
    cases hrun
    exact ⟨rfl, rfl⟩
  | cons dir dirs ih =>
    rw [searchPath] at hrun
    rw [strayScripts]
    rcases hscript : runRcScript parse host ev (joinPath dir command) args input s with ⟨found | e | _, s₁⟩
    · rw [bind_ok (attempt_ok hscript)] at hrun
      cases hrun
      exact runRcScript_restores hscript
    · rw [bind_ok (attempt_err hscript)] at hrun
      obtain ⟨hname, hargs⟩ := ih hrun
      obtain ⟨hname₁, hargs₁⟩ := runRcScript_fails hev hscript
      rw [hname, hargs, hname₁, hargs₁]
      dsimp only
      cases unparsed parse host (joinPath dir command) s.host with
      | false => exact ⟨rfl, rfl⟩
      | true =>
        exact ⟨by simp [List.getLast?_cons], by simp⟩
    · rw [bind_abort (attempt_abort hscript)] at hrun
      cases hrun

/-! ## Calls -/

/-- A call that returns has given the parameters back. -/
def Restores {α : Type} (p : RcM H α) (s : RcSession H) : Prop :=
  ∀ out s', p s = (.ok out, s') → s'.argv0 = s.argv0 ∧ s'.argv = s.argv

/-- Every file that can be read and is not an executable image is a script that parses. -/
def ScriptsParse (parse : String → Except RcError Script) (host : RcHost H) : Prop := ∀ path h, unparsed parse host path h = false

/-- The scripts that do not parse and that a command line runs before it finds its own. -/
def strayOf (parse : String → Except RcError Script) (host : RcHost H) (ev : Node → String → RcM H RcRun) (command : String)
    (args : List String) (input : String) (s : RcSession H) : List String :=
  if '/' ∈ command.toList then if unparsed parse host command s.host then [command] else []
  else strayScripts parse host ev command args input (s.lookupVar "path") s

theorem runPathCommand_parameters (hev : ∀ node input, Keeps False (nameObs fun _ => ()) (ev node input)) {command : String} {args : List String}
    {input : String} {s s' : RcSession H} {out : Option RcOutput} (hrun : runPathCommand parse host ev command args input s = (.ok out, s')) :
    s'.argv0 = (strayOf parse host ev command args input s).getLast?.getD s.argv0 ∧
      s'.argv = if strayOf parse host ev command args input s = [] then s.argv else args := by
  unfold runPathCommand at hrun
  unfold strayOf
  rw [branch_apply] at hrun
  by_cases hslash : '/' ∈ command.toList
  · rw [if_pos hslash] at hrun
    simp only [if_pos hslash]
    obtain ⟨r, s₁, hattempt, hrun⟩ := bind_eq_ok.mp hrun
    cases hrun
    rcases hscript : runRcScript parse host ev command args input s with ⟨found | e | _, s₂⟩
    · rw [attempt_ok hscript] at hattempt
      cases hattempt
      rw [unparsed_of_ok hscript]
      exact runRcScript_restores hscript
    · rw [attempt_err hscript] at hattempt
      cases hattempt
      obtain ⟨hname, hargs⟩ := runRcScript_fails hev hscript
      rw [hname, hargs]
      cases unparsed parse host command s.host with
      | false => exact ⟨rfl, rfl⟩
      | true => exact ⟨rfl, rfl⟩
    · rw [attempt_abort hscript] at hattempt
      cases hattempt
  · rw [if_neg hslash, get_bind] at hrun
    simp only [if_neg hslash]
    exact searchPath_parameters hev hrun

/-- A function gives its arguments back whatever its body does. -/
theorem runFunction_argv {body : Node} {args : List String} {input : String} {s s' : RcSession H} {out : RcRun}
    (hrun : runFunction host ev body args input s = (.ok out, s')) : s'.argv = s.argv := by
  rw [runFunction, get_bind] at hrun
  obtain ⟨_, s₁, -, hrun⟩ := bind_eq_ok.mp hrun
  obtain ⟨r, s₂, -, hrun⟩ := bind_eq_ok.mp hrun
  obtain ⟨_, s₃, hset, hrun⟩ := bind_eq_ok.mp hrun
  cases hrun
  exact setArgs_argv hset

theorem runNoteFunction_argv {name : String} {s s' : RcSession H} {out : Option RcOutput}
    (hrun : runNoteFunction host ev name s = (.ok out, s')) : s'.argv = s.argv := by
  rw [runNoteFunction, get_bind, branch_apply] at hrun
  by_cases hbusy : name ∈ s.notesInProgress
  · rw [if_pos hbusy] at hrun
    cases hrun
    rfl
  · rw [if_neg hbusy, modify_bind] at hrun
    cases hfunction : s.functions[name]? with
    | none =>
      rw [hfunction] at hrun
      cases hrun
      rfl
    | some function =>
      rw [hfunction] at hrun
      obtain ⟨run, s₁, hbody, hrun⟩ := bind_eq_ok.mp hrun
      cases hrun
      have hargs := runFunction_argv hbody
      exact hargs

theorem strayScripts_eq_nil (hparse : ScriptsParse parse host) (command : String) (args : List String) (input : String) (dirs : List String)
    (s : RcSession H) : strayScripts parse host ev command args input dirs s = [] := by
  induction dirs generalizing s with
  | nil => rfl
  | cons dir dirs ih =>
    rw [strayScripts]
    split
    · rw [hparse, ih]
      rfl
    · rfl

theorem nestedKeeps_name (hparse : ScriptsParse parse host) (depth : Nat) : NestedKeeps parse host id (evalNode parse host depth) := by
  refine nestedKeeps_evalNode (fun ev hev path args input => ?_) depth
  have hquiet : ∀ node input, Keeps False (nameObs fun _ => ()) (ev node input) := fun node input =>
    ⟨fun _ _ _ _ => rfl, fun s e s' hrun => ((hev node input).thrown s e s' hrun).1.elim⟩
  constructor
  · intro s out s' hrun
    exact (runRcScript_restores hrun).1
  · intro s e s' hrun
    have hname := (runRcScript_fails hquiet hrun).1
    rw [hparse path s.host] at hname
    exact ⟨trivial, hname⟩

theorem setArgs_ok (hstore : ∀ env h, (host.storeEnvironment env h).1 ≠ .abort) (args : List String) (s : RcSession H) :
    ∃ s', setArgs host args s = (.ok (), s') := by
  rw [setArgs, modify_bind, ignore]
  rcases hpublish : publishEnvironment host { s with argv := args }.refreshArgVars with ⟨_ | e | _, s'⟩
  · exact ⟨s', by rw [bind_ok (attempt_ok hpublish)]; rfl⟩
  · exact ⟨s', by rw [bind_ok (attempt_err hpublish)]; rfl⟩
  · rw [publishEnvironment, get_bind, onHost, zoom_apply] at hpublish
    exact absurd (congrArg Prod.fst hpublish) (hstore _ _)

/-- A session under another name, whose path has the current directory alone. -/
def otherSession (path : String) (h : H) : RcSession H :=
  { RcSession.fresh h with argv0 := path ++ "x", vars := (∅ : RcVars).insert "path" [""] }

theorem runPathCommand_unparsed (hstore : ∀ env h, (host.storeEnvironment env h).1 ≠ .abort)
    (hev : ∀ node input, Keeps False (nameObs fun _ => ()) (ev node input)) {path : String} {h : H} (hbad : unparsed parse host path h = true) :
    ∃ s', runPathCommand parse host ev path [] "" (otherSession path h) = (.ok none, s') ∧ s'.argv0 = path := by
  have hfail : ∃ e s', runRcScript parse host ev path [] "" (otherSession path h) = (.err e, s') := by
    obtain ⟨e, s₁, heq⟩ := @runRcScript_of_unparsed H parse host ev path (otherSession path h) hbad [] ""
    obtain ⟨s', hset⟩ := setArgs_ok hstore [] s₁
    exact ⟨e, s', by rw [heq, bind_ok hset]; rfl⟩
  obtain ⟨e, s', hscript⟩ := hfail
  have hname := (runRcScript_fails hev hscript).1
  rw [show unparsed parse host path (otherSession path h).host = true from hbad, if_pos rfl] at hname
  refine ⟨s', ?_, hname⟩
  rw [runPathCommand, branch_apply]
  by_cases hslash : '/' ∈ path.toList
  · rw [if_pos hslash, attempt?, bind_ok (attempt_err hscript)]
    rfl
  · have hdirs : (otherSession path h).lookupVar "path" = [""] := by
      rw [RcSession.lookupVar, if_neg (by decide), if_neg (by decide), if_neg (by decide), if_neg (by decide), otherSession,
        Std.ExtTreeMap.getElem?_insert_self]
      rfl
    rw [if_neg hslash, get_bind, hdirs, searchPath, bind_ok (attempt_err (show runRcScript parse host ev (joinPath "" path) [] "" (otherSession path h) = _ from hscript))]
    rfl

end
end

/-- A command found by path gives the parameters back exactly when it meets no script that does
not parse, or one whose name and arguments are the session's own. All three kinds of calls do so in every session
exactly when the host has no such script. -/
theorem parameters_restored_iff (parse : String → Except RcError Script) (host : RcHost H) :
    (∀ depth command args input (s s' : RcSession H) out, runPathCommand parse host (evalNode parse host depth) command args input s = (.ok out, s') →
      (s'.argv0 = s.argv0 ∧ s'.argv = s.argv ↔ strayOf parse host (evalNode parse host depth) command args input s = [] ∨
        (strayOf parse host (evalNode parse host depth) command args input s).getLast? = some s.argv0 ∧ s.argv = args)) ∧
    ((∀ env h, (host.storeEnvironment env h).1 ≠ .abort) →
      ((∀ depth s, (∀ body args input, Restores (runFunction host (evalNode parse host depth) body args input) s) ∧
          (∀ name, Restores (runNoteFunction host (evalNode parse host depth) name) s) ∧
          ∀ command args input, Restores (runPathCommand parse host (evalNode parse host depth) command args input) s) ↔
        ScriptsParse parse host)) := by
  have hquiet := fun depth => (@evalNode_neverThrows H parse host depth).node
  constructor
  · intro depth command args input s s' out hrun
    obtain ⟨hname, hargs⟩ := runPathCommand_parameters (hquiet depth) hrun
    rw [hname, hargs]
    by_cases hstray : strayOf parse host (evalNode parse host depth) command args input s = []
    · rw [if_pos hstray, hstray]
      exact iff_of_true ⟨rfl, rfl⟩ (Or.inl rfl)
    · rw [if_neg hstray]
      cases hlast : (strayOf parse host (evalNode parse host depth) command args input s).getLast? with
      | none => exact absurd (List.getLast?_eq_none_iff.mp hlast) hstray
      | some path => simp [hstray, eq_comm]
  · intro hstore
    constructor
    · intro hall path h
      by_contra hbad
      obtain ⟨s', hrun, hname⟩ := runPathCommand_unparsed hstore (hquiet 0) (Bool.eq_true_of_not_eq_false hbad)
      have hsame := ((hall 0 (otherSession path h)).2.2 path [] "" none s' hrun).1
      rw [hname] at hsame
      have hlength := congrArg (fun t : String => t.toList.length) hsame
      simp [otherSession] at hlength
    · intro hparse depth s
      have hname := nestedKeeps_name hparse depth
      refine ⟨fun body args input out s' hrun => ⟨?_, runFunction_argv hrun⟩, fun name out s' hrun => ⟨?_, runNoteFunction_argv hrun⟩,
        fun command args input out s' hrun => ?_⟩
      · exact (keeps_runFunction (T := False) hname.node body args input).returned s out s' hrun
      · exact (keeps_runNoteFunction (T := False) hname.node name).returned s out s' hrun
      · have hstray : strayOf parse host (evalNode parse host depth) command args input s = [] := by
          rw [strayOf, hparse command, strayScripts_eq_nil hparse]
          exact ite_self []
        have hgiven := runPathCommand_parameters (hquiet depth) hrun
        rw [hstray] at hgiven
        exact hgiven

/-- The parser as the evaluator takes it. -/
def parseResult (source : String) : Except RcError Script :=
  match parse source with
  | .ok script => .ok script
  | .err e => .error e
  | .abort => .error (.new "no result")

/-- The parser never stops without a result. -/
theorem parse_eq (source : String) : parse source = .ofExcept (parseResult source) := by
  obtain ⟨result, hresult⟩ := parse_returns source
  cases result with
  | ok script =>
    rw [parseResult, hresult]
    rfl
  | error e =>
    rw [parseResult, hresult]
    rfl

/-- A host whose file `bad/script` opens a block and does not close it. -/
def RcHost.badScript : RcHost Unit :=
  { RcHost.naming with readFile := fun path => if path = "bad/script" then pure [0x7b] else throw (.new (path ++ ": not found")) }

/-- A script that does not parse leaves its name and its arguments behind. -/
theorem parameters_kept :
    (parseResult "\x7b").toBool = false ∧
    ((RcSession.fresh ()).argv0, (RcSession.fresh ()).argv) = ("rc", []) ∧
    ((runPathCommand parseResult .badScript (evalNode parseResult .badScript 0) "bad/script" ["a", "b"] "" (.fresh ())).1.toOption.isSome = true) ∧
    (runPathCommand parseResult .badScript (evalNode parseResult .badScript 0) "bad/script" ["a", "b"] "" (.fresh ())).2.argv0 = "bad/script" ∧
    (runPathCommand parseResult .badScript (evalNode parseResult .badScript 0) "bad/script" ["a", "b"] "" (.fresh ())).2.argv = ["a", "b"] := by
  decide +kernel

theorem parameters_restored_iff_badScript :
    let call := runPathCommand parseResult .badScript (evalNode parseResult .badScript 0) "bad/script" ["a", "b"] "" (.fresh ())
    (call.2.argv0 = "rc" ∧ call.2.argv = [] ↔
      strayOf parseResult .badScript (evalNode parseResult .badScript 0) "bad/script" ["a", "b"] "" (.fresh ()) = [] ∨
        (strayOf parseResult .badScript (evalNode parseResult .badScript 0) "bad/script" ["a", "b"] "" (.fresh ())).getLast? = some "rc" ∧
          [] = ["a", "b"]) ∧
    ((∀ depth s, (∀ body args input, Restores (runFunction RcHost.badScript (evalNode parseResult .badScript depth) body args input) s) ∧
        (∀ name, Restores (runNoteFunction RcHost.badScript (evalNode parseResult .badScript depth) name) s) ∧
        ∀ command args input, Restores (runPathCommand parseResult .badScript (evalNode parseResult .badScript depth) command args input) s) ↔
      ScriptsParse parseResult .badScript) := by
  intro call
  obtain ⟨hcommand, hcalls⟩ := parameters_restored_iff parseResult .badScript
  have hfound : call.1.toOption = some none := by decide +kernel
  have hrun : call = (.ok none, call.2) := by
    rcases hcall : call with ⟨out | e | _, s'⟩ <;> rw [hcall] at hfound <;> cases hfound
    rfl
  refine ⟨hcommand 0 "bad/script" ["a", "b"] "" (.fresh ()) call.2 none hrun, hcalls fun env h => ?_⟩
  exact Outcome.ok_ne_abort

end
end Star9.Rc
