import Star9.Rc.Expand

/-!
# Process graphs offered to the host

Before rc runs a pipeline, a background command or a process substitution itself,
it offers the host a graph of stages. A stage can be handed over only when it is
one external command; building its description expands its words.
-/
namespace Star9.Rc
open Base Prog

section
variable {H : Type} (host : RcHost H) (evalSource : String → RcM H RcOutput)

/-! ## Redirections as texts -/

def redirectPath (redirect : Redirect) : RcM H String :=
  match redirect.target with
  | some (.word word) => do
    match (← expandWord evalSource word).head? with
    | some path => pure path
    | none => throw (RcError.new "redirect target expanded to empty list")
  | some (.hereDoc _) => throw (RcError.new "here document is not a path")
  | some (.process _) => throw (RcError.new "process substitution is not a path")
  | none => throw (RcError.new "redirect target expanded to empty list")

def redirectHereText (redirect : Redirect) : RcM H String :=
  match redirect.target with
  | some (.hereDoc doc) =>
    if doc.expand then do
      let values ← expandRawWord evalSource doc.body
      pure (joinWith " " values)
    else pure doc.body
  | some (.word word) => pure word.raw
  | some (.process _) => throw (RcError.new "process substitution cannot be a here document")
  | none => pure ""

/-! ## Stages -/

def stageSpec (node : Node) (s : RcSession H) : RcProcessStageSpec :=
  { command := renderNode node, cwd := host.currentDir s.host, env := s.vars, stdin := none,
    stdout := none, stderr := none, fdBindings := [] }

def prepareGraph (spec : RcProcessGraphSpec) : RcM H (Option RcProcessGraphRecord) := do
  let record ← attempt? (onHost (host.prepareProcessGraph spec))
  pure record.join

def preparePipelineGraph (left right : Node) (fromFd toFd : Nat) : RcM H (Option RcProcessGraphRecord) := do
  let s ← get
  let leftStage := { stageSpec host left s with fdBindings := [.ofFile fromFd "pipe:0/data" false true] }
  let rightStage := { stageSpec host right s with fdBindings := [.ofFile toFd "pipe:0/data1" true false] }
  prepareGraph host { kind := .pipeline, jobId := none, stages := [leftStage, rightStage] }

def prepareBackgroundGraph (id : UInt32) (node : Node) : RcM H (Option RcProcessGraphRecord) := do
  let s ← get
  let stage := { stageSpec host node s with
    stdout := some ("job:" ++ toString id ++ "/stdout"), stderr := some ("job:" ++ toString id ++ "/stderr") }
  prepareGraph host { kind := .background, jobId := some id, stages := [stage] }

def prepareProcessSubstitutionGraph (kind : RcProcessGraphKind) (node : Node) (fd : Nat) :
    RcM H (Option RcProcessGraphRecord) := do
  let s ← get
  let readable := kind == .processSubstitutionRead
  let path := if readable then "pipe:0/data" else "pipe:0/data1"
  let stage := { stageSpec host node s with fdBindings := [.ofFile fd path readable !readable] }
  prepareGraph host { kind, jobId := none, stages := [stage] }

def finishProcessGraph (record : Option RcProcessGraphRecord) (statuses : List RcStatus) : RcM H Unit :=
  match record with
  | some record => ignore (onHost (host.finishProcessGraph record (statuses.map RcProcessStageOutcome.mk)))
  | none => pure ()

/-! ## Stages the host can execute -/

def hostExecutableArgv (path : String) (args : List String) : RcM H (Option (List String)) := do
  match ← attempt (onHost (host.readFile path)) with
  | .ok bytes => pure (if isHostExecutable path bytes then some (path :: args) else none)
  | .error _ => pure none

def findExecutable (command : String) (args : List String) : List String → RcM H (Option (List String))
  | [] => pure none
  | dir :: dirs => do
    match ← hostExecutableArgv host (joinPath dir command) args with
    | some argv => pure (some argv)
    | none => findExecutable command args dirs

def resolveExternalArgv : List String → RcM H (Option (List String))
  | [] => pure none
  | command :: args =>
    if (command = "wasi" ∨ command = "worker" ∨ command = "native") ∧ args ≠ [] then
      pure (some (command :: args))
    else if isHostExecutablePath command then pure (some (command :: args))
    else if '/' ∈ command.toList then hostExecutableArgv host command args
    else do
      let s ← get
      findExecutable host command args (s.lookupVar "path")

/-- The descriptor bindings and the standard input that a list of redirections
gives a stage, or nothing when the host cannot be asked for them. -/
def stageRedirects : List Redirect → String → List RcFdBindingSpec →
    RcM H (Option (String × List RcFdBindingSpec))
  | [], stdin, bindings => pure (some (stdin, bindings))
  | redirect :: redirects, stdin, bindings =>
    let hereText := do
      if redirect.fd ≠ 0 then pure none
      else
        match ← attempt? (redirectHereText evalSource redirect) with
        | some text => stageRedirects redirects text bindings
        | none => pure none
    let bindPath (binding : String → RcFdBindingSpec) := do
      match ← attempt? (redirectPath evalSource redirect) with
      | some path => stageRedirects redirects stdin (bindings ++ [binding path])
      | none => pure none
    match redirect.mode, redirect.target with
    | .read, some (.word _) => bindPath fun path => .ofFile redirect.fd path true false
    | .read, some (.hereDoc _) => hereText
    | .read, _ => pure none
    | .here, _ => hereText
    | .write, some (.word _) => bindPath fun path => .ofFile redirect.fd path false true
    | .write, _ => pure none
    | .append, some (.word _) => bindPath fun path => .ofAppendFile redirect.fd path
    | .append, _ => pure none
    | .dup (some source), _ => stageRedirects redirects stdin (bindings ++ [.ofDup redirect.fd source])
    | .dup none, _ => stageRedirects redirects stdin (bindings ++ [.ofClose redirect.fd])

def stageCommand : Node → Option SimpleCommand
  | .simple command => some command
  | .block [.simple command] => some command
  | .sequence [.simple command] => some command
  | _ => none

def executableStage (node : Node) (stdin : String) (bindings : List RcFdBindingSpec) :
    RcM H (Option RcExecutableStageSpec) :=
  match stageCommand node with
  | none => pure none
  | some simple => do
    let s ← get
    let assigned ← expandAssignments host evalSource simple.assignments
    let env := assigned.foldl (fun (env : RcVars) (name, values) => env.insert name values) s.vars
    let words ← expandWords host evalSource simple.words
    let s ← get
    match words with
    | [] => pure none
    | command :: _ =>
      if command ∈ s.functions ∨ command ∈ BUILTINS then pure none
      else
        match ← stageRedirects evalSource simple.redirects stdin bindings with
        | none => pure none
        | some (stdin, fdBindings) =>
          match ← resolveExternalArgv host words with
          | none => pure none
          | some argv => do
            let s ← get
            pure (some { argv, stdin, cwd := host.currentDir s.host, env, fdBindings })

/-! ## Pipelines -/

/-- The simple commands of a nest of pipes, and the descriptors between them. -/
def pipelineNodes : Node → Option (List Node × List (Nat × Nat))
  | .simple command => some ([.simple command], [])
  | .pipe left right spec =>
    match pipelineNodes left, pipelineNodes right with
    | some (leftNodes, leftEdges), some (rightNodes, rightEdges) =>
      some (leftNodes ++ rightNodes,
        leftEdges ++ [((spec.map PipeSpec.fromFd).getD 1, (spec.map PipeSpec.toFd).getD 0)] ++ rightEdges)
    | _, _ => none
  | _ => none

def edgeBindings (edges : List (Nat × Nat)) (index : Nat) : List RcFdBindingSpec :=
  let reads := if index = 0 then [] else
    (edges[index - 1]?.map fun edge =>
      RcFdBindingSpec.ofFile edge.2 ("pipe:" ++ toString (index - 1) ++ "/data1") true false).toList
  let writes := (edges[index]?.map fun edge =>
    RcFdBindingSpec.ofFile edge.1 ("pipe:" ++ toString index ++ "/data") false true).toList
  reads ++ writes

def pipelineStages (edges : List (Nat × Nat)) (input : String) : List Node → Nat →
    RcM H (Option (List RcExecutableStageSpec))
  | [], _ => pure (some [])
  | node :: nodes, index => do
    let stdin := if index = 0 then input else ""
    match ← executableStage host evalSource node stdin (edgeBindings edges index) with
    | none => pure none
    | some stage =>
      match ← pipelineStages edges input nodes (index + 1) with
      | none => pure none
      | some stages => pure (some (stage :: stages))

/-- The last binding of the descriptor decides where its writes go. -/
def stageWritesPipe (stage : RcExecutableStageSpec) (fd index : Nat) : Bool :=
  match stage.fdBindings.reverse.find? (fun binding => binding.fd = fd) with
  | some binding =>
    binding.writable && !binding.close && binding.dupFrom.isNone &&
      binding.path = "pipe:" ++ toString index ++ "/data"
  | none => false

def closeRead (toFd index : Nat) (stage : RcExecutableStageSpec) : RcExecutableStageSpec :=
  let readPath := "pipe:" ++ toString index ++ "/data1"
  { stage with
    fdBindings := stage.fdBindings.filter (fun b => !(b.fd = toFd && b.path = readPath)) ++ [.ofClose toFd] }

/-- A stage whose predecessor no longer writes the pipe reads a closed descriptor. -/
def closeUnwritten (stages : List RcExecutableStageSpec) (index : Nat) (edge : Nat × Nat) :
    List RcExecutableStageSpec :=
  match stages[index]? with
  | some stage =>
    if stageWritesPipe stage edge.1 index then stages else stages.modify (index + 1) (closeRead edge.2 index)
  | none => stages

def closeUnwrittenFrom : List RcExecutableStageSpec → Nat → List (Nat × Nat) → List RcExecutableStageSpec
  | stages, _, [] => stages
  | stages, index, edge :: edges => closeUnwrittenFrom (closeUnwritten stages index edge) (index + 1) edges

def tryExecutePipelineGraph (left right : Node) (fromFd toFd : Nat) (input : String) :
    RcM H (Option RcOutput) :=
  match pipelineNodes (.pipe left right (some ⟨fromFd, toFd⟩)) with
  | none => pure none
  | some (nodes, edges) => do
    match ← pipelineStages host evalSource edges input nodes 0 with
    | none => pure none
    | some stages =>
      let out ← attempt? (onHost (host.executeProcessGraph
        { kind := .pipeline, jobId := none, stages := closeUnwrittenFrom stages 0 edges }))
      pure out.join

def tryStartBackgroundGraph (id : UInt32) (node : Node) (input : String) : RcM H Bool := do
  match ← executableStage host evalSource node input [] with
  | none => pure false
  | some stage =>
    let job ← attempt? (onHost (host.startProcessGraphJob
      { kind := .background, jobId := some id, stages := [stage] }))
    pure job.join.isSome

def tryExecuteProcessSubstitutionGraph (kind : RcProcessGraphKind) (node : Node) (input : String)
    (fd : Nat) : RcM H (Option RcOutput) := do
  let bindings := if kind = .processSubstitutionRead then
    [RcFdBindingSpec.ofFile fd "pipe:0/data" false true] else []
  match ← executableStage host evalSource node input bindings with
  | none => pure none
  | some stage =>
    match ← attempt (onHost (host.executeProcessGraph { kind, jobId := none, stages := [stage] })) with
    | .ok out => pure out
    | .error err =>
      pure (some (.failure "process-substitution" ("process substitution: " ++ err.display ++ "\n")))

end

end Star9.Rc
