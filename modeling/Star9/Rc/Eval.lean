import Star9.Rc.Graph

/-!
# The rc evaluator

`evalNode` and the functions around it. Functions may call themselves, so the
evaluator is given a number of nested evaluations it may use and aborts when they
run out, as the program overflows its stack.

An evaluation returns, next to the output of the source, a trace: which simple
commands ran, what each of them returned, and how the constructs around them were
left. No definition of this file looks at a trace.
-/
namespace Star9.Rc
open Base Prog

/-- What an evaluation ran, in the order in which it ran. -/
inductive RcTrace where
  /-- no simple command -/
  | nothing
  /-- a simple command, a function call apart, and what it returned -/
  | ran (out : RcOutput)
  /-- a function call and the run of the body -/
  | call (body : RcTrace)
  /-- a command whose redirection needed the run of a process first -/
  | fed (process command : RcTrace)
  /-- a command whose sink replaced its status, by the run of a process or by an error -/
  | sunk (command process : RcTrace) (status : RcStatus)
  /-- the nodes of a list so far, and the next one -/
  | seq (earlier next : RcTrace)
  /-- an `&&` that went on to its right side -/
  | andRight (left right : RcTrace)
  /-- an `||` that went on to its right side -/
  | orRight (left right : RcTrace)
  | negated (inner : RcTrace)
  /-- an `if` that took a branch -/
  | branch (condition taken : RcTrace)
  /-- an `if` that took none -/
  | noBranch (condition : RcTrace)
  /-- the rounds of a `for` so far, and the next one -/
  | forRound (earlier body : RcTrace)
  /-- the rounds of a `while` so far, and the next one -/
  | whileRound (earlier condition body : RcTrace)
  /-- a `while` whose condition failed -/
  | whileEnd (earlier condition : RcTrace)
  /-- a `while` stopped by the round limit -/
  | limited (earlier : RcTrace)
  /-- a pipe whose two sides rc ran itself; the left one ended with `status` -/
  | piped (left : RcTrace) (status : RcStatus) (right : RcTrace)
  /-- a pipeline or a process that the host ran, and what it returned -/
  | hosted (out : RcOutput)
  /-- the run of a background command, whose output goes to a job -/
  | background (inner : RcTrace)
  /-- a simple command with redirections -/
  | redirected (command : RcTrace)
  deriving DecidableEq, Repr

/-- An output with the trace of the evaluation that made it. -/
structure RcRun extends RcOutput where
  trace : RcTrace
  deriving DecidableEq, Repr

namespace RcRun

protected def default : RcRun := { RcOutput.default with trace := .nothing }

def ofCommand (out : RcOutput) : RcRun := { out with trace := .ran out }

/-- `append` of the source; `join` says how the two runs belong together. -/
def append (run next : RcRun) (join : RcTrace → RcTrace → RcTrace) : RcRun :=
  { status := next.status, stdout := run.stdout ++ next.stdout, stderr := run.stderr ++ next.stderr,
    exited := next.exited, trace := join run.trace next.trace }

end RcRun

inductive FdSink where
  | stdout
  | stderr
  | file (path : String) (append : Bool)
  | process (node : Node) (graph : Option RcProcessGraphRecord)
  | closed

abbrev FdSinks := Std.ExtTreeMap Nat FdSink

def FdSinks.default : FdSinks := ((∅ : FdSinks).insert 1 .stdout).insert 2 .stderr

/-- What the redirections of a command have set up so far; `reads` is the run of
the processes it reads from. -/
structure RedirectState where
  input : String
  sinks : FdSinks
  reads : RcTrace

section
variable {H : Type} (parse : String → Except RcError Script) (host : RcHost H)
variable (evalNode : Node → String → RcM H RcRun)

/-! ## Lists of nodes and scripts -/

def evalNodesFrom : List Node → String → RcRun → RcM H RcRun
  | [], _, out => pure out
  | node :: nodes, input, out => do
    let next ← evalNode node input
    if next.exited then pure (out.append next .seq)
    else evalNodesFrom nodes "" (out.append next .seq)

def evalNodes (nodes : List Node) (input : String) : RcM H RcRun := evalNodesFrom evalNode nodes input .default

def setStatus (status : RcStatus) (s : RcSession H) : RcSession H :=
  { s with lastStatus := status, vars := s.vars.insert "status" [status.display] }

def evalScript (script : Script) (input : String) : RcM H RcRun := do
  let output ← evalNodes evalNode script.commands input
  modify (setStatus output.status)
  ignore (publishEnvironment host)
  pure output

def evalSource (source : String) : RcM H RcRun := do
  ignore (importHostEnvironment parse host)
  match parse source with
  | .ok script => evalScript host evalNode script ""
  | .error err => do
    modify fun s => { s with lastStatus := .failure }
    pure { RcOutput.failure "parse" ("rc: " ++ err.display ++ "\n") with trace := .nothing }

/-- What a command substitution and a builtin see of a source they evaluate. -/
def sourceOutput (source : String) : RcM H RcOutput := do
  let run ← evalSource parse host evalNode source
  pure run.toRcOutput

/-! ## Commands -/

def runHostCommand (name : String) (args : List String) (stdin : String) : RcM H RcOutput := do
  let s ← get
  let result ← onHost (host.runCommand { name, args, stdin, env := s.vars })
  pure { status := result.status, stdout := result.stdout, stderr := result.stderr, exited := false }

def runExternal (name : String) (args : List String) (stdin : String) : RcM H RcOutput := do
  match ← attempt (runHostCommand host name args stdin) with
  | .ok out => pure out
  | .error err => pure (.failure "notfound" (name ++ ": " ++ err.display ++ "\n"))

def runRcScript (path : String) (args : List String) (input : String) : RcM H RcOutput := do
  let bytes ← onHost (host.readFile path)
  if isHostExecutable path bytes then runHostCommand host path args input
  else do
    let s ← get
    modify fun s => { s with argv0 := path }
    setArgs host args
    let script ← Prog.ofExcept (parse (utf8Lossy bytes))
    let out ← evalScript host evalNode script input
    modify fun t => { t with argv0 := s.argv0 }
    setArgs host s.argv
    pure out.toRcOutput

def searchPath (command : String) (args : List String) (input : String) :
    List String → RcM H (Option RcOutput)
  | [] => pure none
  | dir :: dirs => do
    match ← attempt (runRcScript parse host evalNode (joinPath dir command) args input) with
    | .ok out => pure (some out)
    | .error _ => searchPath command args input dirs

def runPathCommand (command : String) (args : List String) (input : String) : RcM H (Option RcOutput) :=
  if '/' ∈ command.toList then attempt? (runRcScript parse host evalNode command args input)
  else do
    let s ← get
    searchPath parse host evalNode command args input (s.lookupVar "path")

/-- A function body under its own arguments. -/
def runFunction (body : Node) (args : List String) (input : String) : RcM H RcRun := do
  let s ← get
  setArgs host args
  let out ← evalNode body input
  setArgs host s.argv
  pure out

def runNoteFunction (name : String) : RcM H (Option RcOutput) := do
  let s ← get
  if name ∈ s.notesInProgress then pure none
  else do
    modify fun s => { s with notesInProgress := s.notesInProgress.insert name }
    let out ← match s.functions[name]? with
      | some function => do
        let run ← runFunction host evalNode function [] ""
        pure (some run.toRcOutput)
      | none => pure none
    modify fun s => { s with notesInProgress := s.notesInProgress.erase name }
    pure out

/-! ## Builtins -/

def failed : RcOutput := { RcOutput.default with status := .failure }

def runMatch : List String → RcOutput
  | subject :: patterns@(_ :: _) =>
    if patterns.any fun pattern => patternMatch pattern subject then .default else failed
  | _ => .failure "usage" "usage: ~ subject pattern ...\n"

def runCd (args : List String) : RcM H RcOutput := do
  let path := args.head?.getD "."
  match ← attempt (onHost (host.setCurrentDir path)) with
  | .ok () => pure .default
  | .error err => pure (.failure "cd" ("cd: " ++ path ++ ": " ++ err.display ++ "\n"))

def runExec (args : List String) (input : String) : RcM H RcOutput :=
  match args with
  | [] => pure (.failure "usage" "usage: exec command [args ...]\n")
  | command :: rest => do
    match ← runPathCommand parse host evalNode command rest input with
    | some out => pure { out with exited := true }
    | none => do
      let out ← runExternal host command rest input
      pure { out with exited := true }

def runDot (args : List String) : RcM H RcOutput :=
  match args.head? with
  | some path => do
    match ← attempt (onHost (host.readFile path)) with
    | .ok bytes => sourceOutput parse host evalNode (utf8Lossy bytes)
    | .error err => pure (.failure "source" (".: " ++ path ++ ": " ++ err.display ++ "\n"))
  | none => pure (.failure "usage" "usage: . file\n")

def runShift (args : List String) : RcM H RcOutput := do
  let n := (args.head?.bind (parseUnsigned 64)).getD 1
  modify fun s => { s with argv := s.argv.drop n }.refreshArgVars
  pure .default

def whatisLine (s : RcSession H) (arg : String) : String :=
  match s.vars[arg]?, s.functions[arg]? with
  | some values, _ => arg ++ "=(" ++ joinWith " " values ++ ")\n"
  | none, some function => "fn " ++ arg ++ " " ++ renderNode function ++ "\n"
  | none, none => if arg ∈ BUILTINS then "builtin " ++ arg ++ "\n" else arg ++ ": not found\n"

def runExit (args : List String) : RcM H RcOutput := do
  let s ← get
  let status := (args.head?.map RcStatus.mk).getD s.lastStatus
  let note ← runNoteFunction host evalNode "sigexit"
  pure { note.getD .default with status, exited := true }

def waitLine (id : UInt32) (status : RcStatus) : String :=
  "[" ++ toString id ++ "] " ++ status.display ++ "\n"

def renderWaitResults (results : List RcProcessJobResult) : RcOutput :=
  { status := results.foldl (fun st job => if job.status.isSuccess then st else job.status) .success
    stdout := joinWith "" (results.map fun job => job.stdout ++ job.stderr ++ waitLine job.id job.status)
    stderr := "", exited := false }

def finishJobs : List RcJob → RcM H Unit
  | [] => pure ()
  | job :: jobs => do
    finishProcessGraph host job.graph [job.status]
    finishJobs jobs

def reportJobs (jobs : List RcJob) : RcM H RcOutput := do
  finishJobs host jobs
  pure (renderWaitResults (jobs.map fun job =>
    { id := job.id, status := job.status, stdout := job.stdout, stderr := job.stderr }))

def waitFor (requested : Option UInt32) : RcM H RcOutput := do
  match ← attempt (onHost (host.waitProcessJob requested)) with
  | .ok (some results) => pure (renderWaitResults results)
  | _ => do
    let s ← get
    match requested with
    | none => do
      modify fun s => { s with jobs := [] }
      reportJobs host s.jobs
    | some id =>
      match s.jobs.find? fun job => job.id = id with
      | none => pure (.failure "wait" ("wait: " ++ toString id ++ ": no such job\n"))
      | some job => do
        modify fun s => { s with jobs := s.jobs.eraseP fun job => job.id = id }
        reportJobs host [job]

def runWait (args : List String) : RcM H RcOutput :=
  match args with
  | [] => waitFor host none
  | [arg] =>
    match parseUnsigned 32 arg with
    | some id => waitFor host (some (UInt32.ofNat id))
    | none => pure (.failure "usage" ("wait: " ++ arg ++ ": bad job id\n"))
  | _ => pure (.failure "usage" "usage: wait [job]\n")

def runRfork (args : List String) : RcM H RcOutput :=
  match RcRforkSpec.parse args with
  | .error err => pure (.failure "rfork" ("rfork: " ++ err.display ++ "\n"))
  | .ok spec => do
    match ← attempt (onHost (host.rfork spec)) with
    | .error err => pure (.failure "rfork" ("rfork: " ++ err.display ++ "\n"))
    | .ok outcome =>
      match outcome.environment with
      | .unchanged => pure .default
      | .reload => do
        match ← attempt (onHost host.loadEnvironment) with
        | .ok (some env) => do
          modify fun s => s.replaceEnvironmentWithoutPublish parse env
          pure .default
        | .ok none => pure .default
        | .error err => pure (.failure "rfork" ("rfork: " ++ err.display ++ "\n"))
      | .cleared => do
        modify fun s => { s with vars := ∅, functions := ∅ }.refreshArgVars
        pure .default

def runFlag : List String → RcOutput
  | [] => .success "\n"
  | [flag] =>
    if flag = "x" ∨ flag = "e" ∨ flag = "r" ∨ flag = "i" then .default
    else .failure "flag" ("flag: unknown flag " ++ flag ++ "\n")
  | _ => .failure "usage" "usage: flag [name]\n"

def runTest (args : List String) : RcM H RcOutput := do
  let success ← match args with
    | [flag, path] =>
      if flag = "-e" ∨ flag = "-f" then do
        match ← attempt (onHost (host.stat path)) with
        | .ok stat => pure (flag = "-e" || !stat.isDir)
        | .error _ => pure false
      else if flag = "-d" then do
        match ← attempt (onHost (host.stat path)) with
        | .ok stat => pure stat.isDir
        | .error _ => pure false
      else pure false
    | [left, op, right] =>
      if op = "=" then pure (left = right : Bool)
      else if op = "!=" then pure (left ≠ right : Bool)
      else pure false
    | [value] => pure (value ≠ "" : Bool)
    | _ => pure false
  pure (if success then .default else failed)

def runBasename : List String → RcOutput
  | [] => .failure "usage" "usage: basename path [suffix]\n"
  | path :: rest =>
    let leaf := (splitSlash (trimEndSlash path)).getLast?.getD path
    match rest.head? with
    | some suffix =>
      if endsWith leaf suffix then
        .success (String.ofList (leaf.toList.take (leaf.toList.length - suffix.toList.length)) ++ "\n")
      else .success (leaf ++ "\n")
    | none => .success (leaf ++ "\n")

/-- Every builtin but `builtin` itself. -/
def runPlainBuiltin (name : String) (args : List String) (input : String) : RcM H (Option RcOutput) :=
  if name = "echo" then pure (some (.success (joinWith " " args ++ "\n")))
  else if name = "cd" then some <$> runCd host args
  else if name = "pwd" then do
    let s ← get
    pure (some (.success (host.currentDir s.host ++ "\n")))
  else if name = "status" then do
    let s ← get
    pure (some (.success (s.lastStatus.display ++ "\n")))
  else if name = "true" then pure (some .default)
  else if name = "false" then pure (some failed)
  else if name = "~" then pure (some (runMatch args))
  else if name = "eval" then some <$> sourceOutput parse host evalNode (joinWith " " args)
  else if name = "exec" then some <$> runExec parse host evalNode args input
  else if name = "." then some <$> runDot parse host evalNode args
  else if name = "shift" then some <$> runShift args
  else if name = "whatis" then do
    let s ← get
    pure (some (.success (joinWith "" (args.map (whatisLine s)))))
  else if name = "test" then some <$> runTest host args
  else if name = "basename" then pure (some (runBasename args))
  else if name = "exit" then some <$> runExit host evalNode args
  else if name = "wait" then some <$> runWait host args
  else if name = "rfork" then some <$> runRfork parse host args
  else if name = "flag" then pure (some (runFlag args))
  else if name = "cat" ∧ args = [] then pure (some (.success input))
  else pure none

def runBuiltinCommand (args : List String) (input : String) : RcM H RcOutput :=
  match args with
  | [] => pure (.failure "usage" "usage: builtin command [args ...]\n")
  | name :: rest =>
    if name = "builtin" then pure .default
    else if name ∈ BUILTINS then do
      let out ← runPlainBuiltin parse host evalNode name rest input
      pure (out.getD .default)
    else pure (.failure "builtin" ("builtin: " ++ name ++ ": not a builtin\n"))

def runBuiltin (name : String) (args : List String) (input : String) : RcM H (Option RcOutput) :=
  if name = "builtin" then some <$> runBuiltinCommand parse host evalNode args input
  else runPlainBuiltin parse host evalNode name args input

/-! ## Redirections -/

def redirectInput (redirect : Redirect) : RcM H String := do
  let path ← redirectPath (sourceOutput parse host evalNode) redirect
  if isNullPath path then pure ""
  else do
    let bytes ← onHost (host.readFile path)
    pure (utf8Lossy bytes)

/-- The output of a process whose standard output a command reads. -/
def readProcess (node : Node) : RcM H RcRun := do
  match ← tryExecuteProcessSubstitutionGraph host (sourceOutput parse host evalNode)
    .processSubstitutionRead node "" 1 with
  | some out => pure { out with trace := .hosted out }
  | none => do
    let graph ← prepareProcessSubstitutionGraph host .processSubstitutionRead node 1
    let out ← evalNode node ""
    finishProcessGraph host graph [out.status]
    pure out

def fileSink (redirect : Redirect) : RcM H FdSink := do
  let path ← redirectPath (sourceOutput parse host evalNode) redirect
  pure (if isNullPath path then .closed else .file path (redirect.mode = .append))

/-- The sink that a descriptor stands for when nothing redirected it. -/
def dupSink (sinks : FdSinks) (source : Nat) : FdSink :=
  (sinks[source]?).getD (if source = 1 then .stdout else if source = 2 then .stderr else .closed)

def prepareRedirect (redirect : Redirect) (st : RedirectState) : RcM H RedirectState :=
  match redirect.mode, redirect.target with
  | .read, some (.process node) => do
    let out ← readProcess parse host evalNode node
    pure { st with input := out.stdout, reads := .seq st.reads out.trace }
  | .read, _ => do
    let input ← redirectInput parse host evalNode redirect
    pure { st with input }
  | .here, _ => do
    let input ← redirectHereText (sourceOutput parse host evalNode) redirect
    pure { st with input }
  | .dup (some source), _ => pure { st with sinks := st.sinks.insert redirect.fd (dupSink st.sinks source) }
  | .dup none, _ => pure { st with sinks := st.sinks.insert redirect.fd .closed }
  | _, some (.process node) => do
    let graph ← prepareProcessSubstitutionGraph host .processSubstitutionWrite node redirect.fd
    pure { st with sinks := st.sinks.insert redirect.fd (.process node graph) }
  | _, _ => do
    let sink ← fileSink parse host evalNode redirect
    pure { st with sinks := st.sinks.insert redirect.fd sink }

/-- The redirections from left to right, up to the first that fails. -/
def prepareRedirects : List Redirect → RedirectState → RcM H (RedirectState × Option RcError)
  | [], st => pure (st, none)
  | redirect :: redirects, st => do
    match ← attempt (prepareRedirect parse host evalNode redirect st) with
    | .ok st => prepareRedirects redirects st
    | .error err => pure (st, some err)

def writeProcess (node : Node) (data : String) (fd : Nat) : RcM H RcRun := do
  match ← tryExecuteProcessSubstitutionGraph host (sourceOutput parse host evalNode)
    .processSubstitutionWrite node data fd with
  | some out => pure { out with trace := .hosted out }
  | none => evalNode node data

def applyFdSink (fd : Nat) (data : String) (sinks : FdSinks) (output : RcRun) :
    RcM H (RcRun × Option RcError) :=
  if data = "" then pure (output, none)
  else
    match (sinks[fd]?).getD (if fd = 2 then .stderr else .stdout) with
    | .stdout => pure ({ output with stdout := output.stdout ++ data }, none)
    | .stderr => pure ({ output with stderr := output.stderr ++ data }, none)
    | .closed => pure (output, none)
    | .file path append => do
      let write := if append then host.appendFile path (utf8Bytes data) else host.writeFile path (utf8Bytes data)
      match ← attempt (onHost write) with
      | .ok () => pure (output, none)
      | .error err => pure (output, some err)
    | .process node graph => do
      let next ← writeProcess parse host evalNode node data fd
      finishProcessGraph host graph [next.status]
      pure ({ status := next.status, stdout := output.stdout ++ next.stdout,
              stderr := output.stderr ++ next.stderr, exited := output.exited || next.exited,
              trace := .sunk output.trace next.trace next.status }, none)

/-- The output after its sinks, and the error that stopped them. -/
def applyOutputSinks (output : RcRun) (sinks : FdSinks) : RcM H (RcRun × Option RcError) := do
  let (first, err) ← applyFdSink parse host evalNode 1 output.stdout sinks
    { output with stdout := "", stderr := "" }
  match err with
  | some err => pure (first, some err)
  | none => applyFdSink parse host evalNode 2 output.stderr sinks first

/-! ## Simple commands -/

def bindVars (vars : RcVars) (values : List (String × List String)) : RcVars :=
  values.foldl (fun vars (name, values) => vars.insert name values) vars

/-- Assign in order, keeping for each name the value it had just before. -/
def pushVars : RcVars → List (String × List String) → RcVars × List (String × Option (List String))
  | vars, [] => (vars, [])
  | vars, (name, values) :: rest =>
    let (vars', restore) := pushVars (vars.insert name values) rest
    (vars', (name, vars[name]?) :: restore)

def restoreVars (restore : List (String × Option (List String))) (s : RcSession H) : RcSession H :=
  { s with vars := restore.foldl (fun vars (name, old) => restoreVar vars name old) s.vars }

def runCommandWords (command : String) (args : List String) (input : String) : RcM H RcRun := do
  let s ← get
  match s.functions[command]? with
  | some function => do
    let out ← runFunction host evalNode function args input
    pure { out with trace := .call out.trace }
  | none => do
    match ← runBuiltin parse host evalNode command args input with
    | some out => pure (.ofCommand out)
    | none => do
      match ← runPathCommand parse host evalNode command args input with
      | some out => pure (.ofCommand out)
      | none => .ofCommand <$> runExternal host command args input

/-- The sinks' error replaces the status and is added to the output. -/
def sinkFailure (out : RcRun) : Option RcError → RcRun
  | none => out
  | some err =>
    { out with
      status := .failure, stderr := out.stderr ++ "rc: " ++ err.display ++ "\n",
      trace := .sunk out.trace .nothing .failure }

def finishSimple (out : RcRun) (sinks : FdSinks) (restore : List (String × Option (List String))) :
    RcM H RcRun := do
  ignore (importHostEnvironment parse host)
  let (sunk, err) ← applyOutputSinks parse host evalNode out sinks
  let out := sinkFailure sunk err
  modify (setStatus out.status)
  modify (restoreVars restore)
  ignore (publishEnvironment host)
  pure out

/-- The command after its assignments and redirections. -/
def evalCommand (simple : SimpleCommand) (st : RedirectState)
    (restore : List (String × Option (List String))) : RcM H RcRun := do
  let words ← expandWords host (sourceOutput parse host evalNode) simple.words
  match words with
  | [] => do
    modify (restoreVars restore)
    pure (.ofCommand .default)
  | command :: args => do
    let out ← runCommandWords parse host evalNode command args st.input
    finishSimple parse host evalNode out st.sinks restore

def evalRedirected (simple : SimpleCommand) (input : String)
    (restore : List (String × Option (List String))) : RcM H RcRun := do
  let (st, err) ← prepareRedirects parse host evalNode simple.redirects
    { input, sinks := .default, reads := .nothing }
  let out ← match err with
    | some err => pure (.ofCommand (.failure "redirect" ("rc: " ++ err.display ++ "\n")))
    | none => evalCommand parse host evalNode simple st restore
  pure { out with trace := .redirected (.fed st.reads out.trace) }

def evalSimple (simple : SimpleCommand) (input : String) : RcM H RcRun := do
  let values ← expandAssignments host (sourceOutput parse host evalNode) simple.assignments
  if simple.words.isEmpty then do
    modify fun s => { s with vars := bindVars s.vars values }
    ignore (publishEnvironment host)
    pure (.ofCommand .default)
  else do
    let s ← get
    let (vars, restore) := pushVars s.vars values
    set { s with vars }
    if simple.redirects.isEmpty then
      evalCommand parse host evalNode simple { input, sinks := .default, reads := .nothing } restore
    else evalRedirected parse host evalNode simple input restore

/-! ## Nodes -/

def evalPipe (left right : Node) (spec : Option PipeSpec) (input : String) : RcM H RcRun := do
  let fromFd := (spec.map PipeSpec.fromFd).getD 1
  let toFd := (spec.map PipeSpec.toFd).getD 0
  match ← tryExecutePipelineGraph host (sourceOutput parse host evalNode) left right fromFd toFd input with
  | some out => pure { out with trace := .hosted out }
  | none => do
    let graph ← preparePipelineGraph host left right fromFd toFd
    let l ← evalNode left input
    let piped := if fromFd = 2 then l.stderr else l.stdout
    let r ← evalNode right (if toFd = 0 then piped else "")
    finishProcessGraph host graph [l.status, r.status]
    pure { status := .pipeline l.status r.status
           stdout := (if fromFd = 2 then l.stdout else "") ++ r.stdout
           stderr := (if fromFd = 2 then "" else l.stderr) ++ r.stderr
           exited := r.exited
           trace := .piped l.trace l.status r.trace }

def evalBackground (inner : Node) (input : String) : RcM H RcRun := do
  let s ← get
  let id := s.nextJobId
  set { s with nextJobId := id + 1 }
  let started := RcOutput.success ("[" ++ toString id ++ "]\n")
  if ← tryStartBackgroundGraph host (sourceOutput parse host evalNode) id inner input then
    pure { started with trace := .background .nothing }
  else do
    let graph ← prepareBackgroundGraph host id inner
    let out ← evalNode inner input
    finishProcessGraph host graph [out.status]
    modify fun s =>
      { s with jobs := s.jobs ++ [{ id, status := out.status, stdout := out.stdout, stderr := out.stderr, graph }] }
    pure { started with trace := .background out.trace }

def evalIf (condition thenBranch : Node) (elseBranch : Option Node) (input : String) : RcM H RcRun := do
  let cond ← evalNode condition input
  if cond.status.isSuccess then do
    let out ← evalNode thenBranch ""
    pure { out with trace := .branch cond.trace out.trace }
  else
    match elseBranch with
    | some elseBranch => do
      let out ← evalNode elseBranch ""
      pure { out with trace := .branch cond.trace out.trace }
    | none =>
      pure { status := .success, stdout := "", stderr := cond.stderr, exited := false,
             trace := .noBranch cond.trace }

def forRounds (var : String) (body : Node) : List String → RcRun → RcM H RcRun
  | [], out => pure out
  | value :: values, out => do
    modify fun s => { s with vars := s.vars.insert var [value] }
    let next ← evalNode body ""
    forRounds var body values (out.append next .forRound)

/-- A `for` without values goes over the arguments. -/
def forValues (values : List Word) : RcM H (List String) :=
  if values.isEmpty then do
    let s ← get
    pure s.argv
  else expandWords host (sourceOutput parse host evalNode) values

def evalFor (var : String) (values : List Word) (body : Node) : RcM H RcRun := do
  let values ← forValues parse host evalNode values
  let s ← get
  let out ← forRounds evalNode var body values .default
  modify fun t => { t with vars := restoreVar t.vars var s.vars[var]? }
  pure out

def loopLimit : Nat := 100000

def whileRounds (condition body : Node) : Nat → RcRun → RcM H RcRun
  | 0, out =>
    pure { RcOutput.failure "loop" "rc: while loop iteration limit exceeded\n" with trace := .limited out.trace }
  | rounds + 1, out => do
    let cond ← evalNode condition ""
    if cond.status.isSuccess then do
      let next ← evalNode body ""
      whileRounds condition body rounds (out.append next fun earlier b => .whileRound earlier cond.trace b)
    else pure { out with trace := .whileEnd out.trace cond.trace }

/-- The first case with a pattern that matches the value. -/
def switchCases (value : String) (input : String) : List SwitchCase → RcM H RcRun
  | [] => pure .default
  | case :: cases => do
    let patterns ← expandWords host (sourceOutput parse host evalNode) case.patterns
    if patterns.any fun pattern => patternMatch pattern value then evalNodes evalNode case.body input
    else switchCases value input cases

def evalSwitch (value : Word) (cases : List SwitchCase) (input : String) : RcM H RcRun := do
  let values ← expandWord (sourceOutput parse host evalNode) value
  switchCases parse host evalNode (values.head?.getD "") input cases

def defineFunction (name : String) (body : Option Node) (s : RcSession H) : RcSession H :=
  match body with
  | some body => { s with functions := s.functions.insert name body }
  | none => { s with functions := s.functions.erase name }

/-- One evaluation, given the evaluator for the nodes it needs. -/
def evalStep (node : Node) (input : String) : RcM H RcRun :=
  match node with
  | .empty => pure .default
  | .sequence nodes => evalNodes evalNode nodes input
  | .block nodes => evalNodes evalNode nodes input
  | .simple simple => evalSimple parse host evalNode simple input
  | .and left right => do
    let l ← evalNode left input
    if l.status.isSuccess then do
      let r ← evalNode right ""
      pure { r with stderr := l.stderr ++ r.stderr, trace := .andRight l.trace r.trace }
    else pure l
  | .or left right => do
    let l ← evalNode left input
    if l.status.isSuccess then pure l
    else do
      let r ← evalNode right ""
      pure { r with stderr := l.stderr ++ r.stderr, trace := .orRight l.trace r.trace }
  | .pipe left right spec => evalPipe parse host evalNode left right spec input
  | .not inner => do
    let out ← evalNode inner input
    pure { out with status := out.status.invert, trace := .negated out.trace }
  | .background inner => evalBackground parse host evalNode inner input
  | .ite condition thenBranch elseBranch => evalIf evalNode condition thenBranch elseBranch input
  | .for var values body => evalFor parse host evalNode var values body
  | .while condition body => whileRounds evalNode condition body loopLimit .default
  | .switch value cases => evalSwitch parse host evalNode value cases input
  | .function name body => do
    modify (defineFunction name body)
    pure .default

end

section
variable {H : Type} (parse : String → Except RcError Script) (host : RcHost H)

/-- `depth` bounds the nesting of evaluations. -/
def evalNode : Nat → Node → String → RcM H RcRun
  | 0, _, _ => abort
  | depth + 1, node, input => evalStep parse host (evalNode depth) node input

/-- The evaluation of a script by a session. -/
def runScript (depth : Nat) (script : Script) (input : String) : RcM H RcRun :=
  evalScript host (evalNode parse host depth) script input

end

end Star9.Rc
