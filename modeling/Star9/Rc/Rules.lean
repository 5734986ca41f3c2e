import Star9.Rc.Eval

/-!
# An induction rule for rc evaluations

Every run that the evaluator returns is put together from the runs of its parts
in one of a few ways. A property of runs that survives each of them holds of
every evaluation, whatever the script, the parser and the host.
-/
namespace Star9.Rc
open Base Prog

/-- A simple command of a script: one that ran to its end, with what it returned,
or one that only began (a function call, whose body follows it, or a command run in
the background). -/
inductive RcEvent where
  | ran (out : RcOutput)
  | began
  deriving DecidableEq, Repr

namespace RcTrace

/-- The simple commands of a run in the order in which they were executed. -/
def events : RcTrace → List RcEvent
  | nothing => []
  | ran out => [.ran out]
  | call body => .began :: body.events
  | fed process command => process.events ++ command.events
  | sunk command process _ => command.events ++ process.events
  | seq earlier next => earlier.events ++ next.events
  | andRight left right => left.events ++ right.events
  | orRight left right => left.events ++ right.events
  | negated inner => inner.events
  | branch condition taken => condition.events ++ taken.events
  | noBranch condition => condition.events
  | forRound earlier body => earlier.events ++ body.events
  | whileRound earlier condition body => earlier.events ++ condition.events ++ body.events
  | whileEnd earlier condition => earlier.events ++ condition.events
  | limited earlier => earlier.events
  | piped left _ right => left.events ++ right.events
  | hosted out => [.ran out]
  | background inner => inner.events.map fun _ => .began
  | redirected command => command.events

end RcTrace

/-- The ways in which the evaluator makes a run out of others. `U` is what is
known of a command between its redirections. -/
structure RunRules (V U : RcRun → Prop) : Prop where
  nothing : V .default
  command : ∀ out, V (.ofCommand out)
  hosted : ∀ out : RcOutput, V { out with trace := .hosted out }
  call : ∀ r, V r → V { r with trace := .call r.trace }
  seq : ∀ r next, V r → V next → r.exited = false → V (r.append next .seq)
  andRight : ∀ l r, V l → V r → V { r with stderr := l.stderr ++ r.stderr, trace := .andRight l.trace r.trace }
  orRight : ∀ l r, V l → V r → V { r with stderr := l.stderr ++ r.stderr, trace := .orRight l.trace r.trace }
  negated : ∀ r, V r → V { r with status := r.status.invert, trace := .negated r.trace }
  branch : ∀ c r, V c → V r → V { r with trace := .branch c.trace r.trace }
  noBranch : ∀ c, V c →
    V { status := .success, stdout := "", stderr := c.stderr, exited := false, trace := .noBranch c.trace }
  forRound : ∀ r next, V r → V next → V (r.append next .forRound)
  whileRound : ∀ r c next, V r → V c → V next →
    V (r.append next fun earlier body => .whileRound earlier c.trace body)
  whileEnd : ∀ r c, V r → V c → V { r with trace := .whileEnd r.trace c.trace }
  limited : ∀ r, V r →
    V { RcOutput.failure "loop" "rc: while loop iteration limit exceeded\n" with trace := .limited r.trace }
  piped : ∀ l r stdout stderr, V l → V r →
    V { status := .pipeline l.status r.status, stdout, stderr, exited := r.exited,
        trace := .piped l.trace l.status r.trace }
  background : ∀ out trace, V { RcOutput.success out with trace := .background trace }
  open_ : ∀ r, V r → U r
  streams : ∀ r stdout stderr, U r → U { r with stdout, stderr }
  sunk : ∀ r next stdout stderr, U r → V next →
    U { status := next.status, stdout, stderr, exited := r.exited || next.exited,
        trace := .sunk r.trace next.trace next.status }
  sinkFailure : ∀ r stderr, U r →
    U { r with status := .failure, stderr, trace := .sunk r.trace .nothing .failure }
  redirected : ∀ r reads, U r → V { r with trace := .redirected (.fed reads r.trace) }

section
variable {H : Type} {parse : String → Except RcError Script} {host : RcHost H}
variable {ev : Node → String → RcM H RcRun} {V U : RcRun → Prop}

/-- The sinks of a command without redirections hand its output on. -/
theorem applyOutputSinks_default (out : RcRun) :
    applyOutputSinks parse host ev out .default = pure (out, none) := by
  have h1 : FdSinks.default[1]? = some .stdout := by
    simp only [FdSinks.default, Std.ExtTreeMap.getElem?_insert]
    rfl
  have h2 : FdSinks.default[2]? = some .stderr := by simp [FdSinks.default]
  obtain ⟨⟨status, stdout, stderr, exited⟩, trace⟩ := out
  funext s
  unfold applyOutputSinks applyFdSink
  by_cases ho : stdout = "" <;> by_cases he : stderr = "" <;> simp [ho, he, h1, h2, bind_apply]

section Parts
variable (rules : RunRules V U) (hev : ∀ node input, Returns V (ev node input))
include rules hev

theorem evalNodesFrom_returns (nodes : List Node) (input : String) (out : RcRun) (hout : V out)
    (hrun : out.exited = false) : Returns V (evalNodesFrom ev nodes input out) := by
  induction nodes generalizing input out with
  | nil => exact returns_pure hout
  | cons node nodes ih =>
    refine returns_then (hev node input) ?_
    intro next hnext
    have happend := rules.seq out next hout hnext hrun
    cases hex : next.exited with
    | true => exact returns_pure happend
    | false => exact ih "" _ happend hex

theorem evalNodes_returns (nodes : List Node) (input : String) : Returns V (evalNodes ev nodes input) :=
  evalNodesFrom_returns rules hev nodes input .default rules.nothing rfl

theorem evalScript_returns (script : Script) (input : String) :
    Returns V (evalScript host ev script input) := by
  refine returns_then (evalNodes_returns rules hev script.commands input) ?_
  intro out hout
  exact returns_bind fun _ => returns_bind fun _ => returns_pure hout

omit rules in
theorem runFunction_returns (body : Node) (args : List String) (input : String) :
    Returns V (runFunction host ev body args input) := by
  refine returns_bind fun s => ?_
  refine returns_bind fun _ => ?_
  refine returns_then (hev body input) ?_
  intro out hout
  exact returns_bind fun _ => returns_pure hout

theorem runCommandWords_returns (command : String) (args : List String) (input : String) :
    Returns V (runCommandWords parse host ev command args input) := by
  refine returns_bind fun s => ?_
  split
  · refine returns_then (runFunction_returns hev _ args input) ?_
    intro out hout
    exact returns_pure (rules.call out hout)
  · refine returns_bind fun builtin => ?_
    split
    · exact returns_pure (rules.command _)
    · refine returns_bind fun found => ?_
      split
      · exact returns_pure (rules.command _)
      · exact returns_bind fun out => returns_pure (rules.command out)

theorem writeProcess_returns (node : Node) (data : String) (fd : Nat) :
    Returns V (writeProcess parse host ev node data fd) := by
  refine returns_bind fun offered => ?_
  split
  · exact returns_pure (rules.hosted _)
  · exact hev node data

theorem applyFdSink_returns (fd : Nat) (data : String) (sinks : FdSinks) (out : RcRun) (hout : U out) :
    Returns (fun r => U r.1) (applyFdSink parse host ev fd data sinks out) := by
  unfold applyFdSink
  refine returns_ite (returns_pure hout) ?_
  split
  · exact returns_pure (rules.streams out _ _ hout)
  · exact returns_pure (rules.streams out _ _ hout)
  · exact returns_pure hout
  · refine returns_bind fun written => ?_
    split
    · exact returns_pure hout
    · exact returns_pure hout
  · refine returns_then (writeProcess_returns rules hev _ _ _) ?_
    intro next hnext
    exact returns_bind fun _ => returns_pure (rules.sunk out next _ _ hout hnext)

theorem applyOutputSinks_returns (out : RcRun) (sinks : FdSinks) (hout : U out) :
    Returns (fun r => U r.1) (applyOutputSinks parse host ev out sinks) := by
  refine returns_then (applyFdSink_returns rules hev 1 _ sinks _ (rules.streams out "" "" hout)) ?_
  rintro ⟨first, err⟩ hfirst
  cases err with
  | some err => exact returns_pure hfirst
  | none => exact applyFdSink_returns rules hev 2 _ sinks first hfirst

omit hev in
theorem sinkFailure_of_open (out : RcRun) (err : Option RcError) (hout : U out) : U (sinkFailure out err) := by
  cases err with
  | none => exact hout
  | some err => exact rules.sinkFailure out _ hout

theorem finishSimple_returns (out : RcRun) (sinks : FdSinks) (restore : List (String × Option (List String)))
    (hout : V out) : Returns U (finishSimple parse host ev out sinks restore) := by
  refine returns_bind fun _ => ?_
  refine returns_then (applyOutputSinks_returns rules hev out sinks (rules.open_ out hout)) ?_
  rintro ⟨sunk, err⟩ hsunk
  have hdone := sinkFailure_of_open rules sunk err hsunk
  exact returns_bind fun _ => returns_bind fun _ => returns_bind fun _ => returns_pure hdone

omit rules hev in
theorem finishSimple_default_returns (out : RcRun) (restore : List (String × Option (List String)))
    (hout : V out) : Returns V (finishSimple parse host ev out .default restore) := by
  refine returns_bind fun _ => ?_
  rw [applyOutputSinks_default]
  refine returns_then (V := fun r => r = (out, none)) (returns_pure rfl) ?_
  rintro _ rfl
  exact returns_bind fun _ => returns_bind fun _ => returns_bind fun _ => returns_pure hout

theorem evalCommand_returns (simple : SimpleCommand) (st : RedirectState)
    (restore : List (String × Option (List String))) :
    Returns U (evalCommand parse host ev simple st restore) := by
  refine returns_bind fun words => ?_
  cases words with
  | nil => exact returns_bind fun _ => returns_pure (rules.open_ _ (rules.command _))
  | cons command args =>
    refine returns_then (runCommandWords_returns rules hev command args st.input) ?_
    intro out hout
    exact finishSimple_returns rules hev out st.sinks restore hout

theorem evalCommand_default_returns (simple : SimpleCommand) (input : String) (reads : RcTrace)
    (restore : List (String × Option (List String))) :
    Returns V (evalCommand parse host ev simple { input, sinks := .default, reads } restore) := by
  refine returns_bind fun words => ?_
  cases words with
  | nil => exact returns_bind fun _ => returns_pure (rules.command _)
  | cons command args =>
    refine returns_then (runCommandWords_returns rules hev command args input) ?_
    intro out hout
    exact finishSimple_default_returns out restore hout

theorem evalRedirected_returns (simple : SimpleCommand) (input : String)
    (restore : List (String × Option (List String))) :
    Returns V (evalRedirected parse host ev simple input restore) := by
  refine returns_bind ?_
  rintro ⟨st, err⟩
  cases err with
  | some err =>
    exact returns_pure (rules.redirected _ st.reads (rules.open_ _ (rules.command _)))
  | none =>
    refine returns_then (evalCommand_returns rules hev simple st restore) ?_
    intro out hout
    exact returns_pure (rules.redirected out st.reads hout)

theorem evalSimple_returns (simple : SimpleCommand) (input : String) :
    Returns V (evalSimple parse host ev simple input) := by
  refine returns_bind fun values => ?_
  refine returns_ite ?_ ?_
  · exact returns_bind fun _ => returns_bind fun _ => returns_pure (rules.command _)
  · refine returns_bind fun s => ?_
    refine returns_bind fun _ => ?_
    refine returns_ite ?_ ?_
    · exact evalCommand_default_returns rules hev simple input .nothing _
    · exact evalRedirected_returns rules hev simple input _

theorem evalPipe_returns (left right : Node) (spec : Option PipeSpec) (input : String) :
    Returns V (evalPipe parse host ev left right spec input) := by
  refine returns_bind fun offered => ?_
  split
  · exact returns_pure (rules.hosted _)
  · refine returns_bind fun graph => ?_
    refine returns_then (hev left input) ?_
    intro l hl
    refine returns_then (hev right _) ?_
    intro r hr
    exact returns_bind fun _ => returns_pure (rules.piped l r _ _ hl hr)

omit hev in
theorem evalBackground_returns (inner : Node) (input : String) :
    Returns V (evalBackground parse host ev inner input) := by
  refine returns_bind fun s => ?_
  refine returns_bind fun _ => ?_
  refine returns_bind fun started => ?_
  refine returns_ite ?_ ?_
  · exact returns_pure (rules.background _ _)
  · refine returns_bind fun graph => ?_
    refine returns_bind fun out => ?_
    exact returns_bind fun _ => returns_bind fun _ => returns_pure (rules.background _ _)

theorem evalIf_returns (condition thenBranch : Node) (elseBranch : Option Node) (input : String) :
    Returns V (evalIf ev condition thenBranch elseBranch input) := by
  refine returns_then (hev condition input) ?_
  intro cond hcond
  have htaken : ∀ node, Returns V (do
      let out ← ev node ""
      pure { out with trace := .branch cond.trace out.trace }) := by
    intro node
    refine returns_then (hev node "") ?_
    intro out hout
    exact returns_pure (rules.branch cond out hcond hout)
  refine returns_ite (htaken thenBranch) ?_
  cases elseBranch with
  | some elseBranch => exact htaken elseBranch
  | none => exact returns_pure (rules.noBranch cond hcond)

theorem forRounds_returns (var : String) (body : Node) (values : List String) (out : RcRun) (hout : V out) :
    Returns V (forRounds ev var body values out) := by
  induction values generalizing out with
  | nil => exact returns_pure hout
  | cons value values ih =>
    refine returns_bind fun _ => ?_
    refine returns_then (hev body "") ?_
    intro next hnext
    exact ih _ (rules.forRound out next hout hnext)

theorem evalFor_returns (var : String) (values : List Word) (body : Node) :
    Returns V (evalFor parse host ev var values body) := by
  refine returns_bind fun expanded => ?_
  refine returns_bind fun s => ?_
  refine returns_then (forRounds_returns rules hev var body expanded .default rules.nothing) ?_
  intro out hout
  exact returns_bind fun _ => returns_pure hout

theorem whileRounds_returns (condition body : Node) (rounds : Nat) (out : RcRun) (hout : V out) :
    Returns V (whileRounds ev condition body rounds out) := by
  induction rounds generalizing out with
  | zero => exact returns_pure (rules.limited out hout)
  | succ rounds ih =>
    refine returns_then (hev condition "") ?_
    intro cond hcond
    refine returns_ite ?_ ?_
    · refine returns_then (hev body "") ?_
      intro next hnext
      exact ih _ (rules.whileRound out cond next hout hcond hnext)
    · exact returns_pure (rules.whileEnd out cond hout hcond)

theorem switchCases_returns (value input : String) (cases : List SwitchCase) :
    Returns V (switchCases parse host ev value input cases) := by
  induction cases with
  | nil => exact returns_pure rules.nothing
  | cons case cases ih =>
    refine returns_bind fun patterns => ?_
    exact returns_ite (evalNodes_returns rules hev case.body input) ih

theorem evalStep_returns (node : Node) (input : String) : Returns V (evalStep parse host ev node input) := by
  cases node with
  | empty => exact returns_pure rules.nothing
  | simple command => exact evalSimple_returns rules hev command input
  | block nodes => exact evalNodes_returns rules hev nodes input
  | sequence nodes => exact evalNodes_returns rules hev nodes input
  | and left right =>
    refine returns_then (hev left input) ?_
    intro l hl
    refine returns_ite ?_ (returns_pure hl)
    refine returns_then (hev right "") ?_
    intro r hr
    exact returns_pure (rules.andRight l r hl hr)
  | or left right =>
    refine returns_then (hev left input) ?_
    intro l hl
    refine returns_ite (returns_pure hl) ?_
    refine returns_then (hev right "") ?_
    intro r hr
    exact returns_pure (rules.orRight l r hl hr)
  | pipe left right spec => exact evalPipe_returns rules hev left right spec input
  | not inner =>
    refine returns_then (hev inner input) ?_
    intro out hout
    exact returns_pure (rules.negated out hout)
  | background inner => exact evalBackground_returns rules inner input
  | ite condition thenBranch elseBranch => exact evalIf_returns rules hev condition thenBranch elseBranch input
  | «for» var values body => exact evalFor_returns rules hev var values body
  | «while» condition body =>
    exact whileRounds_returns rules hev condition body loopLimit .default rules.nothing
  | switch value cases => exact returns_bind fun _ => switchCases_returns rules hev _ input cases
  | function name body => exact returns_bind fun _ => returns_pure rules.nothing

end Parts

theorem evalNode_returns (rules : RunRules V U) (depth : Nat) (node : Node) (input : String) :
    Returns V (evalNode parse host depth node input) := by
  induction depth generalizing node input with
  | zero => exact returns_abort
  | succ depth ih => exact evalStep_returns rules ih node input

/-- A property that the evaluator's constructions keep holds of the run of every script. -/
theorem runScript_returns (rules : RunRules V U) (depth : Nat) (script : Script) (input : String) :
    Returns V (runScript parse host depth script input) :=
  evalScript_returns rules (evalNode_returns rules depth) script input

end

end Star9.Rc
