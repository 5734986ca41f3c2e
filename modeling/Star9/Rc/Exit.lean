import Star9.Rc.Rules

/-!
# Whether an exit stops the script

A command that returns an exited output should be the last simple command of the
script, and the script should return its status. Each construct looks at the
flag of its parts on its own: lists stop at it, the others either hand it on or
go on as if nothing had happened. `passed` follows the flag and the status
through the constructs; the script stops exactly when both arrive.
-/
namespace Star9.Rc
open Base Prog

namespace RcEvent

def exits : RcEvent → Bool
  | ran out => out.exited
  | began => false

end RcEvent

namespace RcTrace

/-- Some simple command of the run returned an exited output. -/
def exits (t : RcTrace) : Bool := t.events.any RcEvent.exits

/-- The status with which an exit leaves the run, when nothing in it goes on after
the exit or drops its flag. -/
def passed : RcTrace → Option RcStatus
  | nothing => none
  | ran out => if out.exited then some out.status else none
  | hosted out => if out.exited then some out.status else none
  | call body => body.passed
  | redirected command => command.passed
  | fed process command => if process.exits then none else command.passed
  | sunk command process status =>
    if command.exits then if process.events = [] ∧ command.passed.isSome then some status else none
    else process.passed
  | seq earlier next => if earlier.exits then none else next.passed
  | andRight left right => if left.exits then none else right.passed
  | orRight left right => if left.exits then none else right.passed
  | negated inner => inner.passed.map RcStatus.invert
  | branch condition taken => if condition.exits then none else taken.passed
  | noBranch _ => none
  | forRound earlier body => if earlier.exits then none else body.passed
  | whileRound earlier condition body => if earlier.exits || condition.exits then none else body.passed
  | whileEnd earlier condition => if condition.events = [] then earlier.passed else none
  | limited _ => none
  | piped left status right => if left.exits then none else right.passed.map (RcStatus.pipeline status)
  | background _ => none

/-- No command exited, or the first exit arrives with its own status. -/
def heeded (t : RcTrace) : Bool :=
  match t.events.find? RcEvent.exits with
  | some (.ran out) => t.passed = some out.status
  | _ => true

end RcTrace

/-- After a command with an exited output no simple command is executed, and the
run returns the flag and the status of that output. -/
def StopsAtExit (r : RcRun) : Prop :=
  ∀ before out after, r.trace.events = before ++ .ran out :: after → out.exited = true →
    after = [] ∧ r.exited = true ∧ r.status = out.status

/-- The same without the status. -/
def FlagStops (events : List RcEvent) (exited : Bool) : Prop :=
  ∀ before e after, events = before ++ e :: after → e.exits = true → after = [] ∧ exited = true

/-- The only exit is the last event. -/
def EndsAtExit (events : List RcEvent) : Prop :=
  ∃ before out, events = before ++ [.ran out] ∧ out.exited = true ∧ before.any RcEvent.exits = false

theorem any_exits_iff {events : List RcEvent} :
    events.any RcEvent.exits = true ↔ ∃ before e after, events = before ++ e :: after ∧ e.exits = true := by
  rw [List.any_eq_true]
  constructor
  · rintro ⟨e, hmem, he⟩
    obtain ⟨before, after, rfl⟩ := List.append_of_mem hmem
    exact ⟨before, e, after, rfl, he⟩
  · rintro ⟨before, e, after, rfl, he⟩
    exact ⟨e, by simp, he⟩

/-- After events without an exit, the run stops as its second part does. -/
theorem EndsAtExit.append {a b : List RcEvent} (ha : a.any RcEvent.exits = false) (hb : EndsAtExit b) :
    EndsAtExit (a ++ b) := by
  obtain ⟨before, out, rfl, hout, hbefore⟩ := hb
  refine ⟨a ++ before, out, by simp, hout, ?_⟩
  rw [List.any_append, ha, hbefore]
  rfl

/-- An exit in the first part leaves no event for the second. -/
theorem FlagStops.right_nil {a b : List RcEvent} {exited : Bool} (h : FlagStops (a ++ b) exited)
    (ha : a.any RcEvent.exits = true) : b = [] ∧ exited = true := by
  obtain ⟨before, e, after, rfl, he⟩ := any_exits_iff.mp ha
  have hstop := h before e (after ++ b) (by simp) he
  exact ⟨(List.append_eq_nil_iff.mp hstop.1).2, hstop.2⟩

theorem FlagStops.right {a b : List RcEvent} {exited : Bool} (h : FlagStops (a ++ b) exited) :
    FlagStops b exited := by
  rintro before e after rfl he
  exact h (a ++ before) e after (by simp) he

/-- What is known of every run: the flag comes from an exit, an exit that is handed on
is reported as it was, and an exit that stops the run is handed on. -/
structure Tracked (r : RcRun) : Prop where
  flag : r.exited = true → r.trace.exits = true
  passed : ∀ st, r.trace.passed = some st → r.exited = true ∧ r.status = st ∧ EndsAtExit r.trace.events
  stops : r.trace.exits = true → FlagStops r.trace.events r.exited → r.trace.passed.isSome = true

namespace Tracked

theorem not_exited {r : RcRun} (h : Tracked r) (hex : r.trace.exits = false) : r.exited = false := by
  rw [← Bool.not_eq_true] at hex ⊢
  exact fun hr => hex (h.flag hr)

theorem not_exited_of_events {r : RcRun} (h : Tracked r) (hev : r.trace.events = []) : r.exited = false :=
  h.not_exited (by simp [RcTrace.exits, hev])

/-- A part `l` that ran before, whose flag the construct does not look at, and a last
part `r` whose flag it returns, with its status mapped by `f`. -/
theorem after {r run : RcRun} (hr : Tracked r) (l : RcTrace) (f : RcStatus → RcStatus)
    (hev : run.trace.events = l.events ++ r.trace.events) (hexited : run.exited = r.exited)
    (hstatus : run.status = f r.status)
    (hpassed : run.trace.passed = if l.exits then none else r.trace.passed.map f) : Tracked run where
  flag h := by
    have hex := hr.flag (hexited ▸ h)
    simp only [RcTrace.exits] at hex ⊢
    rw [hev, List.any_append, hex, Bool.or_true]
  passed st h := by
    rw [hpassed] at h
    cases hl : l.exits with
    | true => simp [hl] at h
    | false =>
      simp only [hl, Bool.false_eq_true, if_false, Option.map_eq_some_iff] at h
      obtain ⟨st', hst', rfl⟩ := h
      obtain ⟨hex, hst, hend⟩ := hr.passed st' hst'
      rw [hexited, hstatus, hst, hev]
      exact ⟨hex, rfl, hend.append hl⟩
  stops hex hstop := by
    rw [hev] at hstop
    have hl : l.exits = false := by
      rw [← Bool.not_eq_true]
      intro hl
      obtain ⟨hnil, hrun⟩ := hstop.right_nil hl
      rw [hexited, hr.not_exited_of_events hnil] at hrun
      cases hrun
    have hrex : r.trace.exits = true := by
      simp only [RcTrace.exits] at hex hl ⊢
      rw [hev, List.any_append, hl, Bool.false_or] at hex
      exact hex
    have hsome := hr.stops hrex (hexited ▸ hstop.right)
    rw [hpassed, hl]
    simpa using hsome

/-- A construct that returns no flag hands no exit on. -/
theorem of_not_exited {run : RcRun} (hexited : run.exited = false) (hpassed : run.trace.passed = none) :
    Tracked run where
  flag h := by simp [hexited] at h
  passed st h := by simp [hpassed] at h
  stops hex hstop := by
    obtain ⟨before, e, after, heq, he⟩ := any_exits_iff.mp hex
    have hflag := (hstop before e after heq he).2
    simp [hexited] at hflag

/-- One command by itself. -/
theorem of_command {run : RcRun} (out : RcOutput) (hout : run.toRcOutput = out)
    (hev : run.trace.events = [.ran out])
    (hpassed : run.trace.passed = if out.exited then some out.status else none) : Tracked run where
  flag h := by
    simp only [RcTrace.exits, hev, List.any_cons, List.any_nil, Bool.or_false, RcEvent.exits]
    rw [← hout]
    exact h
  passed st h := by
    rw [hpassed] at h
    split at h
    · rename_i hex
      cases h
      rw [hev]
      exact ⟨by rw [hout]; exact hex, by rw [hout], [], out, rfl, hex, rfl⟩
    · cases h
  stops hex _ := by
    have hout : out.exited = true := by simpa [RcTrace.exits, hev, RcEvent.exits] using hex
    rw [hpassed, hout]
    rfl

/-- The last condition of a `while` runs after the rounds, whose flag is returned. -/
theorem whileEnd {r c : RcRun} (hr : Tracked r) :
    Tracked { r with trace := .whileEnd r.trace c.trace } where
  flag h := by
    have hex := hr.flag h
    simp only [RcTrace.exits, RcTrace.events, List.any_append] at hex ⊢
    rw [hex, Bool.true_or]
  passed st h := by
    simp only [RcTrace.passed] at h
    split at h
    · rename_i hnil
      obtain ⟨hex, hst, hend⟩ := hr.passed st h
      refine ⟨hex, hst, ?_⟩
      simpa [RcTrace.events, hnil] using hend
    · cases h
  stops hex hstop := by
    simp only [RcTrace.events] at hstop
    have hrex : r.trace.exits = true := by
      by_contra hno
      rw [Bool.not_eq_true] at hno
      obtain ⟨before, e, after, heq, he⟩ := any_exits_iff.mp hex
      have hflag : r.exited = true := (hstop before e after heq he).2
      rw [hr.not_exited hno] at hflag
      cases hflag
    have hnil := (hstop.right_nil hrex).1
    rw [hnil, List.append_nil] at hstop
    simpa [RcTrace.passed, hnil] using hr.stops hrex hstop

/-- A process sink runs after the command; the flags of both count. -/
theorem sunk {r next : RcRun} (hr : Tracked r) (stdout stderr : String) (hnext : Tracked next) :
    Tracked { status := next.status, stdout, stderr, exited := r.exited || next.exited,
              trace := .sunk r.trace next.trace next.status } := by
  cases hrex : r.trace.exits with
  | false =>
    have hflag : r.exited = false := hr.not_exited hrex
    refine hnext.after r.trace id rfl ?_ rfl ?_
    · simp [hflag]
    · simp [RcTrace.passed, hrex]
  | true =>
    constructor
    · intro _
      simp only [RcTrace.exits, RcTrace.events, List.any_append] at hrex ⊢
      rw [hrex, Bool.true_or]
    · intro st h
      simp only [RcTrace.passed, hrex, if_true] at h
      split at h
      · rename_i hboth
        cases h
        obtain ⟨st', hst'⟩ := Option.isSome_iff_exists.mp hboth.2
        obtain ⟨hex, -, hend⟩ := hr.passed st' hst'
        refine ⟨by simp [hex], rfl, ?_⟩
        simpa [RcTrace.events, hboth.1] using hend
      · cases h
    · intro _ hstop
      simp only [RcTrace.events] at hstop
      have hnil := (hstop.right_nil hrex).1
      rw [hnil, List.append_nil, hnext.not_exited_of_events hnil, Bool.or_false] at hstop
      have hsome := hr.stops hrex hstop
      simp [RcTrace.passed, hrex, hnil, hsome]

end Tracked

theorem tracked_rules : RunRules Tracked Tracked where
  nothing := .of_not_exited rfl rfl
  command out := .of_command out rfl rfl rfl
  hosted out := .of_command out rfl rfl rfl
  call r hr := hr.after (.call .nothing) id rfl rfl rfl
    (by simp [RcTrace.passed, RcTrace.exits, RcTrace.events, RcEvent.exits])
  seq r next _ hnext _ := hnext.after r.trace id rfl rfl rfl (by simp [RcRun.append, RcTrace.passed])
  andRight l r _ hr := hr.after l.trace id rfl rfl rfl (by simp [RcTrace.passed])
  orRight l r _ hr := hr.after l.trace id rfl rfl rfl (by simp [RcTrace.passed])
  negated r hr := hr.after .nothing RcStatus.invert rfl rfl rfl rfl
  branch c r _ hr := hr.after c.trace id rfl rfl rfl (by simp [RcTrace.passed])
  noBranch c _ := .of_not_exited rfl rfl
  forRound r next _ hnext := hnext.after r.trace id rfl rfl rfl (by simp [RcRun.append, RcTrace.passed])
  whileRound r c next _ _ hnext :=
    hnext.after (.seq r.trace c.trace) id rfl rfl rfl
      (by simp [RcRun.append, RcTrace.passed, RcTrace.exits, RcTrace.events])
  whileEnd r c hr _ := hr.whileEnd
  limited r _ := .of_not_exited rfl rfl
  piped l r stdout stderr _ hr := hr.after l.trace (.pipeline l.status) rfl rfl rfl rfl
  background out trace := .of_not_exited rfl rfl
  open_ _ hr := hr
  streams r stdout stderr hr := ⟨hr.flag, hr.passed, hr.stops⟩
  sunk r next stdout stderr hr hnext := hr.sunk stdout stderr hnext
  sinkFailure r stderr hr := by
    have hfail : Tracked { status := .failure, stdout := "", stderr := "", exited := false, trace := .nothing } :=
      .of_not_exited rfl rfl
    simpa using hr.sunk r.stdout stderr hfail
  redirected r reads hr := hr.after reads id rfl rfl rfl (by simp [RcTrace.passed])

theorem StopsAtExit.flagStops {r : RcRun} (h : StopsAtExit r) : FlagStops r.trace.events r.exited := by
  intro before e after heq he
  cases e with
  | ran out =>
    obtain ⟨hafter, hexited, -⟩ := h before out after heq he
    exact ⟨hafter, hexited⟩
  | began => cases he

/-- An exit of a run that ends at its only exit is that one. -/
theorem EndsAtExit.eq_last {events before after : List RcEvent} {out : RcOutput} (h : EndsAtExit events)
    (heq : events = before ++ .ran out :: after) (hout : out.exited = true) :
    after = [] ∧ events.find? RcEvent.exits = some (.ran out) := by
  obtain ⟨init, last, rfl, hlast, hinit⟩ := h
  have hnone : init.find? RcEvent.exits = none := by
    rw [List.find?_eq_none]
    intro e he
    rw [List.any_eq_false] at hinit
    exact hinit e he
  rcases after.eq_nil_or_concat with rfl | ⟨after', e, rfl⟩
  · have hpair := List.append_inj' heq rfl
    obtain ⟨rfl, hsingle⟩ := hpair
    cases hsingle
    refine ⟨rfl, ?_⟩
    simp [List.find?_append, hnone, RcEvent.exits, hout]
  · rw [List.concat_eq_append, ← List.cons_append, ← List.append_assoc] at heq
    obtain ⟨rfl, -⟩ := List.append_inj' heq rfl
    rw [List.any_eq_false] at hinit
    exact absurd hout (hinit (.ran out) (by simp))

theorem Tracked.stopsAtExit_iff {r : RcRun} (hr : Tracked r) : StopsAtExit r ↔ r.trace.heeded = true := by
  constructor
  · intro h
    unfold RcTrace.heeded
    cases hfind : r.trace.events.find? RcEvent.exits with
    | none => rfl
    | some e =>
      cases e with
      | began => rfl
      | ran out =>
        obtain ⟨hout, before, after, heq, -⟩ := List.find?_eq_some_iff_append.mp hfind
        have hex : r.trace.exits = true := any_exits_iff.mpr ⟨before, .ran out, after, heq, hout⟩
        obtain ⟨st, hst⟩ := Option.isSome_iff_exists.mp (hr.stops hex h.flagStops)
        have hstatus := (hr.passed st hst).2.1
        rw [(h before out after heq hout).2.2] at hstatus
        simp [hst, hstatus]
  · intro h before out after heq hout
    unfold RcTrace.heeded at h
    have hex : r.trace.exits = true := any_exits_iff.mpr ⟨before, .ran out, after, heq, hout⟩
    obtain ⟨e, hfind⟩ : ∃ e, r.trace.events.find? RcEvent.exits = some e := by
      rw [← Option.isSome_iff_exists, List.find?_isSome]
      exact List.any_eq_true.mp hex
    rw [hfind] at h
    cases e with
    | began => cases List.find?_some hfind
    | ran first =>
      have hpassed : r.trace.passed = some first.status := by simpa using h
      obtain ⟨hexited, hstatus, hend⟩ := hr.passed _ hpassed
      obtain ⟨hafter, hlast⟩ := hend.eq_last heq hout
      rw [hfind] at hlast
      cases hlast
      exact ⟨hafter, hexited, hstatus⟩

/-- An evaluated script stops at its first exit, with the flag and the status of that
exit, exactly when no construct around the exit goes on or changes them: the exit is not
in a condition, on the left of an `&&`, `||` or pipe that went on, in a `for` or `while`
round that another one followed, or under a `!`, a pipe or a sink that gives the script
another status. -/
theorem runScript_exit {H : Type} (parse : String → Except RcError Script) (host : RcHost H) (depth : Nat)
    (script : Script) (input : String) (s : RcSession H) (run : RcRun)
    (h : (runScript parse host depth script input s).1 = .ok run) :
    StopsAtExit run ↔ run.trace.heeded = true :=
  Tracked.stopsAtExit_iff (runScript_returns tracked_rules depth script input s run h)

def exitOutput (status : String) : RcOutput := { RcOutput.default with status := ⟨status⟩, exited := true }

/-- `first; exit done; second`. -/
def stoppingScript : Script := ⟨[.ofWords ["first"], .ofWords ["exit", "done"], .ofWords ["second"]]⟩

def stoppingRun : RcRun :=
  { status := ⟨"done"⟩, stdout := "first\n", stderr := "", exited := true,
    trace := .seq (.seq .nothing (.ran (namedOutput "first"))) (.ran (exitOutput "done")) }

theorem runScript_exit_stoppingScript :
    (runScript noParse .naming 2 stoppingScript "" (.fresh ())).1 = .ok stoppingRun ∧
      StopsAtExit stoppingRun := by
  have hrun : (runScript noParse .naming 2 stoppingScript "" (.fresh ())).1 = .ok stoppingRun := by
    decide +kernel
  exact ⟨hrun, (runScript_exit noParse .naming 2 stoppingScript "" (.fresh ()) stoppingRun hrun).mpr (by decide)⟩

/-- `exit && first`: the exit succeeds, so `first` runs and the script does not exit. -/
def missedScript : Script := ⟨[.and (.ofWords ["exit"]) (.ofWords ["first"])]⟩

def missedRun : RcRun :=
  { namedOutput "first" with
    trace := .seq .nothing (.andRight (.ran (exitOutput "")) (.ran (namedOutput "first"))) }

theorem runScript_exit_missedScript :
    ¬ ∀ (H : Type) (parse : String → Except RcError Script) (host : RcHost H) (depth : Nat) (script : Script)
      (input : String) (s : RcSession H) (run : RcRun),
      (runScript parse host depth script input s).1 = .ok run → StopsAtExit run := by
  intro hall
  have hrun : (runScript noParse .naming 2 missedScript "" (.fresh ())).1 = .ok missedRun := by decide +kernel
  have hstops := hall Unit noParse .naming 2 missedScript "" (.fresh ()) missedRun hrun
  have hnil := (hstops [] (exitOutput "") [.ran (namedOutput "first")] rfl rfl).1
  cases hnil

end Star9.Rc
