import Star9.Rc.Rules

/-!
# What the output of a script holds of its commands

A script without pipes, redirections and background commands should print what
its simple commands print, in the order in which they ran. The evaluator keeps
that order, but several constructs throw away a stream of a part they ran: `&&`
and `||` the standard output of their left side, `if` and `while` the output of
their condition. The output is complete exactly when nothing was thrown away.
-/
namespace Star9.Rc
open Base Prog

inductive Stream where
  | stdout
  | stderr
  deriving DecidableEq, Repr

def RcOutput.on (out : RcOutput) : Stream → String
  | .stdout => out.stdout
  | .stderr => out.stderr

/-- What a list of commands wrote, one after the other. -/
def written (stream : Stream) : List RcOutput → String
  | [] => ""
  | out :: outs => out.on stream ++ written stream outs

@[simp] theorem written_append (stream : Stream) (a b : List RcOutput) :
    written stream (a ++ b) = written stream a ++ written stream b := by
  induction a with
  | nil => simp [written]
  | cons out a ih => simp [written, ih, String.append_assoc]

theorem written_eq_empty {stream : Stream} {outs : List RcOutput} :
    written stream outs = "" ↔ ∀ out ∈ outs, out.on stream = "" := by
  induction outs with
  | nil => simp [written]
  | cons out outs ih => simp [written, ih]

namespace RcTrace

/-- The simple commands that ran, in order, each with what it returned. -/
def commands : RcTrace → List RcOutput
  | nothing => []
  | ran out => [out]
  | call body => body.commands
  | fed process command => process.commands ++ command.commands
  | sunk command process _ => command.commands ++ process.commands
  | seq earlier next => earlier.commands ++ next.commands
  | andRight left right => left.commands ++ right.commands
  | orRight left right => left.commands ++ right.commands
  | negated inner => inner.commands
  | branch condition taken => condition.commands ++ taken.commands
  | noBranch condition => condition.commands
  | forRound earlier body => earlier.commands ++ body.commands
  | whileRound earlier condition body => earlier.commands ++ condition.commands ++ body.commands
  | whileEnd earlier condition => earlier.commands ++ condition.commands
  | limited earlier => earlier.commands
  | piped left _ right => left.commands ++ right.commands
  | hosted out => [out]
  | background inner => inner.commands
  | redirected command => command.commands

/-- No pipe, background command or redirection was evaluated. -/
def plain : RcTrace → Bool
  | nothing => true
  | ran _ => true
  | call body => body.plain
  | seq earlier next => earlier.plain && next.plain
  | andRight left right => left.plain && right.plain
  | orRight left right => left.plain && right.plain
  | negated inner => inner.plain
  | branch condition taken => condition.plain && taken.plain
  | noBranch condition => condition.plain
  | forRound earlier body => earlier.plain && body.plain
  | whileRound earlier condition body => earlier.plain && condition.plain && body.plain
  | whileEnd earlier condition => earlier.plain && condition.plain
  | limited earlier => earlier.plain
  | fed _ _ => false
  | sunk _ _ _ => false
  | piped _ _ _ => false
  | hosted _ => false
  | background _ => false
  | redirected _ => false

/-- Some `while` was stopped by the round limit. -/
def stopped : RcTrace → Bool
  | nothing => false
  | ran _ => false
  | call body => body.stopped
  | fed process command => process.stopped || command.stopped
  | sunk command process _ => command.stopped || process.stopped
  | seq earlier next => earlier.stopped || next.stopped
  | andRight left right => left.stopped || right.stopped
  | orRight left right => left.stopped || right.stopped
  | negated inner => inner.stopped
  | branch condition taken => condition.stopped || taken.stopped
  | noBranch condition => condition.stopped
  | forRound earlier body => earlier.stopped || body.stopped
  | whileRound earlier condition body => earlier.stopped || condition.stopped || body.stopped
  | whileEnd earlier condition => earlier.stopped || condition.stopped
  | limited _ => true
  | piped left _ right => left.stopped || right.stopped
  | hosted _ => false
  | background inner => inner.stopped
  | redirected command => command.stopped

/-- The commands whose stream a construct threw away: those of the left side of an
`&&` or `||` that went on (standard output only), of a condition that a branch or a
round followed, of an `if` without a branch (standard output only), of the last
condition of a `while`, and all those of a `while` that reached its limit. -/
def lost (stream : Stream) : RcTrace → List RcOutput
  | call body => body.lost stream
  | seq earlier next => earlier.lost stream ++ next.lost stream
  | andRight left right =>
    (if stream = .stdout then left.commands else left.lost stream) ++ right.lost stream
  | orRight left right =>
    (if stream = .stdout then left.commands else left.lost stream) ++ right.lost stream
  | negated inner => inner.lost stream
  | branch condition taken => condition.commands ++ taken.lost stream
  | noBranch condition => if stream = .stdout then condition.commands else condition.lost stream
  | forRound earlier body => earlier.lost stream ++ body.lost stream
  | whileRound earlier condition body => earlier.lost stream ++ condition.commands ++ body.lost stream
  | whileEnd earlier condition => earlier.lost stream ++ condition.commands
  | limited earlier => earlier.commands
  | _ => []

/-- The stream that is left when the lost parts are taken out. -/
def kept (stream : Stream) : RcTrace → String
  | ran out => out.on stream
  | call body => body.kept stream
  | seq earlier next => earlier.kept stream ++ next.kept stream
  | andRight left right => (if stream = .stdout then "" else left.kept stream) ++ right.kept stream
  | orRight left right => (if stream = .stdout then "" else left.kept stream) ++ right.kept stream
  | negated inner => inner.kept stream
  | branch _ taken => taken.kept stream
  | noBranch condition => if stream = .stdout then "" else condition.kept stream
  | forRound earlier body => earlier.kept stream ++ body.kept stream
  | whileRound earlier _ body => earlier.kept stream ++ body.kept stream
  | whileEnd earlier _ => earlier.kept stream
  | _ => ""

/-- Nothing that a construct throws away was written on the stream, and no loop
added its own message to it. -/
def Quiet (stream : Stream) (t : RcTrace) : Prop :=
  (∀ out ∈ t.lost stream, out.on stream = "") ∧ (stream = .stderr → t.stopped = false)

instance (stream : Stream) (t : RcTrace) : Decidable (t.Quiet stream) :=
  inferInstanceAs (Decidable ((∀ out ∈ t.lost stream, out.on stream = "") ∧ (stream = .stderr → t.stopped = false)))

theorem length_written_commands (stream : Stream) (t : RcTrace) (h : t.plain = true) :
    (written stream t.commands).length = (t.kept stream).length + (written stream (t.lost stream)).length := by
  induction t with
  | nothing => simp [commands, kept, lost, written]
  | ran out => simp [commands, kept, lost, written]
  | call body ih => exact ih h
  | negated inner ih => exact ih h
  | limited earlier ih => simp [commands, kept, lost]
  | noBranch condition ih =>
    cases stream with
    | stdout => simp [commands, kept, lost]
    | stderr => exact ih h
  | seq earlier next ihe ihn =>
    simp only [plain, Bool.and_eq_true] at h
    simp only [commands, kept, lost, written_append, String.length_append, ihe h.1, ihn h.2]
    omega
  | forRound earlier body ihe ihb =>
    simp only [plain, Bool.and_eq_true] at h
    simp only [commands, kept, lost, written_append, String.length_append, ihe h.1, ihb h.2]
    omega
  | branch condition taken _ iht =>
    simp only [plain, Bool.and_eq_true] at h
    simp only [commands, kept, lost, written_append, String.length_append, iht h.2]
    omega
  | whileEnd earlier condition ihe _ =>
    simp only [plain, Bool.and_eq_true] at h
    simp only [commands, kept, lost, written_append, String.length_append, ihe h.1]
    omega
  | whileRound earlier condition body ihe _ ihb =>
    simp only [plain, Bool.and_eq_true] at h
    simp only [commands, kept, lost, written_append, String.length_append, ihe h.1.1, ihb h.2]
    omega
  | andRight left right ihl ihr | orRight left right ihl ihr =>
    simp only [plain, Bool.and_eq_true] at h
    cases stream with
    | stdout => simp [commands, kept, lost, ihr h.2]; omega
    | stderr => simp [commands, kept, lost, ihl h.1, ihr h.2]; omega
  | _ => cases h

theorem kept_eq_of_lost_empty (stream : Stream) (t : RcTrace) (h : t.plain = true)
    (hlost : ∀ out ∈ t.lost stream, out.on stream = "") : t.kept stream = written stream t.commands := by
  induction t with
  | nothing => rfl
  | ran out => simp [commands, kept, written]
  | call body ih => exact ih h hlost
  | negated inner ih => exact ih h hlost
  | limited earlier ih => exact (written_eq_empty.mpr hlost).symm
  | noBranch condition ih =>
    cases stream with
    | stdout => exact (written_eq_empty.mpr hlost).symm
    | stderr => exact ih h hlost
  | seq earlier next ihe ihn =>
    simp only [plain, Bool.and_eq_true] at h
    simp only [lost, List.forall_mem_append] at hlost
    simp only [commands, kept, written_append, ihe h.1 hlost.1, ihn h.2 hlost.2]
  | forRound earlier body ihe ihb =>
    simp only [plain, Bool.and_eq_true] at h
    simp only [lost, List.forall_mem_append] at hlost
    simp only [commands, kept, written_append, ihe h.1 hlost.1, ihb h.2 hlost.2]
  | branch condition taken _ iht =>
    simp only [plain, Bool.and_eq_true] at h
    simp only [lost, List.forall_mem_append] at hlost
    simp [commands, kept, iht h.2 hlost.2, written_eq_empty.mpr hlost.1]
  | whileEnd earlier condition ihe _ =>
    simp only [plain, Bool.and_eq_true] at h
    simp only [lost, List.forall_mem_append] at hlost
    simp [commands, kept, ihe h.1 hlost.1, written_eq_empty.mpr hlost.2]
  | whileRound earlier condition body ihe _ ihb =>
    simp only [plain, Bool.and_eq_true] at h
    simp only [lost, List.forall_mem_append] at hlost
    simp [commands, kept, ihe h.1.1 hlost.1.1, ihb h.2 hlost.2, written_eq_empty.mpr hlost.1.2]
  | andRight left right ihl ihr | orRight left right ihl ihr =>
    simp only [plain, Bool.and_eq_true] at h
    simp only [lost, List.forall_mem_append] at hlost
    cases stream with
    | stdout =>
      have hleft : written .stdout left.commands = "" := written_eq_empty.mpr hlost.1
      simp [commands, kept, ihr h.2 hlost.2, hleft]
    | stderr => simp [commands, kept, ihl h.1 hlost.1, ihr h.2 hlost.2]
  | _ => cases h

/-- What is left of a stream is all that was written exactly when nothing of it was lost. -/
theorem kept_eq_iff (stream : Stream) (t : RcTrace) (h : t.plain = true) :
    t.kept stream = written stream t.commands ↔ ∀ out ∈ t.lost stream, out.on stream = "" := by
  constructor
  · intro heq
    have hlength := length_written_commands stream t h
    rw [heq] at hlength
    have hzero : (written stream (t.lost stream)).length = 0 := by omega
    exact written_eq_empty.mp (String.length_eq_zero_iff.mp hzero)
  · exact kept_eq_of_lost_empty stream t h

end RcTrace

/-- The streams of a run are what its trace keeps, the message of a stopped loop apart. -/
def Shows (r : RcRun) : Prop :=
  r.trace.plain = true → ∀ stream, (stream = .stderr → r.trace.stopped = false) →
    r.toRcOutput.on stream = r.trace.kept stream

theorem shows_append {r next : RcRun} {join : RcTrace → RcTrace → RcTrace}
    (hplain : (join r.trace next.trace).plain = true → r.trace.plain = true ∧ next.trace.plain = true)
    (hstop : (join r.trace next.trace).stopped = false → r.trace.stopped = false ∧ next.trace.stopped = false)
    (hkept : ∀ stream, (join r.trace next.trace).kept stream = r.trace.kept stream ++ next.trace.kept stream)
    (hr : Shows r) (hnext : Shows next) : Shows (r.append next join) := by
  intro h stream hstream
  have hp := hplain h
  have h1 := hr hp.1 stream fun he => (hstop (hstream he)).1
  have h2 := hnext hp.2 stream fun he => (hstop (hstream he)).2
  have happend : (r.append next join).toRcOutput.on stream =
      r.toRcOutput.on stream ++ next.toRcOutput.on stream := by
    cases stream <;> rfl
  rw [happend, h1, h2]
  exact (hkept stream).symm

/-- The right side of an `&&` or `||` gets the standard error of the left one in front. -/
theorem shows_right {l r : RcRun} {join : RcTrace → RcTrace → RcTrace}
    (hplain : (join l.trace r.trace).plain = true → l.trace.plain = true ∧ r.trace.plain = true)
    (hstop : (join l.trace r.trace).stopped = false → l.trace.stopped = false ∧ r.trace.stopped = false)
    (hout : (join l.trace r.trace).kept .stdout = r.trace.kept .stdout)
    (herr : (join l.trace r.trace).kept .stderr = l.trace.kept .stderr ++ r.trace.kept .stderr)
    (hl : Shows l) (hr : Shows r) :
    Shows { r with stderr := l.stderr ++ r.stderr, trace := join l.trace r.trace } := by
  intro h stream hstream
  have hp := hplain h
  have h2 := hr hp.2 stream fun he => (hstop (hstream he)).2
  cases stream with
  | stdout => exact h2.trans hout.symm
  | stderr =>
    have h1 := hl hp.1 .stderr fun he => (hstop (hstream he)).1
    exact (congrArg₂ (· ++ ·) h1 h2).trans herr.symm

theorem shows_rules : RunRules Shows (fun _ => True) where
  nothing := by
    intro _ stream _
    cases stream <;> rfl
  command out := fun _ _ _ => rfl
  hosted out := fun h => by cases h
  call r hr := hr
  seq r next hr hnext _ :=
    shows_append (by simp [RcTrace.plain]) (by simp [RcTrace.stopped]) (fun _ => rfl) hr hnext
  andRight l r hl hr :=
    shows_right (by simp [RcTrace.plain]) (by simp [RcTrace.stopped]) (by simp [RcTrace.kept]) rfl hl hr
  orRight l r hl hr :=
    shows_right (by simp [RcTrace.plain]) (by simp [RcTrace.stopped]) (by simp [RcTrace.kept]) rfl hl hr
  negated r hr := by
    intro h stream hstream
    have hkept := hr h stream hstream
    cases stream <;> exact hkept
  branch c r _ hr := by
    intro h stream hstream
    simp only [RcTrace.plain, Bool.and_eq_true] at h
    simp only [RcTrace.stopped, Bool.or_eq_false_iff] at hstream
    have hkept := hr h.2 stream fun he => (hstream he).2
    cases stream <;> exact hkept
  noBranch c hc := by
    intro h stream hstream
    cases stream with
    | stdout => rfl
    | stderr => exact hc h .stderr hstream
  forRound r next hr hnext :=
    shows_append (by simp [RcTrace.plain]) (by simp [RcTrace.stopped]) (fun _ => rfl) hr hnext
  whileRound r c next hr _ hnext :=
    shows_append (by simp +contextual [RcTrace.plain]) (by simp +contextual [RcTrace.stopped]) (fun _ => rfl)
      hr hnext
  whileEnd r c hr _ := by
    intro h stream hstream
    simp only [RcTrace.plain, Bool.and_eq_true] at h
    simp only [RcTrace.stopped, Bool.or_eq_false_iff] at hstream
    have hkept := hr h.1 stream fun he => (hstream he).1
    cases stream <;> exact hkept
  limited r _ := by
    intro _ stream hstream
    cases stream with
    | stdout => rfl
    | stderr => cases hstream rfl
  piped l r stdout stderr _ _ := fun h => by cases h
  background out trace := fun h => by cases h
  open_ _ _ := trivial
  streams _ _ _ _ := trivial
  sunk _ _ _ _ _ _ := trivial
  sinkFailure _ _ _ := trivial
  redirected r reads _ := fun h => by cases h

/-- In an evaluation without pipes, background commands and redirections, a stream
of the script holds what the executed simple commands wrote on it, in order, when no
construct threw away anything written on it; and, unless a loop reached its limit,
only then. -/
theorem runScript_output {H : Type} (parse : String → Except RcError Script) (host : RcHost H) (depth : Nat)
    (script : Script) (input : String) (s : RcSession H) (run : RcRun)
    (h : (runScript parse host depth script input s).1 = .ok run) (hplain : run.trace.plain = true)
    (stream : Stream) :
    (run.trace.Quiet stream → run.toRcOutput.on stream = written stream run.trace.commands) ∧
    (run.toRcOutput.on stream = written stream run.trace.commands →
      (stream = .stderr → run.trace.stopped = false) → run.trace.Quiet stream) := by
  have hshows : Shows run := runScript_returns shows_rules depth script input s run h
  have hiff := run.trace.kept_eq_iff stream hplain
  constructor
  · intro hquiet
    rw [hshows hplain stream hquiet.2]
    exact hiff.mpr hquiet.1
  · intro hcomplete hstop
    rw [hshows hplain stream hstop] at hcomplete
    exact ⟨hiff.mp hcomplete, hstop⟩

/-- `true && first; second`, where nothing is lost: `true` prints nothing. -/
def quietScript : Script := ⟨[.and (.ofWords ["true"]) (.ofWords ["first"]), .ofWords ["second"]]⟩

def quietRun : RcRun :=
  { RcOutput.success "first\nsecond\n" with
    trace := .seq (.seq .nothing (.andRight (.ran .default) (.ran (namedOutput "first"))))
      (.ran (namedOutput "second")) }

theorem runScript_output_quietScript :
    (runScript noParse .naming 2 quietScript "" (.fresh ())).1 = .ok quietRun ∧ quietRun.trace.plain = true ∧
      quietRun.trace.Quiet .stdout ∧
      quietRun.toRcOutput.on .stdout = written .stdout quietRun.trace.commands := by
  have hrun : (runScript noParse .naming 2 quietScript "" (.fresh ())).1 = .ok quietRun := by decide +kernel
  have hquiet : quietRun.trace.Quiet .stdout := by decide
  exact ⟨hrun, by decide, hquiet,
    (runScript_output noParse .naming 2 quietScript "" (.fresh ()) quietRun hrun (by decide) .stdout).1 hquiet⟩

/-- `first && second`: what `first` prints is not in the output of the script. -/
def losingScript : Script := ⟨[.and (.ofWords ["first"]) (.ofWords ["second"])]⟩

def losingRun : RcRun :=
  { RcOutput.success "second\n" with
    trace := .seq .nothing (.andRight (.ran (namedOutput "first")) (.ran (namedOutput "second"))) }

theorem runScript_output_losingScript :
    ¬ ∀ (H : Type) (parse : String → Except RcError Script) (host : RcHost H) (depth : Nat) (script : Script)
      (input : String) (s : RcSession H) (run : RcRun),
      (runScript parse host depth script input s).1 = .ok run → run.trace.plain = true →
        ∀ stream, run.toRcOutput.on stream = written stream run.trace.commands := by
  intro hall
  have hrun : (runScript noParse .naming 2 losingScript "" (.fresh ())).1 = .ok losingRun := by decide +kernel
  have hout := hall Unit noParse .naming 2 losingScript "" (.fresh ()) losingRun hrun (by decide) .stdout
  revert hout
  decide

end Star9.Rc
