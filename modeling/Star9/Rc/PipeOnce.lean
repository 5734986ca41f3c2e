import Star9.Base.Erase
import Star9.Rc.Rules

/-!
# The stages of a pipeline that are run

A pipeline is offered to the host as a graph of all its stages. When the host does
not answer, rc evaluates the two sides itself, and a side that is a pipeline again
is offered once more. The evaluation is followed here with a log of the stages that
are run, by the host or by rc; without its log it is the evaluation of `Eval`.
-/
namespace Star9.Rc
open Base Prog

inductive StageEvent where
  /-- the host was asked to execute a graph -/
  | graph (ran : List Nat) (answered : Bool)
  /-- rc evaluated the stage -/
  | evaluated (stage : Nat)
  deriving DecidableEq, Repr

namespace StageEvent

def stages : StageEvent → List Nat
  | .graph ran _ => ran
  | .evaluated stage => [stage]

/-- The stages of a graph that the host ran without an answer. -/
def wastedStages : StageEvent → List Nat
  | .graph ran false => ran
  | _ => []

end StageEvent

/-- The stages that are run, one entry for each time. -/
def executed (events : List StageEvent) : List Nat := events.flatMap StageEvent.stages

def wasted (events : List StageEvent) : List Nat := events.flatMap StageEvent.wastedStages

/-- A graph that the host did not answer it has left without running a stage. -/
def NothingWasted (events : List StageEvent) : Prop := ∀ ran, StageEvent.graph ran false ∈ events → ran = []

/-- The stages of a graph that a host runs when it is asked to execute it, each of them once. -/
structure GraphRuns (H : Type) where
  ran : H → RcExecutableGraphSpec → List Nat
  nodup : ∀ h spec, (ran h spec).Nodup
  bounded : ∀ h spec, ∀ i ∈ ran h spec, i < spec.stages.length

/-- The host answers for a graph when it has run all the stages. -/
def GraphRuns.Complete {H : Type} (runs : GraphRuns H) (host : RcHost H) : Prop :=
  ∀ h spec out, (host.executeProcessGraph spec h).1 = .ok (some out) → ∀ i < spec.stages.length, i ∈ runs.ran h spec

structure PipeState (H : Type) where
  session : RcSession H
  log : List StageEvent

section Evaluation
variable {H α : Type}

def onSession (p : RcM H α) : Prog (PipeState H) RcError α :=
  zoom PipeState.session (fun session x => { x with session }) p

def note (event : StageEvent) : Prog (PipeState H) RcError Unit := modify fun x => { x with log := x.log ++ [event] }

/-- The number of stages of a nest of pipes. -/
def stageCount : Node → Nat
  | .pipe left right _ => stageCount left + stageCount right
  | _ => 1

variable (parse : String → Except RcError Script) (host : RcHost H) (runs : GraphRuns H)

def answers (spec : RcExecutableGraphSpec) (h : H) : Bool :=
  match (host.executeProcessGraph spec h).1 with
  | .ok (some _) => true
  | _ => false

def graphEvent (first : Nat) (spec : RcExecutableGraphSpec) (h : H) : StageEvent :=
  .graph ((runs.ran h spec).map (first + ·)) (answers host spec h)

def offerGraph (first : Nat) (spec : RcExecutableGraphSpec) : Prog (PipeState H) RcError (Option RcOutput) := do
  let x ← get
  note (graphEvent host runs first spec x.session.host)
  let out ← onSession (attempt? (onHost (host.executeProcessGraph spec)))
  pure out.join

def tryPipelineGraph (evalSource : String → RcM H RcOutput) (first : Nat) (left right : Node) (fromFd toFd : Nat)
    (input : String) : Prog (PipeState H) RcError (Option RcOutput) :=
  match pipelineNodes (.pipe left right (some ⟨fromFd, toFd⟩)) with
  | none => pure none
  | some (nodes, edges) => do
    match ← onSession (pipelineStages host evalSource edges input nodes 0) with
    | none => pure none
    | some stages =>
      offerGraph host runs first { kind := .pipeline, jobId := none, stages := closeUnwrittenFrom stages 0 edges }

def evalStage (depth : Nat) (node : Node) (stage : Nat) (input : String) : Prog (PipeState H) RcError RcRun := do
  note (.evaluated stage)
  onSession (evalNode parse host depth node input)

/-- The evaluation of a pipeline whose first stage has the number `first`. -/
def evalPipeline : Nat → Node → Nat → String → Prog (PipeState H) RcError RcRun
  | 0, _, _, _ => abort
  | depth + 1, .pipe left right spec, first, input => do
    let fromFd := (spec.map PipeSpec.fromFd).getD 1
    let toFd := (spec.map PipeSpec.toFd).getD 0
    match ← tryPipelineGraph host runs (sourceOutput parse host (evalNode parse host depth)) first left right fromFd toFd input with
    | some out => pure { out with trace := .hosted out }
    | none => do
      let graph ← onSession (preparePipelineGraph host left right fromFd toFd)
      let l ← evalPipeline depth left first input
      let piped := if fromFd = 2 then l.stderr else l.stdout
      let r ← evalPipeline depth right (first + stageCount left) (if toFd = 0 then piped else "")
      onSession (finishProcessGraph host graph [l.status, r.status])
      pure { status := .pipeline l.status r.status
             stdout := (if fromFd = 2 then l.stdout else "") ++ r.stdout
             stderr := (if fromFd = 2 then "" else l.stderr) ++ r.stderr
             exited := r.exited
             trace := .piped l.trace l.status r.trace }
  | depth + 1, node, first, input => evalStage parse host (depth + 1) node first input

end Evaluation

/-! ## Without its log -/

section Erasure
variable {H α β : Type}

theorem erases_onSession (p : RcM H α) : Erases PipeState.session (onSession p) p := fun _ => rfl

theorem erases_note (event : StageEvent) {q : Prog (PipeState H) RcError α} {p : RcM H α} (hq : Erases PipeState.session q p) :
    Erases PipeState.session (note event >>= fun _ => q) p := fun x => hq { x with log := x.log ++ [event] }

variable (parse : String → Except RcError Script) (host : RcHost H) (runs : GraphRuns H)

theorem offerGraph_erases (first : Nat) (spec : RcExecutableGraphSpec) :
    Erases PipeState.session (offerGraph host runs first spec)
      (do let out ← attempt? (onHost (host.executeProcessGraph spec)); pure out.join) := by
  intro x
  unfold offerGraph
  rw [get_bind]
  exact erases_note _ (erases_bind (erases_onSession _) fun _ => erases_pure _) x

theorem tryPipelineGraph_erases (evalSource : String → RcM H RcOutput) (first : Nat) (left right : Node)
    (fromFd toFd : Nat) (input : String) :
    Erases PipeState.session (tryPipelineGraph host runs evalSource first left right fromFd toFd input)
      (tryExecutePipelineGraph host evalSource left right fromFd toFd input) := by
  unfold tryPipelineGraph tryExecutePipelineGraph
  cases pipelineNodes (.pipe left right (some ⟨fromFd, toFd⟩)) with
  | none => exact erases_pure _
  | some found =>
    refine erases_bind (erases_onSession _) fun stages => ?_
    cases stages with
    | none => exact erases_pure _
    | some stages => exact offerGraph_erases host runs first _

theorem evalPipeline_erases (depth : Nat) (node : Node) (first : Nat) (input : String) :
    Erases PipeState.session (evalPipeline parse host runs depth node first input) (evalNode parse host depth node input) := by
  induction depth generalizing node first input with
  | zero => exact fun _ => rfl
  | succ depth ih =>
    cases node with
    | pipe left right spec =>
      unfold evalPipeline evalNode evalStep evalPipe
      refine erases_bind (tryPipelineGraph_erases host runs _ first left right _ _ input) fun out => ?_
      cases out with
      | some out => exact erases_pure _
      | none =>
        refine erases_bind (erases_onSession _) fun graph => erases_bind (ih left first input) fun l => ?_
        refine erases_bind (ih right _ _) fun r => erases_bind (erases_onSession _) fun _ => ?_
        exact erases_pure _
    | _ => exact erases_note _ (erases_onSession _)

end Erasure

/-! ## How often a stage is run -/

section Stages
variable {H : Type} (host : RcHost H)

theorem length_pipelineNodes {node : Node} {nodes : List Node} {edges : List (Nat × Nat)}
    (h : pipelineNodes node = some (nodes, edges)) : nodes.length = stageCount node := by
  fun_induction pipelineNodes node generalizing nodes edges with
  | case1 command =>
    cases h
    rfl
  | case2 left right spec leftNodes leftEdges rightNodes rightEdges hright hleft ihleft ihright =>
    cases h
    rw [List.length_append, ihleft hleft, ihright hright]
    rfl
  | case3 => cases h
  | case4 => cases h

theorem length_closeUnwrittenFrom (stages : List RcExecutableStageSpec) (index : Nat) (edges : List (Nat × Nat)) :
    (closeUnwrittenFrom stages index edges).length = stages.length := by
  induction edges generalizing stages index with
  | nil => rfl
  | cons edge edges ih =>
    unfold closeUnwrittenFrom
    rw [ih]
    unfold closeUnwritten
    split
    · split
      · rfl
      · exact List.length_modify _ _ _
    · rfl

theorem pipelineStages_length (evalSource : String → RcM H RcOutput) (edges : List (Nat × Nat)) (input : String)
    (nodes : List Node) (index : Nat) :
    Returns (fun found => ∀ stages, found = some stages → stages.length = nodes.length)
      (pipelineStages host evalSource edges input nodes index) := by
  induction nodes generalizing index with
  | nil =>
    refine returns_pure fun stages h => ?_
    cases h
    rfl
  | cons node nodes ih =>
    refine returns_bind fun stage => ?_
    cases stage with
    | none => exact returns_pure fun _ h => nomatch h
    | some stage =>
      refine returns_then (ih (index + 1)) fun found hfound => ?_
      cases found with
      | none => exact returns_pure fun _ h => nomatch h
      | some rest =>
        refine returns_pure fun stages h => ?_
        cases h
        rw [List.length_cons, List.length_cons, hfound rest rfl]

end Stages

/-- Every one of `n` stages from `first` on is run at most once, beside what the host has wasted. With
a host that runs what it answers for, an evaluation that comes to its end runs each of them. -/
structure Covers (complete : Prop) (first n : Nat) (events : List StageEvent) (done : Bool) : Prop where
  inside : ∀ i ∈ wasted events, i ∈ List.range' first n
  once : (executed events).Subperm (wasted events ++ List.range' first n)
  all : complete → done = true → (executed events).Perm (wasted events ++ List.range' first n)

section Covers
variable {complete : Prop} {first m n : Nat} {events later : List StageEvent} {done : Bool}

theorem executed_append : executed (events ++ later) = executed events ++ executed later := List.flatMap_append

theorem wasted_append : wasted (events ++ later) = wasted events ++ wasted later := List.flatMap_append

theorem mem_range'_left {i : Nat} (h : i ∈ List.range' first m) : i ∈ List.range' first (m + n) := by
  rw [List.mem_range'_1] at h ⊢
  omega

theorem covers_nil {C : Prop} : Covers C first n [] false :=
  ⟨(fun _ h => nomatch h), List.nil_subperm, fun _ => nofun⟩

theorem covers_evaluated (stage : Nat) : Covers complete stage 1 [.evaluated stage] done :=
  ⟨(fun _ h => nomatch h), List.Subperm.refl _, fun _ _ => List.Perm.refl _⟩

theorem covers_answered {ran : List Nat} (hnodup : ran.Nodup) (hran : ∀ i ∈ ran, i ∈ List.range' first n)
    (hall : complete → ∀ i ∈ List.range' first n, i ∈ ran) : Covers complete first n [.graph ran true] done := by
  have hexecuted : executed [.graph ran true] = ran := List.append_nil ran
  refine ⟨(fun _ h => nomatch h), ?_, fun hcomplete _ => ?_⟩
  · rw [hexecuted]
    exact List.subperm_of_subset hnodup hran
  · rw [hexecuted]
    refine (List.perm_ext_iff_of_nodup hnodup List.nodup_range').mpr fun i => ?_
    exact ⟨hran i, hall hcomplete i⟩

/-- A graph without an answer adds what the host has wasted on it. -/
theorem Covers.declined (h : Covers complete first n events done) {ran : List Nat}
    (hran : ∀ i ∈ ran, i ∈ List.range' first n) : Covers complete first n (.graph ran false :: events) done := by
  have hwasted : wasted (.graph ran false :: events) = ran ++ wasted events := rfl
  have hexecuted : executed (.graph ran false :: events) = ran ++ executed events := rfl
  constructor
  · intro i hi
    rw [hwasted] at hi
    exact (List.mem_append.mp hi).elim (hran i) (h.inside i)
  · rw [hwasted, hexecuted, List.append_assoc]
    exact (List.subperm_append_left ran).mpr h.once
  · intro hcomplete hdone
    rw [hwasted, hexecuted, List.append_assoc]
    exact (h.all hcomplete hdone).append_left ran

/-- The left side of a pipe fails, and the right side is not reached. -/
theorem Covers.left (h : Covers complete first m events done) : Covers complete first (m + n) events false := by
  refine ⟨fun i hi => mem_range'_left (h.inside i hi), ?_, fun _ => nofun⟩
  refine h.once.trans ((List.subperm_append_left _).mpr ?_)
  rw [← List.range'_append_1]
  exact (List.sublist_append_left _ _).subperm

theorem Covers.pipe (hleft : Covers complete first m events true) (hright : Covers complete (first + m) n later done) :
    Covers complete first (m + n) (events ++ later) done := by
  have hregroup : ((wasted events ++ List.range' first m) ++ (wasted later ++ List.range' (first + m) n)).Perm
      (wasted events ++ wasted later ++ List.range' first (m + n)) := by
    rw [← List.range'_append_1]
    simp only [List.append_assoc]
    refine List.Perm.append_left _ ?_
    rw [← List.append_assoc, ← List.append_assoc]
    exact List.perm_append_comm.append_right _
  constructor
  · intro i hi
    rw [wasted_append] at hi
    rcases List.mem_append.mp hi with h | h
    · exact mem_range'_left (hleft.inside i h)
    · have hmem := hright.inside i h
      rw [List.mem_range'_1] at hmem ⊢
      omega
  · rw [executed_append, wasted_append]
    exact (hleft.once.append hright.once).trans hregroup.subperm
  · intro hcomplete hdone
    rw [executed_append, wasted_append]
    exact ((hleft.all hcomplete rfl).append (hright.all hcomplete hdone)).trans hregroup

theorem wasted_eq_nil : wasted events = [] ↔ NothingWasted events := by
  unfold wasted NothingWasted
  rw [List.flatMap_eq_nil_iff]
  constructor
  · intro h ran hmem
    exact h _ hmem
  · intro h event hmem
    match event with
    | .graph ran false => exact h ran hmem
    | .graph _ true => rfl
    | .evaluated _ => rfl

theorem Covers.nodup (h : Covers complete first n events done) (hwasted : NothingWasted events) :
    (executed events).Nodup := by
  have hsub := h.once
  rw [wasted_eq_nil.mpr hwasted, List.nil_append] at hsub
  obtain ⟨kept, hperm, hkept⟩ := hsub
  exact hperm.nodup_iff.mp (hkept.nodup List.nodup_range')

theorem Covers.nothingWasted (h : Covers complete first n events true) (hcomplete : complete)
    (hnodup : (executed events).Nodup) : NothingWasted events := by
  have hall := (h.all hcomplete rfl).nodup_iff.mp hnodup
  refine wasted_eq_nil.mp (List.eq_nil_iff_forall_not_mem.mpr fun i hi => ?_)
  exact List.disjoint_of_nodup_append hall hi (h.inside i hi)

end Covers

/-! ## Over an evaluation -/

section Run
variable {H : Type} (parse : String → Except RcError Script) (host : RcHost H) (runs : GraphRuns H)

/-- What an offer adds to the log: it is answered, or nothing but the stages of one graph is wasted on it. -/
def Offered (complete : Prop) (first n : Nat) (events : List StageEvent) : Outcome RcError (Option RcOutput) → Prop
  | .ok (some _) => Covers complete first n events true
  | _ => events = [] ∨ ∃ ran, events = [.graph ran false] ∧ ∀ i ∈ ran, i ∈ List.range' first n

theorem onSession_log {α : Type} (p : RcM H α) : Preserves PipeState.log (onSession p) := fun _ => rfl

theorem offerGraph_log (first : Nat) (spec : RcExecutableGraphSpec) (x : PipeState H) :
    (offerGraph host runs first spec x).2.log = x.log ++ [graphEvent host runs first spec x.session.host] := by
  unfold offerGraph
  rw [get_bind]
  unfold note
  rw [modify_bind]
  exact preserves_bind (onSession_log _) (fun _ => preserves_pure _) _

/-- A failure of the host is taken for a graph that it declined. -/
theorem offerGraph_outcome (first : Nat) (spec : RcExecutableGraphSpec) (x : PipeState H) :
    (offerGraph host runs first spec x).1 = match (host.executeProcessGraph spec x.session.host).1 with
      | .ok out => .ok out
      | .err _ => .ok none
      | .abort => .abort := by
  have hfst := congrArg Prod.fst (offerGraph_erases host runs first spec x)
  dsimp only at hfst
  rw [hfst]
  rcases hout : host.executeProcessGraph spec x.session.host with ⟨out | e | _, h⟩
  · have hcall : onHost (host.executeProcessGraph spec) x.session = (.ok out, { x.session with host := h }) := by
      unfold onHost
      rw [zoom_apply, hout]
    rw [bind_apply, attempt?, bind_ok (attempt_ok hcall)]
    rfl
  · have hcall : onHost (host.executeProcessGraph spec) x.session = (.err e, { x.session with host := h }) := by
      unfold onHost
      rw [zoom_apply, hout]
    rw [bind_apply, attempt?, bind_ok (attempt_err hcall)]
    rfl
  · have hcall : onHost (host.executeProcessGraph spec) x.session = (.abort, { x.session with host := h }) := by
      unfold onHost
      rw [zoom_apply, hout]
    rw [bind_apply, attempt?, bind_abort (attempt_abort hcall)]

theorem offerGraph_events (first : Nat) (spec : RcExecutableGraphSpec) (x : PipeState H) :
    ∃ events, (offerGraph host runs first spec x).2.log = x.log ++ events ∧
      Offered (runs.Complete host) first spec.stages.length events (offerGraph host runs first spec x).1 := by
  have hran : ∀ i ∈ (runs.ran x.session.host spec).map (first + ·), i ∈ List.range' first spec.stages.length := by
    intro i hi
    obtain ⟨j, hj, rfl⟩ := List.mem_map.mp hi
    have hbound := runs.bounded x.session.host spec j hj
    rw [List.mem_range'_1]
    omega
  refine ⟨_, offerGraph_log host runs first spec x, ?_⟩
  rw [offerGraph_outcome]
  unfold graphEvent answers
  cases hout : (host.executeProcessGraph spec x.session.host).1 with
  | ok out =>
    cases out with
    | none => exact Or.inr ⟨_, rfl, hran⟩
    | some out =>
      refine covers_answered ((runs.nodup _ spec).map fun i j h => ?_) hran fun hcomplete i hi => ?_
      · exact Nat.add_left_cancel h
      · rw [List.mem_range'_1] at hi
        refine List.mem_map.mpr ⟨i - first, hcomplete _ spec out hout _ ?_, ?_⟩ <;> omega
  | err e => exact Or.inr ⟨_, rfl, hran⟩
  | abort => exact Or.inr ⟨_, rfl, hran⟩

theorem tryPipelineGraph_events (evalSource : String → RcM H RcOutput) (first : Nat) (left right : Node)
    (fromFd toFd : Nat) (input : String) (x : PipeState H) :
    ∃ events, (tryPipelineGraph host runs evalSource first left right fromFd toFd input x).2.log = x.log ++ events ∧
      Offered (runs.Complete host) first (stageCount left + stageCount right) events
        (tryPipelineGraph host runs evalSource first left right fromFd toFd input x).1 := by
  unfold tryPipelineGraph
  cases hnodes : pipelineNodes (.pipe left right (some ⟨fromFd, toFd⟩)) with
  | none => exact ⟨[], (List.append_nil _).symm, Or.inl rfl⟩
  | some found =>
    obtain ⟨nodes, edges⟩ := found
    have hcount : nodes.length = stageCount left + stageCount right := length_pipelineNodes hnodes
    have hlength := pipelineStages_length host evalSource edges input nodes 0 x.session
    dsimp only
    rw [bind_apply]
    unfold onSession
    rw [zoom_apply]
    rcases hstages : (pipelineStages host evalSource edges input nodes 0 x.session).1 with (_ | stages) | e | _
    · exact ⟨[], (List.append_nil _).symm, Or.inl rfl⟩
    · have hstage := hlength _ hstages stages rfl
      have hevents := offerGraph_events host runs first
        { kind := .pipeline, jobId := none, stages := closeUnwrittenFrom stages 0 edges }
        { x with session := (pipelineStages host evalSource edges input nodes 0 x.session).2 }
      rwa [length_closeUnwrittenFrom, hstage, hcount] at hevents
    · exact ⟨[], (List.append_nil _).symm, Or.inl rfl⟩
    · exact ⟨[], (List.append_nil _).symm, Or.inl rfl⟩

theorem Offered.of_not_answered {complete : Prop} {first n : Nat} {events : List StageEvent}
    {outcome : Outcome RcError (Option RcOutput)} (h : Offered complete first n events outcome)
    (hout : ∀ out, outcome ≠ .ok (some out)) :
    events = [] ∨ ∃ ran, events = [.graph ran false] ∧ ∀ i ∈ ran, i ∈ List.range' first n := by
  match outcome, h with
  | .ok (some out), _ => exact absurd rfl (hout out)
  | .ok none, h => exact h
  | .err _, h => exact h
  | .abort, h => exact h

/-- After an offer without an answer, the stages are covered by what follows it. -/
theorem Covers.after_offer {complete : Prop} {first n : Nat} {events later : List StageEvent} {done : Bool}
    (hoffer : events = [] ∨ ∃ ran, events = [.graph ran false] ∧ ∀ i ∈ ran, i ∈ List.range' first n)
    (h : Covers complete first n later done) : Covers complete first n (events ++ later) done := by
  rcases hoffer with rfl | ⟨ran, rfl, hran⟩
  · exact h
  · exact h.declined hran

/-- What a program adds to the log, and whether it returns a value. -/
def Logs {α : Type} (P : List StageEvent → Bool → Prop) (p : Prog (PipeState H) RcError α) : Prop :=
  ∀ x, ∃ events, (p x).2.log = x.log ++ events ∧ P events (p x).1.isOk

section Logs
variable {α β : Type} {complete : Prop} {first m n : Nat} {p : Prog (PipeState H) RcError α} {g : α → Prog (PipeState H) RcError β}

theorem Covers.stopped {events : List StageEvent} {done : Bool} (h : Covers complete first n events done) :
    Covers complete first n events false := ⟨h.inside, h.once, fun _ => nofun⟩

theorem logs_quiet (hp : Preserves PipeState.log p) (hg : ∀ a, Logs (Covers complete first n) (g a)) :
    Logs (Covers complete first n) (p >>= g) := by
  intro x
  have hlog := hp x
  rw [bind_apply]
  rcases hx : p x with ⟨a | e | _, x₁⟩ <;> rw [hx] at hlog
  · rw [← hlog]
    exact hg a x₁
  · exact ⟨[], hlog.trans (List.append_nil _).symm, covers_nil⟩
  · exact ⟨[], hlog.trans (List.append_nil _).symm, covers_nil⟩

theorem logs_then_quiet (hp : Logs (Covers complete first n) p) (hg : ∀ a, Preserves PipeState.log (g a)) :
    Logs (Covers complete first n) (p >>= g) := by
  intro x
  obtain ⟨events, hlog, hcovers⟩ := hp x
  rw [bind_apply]
  rcases hx : p x with ⟨a | e | _, x₁⟩ <;> rw [hx] at hlog hcovers
  · refine ⟨events, (hg a x₁).trans hlog, ?_⟩
    cases hdone : (g a x₁).1.isOk with
    | true => exact hcovers
    | false => exact hcovers.stopped
  · exact ⟨events, hlog, hcovers⟩
  · exact ⟨events, hlog, hcovers⟩

theorem logs_pipe (hp : Logs (Covers complete first m) p) (hg : ∀ a, Logs (Covers complete (first + m) n) (g a)) :
    Logs (Covers complete first (m + n)) (p >>= g) := by
  intro x
  obtain ⟨events, hlog, hcovers⟩ := hp x
  rw [bind_apply]
  rcases hx : p x with ⟨a | e | _, x₁⟩ <;> rw [hx] at hlog hcovers
  · obtain ⟨later, hlater, hright⟩ := hg a x₁
    refine ⟨events ++ later, ?_, hcovers.pipe hright⟩
    rw [hlater, hlog, List.append_assoc]
  · exact ⟨events, hlog, hcovers.left⟩
  · exact ⟨events, hlog, hcovers.left⟩

end Logs

/-- The stages of a pipeline are run once by its evaluation, beside those that the host has wasted. -/
theorem evalPipeline_covers (depth : Nat) (node : Node) (first : Nat) (input : String) :
    Logs (Covers (runs.Complete host) first (stageCount node)) (evalPipeline parse host runs depth node first input) := by
  induction depth generalizing node first input with
  | zero => exact fun _ => ⟨[], (List.append_nil _).symm, covers_nil⟩
  | succ depth ih =>
    cases node with
    | pipe left right spec =>
      unfold evalPipeline
      intro x
      obtain ⟨offered, hlog, hoffer⟩ := tryPipelineGraph_events host runs (sourceOutput parse host (evalNode parse host depth))
        first left right ((spec.map PipeSpec.fromFd).getD 1) ((spec.map PipeSpec.toFd).getD 0) input x
      rw [bind_apply]
      rcases htry : tryPipelineGraph host runs (sourceOutput parse host (evalNode parse host depth)) first left right
        ((spec.map PipeSpec.fromFd).getD 1) ((spec.map PipeSpec.toFd).getD 0) input x with ⟨(_ | out) | e | _, x₁⟩
      all_goals rw [htry] at hlog hoffer
      · -- the host has not answered: rc evaluates the two sides
        dsimp only
        generalize (spec.map PipeSpec.fromFd).getD 1 = fromFd
        generalize (spec.map PipeSpec.toFd).getD 0 = toFd
        have hsides : Logs (Covers (runs.Complete host) first (stageCount left + stageCount right)) (do
            let graph ← onSession (preparePipelineGraph host left right fromFd toFd)
            let l ← evalPipeline parse host runs depth left first input
            let r ← evalPipeline parse host runs depth right (first + stageCount left)
              (if toFd = 0 then if fromFd = 2 then l.stderr else l.stdout else "")
            onSession (finishProcessGraph host graph [l.status, r.status])
            pure { status := .pipeline l.status r.status
                   stdout := (if fromFd = 2 then l.stdout else "") ++ r.stdout
                   stderr := (if fromFd = 2 then "" else l.stderr) ++ r.stderr
                   exited := r.exited
                   trace := .piped l.trace l.status r.trace : RcRun }) := by
          refine logs_quiet (onSession_log _) fun graph => ?_
          refine logs_pipe (ih left first input) fun l => ?_
          refine logs_then_quiet (ih right (first + stageCount left) _) fun r => ?_
          exact preserves_bind (onSession_log _) fun _ => preserves_pure _
        obtain ⟨events, hevents, hcovers⟩ := hsides x₁
        refine ⟨offered ++ events, ?_, Covers.after_offer (hoffer.of_not_answered nofun) hcovers⟩
        rw [hevents, hlog, List.append_assoc]
      · exact ⟨offered, hlog, hoffer⟩
      · have hcovers := Covers.after_offer (hoffer.of_not_answered nofun) (covers_nil (C := runs.Complete host))
        exact ⟨offered, hlog, (List.append_nil offered) ▸ hcovers⟩
      · have hcovers := Covers.after_offer (hoffer.of_not_answered nofun) (covers_nil (C := runs.Complete host))
        exact ⟨offered, hlog, (List.append_nil offered) ▸ hcovers⟩
    | _ => exact fun _ => ⟨[.evaluated first], rfl, covers_evaluated first⟩

/-- The evaluation of a pipeline runs each stage at most once when the host leaves the graphs that it does not
answer without running a stage, and for an evaluation that comes to its end only then. -/
theorem stages_run_once_iff (depth : Nat) (left right : Node) (spec : Option PipeSpec)
    (input : String) (s : RcSession H) :
    Erases PipeState.session (evalPipeline parse host runs depth (.pipe left right spec) 0 input) (evalNode parse host depth (.pipe left right spec) input) ∧
    (NothingWasted (evalPipeline parse host runs depth (.pipe left right spec) 0 input ⟨s, []⟩).2.log →
      (executed (evalPipeline parse host runs depth (.pipe left right spec) 0 input ⟨s, []⟩).2.log).Nodup) ∧
    (runs.Complete host → (evalNode parse host depth (.pipe left right spec) input s).1.isOk = true →
      (executed (evalPipeline parse host runs depth (.pipe left right spec) 0 input ⟨s, []⟩).2.log).Nodup →
      NothingWasted (evalPipeline parse host runs depth (.pipe left right spec) 0 input ⟨s, []⟩).2.log) := by
  have herases := evalPipeline_erases parse host runs depth (.pipe left right spec) 0 input
  have houtcome := congrArg Prod.fst (herases ⟨s, []⟩)
  obtain ⟨events, hlog, hcovers⟩ := evalPipeline_covers parse host runs depth (.pipe left right spec) 0 input ⟨s, []⟩
  rw [List.nil_append] at hlog
  rw [hlog]
  refine ⟨herases, hcovers.nodup, fun hcomplete hok hnodup => ?_⟩
  rw [← houtcome] at hok
  rw [hok] at hcovers
  exact hcovers.nothingWasted hcomplete hnodup

end Run

/-- A stage that does not start. -/
def fails (stage : RcExecutableStageSpec) : Bool := stage.argv == ["wasi", "missing"]

/-- A host that starts all the stages of a graph and then fails when one of them did not start. -/
def RcHost.spawning : RcHost Unit :=
  { RcHost.naming with
    executeProcessGraph := fun spec =>
      if spec.stages.any fails then throw (.new "missing: not found") else pure (some (namedOutput "graph")) }

def GraphRuns.spawning : GraphRuns Unit where
  ran _ spec := (List.range spec.stages.length).filter fun i => !(spec.stages[i]?.any fails)
  nodup _ _ := List.nodup_range.filter _
  bounded _ _ _ h := List.mem_range.mp (List.mem_of_mem_filter h)

theorem spawning_complete : GraphRuns.spawning.Complete RcHost.spawning := by
  intro h spec out hout i hi
  have hstages : spec.stages.any fails = false := by
    by_contra hany
    unfold RcHost.spawning at hout
    dsimp only at hout
    rw [branch_apply, if_pos (Bool.eq_true_of_not_eq_false hany)] at hout
    cases hout
  refine List.mem_filter.mpr ⟨List.mem_range.mpr hi, ?_⟩
  have hfails := Bool.eq_false_of_not_eq_true (List.any_eq_false.mp hstages _ (List.getElem_mem hi))
  rw [List.getElem?_eq_getElem hi, Option.any_some, hfails]
  rfl

/-- The host has run the first stage when the second one does not start, and then rc evaluates both. -/
theorem log_missing : (evalPipeline noParse RcHost.spawning GraphRuns.spawning 2
    (.pipe (.ofWords ["wasi", "first"]) (.ofWords ["wasi", "missing"]) none) 0 "" ⟨.fresh (), []⟩).2.log =
    [.graph [0] false, .evaluated 0, .evaluated 1] := by
  decide +kernel

theorem stages_run_once_spawning :
    (executed (evalPipeline noParse RcHost.spawning GraphRuns.spawning 2
      (.pipe (.ofWords ["wasi", "first"]) (.ofWords ["wasi", "second"]) none) 0 "" ⟨.fresh (), []⟩).2.log).Nodup ∧
    ¬ (executed (evalPipeline noParse RcHost.spawning GraphRuns.spawning 2
      (.pipe (.ofWords ["wasi", "first"]) (.ofWords ["wasi", "missing"]) none) 0 "" ⟨.fresh (), []⟩).2.log).Nodup := by
  obtain ⟨-, honce, -⟩ := stages_run_once_iff noParse RcHost.spawning GraphRuns.spawning 2 (.ofWords ["wasi", "first"])
    (.ofWords ["wasi", "second"]) none "" (.fresh ())
  obtain ⟨-, -, honly⟩ := stages_run_once_iff noParse RcHost.spawning GraphRuns.spawning 2 (.ofWords ["wasi", "first"])
    (.ofWords ["wasi", "missing"]) none "" (.fresh ())
  refine ⟨honce ?_, fun hnodup => ?_⟩
  have hlog : (evalPipeline noParse RcHost.spawning GraphRuns.spawning 2
      (.pipe (.ofWords ["wasi", "first"]) (.ofWords ["wasi", "second"]) none) 0 "" ⟨.fresh (), []⟩).2.log = [.graph [0, 1] true] := by
    decide +kernel
  · rw [hlog]
    intro ran hran
    cases List.mem_singleton.mp hran
  · have hok : (evalNode noParse RcHost.spawning 2 (.pipe (.ofWords ["wasi", "first"]) (.ofWords ["wasi", "missing"]) none) "" (.fresh ())).1.isOk =
        true := by
      decide +kernel
    have hwasted := honly spawning_complete hok hnodup
    rw [log_missing] at hwasted
    exact absurd (hwasted [0] List.mem_cons_self) (List.cons_ne_nil _ _)

theorem stages_run_twice :
    ¬∀ (H : Type) (parse : String → Except RcError Script) (host : RcHost H) (runs : GraphRuns H) (depth : Nat)
      (left right : Node) (spec : Option PipeSpec) (input : String) (s : RcSession H), runs.Complete host →
      (executed (evalPipeline parse host runs depth (.pipe left right spec) 0 input ⟨s, []⟩).2.log).Nodup := by
  intro h
  have hnodup := h Unit noParse RcHost.spawning GraphRuns.spawning 2 (.ofWords ["wasi", "first"])
    (.ofWords ["wasi", "missing"]) none "" (.fresh ()) spawning_complete
  rw [log_missing] at hnodup
  revert hnodup
  decide

end Star9.Rc
