import Star9.Core.PathOrder
import Star9.Fs.MemList
import Star9.Rc.Redirects
import Star9.Shell.StagePipes

/-!
# Finished stages close their pipes

An end of a pipe that a stage writes is closed, or still to be opened, or open under a number
that is still to be closed. Every step of every thread keeps this as long as nothing fails
before the end is open and no handler moves it away, and in a finished thread only the first
is left.
-/
namespace Star9.Shell
open Base Rc

/-! ## Names of ends -/

theorem slash_not_mem_name (e : PipeEnd) : '/' ∉ e.name.toList := by cases e <;> decide

theorem name_injective : Function.Injective PipeEnd.name := by
  intro a b h
  cases a <;> cases b <;> first | rfl | exact absurd h (by decide)

theorem slash_not_mem_toString (n : Nat) : '/' ∉ (toString n).toList := by
  intro h
  have hdigit := Nat.isDigit_of_mem_toDigits (b := 10) (by decide) (by decide) (by simpa using h)
  exact absurd hdigit (by decide)

theorem toString_injective : Function.Injective (toString : Nat → String) := by
  intro m n h
  have hm := parseUnsigned_toString (show m < 2 ^ (m + n) from Nat.lt_of_lt_of_le Nat.lt_two_pow_self (Nat.pow_le_pow_right (by decide) (by omega)))
  have hn := parseUnsigned_toString (show n < 2 ^ (m + n) from Nat.lt_of_lt_of_le Nat.lt_two_pow_self (Nat.pow_le_pow_right (by decide) (by omega)))
  rw [h, hn] at hm
  exact (Option.some.inj hm).symm

theorem splitSlash_pipe (n : Nat) : splitSlash ("pipe" ++ toString n) = ["pipe" ++ toString n] := by
  apply splitSlash_of_no_slash
  rw [String.toList_append, List.mem_append]
  rintro (h | h)
  · exact absurd h (by decide)
  · exact slash_not_mem_toString n h

theorem splitSlash_path (root : String) (p : Port) :
    splitSlash (p.path root) = splitSlash root ++ ["pipe" ++ toString p.pipe, p.side.name] := by
  have hroot : root ++ "/pipe" ++ toString p.pipe = root ++ "/" ++ ("pipe" ++ toString p.pipe) := by
    have hslash : ("/pipe" : String) = "/" ++ "pipe" := rfl
    rw [hslash]
    simp only [String.append_assoc]
  rw [Port.path, splitSlash_append, hroot, splitSlash_append, splitSlash_pipe, splitSlash_of_no_slash (slash_not_mem_name _)]
  simp

theorem path_injective (root : String) : Function.Injective (Port.path root) := by
  intro p q h
  have hsplit := congrArg splitSlash h
  rw [splitSlash_path, splitSlash_path] at hsplit
  have hparts := List.append_cancel_left hsplit
  have hpipe : "pipe" ++ toString p.pipe = "pipe" ++ toString q.pipe := (List.cons.inj hparts).1
  have hside : p.side.name = q.side.name := (List.cons.inj (List.cons.inj hparts).2).1
  have hnum : toString p.pipe = toString q.pipe := (String.append_right_inj _).mp hpipe
  exact Port.mk.injEq .. |>.mpr ⟨toString_injective hnum, name_injective hside⟩

/-- The namespace opens the end at its path. -/
theorem resolvePort_path {root : String} {pipes : List Nat} {p : Port} (h : p.pipe ∈ pipes) : resolvePort root pipes (p.path root) = some p := by
  have hmem : p ∈ pipes.flatMap fun pipe => [({ pipe, side := .data } : Port), { pipe, side := .data1 }] := by
    rw [List.mem_flatMap]
    refine ⟨p.pipe, h, ?_⟩
    cases hside : p.side <;> simp [← hside]
  cases hfound : resolvePort root pipes (p.path root) with
  | none =>
    have hne := List.find?_eq_none.mp hfound p hmem
    exact absurd (decide_eq_true rfl) hne
  | some q =>
    have hpath := List.find?_some hfound
    rw [path_injective root (of_decide_eq_true hpath)]

theorem resolve_binding (root : String) (p : Port) : resolveExecutableBindingPath root p.binding = p.path root := by
  have hstrip : stripPrefix "pipe:" p.binding = some (toString p.pipe ++ "/" ++ p.side.name) := by
    rw [stripPrefix_eq_some, Port.binding, String.append_assoc, String.append_assoc, String.append_assoc]
  have hsplit : splitOnceSlash (toString p.pipe ++ "/" ++ p.side.name) = some (toString p.pipe, p.side.name) := by
    rw [splitOnceSlash_eq_some]
    refine ⟨p.side.name, [], ?_, rfl⟩
    rw [splitSlash_append, splitSlash_of_no_slash (slash_not_mem_toString _), splitSlash_of_no_slash (slash_not_mem_name _)]
    rfl
  rw [resolveExecutableBindingPath, hstrip]
  simp only [hsplit, Option.getD_some]
  rfl

/-! ## The descriptors of a stage -/

section
variable {root : String} {bindings : List RcFdBindingSpec} {depth : Nat}

theorem fd_of_fdDescriptorForBinding {binding : RcFdBindingSpec} {d : Rc.FdDescriptor}
    (h : fdDescriptorForBinding root bindings depth binding = some (some d)) : d.fd = binding.fd := by
  unfold fdDescriptorForBinding at h
  split at h
  · cases h
  · split at h
    · obtain ⟨stream, -, hstream⟩ := Option.map_eq_some_iff.mp h
      split at hstream
      · cases hstream
        rfl
      · cases hstream
    · split at h
      · cases h
      · cases h
        rfl

theorem fd_of_mem_extraFds {todo : List RcFdBindingSpec} {fds : List Rc.FdDescriptor} (h : extraFds root bindings depth todo = some fds)
    {d : Rc.FdDescriptor} (hd : d ∈ fds) : ∃ binding ∈ todo, d.fd = binding.fd := by
  induction todo generalizing fds with
  | nil =>
    cases h
    cases hd
  | cons binding todo ih =>
    obtain ⟨found, hfound, hrest⟩ := Option.bind_eq_some_iff.mp h
    obtain ⟨rest, hmore, hfds⟩ := Option.bind_eq_some_iff.mp hrest
    cases hfds
    cases List.mem_append.mp hd with
    | inl hhead =>
      have hsome : found = some d := by simpa using hhead
      exact ⟨binding, List.mem_cons_self, fd_of_fdDescriptorForBinding (hsome ▸ hfound)⟩
    | inr htail =>
      obtain ⟨other, hother, hfd⟩ := ih hmore htail
      exact ⟨other, List.mem_cons_of_mem _ hother, hfd⟩

/-- The descriptor of a binding comes with those of the bindings after it. -/
theorem extraFds_split {before after : List RcFdBindingSpec} {binding : RcFdBindingSpec} {d : Rc.FdDescriptor}
    (hd : fdDescriptorForBinding root bindings depth binding = some (some d)) {fds : List Rc.FdDescriptor}
    (h : extraFds root bindings depth (before ++ binding :: after) = some fds) :
    ∃ first last, fds = first ++ d :: last ∧ extraFds root bindings depth after = some last := by
  induction before generalizing fds with
  | nil =>
    obtain ⟨found, hfound, hrest⟩ := Option.bind_eq_some_iff.mp h
    obtain ⟨rest, hmore, hfds⟩ := Option.bind_eq_some_iff.mp hrest
    cases hd.symm.trans hfound
    cases hfds
    exact ⟨[], rest, rfl, hmore⟩
  | cons other before ih =>
    obtain ⟨found, -, hrest⟩ := Option.bind_eq_some_iff.mp h
    obtain ⟨rest, hmore, hfds⟩ := Option.bind_eq_some_iff.mp hrest
    obtain ⟨first, last, hsplit, hlast⟩ := ih hmore
    cases hfds
    exact ⟨found.toList ++ first, last, by rw [hsplit, List.append_assoc], hlast⟩

end

theorem setupOf_append (stdio : Rc.StdioSet) (first last : List Rc.FdDescriptor) (d : Rc.FdDescriptor) :
    setupOf (stdio, first ++ d :: last) = setupOf (stdio, first) ++ (d.fd, .fd d) :: last.map fun d => (d.fd, .fd d) := by
  simp [setupOf]

/-- A binding that is the last of its number is opened under this number, and nothing after it is. -/
theorem setupOf_split {root : String} {i depth : Nat} {stage : RcExecutableStageSpec} {spec : Rc.StdioSet × List Rc.FdDescriptor}
    (hspec : buildExecutionSpec root i stage depth = some spec) {binding : RcFdBindingSpec}
    (hlast : lastBinding stage.fdBindings binding.fd = some binding) (hclose : binding.close = false) (hdup : binding.dupFrom = none)
    (hpath : binding.path ≠ "") :
    ∃ before after, setupOf spec = before ++ (binding.fd, .fd (fdDescriptorFromBinding root binding)) :: after ∧
      binding.fd ∉ after.map Prod.fst := by
  obtain ⟨stdin, hstdin, h⟩ := Option.bind_eq_some_iff.mp hspec
  obtain ⟨stdout, hstdout, h⟩ := Option.bind_eq_some_iff.mp h
  obtain ⟨stderr, hstderr, h⟩ := Option.bind_eq_some_iff.mp h
  obtain ⟨fds, hfds, h⟩ := Option.bind_eq_some_iff.mp h
  cases h
  have hhigh : ∀ d ∈ fds, 2 < d.fd := by
    intro d hd
    obtain ⟨b, hb, hfd⟩ := fd_of_mem_extraFds hfds hd
    rw [hfd]
    simpa using (List.mem_filter.mp hb).2
  have hnot : binding.fd ≤ 2 → binding.fd ∉ (fds.map fun d => (d.fd, Rc.StreamDescriptor.fd d)).map Prod.fst := by
    intro hle hmem
    obtain ⟨d, hd, hfd⟩ := List.mem_map.mp (List.map_map .. ▸ hmem)
    have := hhigh d hd
    simp only [Function.comp_apply] at hfd
    omega
  -- a search that comes back finds the binding
  have hstream : ∀ stream, streamForFd root stage.fdBindings depth binding.fd = some stream →
      stream = some (.fd (fdDescriptorFromBinding root binding)) := by
    intro stream hs
    cases depth with
    | zero => cases hs
    | succ depth =>
      rw [streamForFd_of_file hlast hclose hdup, if_neg hpath] at hs
      exact (Option.some.inj hs).symm
  rcases Nat.lt_or_ge 2 binding.fd with hfd | hfd
  · obtain ⟨pre, post, hbindings, hpost⟩ := split_of_lastBinding hlast
    have hfilter : stage.fdBindings.filter (fun b => decide (2 < b.fd)) =
        pre.filter (fun b => decide (2 < b.fd)) ++ binding :: post.filter fun b => decide (2 < b.fd) := by
      rw [hbindings, List.filter_append, List.filter_cons, if_pos (decide_eq_true hfd)]
    have hd : fdDescriptorForBinding root stage.fdBindings depth binding = some (some (fdDescriptorFromBinding root binding)) := by
      simp [fdDescriptorForBinding, hclose, hdup, hpath]
    rw [hfilter] at hfds
    obtain ⟨first, last, rfl, hlastFds⟩ := extraFds_split hd hfds
    refine ⟨_, _, setupOf_append _ first last _, ?_⟩
    intro hmem
    obtain ⟨d, hdmem, hdfd⟩ := List.mem_map.mp (List.map_map .. ▸ hmem)
    obtain ⟨b, hb, hbfd⟩ := fd_of_mem_extraFds hlastFds hdmem
    simp only [Function.comp_apply] at hdfd
    exact hpost b (List.mem_of_mem_filter hb) (hbfd.symm.trans hdfd)
  · obtain hzero | hone | htwo : binding.fd = 0 ∨ binding.fd = 1 ∨ binding.fd = 2 := by omega
    · rw [hzero] at hstream hnot ⊢
      cases hstream stdin hstdin
      exact ⟨[], _, rfl, by simpa using hnot (by omega)⟩
    · rw [hone] at hstream hnot ⊢
      cases hstream stdout hstdout
      exact ⟨[_], _, rfl, by simpa using hnot (by omega)⟩
    · rw [htwo] at hstream hnot ⊢
      cases hstream stderr hstderr
      exact ⟨[_, _], _, rfl, by simpa using hnot (by omega)⟩

/-! ## What a step changes -/

namespace GraphState
variable {s : GraphState} {i j fd : Nat} {p q : Port}

/-- Only the stage whose turn it is changes, and a closed end stays closed. -/
structure Moves (i : Nat) (s s' : GraphState) : Prop where
  frame : ∀ j, j ≠ i → s'.stages j = s.stages j
  closed : ∀ p, (s.buffers p).closed = true → (s'.buffers p).closed = true

theorem Moves.refl (i : Nat) (s : GraphState) : Moves i s s := ⟨fun _ _ => rfl, fun _ h => h⟩

theorem Moves.trans {s' s'' : GraphState} (h : Moves i s s') (h' : Moves i s' s'') : Moves i s s'' :=
  ⟨fun j hj => (h'.frame j hj).trans (h.frame j hj), fun p hp => h'.closed p (h.closed p hp)⟩

theorem moves_setStage (i : Nat) (s : GraphState) (stage : StageState) : Moves i s (s.setStage i stage) :=
  ⟨fun _ hj => Function.update_of_ne hj _ _, fun _ h => h⟩

theorem moves_setPhase (i : Nat) (s : GraphState) (phase : Phase) : Moves i s (s.setPhase i phase) := moves_setStage i s _

theorem moves_setFile (i fd : Nat) (s : GraphState) (file : Option StageFile) : Moves i s (s.setFile i fd file) := moves_setStage i s _

@[simp] theorem closePort_closed : ((s.closePort p).buffers q).closed = (decide (q = p) || (s.buffers q).closed) := by
  by_cases h : q = p
  · subst h
    simp [closePort]
  · simp [closePort, h]

theorem moves_closePort (i : Nat) (s : GraphState) (p : Port) : Moves i s (s.closePort p) :=
  ⟨fun _ _ => rfl, fun q hq => by simp [hq]⟩

theorem moves_closeFile (i : Nat) (s : GraphState) (file : Option StageFile) : Moves i s (s.closeFile file) := by
  cases file with
  | none => exact .refl i s
  | some file =>
    cases file with
    | port p => exact moves_closePort i s p
    | other id => exact .refl i s

theorem moves_closeFd (i fd : Nat) (s : GraphState) : Moves i s (s.closeFd i fd) := (moves_closeFile i s _).trans (moves_setFile i fd _ none)

theorem moves_renumberFd (i source target : Nat) (closes : Bool) (s : GraphState) : Moves i s (s.renumberFd i source target closes) := by
  unfold renumberFd
  split
  · exact .refl i s
  · split
    · exact ((moves_closePort i s _).trans (moves_setFile i _ _ _)).trans (moves_setFile i _ _ _)
    · split
      · exact (moves_setFile i _ _ _).trans (moves_setFile i _ _ _)
      · exact .refl i s
    · exact .refl i s

theorem moves_update (i : Nat) (s : GraphState) (p : Port) (data : Bytes) :
    Moves i s { s with buffers := Function.update s.buffers p { s.buffers p with data } } := by
  refine ⟨fun _ _ => rfl, fun q hq => ?_⟩
  by_cases h : q = p
  · subst h
    simpa using hq
  · simpa [h] using hq

theorem moves_handle (i : Nat) (s : GraphState) (op : HandlerOp) : Moves i s (s.handle i op) := by
  cases op with
  | read fd len =>
    simp only [handle]
    split
    · exact moves_update i s _ _
    · exact .refl i s
  | write fd data =>
    simp only [handle]
    split
    · unfold writePort
      split
      · exact .refl i s
      · exact moves_update i s _ _
    · exact .refl i s
  | close fd => exact moves_closeFd i fd s
  | renumber source target closes => exact moves_renumberFd i source target closes s
  | set fd file => exact moves_setFile i fd s (some file)

theorem closeFd_closes (h : (s.stages i).table fd = some (.port p)) : ((s.closeFd i fd).buffers p).closed = true := by
  have hclose : s.closeFd i fd = (s.closePort p).setFile i fd none := by rw [closeFd, h]; rfl
  rw [hclose]
  simp [setFile, setStage, closePort]

@[simp] theorem setPhase_phase (phase : Phase) : ((s.setPhase i phase).stages i).phase = phase := by simp [setPhase, setStage]

@[simp] theorem setPhase_table (phase : Phase) : ((s.setPhase i phase).stages i).table = (s.stages i).table := by simp [setPhase, setStage]

@[simp] theorem setPhase_buffers (phase : Phase) : (s.setPhase i phase).buffers = s.buffers := rfl

@[simp] theorem setFile_phase (file : Option StageFile) : ((s.setFile i fd file).stages i).phase = (s.stages i).phase := by simp [setFile, setStage]

@[simp] theorem setFile_buffers (file : Option StageFile) : (s.setFile i fd file).buffers = s.buffers := rfl

@[simp] theorem setFile_table (file : Option StageFile) (d : Nat) :
    ((s.setFile i fd file).stages i).table d = if d = fd then file else (s.stages i).table d := by
  by_cases h : d = fd
  · subst h
    simp [setFile, setStage]
  · simp [setFile, setStage, h]

@[simp] theorem closePort_stages : (s.closePort p).stages = s.stages := rfl

theorem closeFile_stages (file : Option StageFile) : (s.closeFile file).stages = s.stages := by
  cases file with
  | none => rfl
  | some file => cases file <;> rfl

@[simp] theorem closeFd_phase : ((s.closeFd i fd).stages i).phase = (s.stages i).phase := by
  rw [closeFd, setFile_phase, closeFile_stages]

theorem renumberFd_phase {source target : Nat} {closes : Bool} :
    ((s.renumberFd i source target closes).stages i).phase = (s.stages i).phase := by
  unfold renumberFd
  split
  · rfl
  · split
    · simp
    · split
      · simp
      · rfl
    · rfl

theorem handle_phase {op : HandlerOp} : ((s.handle i op).stages i).phase = (s.stages i).phase := by
  cases op with
  | read d len =>
    simp only [handle]
    split <;> rfl
  | write d data =>
    simp only [handle]
    split
    · unfold writePort
      split <;> rfl
    · rfl
  | close d => exact closeFd_phase
  | renumber source target closes => exact renumberFd_phase
  | set d file => exact setFile_phase _

@[simp] theorem closeFd_table (d : Nat) : ((s.closeFd i fd).stages i).table d = if d = fd then none else (s.stages i).table d := by
  rw [closeFd, setFile_table, closeFile_stages]

end GraphState

namespace GraphPlan
variable (plan : GraphPlan)
open GraphState

theorem moves_step (s : GraphState) (i : Nat) (act : StageAct) : Moves i s (plan.step s (i, act)) := by
  unfold step
  dsimp only
  split
  · split
    · exact (moves_setFile i _ s _).trans (moves_setPhase i _ _)
    · exact moves_setPhase i s _
  · exact moves_setPhase i s _
  · exact moves_handle i s _
  · exact moves_setPhase i s _
  · exact moves_setPhase i s _
  · exact (moves_closeFd i _ s).trans (moves_setPhase i _ _)
  · exact .refl i s

section
variable {plan} {s : GraphState} {i fd : Nat} {descriptor : Rc.StreamDescriptor} {todo : List (Nat × Rc.StreamDescriptor)}

theorem step_open_some (hphase : (s.stages i).phase = .setup ((fd, descriptor) :: todo)) {found : Option Nat} {file : StageFile}
    (h : plan.opened descriptor found = some file) :
    plan.step s (i, .open found) = (s.setFile i fd (some file)).setPhase i (.setup todo) := by
  simp only [step, hphase, h]

theorem step_open_none (hphase : (s.stages i).phase = .setup ((fd, descriptor) :: todo)) {found : Option Nat}
    (h : plan.opened descriptor found = none) : plan.step s (i, .open found) = s.setPhase i (.closing (plan.writable i)) := by
  simp only [step, hphase, h]

theorem step_start (hphase : (s.stages i).phase = .setup []) (found : Bool) :
    plan.step s (i, .start found) = s.setPhase i (if found then .running else .closing (plan.writable i)) := by
  simp only [step, hphase]

theorem step_close {fds : List Nat} (hphase : (s.stages i).phase = .closing (fd :: fds)) :
    plan.step s (i, .close) = (s.closeFd i fd).setPhase i (.closing fds) := by
  simp only [step, hphase]

/-- Opening the end of a pipe of the graph gives this end, if it gives anything. -/
theorem opened_of_portOf {p : Port} (h : plan.portOf descriptor = some p) (found : Option Nat) :
    plan.opened descriptor found = found.map fun _ => .port p := by
  have hreal : isVirtual descriptor = false := by
    cases descriptor with
    | inherit => cases h
    | null => cases h
    | fd d =>
      cases hpath : d.path with
      | none => simp [portOf, hpath] at h
      | some path => simp [isVirtual, hpath]
  rw [opened, hreal, if_neg Bool.false_ne_true, h]
  rfl

end

/-! ## The invariant -/

/-- The end is opened under this number, and nothing after it is. -/
def Later (todo : List (Nat × Rc.StreamDescriptor)) (p : Port) (fd : Nat) : Prop :=
  ∃ before descriptor after, todo = before ++ (fd, descriptor) :: after ∧ plan.portOf descriptor = some p ∧ fd ∉ after.map Prod.fst

/-- An end that a stage writes is closed, or it is under a number that will be closed. -/
inductive Secured (s : GraphState) (i : Nat) (p : Port) : Prop where
  | closed (h : (s.buffers p).closed = true)
  | later (fd : Nat) (todo : List (Nat × Rc.StreamDescriptor)) (hfd : fd ∈ plan.writable i) (hphase : (s.stages i).phase = .setup todo)
      (h : plan.Later todo p fd)
  | held (fd : Nat) (todo : List (Nat × Rc.StreamDescriptor)) (hfd : fd ∈ plan.writable i) (hphase : (s.stages i).phase = .setup todo)
      (hnot : fd ∉ todo.map Prod.fst) (h : (s.stages i).table fd = some (.port p))
  | inUse (fd : Nat) (hfd : fd ∈ plan.writable i) (hphase : (s.stages i).phase = .running) (h : (s.stages i).table fd = some (.port p))
  | closing (fd : Nat) (todo : List Nat) (hphase : (s.stages i).phase = .closing todo) (hmem : fd ∈ todo)
      (h : (s.stages i).table fd = some (.port p))

/-- The end is closed, or it is open under a writable number, apart from one. -/
def SafeBut (s : GraphState) (i : Nat) (p : Port) (fd : Option Nat) : Prop :=
  (s.buffers p).closed = true ∨ ∃ d ∈ plan.writable i, some d ≠ fd ∧ (s.stages i).table d = some (.port p)

/-- What fails, fails after the ends are open; a handler does not move an end away or put
another file in its place, and it does not panic while an end is open. -/
def StepKeeps (s : GraphState) (i : Nat) (p : Port) : StageAct → Prop
  | .open found => (∀ fd descriptor todo, (s.stages i).phase = .setup ((fd, descriptor) :: todo) → plan.opened descriptor found = none →
      plan.SafeBut s i p none)
  | .handler (.renumber source target _) =>
    (s.stages i).table source = some (.port p) → source = target ∨ (s.stages i).table target = none ∨ target ∈ plan.writable i ∨
      plan.SafeBut s i p (some source)
  | .handler (.set fd file) => (s.stages i).table fd = some (.port p) → file = .port p ∨ plan.SafeBut s i p (some fd)
  | .panic => (s.buffers p).closed = true
  | _ => True

section
variable {plan} {s s' : GraphState} {i j : Nat} {p : Port} {act : StageAct}

theorem Secured.frame (h : plan.Secured s i p) (hmoves : Moves j s s') (hij : i ≠ j) : plan.Secured s' i p := by
  have hstage := hmoves.frame i hij
  cases h with
  | closed h => exact .closed (hmoves.closed p h)
  | later fd todo hfd hphase h => exact .later fd todo hfd (by rw [hstage]; exact hphase) h
  | held fd todo hfd hphase hnot h => exact .held fd todo hfd (by rw [hstage]; exact hphase) hnot (by rw [hstage]; exact h)
  | inUse fd hfd hphase h => exact .inUse fd hfd (by rw [hstage]; exact hphase) (by rw [hstage]; exact h)
  | closing fd todo hphase hmem h => exact .closing fd todo (by rw [hstage]; exact hphase) hmem (by rw [hstage]; exact h)

/-- An end that is safe when the setup fails is closed afterwards by its number. -/
theorem secured_of_safe (h : plan.SafeBut s i p none) : plan.Secured (s.setPhase i (.closing (plan.writable i))) i p := by
  obtain hclosed | ⟨fd, hfd, -, htable⟩ := h
  · exact .closed hclosed
  · exact .closing fd _ (setPhase_phase _) hfd (by rw [setPhase_table]; exact htable)

theorem secured_later {fd : Nat} {todo : List (Nat × Rc.StreamDescriptor)} (hfd : fd ∈ plan.writable i)
    (hphase : (s.stages i).phase = .setup todo) (h : plan.Later todo p fd) (hkeeps : plan.StepKeeps s i p act) :
    plan.Secured (plan.step s (i, act)) i p := by
  obtain ⟨before, descriptor, after, rfl, hport, hafter⟩ := h
  have hsame : plan.step s (i, act) = s → plan.Secured (plan.step s (i, act)) i p := by
    intro heq
    rw [heq]
    exact .later fd _ hfd hphase ⟨before, descriptor, after, rfl, hport, hafter⟩
  cases act with
  | «open» found =>
    cases before with
    | nil =>
      cases found with
      | none =>
        have hnone := opened_of_portOf hport none
        rw [step_open_none hphase hnone]
        exact secured_of_safe (hkeeps _ _ _ hphase hnone)
      | some id =>
        rw [step_open_some hphase (opened_of_portOf hport (some id))]
        exact .held fd after hfd (setPhase_phase _) hafter (by simp)
    | cons head before =>
      cases hopen : plan.opened head.2 found with
      | none =>
        rw [step_open_none hphase hopen]
        exact secured_of_safe (hkeeps _ _ _ hphase hopen)
      | some file =>
        rw [step_open_some hphase hopen]
        exact .later fd _ hfd (setPhase_phase _) ⟨before, descriptor, after, rfl, hport, hafter⟩
  | start found => exact hsame (by cases before <;> simp only [step, hphase, List.nil_append, List.cons_append])
  | handler op => exact hsame (by cases before <;> simp only [step, hphase, List.nil_append, List.cons_append])
  | finish => exact hsame (by cases before <;> simp only [step, hphase, List.nil_append, List.cons_append])
  | panic => exact hsame (by cases before <;> simp only [step, hphase, List.nil_append, List.cons_append])
  | close => exact hsame (by cases before <;> simp only [step, hphase, List.nil_append, List.cons_append])

theorem secured_held {fd : Nat} {todo : List (Nat × Rc.StreamDescriptor)} (hfd : fd ∈ plan.writable i)
    (hphase : (s.stages i).phase = .setup todo) (hnot : fd ∉ todo.map Prod.fst) (h : (s.stages i).table fd = some (.port p)) :
    plan.Secured (plan.step s (i, act)) i p := by
  have hsame : plan.step s (i, act) = s → plan.Secured (plan.step s (i, act)) i p := by
    intro heq
    rw [heq]
    exact .held fd todo hfd hphase hnot h
  have hclosing : plan.Secured (s.setPhase i (.closing (plan.writable i))) i p :=
    .closing fd _ (setPhase_phase _) hfd (by rw [setPhase_table]; exact h)
  cases act with
  | «open» found =>
    cases todo with
    | nil => exact hsame (by simp only [step, hphase])
    | cons head todo =>
      rw [List.map_cons, List.mem_cons, not_or] at hnot
      cases hopen : plan.opened head.2 found with
      | none =>
        rw [step_open_none hphase hopen]
        exact hclosing
      | some file =>
        rw [step_open_some hphase hopen]
        exact .held fd todo hfd (setPhase_phase _) hnot.2 (by simp [hnot.1, h])
  | start found =>
    cases todo with
    | nil =>
      rw [step_start hphase]
      cases found with
      | false => exact hclosing
      | true => exact .inUse fd hfd (setPhase_phase _) (by rw [setPhase_table]; exact h)
    | cons head todo => exact hsame (by simp only [step, hphase])
  | handler op => exact hsame (by cases todo <;> simp only [step, hphase])
  | finish => exact hsame (by cases todo <;> simp only [step, hphase])
  | panic => exact hsame (by cases todo <;> simp only [step, hphase])
  | close => exact hsame (by cases todo <;> simp only [step, hphase])

theorem secured_closing {fd : Nat} {todo : List Nat} (hphase : (s.stages i).phase = .closing todo) (hmem : fd ∈ todo)
    (h : (s.stages i).table fd = some (.port p)) : plan.Secured (plan.step s (i, act)) i p := by
  have hsame : plan.step s (i, act) = s → plan.Secured (plan.step s (i, act)) i p := by
    intro heq
    rw [heq]
    exact .closing fd todo hphase hmem h
  cases act with
  | close =>
    cases todo with
    | nil => cases hmem
    | cons d todo =>
      rw [step_close hphase]
      by_cases hd : fd = d
      · subst hd
        exact .closed (closeFd_closes h)
      · exact .closing fd todo (setPhase_phase _) ((List.mem_cons.mp hmem).resolve_left hd) (by simp [hd, h])
  | «open» found => exact hsame (by cases todo <;> simp only [step, hphase])
  | start found => exact hsame (by cases todo <;> simp only [step, hphase])
  | handler op => exact hsame (by cases todo <;> simp only [step, hphase])
  | finish => exact hsame (by cases todo <;> simp only [step, hphase])
  | panic => exact hsame (by cases todo <;> simp only [step, hphase])

/-- A file moves from one number to another, whose end is closed if it was one. -/
theorem moved_keeps {s₁ : GraphState} {fd source target : Nat} {file : StageFile} (hstages : s₁.stages = s.stages)
    (hmoves : Moves i s s₁) (htarget : (s.stages i).table target = some (.port p) → (s₁.buffers p).closed = true)
    (hsource : (s.stages i).table source = some file) (hfd : fd ∈ plan.writable i) (h : (s.stages i).table fd = some (.port p))
    (hkeeps : (s.stages i).table source = some (.port p) → target ∈ plan.writable i ∨ plan.SafeBut s i p (some source)) :
    plan.SafeBut ((s₁.setFile i source none).setFile i target (some file)) i p none := by
  have hkept : ∀ d ∈ plan.writable i, d ≠ source → (s.stages i).table d = some (.port p) →
      plan.SafeBut ((s₁.setFile i source none).setFile i target (some file)) i p none := by
    intro d hd hne htable
    by_cases hdt : d = target
    · subst hdt
      exact .inl (htarget htable)
    · exact .inr ⟨d, hd, by simp, by simp [hdt, hne, hstages, htable]⟩
  by_cases hfs : fd = source
  · subst hfs
    obtain hwritable | hclosed | ⟨d, hd, hne, htable⟩ := hkeeps h
    · have hfile : file = .port p := Option.some.inj (hsource.symm.trans h)
      exact .inr ⟨target, hwritable, by simp, by simp [hfile]⟩
    · exact .inl (hmoves.closed p hclosed)
    · exact hkept d hd (fun heq => hne (congrArg some heq)) htable
  · exact hkept fd hfd hfs h

/-- Renumbering an end moves it to a writable number, or leaves it open under another. -/
theorem renumber_keeps {fd source target : Nat} {closes : Bool} (hfd : fd ∈ plan.writable i) (h : (s.stages i).table fd = some (.port p))
    (hkeeps : plan.StepKeeps s i p (.handler (.renumber source target closes))) :
    plan.SafeBut (s.renumberFd i source target closes) i p none := by
  have hsame : plan.SafeBut s i p none := .inr ⟨fd, hfd, by simp, h⟩
  by_cases hst : source = target
  · rw [renumberFd, if_pos hst]
    exact hsame
  · cases hsource : (s.stages i).table source with
    | none =>
      simp only [renumberFd, if_neg hst, hsource]
      exact hsame
    | some file =>
      cases htarget : (s.stages i).table target with
      | none =>
        simp only [renumberFd, if_neg hst, hsource, htarget]
        exact hsame
      | some old =>
        have hmoved : (s.stages i).table source = some (.port p) → target ∈ plan.writable i ∨ plan.SafeBut s i p (some source) := by
          intro hport
          obtain heq | hnone | hrest := hkeeps hport
          · exact absurd heq hst
          · cases hnone.symm.trans htarget
          · exact hrest
        cases old with
        | port q =>
          simp only [renumberFd, if_neg hst, hsource, htarget]
          refine moved_keeps (closePort_stages) (moves_closePort i s q) ?_ hsource hfd h hmoved
          intro hport
          cases htarget.symm.trans hport
          simp
        | other id =>
          simp only [renumberFd, if_neg hst, hsource, htarget]
          cases closes with
          | false => exact hsame
          | true =>
            refine moved_keeps rfl (.refl i s) ?_ hsource hfd h hmoved
            intro hport
            cases htarget.symm.trans hport

/-- A handler leaves an end open under a writable number, or it closes the end. -/
theorem handle_keeps {fd : Nat} {op : HandlerOp} (hfd : fd ∈ plan.writable i) (h : (s.stages i).table fd = some (.port p))
    (hkeeps : plan.StepKeeps s i p (.handler op)) : plan.SafeBut (s.handle i op) i p none := by
  have hother : ∀ (target : Nat) (file : Option StageFile), target ≠ fd →
      ((s.setFile i target file).stages i).table fd = some (.port p) := by
    intro target file hne
    simp [hne.symm, h]
  cases op with
  | read d len =>
    refine .inr ⟨fd, hfd, by simp, ?_⟩
    simp only [handle]
    split <;> exact h
  | write d data =>
    refine .inr ⟨fd, hfd, by simp, ?_⟩
    simp only [handle]
    split
    · unfold writePort
      split <;> exact h
    · exact h
  | close d =>
    by_cases hd : fd = d
    · subst hd
      exact .inl (closeFd_closes h)
    · exact .inr ⟨fd, hfd, by simp, by simp [handle, hd, h]⟩
  | renumber source target closes =>
    exact renumber_keeps hfd h hkeeps
  | set d file =>
    by_cases hd : fd = d
    · subst hd
      obtain rfl | hclosed | ⟨e, he, hne, htable⟩ := hkeeps h
      · exact .inr ⟨fd, hfd, by simp, by simp [handle]⟩
      · exact .inl hclosed
      · have hefd : e ≠ fd := fun heq => hne (congrArg some heq)
        exact .inr ⟨e, he, by simp, by simp [handle, hefd, htable]⟩
    · exact .inr ⟨fd, hfd, by simp, by simp [handle, hd, h]⟩

theorem secured_running (hphase : (s.stages i).phase = .running) (h : plan.SafeBut s i p none) : plan.Secured s i p := by
  obtain hclosed | ⟨fd, hfd, -, htable⟩ := h
  · exact .closed hclosed
  · exact .inUse fd hfd hphase htable

theorem secured_inUse {fd : Nat} (hfd : fd ∈ plan.writable i) (hphase : (s.stages i).phase = .running)
    (h : (s.stages i).table fd = some (.port p)) (hkeeps : plan.StepKeeps s i p act) : plan.Secured (plan.step s (i, act)) i p := by
  have hsame : plan.step s (i, act) = s → plan.Secured (plan.step s (i, act)) i p := by
    intro heq
    rw [heq]
    exact .inUse fd hfd hphase h
  cases act with
  | handler op =>
    have hstep : plan.step s (i, .handler op) = s.handle i op := by simp only [step, hphase]
    rw [hstep]
    exact secured_running (handle_phase.trans hphase) (handle_keeps hfd h hkeeps)
  | finish =>
    have hstep : plan.step s (i, .finish) = s.setPhase i (.closing (plan.writable i)) := by simp only [step, hphase]
    rw [hstep]
    exact .closing fd _ (setPhase_phase _) hfd (by rw [setPhase_table]; exact h)
  | panic => exact .closed ((moves_step plan s i .panic).closed p hkeeps)
  | «open» found => exact hsame (by simp only [step, hphase])
  | start found => exact hsame (by simp only [step, hphase])
  | close => exact hsame (by simp only [step, hphase])

/-- A step of any thread keeps an end that a stage writes secured. -/
theorem secured_step (h : plan.Secured s i p) (hkeeps : plan.StepKeeps s i p act) : plan.Secured (plan.step s (i, act)) i p := by
  cases h with
  | closed h => exact .closed ((moves_step plan s i act).closed p h)
  | later fd todo hfd hphase h => exact secured_later hfd hphase h hkeeps
  | held fd todo hfd hphase hnot h => exact secured_held hfd hphase hnot h
  | inUse fd hfd hphase h => exact secured_inUse hfd hphase h hkeeps
  | closing fd todo hphase hmem h => exact secured_closing hphase hmem h

end

/-! ## Runs -/

/-- The step keeps every end that its stage writes. -/
def Meets (s : GraphState) (act : Nat × StageAct) : Prop := ∀ p binding, plan.BoundTo act.1 p binding → plan.StepKeeps s act.1 p act.2

/-- Every end that a stage writes is opened by the last binding of a number. -/
def Effective : Prop :=
  ∀ i p binding, plan.BoundTo i p binding → ∀ stage, plan.stages[i]? = some stage → ∃ last ∈ stage.fdBindings, plan.BoundTo i p last ∧
    lastBinding stage.fdBindings last.fd = some last

/-- Every end that some stage writes is secured in the thread of this stage. -/
def AllSecured (s : GraphState) : Prop := ∀ i p binding, plan.BoundTo i p binding → plan.Secured s i p

section
variable {plan} {s : GraphState} {i : Nat} {p : Port}

theorem allSecured_step {act : Nat × StageAct} (h : plan.AllSecured s) (hmeets : plan.Meets s act) : plan.AllSecured (plan.step s act) := by
  intro i p binding hbound
  by_cases hi : i = act.1
  · subst hi
    exact secured_step (h _ p binding hbound) (hmeets p binding hbound)
  · exact (h i p binding hbound).frame (moves_step plan s act.1 act.2) hi

theorem binding_ne_empty (p : Port) : p.binding ≠ "" := by
  intro h
  have hlength := congrArg String.length h
  rw [Port.binding] at hlength
  simp at hlength

/-- At the start the last binding of a number is still to be opened. -/
theorem allSecured_start (heffective : plan.Effective) : plan.AllSecured plan.start := by
  intro i p binding hbound
  obtain ⟨stage, hstage, -⟩ := hbound.stage
  obtain ⟨last, hmem, hlastBound, hlast⟩ := heffective i p binding hbound stage hstage
  have hwritable : last.fd ∈ plan.writable i := by
    rw [writable, hstage]
    exact List.mem_map_of_mem (List.mem_filter.mpr ⟨hmem, hlastBound.writable⟩)
  have hpath : last.path ≠ "" := by
    rw [hlastBound.path]
    exact binding_ne_empty p
  obtain ⟨before, after, hsetup, hafter⟩ := setupOf_split (plan.built i stage hstage) hlast hlastBound.opened.1 hlastBound.opened.2 hpath
  have hport : plan.portOf (.fd (fdDescriptorFromBinding plan.root last)) = some p := by
    have hresolved : (fdDescriptorFromBinding plan.root last).path = some (p.path plan.root) := by
      rw [fdDescriptorFromBinding, hlastBound.path, resolve_binding]
    rw [portOf, hresolved]
    exact resolvePort_path hlastBound.pipe
  exact .later last.fd _ hwritable rfl ⟨before, _, after, hsetup, hport, hafter⟩

/-- A secured end of a thread that has ended is closed. -/
theorem closed_of_ended (h : plan.Secured s i p) (hended : Ended s i) : (s.buffers p).closed = true := by
  obtain hphase | hphase := hended
  · cases h with
    | closed h => exact h
    | later fd todo hfd hsetup h => cases hsetup.symm.trans hphase
    | held fd todo hfd hsetup hnot h => cases hsetup.symm.trans hphase
    | inUse fd hfd hrunning h => cases hrunning.symm.trans hphase
    | closing fd todo hclosing hmem h =>
      cases hclosing.symm.trans hphase
      cases hmem
  · cases h with
    | closed h => exact h
    | later fd todo hfd hsetup h => cases hsetup.symm.trans hphase
    | held fd todo hfd hsetup hnot h => cases hsetup.symm.trans hphase
    | inUse fd hfd hrunning h => cases hrunning.symm.trans hphase
    | closing fd todo hclosing hmem h => cases hclosing.symm.trans hphase

/-- In every run whose steps keep the ends that their stages write, the thread of a stage that
has ended leaves these ends closed, and no reader of them waits. -/
theorem ended_stage_closes_pipes (plan : GraphPlan) (heffective : plan.Effective) (acts : List (Nat × StageAct))
    (hmeets : StepsMeet plan.step plan.Meets plan.start acts) (k : Nat) (i : Nat) (p : Port) (binding : RcFdBindingSpec)
    (hbound : plan.BoundTo i p binding) (hended : Ended (run plan.step plan.start (acts.take k)) i) :
    ((run plan.step plan.start (acts.take k)).buffers p).closed = true ∧ ¬ Blocks (run plan.step plan.start (acts.take k)) p := by
  have hall : plan.AllSecured (run plan.step plan.start (acts.take k)) :=
    run_invariant (fun _ _ h hok => allSecured_step h hok) (allSecured_start heffective) (hmeets.take k)
  have hclosed := closed_of_ended (hall i p binding hbound) hended
  refine ⟨hclosed, fun hblocks => ?_⟩
  rw [hblocks.2] at hclosed
  cases hclosed

end

/-! ## A pipeline of two stages -/

/-- The writer has its output in the pipe under `2` or under `1`, and what it has otherwise. -/
def writerBindings (fd : Nat) (rest : List RcFdBindingSpec) : List RcFdBindingSpec := .ofFile fd "pipe:0/data" false true :: rest

def stageOf (module : String) (fdBindings : List RcFdBindingSpec) : RcExecutableStageSpec :=
  { argv := ["wasi", module], stdin := "", cwd := ".", env := ∅, fdBindings }

def readerStage : RcExecutableStageSpec := stageOf "b.wasm" [.ofFile 0 "pipe:0/data1" true false]

def portDescriptor (fd : Nat) (path : String) (read write : Bool) : Rc.StreamDescriptor :=
  .fd { fd, kind := .pipe, path := some path, read, write, append := false }

def readerSpec : Rc.StdioSet × List Rc.FdDescriptor :=
  ({ stdin := portDescriptor 0 "#graph/pipe0/data1" true false, stdout := .inherit, stderr := .inherit }, [])

/-- `wasi a.wasm | wasi b.wasm` -/
def pipelinePlan : GraphPlan where
  root := "#graph"
  stages := [stageOf "a.wasm" (writerBindings 1 []), readerStage]
  depth := 1
  spec i := if i = 0 then ({ stdin := .null, stdout := portDescriptor 1 "#graph/pipe0/data" false true, stderr := .inherit }, []) else readerSpec
  built i stage h := by
    match i with
    | 0 =>
      cases h
      decide +kernel
    | 1 =>
      cases h
      decide +kernel
    | i + 2 => cases h

/-- `wasi a.wasm > no/such |[2] wasi b.wasm` -/
def redirectedPlan : GraphPlan where
  root := "#graph"
  stages := [stageOf "a.wasm" (writerBindings 2 [.ofFile 1 "no/such" false true]), readerStage]
  depth := 1
  spec i :=
    if i = 0 then
      ({ stdin := .null, stdout := .fd { fd := 1, kind := .file, path := some "no/such", read := false, write := true, append := false },
         stderr := portDescriptor 2 "#graph/pipe0/data" false true }, [])
    else readerSpec
  built i stage h := by
    match i with
    | 0 =>
      cases h
      decide +kernel
    | 1 =>
      cases h
      decide +kernel
    | i + 2 => cases h

def writtenPort : Port := { pipe := 0, side := .data }

theorem mem_pipes {plan : GraphPlan} {stage : RcExecutableStageSpec} {binding : RcFdBindingSpec} {pipe : Nat}
    (hstage : stage ∈ plan.stages) (hbinding : binding ∈ stage.fdBindings) (hpipe : bindingPipe binding = some pipe) : pipe ∈ plan.pipes := by
  rw [pipes, graphPipeIndices, List.mem_dedup, List.mem_mergeSort]
  exact List.mem_flatMap.mpr ⟨stage, hstage, List.mem_filterMap.mpr ⟨binding, hbinding, hpipe⟩⟩

theorem boundTo_pipelinePlan : pipelinePlan.BoundTo 0 writtenPort (.ofFile 1 "pipe:0/data" false true) where
  stage := ⟨_, rfl, List.mem_cons_self⟩
  path := by decide +kernel
  writable := rfl
  pipe := mem_pipes List.mem_cons_self List.mem_cons_self (by decide +kernel)
  opened := ⟨rfl, rfl⟩

theorem boundTo_redirectedPlan : redirectedPlan.BoundTo 0 writtenPort (.ofFile 2 "pipe:0/data" false true) where
  stage := ⟨_, rfl, List.mem_cons_self⟩
  path := by decide +kernel
  writable := rfl
  pipe := mem_pipes List.mem_cons_self List.mem_cons_self (by decide +kernel)
  opened := ⟨rfl, rfl⟩

theorem boundTo_pipelinePlan_only {i : Nat} {p : Port} {binding : RcFdBindingSpec} (h : pipelinePlan.BoundTo i p binding) :
    i = 0 ∧ binding = .ofFile 1 "pipe:0/data" false true := by
  obtain ⟨stage, hstage, hmem⟩ := h.stage
  match i with
  | 0 =>
    cases hstage
    exact ⟨rfl, List.mem_singleton.mp hmem⟩
  | 1 =>
    cases hstage
    cases List.mem_singleton.mp hmem
    cases h.writable
  | i + 2 => cases hstage

/-- The writer opens what it has, reports an error and returns. -/
def writerRun : List (Nat × StageAct) :=
  [(0, .open (some 0)), (0, .open (some 0)), (0, .open (some 0)), (0, .start true), (0, .handler (.write 2 [10])), (0, .finish), (0, .close)]

theorem ended_stage_closes_pipeline :
    ((run pipelinePlan.step pipelinePlan.start (writerRun.take 7)).buffers writtenPort).closed = true ∧
      ¬ Blocks (run pipelinePlan.step pipelinePlan.start (writerRun.take 7)) writtenPort := by
  have heffective : pipelinePlan.Effective := by
    intro i p binding hbound stage hstage
    obtain ⟨rfl, rfl⟩ := boundTo_pipelinePlan_only hbound
    cases hstage
    exact ⟨_, List.mem_cons_self, hbound, rfl⟩
  have hopen : ∀ s, pipelinePlan.Meets s (0, .open (some 0)) := by
    intro s p binding hbound fd descriptor todo hphase hnone
    unfold opened at hnone
    split at hnone <;> cases hnone
  have hended : Ended (run pipelinePlan.step pipelinePlan.start (writerRun.take 7)) 0 := by
    left
    rfl
  refine ended_stage_closes_pipes pipelinePlan heffective writerRun ?_ 7 0 writtenPort _ boundTo_pipelinePlan hended
  exact ⟨hopen _, hopen _, hopen _, fun _ _ _ => trivial, fun _ _ _ => trivial, fun _ _ _ => trivial, fun _ _ _ => trivial, trivial⟩

/-- What an empty file system answers when the output of a stage is opened. -/
def openedForOutput (path : String) : Option Nat :=
  match (memFs.openFile path (.wronly ||| .create ||| .trunc) (FileMode.fromPerm 0o666) (MemFs.new fun _ => 0)).1 with
  | .ok _ => some 0
  | _ => none

/-- The first descriptor opens and the second, whose directory does not exist, does not; what is
writable is closed. -/
def failedRun : List (Nat × StageAct) := [(0, .open (some 0)), (0, .open (openedForOutput "no/such")), (0, .close), (0, .close)]

/-- The end of the pipe would have been opened third. It is not closed, and its reader waits. -/
theorem ended_stage_leaves_pipe : ¬ ∀ (plan : GraphPlan) (acts : List (Nat × StageAct)) (i : Nat) (p : Port) (binding : RcFdBindingSpec),
    plan.BoundTo i p binding → Ended (run plan.step plan.start acts) i →
      ((run plan.step plan.start acts).buffers p).closed = true ∧ ¬ Blocks (run plan.step plan.start acts) p := by
  intro h
  have hfails : openedForOutput "no/such" = none := by decide +kernel
  have hrun : failedRun = [(0, .open (some 0)), (0, .open none), (0, .close), (0, .close)] := by rw [failedRun, hfails]
  have hended : Ended (run redirectedPlan.step redirectedPlan.start failedRun) 0 := by
    rw [hrun]
    exact .inl rfl
  have hclosed := (h redirectedPlan failedRun 0 writtenPort _ boundTo_redirectedPlan hended).1
  have hopen : ((run redirectedPlan.step redirectedPlan.start failedRun).buffers writtenPort).closed = false := by
    rw [hrun]
    rfl
  rw [hopen] at hclosed
  cases hclosed

end GraphPlan
end Star9.Shell
