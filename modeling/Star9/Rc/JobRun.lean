import Star9.Rc.Jobs

/-!
# Jobs and their reports

A run of job commands: numbers are handed out, jobs enter one of the two tables and
`wait` takes them out. A background command may go through other commands before
its job enters a table, so the three steps are taken in any order. Beside the tables
the run remembers the jobs that were started and those that each `wait` reported.
-/
namespace Star9.Rc
open Base

structure JobLedger where
  tables : JobTables
  /-- numbers whose background command has not come to its end -/
  pending : List UInt32
  started : List UInt32
  reports : List (List UInt32)

inductive JobOp where
  | allocate
  | accept (id : UInt32) (result : RcCommandResult)
  | push (job : RcJob)
  | wait (requested : Option UInt32)

namespace JobTables
variable {t : JobTables}

/-- The numbers of the jobs in the tables. -/
def unreported (t : JobTables) : List UInt32 := t.running.keys ++ t.jobs.map RcJob.id

/-- The numbers that a `wait` reports. -/
def reportedBy (requested : Option UInt32) (t : JobTables) : List UInt32 := (t.wait requested).1.map RcProcessJobResult.id

theorem keys_perm_insert {id : UInt32} (hid : id ∉ t.running.keys) (result : RcCommandResult) :
    (t.running.insert id result).keys.Perm (id :: t.running.keys) := by
  refine (List.perm_ext_iff_of_nodup Std.ExtTreeMap.nodup_keys (List.nodup_cons.mpr ⟨hid, Std.ExtTreeMap.nodup_keys⟩)).mpr ?_
  intro a
  have hcmp : compare id a = Ordering.eq ↔ a = id := by
    rw [@eq_comm _ a id]
    simp
  rw [Std.ExtTreeMap.mem_keys, Std.ExtTreeMap.mem_insert, hcmp, List.mem_cons, Std.ExtTreeMap.mem_keys]

theorem keys_perm_erase {id : UInt32} {result : RcCommandResult} (hid : t.running[id]? = some result) :
    t.running.keys.Perm (id :: (t.running.erase id).keys) := by
  have hmem : id ∈ t.running := by
    rw [← Std.ExtTreeMap.isSome_getElem?_iff_mem, hid]
    rfl
  have hnot : id ∉ (t.running.erase id).keys := by
    rw [Std.ExtTreeMap.mem_keys]
    simp
  refine (List.perm_ext_iff_of_nodup Std.ExtTreeMap.nodup_keys (List.nodup_cons.mpr ⟨hnot, Std.ExtTreeMap.nodup_keys⟩)).mpr ?_
  intro a
  rw [List.mem_cons, Std.ExtTreeMap.mem_keys, Std.ExtTreeMap.mem_keys, Std.ExtTreeMap.mem_erase]
  by_cases ha : a = id
  · subst ha
    simp [hmem]
  · simp [ha, Ne.symm ha]

theorem jobs_perm_erase {jobs : List RcJob} {id : UInt32} {job : RcJob} (hjob : jobs.find? (fun job => job.id = id) = some job) :
    (jobs.map RcJob.id).Perm (job.id :: (jobs.eraseP fun job => job.id = id).map RcJob.id) := by
  have hp := List.find?_some hjob
  obtain ⟨found, before, after, -, hfound, hjobs, herase⟩ := List.exists_of_eraseP (p := fun job : RcJob => decide (job.id = id))
    (List.mem_of_find?_eq_some hjob) hp
  have hid : job.id = found.id := (of_decide_eq_true hp).trans (of_decide_eq_true hfound).symm
  rw [herase, hjobs, hid, List.map_append, List.map_cons, List.map_append]
  exact List.perm_middle

/-- What a `wait` reports it takes out of the tables, and it takes out nothing else. -/
theorem wait_perm (requested : Option UInt32) (t : JobTables) :
    t.unreported.Perm (t.reportedBy requested ++ (t.wait requested).2.unreported) := by
  unfold reportedBy wait unreported
  cases requested with
  | none =>
    dsimp only
    by_cases hempty : t.running.isEmpty = true
    · rw [if_pos hempty]
      have hkeys : t.running.keys = [] := by
        rw [← List.isEmpty_iff, Std.ExtTreeMap.isEmpty_keys, hempty]
      simp only [waitSession, hkeys, List.map_map, List.map_nil, List.append_nil, List.nil_append]
      exact List.Perm.refl _
    · rw [if_neg hempty]
      dsimp only
      rw [List.map_map]
      have hids : t.running.toList.map (RcProcessJobResult.id ∘ fun job => JobHost.jobResult job.1 job.2) = t.running.keys := by
        rw [← Std.ExtTreeMap.map_fst_toList_eq_keys]
        rfl
      rw [hids, Std.ExtTreeMap.keys_eq_nil_iff.mpr rfl, List.nil_append]
  | some id =>
    dsimp only
    cases hrun : t.running[id]? with
    | some result => exact (keys_perm_erase hrun).append_right _
    | none =>
      dsimp only [waitSession]
      cases hjob : t.jobs.find? fun job => job.id = id with
      | none => exact List.Perm.refl _
      | some job =>
        have hperm := (jobs_perm_erase hjob).append_left t.running.keys
        exact hperm.trans List.perm_middle

theorem reportedBy_of_mem {id : UInt32} (hid : id ∈ t.unreported) : t.reportedBy (some id) = [id] := by
  unfold reportedBy wait
  dsimp only
  cases hrun : t.running[id]? with
  | some result => rfl
  | none =>
    have hkeys : id ∉ t.running.keys := by
      rw [Std.ExtTreeMap.mem_keys, ← Std.ExtTreeMap.isSome_getElem?_iff_mem, hrun]
      simp
    obtain ⟨job, hmem, hjob⟩ := List.mem_map.mp ((List.mem_append.mp hid).resolve_left hkeys)
    simp only [waitSession]
    cases hfind : t.jobs.find? fun job => job.id = id with
    | none =>
      have hnone := List.find?_eq_none.mp hfind job hmem
      simp [hjob] at hnone
    | some found =>
      have hp := List.find?_some hfind
      exact congrArg (fun a => [a]) (of_decide_eq_true hp)

theorem unreported_wait_none : (t.wait none).2.unreported = [] ↔ t.running.isEmpty = true ∨ t.jobs = [] := by
  unfold wait
  dsimp only
  by_cases hempty : t.running.isEmpty = true
  · have hkeys : t.running.keys = [] := by
      rw [← List.isEmpty_iff, Std.ExtTreeMap.isEmpty_keys, hempty]
    simp [waitSession, unreported, hkeys, hempty]
  · simp [unreported, hempty]

end JobTables

namespace JobLedger
variable {l : JobLedger}

def init : JobLedger := { tables := .empty, pending := [], started := [], reports := [] }

/-- The number was handed out, and its job now enters a table. -/
def enter (l : JobLedger) (id : UInt32) (tables : JobTables) : JobLedger :=
  if id ∈ l.pending then { l with tables, pending := l.pending.erase id, started := l.started ++ [id] } else l

def step (l : JobLedger) : JobOp → JobLedger
  | .allocate => { l with tables := l.tables.allocate, pending := l.pending ++ [l.tables.nextJobId] }
  | .accept id result => l.enter id (l.tables.accept id result)
  | .push job => l.enter job.id (l.tables.push job)
  | .wait requested =>
    { l with tables := (l.tables.wait requested).2, reports := l.reports ++ [l.tables.reportedBy requested] }

/-- No job has been reported twice, and a `wait` for a job that has not been reported would report it. -/
structure Sound (l : JobLedger) : Prop where
  once : l.reports.flatten.Nodup
  found : ∀ id ∈ l.started, id ∉ l.reports.flatten → l.tables.reportedBy (some id) = [id]

/-- A plain `wait` leaves no job unreported. -/
def WaitsForAll (l : JobLedger) (op : JobOp) : Prop :=
  op = .wait none → ∀ id ∈ l.started, id ∈ (l.step op).reports.flatten

/-- The counter has not come around to a number that was handed out before. -/
def Fresh (l : JobLedger) (op : JobOp) : Prop := op = .allocate → l.tables.nextJobId ∉ l.pending ++ l.started

/-- A plain `wait` finds jobs in one table only. -/
def OneTable (l : JobLedger) (op : JobOp) : Prop :=
  op = .wait none → l.tables.running.isEmpty = true ∨ l.tables.jobs = []

/-- The jobs that were started have been reported or are in a table, each in one place. -/
structure Inv (l : JobLedger) : Prop where
  nodup : (l.pending ++ l.started).Nodup
  placed : l.started.Perm (l.reports.flatten ++ l.tables.unreported)

theorem Inv.sound (h : Inv l) : l.Sound := by
  have hstarted : l.started.Nodup := h.nodup.of_append_right
  have hplaced : (l.reports.flatten ++ l.tables.unreported).Nodup := h.placed.nodup_iff.mp hstarted
  refine ⟨hplaced.of_append_left, fun id hid hnot => ?_⟩
  have hmem := h.placed.mem_iff.mp hid
  exact JobTables.reportedBy_of_mem ((List.mem_append.mp hmem).resolve_left hnot)

theorem Inv.enter (h : Inv l) {id : UInt32} {tables : JobTables}
    (htables : id ∉ l.tables.unreported → tables.unreported.Perm (id :: l.tables.unreported)) : Inv (l.enter id tables) := by
  unfold JobLedger.enter
  split
  · rename_i hpending
    have hnot : id ∉ l.started := List.disjoint_of_nodup_append h.nodup hpending
    have hunreported : id ∉ l.tables.unreported :=
      fun hmem => hnot (h.placed.mem_iff.mpr (List.mem_append_right _ hmem))
    constructor
    · have hperm : (l.pending ++ l.started).Perm (l.pending.erase id ++ (l.started ++ [id])) :=
        calc
          (l.pending ++ l.started).Perm (id :: (l.pending.erase id ++ l.started)) :=
            (List.perm_cons_erase hpending).append_right l.started
          List.Perm _ ((l.pending.erase id ++ l.started) ++ [id]) := (List.perm_append_singleton id _).symm
          List.Perm _ (l.pending.erase id ++ (l.started ++ [id])) := by rw [List.append_assoc]
      exact hperm.nodup_iff.mp h.nodup
    · calc
        (l.started ++ [id]).Perm (id :: l.started) := List.perm_append_singleton id _
        List.Perm _ (id :: (l.reports.flatten ++ l.tables.unreported)) := h.placed.cons id
        List.Perm _ (l.reports.flatten ++ id :: l.tables.unreported) := List.perm_middle.symm
        List.Perm _ (l.reports.flatten ++ tables.unreported) := (htables hunreported).symm.append_left _
  · exact h

theorem Inv.step (h : Inv l) {op : JobOp} (hfresh : Fresh l op) : Inv (l.step op) := by
  cases op with
  | allocate =>
    refine ⟨?_, h.placed⟩
    have hperm : (l.pending ++ l.started ++ [l.tables.nextJobId]).Perm (l.pending ++ [l.tables.nextJobId] ++ l.started) := by
      rw [List.append_assoc, List.append_assoc]
      exact List.perm_append_comm.append_left l.pending
    refine hperm.nodup_iff.mp ?_
    rw [List.nodup_append_comm, List.singleton_append]
    exact List.nodup_cons.mpr ⟨hfresh rfl, h.nodup⟩
  | accept id result =>
    refine h.enter fun hid => ?_
    have hkeys : id ∉ l.tables.running.keys := fun hmem => hid (List.mem_append_left _ hmem)
    exact (JobTables.keys_perm_insert hkeys result).append_right _
  | push job =>
    refine h.enter fun _ => ?_
    unfold JobTables.push JobTables.unreported
    rw [List.map_append, ← List.append_assoc]
    exact List.perm_append_singleton job.id _
  | wait requested =>
    refine ⟨h.nodup, ?_⟩
    unfold JobLedger.step
    rw [List.flatten_append, List.flatten_singleton, List.append_assoc]
    exact h.placed.trans ((JobTables.wait_perm requested l.tables).append_left _)

theorem Inv.waitsForAll_iff (h : Inv l) (op : JobOp) : WaitsForAll l op ↔ OneTable l op := by
  unfold WaitsForAll OneTable
  refine forall_congr' fun hop => ?_
  subst hop
  have hstep : Inv (l.step (.wait none)) := h.step fun hop => nomatch hop
  have hnodup : ((l.step (.wait none)).reports.flatten ++ (l.step (.wait none)).tables.unreported).Nodup :=
    hstep.placed.nodup_iff.mp hstep.nodup.of_append_right
  have hempty : (l.step (.wait none)).tables.unreported = [] ↔ l.tables.running.isEmpty = true ∨ l.tables.jobs = [] :=
    JobTables.unreported_wait_none
  rw [← hempty]
  constructor
  · intro hall
    refine List.eq_nil_iff_forall_not_mem.mpr fun id hid => ?_
    have hstarted : id ∈ l.started := hstep.placed.mem_iff.mpr (List.mem_append_right _ hid)
    exact List.disjoint_of_nodup_append hnodup (hall id hstarted) hid
  · intro hnil id hid
    have hmem := hstep.placed.mem_iff.mp hid
    rwa [hnil, List.append_nil] at hmem

theorem init_inv : Inv init := ⟨List.nodup_nil, List.Perm.refl _⟩

theorem Inv.waitsForAll_run (h : Inv l) {ops : List JobOp} (hfresh : StepsMeet JobLedger.step Fresh l ops) :
    StepsMeet JobLedger.step WaitsForAll l ops ↔ StepsMeet JobLedger.step OneTable l ops := by
  induction ops generalizing l with
  | nil => exact Iff.rfl
  | cons op ops ih => exact and_congr (h.waitsForAll_iff op) (ih (h.step hfresh.1) hfresh.2)

/-- A job that rc has run itself, with no output. -/
def quietJob (id : UInt32) : RcJob := { id, status := .success, stdout := "", stderr := "", graph := none }

/-- Two jobs of both kinds that are waited for one by one, and a third. -/
def separateRun : List JobOp :=
  [.allocate, .allocate, .accept 1 ⟨.success, "", ""⟩, .push (quietJob 2), .wait (some 2), .wait none, .allocate,
    .push (quietJob 3), .wait none]

/-- A job of the session and one of the host, and then a plain `wait`. -/
def mixedRun : List JobOp :=
  [.allocate, .push (quietJob 1), .allocate, .accept 2 ⟨.success, "", ""⟩, .wait none]

end JobLedger
end Star9.Rc
