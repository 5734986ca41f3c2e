import Star9.Runtime.WorkerRun

/-!
# What a worker denotes

The host binds a worker to the text that a request gives for its task. The text is a
task number or an alias, so the worker denotes one task as long as the text does.
-/
namespace Star9
open Base Prog

namespace RuntimeProtocolHost
variable {F : Type} {h h' h'' : RuntimeProtocolHost F}

theorem lookup?_eq (rid : String) (h : RuntimeProtocolHost F) :
    lookup? rid h = ((h.resources[rid]?).map RuntimeTask.id).or h.aliases[rid]? := by
  unfold lookup?
  cases h.resources[rid]? with
  | some task => rfl
  | none => rfl

/-- A task is kept under its number, an alias stands for a task that exists, and the text
recorded for a worker denotes the tasks that requests have acted on. -/
structure Inv (h : RuntimeProtocolHost F) : Prop where
  keys : ∀ (k : String) (task : RuntimeTask F), h.resources[k]? = some task → k = toString task.id
  targets : ∀ (k : String) (id : Nat), h.aliases[k]? = some id → ∃ task, h.resources[toString id]? = some task
  acted : ∀ x ∈ h.acted, ∃ s, h.workers[x.1]? = some s ∧ lookup? s h = some x.2

theorem Inv.task (hinv : Inv h) {id : Nat} {task : RuntimeTask F} (ht : h.resources[toString id]? = some task) : task.id = id :=
  (Nat.repr_inj.mp (hinv.keys _ task ht)).symm

theorem Inv.resource (hinv : Inv h) {rid : String} {id : Nat} (hid : lookup? rid h = some id) :
    ∃ task, h.resources[toString id]? = some task ∧ task.id = id := by
  unfold lookup? at hid
  cases ht : h.resources[rid]? with
  | some task =>
    rw [ht] at hid
    cases hid
    exact ⟨task, by rw [← hinv.keys rid task ht]; exact ht, rfl⟩
  | none =>
    rw [ht] at hid
    obtain ⟨task, htask⟩ := hinv.targets rid id hid
    exact ⟨task, htask, hinv.task htask⟩

theorem Inv.lookup_id (hinv : Inv h) {rid : String} {id : Nat} (hid : lookup? rid h = some id) :
    lookup? (toString id) h = some id := by
  obtain ⟨task, ht, htid⟩ := hinv.resource hid
  rw [lookup?_eq, ht, Option.map_some, htid]
  rfl

theorem new_inv : Inv (new : RuntimeProtocolHost F) := by
  refine ⟨fun k task hk => ?_, fun k id hk => ?_, nofun⟩
  · change ((∅ : Std.ExtTreeMap String (RuntimeTask F)).insert "1" (newTask 1 "auto" none))[k]? = some task at hk
    rw [getElem?_insert_eq] at hk
    split at hk
    · rename_i heq
      cases hk
      change k = toString 1
      rw [heq]
      decide
    · simp at hk
  · change (∅ : Std.ExtTreeMap String Nat)[k]? = some id at hk
    simp at hk

/-! ## Steps that keep what a text denotes -/

/-- The workers keep their tasks, and every text denotes what it did. -/
structure Keeps (h h' : RuntimeProtocolHost F) : Prop where
  inv : Inv h → Inv h'
  workers : ∀ (w s : String), h.workers[w]? = some s → h'.workers[w]? = some s
  lookups : ∀ rid, lookup? rid h' = lookup? rid h

theorem Keeps.refl (h : RuntimeProtocolHost F) : Keeps h h := ⟨fun hinv => hinv, fun _ _ hw => hw, fun _ => rfl⟩

theorem Keeps.trans (h₁ : Keeps h h') (h₂ : Keeps h' h'') : Keeps h h'' := by
  refine ⟨fun hinv => h₂.inv (h₁.inv hinv), fun w s hw => h₂.workers w s (h₁.workers w s hw), fun rid => ?_⟩
  rw [h₂.lookups, h₁.lookups]

instance : IsPreorder (RuntimeProtocolHost F) Keeps where
  refl := Keeps.refl
  trans _ _ _ := Keeps.trans

theorem keeps_of (hids : ∀ k : String, (h'.resources[k]?).map RuntimeTask.id = (h.resources[k]?).map RuntimeTask.id)
    (haliases : h'.aliases = h.aliases) (hworkers : ∀ w s : String, h.workers[w]? = some s → h'.workers[w]? = some s)
    (hacted : h'.acted = h.acted) : Keeps h h' := by
  have hlook : ∀ rid, lookup? rid h' = lookup? rid h := by
    intro rid
    rw [lookup?_eq, lookup?_eq, hids, haliases]
  refine ⟨fun hinv => ⟨fun k task ht => ?_, fun k id hk => ?_, fun x hx => ?_⟩, hworkers, hlook⟩
  · have hid := hids k
    rw [ht] at hid
    obtain ⟨old, hold, hsame⟩ := Option.map_eq_some_iff.mp hid.symm
    rw [hinv.keys k old hold, hsame]
  · rw [haliases] at hk
    obtain ⟨task, ht⟩ := hinv.targets k id hk
    have hid := hids (toString id)
    rw [ht] at hid
    obtain ⟨new, hnew, -⟩ := Option.map_eq_some_iff.mp hid
    exact ⟨new, hnew⟩
  · rw [hacted] at hx
    obtain ⟨s, hs, hl⟩ := hinv.acted x hx
    exact ⟨s, hworkers _ s hs, by rw [hlook, hl]⟩

theorem modifyTask_of_some {id : Nat} {task : RuntimeTask F} (ht : h.resources[toString id]? = some task)
    (f : RuntimeTask F → RuntimeTask F) : modifyTask id f h = { h with resources := h.resources.insert (toString id) (f task) } := by
  unfold modifyTask
  rw [ht]

theorem keeps_modifyTask (id : Nat) {f : RuntimeTask F → RuntimeTask F} (hf : ∀ task, (f task).id = task.id) (h : RuntimeProtocolHost F) :
    Keeps h (modifyTask id f h) := by
  unfold modifyTask
  cases ht : h.resources[toString id]? with
  | none => exact .refl h
  | some task =>
    refine keeps_of (fun k => ?_) rfl (fun _ _ hw => hw) rfl
    change ((h.resources.insert (toString id) (f task))[k]?).map RuntimeTask.id = _
    rw [getElem?_insert_eq]
    by_cases hk : k = toString id
    · rw [if_pos hk, hk, ht, Option.map_some, Option.map_some, hf]
    · rw [if_neg hk]

theorem evolves_modifyTask (id : Nat) {f : RuntimeTask F → RuntimeTask F} (hf : ∀ task, (f task).id = task.id) :
    Evolves Keeps (Prog.modify (modifyTask id f) : Prog (RuntimeProtocolHost F) Error Unit) := keeps_modifyTask id hf

theorem keeps_upsertPort (port : PortDescriptor) (owner : String) (workerId target : Option String) (h : RuntimeProtocolHost F) :
    Keeps h (upsertPort port owner workerId target h) := keeps_of (fun _ => rfl) rfl (fun _ _ hw => hw) rfl

theorem keeps_logMessage (id : Nat) (message : TaskMessage) (h : RuntimeProtocolHost F) : Keeps h (logMessage id message h) :=
  keeps_of (fun _ => rfl) rfl (fun _ _ hw => hw) rfl

/-- The host once the worker is recorded. -/
def recorded (worker : WorkerHandle) (h : RuntimeProtocolHost F) : RuntimeProtocolHost F :=
  { h with workers := h.workers.insert worker.workerId worker.taskId }

theorem recorded_workers (worker : WorkerHandle) (h : RuntimeProtocolHost F) :
    (recorded worker h).workers[worker.workerId]? = some worker.taskId := by
  unfold recorded
  rw [getElem?_insert_eq, if_pos rfl]

theorem keeps_recorded {worker : WorkerHandle} (hc : Compatible h.workers worker) : Keeps h (recorded worker h) := by
  refine keeps_of (fun _ => rfl) rfl (fun w s hw => ?_) rfl
  unfold recorded
  rw [getElem?_insert_eq]
  by_cases heq : w = worker.workerId
  · rw [if_pos heq, ← hc s (by rw [← heq]; exact hw)]
  · rw [if_neg heq, hw]

/-- The worker is recorded under a text for the task. -/
theorem keeps_note {w s : String} {id : Nat} (hw : h.workers[w]? = some s) (hl : lookup? s h = some id) : Keeps h (note w id h) := by
  refine ⟨fun hinv => ⟨hinv.keys, hinv.targets, fun x hx => ?_⟩, fun _ _ hw => hw, fun _ => rfl⟩
  rcases List.mem_append.mp hx with hx | hx
  · exact hinv.acted x hx
  · cases List.mem_singleton.mp hx
    exact ⟨s, hw, hl⟩

/-- What a request does between recording the worker and its end keeps the worker. -/
theorem Keeps.note {w s : String} {id : Nat} (hk : Keeps h h') (hw : h.workers[w]? = some s) (hl : lookup? s h = some id) :
    Keeps h (note w id h') :=
  hk.trans (keeps_note (hk.workers w s hw) (by rw [hk.lookups, hl]))

theorem keeps_bind_modify {p : Prog (RuntimeProtocolHost F) Error Unit} {f : RuntimeProtocolHost F → RuntimeProtocolHost F}
    (hp : Keeps h (p h').2) (hf : Keeps h (f (p h').2)) : Keeps h ((p >>= fun _ => Prog.modify f) h').2 := by
  rw [bind_apply]
  rcases hr : p h' with ⟨a | e | _, s⟩ <;> rw [hr] at hp hf
  · exact hf
  · exact hp
  · exact hp

theorem evolves_setFd (id : Nat) (fd : UInt32) (file : OpenFile F) : Evolves Keeps (setFd id fd file) := by
  unfold setFd
  refine evolves_ite (fun _ => evolves_abort) fun _ => ?_
  exact evolves_modifyTask id fun _ => rfl

theorem evolves_applyExecutionSpec (env : RuntimeEnv F) (id : Nat) (worker : WorkerHandle) (execution : ExecutionSpec) :
    Evolves Keeps (applyExecutionSpec env id worker execution) := by
  unfold applyExecutionSpec installFds
  refine evolves_bind (evolves_modifyTask id fun _ => rfl) fun _ => ?_
  refine evolves_bind (evolves_forM fun fd _ => ?_) fun _ => evolves_modifyTask id fun _ => rfl
  exact evolves_bind (evolves_ofExcept fd.2) fun file => evolves_setFd id fd.1 file

theorem evolves_writeTaskFd (env : RuntimeEnv F) (id : Nat) (fd : UInt32) (data : Bytes) :
    Evolves Keeps (writeTaskFd env id fd data) := by
  unfold writeTaskFd
  refine evolves_bind evolves_get fun h => ?_
  cases h.resources[toString id]? with
  | none => exact evolves_abort
  | some task =>
    dsimp only
    cases task.files[fd.toNat]? with
    | none => exact evolves_throw _
    | some file => exact evolves_bind (evolves_modifyTask id fun _ => rfl) fun _ => evolves_ofExcept _

theorem evolves_handoffPort (request : PortHandoff) : Evolves Keeps (handoffPort (F := F) request) := by
  intro h
  unfold handoffPort
  rcases lookupTaskForWorker_cases request.worker h with ⟨id, hlook, hid, hc⟩ | ⟨⟨e, hlook⟩, -⟩
  · rw [bind_ok hlook]
    cases htarget : lookup? request.targetTaskId h with
    | none =>
      rw [bind_err (lookup_of_none htarget)]
      exact .refl h
    | some target =>
      rw [bind_ok (lookup_of_some htarget), bind_ok (recordWorker_of_compatible hc)]
      have hk := (keeps_recorded hc).lookups request.worker.taskId
      exact (keeps_recorded hc).trans ((keeps_upsertPort _ _ _ _ _).note (recorded_workers request.worker h) (by rw [hk, hid]))
  · rw [bind_err hlook]
    exact .refl h

theorem evolves_deliverPayload (env : RuntimeEnv F) (id : Nat) (message : TaskMessage) :
    Evolves Keeps (deliverPayload env id message) := by
  unfold deliverPayload
  cases message.payload with
  | ready => exact evolves_pure ()
  | exit status => exact evolves_modifyTask id fun _ => rfl
  | portOpened port => exact fun h => keeps_upsertPort _ _ _ _ h
  | portHandoff handoff => exact evolves_bind (evolves_handoffPort handoff) fun _ => evolves_pure ()
  | stdioData stream data eof => exact evolves_writeTaskFd env id (stdioFd stream) data
  | fdData fd data eof => exact evolves_writeTaskFd env id fd data

theorem evolves_startWorker (env : RuntimeEnv F) (worker : WorkerHandle) (execution : ExecutionSpec) :
    Evolves Keeps (startWorker env worker execution) := by
  intro h
  unfold startWorker
  rcases lookupTaskForWorker_cases worker h with ⟨id, hlook, hid, hc⟩ | ⟨⟨e, hlook⟩, -⟩
  · rw [bind_ok hlook, bind_ok (recordWorker_of_compatible hc)]
    have happly := evolves_applyExecutionSpec env id worker execution (recorded worker h)
    have hk := (keeps_recorded hc).lookups worker.taskId
    exact (keeps_recorded hc).trans (keeps_bind_modify happly (happly.note (recorded_workers worker h) (by rw [hk, hid])))
  · rw [bind_err hlook]
    exact .refl h

theorem evolves_openPort (worker : WorkerHandle) (port : PortDescriptor) : Evolves Keeps (openPort (F := F) worker port) := by
  intro h
  unfold openPort
  rcases lookupTaskForWorker_cases worker h with ⟨id, hlook, hid, hc⟩ | ⟨⟨e, hlook⟩, -⟩
  · rw [bind_ok hlook, bind_ok (recordWorker_of_compatible hc)]
    have hk := (keeps_recorded hc).lookups worker.taskId
    exact (keeps_recorded hc).trans ((keeps_upsertPort _ _ _ _ _).note (recorded_workers worker h) (by rw [hk, hid]))
  · rw [bind_err hlook]
    exact .refl h

theorem Inv.postMessage (hinv : Inv h) (env : RuntimeEnv F) (message : TaskMessage) : Inv (postMessage env message h).2 := by
  unfold RuntimeProtocolHost.postMessage
  cases hid : lookup? message.taskId h with
  | none =>
    rw [bind_err (lookup_of_none hid)]
    exact hinv
  | some id =>
    rw [bind_ok (lookup_of_some hid)]
    have hself := hinv.lookup_id hid
    cases hworker : message.workerId with
    | none =>
      refine Keeps.inv ?_ hinv
      have hrest := (keeps_logMessage id message h).trans (evolves_deliverPayload env id message _)
      exact keeps_bind_modify hrest hrest
    | some w =>
      by_cases hc : Compatible h.workers ⟨w, toString id⟩
      · have hrecord : recordSender id (some w) h = (.ok (), recorded ⟨w, toString id⟩ h) := recordWorker_of_compatible hc
        rw [bind_ok hrecord]
        refine Keeps.inv ?_ ((keeps_recorded hc).inv hinv)
        have hrest := (keeps_logMessage id message (recorded ⟨w, toString id⟩ h)).trans (evolves_deliverPayload env id message _)
        have hk := (keeps_recorded hc).lookups (toString id)
        exact keeps_bind_modify hrest (hrest.note (recorded_workers ⟨w, toString id⟩ h) (by rw [hk, hself]))
      · have hrecord : recordSender id (some w) h = (.err (conflict w), h) := recordWorker_of_not hc
        rw [bind_err hrecord]
        exact hinv

/-! ## Steps that may change what a text denotes -/

/-- The alias is the text of a worker that requests have acted on. -/
def BoundAlias (h : RuntimeProtocolHost F) (s : String) : Prop :=
  h.resources[s]? = none ∧ ∃ x ∈ h.acted, h.workers[x.1]? = some s

/-- The next task number is not an alias that a worker is bound to. -/
def Unclaimed (h : RuntimeProtocolHost F) : Prop := h.nextId ≠ 0xffffffff → ¬BoundAlias h (toString (h.nextId.toNat + 1))

/-- No alias that a worker is bound to is taken away, given to another task, or hidden by a new task number. -/
def Steady (h : RuntimeProtocolHost F) : HostOp F → Prop
  | .setAlias id new => ∀ task, h.resources[toString id]? = some task → ∀ s, BoundAlias h s →
      (s = task.aliasName → s = new) ∧ (s = new → h.aliases[s]? = some id)
  | .alloc _ _ => Unclaimed h
  | .request _ (.spawnWorker _ parentTaskId) => (∀ parent, parentTaskId = some parent → (lookup? parent h).isSome = true) → Unclaimed h
  | _ => True

theorem lookup_allocated (kind : String) (parent : Option Nat) (h : RuntimeProtocolHost F) :
    lookup? (toString (h.nextId.toNat + 1)) (allocated kind parent h) = some (h.nextId.toNat + 1) := by
  unfold lookup? allocated
  rw [getElem?_insert_eq, if_pos rfl]
  rfl

theorem Inv.allocated (hinv : Inv h) (hmax : h.nextId ≠ 0xffffffff) (hfree : Unclaimed h) (kind : String) (parent : Option Nat) :
    Inv (allocated kind parent h) := by
  refine ⟨fun k task ht => ?_, fun k id hk => ?_, fun x hx => ?_⟩
  · unfold RuntimeProtocolHost.allocated at ht
    rw [getElem?_insert_eq] at ht
    split at ht
    · rename_i heq
      cases ht
      exact heq
    · exact hinv.keys k task ht
  · obtain ⟨task, ht⟩ := hinv.targets k id hk
    unfold RuntimeProtocolHost.allocated
    rw [getElem?_insert_eq]
    split
    · exact ⟨_, rfl⟩
    · exact ⟨task, ht⟩
  · obtain ⟨s, hs, hl⟩ := hinv.acted x hx
    refine ⟨s, hs, ?_⟩
    by_cases heq : s = toString (h.nextId.toNat + 1)
    · cases ht : h.resources[s]? with
      | none =>
        have hbound : BoundAlias h s := ⟨ht, x, hx, hs⟩
        rw [heq] at hbound
        exact absurd hbound (hfree hmax)
      | some task =>
        have hid : task.id = h.nextId.toNat + 1 := by
          rw [heq] at ht
          exact hinv.task ht
        rw [lookup?_eq, ht] at hl
        have hacted : task.id = x.2 := Option.some.inj hl
        rw [heq, lookup_allocated, ← hid, hacted]
    · rw [lookup?_eq] at hl ⊢
      unfold RuntimeProtocolHost.allocated
      rw [getElem?_insert_eq, if_neg heq]
      exact hl

theorem Inv.spawnWorker (hinv : Inv h) {worker : WorkerHandle} {parentTaskId : Option String}
    (hfree : (∀ parent, parentTaskId = some parent → (lookup? parent h).isSome = true) → Unclaimed h) :
    Inv (spawnWorker worker parentTaskId h).2 := by
  unfold RuntimeProtocolHost.spawnWorker
  rcases parentTask_cases parentTaskId h with ⟨parent, hparent, hresolves⟩ | ⟨e, hparent⟩
  · rw [bind_ok hparent]
    rcases alloc_cases "auto" (some parent) h with ⟨hmax, halloc⟩ | halloc
    · rw [bind_ok halloc]
      have hnew := hinv.allocated hmax (hfree hresolves) "auto" (some parent)
      generalize hh : RuntimeProtocolHost.allocated "auto" (some parent) h = h₁ at hnew
      have hself : lookup? (toString (h.nextId.toNat + 1)) h₁ = some (h.nextId.toNat + 1) := by
        rw [← hh]
        exact lookup_allocated "auto" (some parent) h
      by_cases hc : Compatible h₁.workers ⟨worker.workerId, toString (h.nextId.toNat + 1)⟩
      · rw [bind_ok (recordWorker_of_compatible hc)]
        have hk := keeps_recorded hc
        exact (hk.trans (keeps_note (recorded_workers _ h₁) (by rw [hk.lookups, hself]))).inv hnew
      · rw [bind_err (recordWorker_of_not hc)]
        exact hnew
    · rw [bind_abort halloc]
      exact hinv
  · rw [bind_err hparent]
    exact hinv

theorem updateAlias_aliases (id : Nat) {old new s : String} (h : RuntimeProtocolHost F) (hold : s = old → s = new)
    (hnew : s = new → h.aliases[s]? = some id) : (updateAlias id old new h).aliases[s]? = h.aliases[s]? := by
  unfold updateAlias
  dsimp only
  by_cases hs : s = new
  · by_cases hempty : new = ""
    · rw [if_pos hempty]
      split
      · rfl
      · rename_i hne
        rw [getElem?_erase_eq, if_neg fun heq => hne (by rw [← heq, hs, hempty])]
    · rw [if_neg hempty, getElem?_insert_eq, if_pos hs, hnew hs]
  · have herase : (if old = "" then h.aliases else h.aliases.erase old)[s]? = h.aliases[s]? := by
      split
      · rfl
      · rw [getElem?_erase_eq, if_neg fun heq => hs (hold heq)]
    split
    · exact herase
    · rw [getElem?_insert_eq, if_neg hs, herase]

theorem updateAlias_targets {id : Nat} {old new k : String} {target : Nat}
    (hk : (updateAlias id old new h).aliases[k]? = some target) : target = id ∨ h.aliases[k]? = some target := by
  have herase : (if old = "" then h.aliases else h.aliases.erase old)[k]? = some target → h.aliases[k]? = some target := by
    intro htarget
    split at htarget
    · exact htarget
    · rw [getElem?_erase_eq] at htarget
      split at htarget
      · cases htarget
      · exact htarget
  unfold updateAlias at hk
  dsimp only at hk
  split at hk
  · exact .inr (herase hk)
  · rw [getElem?_insert_eq] at hk
    split at hk
    · exact .inl (Option.some.inj hk).symm
    · exact .inr (herase hk)

theorem Inv.setAlias (hinv : Inv h) {id : Nat} {new : String} (hsteady : ∀ task, h.resources[toString id]? = some task →
    ∀ s, BoundAlias h s → (s = task.aliasName → s = new) ∧ (s = new → h.aliases[s]? = some id)) : Inv (setAlias id new h) := by
  unfold RuntimeProtocolHost.setAlias
  cases ht : h.resources[toString id]? with
  | none => exact hinv
  | some task =>
    dsimp only
    have hkeep := keeps_modifyTask id (f := fun task => { task with aliasName := new }) (fun _ => rfl) h
    rw [modifyTask_of_some ht] at hkeep ⊢
    have hinv' := hkeep.inv hinv
    refine ⟨hinv'.keys, fun k target hk => ?_, fun x hx => ?_⟩
    · rcases updateAlias_targets hk with rfl | hk
      · exact ⟨_, by dsimp only [updateAlias]; rw [getElem?_insert_eq, if_pos rfl]⟩
      · exact hinv'.targets k target hk
    · obtain ⟨s, hs, hl⟩ := hinv.acted x hx
      refine ⟨s, hs, ?_⟩
      rw [← hl, ← hkeep.lookups, lookup?_eq, lookup?_eq]
      cases hr : h.resources[s]? with
      | some other =>
        have hsome : ((h.resources.insert (toString id) { task with aliasName := new })[s]?).isSome = true := by
          rw [getElem?_insert_eq]
          split
          · rfl
          · rw [hr]; rfl
        obtain ⟨found, hfound⟩ := Option.isSome_iff_exists.mp hsome
        dsimp only [updateAlias]
        rw [hfound]
        rfl
      | none =>
        obtain ⟨hold, hnew⟩ := hsteady task ht s ⟨hr, x, hx, hs⟩
        rw [updateAlias_aliases id { h with resources := h.resources.insert (toString id) { task with aliasName := new } } hold hnew]
        rfl

theorem Inv.step (hinv : Inv h) {op : HostOp F} (hsteady : Steady h op) : Inv (step h op) := by
  cases op with
  | setAlias id new => exact hinv.setAlias hsteady
  | alloc kind parent =>
    change Inv (alloc kind parent h).2
    rcases alloc_cases kind parent h with ⟨hmax, halloc⟩ | halloc
    · rw [halloc]
      exact hinv.allocated hmax hsteady kind parent
    · rw [halloc]
      exact hinv
  | edit id f =>
    exact (keeps_modifyTask id (f := fun task => { f task with id := task.id, aliasName := task.aliasName, parent := task.parent })
      (fun _ => rfl) h).inv hinv
  | request env request =>
    change Inv (handleRequest env request h).2
    unfold handleRequest
    cases request with
    | spawnWorker worker parentTaskId =>
      rw [bind_state fun _ _ => rfl]
      exact hinv.spawnWorker hsteady
    | startWorker worker execution =>
      rw [bind_state fun _ _ => rfl]
      exact (evolves_startWorker env worker execution h).inv hinv
    | openPort worker port =>
      rw [bind_state fun _ _ => rfl]
      exact (evolves_openPort worker port h).inv hinv
    | handoffPort handoff =>
      rw [bind_state fun _ _ => rfl]
      exact (evolves_handoffPort handoff h).inv hinv
    | postMessage message =>
      rw [bind_state fun _ _ => rfl]
      exact hinv.postMessage env message

/-- A worker has only acted on one task, and its snapshot describes that task. -/
structure OneTask (h : RuntimeProtocolHost F) : Prop where
  same : ∀ x ∈ h.acted, ∀ y ∈ h.acted, x.1 = y.1 → x.2 = y.2
  snapshot : ∀ x ∈ h.acted, ∃ s task, h.resources[toString x.2]? = some task ∧ task.id = x.2 ∧
    workerSnapshot x.1 h = .ok (some (snapshotOf ⟨x.1, s⟩ task))

theorem Inv.oneTask (hinv : Inv h) : OneTask h := by
  refine ⟨fun x hx y hy heq => ?_, fun x hx => ?_⟩
  · obtain ⟨s, hs, hl⟩ := hinv.acted x hx
    obtain ⟨s', hs', hl'⟩ := hinv.acted y hy
    rw [← heq, hs] at hs'
    cases hs'
    rw [hl] at hl'
    exact Option.some.inj hl'
  · obtain ⟨s, hs, hl⟩ := hinv.acted x hx
    obtain ⟨task, ht, hid⟩ := hinv.resource hl
    refine ⟨s, task, ht, hid, ?_⟩
    unfold workerSnapshot
    rw [hs]
    dsimp only
    rw [hl]
    dsimp only
    rw [ht]

/-- A worker denotes one task in every state of a run, as long as no alias that a worker is
bound to is taken away, given to another task or hidden by a task number. -/
theorem run_oneTask (ops : List (HostOp F)) (h : StepsMeet step Steady new ops) : OneTask (run step new ops) := by
  have hinv := run_invariant (I := Inv) (fun _ _ hinv hok => hinv.step hok) new_inv h
  exact hinv.oneTask

/-- A worker is started and opens a port under an alias, and another task gets an alias of its own. -/
def aliasRun : List (HostOp Bytes) :=
  [.alloc "auto" none, .setAlias 2 "a", .request plainEnv (.startWorker ⟨"w", "a"⟩ plainExecution),
    .request plainEnv (.openPort ⟨"w", "a"⟩ ⟨"p", "p"⟩), .setAlias 1 "b"]

theorem run_oneTask_aliasRun : (run step new aliasRun).acted = [("w", 2), ("w", 2)] ∧ OneTask (run step new aliasRun) := by
  refine ⟨by decide +kernel, run_oneTask aliasRun ?_⟩
  refine ⟨fun _ hbound => ?_, fun task _ s hbound => ?_, trivial, trivial, fun task ht s hbound => ?_, trivial⟩
  · obtain ⟨-, x, hx, -⟩ := hbound
    cases hx
  · obtain ⟨-, x, hx, -⟩ := hbound
    have hnone : (run step new (aliasRun.take 1)).acted = [] := by decide +kernel
    change x ∈ (run step new (aliasRun.take 1)).acted at hx
    rw [hnone] at hx
    cases hx
  · have hworkers : ∀ x ∈ (run step new (aliasRun.take 4)).acted, (run step new (aliasRun.take 4)).workers[x.1]? = some "a" := by
      decide +kernel
    have hroot : ((run step new (aliasRun.take 4)).resources["1"]?).map RuntimeTask.aliasName = some "" := by decide +kernel
    obtain ⟨-, x, hx, hs⟩ := hbound
    have ha : some s = some "a" := hs.symm.trans (hworkers x hx)
    have hempty : some task.aliasName = some "" := by
      rw [← hroot]
      exact (congrArg (Option.map RuntimeTask.aliasName) ht).symm
    cases ha
    rw [Option.some.inj hempty]
    exact ⟨fun heq => absurd heq (by decide), fun heq => absurd heq (by decide)⟩

/-- The alias goes to another task, and the worker with it. -/
theorem run_not_oneTask : ¬∀ ops : List (HostOp Bytes), OneTask (run step new ops) := by
  intro hall
  have hsame := (hall [.alloc "auto" none, .alloc "auto" none, .setAlias 2 "a",
    .request plainEnv (.openPort ⟨"w", "a"⟩ ⟨"p", "p"⟩), .setAlias 2 "", .setAlias 3 "a",
    .request plainEnv (.openPort ⟨"w", "a"⟩ ⟨"p", "p"⟩)]).same
  exact absurd (hsame ("w", 2) (by decide +kernel) ("w", 3) (by decide +kernel) rfl) (by decide)

end RuntimeProtocolHost
end Star9
