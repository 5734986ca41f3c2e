import Star9.Base.Run
import Star9.Fs.MemFs
import Star9.Fs.MetaCache

/-!
# Lookups against a mutation

One mutation through a `MetaCacheFs`, which is the call on the inner file system
and then its invalidations one by one, against any number of lookups and
background refreshes, which read the inner file system and store what they read
in a later step. The model notes of every value whether it was read before the
mutation.
-/
namespace Star9
open Base

/-- `stale` says that the value was read before the mutation. -/
inductive TaskPhase where
  | started
  | read (payload : CachePayload) (stale : Bool)
  | finished

def TaskPhase.isFinished : TaskPhase → Bool
  | .finished => true
  | _ => false

structure CacheTask where
  key : CacheKey
  name : String
  ctx : FsContext
  refresh : Bool
  early : Bool
  phase : TaskPhase

inductive MutationPhase where
  | before
  | invalidating (rest : List Invalidation)
  | failed

structure CacheRace (σ : Type) where
  inner : σ
  cache : MetaCacheState
  stale : CacheKey → Bool
  tasks : List CacheTask
  phase : MutationPhase

inductive RaceAction where
  | lookup (kind : CacheKind) (ctx : FsContext) (name : String) (now : Nat)
  | read (task : Nat)
  | store (task : Nat) (now : Nat)
  | mutate
  | invalidate

namespace CacheRace
variable {σ η : Type} (fs : FileSystem σ η) (m : MetaMutation η)

/-- Whatever the cache holds at first was read before the mutation. -/
def start (inner : σ) (cache : MetaCacheState) : CacheRace σ :=
  { inner, cache, stale := fun _ => true, tasks := [], phase := .before }

def isBefore : MutationPhase → Bool
  | .before => true
  | _ => false

def spawn (kind : CacheKind) (ctx : FsContext) (name : String) (refresh : Bool) (s : CacheRace σ) : CacheRace σ :=
  { s with tasks := s.tasks ++ [{ key := .ofName name kind, name, ctx, refresh, early := isBefore s.phase,
                                  phase := .started }] }

/-- A miss goes on to read the inner file system; a hit may start a refresh. -/
def lookup (kind : CacheKind) (ctx : FsContext) (name : String) (now : Nat) (s : CacheRace σ) : CacheRace σ :=
  match s.cache.getCached (.ofName name kind) now with
  | (none, cache) => { s with cache }.spawn kind ctx name false
  | (some (_, true), cache) => { s with cache }.spawn kind (kind.refreshContext name) name true
  | (some (_, false), cache) => { s with cache }

def read (id : Nat) (s : CacheRace σ) : CacheRace σ :=
  match s.tasks[id]? with
  | some task =>
    match task.phase with
    | .started =>
      match task.key.kind.lookup fs task.ctx task.name s.inner with
      | (.ok payload, inner) =>
        { s with inner, tasks := s.tasks.set id { task with phase := .read payload (isBefore s.phase) } }
      | (_, inner) => { s with inner, tasks := s.tasks.set id { task with phase := .finished } }
    | _ => s
  | none => s

/-- A failed refresh only extends the entry that is there. -/
def installs (task : CacheTask) (payload : CachePayload) : Bool := !(task.refresh && payload.isError)

def storeValue (task : CacheTask) (payload : CachePayload) (stale : Bool) (now : Nat) (s : CacheRace σ) :
    CacheRace σ :=
  if installs task payload then
    { s with
      cache := s.cache.setCached task.key payload now
      stale := if s.cache.ttl = 0 then s.stale else Function.update s.stale task.key stale }
  else { s with cache := s.cache.extendExpiry task.key now }

def store (id : Nat) (now : Nat) (s : CacheRace σ) : CacheRace σ :=
  match s.tasks[id]? with
  | some task =>
    match task.phase with
    | .read payload stale =>
      { s.storeValue task payload stale now with tasks := s.tasks.set id { task with phase := .finished } }
    | _ => s
  | none => s

def mutate (s : CacheRace σ) : CacheRace σ :=
  match s.phase with
  | .before =>
    match m.inner fs s.inner with
    | (.ok (), inner) => { s with inner, phase := .invalidating m.invalidations }
    | (_, inner) => { s with inner, phase := .failed }
  | _ => s

def invalidate (s : CacheRace σ) : CacheRace σ :=
  match s.phase with
  | .invalidating (i :: rest) => { s with cache := i.apply s.cache, phase := .invalidating rest }
  | _ => s

def step (s : CacheRace σ) : RaceAction → CacheRace σ
  | .lookup kind ctx name now => s.lookup kind ctx name now
  | .read id => s.read fs id
  | .store id now => s.store id now
  | .mutate => s.mutate fs m
  | .invalidate => s.invalidate

def covered (is : List Invalidation) (key : CacheKey) : Bool := is.any (·.covers key)

/-- The mutation has returned and every call that started before it is over; then
no key it invalidates holds a value that was read before it. -/
def NoStaleEntry (s : CacheRace σ) : Prop :=
  s.phase = .invalidating [] → (∀ task ∈ s.tasks, task.early = true → task.phase.isFinished = true) →
    ∀ key, covered m.invalidations key = true → (s.cache.cache key).isSome = true → s.stale key = false

/-- The value read before the mutation that a call is still to store. -/
def holdsStale (task : CacheTask) : Bool :=
  match task.phase with
  | .read payload stale => stale && installs task payload
  | _ => false

/-- An invalidation finds no call that is still to store an older value under a
key it covers, unless a later one covers the key too. -/
def InvalidateStep (s : CacheRace σ) : RaceAction → Prop
  | .invalidate =>
    match s.phase with
    | .invalidating (i :: rest) =>
      s.tasks.all (fun task => !(holdsStale task && i.covers task.key) || covered rest task.key) = true
    | _ => True
  | _ => True

instance (s : CacheRace σ) (a : RaceAction) : Decidable (InvalidateStep s a) := by
  unfold InvalidateStep
  split
  · split <;> infer_instance
  · infer_instance

/-! ## Older values and the invalidations to come -/

/-- A key that may still hold an older value: one that the mutation does not
invalidate, or has yet to. -/
def mayBeStale (rest : List Invalidation) (key : CacheKey) : Prop :=
  covered m.invalidations key = true → covered rest key = true

structure StaleInv (s : CacheRace σ) (rest : List Invalidation) : Prop where
  entries : ∀ key, (s.cache.cache key).isSome = true → s.stale key = true → mayBeStale m rest key
  tasks : ∀ task ∈ s.tasks, holdsStale task = true → mayBeStale m rest task.key

def RaceInv (s : CacheRace σ) : Prop := ∀ rest, s.phase = .invalidating rest → StaleInv m s rest

variable {m} {s : CacheRace σ} {rest : List Invalidation}

theorem getCached_isSome {cache : MetaCacheState} {key : CacheKey} {now : Nat} {key' : CacheKey}
    (h : ((cache.getCached key now).2.cache key').isSome = true) : (cache.cache key').isSome = true := by
  unfold MetaCacheState.getCached at h
  cases hentry : cache.cache key with
  | none => simpa [hentry] using h
  | some entry =>
    simp only [hentry] at h
    by_cases hkey : key' = key
    · rw [hkey, hentry]
      rfl
    · split at h
      · simpa [MetaCacheState.remove, hkey] using h
      · split at h
        · simpa [hkey] using h
        · exact h

theorem StaleInv.spawn (h : StaleInv m s rest) (kind : CacheKind) (ctx : FsContext) (name : String)
    (refresh : Bool) : StaleInv m (s.spawn kind ctx name refresh) rest where
  entries := h.entries
  tasks task hmem hstale := by
    rcases List.mem_append.mp hmem with hmem | hmem
    · exact h.tasks task hmem hstale
    · cases List.mem_singleton.mp hmem
      cases hstale

theorem StaleInv.getCached (h : StaleInv m s rest) (key : CacheKey) (now : Nat) :
    StaleInv m { s with cache := (s.cache.getCached key now).2 } rest where
  entries key' hkey := h.entries key' (getCached_isSome hkey)
  tasks := h.tasks

theorem StaleInv.lookup (h : StaleInv m s rest) (kind : CacheKind) (ctx : FsContext) (name : String) (now : Nat) :
    StaleInv m (s.lookup kind ctx name now) rest := by
  have hget := h.getCached (.ofName name kind) now
  unfold CacheRace.lookup
  split <;> rename_i heq <;> rw [heq] at hget
  · exact hget.spawn kind ctx name false
  · exact hget.spawn kind (kind.refreshContext name) name true
  · exact hget

/-- A task that is replaced by one that holds no older value. -/
theorem StaleInv.setTask (h : StaleInv m s rest) {id : Nat} {task : CacheTask} (hstale : holdsStale task = false) :
    StaleInv m { s with tasks := s.tasks.set id task } rest where
  entries := h.entries
  tasks task' hmem hstale' := by
    rcases List.mem_or_eq_of_mem_set hmem with hmem | heq
    · exact h.tasks task' hmem hstale'
    · subst heq
      rw [hstale] at hstale'
      cases hstale'

theorem StaleInv.inner (h : StaleInv m s rest) (inner : σ) : StaleInv m { s with inner } rest :=
  ⟨h.entries, h.tasks⟩

/-- A read after the mutation is of a newer value. -/
theorem StaleInv.read (h : StaleInv m s rest) (hphase : isBefore s.phase = false) (id : Nat) :
    StaleInv m (s.read fs id) rest := by
  unfold CacheRace.read
  split
  · split
    · split
      · exact (h.inner _).setTask (by simp [holdsStale, hphase])
      · exact (h.inner _).setTask rfl
    · exact h
  · exact h

theorem setCached_isSome {cache : MetaCacheState} {key key' : CacheKey} {payload : CachePayload} {now : Nat}
    (h : ((cache.setCached key payload now).cache key').isSome = true) (hne : key' ≠ key ∨ cache.ttl = 0) :
    (cache.cache key').isSome = true := by
  unfold MetaCacheState.setCached at h
  split at h
  · exact h
  · have hkey := hne.resolve_right ‹_›
    simpa [hkey] using h

theorem extendExpiry_isSome {cache : MetaCacheState} {key key' : CacheKey} {now : Nat}
    (h : ((cache.extendExpiry key now).cache key').isSome = true) : (cache.cache key').isSome = true := by
  unfold MetaCacheState.extendExpiry at h
  split at h
  · by_cases hkey : key' = key
    · simp [MetaCacheState.remove, hkey] at h
    · simpa [MetaCacheState.remove, hkey] using h
  · split at h
    · exact h
    · rename_i entry hentry
      by_cases hkey : key' = key
      · rw [hkey, hentry]
        rfl
      · simpa [hkey] using h

theorem StaleInv.storeValue (h : StaleInv m s rest) (task : CacheTask) (payload : CachePayload) (stale : Bool)
    (htask : (stale && installs task payload) = true → mayBeStale m rest task.key) (now : Nat) :
    StaleInv m (s.storeValue task payload stale now) rest := by
  unfold CacheRace.storeValue
  split
  · rename_i hinstalls
    refine ⟨fun key hkey hstale => ?_, h.tasks⟩
    dsimp only at hkey hstale
    by_cases hsame : key = task.key ∧ s.cache.ttl ≠ 0
    · obtain ⟨rfl, httl⟩ := hsame
      rw [if_neg httl, Function.update_self] at hstale
      exact htask (by rw [hstale, hinstalls]; rfl)
    · have hne : key ≠ task.key ∨ s.cache.ttl = 0 := by
        by_cases httl : s.cache.ttl = 0
        · exact .inr httl
        · exact .inl fun heq => hsame ⟨heq, httl⟩
      refine h.entries key (setCached_isSome hkey hne) ?_
      split at hstale
      · exact hstale
      · rwa [Function.update_of_ne (hne.resolve_right ‹_›)] at hstale
  · exact ⟨fun key hkey => h.entries key (extendExpiry_isSome hkey), h.tasks⟩

theorem StaleInv.store (h : StaleInv m s rest) (id now : Nat) : StaleInv m (s.store id now) rest := by
  unfold CacheRace.store
  split
  · rename_i task htask
    split
    · rename_i payload stale hphase
      have hvalue := h.storeValue task payload stale (fun hstale =>
        h.tasks task (List.mem_of_getElem? htask) (by simpa [holdsStale, hphase] using hstale)) now
      have htasks : (s.storeValue task payload stale now).tasks = s.tasks := by
        unfold CacheRace.storeValue
        split <;> rfl
      rw [← htasks]
      exact hvalue.setTask rfl
    · exact h
  · exact h

theorem StaleInv.invalidate {i : Invalidation} (h : StaleInv m s (i :: rest))
    (hok : s.tasks.all (fun task => !(holdsStale task && i.covers task.key) || covered rest task.key) = true) :
    StaleInv m { s with cache := i.apply s.cache, phase := .invalidating rest } rest where
  entries key hkey hstale hcovered := by
    dsimp only at hkey hstale
    rw [Invalidation.apply_cache] at hkey
    split at hkey
    · cases hkey
    · rename_i hi
      have hcov := h.entries key hkey hstale hcovered
      rw [covered, List.any_cons, Bool.or_eq_true] at hcov
      exact hcov.resolve_left hi
  tasks task hmem hstale hcovered := by
    have hcov := h.tasks task hmem hstale hcovered
    have hok := List.all_eq_true.mp hok task hmem
    rw [covered, List.any_cons, Bool.or_eq_true] at hcov
    rcases hcov with hi | hrest
    · simpa [hstale, hi] using hok
    · exact hrest

def ofMutation : RaceAction → Bool
  | .mutate => true
  | .invalidate => true
  | _ => false

/-- The phase changes only by the steps of the mutation. -/
theorem phase_step {a : RaceAction} (ha : ofMutation a = false) : (s.step fs m a).phase = s.phase := by
  cases a with
  | lookup kind ctx name now =>
    simp only [step, lookup]
    split <;> rfl
  | read id =>
    simp only [step, read]
    split
    · split
      · split <;> rfl
      · rfl
    · rfl
  | store id now =>
    simp only [step, store]
    split
    · split
      · simp only [storeValue]
        split <;> rfl
      · rfl
    · rfl
  | mutate => cases ha
  | invalidate => cases ha

theorem RaceInv.step (h : RaceInv m s) {a : RaceAction} (ha : InvalidateStep s a) :
    RaceInv m (s.step fs m a) := by
  intro rest hrest
  cases a with
  | lookup kind ctx name now =>
    rw [phase_step fs rfl] at hrest
    exact (h rest hrest).lookup kind ctx name now
  | read id =>
    rw [phase_step fs rfl] at hrest
    exact (h rest hrest).read fs (by rw [hrest]; rfl) id
  | store id now =>
    rw [phase_step fs rfl] at hrest
    exact (h rest hrest).store id now
  | mutate =>
    cases hphase : s.phase with
    | before =>
      rcases hinner : m.inner fs s.inner with ⟨_ | e | _, inner⟩ <;>
        simp only [CacheRace.step, CacheRace.mutate, hphase, hinner] at hrest ⊢
      · cases hrest
        exact ⟨fun _ _ _ hcov => hcov, fun _ _ _ hcov => hcov⟩
      · cases hrest
      · cases hrest
    | invalidating rest' =>
      simp only [CacheRace.step, CacheRace.mutate, hphase] at hrest ⊢
      exact h rest (hphase.trans hrest)
    | failed =>
      simp only [CacheRace.step, CacheRace.mutate, hphase] at hrest
      cases hrest
  | invalidate =>
    cases hphase : s.phase with
    | invalidating is =>
      cases is with
      | nil =>
        simp only [CacheRace.step, CacheRace.invalidate, hphase] at hrest ⊢
        exact h rest (hphase.trans hrest)
      | cons i rest' =>
        simp only [CacheRace.step, CacheRace.invalidate, hphase] at hrest ⊢
        cases hrest
        simp only [InvalidateStep, hphase] at ha
        exact (h _ hphase).invalidate ha
    | before =>
      simp only [CacheRace.step, CacheRace.invalidate, hphase] at hrest
      cases hrest
    | failed =>
      simp only [CacheRace.step, CacheRace.invalidate, hphase] at hrest
      cases hrest

theorem RaceInv.noStaleEntry (h : RaceInv m s) : NoStaleEntry m s := by
  intro hphase _ key hcovered hkey
  cases hstale : s.stale key with
  | false => rfl
  | true => exact absurd ((h [] hphase).entries key hkey hstale hcovered) (by simp [covered])

/-- In a run whose invalidations find no call that is still to store an older
value under their keys, no such value is left once the mutation is over. -/
theorem run_noStaleEntry (m : MetaMutation η) (inner : σ) (cache : MetaCacheState) (as : List RaceAction)
    (h : StepsMeet (step fs m) InvalidateStep (start inner cache) as) (k : Nat) :
    NoStaleEntry m (run (step fs m) (start inner cache) (as.take k)) :=
  (run_invariant (I := RaceInv m) (fun _ _ hs ha => hs.step fs ha) (fun _ hrest => by cases hrest)
    (h.take k)).noStaleEntry

end CacheRace

namespace CacheRace

/-- An empty file under an empty cache. -/
def raceFile : CacheRace MemFs :=
  start (MemFs.create "f" (MemFs.new fun _ => 0)).2 (MetaCacheState.new 30000000000)

def raceRemove : MetaMutation MemFile := .remove "f"

def lateRead : List RaceAction :=
  [.lookup .stat FsContext.new "f" 0, .mutate, .read 0, .invalidate, .invalidate, .store 0 1]

theorem run_noStaleEntry_lateRead :
    StepsMeet (step memFs raceRemove) InvalidateStep raceFile lateRead ∧
    NoStaleEntry raceRemove (run (step memFs raceRemove) raceFile (lateRead.take 6)) := by
  have h : StepsMeet (step memFs raceRemove) InvalidateStep raceFile lateRead := by decide +kernel
  exact ⟨h, run_noStaleEntry memFs _ _ _ _ h 6⟩

/-- The file is read before it is removed and stored after its entry was thrown
away, so the cache still knows the removed file. -/
theorem run_not_noStaleEntry : ¬ ∀ (m : MetaMutation MemFile) (inner : MemFs) (cache : MetaCacheState)
    (as : List RaceAction), NoStaleEntry m (run (step memFs m) (start inner cache) as) := by
  intro h
  have hrun := h raceRemove raceFile.inner raceFile.cache [.lookup .stat FsContext.new "f" 0, .read 0, .mutate, .invalidate, .invalidate,
    .store 0 1]
  have hstale := hrun (by rfl) (by decide +kernel) ⟨"f", .stat⟩ (by decide +kernel) (by decide +kernel)
  revert hstale
  decide +kernel

end CacheRace
end Star9
