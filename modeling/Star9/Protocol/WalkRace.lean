import Star9.Protocol.WalkSpec
import Star9.Protocol.Workers

/-!
# Walks of several workers to one fid

The asynchronous server with its workers: the front hands requests out and takes the
replies in, and in between the regions of all workers run in any order. A walk
looks at its new fid in one region and writes it in another; two walks that both
looked before either wrote are both told that the fid is theirs.
-/
namespace Star9
open Base Prog NinePServer

/-- The thread of an accepted request, with the regions it has left. -/
structure WorkerThread (σ η : Type) where
  tag : UInt16
  request : NinePRequest
  begun : Bool
  rest : Regions (ServerState σ η) Error NinePResponse

/-- The threads stand in the order of the workers of the front. -/
structure AsyncServing (σ η : Type) where
  front : AsyncNinePServer
  server : ServerState σ η
  threads : List (WorkerThread σ η)

inductive ServingAction where
  | handleFrame (frame : Bytes)
  | flushReturn (call : Nat)
  | region (id : Nat)
  | workerHandled (id : Nat)
  | workerCheck (id : Nat)
  | workerSend (id : Nat)
  | nextResponse

namespace AsyncServing
variable {σ η : Type} (fs : FileSystem σ η)

def new (server : ServerState σ η) : AsyncServing σ η := { front := .new, server, threads := [] }

/-- The worker that a frame starts: a flush has none, nor has a tag in use. -/
def started (front : AsyncNinePServer) (frame : Bytes) : List (WorkerThread σ η) :=
  match decodeRequest frame with
  | .error _ => []
  | .ok (_, .flush _) => []
  | .ok (tag, request) =>
    if (front.pending[tag]?).isSome then []
    else [{ tag, request, begun := false, rest := Worker.handle fs request }]

def handleFrame (frame : Bytes) (s : AsyncServing σ η) : AsyncServing σ η :=
  { s with
    front := (s.front.handleFrame frame).2
    threads := s.threads ++ started fs s.front frame }

/-- The worker runs its next region. -/
def region (id : Nat) (s : AsyncServing σ η) : AsyncServing σ η :=
  match s.threads[id]? with
  | some thread =>
    match thread.rest with
    | .region update next =>
      { s with
        server := update s.server
        threads := s.threads.set id { thread with begun := true, rest := next s.server } }
    | .done _ => s
  | none => s

/-- What `handle_frame` returns for the result of a handler. -/
def reply (tag : UInt16) : Outcome Error NinePResponse → Outcome Error Bytes
  | .ok response => .ofExcept (encodeResponse tag response)
  | .err err => .ofExcept (encodeResponse tag (.lerror (errnoForError err)))
  | .abort => .abort

def workerHandled (id : Nat) (s : AsyncServing σ η) : AsyncServing σ η :=
  match s.threads[id]? with
  | some thread =>
    match thread.rest with
    | .done result => { s with front := s.front.workerHandled id (reply thread.tag result) }
    | .region .. => s
  | none => s

def step (s : AsyncServing σ η) : ServingAction → AsyncServing σ η
  | .handleFrame frame => s.handleFrame fs frame
  | .flushReturn call => { s with front := (s.front.flushReturn call).2 }
  | .region id => s.region id
  | .workerHandled id => s.workerHandled id
  | .workerCheck id => { s with front := s.front.workerCheck id }
  | .workerSend id => { s with front := s.front.workerSend id }
  | .nextResponse => { s with front := s.front.nextResponse.2 }

/-! ## The two halves of the system -/

/-- The front of a run is a run of the asynchronous server. -/
theorem front_run (s : AsyncServing σ η) (as : List ServingAction) :
    ∃ bs, (run (step fs) s as).front = run AsyncNinePServer.step s.front bs := by
  induction as generalizing s with
  | nil => exact ⟨[], rfl⟩
  | cons a as ih =>
    obtain ⟨bs, hbs⟩ := ih (step fs s a)
    suffices hfirst : ∃ cs, (step fs s a).front = run AsyncNinePServer.step s.front cs by
      obtain ⟨cs, hcs⟩ := hfirst
      refine ⟨cs ++ bs, ?_⟩
      rw [run_cons, hbs, hcs, run, run, run, List.foldl_append]
    cases a with
    | handleFrame frame => exact ⟨[.handleFrame frame], rfl⟩
    | flushReturn call => exact ⟨[.flushReturn call], rfl⟩
    | region id =>
      refine ⟨[], ?_⟩
      simp only [step, region]
      split
      · split <;> rfl
      · rfl
    | workerHandled id =>
      simp only [step, workerHandled]
      split
      · split
        · exact ⟨[.workerHandled id _], rfl⟩
        · exact ⟨[], rfl⟩
      · exact ⟨[], rfl⟩
    | workerCheck id => exact ⟨[.workerCheck id], rfl⟩
    | workerSend id => exact ⟨[.workerSend id], rfl⟩
    | nextResponse => exact ⟨[.nextResponse], rfl⟩

theorem ofExcept_apply {S ε α : Type} (x : Except ε α) (s : S) :
    (Prog.ofExcept x : Prog S ε α) s = (Outcome.ofExcept x, s) := by
  cases x <;> rfl

/-- A worker that is alone replies what the server replies to its frame. -/
theorem reply_alone {frame : Bytes} {tag : UInt16} {request : NinePRequest}
    (h : decodeRequest frame = .ok (tag, request)) (s : ServerState σ η) :
    NinePServer.handleFrame fs frame s =
      (reply tag ((Worker.handle fs request).alone s).1, ((Worker.handle fs request).alone s).2) := by
  rw [Worker.alone_handle, NinePServer.handleFrame, h, ofExcept_ok, pure_bind]
  simp only [respond, bind_apply, attempt]
  rcases NinePServer.handle fs request s with ⟨response | err | _, s'⟩
  · exact ofExcept_apply _ _
  · exact ofExcept_apply _ _
  · rfl

end AsyncServing

/-! ## Two walks that meet -/

namespace WorkerThread
variable {σ η : Type} (n : UInt32)

/-- The request is a walk from another fid to this one. -/
def walksTo (t : WorkerThread σ η) : Bool :=
  match t.request with
  | .walk fid newfid _ => newfid == n && fid != n
  | _ => false

/-- The walk returned, and its client may use the fid. -/
def tookFid (t : WorkerThread σ η) : Bool := t.walksTo n && t.rest.succeeded

/-- The walk has found the fid free and has not yet written it. -/
def inWindow (t : WorkerThread σ η) : Bool := t.walksTo n && t.begun && t.rest.waiting

end WorkerThread

namespace AsyncServing
variable {σ η : Type} {fs : FileSystem σ η} {n : UInt32}

/-- The frame takes the fid out of the table. -/
def releases (n : UInt32) : ServingAction → Bool
  | .handleFrame frame =>
    match decodeRequest frame with
    | .ok (_, .clunk fid) => fid == n
    | .ok (_, .remove fid) => fid == n
    | _ => false
  | _ => false

/-- At most one of the walks to the fid succeeded. -/
def AtMostOne (n : UInt32) (s : AsyncServing σ η) : Prop :=
  ∀ (i j : Nat) (t u : WorkerThread σ η), s.threads[i]? = some t → s.threads[j]? = some u →
    t.tookFid n = true → u.tookFid n = true → i = j

/-- A walk looks at the free fid only while no other walk is about to write it. -/
def WalksApart (n : UInt32) (s : AsyncServing σ η) : ServingAction → Prop
  | .region id => ∀ t ∈ s.threads[id]?, t.walksTo n = true → t.begun = false → s.server.fids n = none →
    ∀ u ∈ s.threads, u.inWindow n = false
  | _ => True

instance (n : UInt32) (s : AsyncServing σ η) (a : ServingAction) : Decidable (WalksApart n s a) := by
  cases a <;> unfold WalksApart <;> infer_instance

/-- What the walks of a run keep: a walk that is about to write the fid, or has done
so, is the only one. -/
structure WalkInv (fs : FileSystem σ η) (n : UInt32) (s : AsyncServing σ η) : Prop where
  keeps : ∀ t ∈ s.threads, t.rest.Keeps (Bound n)
  ends : ∀ t ∈ s.threads, t.walksTo n = true → t.rest.EndsIn (Bound n)
  fresh : ∀ t ∈ s.threads, t.begun = false → t.rest = Worker.handle fs t.request
  bound : ∀ t ∈ s.threads, t.tookFid n = true → Bound n s.server
  one : ∀ (i j : Nat) (t u : WorkerThread σ η), s.threads[i]? = some t → s.threads[j]? = some u →
    (t.inWindow n || t.tookFid n) = true → (u.inWindow n || u.tookFid n) = true → i = j

theorem mem_started {front : AsyncNinePServer} {frame : Bytes} {t : WorkerThread σ η} (h : t ∈ started fs front frame) :
    t.begun = false ∧ t.rest = Worker.handle fs t.request ∧ decodeRequest frame = .ok (t.tag, t.request) := by
  unfold started at h
  split at h
  · cases h
  · cases h
  · rename_i tag request _ hdecode
    split at h
    · cases h
    · rw [List.mem_singleton] at h
      subst h
      exact ⟨rfl, rfl, hdecode⟩

/-- A thread that has not begun is not in the way of any walk. -/
theorem fresh_idle {t : WorkerThread σ η} (hbegun : t.begun = false) (hrest : t.rest = Worker.handle fs t.request) :
    t.inWindow n = false ∧ t.tookFid n = false := by
  refine ⟨by simp [WorkerThread.inWindow, hbegun], ?_⟩
  unfold WorkerThread.tookFid WorkerThread.walksTo
  rw [hrest]
  cases t.request with
  | walk fid newfid names => exact Bool.and_false _
  | _ => rfl

theorem walkInv_handleFrame {s : AsyncServing σ η} (h : WalkInv fs n s) {frame : Bytes}
    (hrel : releases n (.handleFrame frame) = false) : WalkInv fs n (s.handleFrame fs frame) := by
  have hidle : ∀ t ∈ started fs s.front frame, t.inWindow n = false ∧ t.tookFid n = false := fun t ht =>
    fresh_idle (mem_started ht).1 (mem_started ht).2.1
  have hold : ∀ (i : Nat) (t : WorkerThread σ η), (s.handleFrame fs frame).threads[i]? = some t →
      (t.inWindow n || t.tookFid n) = true → s.threads[i]? = some t := by
    intro i t hi hbusy
    rcases Nat.lt_or_ge i s.threads.length with hlt | hge
    · rwa [handleFrame, List.getElem?_append_left hlt] at hi
    · rw [handleFrame, List.getElem?_append_right hge] at hi
      have hnew := hidle t (List.mem_of_getElem? hi)
      simp [hnew.1, hnew.2] at hbusy
  constructor
  · intro t ht
    rcases List.mem_append.mp ht with ht | ht
    · exact h.keeps t ht
    · obtain ⟨-, hrest, hdecode⟩ := mem_started ht
      rw [hrest]
      refine Worker.keeps_handle fs ?_ ?_
      · intro hreq
        simp [releases, hdecode, hreq] at hrel
      · intro hreq
        simp [releases, hdecode, hreq] at hrel
  · intro t ht hwalk
    rcases List.mem_append.mp ht with ht | ht
    · exact h.ends t ht hwalk
    · rw [(mem_started ht).2.1]
      unfold WorkerThread.walksTo at hwalk
      split at hwalk
      · rename_i fid newfid names hreq
        obtain ⟨hnew, -⟩ := Bool.and_eq_true_iff.mp hwalk
        rw [hreq, ← eq_of_beq hnew]
        exact Worker.walk_endsIn fs fid newfid names
      · cases hwalk
  · intro t ht hbegun
    rcases List.mem_append.mp ht with ht | ht
    · exact h.fresh t ht hbegun
    · exact (mem_started ht).2.1
  · intro t ht htook
    rcases List.mem_append.mp ht with ht | ht
    · exact h.bound t ht htook
    · rw [(hidle t ht).2] at htook
      cases htook
  · intro i j t u hi hj ht hu
    exact h.one i j t u (hold i t hi ht) (hold j u hj hu) ht hu

/-- A region step runs the first region that the thread has left, or does nothing. -/
theorem region_cases (id : Nat) (s : AsyncServing σ η) :
    s.region id = s ∨ ∃ t update next, s.threads[id]? = some t ∧ t.rest = .region update next ∧
      s.region id = { s with
        server := update s.server
        threads := s.threads.set id { t with begun := true, rest := next s.server } } := by
  unfold region
  split
  · rename_i t ht
    split
    · rename_i update next hrest
      exact Or.inr ⟨t, update, next, ht, hrest, rfl⟩
    · exact Or.inl rfl
  · exact Or.inl rfl

/-- A walk that looks at a fid in the table has ended without taking it. -/
theorem walk_refused {t : WorkerThread σ η} {s : ServerState σ η} {update : ServerState σ η → ServerState σ η}
    {next : ServerState σ η → Regions (ServerState σ η) Error NinePResponse}
    (hfresh : t.rest = Worker.handle fs t.request) (hrest : t.rest = .region update next) (hwalk : t.walksTo n = true)
    (hbound : Bound n s) : (next s).waiting = false ∧ (next s).succeeded = false := by
  unfold WorkerThread.walksTo at hwalk
  split at hwalk
  · rename_i fid newfid names hreq
    obtain ⟨hnew, hne⟩ := Bool.and_eq_true_iff.mp hwalk
    have hnew := eq_of_beq hnew
    subst hnew
    rw [hreq] at hfresh
    obtain ⟨f, hwalk⟩ := Worker.walk_eq fs fid newfid names
    obtain ⟨-, hnext⟩ := Regions.region.inj ((hrest.symm.trans hfresh).trans hwalk)
    have hfid : fid ≠ newfid := by simpa using hne
    simp only [hnext, Worker.walkBase_bound hfid hbound]
    exact ⟨rfl, rfl⟩
  · cases hwalk

theorem walkInv_region {s : AsyncServing σ η} (h : WalkInv fs n s) {id : Nat} (hapart : WalksApart n s (.region id)) :
    WalkInv fs n (s.region id) := by
  rcases region_cases id s with hsame | ⟨t, update, next, ht, hrest, hstep⟩
  · rw [hsame]
    exact h
  rw [hstep]
  have hmem : t ∈ s.threads := List.mem_of_getElem? ht
  have hkeeps := h.keeps t hmem
  rw [hrest] at hkeeps
  obtain ⟨hbound, hnext⟩ := hkeeps s.server
  let t' : WorkerThread σ η := { t with begun := true, rest := next s.server }
  have hthread : ∀ u ∈ s.threads.set id t', u = t' ∨ u ∈ s.threads := fun u hu => (List.mem_or_eq_of_mem_set hu).symm
  have htook : t'.tookFid n = true → Bound n (update s.server) := by
    intro htook
    obtain ⟨hwalk, hok⟩ := Bool.and_eq_true_iff.mp htook
    have hends := h.ends t hmem hwalk
    rw [hrest] at hends
    exact (hends s.server).1 hok
  constructor
  · intro u hu
    rcases hthread u hu with rfl | hu
    · exact hnext
    · exact h.keeps u hu
  · intro u hu hwalk
    rcases hthread u hu with rfl | hu
    · have hends := h.ends t hmem hwalk
      rw [hrest] at hends
      exact (hends s.server).2
    · exact h.ends u hu hwalk
  · intro u hu hbegun
    rcases hthread u hu with rfl | hu
    · cases hbegun
    · exact h.fresh u hu hbegun
  · intro u hu hdone
    rcases hthread u hu with rfl | hu
    · exact htook hdone
    · exact hbound (h.bound u hu hdone)
  · -- the thread that ran was the busy one, or nobody was
    have halone : (t'.inWindow n || t'.tookFid n) = true → ∀ j u, s.threads[j]? = some u →
        (u.inWindow n || u.tookFid n) = true → id = j := by
      intro hbusy j u hj hu
      have hwalk : t.walksTo n = true := by
        rcases Bool.or_eq_true_iff.mp hbusy with hw | hw
        · exact (Bool.and_eq_true_iff.mp (Bool.and_eq_true_iff.mp hw).1).1
        · exact (Bool.and_eq_true_iff.mp hw).1
      cases hbegun : t.begun with
      | true => exact h.one id j t u ht hj (by simp [WorkerThread.inWindow, hwalk, hbegun, hrest, Regions.waiting]) hu
      | false =>
        by_cases hfree : s.server.fids n = none
        · have hout := hapart t ht hwalk hbegun hfree u (List.mem_of_getElem? hj)
          rw [hout, Bool.false_or] at hu
          have hin := h.bound u (List.mem_of_getElem? hj) hu
          rw [Bound, hfree] at hin
          cases hin
        · obtain ⟨hwait, hok⟩ := walk_refused (h.fresh t hmem hbegun) hrest hwalk (Option.isSome_iff_ne_none.mpr hfree)
          simp [WorkerThread.inWindow, WorkerThread.tookFid, t', hwait, hok] at hbusy
    have hlt : id < s.threads.length := (List.getElem?_eq_some_iff.mp ht).1
    intro i j u v hi hj hu hv
    by_cases hii : id = i
    · subst hii
      by_cases hjj : id = j
      · exact hjj
      · rw [List.getElem?_set_self hlt] at hi
        rw [List.getElem?_set_ne hjj] at hj
        cases hi
        exact halone hu j v hj hv
    · by_cases hjj : id = j
      · subst hjj
        rw [List.getElem?_set_self hlt] at hj
        rw [List.getElem?_set_ne hii] at hi
        cases hj
        exact (halone hv i u hi hu).symm
      · rw [List.getElem?_set_ne hii] at hi
        rw [List.getElem?_set_ne hjj] at hj
        exact h.one i j u v hi hj hu hv

theorem WalkInv.front {s : AsyncServing σ η} (h : WalkInv fs n s) (front : AsyncNinePServer) :
    WalkInv fs n { s with front } := ⟨h.keeps, h.ends, h.fresh, h.bound, h.one⟩

theorem walkInv_step {s : AsyncServing σ η} (h : WalkInv fs n s) {a : ServingAction} (hrel : releases n a = false)
    (hapart : WalksApart n s a) : WalkInv fs n (step fs s a) := by
  cases a with
  | handleFrame frame => exact walkInv_handleFrame h hrel
  | region id => exact walkInv_region h hapart
  | workerHandled id =>
    show WalkInv fs n (s.workerHandled id)
    unfold workerHandled
    split
    · split
      · exact h.front _
      · exact h
    · exact h
  | flushReturn call => exact h.front _
  | workerCheck id => exact h.front _
  | workerSend id => exact h.front _
  | nextResponse => exact h.front _

theorem walkInv_new (server : ServerState σ η) : WalkInv fs n (new server) :=
  ⟨nofun, nofun, nofun, nofun, fun i j t u hi => by cases hi⟩

theorem WalkInv.atMostOne {s : AsyncServing σ η} (h : WalkInv fs n s) : AtMostOne n s := by
  intro i j t u hi hj ht hu
  exact h.one i j t u hi hj (by rw [ht, Bool.or_true]) (by rw [hu, Bool.or_true])

/-- Walks that do not look at the fid in each other's windows give it to one client at most. -/
theorem walks_atMostOne (fs : FileSystem σ η) (server : ServerState σ η) (n : UInt32) (as : List ServingAction)
    (hkept : ∀ a ∈ as, releases n a = false) (hapart : StepsMeet (step fs) (WalksApart n) (new server) as) :
    AtMostOne n (run (step fs) (new server) as) := by
  suffices hinv : ∀ s : AsyncServing σ η, WalkInv fs n s → StepsMeet (step fs) (WalksApart n) s as →
      WalkInv fs n (run (step fs) s as) from (hinv _ (walkInv_new server) hapart).atMostOne
  intro s hs hmeet
  clear hapart
  induction as generalizing s with
  | nil => exact hs
  | cons a as ih =>
    exact ih (fun b hb => hkept b (List.mem_cons_of_mem a hb)) _
      (walkInv_step hs (hkept a List.mem_cons_self) hmeet.1) hmeet.2

/-- `Twalk` of fid 1 to fid 2 with no names. -/
def twalkFrame (tag : UInt8) : Bytes := [17, 0, 0, 0, 110, tag, 0, 1, 0, 0, 0, 2, 0, 0, 0, 0, 0]

theorem decode_twalkFrame (tag : UInt8) (h : tag = 1 ∨ tag = 2) :
    ∃ t, decodeRequest (twalkFrame tag) = .ok (t, .walk 1 2 []) := by
  rcases h with rfl | rfl
  · exact ⟨1, by decide +kernel⟩
  · exact ⟨2, by decide +kernel⟩

theorem walks_atMostOne_walkingServer :
    (∀ a ∈ [.handleFrame (twalkFrame 1), .handleFrame (twalkFrame 2), .region 0, .region 0, .region 1, .workerHandled 0],
      releases 2 a = false) ∧
    AtMostOne 2 (run (step memFs) (new walkingServer)
      [.handleFrame (twalkFrame 1), .handleFrame (twalkFrame 2), .region 0, .region 0, .region 1, .workerHandled 0]) := by
  have hkept : ∀ a ∈ [.handleFrame (twalkFrame 1), .handleFrame (twalkFrame 2), .region 0, .region 0, .region 1,
      .workerHandled 0], releases 2 a = false := by
    decide +kernel
  exact ⟨hkept, walks_atMostOne memFs walkingServer 2 _ hkept (by decide +kernel)⟩

/-- Both walks look at fid 2 before either writes it. -/
theorem walks_not_atMostOne :
    ¬ ∀ (server : ServerState MemFs MemFile) (n : UInt32) (as : List ServingAction), server.fids n = none →
      (∀ a ∈ as, releases n a = false) →
      (∀ frame, .handleFrame frame ∈ as → ∃ tag fid names, decodeRequest frame = .ok (tag, .walk fid n names) ∧
        fid ≠ n ∧ Bound fid server) →
      AtMostOne n (run (step memFs) (new server) as) := by
  intro h
  let as : List ServingAction := [.handleFrame (twalkFrame 1), .handleFrame (twalkFrame 2), .region 0, .region 1, .region 0,
    .region 1]
  have hwalks : ∀ frame, .handleFrame frame ∈ as → ∃ tag fid names, decodeRequest frame = .ok (tag, .walk fid 2 names) ∧
      fid ≠ 2 ∧ Bound fid walkingServer := by
    intro frame hframe
    have hbound : (1 : UInt32) ≠ 2 ∧ Bound 1 walkingServer := ⟨by decide, rfl⟩
    simp only [as, List.mem_cons, ServingAction.handleFrame.injEq, List.not_mem_nil, or_false, reduceCtorEq] at hframe
    rcases hframe with rfl | rfl
    · obtain ⟨tag, htag⟩ := decode_twalkFrame 1 (.inl rfl)
      exact ⟨tag, 1, [], htag, hbound⟩
    · obtain ⟨tag, htag⟩ := decode_twalkFrame 2 (.inr rfl)
      exact ⟨tag, 1, [], htag, hbound⟩
  have hone := h walkingServer 2 as rfl (by decide +kernel) hwalks
  have htook : ((run (step memFs) (new walkingServer) as).threads.map (·.tookFid 2)) = [true, true] := by
    decide +kernel
  have hget (i : Nat) (hi : i < 2) : ∃ t, (run (step memFs) (new walkingServer) as).threads[i]? = some t ∧ t.tookFid 2 = true := by
    have hat := congrArg (·[i]?) htook
    simp only [List.getElem?_map] at hat
    interval_cases i <;> exact Option.map_eq_some_iff.mp hat
  obtain ⟨t, ht, htt⟩ := hget 0 (by decide)
  obtain ⟨u, hu, huu⟩ := hget 1 (by decide)
  exact absurd (hone 0 1 t u ht hu htt huu) (by decide)

end AsyncServing
end Star9
