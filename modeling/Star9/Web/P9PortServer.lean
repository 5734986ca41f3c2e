import Star9.Base.Map
import Star9.Base.Prog
import Star9.Base.Run
import Star9.Web.P9Frame

/-!
# The 9P frame server of a browser port

Every message the server handles gets a number; the number of a request also stands for
its abort controller. A facade call returns, throws, or leaves a promise that settles
later. Listeners are left out but for the errors they are told.
-/
namespace Star9
open Base Prog
open P9Port

structure P9PortServer where
  closed : Bool
  started : Bool
  pending : Std.ExtTreeMap Nat Nat
  aborted : List Nat
  calls : List (Nat × Nat)
  next : Nat
  posted : List (Nat × Bytes)
  errors : List String

/-- What `handle9pFrame` does with a request. -/
inductive FacadeResult where
  | returns (value : Option Bytes)
  | throws (message : String)
  | promise
  deriving DecidableEq, Repr

namespace P9PortServer

def new : P9PortServer :=
  { closed := false, started := true, pending := ∅, aborted := [], calls := [], next := 0, posted := [], errors := [] }

def start (s : P9PortServer) : P9PortServer := if s.closed || s.started then s else { s with started := true }

def stop (s : P9PortServer) : P9PortServer := if s.started then { s with started := false } else s

def close (s : P9PortServer) : P9PortServer :=
  if s.closed then s
  else { stop { s with aborted := s.aborted ++ s.pending.toList.map Prod.snd, pending := ∅ } with closed := true }

def post (number : Nat) (frame : Bytes) : Prog P9PortServer String Unit :=
  modify fun s => { s with posted := s.posted ++ [(number, frame)] }

def emitError (message : String) : Prog P9PortServer String Unit := modify fun s => { s with errors := s.errors ++ [message] }

/-- The call still has its place in the table. -/
def Current (number tag : Nat) (s : P9PortServer) : Prop :=
  ¬(number ∈ s.aborted ∨ s.closed = true ∨ s.pending[tag]? ≠ some number)

instance (number tag : Nat) (s : P9PortServer) : Decidable (Current number tag s) :=
  inferInstanceAs (Decidable ¬(number ∈ s.aborted ∨ s.closed = true ∨ s.pending[tag]? ≠ some number))

def complete (number tag : Nat) (value : Option Bytes) : Prog P9PortServer String Unit := do
  if Current number tag (← get) then do
    modify fun s => { s with pending := s.pending.erase tag }
    let response ← Prog.ofExcept (cloneFrameBytes value "9P response frame")
    post number response
  else pure ()

def fail (number tag : Nat) (message : String) : Prog P9PortServer String Unit := do
  if Current number tag (← get) then do
    modify fun s => { s with pending := s.pending.erase tag }
    post number (encodeP9ErrorFrame tag errorEio)
    emitError message
  else pure ()

def flush (oldtag : Nat) (s : P9PortServer) : P9PortServer :=
  { s with
    aborted := s.aborted ++ (s.pending[oldtag]?).toList
    pending := s.pending.erase oldtag }

def handleFrame (number : Nat) (request : Bytes) (result : FacadeResult) : Prog P9PortServer String Unit := do
  let tag := frameTag request
  if frameType request = tflush then do
    let oldtag ← Prog.ofExcept (flushOldTag request)
    modify (flush oldtag)
    post number (encodeP9Frame rflush tag [])
  else do
    modify fun s => { s with pending := s.pending.insert tag number }
    match result with
    | .returns value => complete number tag value
    | .throws message => throw message
    | .promise => modify fun s => { s with calls := s.calls ++ [(number, tag)] }

/-- A request that throws on its way is answered by an error; its entry in the table stays. -/
def handleMessage (number : Nat) (message : Bytes) (result : FacadeResult) : Prog P9PortServer String Unit :=
  match cloneFrameBytes (some message) "9P request frame" with
  | .error e => emitError e
  | .ok request =>
    tryCatch (handleFrame number request result) fun e => do
      post number (encodeP9ErrorFrame (frameTag request) errorEio)
      emitError e

/-- What a promise handler throws, nobody sees. -/
def settle (number tag : Nat) (outcome : Except String (Option Bytes)) : Prog P9PortServer String Unit := do
  modify fun s => { s with calls := s.calls.filter (·.1 ≠ number) }
  match outcome with
  | .ok value => do
    let _ ← attempt (complete number tag value)
    pure ()
  | .error message => fail number tag message

end P9PortServer

inductive P9PortOp where
  | message (frame : Bytes) (result : FacadeResult)
  | settle (number : Nat) (outcome : Except String (Option Bytes))
  | start
  | stop
  | close

/-- A stopped server does not see its messages, and a promise settles once. -/
def P9PortServer.step (s : P9PortServer) : P9PortOp → P9PortServer
  | .message frame result =>
    if s.started then (P9PortServer.handleMessage s.next frame result { s with next := s.next + 1 }).2 else s
  | .settle number outcome =>
    match s.calls.find? (·.1 = number) with
    | some call => (P9PortServer.settle number call.2 outcome s).2
    | none => s
  | .start => s.start
  | .stop => s.stop
  | .close => s.close

/-! ## What becomes of a request -/

/-- A request runs until it is answered, flushed, replaced by a request with its tag, or
left over when the server is closed. -/
inductive P9Fate where
  | running
  | answered (frame : Bytes)
  | flushed
  | superseded
  | abandoned
  deriving DecidableEq, Repr

structure P9Call where
  tag : Nat
  fate : P9Fate
  deriving DecidableEq, Repr

/-- What the requests of a port are owed, told from its messages and promises alone. -/
structure P9Ledger where
  next : Nat
  calls : Nat → Option P9Call

namespace P9Ledger

def new : P9Ledger := { next := 0, calls := fun _ => none }

def endRunning (ends : P9Call → Bool) (fate : P9Fate) (l : P9Ledger) : P9Ledger :=
  { l with calls := fun n => (l.calls n).map fun c => if c.fate = .running ∧ ends c = true then { c with fate } else c }

def add (tag : Nat) (fate : P9Fate) (l : P9Ledger) : P9Ledger :=
  { next := l.next + 1, calls := Function.update l.calls l.next (some ⟨tag, fate⟩) }

/-- The facade's frame, or an error with the tag of the request. -/
def answer (tag : Nat) (outcome : Except String (Option Bytes)) : Bytes :=
  match outcome with
  | .ok value =>
    match cloneFrameBytes value "9P response frame" with
    | .ok frame => frame
    | .error _ => encodeP9ErrorFrame tag errorEio
  | .error _ => encodeP9ErrorFrame tag errorEio

def fateOf (tag : Nat) : FacadeResult → P9Fate
  | .returns value => .answered (answer tag (.ok value))
  | .throws message => .answered (answer tag (.error message))
  | .promise => .running

def message (frame : Bytes) (result : FacadeResult) (l : P9Ledger) : P9Ledger :=
  match cloneFrameBytes (some frame) "9P request frame" with
  | .error _ => { l with next := l.next + 1 }
  | .ok request =>
    let tag := frameTag request
    if frameType request = tflush then
      match flushOldTag request with
      | .ok oldtag => add tag (.answered (encodeP9Frame rflush tag [])) (l.endRunning (·.tag = oldtag) .flushed)
      | .error _ => add tag (.answered (encodeP9ErrorFrame tag errorEio)) l
    else add tag (fateOf tag result) (l.endRunning (·.tag = tag) .superseded)

def settle (number : Nat) (outcome : Except String (Option Bytes)) (l : P9Ledger) : P9Ledger :=
  match l.calls number with
  | some c =>
    if c.fate = .running then
      { l with calls := Function.update l.calls number (some { c with fate := .answered (answer c.tag outcome) }) }
    else l
  | none => l

def close (l : P9Ledger) : P9Ledger := l.endRunning (fun _ => true) .abandoned

end P9Ledger

/-- A server and the ledger of its requests. -/
structure P9Port where
  server : P9PortServer
  ledger : P9Ledger

namespace P9Port

def init : P9Port := { server := .new, ledger := .new }

def step (w : P9Port) (op : P9PortOp) : P9Port :=
  { server := w.server.step op
    ledger :=
      match op with
      | .message frame result => if w.server.started then w.ledger.message frame result else w.ledger
      | .settle number outcome => w.ledger.settle number outcome
      | .close => if w.server.closed then w.ledger else w.ledger.close
      | _ => w.ledger }

def answers (w : P9Port) (number : Nat) : List Bytes := (w.server.posted.filter (·.1 = number)).map Prod.snd

/-- Each request has the answers it is owed, one or none; the table holds the requests
that run, and nothing when no promise is left. -/
structure AnswersOnce (w : P9Port) : Prop where
  answered : ∀ number c, w.ledger.calls number = some c →
    w.answers number = match c.fate with
      | .answered frame => [frame]
      | _ => []
  table : ∀ tag number, w.server.pending[tag]? = some number ↔ w.ledger.calls number = some ⟨tag, .running⟩
  idle : w.server.calls = [] → w.server.pending = ∅

/-- No facade call throws at once, and no promise of a request that runs is fulfilled with a malformed frame. -/
def Meets (w : P9Port) : P9PortOp → Prop
  | .message frame result => ∀ request, cloneFrameBytes (some frame) "9P request frame" = .ok request →
      frameType request ≠ tflush → ∀ message, result ≠ .throws message
  | .settle number (.ok value) => ∀ tag, w.ledger.calls number = some ⟨tag, .running⟩ →
      (cloneFrameBytes value "9P response frame").isOk = true
  | _ => True

structure Inv (w : P9Port) : Prop where
  next : w.ledger.next = w.server.next
  fresh : ∀ n, w.server.next ≤ n → w.ledger.calls n = none
  old : (∀ x ∈ w.server.posted, x.1 < w.server.next) ∧ ∀ n ∈ w.server.aborted, n < w.server.next
  answered : ∀ number c, w.ledger.calls number = some c →
    w.answers number = match c.fate with
      | .answered frame => [frame]
      | _ => []
  table : ∀ tag number, w.server.pending[tag]? = some number ↔ w.ledger.calls number = some ⟨tag, .running⟩
  aborted : ∀ n ∈ w.server.aborted, ∀ c, w.ledger.calls n = some c → c.fate ≠ .running
  shut : w.server.closed = true → w.server.started = false ∧ ∀ n c, w.ledger.calls n = some c → c.fate ≠ .running
  tags : ∀ x ∈ w.server.calls, ∃ c, w.ledger.calls x.1 = some c ∧ c.tag = x.2
  promised : ∀ n tag, w.ledger.calls n = some ⟨tag, .running⟩ → (n, tag) ∈ w.server.calls

theorem init_inv : Inv init where
  next := rfl
  fresh _ _ := rfl
  old := ⟨nofun, nofun⟩
  answered := nofun
  table tag number := by
    have hnone : init.server.pending[tag]? = none := Std.ExtTreeMap.getElem?_empty
    rw [hnone]
    exact ⟨nofun, nofun⟩
  aborted := nofun
  shut := nofun
  tags := nofun
  promised := nofun

section
variable {s : P9PortServer} {l : P9Ledger}

theorem endRunning_calls {ends : P9Call → Bool} {fate : P9Fate} {n : Nat} {c : P9Call}
    (h : (l.endRunning ends fate).calls n = some c) : l.calls n = some c ∨
      ∃ c₀, l.calls n = some c₀ ∧ c₀.fate = .running ∧ ends c₀ = true ∧ c = { c₀ with fate } := by
  unfold P9Ledger.endRunning at h
  obtain ⟨c₀, hc₀, heq⟩ := Option.map_eq_some_iff.mp h
  split at heq
  · rename_i hend
    exact .inr ⟨c₀, hc₀, hend.1, hend.2, heq.symm⟩
  · subst heq
    exact .inl hc₀

theorem endRunning_running {ends : P9Call → Bool} {fate : P9Fate} (hfate : fate ≠ .running) {n tag : Nat} :
    (l.endRunning ends fate).calls n = some ⟨tag, .running⟩ ↔ l.calls n = some ⟨tag, .running⟩ ∧ ends ⟨tag, .running⟩ = false := by
  unfold P9Ledger.endRunning
  dsimp only
  rw [Option.map_eq_some_iff]
  constructor
  · rintro ⟨c, hc, heq⟩
    split at heq
    · exact absurd (congrArg P9Call.fate heq) hfate
    · rename_i hend
      subst heq
      exact ⟨hc, by simpa using hend⟩
  · rintro ⟨hc, hend⟩
    exact ⟨_, hc, by simp [hend]⟩

theorem Inv.lt_next (h : Inv ⟨s, l⟩) {n : Nat} {c : P9Call} (hc : l.calls n = some c) : n < s.next := by
  by_contra hge
  have hnone := h.fresh n (Nat.le_of_not_lt hge)
  rw [hc] at hnone
  cases hnone

/-- The requests of one tag are ended, with or without a signal. -/
theorem Inv.endTag (h : Inv ⟨s, l⟩) (tag : Nat) {aborted : List Nat} (hab : ∀ n ∈ aborted, n ∈ s.aborted ∨ s.pending[tag]? = some n)
    {fate : P9Fate} (hfate : fate = .flushed ∨ fate = .superseded) :
    Inv ⟨{ s with pending := s.pending.erase tag, aborted }, l.endRunning (·.tag = tag) fate⟩ := by
  have hne : fate ≠ .running := by rcases hfate with rfl | rfl <;> nofun
  refine ⟨h.next, fun n hn => ?_, ⟨h.old.1, fun n hn => ?_⟩, fun n c hc => ?_, fun t n => ?_, fun n hn c hc => ?_,
    fun hclosed => ⟨(h.shut hclosed).1, fun n c hc => ?_⟩, fun x hx => ?_, fun n t hc => ?_⟩
  · change (l.calls n).map _ = none
    rw [h.fresh n hn]
    rfl
  · rcases hab n hn with hold | hpend
    · exact h.old.2 n hold
    · exact h.lt_next ((h.table tag n).mp hpend)
  · rcases endRunning_calls hc with hold | ⟨c₀, hc₀, hrun, -, rfl⟩
    · exact h.answered n c hold
    · have hnone := h.answered n c₀ hc₀
      rw [hrun] at hnone
      rcases hfate with rfl | rfl <;> exact hnone
  · rw [endRunning_running hne, ← h.table]
    change (s.pending.erase tag)[t]? = some n ↔ _
    rw [getElem?_erase_eq]
    by_cases ht : t = tag
    · simp [ht]
    · rw [if_neg ht]
      simp [ht]
  · rcases endRunning_calls hc with hold | ⟨c₀, -, -, -, rfl⟩
    · rcases hab n hn with hmem | hpend
      · exact h.aborted n hmem c hold
      · have hrun := (h.table tag n).mp hpend
        rw [hold] at hrun
        cases hrun
        have hends : (l.endRunning (fun c => decide (c.tag = tag)) fate).calls n = some ⟨tag, .running⟩ := hc
        rw [endRunning_running hne] at hends
        simp at hends
    · exact hne
  · rcases endRunning_calls hc with hold | ⟨c₀, -, -, -, rfl⟩
    · exact (h.shut hclosed).2 n c hold
    · exact hne
  · obtain ⟨c, hc, htag⟩ := h.tags x hx
    have hcalls : (l.endRunning (fun c => decide (c.tag = tag)) fate).calls x.1 =
        some (if c.fate = .running ∧ decide (c.tag = tag) = true then { c with fate } else c) := by
      unfold P9Ledger.endRunning
      dsimp only
      rw [hc]
      rfl
    refine ⟨_, hcalls, ?_⟩
    split
    · exact htag
    · exact htag
  · exact h.promised n t ((endRunning_running hne).mp hc).1

theorem add_calls (tag : Nat) (fate : P9Fate) (n : Nat) :
    (l.add tag fate).calls n = if n = l.next then some ⟨tag, fate⟩ else l.calls n := by
  unfold P9Ledger.add
  by_cases hn : n = l.next
  · rw [hn, if_pos rfl]
    exact Function.update_self ..
  · rw [if_neg hn]
    exact Function.update_of_ne hn ..

theorem answers_append (number : Nat) (posted : List (Nat × Bytes)) (frame : Bytes) (n : Nat) :
    ((posted ++ [(number, frame)]).filter (·.1 = n)).map Prod.snd =
      (posted.filter (·.1 = n)).map Prod.snd ++ if number = n then [frame] else [] := by
  rw [List.filter_append, List.map_append]
  by_cases hn : number = n
  · simp [hn]
  · simp [hn]

theorem answers_nil {posted : List (Nat × Bytes)} {n : Nat} (h : ∀ x ∈ posted, x.1 < n) : (posted.filter (·.1 = n)).map Prod.snd = [] := by
  have hnone : posted.filter (·.1 = n) = [] := by
    rw [List.filter_eq_nil_iff]
    intro x hx
    simpa using Nat.ne_of_lt (h x hx)
  rw [hnone]
  rfl

/-- A message that is answered at once. -/
theorem Inv.add_answered (h : Inv ⟨s, l⟩) (tag : Nat) (frame : Bytes) (errors : List String) :
    Inv ⟨{ s with next := s.next + 1, posted := s.posted ++ [(s.next, frame)], errors }, l.add tag (.answered frame)⟩ := by
  have hnext : l.next = s.next := h.next
  have hkeep : ∀ {n c}, l.calls n = some c → (l.add tag (.answered frame)).calls n = some c := by
    intro n c hc
    rw [add_calls, if_neg (by rw [hnext]; exact Nat.ne_of_lt (h.lt_next hc)), hc]
  have hold : ∀ {n c}, (l.add tag (.answered frame)).calls n = some c → c.fate = .running → l.calls n = some c := by
    intro n c hc hrun
    rw [add_calls] at hc
    split at hc
    · cases hc
      cases hrun
    · exact hc
  refine ⟨congrArg (· + 1) h.next, fun n hn => ?_, ⟨fun x hx => ?_, fun n hn => Nat.lt_succ_of_lt (h.old.2 n hn)⟩, fun n c hc => ?_,
    fun t n => ?_, fun n hn c hc hrun => h.aborted n hn c (hold hc hrun) hrun,
    fun hclosed => ⟨(h.shut hclosed).1, fun n c hc hrun => (h.shut hclosed).2 n c (hold hc hrun) hrun⟩,
    fun x hx => ?_, fun n t hc => h.promised n t (hold hc rfl)⟩
  · change s.next + 1 ≤ n at hn
    rw [add_calls, if_neg (by omega)]
    exact h.fresh n (Nat.le_of_succ_le hn)
  · change x.1 < s.next + 1
    rcases List.mem_append.mp hx with hx | hx
    · exact Nat.lt_succ_of_lt (h.old.1 x hx)
    · rw [List.mem_singleton.mp hx]
      exact Nat.lt_succ_self _
  · change ((s.posted ++ [(s.next, frame)]).filter (fun x : Nat × Bytes => decide (x.1 = n))).map Prod.snd = _
    rw [answers_append]
    rw [add_calls] at hc
    split at hc
    · rename_i hn
      cases hc
      rw [hn, hnext, answers_nil h.old.1, if_pos rfl]
      rfl
    · rename_i hn
      rw [if_neg (by rw [← hnext]; exact Ne.symm hn), List.append_nil]
      exact h.answered n c hc
  · refine (h.table t n).trans ⟨fun hc => hkeep hc, fun hc => hold hc rfl⟩
  · obtain ⟨c, hc, htag⟩ := h.tags x hx
    exact ⟨c, hkeep hc, htag⟩

/-- A request whose answer is promised. -/
theorem Inv.add_running (h : Inv ⟨s, l⟩) {tag : Nat} (hfree : s.pending[tag]? = none) (hopen : s.closed = false) :
    Inv ⟨{ s with next := s.next + 1, pending := s.pending.insert tag s.next, calls := s.calls ++ [(s.next, tag)] },
      l.add tag .running⟩ := by
  have hnext : l.next = s.next := h.next
  have hkeep : ∀ {n c}, l.calls n = some c → (l.add tag .running).calls n = some c := by
    intro n c hc
    rw [add_calls, if_neg (by rw [hnext]; exact Nat.ne_of_lt (h.lt_next hc)), hc]
  have hself : (l.add tag .running).calls s.next = some ⟨tag, .running⟩ := by rw [add_calls, if_pos hnext.symm]
  refine ⟨congrArg (· + 1) h.next, fun n hn => ?_, ⟨fun x hx => Nat.lt_succ_of_lt (h.old.1 x hx), fun n hn => Nat.lt_succ_of_lt (h.old.2 n hn)⟩,
    fun n c hc => ?_, fun t n => ?_, fun n hn c hc => ?_, fun hclosed => ?_, fun x hx => ?_, fun n t hc => ?_⟩
  · change s.next + 1 ≤ n at hn
    rw [add_calls, if_neg (by omega)]
    exact h.fresh n (Nat.le_of_succ_le hn)
  · rw [add_calls] at hc
    split at hc
    · rename_i hn
      cases hc
      rw [hn, hnext]
      exact answers_nil h.old.1
    · exact h.answered n c hc
  · change (s.pending.insert tag s.next)[t]? = some n ↔ _
    rw [getElem?_insert_eq, add_calls, hnext]
    by_cases ht : t = tag
    · subst ht
      rw [if_pos rfl]
      by_cases hn : n = s.next
      · simp [hn]
      · rw [if_neg hn]
        have hnot : l.calls n ≠ some ⟨t, .running⟩ := by
          intro hc
          have hpend := (h.table t n).mpr hc
          change s.pending[t]? = some n at hpend
          rw [hfree] at hpend
          cases hpend
        exact ⟨fun heq => absurd (Option.some.inj heq).symm hn, fun hc => absurd hc hnot⟩
    · rw [if_neg ht]
      by_cases hn : n = s.next
      · have hnone : ¬s.pending[t]? = some n := by
          intro hpend
          have hlt := h.lt_next ((h.table t n).mp hpend)
          omega
        rw [if_pos hn]
        exact ⟨fun hpend => absurd hpend hnone, fun heq => absurd (congrArg P9Call.tag (Option.some.inj heq)).symm ht⟩
      · rw [if_neg hn]
        exact h.table t n
  · have hlt := h.old.2 n hn
    rw [add_calls, if_neg (by rw [hnext]; exact Nat.ne_of_lt hlt)] at hc
    exact h.aborted n hn c hc
  · change s.closed = true at hclosed
    rw [hopen] at hclosed
    cases hclosed
  · rcases List.mem_append.mp hx with hx | hx
    · obtain ⟨c, hc, htag⟩ := h.tags x hx
      exact ⟨c, hkeep hc, htag⟩
    · rw [List.mem_singleton.mp hx]
      exact ⟨_, hself, rfl⟩
  · rw [add_calls] at hc
    split at hc
    · rename_i hn
      cases hc
      rw [hn, hnext]
      exact List.mem_append_right _ List.mem_cons_self
    · exact List.mem_append_left _ (h.promised n t hc)

/-- A request that ran is answered, and its promise is gone. -/
theorem Inv.finish (h : Inv ⟨s, l⟩) {number tag : Nat} (hrun : l.calls number = some ⟨tag, .running⟩) (frame : Bytes)
    (errors : List String) :
    Inv ⟨{ s with pending := s.pending.erase tag, posted := s.posted ++ [(number, frame)],
                  calls := s.calls.filter (·.1 ≠ number), errors },
      { l with calls := Function.update l.calls number (some ⟨tag, .answered frame⟩) }⟩ := by
  have hcalls : ∀ n, Function.update l.calls number (some ⟨tag, .answered frame⟩) n =
      if n = number then some ⟨tag, .answered frame⟩ else l.calls n := fun n => Function.update_apply ..
  have hrest : ∀ {n c}, Function.update l.calls number (some ⟨tag, .answered frame⟩) n = some c → c.fate = .running →
      n ≠ number ∧ l.calls n = some c := by
    intro n c hc hfate
    rw [hcalls] at hc
    split at hc
    · cases hc
      cases hfate
    · rename_i hn
      exact ⟨hn, hc⟩
  have hpend : s.pending[tag]? = some number := (h.table tag number).mpr hrun
  refine ⟨h.next, fun n hn => ?_, ⟨fun x hx => ?_, h.old.2⟩, fun n c hc => ?_, fun t n => ?_,
    fun n hn c hc hfate => h.aborted n hn c (hrest hc hfate).2 hfate,
    fun hclosed => ⟨(h.shut hclosed).1, fun n c hc hfate => (h.shut hclosed).2 n c (hrest hc hfate).2 hfate⟩,
    fun x hx => ?_, fun n t hc => ?_⟩
  · change Function.update l.calls number _ n = none
    have hlt := h.lt_next hrun
    rw [hcalls, if_neg (by change s.next ≤ n at hn; omega)]
    exact h.fresh n hn
  · rcases List.mem_append.mp hx with hx | hx
    · exact h.old.1 x hx
    · rw [List.mem_singleton.mp hx]
      exact h.lt_next hrun
  · change Function.update l.calls number _ n = some c at hc
    change ((s.posted ++ [(number, frame)]).filter (fun x : Nat × Bytes => decide (x.1 = n))).map Prod.snd = _
    rw [answers_append]
    rw [hcalls] at hc
    split at hc
    · rename_i hn
      cases hc
      have hnone := h.answered number _ hrun
      rw [hn, if_pos rfl]
      exact congrArg (· ++ [frame]) hnone
    · rename_i hn
      rw [if_neg (Ne.symm hn), List.append_nil]
      exact h.answered n c hc
  · change (s.pending.erase tag)[t]? = some n ↔ Function.update l.calls number _ n = _
    rw [getElem?_erase_eq, hcalls]
    by_cases ht : t = tag
    · subst ht
      rw [if_pos rfl]
      refine ⟨nofun, fun hc => ?_⟩
      split at hc
      · cases hc
      · rename_i hn
        have hother := (h.table t n).mpr hc
        change s.pending[t]? = some n at hother
        rw [hpend] at hother
        exact absurd (Option.some.inj hother).symm hn
    · rw [if_neg ht]
      by_cases hn : n = number
      · rw [if_pos hn]
        refine ⟨fun hp => ?_, fun heq => by cases heq⟩
        have hother := (h.table t n).mp hp
        change l.calls n = _ at hother
        rw [hn, hrun] at hother
        exact absurd (congrArg P9Call.tag (Option.some.inj hother)).symm ht
      · rw [if_neg hn]
        exact h.table t n
  · obtain ⟨hx, hne⟩ := List.mem_filter.mp hx
    obtain ⟨c, hc, htag⟩ := h.tags x hx
    refine ⟨c, ?_, htag⟩
    change Function.update l.calls number _ x.1 = some c
    rw [hcalls, if_neg (by simpa using hne), hc]
  · obtain ⟨hn, hc⟩ := hrest hc rfl
    exact List.mem_filter.mpr ⟨h.promised n t hc, by simpa using hn⟩

/-! ## Steps -/

theorem erase_insert (m : Std.ExtTreeMap Nat Nat) (tag number : Nat) : (m.insert tag number).erase tag = m.erase tag := by
  refine Std.ExtTreeMap.ext_getElem? fun k => ?_
  rw [Std.ExtTreeMap.getElem?_erase, Std.ExtTreeMap.getElem?_erase, Std.ExtTreeMap.getElem?_insert]
  split
  · rfl
  · rfl

theorem insert_erase (m : Std.ExtTreeMap Nat Nat) (tag number : Nat) : (m.erase tag).insert tag number = m.insert tag number := by
  refine Std.ExtTreeMap.ext_getElem? fun k => ?_
  rw [Std.ExtTreeMap.getElem?_insert, Std.ExtTreeMap.getElem?_insert, Std.ExtTreeMap.getElem?_erase]
  split
  · rfl
  · rfl

/-- The call is current exactly while its request runs. -/
theorem Inv.current_iff (h : Inv ⟨s, l⟩) {number : Nat} {c : P9Call} (hc : l.calls number = some c) :
    s.Current number c.tag ↔ c.fate = .running := by
  unfold P9PortServer.Current
  constructor
  · intro hcur
    have hpend : s.pending[c.tag]? = some number := by
      by_contra hne
      exact hcur (.inr (.inr hne))
    have hrun := (h.table c.tag number).mp hpend
    change l.calls number = _ at hrun
    rw [hc] at hrun
    exact congrArg P9Call.fate (Option.some.inj hrun)
  · intro hfate
    obtain ⟨tag, fate⟩ := c
    change fate = .running at hfate
    subst hfate
    rintro (hab | hclosed | hne)
    · exact h.aborted number hab _ hc rfl
    · exact (h.shut hclosed).2 number _ hc rfl
    · exact hne ((h.table tag number).mpr hc)

theorem complete_of_current {number tag : Nat} (hcur : s.Current number tag) (value : Option Bytes) :
    P9PortServer.complete number tag value s =
      match cloneFrameBytes value "9P response frame" with
      | .ok frame => (.ok (), { s with pending := s.pending.erase tag, posted := s.posted ++ [(number, frame)] })
      | .error e => (.err e, { s with pending := s.pending.erase tag }) := by
  unfold P9PortServer.complete
  rw [get_bind, if_pos hcur, modify_bind]
  cases cloneFrameBytes value "9P response frame" with
  | ok frame => rfl
  | error e => rfl

theorem complete_of_not_current {number tag : Nat} (hcur : ¬s.Current number tag) (value : Option Bytes) :
    P9PortServer.complete number tag value s = (.ok (), s) := by
  unfold P9PortServer.complete
  rw [get_bind, if_neg hcur]
  rfl

theorem fail_of_current {number tag : Nat} (hcur : s.Current number tag) (message : String) :
    P9PortServer.fail number tag message s =
      (.ok (), { s with pending := s.pending.erase tag, posted := s.posted ++ [(number, encodeP9ErrorFrame tag errorEio)],
                        errors := s.errors ++ [message] }) := by
  unfold P9PortServer.fail
  rw [get_bind, if_pos hcur]
  rfl

theorem fail_of_not_current {number tag : Nat} (hcur : ¬s.Current number tag) (message : String) :
    P9PortServer.fail number tag message s = (.ok (), s) := by
  unfold P9PortServer.fail
  rw [get_bind, if_neg hcur]
  rfl

/-- A request that is answered at once is answered as the ledger says. -/
theorem handle_returns {message request : Bytes} (hclone : cloneFrameBytes (some message) "9P request frame" = .ok request)
    (htype : frameType request ≠ tflush) (value : Option Bytes) {number : Nat}
    (hcur : ({ s with pending := s.pending.insert (frameTag request) number } : P9PortServer).Current number (frameTag request)) :
    ∃ errors, (P9PortServer.handleMessage number message (.returns value) s).2 =
      { s with pending := s.pending.erase (frameTag request),
               posted := s.posted ++ [(number, P9Ledger.answer (frameTag request) (.ok value))], errors } := by
  have hcomplete := complete_of_current hcur value
  rw [erase_insert] at hcomplete
  have hframe : P9PortServer.handleFrame number request (.returns value) s =
      P9PortServer.complete number (frameTag request) value { s with pending := s.pending.insert (frameTag request) number } := by
    unfold P9PortServer.handleFrame
    rw [if_neg htype]
    rfl
  unfold P9PortServer.handleMessage P9Ledger.answer
  rw [hclone]
  dsimp only
  cases hval : cloneFrameBytes value "9P response frame" with
  | ok frame =>
    rw [hval] at hcomplete
    refine ⟨s.errors, ?_⟩
    change (Prog.tryCatch _ _ s).2 = _
    unfold Prog.tryCatch
    rw [hframe, hcomplete]
  | error e =>
    rw [hval] at hcomplete
    refine ⟨s.errors ++ [e], ?_⟩
    change (Prog.tryCatch _ _ s).2 = _
    unfold Prog.tryCatch
    rw [hframe, hcomplete]
    rfl

theorem Inv.message (h : Inv ⟨s, l⟩) (hstarted : s.started = true) {frame : Bytes} {result : FacadeResult}
    (hmeets : Meets ⟨s, l⟩ (.message frame result)) :
    Inv ⟨(P9PortServer.handleMessage s.next frame result { s with next := s.next + 1 }).2, l.message frame result⟩ := by
  have hopen : s.closed = false := by
    by_contra hne
    have hstop := (h.shut (Bool.eq_true_of_not_eq_false hne)).1
    change s.started = false at hstop
    rw [hstarted] at hstop
    cases hstop
  unfold P9Ledger.message
  cases hclone : cloneFrameBytes (some frame) "9P request frame" with
  | error e =>
    have hstate : (P9PortServer.handleMessage s.next frame result { s with next := s.next + 1 }).2 =
        { s with next := s.next + 1, errors := s.errors ++ [e] } := by
      unfold P9PortServer.handleMessage
      rw [hclone]
      rfl
    rw [hstate]
    exact
      { h with
        next := congrArg (· + 1) h.next
        fresh := fun n hn => h.fresh n (Nat.le_of_succ_le hn)
        old := ⟨fun x hx => Nat.lt_succ_of_lt (h.old.1 x hx), fun n hn => Nat.lt_succ_of_lt (h.old.2 n hn)⟩ }
  | ok request =>
    dsimp only
    split
    · rename_i htype
      cases hold : flushOldTag request with
      | ok oldtag =>
        have hstate : (P9PortServer.handleMessage s.next frame result { s with next := s.next + 1 }).2 =
            { s with next := s.next + 1, aborted := s.aborted ++ (s.pending[oldtag]?).toList, pending := s.pending.erase oldtag,
                     posted := s.posted ++ [(s.next, encodeP9Frame rflush (frameTag request) [])] } := by
          unfold P9PortServer.handleMessage
          rw [hclone]
          change (Prog.tryCatch _ _ _).2 = _
          unfold Prog.tryCatch P9PortServer.handleFrame
          rw [if_pos htype, hold]
          rfl
        rw [hstate]
        have hsignal : ∀ n ∈ s.aborted ++ (s.pending[oldtag]?).toList, n ∈ s.aborted ∨ s.pending[oldtag]? = some n := by
          intro n hn
          simpa using hn
        exact (h.endTag oldtag hsignal (.inl rfl)).add_answered (frameTag request) _ s.errors
      | error e =>
        have hstate : (P9PortServer.handleMessage s.next frame result { s with next := s.next + 1 }).2 =
            { s with next := s.next + 1, posted := s.posted ++ [(s.next, encodeP9ErrorFrame (frameTag request) errorEio)],
                     errors := s.errors ++ [e] } := by
          unfold P9PortServer.handleMessage
          rw [hclone]
          change (Prog.tryCatch _ _ _).2 = _
          unfold Prog.tryCatch P9PortServer.handleFrame
          rw [if_pos htype, hold]
          rfl
        rw [hstate]
        exact h.add_answered (frameTag request) _ _
    · rename_i htype
      have hended := h.endTag (frameTag request) (fun n hn => .inl hn) (.inr rfl)
      cases result with
      | throws message => exact absurd rfl (hmeets request hclone htype message)
      | returns value =>
        have hcur : ({ s with next := s.next + 1, pending := s.pending.insert (frameTag request) s.next } : P9PortServer).Current
            s.next (frameTag request) := by
          rintro (hab | hclosed | hne)
          · exact Nat.lt_irrefl _ (h.old.2 s.next hab)
          · change s.closed = true at hclosed
            rw [hopen] at hclosed
            cases hclosed
          · exact hne (by simp)
        obtain ⟨errors, hstate⟩ := handle_returns (s := { s with next := s.next + 1 }) hclone htype value hcur
        rw [hstate]
        exact hended.add_answered (frameTag request) _ errors
      | promise =>
        have hstate : (P9PortServer.handleMessage s.next frame .promise { s with next := s.next + 1 }).2 =
            { s with next := s.next + 1, pending := s.pending.insert (frameTag request) s.next,
                     calls := s.calls ++ [(s.next, frameTag request)] } := by
          unfold P9PortServer.handleMessage
          rw [hclone]
          change (Prog.tryCatch _ _ _).2 = _
          unfold Prog.tryCatch P9PortServer.handleFrame
          rw [if_neg htype]
          rfl
        rw [hstate, ← insert_erase]
        exact hended.add_running (by simp) hopen

/-- A promise that settles after its request has ended changes nothing else. -/
theorem Inv.forget (h : Inv ⟨s, l⟩) {number : Nat} (hend : ∀ c, l.calls number = some c → c.fate ≠ .running) :
    Inv ⟨{ s with calls := s.calls.filter (·.1 ≠ number) }, l⟩ :=
  { h with
    tags := fun x hx => h.tags x (List.mem_filter.mp hx).1
    promised := fun n tag hc => by
      refine List.mem_filter.mpr ⟨h.promised n tag hc, ?_⟩
      have hn : n ≠ number := by
        rintro rfl
        exact hend _ hc rfl
      simpa using hn }

theorem settle_of_not_running {number : Nat} (outcome : Except String (Option Bytes))
    (hend : ∀ c, l.calls number = some c → c.fate ≠ .running) : l.settle number outcome = l := by
  unfold P9Ledger.settle
  split
  · rename_i c hc
    exact if_neg (hend c hc)
  · rfl

theorem settle_of_running {number tag : Nat} (outcome : Except String (Option Bytes))
    (hrun : l.calls number = some ⟨tag, .running⟩) : l.settle number outcome =
      { l with calls := Function.update l.calls number (some ⟨tag, .answered (P9Ledger.answer tag outcome)⟩) } := by
  unfold P9Ledger.settle
  rw [hrun]
  rfl

/-- The answer of a promise is the one the ledger says, unless it is fulfilled with a malformed frame. -/
theorem settle_state {number tag : Nat} {outcome : Except String (Option Bytes)}
    (hcur : ({ s with calls := s.calls.filter (·.1 ≠ number) } : P9PortServer).Current number tag)
    (hok : ∀ value, outcome = .ok value → (cloneFrameBytes value "9P response frame").isOk = true) :
    ∃ errors, (P9PortServer.settle number tag outcome s).2 =
      { s with pending := s.pending.erase tag, posted := s.posted ++ [(number, P9Ledger.answer tag outcome)],
               calls := s.calls.filter (·.1 ≠ number), errors } := by
  unfold P9PortServer.settle
  rw [modify_bind]
  cases outcome with
  | error message =>
    refine ⟨s.errors ++ [message], ?_⟩
    dsimp only
    rw [fail_of_current hcur]
    rfl
  | ok value =>
    refine ⟨s.errors, ?_⟩
    have hcomplete := complete_of_current hcur value
    cases hval : cloneFrameBytes value "9P response frame" with
    | error e =>
      have hbad := hok value rfl
      rw [hval] at hbad
      cases hbad
    | ok frame =>
      have hanswer : P9Ledger.answer tag (.ok value) = frame := by
        unfold P9Ledger.answer
        dsimp only
        rw [hval]
      rw [hval] at hcomplete
      dsimp only
      rw [bind_ok (attempt_ok hcomplete), hanswer]
      rfl

theorem settle_not_current {number tag : Nat} (outcome : Except String (Option Bytes))
    (hcur : ¬({ s with calls := s.calls.filter (·.1 ≠ number) } : P9PortServer).Current number tag) :
    (P9PortServer.settle number tag outcome s).2 = { s with calls := s.calls.filter (·.1 ≠ number) } := by
  unfold P9PortServer.settle
  rw [modify_bind]
  cases outcome with
  | error message => exact congrArg Prod.snd (fail_of_not_current hcur message)
  | ok value =>
    dsimp only
    rw [bind_ok (attempt_ok (complete_of_not_current hcur value))]
    rfl

theorem Inv.settle (h : Inv ⟨s, l⟩) {number : Nat} {outcome : Except String (Option Bytes)}
    (hmeets : Meets ⟨s, l⟩ (.settle number outcome)) : Inv ⟨s.step (.settle number outcome), l.settle number outcome⟩ := by
  unfold P9PortServer.step
  dsimp only
  cases hf : s.calls.find? (·.1 = number) with
  | none =>
    have hend : ∀ c, l.calls number = some c → c.fate ≠ .running := by
      rintro ⟨tag, fate⟩ hc rfl
      have hnot := List.find?_eq_none.mp hf (number, tag) (h.promised number tag hc)
      exact hnot (by simp)
    rw [settle_of_not_running outcome hend]
    exact h
  | some call =>
    have hnumber : call.1 = number := by simpa using List.find?_some hf
    obtain ⟨c, hc, htag⟩ := h.tags call (List.mem_of_find?_eq_some hf)
    change l.calls call.1 = some c at hc
    rw [hnumber] at hc
    have hcur : ({ s with calls := s.calls.filter (·.1 ≠ number) } : P9PortServer).Current number c.tag ↔ c.fate = .running :=
      h.current_iff hc
    dsimp only
    rw [← htag]
    by_cases hfate : c.fate = .running
    · obtain ⟨tag, fate⟩ := c
      change fate = .running at hfate
      subst hfate
      have hok : ∀ value, outcome = .ok value → (cloneFrameBytes value "9P response frame").isOk = true := by
        rintro value rfl
        exact hmeets tag hc
      obtain ⟨errors, hstate⟩ := settle_state (hcur.mpr rfl) hok
      rw [hstate, settle_of_running outcome hc]
      exact h.finish hc _ errors
    · have hend : ∀ c', l.calls number = some c' → c'.fate ≠ .running := by
        intro c' hc'
        rw [hc] at hc'
        cases hc'
        exact hfate
      rw [settle_not_current outcome (fun hx => hfate (hcur.mp hx)), settle_of_not_running outcome hend]
      exact h.forget hend

theorem Inv.close (h : Inv ⟨s, l⟩) (hopen : s.closed = false) : Inv ⟨s.close, l.close⟩ := by
  have hstate : s.close = { s with aborted := s.aborted ++ s.pending.toList.map Prod.snd, pending := ∅, started := false, closed := true } := by
    unfold P9PortServer.close P9PortServer.stop
    rw [if_neg (by rw [hopen]; exact Bool.false_ne_true)]
    cases hs : s.started with
    | true => rfl
    | false => rfl
  have hrun : ∀ n tag, l.close.calls n ≠ some ⟨tag, .running⟩ := by
    intro n tag hc
    have hne : P9Fate.abandoned ≠ .running := nofun
    have hends := ((endRunning_running hne).mp hc).2
    cases hends
  have hfate : ∀ n c, l.close.calls n = some c → c.fate ≠ .running := by
    rintro n ⟨tag, fate⟩ hc rfl
    exact hrun n tag hc
  rw [hstate]
  refine ⟨h.next, fun n hn => ?_, ⟨h.old.1, fun n hn => ?_⟩, fun n c hc => ?_, fun t n => ?_, fun n hn c hc => hfate n c hc,
    fun _ => ⟨rfl, hfate⟩, fun x hx => ?_, fun n t hc => absurd hc (hrun n t)⟩
  · change (l.calls n).map _ = none
    rw [h.fresh n hn]
    rfl
  · rcases List.mem_append.mp hn with hn | hn
    · exact h.old.2 n hn
    · obtain ⟨tag, htag⟩ : ∃ tag, s.pending[tag]? = some n := by
        obtain ⟨x, hx, rfl⟩ := List.mem_map.mp hn
        exact ⟨x.1, Std.ExtTreeMap.mem_toList_iff_getElem?_eq_some.mp hx⟩
      exact h.lt_next ((h.table tag n).mp htag)
  · rcases endRunning_calls hc with hold | ⟨c₀, hc₀, hrunning, -, rfl⟩
    · exact h.answered n c hold
    · have hnone := h.answered n c₀ hc₀
      rw [hrunning] at hnone
      exact hnone
  · have hnone : (∅ : Std.ExtTreeMap Nat Nat)[t]? = none := Std.ExtTreeMap.getElem?_empty
    change (∅ : Std.ExtTreeMap Nat Nat)[t]? = some n ↔ _
    rw [hnone]
    exact ⟨nofun, fun hc => absurd hc (hrun n t)⟩
  · obtain ⟨c, hc, htag⟩ := h.tags x hx
    have hcalls : l.close.calls x.1 = some (if c.fate = .running ∧ true = true then { c with fate := .abandoned } else c) := by
      unfold P9Ledger.close P9Ledger.endRunning
      dsimp only
      rw [hc]
      rfl
    refine ⟨_, hcalls, ?_⟩
    split
    · exact htag
    · exact htag

theorem Inv.start (h : Inv ⟨s, l⟩) : Inv ⟨s.start, l⟩ := by
  unfold P9PortServer.start
  split
  · exact h
  · rename_i hnot
    have hopen : s.closed ≠ true := fun hclosed => hnot (by rw [hclosed]; rfl)
    exact { h with shut := fun hclosed => absurd hclosed hopen }

theorem Inv.stop (h : Inv ⟨s, l⟩) : Inv ⟨s.stop, l⟩ := by
  unfold P9PortServer.stop
  split
  · exact { h with shut := fun hclosed => ⟨rfl, (h.shut hclosed).2⟩ }
  · exact h

end

theorem Inv.step {w : P9Port} (h : Inv w) (op : P9PortOp) (hmeets : w.Meets op) : Inv (w.step op) := by
  obtain ⟨s, l⟩ := w
  cases op with
  | message frame result =>
    unfold P9Port.step P9PortServer.step
    dsimp only
    split
    · rename_i hstarted
      exact h.message hstarted hmeets
    · exact h
  | settle number outcome => exact h.settle hmeets
  | start => exact h.start
  | stop => exact h.stop
  | close =>
    unfold P9Port.step P9PortServer.step
    dsimp only
    split
    · rename_i hclosed
      have hsame : s.close = s := if_pos hclosed
      rw [hsame]
      exact h
    · rename_i hopen
      exact h.close (Bool.eq_false_of_not_eq_true hopen)

theorem Inv.answersOnce {w : P9Port} (h : Inv w) : AnswersOnce w where
  answered := h.answered
  table := h.table
  idle hcalls := by
    refine Std.ExtTreeMap.ext_getElem? fun tag => ?_
    rw [Std.ExtTreeMap.getElem?_empty]
    by_contra hne
    obtain ⟨number, hpend⟩ := Option.ne_none_iff_exists'.mp hne
    have hmem := h.promised number tag ((h.table tag number).mp hpend)
    rw [hcalls] at hmem
    cases hmem

/-- Every request is answered once, or not at all if it was flushed, replaced or left over. -/
theorem run_answersOnce (ops : List P9PortOp) (h : StepsMeet step Meets init ops) : AnswersOnce (run step init ops) :=
  (run_invariant (fun _ op hw hok => hw.step op hok) init_inv h).answersOnce

def request (tag : Nat) : Bytes := encodeP9Frame 100 tag []

/-- A request is flushed before its promise settles, another is answered and a third fails. -/
def flushRun : List P9PortOp :=
  [.message (request 1) .promise, .message (request 2) (.returns (some (encodeP9Frame 101 2 []))),
    .message (encodeP9Frame tflush 3 (leBytes 2 1)) .promise, .settle 0 (.ok none), .message (request 4) .promise,
    .settle 3 (.error "io")]

theorem run_answersOnce_flushRun : AnswersOnce (run step init flushRun) := by
  refine run_answersOnce flushRun ?_
  unfold flushRun
  refine ⟨?_, ?_, ?_, ?_, ?_, trivial, trivial⟩
  · exact fun _ _ _ _ => nofun
  · exact fun _ _ _ _ => nofun
  · exact fun _ _ _ _ => nofun
  · intro tag hrun
    have hflushed : (run step init (flushRun.take 3)).ledger.calls 0 = some ⟨1, .flushed⟩ := by decide +kernel
    exact absurd (hflushed.symm.trans hrun) (by simp)
  · exact fun _ _ _ _ => nofun

/-- A promise that is fulfilled with malformed bytes is never answered; a call that throws stays in the table. -/
theorem run_not_answersOnce : ¬AnswersOnce (run step init [.message (request 1) .promise, .settle 0 (.ok none)]) ∧
    ¬AnswersOnce (run step init [.message (request 1) (.throws "io")]) := by
  constructor
  · intro h
    have howed : (run step init [.message (request 1) .promise, .settle 0 (.ok none)]).ledger.calls 0 =
        some ⟨1, .answered (encodeP9ErrorFrame 1 errorEio)⟩ := by decide +kernel
    have hnone : (run step init [.message (request 1) .promise, .settle 0 (.ok none)]).answers 0 = [] := by decide +kernel
    have hanswer := h.answered 0 _ howed
    rw [hnone] at hanswer
    cases hanswer
  · intro h
    have hpend : (run step init [.message (request 1) (.throws "io")]).server.pending[1]? = some 0 := by decide +kernel
    have hcalls : (run step init [.message (request 1) (.throws "io")]).server.calls = [] := by decide +kernel
    rw [h.idle hcalls] at hpend
    simp at hpend

end P9Port
end Star9
