import Star9.Base.Bytes
import Star9.Base.Run

/-!
# The runtime namespace client

A client and a bridge on the two ends of an in-order channel. A response does not say
which request it answers; the client gives it to the request that waits longest. The
number beside a message is the request it belongs to: nothing on either side reads it.
-/
namespace Star9
open Base

structure RuntimeEntry where
  id : Nat
  method : String
  deriving DecidableEq, Repr

/-- `settled` says how each promise ended. `produced` and `thrown` remember what the
facade did for each request, and `matched` which response a request was given. -/
structure RuntimeSession (Val : Type) where
  next : Nat
  pending : List RuntimeEntry
  listening : Bool
  toSystem : List (Nat × Bytes)
  toClient : List (Nat × Bytes)
  settled : List (Nat × Except String Val)
  produced : List (Nat × Bytes)
  thrown : List Nat
  matched : List (Nat × Nat)

/-- The client's `decode`, and whether a request gets a timer. -/
structure RuntimeClientOptions (Val : Type) where
  decode : Bytes → Except String Val
  timers : Bool

inductive RuntimeOp where
  | request (method : String) (payload : Bytes) (refused : Option String)
  | serve (outcome : Except String Bytes)
  | deliver
  | timeout (id : Nat)
  | error (message : String)
  | close
  deriving Repr

namespace RuntimeSession
variable {Val : Type}

def new : RuntimeSession Val :=
  { next := 0, pending := [], listening := true, toSystem := [], toClient := [], settled := [], produced := [], thrown := []
    matched := [] }

def settle (id : Nat) (result : Except String Val) (s : RuntimeSession Val) : RuntimeSession Val :=
  { s with settled := s.settled ++ [(id, result)] }

/-- When the endpoint does not send, the entry is taken back and the promise rejected. -/
def request (method : String) (payload : Bytes) (refused : Option String) (s : RuntimeSession Val) : RuntimeSession Val :=
  match refused with
  | none =>
    { s with
      next := s.next + 1
      pending := s.pending ++ [⟨s.next, method⟩]
      toSystem := s.toSystem ++ [(s.next, payload)] }
  | some message => settle s.next (.error message) { s with next := s.next + 1 }

/-- The bridge takes the next request; if the facade throws, nothing is sent. -/
def serve (outcome : Except String Bytes) (s : RuntimeSession Val) : RuntimeSession Val :=
  match s.toSystem with
  | [] => s
  | (id, _) :: rest =>
    match outcome with
    | .ok bytes => { s with toSystem := rest, toClient := s.toClient ++ [(id, bytes)], produced := s.produced ++ [(id, bytes)] }
    | .error _ => { s with toSystem := rest, thrown := s.thrown ++ [id] }

def onResponse (decode : Bytes → Except String Val) (id : Nat) (payload : Bytes) (s : RuntimeSession Val) :
    RuntimeSession Val :=
  match s.pending with
  | [] => s
  | entry :: rest => settle entry.id (decode payload) { s with pending := rest, matched := s.matched ++ [(entry.id, id)] }

def deliver (decode : Bytes → Except String Val) (s : RuntimeSession Val) : RuntimeSession Val :=
  match s.toClient with
  | [] => s
  | (id, payload) :: rest =>
    if s.listening then onResponse decode id payload { s with toClient := rest } else { s with toClient := rest }

/-- The timer of a request that is no longer pending is cleared. -/
def timeout (id : Nat) (s : RuntimeSession Val) : RuntimeSession Val :=
  match s.pending.find? (·.id = id) with
  | none => s
  | some entry =>
    settle id (.error ("timed out waiting for Star9 runtime " ++ entry.method ++ " response"))
      { s with pending := s.pending.filter (·.id ≠ id) }

def onError (message : String) (s : RuntimeSession Val) : RuntimeSession Val :=
  if s.listening then
    match s.pending with
    | [] => s
    | entry :: rest => settle entry.id (.error message) { s with pending := rest }
  else s

def close (s : RuntimeSession Val) : RuntimeSession Val :=
  { s with
    listening := false
    pending := []
    settled := s.settled ++ s.pending.map fun entry => (entry.id, .error "Star9 runtime namespace client closed") }

def step (options : RuntimeClientOptions Val) (s : RuntimeSession Val) : RuntimeOp → RuntimeSession Val
  | .request method payload refused => request method payload refused s
  | .serve outcome => serve outcome s
  | .deliver => deliver options.decode s
  | .timeout id => if options.timers then timeout id s else s
  | .error message => onError message s
  | .close => close s

/-! ## Which request is served -/

/-- A request is given its own response only: a promise that is resolved is resolved with
what the facade returned for it. None is settled twice. -/
structure OwnResponses (decode : Bytes → Except String Val) (s : RuntimeSession Val) : Prop where
  matched : ∀ x ∈ s.matched, x.1 = x.2
  own : ∀ id v, (id, .ok v) ∈ s.settled → ∃ payload, (id, payload) ∈ s.produced ∧ decode payload = .ok v
  failed : ∀ id ∈ s.thrown, ∀ payload, (id, payload) ∉ s.produced
  once : (s.settled.map Prod.fst).Nodup

/-- When a response arrives its request waits, or none does; no request before it that
the facade failed waits any more. -/
def InStep (s : RuntimeSession Val) : RuntimeOp → Prop
  | .deliver => s.listening = true → ∀ id payload rest, s.toClient = (id, payload) :: rest →
      (id ∈ s.pending.map RuntimeEntry.id ∨ s.pending = []) ∧ ∀ entry ∈ s.pending, entry.id < id → entry.id ∉ s.thrown
  | _ => True

/-- The numbers of the messages on their way, those of the responses first. -/
def flight (s : RuntimeSession Val) : List Nat := s.toClient.map Prod.fst ++ s.toSystem.map Prod.fst

/-- The requests that wait are on their way, answered or failed, in the order of the calls. -/
structure Inv (decode : Bytes → Except String Val) (s : RuntimeSession Val) : Prop where
  results : OwnResponses decode s
  numbers : (s.pending.map RuntimeEntry.id).Pairwise (· < ·)
  flight : s.flight.Pairwise (· < ·)
  waits : s.listening = true → ∀ entry ∈ s.pending, entry.id ∈ s.flight ∨ entry.id ∈ s.thrown
  new : (∀ id ∈ s.flight, id < s.next) ∧ (∀ entry ∈ s.pending, entry.id < s.next) ∧
    (∀ x ∈ s.settled, x.1 < s.next) ∧ (∀ id ∈ s.thrown, id < s.next) ∧ ∀ x ∈ s.produced, x.1 < s.next
  open_ : ∀ entry ∈ s.pending, entry.id ∉ s.settled.map Prod.fst
  unserved : ∀ x ∈ s.toSystem, x.1 ∉ s.thrown ∧ ∀ payload, (x.1, payload) ∉ s.produced
  answered : ∀ x ∈ s.toClient, x ∈ s.produced

section
variable {decode : Bytes → Except String Val} {s : RuntimeSession Val}

theorem new_inv : Inv decode (RuntimeSession.new : RuntimeSession Val) where
  results := ⟨by simp [RuntimeSession.new], by simp [RuntimeSession.new], by simp [RuntimeSession.new], by simp [RuntimeSession.new]⟩
  numbers := List.Pairwise.nil
  flight := List.Pairwise.nil
  waits := by simp [RuntimeSession.new]
  new := by simp [RuntimeSession.new, RuntimeSession.flight]
  open_ := by simp [RuntimeSession.new]
  unserved := by simp [RuntimeSession.new]
  answered := by simp [RuntimeSession.new]

theorem Inv.send (h : Inv decode s) (method : String) (payload : Bytes) : Inv decode (request method payload none s) := by
  obtain ⟨hflight, hpending, hsettled, hthrown, hproduced⟩ := h.new
  have hfly : (request method payload none s).flight = s.flight ++ [s.next] := by
    simp [RuntimeSession.flight, request]
  have hids : (request method payload none s).pending.map RuntimeEntry.id = s.pending.map RuntimeEntry.id ++ [s.next] := by
    simp [request]
  have hlast : ∀ entry ∈ (request method payload none s).pending, entry ∈ s.pending ∨ entry = ⟨s.next, method⟩ := by
    intro entry hentry
    simpa [request] using hentry
  refine ⟨⟨h.results.matched, h.results.own, h.results.failed, h.results.once⟩, ?_, ?_, ?_, ⟨?_, ?_, ?_, ?_, ?_⟩, ?_, ?_, h.answered⟩
  · rw [hids, List.pairwise_append]
    refine ⟨h.numbers, List.pairwise_singleton _ _, fun a ha b hb => ?_⟩
    obtain ⟨entry, hentry, rfl⟩ := List.mem_map.mp ha
    rw [List.mem_singleton.mp hb]
    exact hpending entry hentry
  · rw [hfly, List.pairwise_append]
    refine ⟨h.flight, List.pairwise_singleton _ _, fun a ha b hb => ?_⟩
    rw [List.mem_singleton.mp hb]
    exact hflight a ha
  · intro hopen entry hentry
    rw [hfly]
    rcases hlast entry hentry with hold | rfl
    · rcases h.waits hopen entry hold with hf | ht
      · exact .inl (List.mem_append_left _ hf)
      · exact .inr ht
    · exact .inl (List.mem_append_right _ List.mem_cons_self)
  · intro id hid
    rw [hfly] at hid
    change id < s.next + 1
    rcases List.mem_append.mp hid with hold | hnew
    · exact Nat.lt_succ_of_lt (hflight id hold)
    · rw [List.mem_singleton.mp hnew]
      exact Nat.lt_succ_self _
  · intro entry hentry
    change entry.id < s.next + 1
    rcases hlast entry hentry with hold | rfl
    · exact Nat.lt_succ_of_lt (hpending entry hold)
    · exact Nat.lt_succ_self _
  · exact fun x hx => Nat.lt_succ_of_lt (hsettled x hx)
  · exact fun id hid => Nat.lt_succ_of_lt (hthrown id hid)
  · exact fun x hx => Nat.lt_succ_of_lt (hproduced x hx)
  · intro entry hentry
    rcases hlast entry hentry with hold | rfl
    · exact h.open_ entry hold
    · intro hmem
      obtain ⟨x, hx, hfst⟩ := List.mem_map.mp hmem
      have hlt := hsettled x hx
      rw [hfst] at hlt
      exact Nat.lt_irrefl _ hlt
  · intro x hx
    change x ∈ s.toSystem ++ [(s.next, payload)] at hx
    rcases List.mem_append.mp hx with hold | hnew
    · exact h.unserved x hold
    · rw [List.mem_singleton.mp hnew]
      exact ⟨fun ht => Nat.lt_irrefl _ (hthrown _ ht), fun p hp => Nat.lt_irrefl _ (hproduced _ hp)⟩

theorem nodup_settled (h : Inv decode s) {id : Nat} (hid : id ∉ s.settled.map Prod.fst) (result : Except String Val) :
    ((s.settled ++ [(id, result)]).map Prod.fst).Nodup := by
  rw [List.map_append, List.nodup_append]
  refine ⟨h.results.once, List.nodup_singleton _, fun a ha b hb hab => ?_⟩
  rw [hab, List.mem_singleton.mp hb] at ha
  exact hid ha

theorem Inv.refuse (h : Inv decode s) (method : String) (payload : Bytes) (message : String) :
    Inv decode (request method payload (some message) s) := by
  obtain ⟨hflight, hpending, hsettled, hthrown, hproduced⟩ := h.new
  have hfresh : s.next ∉ s.settled.map Prod.fst := by
    intro hmem
    obtain ⟨x, hx, hfst⟩ := List.mem_map.mp hmem
    exact Nat.lt_irrefl _ (hfst ▸ hsettled x hx)
  refine ⟨⟨h.results.matched, ?_, h.results.failed, nodup_settled h hfresh _⟩, h.numbers, h.flight, h.waits,
    ⟨?_, ?_, ?_, ?_, ?_⟩, ?_, h.unserved, h.answered⟩
  · intro id v hv
    rcases List.mem_append.mp hv with hold | hnew
    · exact h.results.own id v hold
    · cases List.mem_singleton.mp hnew
  · exact fun id hid => Nat.lt_succ_of_lt (hflight id hid)
  · exact fun entry hentry => Nat.lt_succ_of_lt (hpending entry hentry)
  · intro x hx
    change x.1 < s.next + 1
    rcases List.mem_append.mp hx with hold | hnew
    · exact Nat.lt_succ_of_lt (hsettled x hold)
    · rw [List.mem_singleton.mp hnew]
      exact Nat.lt_succ_self _
  · exact fun id hid => Nat.lt_succ_of_lt (hthrown id hid)
  · exact fun x hx => Nat.lt_succ_of_lt (hproduced x hx)
  · intro entry hentry hmem
    change entry.id ∈ (s.settled ++ [(s.next, _)]).map Prod.fst at hmem
    rw [List.map_append] at hmem
    rcases List.mem_append.mp hmem with hold | hnew
    · exact h.open_ entry hentry hold
    · exact Nat.lt_irrefl _ (List.mem_singleton.mp hnew ▸ hpending entry hentry)

/-- The requests behind the one that is served have larger numbers. -/
theorem Inv.served (h : Inv decode s) {id : Nat} {payload : Bytes} {rest : List (Nat × Bytes)}
    (hs : s.toSystem = (id, payload) :: rest) : ∀ x ∈ rest, id < x.1 := by
  have hflight := h.flight
  unfold RuntimeSession.flight at hflight
  rw [hs, List.map_cons] at hflight
  have htail := (List.pairwise_append.mp hflight).2.1
  intro x hx
  exact (List.pairwise_cons.mp htail).1 x.1 (List.mem_map_of_mem hx)

theorem Inv.serve (h : Inv decode s) (outcome : Except String Bytes) : Inv decode (serve outcome s) := by
  obtain ⟨hflight, hpending, hsettled, hthrown, hproduced⟩ := h.new
  unfold RuntimeSession.serve
  cases hs : s.toSystem with
  | nil => exact h
  | cons x rest =>
    obtain ⟨id, payload⟩ := x
    have hrest := h.served hs
    have hself := h.unserved (id, payload) (by rw [hs]; exact List.mem_cons_self)
    have hlater : ∀ x ∈ rest, x.1 ∉ s.thrown ∧ ∀ payload, (x.1, payload) ∉ s.produced := fun x hx =>
      h.unserved x (by rw [hs]; exact List.mem_cons_of_mem _ hx)
    have hid : id < s.next := hflight id (by simp [RuntimeSession.flight, hs])
    cases outcome with
    | ok bytes =>
      dsimp only
      have hfly : RuntimeSession.flight { s with toSystem := rest, toClient := s.toClient ++ [(id, bytes)], produced := s.produced ++ [(id, bytes)] } = s.flight := by
        simp [RuntimeSession.flight, hs]
      refine ⟨⟨h.results.matched, ?_, ?_, h.results.once⟩, h.numbers, ?_, ?_, ⟨?_, hpending, hsettled, hthrown, ?_⟩, h.open_, ?_, ?_⟩
      · intro i v hv
        obtain ⟨payload, hp, hd⟩ := h.results.own i v hv
        exact ⟨payload, List.mem_append_left _ hp, hd⟩
      · intro i hi payload hp
        rcases List.mem_append.mp hp with hold | hnew
        · exact h.results.failed i hi payload hold
        · cases List.mem_singleton.mp hnew
          exact hself.1 hi
      · rw [hfly]
        exact h.flight
      · rw [hfly]
        exact h.waits
      · rw [hfly]
        exact hflight
      · intro x hx
        rcases List.mem_append.mp hx with hold | hnew
        · exact hproduced x hold
        · rw [List.mem_singleton.mp hnew]
          exact hid
      · intro x hx
        refine ⟨(hlater x hx).1, fun payload hp => ?_⟩
        rcases List.mem_append.mp hp with hold | hnew
        · exact (hlater x hx).2 payload hold
        · have hlt := hrest x hx
          rw [congrArg Prod.fst (List.mem_singleton.mp hnew)] at hlt
          exact Nat.lt_irrefl _ hlt
      · intro x hx
        rcases List.mem_append.mp hx with hold | hnew
        · exact List.mem_append_left _ (h.answered x hold)
        · exact List.mem_append_right _ hnew
    | error message =>
      dsimp only
      have hsub : (RuntimeSession.flight { s with toSystem := rest, thrown := s.thrown ++ [id] }).Sublist s.flight := by
        unfold RuntimeSession.flight
        dsimp only
        rw [hs, List.map_cons]
        exact List.Sublist.append (List.Sublist.refl _) (List.sublist_cons_self _ _)
      refine ⟨⟨h.results.matched, h.results.own, ?_, h.results.once⟩, h.numbers, h.flight.sublist hsub, ?_,
        ⟨fun i hi => hflight i (hsub.subset hi), hpending, hsettled, ?_, hproduced⟩, h.open_, ?_, h.answered⟩
      · intro i hi payload hp
        rcases List.mem_append.mp hi with hold | hnew
        · exact h.results.failed i hold payload hp
        · rw [List.mem_singleton.mp hnew] at hp
          exact hself.2 payload hp
      · intro hopen entry hentry
        rcases h.waits hopen entry hentry with hf | ht
        · unfold RuntimeSession.flight at hf ⊢
          rw [hs, List.map_cons] at hf
          simp only [List.mem_append, List.mem_cons, List.not_mem_nil, or_false] at hf ⊢
          tauto
        · exact .inr (List.mem_append_left _ ht)
      · intro i hi
        rcases List.mem_append.mp hi with hold | hnew
        · exact hthrown i hold
        · rw [List.mem_singleton.mp hnew]
          exact hid
      · intro x hx
        refine ⟨fun ht => ?_, (hlater x hx).2⟩
        rcases List.mem_append.mp ht with hold | hnew
        · exact (hlater x hx).1 hold
        · have hlt := hrest x hx
          rw [List.mem_singleton.mp hnew] at hlt
          exact Nat.lt_irrefl _ hlt

/-- A request that waited is settled, and waits no more. -/
theorem Inv.settle (h : Inv decode s) {id : Nat} {pending : List RuntimeEntry} {matched : List (Nat × Nat)}
    (hsub : pending.Sublist s.pending) (hid : id ∈ s.pending.map RuntimeEntry.id) (hgone : ∀ entry ∈ pending, entry.id ≠ id)
    {result : Except String Val} (hresult : ∀ v, result = .ok v → ∃ payload, (id, payload) ∈ s.produced ∧ decode payload = .ok v)
    (hmatched : ∀ x ∈ matched, x.1 = x.2) :
    Inv decode (RuntimeSession.settle id result { s with pending, matched }) := by
  obtain ⟨hflight, hpending, hsettled, hthrown, hproduced⟩ := h.new
  obtain ⟨self, hself, rfl⟩ := List.mem_map.mp hid
  refine ⟨⟨hmatched, ?_, h.results.failed, nodup_settled h (h.open_ self hself) _⟩, h.numbers.sublist (hsub.map _), h.flight,
    fun hopen entry hentry => h.waits hopen entry (hsub.subset hentry),
    ⟨hflight, fun entry hentry => hpending entry (hsub.subset hentry), ?_, hthrown, hproduced⟩, ?_, h.unserved, h.answered⟩
  · intro i v hv
    rcases List.mem_append.mp hv with hold | hnew
    · exact h.results.own i v hold
    · obtain ⟨rfl, hr⟩ := Prod.mk.inj (List.mem_singleton.mp hnew)
      exact hresult v hr.symm
  · intro x hx
    rcases List.mem_append.mp hx with hold | hnew
    · exact hsettled x hold
    · rw [List.mem_singleton.mp hnew]
      exact hpending self hself
  · intro entry hentry hmem
    change entry.id ∈ (s.settled ++ [(self.id, _)]).map Prod.fst at hmem
    rw [List.map_append] at hmem
    rcases List.mem_append.mp hmem with hold | hnew
    · exact h.open_ entry (hsub.subset hentry) hold
    · exact hgone entry hentry (List.mem_singleton.mp hnew)

/-- A response that nobody waits for is gone. -/
theorem Inv.drop_response (h : Inv decode s) {id : Nat} {payload : Bytes} {rest : List (Nat × Bytes)}
    (ht : s.toClient = (id, payload) :: rest) (hnobody : s.listening = true → ∀ entry ∈ s.pending, entry.id ≠ id) :
    Inv decode { s with toClient := rest } := by
  obtain ⟨hflight, hpending, hsettled, hthrown, hproduced⟩ := h.new
  have hfly : s.flight = id :: RuntimeSession.flight { s with toClient := rest } := by
    simp [RuntimeSession.flight, ht]
  refine ⟨⟨h.results.matched, h.results.own, h.results.failed, h.results.once⟩, h.numbers, ?_, ?_,
    ⟨?_, hpending, hsettled, hthrown, hproduced⟩, h.open_, h.unserved, ?_⟩
  · have hpair := h.flight
    rw [hfly] at hpair
    exact (List.pairwise_cons.mp hpair).2
  · intro hopen entry hentry
    rcases h.waits hopen entry hentry with hf | hthr
    · rw [hfly] at hf
      exact .inl ((List.mem_cons.mp hf).resolve_left (hnobody hopen entry hentry))
    · exact .inr hthr
  · intro i hi
    exact hflight i (by rw [hfly]; exact List.mem_cons_of_mem _ hi)
  · intro x hx
    exact h.answered x (by rw [ht]; exact List.mem_cons_of_mem _ hx)

/-- In step, the response is for the request that waits longest. -/
theorem Inv.head_eq (h : Inv decode s) (hstep : s.InStep .deliver) (hopen : s.listening = true) {id : Nat} {payload : Bytes}
    {messages : List (Nat × Bytes)} (ht : s.toClient = (id, payload) :: messages) {entry : RuntimeEntry}
    {rest : List RuntimeEntry} (hp : s.pending = entry :: rest) : entry.id = id := by
  obtain ⟨hwaits, hfailed⟩ := hstep hopen id payload messages ht
  have hnumbers := h.numbers
  have hflight := h.flight
  unfold RuntimeSession.flight at hflight
  rw [ht, List.map_cons, List.cons_append] at hflight
  rw [hp] at hwaits hfailed hnumbers
  rw [List.map_cons] at hnumbers
  -- what waits longer than the request of the response is neither on its way nor failed
  have hnot_lt : ¬entry.id < id := by
    intro hlt
    rcases h.waits hopen entry (by rw [hp]; exact List.mem_cons_self) with hf | hthr
    · unfold RuntimeSession.flight at hf
      rw [ht, List.map_cons, List.cons_append] at hf
      rcases List.mem_cons.mp hf with heq | hmem
      · exact Nat.ne_of_lt hlt heq
      · exact Nat.lt_asymm hlt ((List.pairwise_cons.mp hflight).1 _ hmem)
    · exact hfailed entry List.mem_cons_self hlt hthr
  rcases hwaits with hmem | hempty
  · rw [List.map_cons] at hmem
    rcases List.mem_cons.mp hmem with heq | hmem
    · exact heq.symm
    · exact absurd ((List.pairwise_cons.mp hnumbers).1 id hmem) hnot_lt
  · cases hempty

theorem Inv.head_gone (h : Inv decode s) {entry : RuntimeEntry} {rest : List RuntimeEntry} (hp : s.pending = entry :: rest) :
    rest.Sublist s.pending ∧ entry.id ∈ s.pending.map RuntimeEntry.id ∧ ∀ x ∈ rest, x.id ≠ entry.id := by
  have hnumbers := h.numbers
  rw [hp, List.map_cons] at hnumbers
  rw [hp]
  refine ⟨List.sublist_cons_self _ _, by simp, fun x hx => ?_⟩
  exact Nat.ne_of_gt ((List.pairwise_cons.mp hnumbers).1 x.id (List.mem_map_of_mem hx))

theorem Inv.deliver (h : Inv decode s) (hstep : s.InStep .deliver) : Inv decode (deliver decode s) := by
  unfold RuntimeSession.deliver
  cases ht : s.toClient with
  | nil => exact h
  | cons x messages =>
    obtain ⟨id, payload⟩ := x
    dsimp only
    split
    · rename_i hopen
      unfold onResponse
      dsimp only
      cases hp : s.pending with
      | nil =>
        have hdrop := h.drop_response ht fun _ entry hentry => by rw [hp] at hentry; cases hentry
        rw [hp] at hdrop
        exact hdrop
      | cons entry rest =>
        have hid := h.head_eq hstep hopen ht hp
        obtain ⟨hsub, hmem, hgone⟩ := h.head_gone hp
        have hproduced : (entry.id, payload) ∈ s.produced := by
          rw [hid]
          exact h.answered (id, payload) (by rw [ht]; exact List.mem_cons_self)
        have hmatched : ∀ x ∈ s.matched ++ [(entry.id, id)], x.1 = x.2 := by
          intro x hx
          rcases List.mem_append.mp hx with hold | hnew
          · exact h.results.matched x hold
          · rw [List.mem_singleton.mp hnew]
            exact hid
        have hsettled := h.settle hsub hmem hgone (fun v hv => ⟨payload, hproduced, hv⟩) hmatched
        exact hsettled.drop_response ht fun _ x hx => hid ▸ hgone x hx
    · rename_i hclosed
      exact h.drop_response ht fun hopen => absurd hopen hclosed

theorem Inv.timeout (h : Inv decode s) (id : Nat) : Inv decode (timeout id s) := by
  unfold RuntimeSession.timeout
  cases hf : s.pending.find? (·.id = id) with
  | none => exact h
  | some entry =>
    have hid : entry.id = id := by simpa using List.find?_some hf
    have hmem : id ∈ s.pending.map RuntimeEntry.id := by
      rw [← hid]
      exact List.mem_map_of_mem (List.mem_of_find?_eq_some hf)
    refine h.settle List.filter_sublist hmem (fun x hx => ?_) nofun h.results.matched
    simpa using (List.mem_filter.mp hx).2

theorem Inv.onError (h : Inv decode s) (message : String) : Inv decode (onError message s) := by
  unfold RuntimeSession.onError
  split
  · cases hp : s.pending with
    | nil => exact h
    | cons entry rest =>
      obtain ⟨hsub, hmem, hgone⟩ := h.head_gone hp
      exact h.settle hsub hmem hgone nofun h.results.matched
  · exact h

theorem Inv.close (h : Inv decode s) : Inv decode (close s) := by
  obtain ⟨hflight, hpending, hsettled, hthrown, hproduced⟩ := h.new
  refine ⟨⟨h.results.matched, ?_, h.results.failed, ?_⟩, List.Pairwise.nil, h.flight, nofun,
    ⟨hflight, nofun, ?_, hthrown, hproduced⟩, nofun, h.unserved, h.answered⟩
  · intro id v hv
    rcases List.mem_append.mp hv with hold | hnew
    · exact h.results.own id v hold
    · obtain ⟨entry, -, heq⟩ := List.mem_map.mp hnew
      cases heq
  · have hids : (RuntimeSession.close s).settled.map Prod.fst = s.settled.map Prod.fst ++ s.pending.map RuntimeEntry.id := by
      simp [RuntimeSession.close]
    rw [hids, List.nodup_append]
    refine ⟨h.results.once, h.numbers.imp fun hlt => Nat.ne_of_lt hlt, fun a ha b hb hab => ?_⟩
    obtain ⟨entry, hentry, rfl⟩ := List.mem_map.mp hb
    exact h.open_ entry hentry (hab ▸ ha)
  · intro x hx
    rcases List.mem_append.mp hx with hold | hnew
    · exact hsettled x hold
    · obtain ⟨entry, hentry, rfl⟩ := List.mem_map.mp hnew
      exact hpending entry hentry

end

theorem Inv.step {options : RuntimeClientOptions Val} {s : RuntimeSession Val} (h : Inv options.decode s) (op : RuntimeOp)
    (hstep : s.InStep op) : Inv options.decode (step options s op) := by
  cases op with
  | request method payload refused =>
    cases refused with
    | none => exact h.send method payload
    | some message => exact h.refuse method payload message
  | serve outcome => exact h.serve outcome
  | deliver => exact h.deliver hstep
  | timeout id =>
    unfold RuntimeSession.step
    dsimp only
    split
    · exact h.timeout id
    · exact h
  | error message => exact h.onError message
  | close => exact h.close

/-- While the two queues are in step no request is given the response of another. -/
theorem run_ownResponses (options : RuntimeClientOptions Val) (ops : List RuntimeOp)
    (h : StepsMeet (step options) InStep RuntimeSession.new ops) :
    OwnResponses options.decode (run (step options) RuntimeSession.new ops) := by
  have hinv : Inv options.decode (run (step options) RuntimeSession.new ops) :=
    run_invariant (fun s op hs hok => hs.step op hok) new_inv h
  exact hinv.results

/-- The second request fails in the facade and times out before the third is answered. -/
def timelyRun : List RuntimeOp :=
  [.request "PathRead" [1] none, .request "PathRead" [2] none, .serve (.ok [10]), .serve (.error "no such file"), .deliver,
    .request "PathRead" [3] none, .timeout 1, .serve (.ok [30]), .deliver]

theorem run_ownResponses_timelyRun :
    OwnResponses Except.ok (run (step ⟨Except.ok, true⟩) (RuntimeSession.new : RuntimeSession Bytes) timelyRun) := by
  refine run_ownResponses ⟨Except.ok, true⟩ timelyRun ?_
  unfold timelyRun
  refine ⟨trivial, trivial, trivial, trivial, ?_, trivial, trivial, trivial, ?_, trivial⟩
  · intro _ id payload rest ht
    cases ht
    decide
  · intro _ id payload rest ht
    cases ht
    decide

/-- The facade throws on the first request: its promise is resolved with the response to the second. -/
theorem run_not_ownResponses : ¬∀ ops,
    OwnResponses Except.ok (run (step ⟨Except.ok, true⟩) (RuntimeSession.new : RuntimeSession Bytes) ops) := by
  intro hall
  have hown := (hall [.request "PathRead" [1] none, .request "PathRead" [2] none, .serve (.error "no such file"), .serve (.ok [20]), .deliver]).own
  obtain ⟨payload, hp, -⟩ := hown 0 [20] List.mem_cons_self
  change (0, payload) ∈ [(1, [20])] at hp
  simp at hp

end RuntimeSession
end Star9
