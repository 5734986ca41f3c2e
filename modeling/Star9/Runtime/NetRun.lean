import Star9.Runtime.NetEffect

/-!
# Runs of the network device

Each call is a sequence of effects, so what the effects keep holds in every state
that a run of calls reaches.
-/
namespace Star9
open Base Prog

namespace NetDevice

def Reaches (strict : Prop) : NetDevice → NetDevice → Prop := Relation.ReflTransGen (Effect strict)

section
variable {strict : Prop} {d d' : NetDevice} {id : Nat} {c c' : NetConn} {α : Type}

theorem Inv.reaches (h : Inv d) (hr : Reaches strict d d') : Inv d' := by
  induction hr with
  | refl => exact h
  | tail _ he ih => exact ih.effect he

theorem NoHalfOpen.reaches (h : NoHalfOpen d) (hinv : Inv d) (hstrict : strict) (hr : Reaches strict d d') :
    NoHalfOpen d' := by
  induction hr with
  | refl => exact h
  | tail hr he ih => exact ih.effect (hinv.reaches hr) hstrict he

theorem Reaches.one (he : Effect strict d d') : Reaches strict d d' := Relation.ReflTransGen.single he

/-! ## Effects of the calls -/

theorem alloc_reaches : Reaches strict d (alloc d).2 := by
  unfold alloc
  rw [get_bind, branch_apply]
  split
  · exact .refl
  · rename_i hroom
    exact .one (.alloc rfl hroom)

theorem lookup_some (hc : d.resources[id]? = some c) : lookup id d = (.ok c, d) := by
  unfold lookup
  rw [get_bind, hc]
  rfl

theorem lookup_none (hc : d.resources[id]? = none) : lookup id d = (.err (.path "open" (toString id) .notFound), d) := by
  unfold lookup
  rw [get_bind, hc]
  rfl

theorem lookup_reaches {f : NetConn → Prog NetDevice Error α}
    (hf : ∀ c, d.resources[id]? = some c → Reaches strict d (f c d).2) : Reaches strict d ((lookup id >>= f) d).2 := by
  cases hc : d.resources[id]? with
  | none =>
    rw [bind_err (lookup_none hc)]
    exact .refl
  | some c =>
    rw [bind_ok (lookup_some hc)]
    exact hf c hc

theorem note_error (h : Inv d) (hc : d.resources[id]? = some c) (error : Option String) :
    Effect strict d (d.setConn id { c with lastError := error }) := by
  have hwf := h.conn id c hc
  exact .note hc (.inr ⟨rfl, rfl⟩) ⟨hwf.endpoint, hwf.pending, hwf.addr⟩ ⟨rfl, rfl⟩

theorem refuse_reaches (h : Inv d) (hc : d.resources[id]? = some c) (message : String) :
    Reaches strict d (refuse id c message d : Outcome Error α × NetDevice).2 := .one (note_error h hc _)

theorem bind_reaches (h : Inv d) (addr : String) : Reaches strict d (NetDevice.bind id addr d).2 := by
  refine lookup_reaches fun c hc => ?_
  have hwf := h.conn id c hc
  have hmove : c.phase = .idle ∨ c.phase = .closed → trim addr ≠ "" →
      Effect strict d (d.setConn id
        { c with phase := .bound, localAddr := trim addr, remote := "", lastError := none, endpoint := none }) := by
    intro hphase haddr
    have hfree : c.phase ≠ .connected ∧ c.phase ≠ .listening := by
      rcases hphase with hp | hp <;> rw [hp] <;> decide
    have hnone := hwf.pending_nil hfree.2
    exact .note hc (.inl ⟨hfree.2, by simp⟩) ⟨by simp, fun hne => absurd hnone hne, fun _ => haddr⟩
      ⟨(hwf.endpoint_none hfree.1).symm, rfl⟩
  rw [branch_apply]
  split
  · exact refuse_reaches h hc _
  · rename_i haddr
    cases hp : c.phase with
    | idle => exact .one (hmove (.inl hp) haddr)
    | closed => exact .one (hmove (.inr hp) haddr)
    | bound =>
      dsimp only
      rw [branch_apply]
      split
      · have hnote : Effect strict d _ := note_error h hc none
        rw [hp] at hnote
        exact .one hnote
      · exact refuse_reaches h hc _
    | listening => exact refuse_reaches h hc _
    | connected => exact refuse_reaches h hc _

/-- The address is noted, and the connection listens there if nobody else does. -/
theorem announceAs_reaches (h : Inv d) (hc : d.resources[id]? = some c)
    (hphase : c.phase ≠ .connected ∧ c.phase ≠ .listening) {addr : String} (haddr : addr ≠ "") :
    Reaches strict d (announceAs id { c with localAddr := addr } d).2 := by
  have hwf := h.conn id c hc
  have hnote : Effect strict d (d.setConn id { c with localAddr := addr }) :=
    .note hc (.inl ⟨hphase.2, hphase.2⟩) ⟨hwf.endpoint, hwf.pending, fun _ => haddr⟩ ⟨rfl, rfl⟩
  have hnoted : (d.setConn id { c with localAddr := addr }).resources[id]? = some { c with localAddr := addr } := by
    rw [setConn_get, if_pos rfl]
  unfold announceAs
  rw [modify_bind]
  cases hfree : d.listeners[addr]? with
  | some other =>
    have hused : registerListener addr id (d.setConn id { c with localAddr := addr }) =
        (.err (.message ("announce: address already in use: " ++ addr)), d.setConn id { c with localAddr := addr }) := by
      unfold registerListener
      rw [get_bind]
      have hsome : ((d.setConn id { c with localAddr := addr }).listeners[addr]?).isSome = true := by
        change (d.listeners[addr]?).isSome = true
        rw [hfree]
        rfl
      rw [if_pos hsome]
      rfl
    rw [bind_err hused]
    exact .one hnote
  | none =>
    have hunused : registerListener addr id (d.setConn id { c with localAddr := addr }) =
        (.ok (), { d.setConn id { c with localAddr := addr } with listeners := d.listeners.insert addr id }) := by
      unfold registerListener
      rw [get_bind]
      have hnone : ¬((d.setConn id { c with localAddr := addr }).listeners[addr]?).isSome = true := by
        change ¬(d.listeners[addr]?).isSome = true
        rw [hfree]
        simp
      rw [if_neg hnone]
      rfl
    rw [bind_ok hunused]
    have hwf' : ({ c with phase := .listening, localAddr := addr, remote := "", lastError := none, endpoint := none } : NetConn).WellFormed :=
      ⟨by simp, fun _ => rfl, fun _ => haddr⟩
    exact (Relation.ReflTransGen.single hnote).tail
      (.listen hnoted hphase.2 hfree rfl hwf' rfl (hwf.endpoint_none hphase.1))

theorem announce_reaches (h : Inv d) (addr : String) : Reaches strict d (announce id addr d).2 := by
  refine lookup_reaches fun c hc => ?_
  have hwf := h.conn id c hc
  rw [branch_apply]
  split
  · exact refuse_reaches h hc _
  · rename_i haddr
    have hfrom : c.phase ≠ .connected ∧ c.phase ≠ .listening →
        Reaches strict d (announceAs id { c with localAddr := trim addr } d).2 := fun hphase =>
      announceAs_reaches h hc hphase haddr
    cases hp : c.phase with
    | idle =>
      rw [hp] at hfrom
      exact hfrom (by decide)
    | closed =>
      rw [hp] at hfrom
      exact hfrom (by decide)
    | bound =>
      dsimp only
      rw [branch_apply]
      split
      · have haddr' := hwf.addr (.inl hp)
        exact announceAs_reaches h hc (by rw [hp]; decide) haddr'
      · exact refuse_reaches h hc _
    | listening => exact refuse_reaches h hc _
    | connected => exact refuse_reaches h hc _

theorem localOr_cases (c : NetConn) (d : NetDevice) : (∃ addr port, localOr c d = (.ok addr, { d with nextPort := port })) ∨
    localOr c d = (.abort, d) := by
  unfold localOr
  rw [branch_apply]
  split
  · unfold nextAutoLocal
    rw [get_bind, branch_apply]
    split
    · exact .inr rfl
    · exact .inl ⟨_, _, rfl⟩
  · exact .inl ⟨c.localAddr, d.nextPort, rfl⟩

theorem dialFrom_reaches (h : Inv d) (hc : d.resources[id]? = some c) (hphase : c.phase ≠ .connected ∧ c.phase ≠ .listening)
    {target link : Nat} {t : NetConn} (ht : d.resources[target]? = some t) (hlisten : t.phase = .listening) (addr : String)
    (hlink : link < d.nextLink) (hfresh : ∀ x ∈ d.dialed, x.2 < link) :
    Reaches strict d (dialFrom id c addr target link d).2 := by
  have hwf := h.conn id c hc
  have hne : target ≠ id := by
    rintro rfl
    rw [hc] at ht
    cases ht
    exact hphase.2 hlisten
  unfold dialFrom
  rcases localOr_cases c d with ⟨localAddr, port, hlocal⟩ | hlocal
  · rw [bind_ok hlocal, modify_bind]
    have hport : Effect strict d { d with nextPort := port } := .port port
    have ht' : (NetDevice.setConn id
        { c with phase := .connected, localAddr, remote := addr, lastError := none, endpoint := some ⟨link, true⟩ }
        { d with nextPort := port }).resources[target]? = some t := by
      rw [setConn_get, if_neg hne]
      exact ht
    unfold enqueueAccept
    rw [bind_ok (lookup_some ht'), if_pos hlisten]
    have hnone := hwf.pending_nil hphase.2
    have hwf' : ({ c with phase := .connected, localAddr, remote := addr, lastError := none, endpoint := some ⟨link, true⟩ } :
        NetConn).WellFormed := ⟨by simp, fun hne => absurd hnone hne, by simp⟩
    exact (Relation.ReflTransGen.single hport).tail
      (.dial _ hc hphase.2 hwf' (hwf.endpoint_none hphase.1) rfl hnone hnone (by simp) hne ht hlisten rfl hlink hfresh)
  · rw [bind_abort hlocal]
    exact .refl

/-- Who is found at an address listens. -/
theorem listener_cases (h : Inv d) (addr : String) : listener addr d = (.ok none, d) ∨
    ∃ (id : Nat) (t : NetConn), listener addr d = (.ok (some id), d) ∧ d.resources[id]? = some t ∧ t.phase = .listening := by
  unfold listener
  rw [get_bind]
  cases ha : d.listeners[addr]? with
  | none => exact .inl rfl
  | some id =>
    obtain ⟨t, ht, hlisten, -⟩ := (h.listener addr id).mp ha
    refine .inr ⟨id, t, ?_, ht, hlisten⟩
    dsimp only
    rw [ht]
    rfl

theorem dial_reaches (h : Inv d) (addr : String) : Reaches strict d (dial id addr d).2 := by
  refine lookup_reaches fun c hc => ?_
  rw [branch_apply]
  split
  · exact refuse_reaches h hc _
  · rcases listener_cases h (trim addr) with hnobody | ⟨target, t, hfound, ht, hlisten⟩
    · rw [bind_ok hnobody]
      exact .refl
    · rw [bind_ok hfound]
      have hpair : Effect strict d (pair d).2 := .pair
      have hinv : Inv (pair d).2 := h.effect hpair
      have hpair_eq : pair d = (.ok d.nextLink, (pair d).2) := rfl
      dsimp only
      rw [bind_ok hpair_eq]
      have hfrom : c.phase ≠ .connected ∧ c.phase ≠ .listening →
          Reaches strict (pair d).2 (dialFrom id c (trim addr) target d.nextLink (pair d).2).2 := fun hphase =>
        dialFrom_reaches hinv hc hphase ht hlisten (trim addr) (Nat.lt_succ_self d.nextLink) h.fresh
      refine Relation.ReflTransGen.trans (.single hpair) ?_
      cases hp : c.phase with
      | idle => exact hfrom (by rw [hp]; decide)
      | bound => exact hfrom (by rw [hp]; decide)
      | closed => exact hfrom (by rw [hp]; decide)
      | listening => exact refuse_reaches hinv hc _
      | connected => exact refuse_reaches hinv hc _

/-- The commands that end a connection. -/
def Ends (cmd : String) : Prop :=
  (splitWhitespace cmd.toList).head? = some "hangup" ∨ (splitWhitespace cmd.toList).head? = some "reset"

/-- A call that lets a waiting dial on an open link go is the exception. -/
def Settled (d : NetDevice) : NetOp → Prop
  | .ctl id cmd => Ends cmd → ∀ p ∈ d.pendingOf id, (d.links p.endpoint.link).closed = true
  | .listen id => d.pendingOf id ≠ [] → d.nextId ≠ 0xffffffff
  | _ => True

theorem setConn_setConn (c₁ c₂ : NetConn) : (d.setConn id c₁).setConn id c₂ = d.setConn id c₂ := by
  unfold setConn
  congr 1
  refine Std.ExtTreeMap.ext_getElem? fun k => ?_
  dsimp only
  rw [Std.ExtTreeMap.getElem?_insert, Std.ExtTreeMap.getElem?_insert, Std.ExtTreeMap.getElem?_insert]
  split
  · rfl
  · rfl

theorem allocConnected_eq (localAddr remote : String) (endpoint : NetEndpoint) (hroom : d.nextId ≠ 0xffffffff) :
    allocConnected localAddr remote endpoint d = (.ok (d.nextId.toNat + 1),
      NetDevice.setConn (d.nextId.toNat + 1)
        { NetConn.new with phase := .connected, localAddr, remote, lastError := none, endpoint := some endpoint }
        { d with nextId := d.nextId + 1 }) := by
  have halloc : alloc d = (.ok (d.nextId.toNat + 1),
      NetDevice.setConn (d.nextId.toNat + 1) NetConn.new { d with nextId := d.nextId + 1 }) := by
    unfold alloc
    rw [get_bind]
    exact congrFun (if_neg hroom) _
  have hnew : (NetDevice.setConn (d.nextId.toNat + 1) NetConn.new { d with nextId := d.nextId + 1 }).resources[d.nextId.toNat + 1]? =
      some NetConn.new := by rw [setConn_get, if_pos rfl]
  unfold allocConnected
  rw [bind_ok halloc, bind_ok (lookup_some hnew), modify_bind, setConn_setConn]
  rfl

theorem acceptOne_reaches (h : Inv d) (hstrict : strict → d.Settled (.listen id)) : Reaches strict d (acceptOne id d).2 := by
  refine lookup_reaches fun c hc => ?_
  rw [branch_apply]
  split
  · exact refuse_reaches h hc _
  · rename_i hphase
    have hlisten : c.phase = .listening := not_not.mp hphase
    cases hp : c.pendingAccepts with
    | nil => exact .refl
    | cons pending rest =>
      dsimp only
      rw [modify_bind]
      by_cases hroom : d.nextId = 0xffffffff
      · have hfull : alloc (d.setConn id { c with pendingAccepts := rest }) = (.abort, d.setConn id { c with pendingAccepts := rest }) := by
          unfold alloc
          rw [get_bind]
          exact congrFun (if_pos hroom) _
        have hstop : allocConnected c.localAddr pending.remote pending.endpoint (d.setConn id { c with pendingAccepts := rest }) =
            (.abort, d.setConn id { c with pendingAccepts := rest }) := bind_abort hfull
        rw [bind_abort hstop]
        refine .one (.lose hc hp fun hs => hstrict hs ?_ hroom)
        rw [pendingOf_of_get hc, hp]
        exact List.cons_ne_nil _ _
      · have hmade := allocConnected_eq (d := d.setConn id { c with pendingAccepts := rest }) c.localAddr pending.remote pending.endpoint hroom
        rw [bind_ok hmade]
        exact .one (.accept hc hlisten hp rfl hroom ⟨by simp, fun hne => absurd rfl hne, by simp⟩ rfl rfl (by simp))

/-- Whoever does not listen has no address to take out of the table. -/
theorem release_of_not_listening (h : Inv d) (hc : d.resources[id]? = some c) (hphase : c.phase ≠ .listening) (c' : NetConn) :
    release id c false (d.setConn id c') = release id c true (d.setConn id c') := by
  have hnot : d.listeners[c.localAddr]? ≠ some id := by
    intro hthere
    obtain ⟨x, hx, hlisten, -⟩ := (h.listener c.localAddr id).mp hthere
    rw [hc] at hx
    cases hx
    exact hphase hlisten
  have hsame : unregisterListener c.localAddr id (d.setConn id c') = d.setConn id c' := if_neg hnot
  unfold release
  rw [hsame, ite_self, ite_self]

theorem hangup_reaches (h : Inv d) (hstrict : strict → ∀ p ∈ d.pendingOf id, (d.links p.endpoint.link).closed = true) :
    Reaches strict d (hangup id d).2 := by
  refine lookup_reaches fun c hc => ?_
  rw [pendingOf_of_get hc] at hstrict
  have hwf' : ({ c with phase := .closed, lastError := none, endpoint := none, pendingAccepts := [] } : NetConn).WellFormed :=
    ⟨by simp, fun hne => absurd rfl hne, by simp⟩
  have hdrop : Effect strict d (release id c true (d.setConn id
      { c with phase := .closed, lastError := none, endpoint := none, pendingAccepts := [] })) :=
    .drop hc (by simp) hwf' rfl rfl hstrict
  cases hp : c.phase with
  | connected =>
    rw [← release_of_not_listening h hc (by rw [hp]; decide)] at hdrop
    exact .one hdrop
  | listening => exact .one hdrop
  | idle => exact refuse_reaches h hc _
  | bound => exact refuse_reaches h hc _
  | closed => exact refuse_reaches h hc _

theorem reset_reaches (hstrict : strict → ∀ p ∈ d.pendingOf id, (d.links p.endpoint.link).closed = true) :
    Reaches strict d (reset id d).2 := by
  refine lookup_reaches fun c hc => ?_
  rw [pendingOf_of_get hc] at hstrict
  exact .one (.drop hc (by decide) NetConn.new_wellFormed rfl rfl hstrict)

theorem ctl_reaches (h : Inv d) (cmd : String) (hstrict : strict → d.Settled (.ctl id cmd)) :
    Reaches strict d (ctl id cmd d).2 := by
  change strict → (Ends cmd → _) at hstrict
  unfold Ends at hstrict
  unfold ctl
  cases hw : splitWhitespace cmd.toList with
  | nil => exact .refl
  | cons word parts =>
    rw [hw] at hstrict
    by_cases hdial : word = "dial"
    · subst hdial
      exact dial_reaches h _
    by_cases hbind : word = "bind"
    · subst hbind
      exact bind_reaches h _
    by_cases hannounce : word = "announce"
    · subst hannounce
      exact announce_reaches h _
    by_cases hhangup : word = "hangup"
    · subst hhangup
      exact hangup_reaches h fun hs => hstrict hs (.inl rfl)
    by_cases hreset : word = "reset"
    · subst hreset
      exact reset_reaches fun hs => hstrict hs (.inr rfl)
    by_cases hnoop : word = "noop"
    · subst hnoop
      exact .refl
    simp only [throw_apply]
    exact .refl

/-! ## Data -/

theorem connectedEndpoint_state (id : Nat) (d : NetDevice) : (connectedEndpoint id d).2 = d := by
  unfold connectedEndpoint
  cases hc : d.resources[id]? with
  | none =>
    rw [bind_err (lookup_none hc)]
  | some c =>
    rw [bind_ok (lookup_some hc), branch_apply]
    split
    · rfl
    · cases c.endpoint <;> rfl

theorem takeBytes_inOrder {l : NetLink} (e : NetEndpoint) (len : Nat) (h : l.InOrder) : (takeBytes e len l).InOrder := by
  intro b
  unfold takeBytes
  dsimp only
  by_cases hb : b = e.left
  · rw [hb, Function.update_self, Function.update_self, List.append_assoc, List.take_append_drop]
    exact h e.left
  · rw [Function.update_of_ne hb, Function.update_of_ne hb]
    exact h b

theorem giveBytes_inOrder {l : NetLink} (e : NetEndpoint) (data : Bytes) (h : l.InOrder) : (giveBytes e data l).InOrder := by
  intro b
  unfold giveBytes
  dsimp only
  by_cases hb : b = !e.left
  · rw [hb, Function.update_self, Function.update_self, ← List.append_assoc]
    rw [h (!e.left)]
  · rw [Function.update_of_ne hb, Function.update_of_ne hb]
    exact h b

theorem connectedEndpoint_reaches {f : NetEndpoint → Prog NetDevice Error α} (hf : ∀ e, Reaches strict d (f e d).2) :
    Reaches strict d ((connectedEndpoint id >>= f) d).2 := by
  rw [bind_of_state (connectedEndpoint_state id d)]
  split
  · exact hf _
  · exact .refl
  · exact .refl

theorem read_reaches (len : Nat) : Reaches strict d (NetDevice.read id len d).2 := by
  refine connectedEndpoint_reaches fun e => ?_
  rw [get_bind, modify_bind]
  exact .one (.data rfl (takeBytes_inOrder e len))

theorem write_reaches (data : Bytes) : Reaches strict d (NetDevice.write id data d).2 := by
  refine connectedEndpoint_reaches fun e => ?_
  rw [get_bind, branch_apply]
  split
  · exact .refl
  · exact .one (.data rfl (giveBytes_inOrder e data))

theorem step_reaches (h : Inv d) (op : NetOp) : Reaches (d.Settled op) d (d.step op) := by
  cases op with
  | new => exact alloc_reaches
  | ctl id cmd => exact ctl_reaches h cmd fun hs => hs
  | listen id => exact acceptOne_reaches h fun hs => hs
  | read id len => exact read_reaches len
  | write id data => exact write_reaches data

theorem run_inv (ops : List NetOp) : Inv (run step new ops) :=
  run_invariant_of_step (fun _ op h => h.reaches (step_reaches h op)) new_inv ops

/-! ## Closed links -/

theorem Effect.closed_mono (he : Effect strict d d') : d.nextLink ≤ d'.nextLink ∧
    ∀ k, k < d.nextLink → (d.links k).closed = true → (d'.links k).closed = true := by
  cases he with
  | pair =>
    refine ⟨Nat.le_succ _, fun k hk hclosed => ?_⟩
    unfold setLink
    dsimp only
    rw [Function.update_of_ne (Nat.ne_of_lt hk)]
    exact hclosed
  | @drop id c c' =>
    refine ⟨by rw [release_eq]; exact Nat.le_refl _, fun k _ hclosed => ?_⟩
    rw [release_closed]
    change ((d.links k).closed || _) = true
    rw [hclosed]
    rfl
  | @data link l hsame =>
    refine ⟨Nat.le_refl _, fun k _ hclosed => ?_⟩
    unfold setLink
    dsimp only
    by_cases hk : k = link
    · rw [hk, Function.update_self, hsame, ← hk]
      exact hclosed
    · rw [Function.update_of_ne hk]
      exact hclosed
  | _ => exact ⟨Nat.le_refl _, fun _ _ hclosed => hclosed⟩

theorem Reaches.closed_mono (hr : Reaches strict d d') : d.nextLink ≤ d'.nextLink ∧
    ∀ k, k < d.nextLink → (d.links k).closed = true → (d'.links k).closed = true := by
  induction hr with
  | refl => exact ⟨Nat.le_refl _, fun _ _ hclosed => hclosed⟩
  | tail _ he ih =>
    obtain ⟨hle, hkeep⟩ := he.closed_mono
    exact ⟨Nat.le_trans ih.1 hle, fun k hk hclosed => hkeep k (Nat.lt_of_lt_of_le hk ih.1) (ih.2 k hk hclosed)⟩

theorem run_closed_mono (h : Inv d) (ops : List NetOp) {k : Nat} (hk : k < d.nextLink) (hclosed : (d.links k).closed = true) :
    ((run step d ops).links k).closed = true := by
  induction ops generalizing d with
  | nil => exact hclosed
  | cons op ops ih =>
    have hr := step_reaches h op
    rw [run_cons]
    exact ih (h.reaches hr) (Nat.lt_of_lt_of_le hk hr.closed_mono.1) (hr.closed_mono.2 k hk hclosed)

theorem release_closes {e : NetEndpoint} (hend : c.endpoint = some e) (listens : Bool) : ((release id c listens d).links e.link).closed = true := by
  unfold release
  rw [hend]
  dsimp only
  unfold closeLink setLink
  dsimp only
  rw [Function.update_self]

theorem ctl_closes (h : Inv d) (hc : d.resources[id]? = some c) {e : NetEndpoint} (hend : c.endpoint = some e) {cmd : String}
    (hcmd : Ends cmd) : ((ctl id cmd d).2.links e.link).closed = true := by
  have hphase : c.phase = .connected := (h.conn id c hc).endpoint.mp (by rw [hend]; rfl)
  unfold ctl
  rcases hcmd with hw | hw
  · obtain ⟨parts, hparts⟩ : ∃ parts, splitWhitespace cmd.toList = "hangup" :: parts := List.head?_eq_some_iff.mp hw
    rw [hparts]
    change ((hangup id d).2.links e.link).closed = true
    unfold hangup
    rw [bind_ok (lookup_some hc), hphase]
    dsimp only
    rw [modify_bind, modify_apply]
    exact release_closes hend _
  · obtain ⟨parts, hparts⟩ : ∃ parts, splitWhitespace cmd.toList = "reset" :: parts := List.head?_eq_some_iff.mp hw
    rw [hparts]
    change ((reset id d).2.links e.link).closed = true
    unfold reset
    rw [bind_ok (lookup_some hc), modify_bind, modify_apply]
    exact release_closes hend _

theorem connectedEndpoint_of_get (h : Inv d) (hc : d.resources[id]? = some c) {e : NetEndpoint} (hend : c.endpoint = some e) :
    connectedEndpoint id d = (.ok e, d) := by
  have hphase : c.phase = .connected := (h.conn id c hc).endpoint.mp (by rw [hend]; rfl)
  unfold connectedEndpoint
  rw [bind_ok (lookup_some hc), if_neg (not_not.mpr hphase), hend]
  rfl

theorem write_of_closed (h : Inv d) (hc : d.resources[id]? = some c) {e : NetEndpoint} (hend : c.endpoint = some e)
    (hclosed : (d.links e.link).closed = true) (data : Bytes) :
    NetDevice.write id data d = (.err (.message "data: broken pipe"), d) := by
  unfold NetDevice.write
  rw [bind_ok (connectedEndpoint_of_get h hc hend), get_bind]
  rw [if_pos hclosed]
  rfl

end

/-! ## Tables, accepts and streams -/

structure Consistent (d : NetDevice) : Prop where
  listener : ∀ (addr : String) (id : Nat), d.listeners[addr]? = some id ↔
    ∃ c, d.resources[id]? = some c ∧ c.phase = .listening ∧ c.localAddr = addr
  endpoint : ∀ (id : Nat) (c : NetConn), d.resources[id]? = some c → (c.endpoint.isSome = true ↔ c.phase = .connected)
  data : ∀ id, (connectedEndpoint id d).1 ≠ .abort
  acceptOnce : (d.accepted.map Prod.snd).Nodup
  acceptOrder : ∀ id, (d.acceptsBy id).Sublist (d.dialsTo id)
  delivery : ∀ k b, (d.links k).received b <+: (d.links k).sent b

section
variable {d : NetDevice}

theorem Inv.connectedEndpoint (h : Inv d) (id : Nat) : (NetDevice.connectedEndpoint id d).1 ≠ .abort := by
  unfold NetDevice.connectedEndpoint
  cases hc : d.resources[id]? with
  | none =>
    rw [bind_err (lookup_none hc)]
    nofun
  | some c =>
    rw [bind_ok (lookup_some hc), branch_apply]
    split
    · nofun
    · rename_i hphase
      obtain ⟨e, he⟩ := Option.isSome_iff_exists.mp ((h.conn id c hc).endpoint.mpr (not_not.mp hphase))
      rw [he]
      nofun

theorem Inv.accepts_sublist (h : Inv d) (id : Nat) : (d.acceptsBy id).Sublist (d.dialsTo id) :=
  (List.sublist_append_left _ _).trans (h.order id)

theorem Inv.accepted_nodup (h : Inv d) : (d.accepted.map Prod.snd).Nodup := by
  have hdialed : d.dialed.Nodup := h.once.of_map _
  have hmem : ∀ x ∈ d.accepted, x ∈ d.dialed := by
    intro x hx
    have hby : x ∈ d.acceptsBy x.1 := List.mem_filter.mpr ⟨hx, by simp⟩
    exact (List.mem_filter.mp ((h.accepts_sublist x.1).subset hby)).1
  have hnodup : d.accepted.Nodup := by
    rw [List.nodup_iff_count_le_one]
    intro x
    have hby : (d.acceptsBy x.1).Nodup := (hdialed.filter _).sublist (h.accepts_sublist x.1)
    have hcount := List.nodup_iff_count_le_one.mp hby x
    unfold acceptsBy at hcount
    rwa [List.count_filter (by simp)] at hcount
  refine (List.nodup_map_iff_inj_on hnodup).mpr fun x hx y hy hxy => ?_
  exact List.inj_on_of_nodup_map h.once (hmem x hx) (hmem y hy) hxy

theorem Inv.consistent (h : Inv d) : Consistent d where
  listener := h.listener
  endpoint id c hc := (h.conn id c hc).endpoint
  data := h.connectedEndpoint
  acceptOnce := h.accepted_nodup
  acceptOrder := h.accepts_sublist
  delivery k b := ⟨(d.links k).queue b, h.links k b⟩

end

/-- In every state the tables agree with the connections, accepts follow the dials and every link delivers
in order; once an end was hung up or reset, whoever still has an end of its link cannot write to it. -/
theorem run_consistent (ops : List NetOp) :
    Consistent (run step new ops) ∧
    ∀ (id : Nat) (c : NetConn) (e : NetEndpoint), (run step new ops).resources[id]? = some c → c.endpoint = some e →
      ∀ cmd, Ends cmd → ∀ (later : List NetOp) (id' : Nat) (c' : NetConn) (e' : NetEndpoint),
        (run step new (ops ++ .ctl id cmd :: later)).resources[id']? = some c' → c'.endpoint = some e' →
        e'.link = e.link → ∀ data, NetDevice.write id' data (run step new (ops ++ .ctl id cmd :: later)) =
          (.err (.message "data: broken pipe"), run step new (ops ++ .ctl id cmd :: later)) := by
  have hinv := run_inv ops
  refine ⟨hinv.consistent, fun id c e hc hend cmd hcmd later id' c' e' hc' hend' hlink data => ?_⟩
  refine write_of_closed (run_inv _) hc' hend' ?_ data
  have hsplit : run step new (ops ++ .ctl id cmd :: later) = run step (step (run step new ops) (.ctl id cmd)) later := by
    unfold run
    rw [List.foldl_append, List.foldl_cons]
  have hr := step_reaches hinv (.ctl id cmd)
  have hlt : e.link < (run step new ops).nextLink := hinv.bound id c e hc (.inl hend)
  rw [hsplit, hlink]
  exact run_closed_mono (hinv.reaches hr) later (Nat.lt_of_lt_of_le hlt hr.closed_mono.1) (ctl_closes hinv hc hend hcmd)

/-- A listener, a dialer and the accepted connection. -/
def acceptRun : List NetOp := [.new, .new, .ctl 1 "announce a", .ctl 2 "dial a", .listen 1]

theorem run_consistent_acceptRun : Consistent (run step new acceptRun) ∧
    NetDevice.write 3 [1] (run step new (acceptRun ++ [.ctl 2 "hangup"])) =
      (.err (.message "data: broken pipe"), run step new (acceptRun ++ [.ctl 2 "hangup"])) := by
  obtain ⟨hconsistent, hwrite⟩ := run_consistent acceptRun
  refine ⟨hconsistent, ?_⟩
  have hdialer : (run step new acceptRun).resources[2]? =
      some { NetConn.new with phase := .connected, localAddr := "local:10001", remote := "a", endpoint := some ⟨0, true⟩ } := by
    decide +kernel
  have haccepted : (run step new (acceptRun ++ [.ctl 2 "hangup"])).resources[3]? =
      some { NetConn.new with phase := .connected, localAddr := "a", remote := "local:10001", endpoint := some ⟨0, false⟩ } := by
    decide +kernel
  exact hwrite 2 _ ⟨0, true⟩ hdialer rfl "hangup" (.inl (by decide +kernel)) [] 3 _ ⟨0, false⟩ haccepted rfl rfl [1]

/-! ## Half-open connections -/

/-- The other end of an open link has a reader, now or when it is accepted. -/
def Paired (d : NetDevice) : Prop :=
  ∀ (id : Nat) (c : NetConn) (e : NetEndpoint), d.resources[id]? = some c → c.phase = .connected → c.endpoint = some e →
    (d.links e.link).closed = false →
      (∃ (id' : Nat) (c' : NetConn), d.resources[id']? = some c' ∧ c'.phase = .connected ∧ c'.endpoint = some e.other) ∨
      ∃ (id' : Nat) (c' : NetConn), d.resources[id']? = some c' ∧ c'.phase = .listening ∧
        ∃ p ∈ c'.pendingAccepts, p.endpoint = e.other

theorem NoHalfOpen.paired {d : NetDevice} (h : NoHalfOpen d) (hinv : Inv d) : Paired d := by
  intro id c e hc _ hend hopen
  rcases h e ⟨id, c, hc, .inl hend⟩ with hclosed | ⟨id', c', hc', hholds⟩
  · rw [hopen] at hclosed
    cases hclosed
  · have hwf := hinv.conn id' c' hc'
    rcases hholds with hends | ⟨p, hp, heq⟩
    · exact .inl ⟨id', c', hc', hwf.endpoint.mp (by rw [hends]; rfl), hends⟩
    · exact .inr ⟨id', c', hc', hwf.pending (List.ne_nil_of_mem hp), p, hp, heq⟩

/-- No connection is half open, unless a listener is ended while a dial on an open link waits for it. -/
theorem run_paired (ops : List NetOp) (h : StepsMeet step Settled new ops) : Paired (run step new ops) := by
  have hboth : Inv (run step new ops) ∧ NoHalfOpen (run step new ops) := by
    refine run_invariant (I := fun d => Inv d ∧ NoHalfOpen d) (fun d op hd hok => ?_) ⟨new_inv, new_noHalfOpen⟩ h
    have hr := step_reaches hd.1 op
    exact ⟨hd.1.reaches hr, hd.2.reaches hd.1 hok hr⟩
  exact hboth.2.paired hboth.1

theorem run_paired_acceptRun : Paired (run step new (acceptRun ++ [.ctl 1 "hangup"])) := by
  refine run_paired (acceptRun ++ [.ctl 1 "hangup"]) ?_
  unfold acceptRun
  refine ⟨trivial, trivial, ?_, ?_, ?_, ?_, trivial⟩
  · intro hcmd
    exact absurd hcmd (by unfold Ends; decide +kernel)
  · intro hcmd
    exact absurd hcmd (by unfold Ends; decide +kernel)
  · intro _
    decide +kernel
  · intro _ p hp
    have hnone : (run step new acceptRun).pendingOf 1 = [] := by decide +kernel
    change p ∈ (run step new acceptRun).pendingOf 1 at hp
    rw [hnone] at hp
    cases hp

/-- The listener hangs up while the dial waits: the dialer stays connected to nobody. -/
theorem run_not_paired : ¬∀ ops, Paired (run step new ops) := by
  intro hall
  have hpaired := hall [.new, .new, .ctl 1 "announce a", .ctl 2 "dial a", .ctl 1 "hangup"]
  generalize hd : run step new [.new, .new, .ctl 1 "announce a", .ctl 2 "dial a", .ctl 1 "hangup"] = d at hpaired
  have hdialer : d.resources[2]? =
      some { NetConn.new with phase := .connected, localAddr := "local:10001", remote := "a", endpoint := some ⟨0, true⟩ } := by
    rw [← hd]
    decide +kernel
  have hopen : (d.links 0).closed = false := by
    rw [← hd]
    decide +kernel
  have hnobody : ∀ x ∈ d.resources.toList, x.2.endpoint ≠ some ⟨0, false⟩ ∧ x.2.pendingAccepts = [] := by
    rw [← hd]
    decide +kernel
  rcases hpaired 2 _ ⟨0, true⟩ hdialer rfl rfl hopen with ⟨id', c', hc', -, hend⟩ | ⟨id', c', hc', -, p, hp, -⟩
  · exact (hnobody (id', c') (Std.ExtTreeMap.mem_toList_iff_getElem?_eq_some.mpr hc')).1 hend
  · have hnone := (hnobody (id', c') (Std.ExtTreeMap.mem_toList_iff_getElem?_eq_some.mpr hc')).2
    dsimp only at hnone
    rw [hnone] at hp
    cases hp

end NetDevice
end Star9
