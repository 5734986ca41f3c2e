import Star9.Base.Map
import Star9.Runtime.Net

/-!
# Effects on the network device

Every call of the device is a sequence of a few effects on its state. The tables
agree with the connections after each effect, and no end of an open link is lost
unless a listener lets go of dials that are still waiting.
-/
namespace Star9
open Base Prog

/-! ## What a connection is -/

structure NetConn.WellFormed (c : NetConn) : Prop where
  endpoint : c.endpoint.isSome = true ↔ c.phase = .connected
  pending : c.pendingAccepts ≠ [] → c.phase = .listening
  addr : c.phase = .bound ∨ c.phase = .listening → c.localAddr ≠ ""

theorem NetConn.new_wellFormed : NetConn.new.WellFormed where
  endpoint := by simp [NetConn.new]
  pending h := absurd rfl h
  addr h := by simp [NetConn.new] at h

section
variable {c : NetConn}

theorem NetConn.WellFormed.endpoint_none (h : c.WellFormed) (hphase : c.phase ≠ .connected) : c.endpoint = none := by
  by_contra hne
  exact hphase (h.endpoint.mp (Option.isSome_iff_ne_none.mpr hne))

theorem NetConn.WellFormed.pending_nil (h : c.WellFormed) (hphase : c.phase ≠ .listening) : c.pendingAccepts = [] := by
  by_contra hne
  exact hphase (h.pending hne)

end

/-- The connection has one end of a link, or has it waiting to be accepted. -/
def NetConn.Holds (c : NetConn) (e : NetEndpoint) : Prop := c.endpoint = some e ∨ ∃ p ∈ c.pendingAccepts, p.endpoint = e

theorem NetConn.not_holds {c : NetConn} (hend : c.endpoint = none) (hnone : c.pendingAccepts = []) (e : NetEndpoint) : ¬c.Holds e := by
  rintro (he | ⟨p, hp, -⟩)
  · rw [hend] at he
    cases he
  · rw [hnone] at hp
    cases hp

/-- What a link has still to deliver is what was sent and not yet received. -/
def NetLink.InOrder (l : NetLink) : Prop := ∀ b, l.received b ++ l.queue b = l.sent b

theorem NetLink.new_inOrder : NetLink.new.InOrder := fun _ => rfl

namespace NetDevice

/-! ## Effects -/

/-- A step of the device. With `strict` no end of an open link may be let go of. -/
inductive Effect (strict : Prop) : NetDevice → NetDevice → Prop
  | port {d : NetDevice} (port : UInt32) : Effect strict d { d with nextPort := port }
  | pair {d : NetDevice} : Effect strict d (setLink d.nextLink NetLink.new { d with nextLink := d.nextLink + 1 })
  | note {d : NetDevice} {id : Nat} {c c' : NetConn} (hc : d.resources[id]? = some c)
      (hphase : c.phase ≠ .listening ∧ c'.phase ≠ .listening ∨ c'.phase = c.phase ∧ c'.localAddr = c.localAddr)
      (hwf : c'.WellFormed) (hholds : c'.endpoint = c.endpoint ∧ c'.pendingAccepts = c.pendingAccepts) :
      Effect strict d (d.setConn id c')
  | alloc {d : NetDevice} {id : Nat} (hid : id = d.nextId.toNat + 1) (hroom : d.nextId ≠ 0xffffffff) :
      Effect strict d (setConn id NetConn.new { d with nextId := d.nextId + 1 })
  | listen {d : NetDevice} {id : Nat} {c c' : NetConn} (hc : d.resources[id]? = some c) (hphase : c.phase ≠ .listening)
      (hfree : d.listeners[c'.localAddr]? = none) (hphase' : c'.phase = .listening) (hwf : c'.WellFormed)
      (hpending : c'.pendingAccepts = c.pendingAccepts) (hend : c.endpoint = none) :
      Effect strict d (setConn id c' { d with listeners := d.listeners.insert c'.localAddr id })
  | dial {d : NetDevice} {id target link : Nat} {c c' t : NetConn} (pending : PendingAccept)
      (hc : d.resources[id]? = some c) (hphase : c.phase ≠ .listening) (hwf : c'.WellFormed)
      (hend : c.endpoint = none) (hend' : c'.endpoint = some ⟨link, true⟩) (hnone : c.pendingAccepts = [])
      (hnone' : c'.pendingAccepts = []) (hphase' : c'.phase ≠ .listening)
      (hne : target ≠ id) (ht : d.resources[target]? = some t) (hlisten : t.phase = .listening)
      (hpend : pending.endpoint = ⟨link, false⟩) (hlink : link < d.nextLink) (hfresh : ∀ x ∈ d.dialed, x.2 < link) :
      Effect strict d
        { setConn target { t with pendingAccepts := t.pendingAccepts ++ [pending] } (d.setConn id c') with
          dialed := d.dialed ++ [(target, link)] }
  | accept {d : NetDevice} {id new : Nat} {c c' : NetConn} {pending : PendingAccept} {rest : List PendingAccept}
      (hc : d.resources[id]? = some c) (hphase : c.phase = .listening) (hpending : c.pendingAccepts = pending :: rest)
      (hid : new = d.nextId.toNat + 1) (hroom : d.nextId ≠ 0xffffffff) (hwf : c'.WellFormed)
      (hend : c'.endpoint = some pending.endpoint) (hnone : c'.pendingAccepts = []) (hphase' : c'.phase ≠ .listening) :
      Effect strict d
        { setConn new c' (d.setConn id { c with pendingAccepts := rest }) with
          nextId := d.nextId + 1, accepted := d.accepted ++ [(id, pending.endpoint.link)] }
  | lose {d : NetDevice} {id : Nat} {c : NetConn} {pending : PendingAccept} {rest : List PendingAccept}
      (hc : d.resources[id]? = some c) (hpending : c.pendingAccepts = pending :: rest) (hstrict : ¬strict) :
      Effect strict d (d.setConn id { c with pendingAccepts := rest })
  | drop {d : NetDevice} {id : Nat} {c c' : NetConn} (hc : d.resources[id]? = some c) (hphase' : c'.phase ≠ .listening)
      (hwf : c'.WellFormed) (hend : c'.endpoint = none) (hnone : c'.pendingAccepts = [])
      (hstrict : strict → ∀ p ∈ c.pendingAccepts, (d.links p.endpoint.link).closed = true) :
      Effect strict d (release id c true (d.setConn id c'))
  | data {d : NetDevice} {link : Nat} {l : NetLink} (hclosed : l.closed = (d.links link).closed)
      (horder : (d.links link).InOrder → l.InOrder) : Effect strict d (d.setLink link l)

/-! ## The invariant -/

def pendingOf (d : NetDevice) (id : Nat) : List PendingAccept :=
  match d.resources[id]? with
  | some c => c.pendingAccepts
  | none => []

def dialsTo (d : NetDevice) (id : Nat) : List (Nat × Nat) := d.dialed.filter (·.1 = id)

def acceptsBy (d : NetDevice) (id : Nat) : List (Nat × Nat) := d.accepted.filter (·.1 = id)

structure Inv (d : NetDevice) : Prop where
  ids : ∀ (id : Nat) (c : NetConn), d.resources[id]? = some c → id ≤ d.nextId.toNat
  listener : ∀ (addr : String) (id : Nat), d.listeners[addr]? = some id ↔
    ∃ c, d.resources[id]? = some c ∧ c.phase = .listening ∧ c.localAddr = addr
  conn : ∀ (id : Nat) (c : NetConn), d.resources[id]? = some c → c.WellFormed
  bound : ∀ (id : Nat) (c : NetConn) (e : NetEndpoint), d.resources[id]? = some c → c.Holds e → e.link < d.nextLink
  order : ∀ id, (d.acceptsBy id ++ (d.pendingOf id).map fun p => (id, p.endpoint.link)).Sublist (d.dialsTo id)
  fresh : ∀ x ∈ d.dialed, x.2 < d.nextLink
  once : (d.dialed.map Prod.snd).Nodup
  links : ∀ k, (d.links k).InOrder

theorem new_inv : Inv new where
  ids _ _ h := by simp [new] at h
  listener _ _ := by simp [new]
  conn _ _ h := by simp [new] at h
  bound _ _ _ h := by simp [new] at h
  order _ := by simp [new, acceptsBy, pendingOf, dialsTo]
  fresh _ h := by simp [new] at h
  once := List.nodup_nil
  links _ := NetLink.new_inOrder

section
variable {d : NetDevice} {id : Nat} {c c' : NetConn}

theorem setConn_get (j : Nat) : (d.setConn id c').resources[j]? = if j = id then some c' else d.resources[j]? := by
  unfold setConn
  exact getElem?_insert_eq _ _ _ _

theorem pendingOf_of_get (h : d.resources[id]? = some c) : d.pendingOf id = c.pendingAccepts := by
  rw [pendingOf, h]

theorem setConn_pendingOf (j : Nat) : (d.setConn id c').pendingOf j = if j = id then c'.pendingAccepts else d.pendingOf j := by
  unfold pendingOf
  rw [setConn_get]
  by_cases hj : j = id
  · rw [if_pos hj, if_pos hj]
  · rw [if_neg hj, if_neg hj]

/-- A connection is replaced by one that holds no more than it did; whether it listens is said for the table. -/
theorem Inv.setConn (h : Inv d) (hid : id ≤ d.nextId.toNat) (hwf : c'.WellFormed)
    (hbound : ∀ e, c'.Holds e → e.link < d.nextLink) (hpending : c'.pendingAccepts.Sublist (d.pendingOf id))
    (hlistener : ∀ (addr : String) (j : Nat), d.listeners[addr]? = some j ↔
      ∃ c, (d.setConn id c').resources[j]? = some c ∧ c.phase = .listening ∧ c.localAddr = addr) : Inv (d.setConn id c') where
  ids j x hx := by
    rw [setConn_get] at hx
    split at hx
    · rename_i hj
      rw [hj]
      exact hid
    · exact h.ids j x hx
  listener := hlistener
  conn j x hx := by
    rw [setConn_get] at hx
    split at hx
    · cases hx
      exact hwf
    · exact h.conn j x hx
  bound j x e hx he := by
    rw [setConn_get] at hx
    split at hx
    · cases hx
      exact hbound e he
    · exact h.bound j x e hx he
  order j := by
    rw [setConn_pendingOf]
    split
    · rename_i hj
      subst hj
      refine List.Sublist.trans ?_ (h.order j)
      exact List.Sublist.append (List.Sublist.refl _) (hpending.map _)
    · exact h.order j
  fresh := h.fresh
  once := h.once
  links := h.links

/-- Whether the connection listens, and where, is not changed. -/
theorem Inv.listener_setConn (h : Inv d) (hc : d.resources[id]? = some c)
    (hphase : c.phase ≠ .listening ∧ c'.phase ≠ .listening ∨ c'.phase = c.phase ∧ c'.localAddr = c.localAddr)
    (addr : String) (j : Nat) : d.listeners[addr]? = some j ↔
      ∃ x, (d.setConn id c').resources[j]? = some x ∧ x.phase = .listening ∧ x.localAddr = addr := by
  rw [h.listener, setConn_get]
  by_cases hj : j = id
  · rw [hj, if_pos rfl, hc]
    simp only [Option.some.injEq, exists_eq_left']
    rcases hphase with ⟨hnot, hnot'⟩ | ⟨hsame, haddr⟩
    · exact ⟨fun hx => absurd hx.1 hnot, fun hx => absurd hx.1 hnot'⟩
    · rw [hsame, haddr]
  · rw [if_neg hj]

theorem unregisterListener_get (addr a : String) : (unregisterListener addr id d).listeners[a]? =
    if a = addr ∧ d.listeners[addr]? = some id then none else d.listeners[a]? := by
  unfold unregisterListener
  split
  · rename_i hthere
    dsimp only
    rw [getElem?_erase_eq]
    by_cases ha : a = addr
    · rw [if_pos ha, if_pos ⟨ha, hthere⟩]
    · rw [if_neg ha, if_neg (fun hx => ha hx.1)]
  · rename_i hnot
    rw [if_neg (fun hx => hnot hx.2)]

/-- What letting go does to the tables. -/
theorem release_eq (id : Nat) (c : NetConn) (d : NetDevice) : release id c true d =
    { d with
      listeners := if c.localAddr = "" then d.listeners else (unregisterListener c.localAddr id d).listeners
      links := match c.endpoint with
        | some e => Function.update d.links e.link { d.links e.link with closed := true }
        | none => d.links } := by
  unfold release
  by_cases haddr : c.localAddr = ""
  · simp only [haddr, ne_eq, not_true_eq_false, decide_false, Bool.and_false, Bool.false_eq_true, if_false, if_true]
    cases c.endpoint <;> rfl
  · simp only [haddr, ne_eq, not_false_eq_true, decide_true, Bool.and_true, if_true, if_false]
    by_cases hthere : d.listeners[c.localAddr]? = some id
    · simp only [unregisterListener, hthere, if_true]
      cases c.endpoint <;> rfl
    · simp only [unregisterListener, hthere, if_false]
      cases c.endpoint <;> rfl

theorem release_closed (k : Nat) : ((release id c true d).links k).closed =
    ((d.links k).closed || (c.endpoint.map NetEndpoint.link == some k)) := by
  rw [release_eq]
  cases c.endpoint with
  | none => simp
  | some e =>
    by_cases hk : k = e.link
    · subst hk
      simp
    · simp [hk, Ne.symm hk]

theorem Inv.drop (h : Inv d) (hc : d.resources[id]? = some c) (hphase' : c'.phase ≠ .listening) (hwf : c'.WellFormed)
    (hend : c'.endpoint = none) (hnone : c'.pendingAccepts = []) : Inv (release id c true (d.setConn id c')) := by
  have hholds := NetConn.not_holds hend hnone
  rw [release_eq]
  constructor
  · intro j x hx
    rw [setConn_get] at hx
    split at hx
    · rename_i hj
      rw [hj]
      exact h.ids id c hc
    · exact h.ids j x hx
  · -- the address of a listener that stops is taken out, and no other
    intro a j
    have haddr : c.phase = .listening → c.localAddr ≠ "" := fun hl => (h.conn id c hc).addr (.inr hl)
    have htable : (if c.localAddr = "" then (d.setConn id c').listeners
        else (unregisterListener c.localAddr id (d.setConn id c')).listeners)[a]? = some j ↔
        d.listeners[a]? = some j ∧ j ≠ id := by
      have hself : d.listeners[a]? = some id → c.phase = .listening ∧ c.localAddr = a := by
        intro hl
        obtain ⟨x, hx, hphase, hlocal⟩ := (h.listener a id).mp hl
        rw [hc] at hx
        cases hx
        exact ⟨hphase, hlocal⟩
      split
      · rename_i hempty
        refine ⟨fun hl => ⟨hl, ?_⟩, fun hl => hl.1⟩
        rintro rfl
        exact haddr (hself hl).1 hempty
      · rw [unregisterListener_get]
        have hsame : (d.setConn id c').listeners = d.listeners := rfl
        rw [hsame]
        by_cases hgone : a = c.localAddr ∧ d.listeners[c.localAddr]? = some id
        · rw [if_pos hgone, hgone.1, hgone.2]
          simp [eq_comm]
        · rw [if_neg hgone]
          refine ⟨fun hl => ⟨hl, ?_⟩, fun hl => hl.1⟩
          rintro rfl
          have hlocal := (hself hl).2
          exact hgone ⟨hlocal.symm, by rw [hlocal]; exact hl⟩
    refine htable.trans ?_
    rw [h.listener, setConn_get]
    by_cases hj : j = id
    · rw [hj, if_pos rfl]
      simp [hphase']
    · rw [if_neg hj]
      simp [hj]
  · intro j x hx
    rw [setConn_get] at hx
    split at hx
    · cases hx
      exact hwf
    · exact h.conn j x hx
  · intro j x e hx he
    rw [setConn_get] at hx
    split at hx
    · cases hx
      exact absurd he (hholds e)
    · exact h.bound j x e hx he
  · intro j
    have hpending : ∀ k, (d.setConn id c').pendingOf k = if k = id then c'.pendingAccepts else d.pendingOf k := setConn_pendingOf
    refine List.Sublist.trans ?_ (h.order j)
    refine List.Sublist.append (List.Sublist.refl _) (List.Sublist.map _ ?_)
    change ((d.setConn id c').pendingOf j).Sublist _
    rw [hpending]
    split
    · rw [hnone]
      exact List.nil_sublist _
    · exact List.Sublist.refl _
  · exact h.fresh
  · exact h.once
  · intro k
    dsimp only
    cases c.endpoint with
    | none => exact h.links k
    | some e =>
      by_cases hk : k = e.link
      · subst hk
        intro b
        have hb := h.links e.link b
        simpa [NetDevice.setConn] using hb
      · have hb := h.links k
        simpa [NetDevice.setConn, hk] using hb

theorem Inv.next_free (h : Inv d) (hid : id = d.nextId.toNat + 1) : d.resources[id]? = none := by
  by_contra hne
  obtain ⟨x, hx⟩ := Option.ne_none_iff_exists'.mp hne
  have := h.ids id x hx
  omega

/-- A connection with a new number, which does not listen. -/
theorem Inv.alloc (h : Inv d) (hid : id = d.nextId.toNat + 1) (hroom : d.nextId ≠ 0xffffffff) (hwf : c'.WellFormed)
    (hphase' : c'.phase ≠ .listening) (hnone : c'.pendingAccepts = []) (hbound : ∀ e, c'.Holds e → e.link < d.nextLink) :
    Inv (NetDevice.setConn id c' { d with nextId := d.nextId + 1 }) := by
  have hnext : (d.nextId + 1).toNat = d.nextId.toNat + 1 := by
    have hlt := d.nextId.toNat_lt
    have hne : d.nextId.toNat ≠ 0xffffffff := fun heq => hroom (UInt32.toNat_inj.mp heq)
    rw [UInt32.toNat_add, UInt32.toNat_one]
    omega
  have hfree := h.next_free hid
  have hgrown : Inv { d with nextId := d.nextId + 1 } :=
    { h with ids := fun j x hx => by dsimp only; rw [hnext]; exact Nat.le_succ_of_le (h.ids j x hx) }
  refine hgrown.setConn (by dsimp only; omega) hwf hbound (by rw [hnone]; exact List.nil_sublist _) fun a j => ?_
  rw [setConn_get]
  refine (h.listener a j).trans ?_
  by_cases hj : j = id
  · rw [hj, if_pos rfl, hfree]
    simp [hphase']
  · rw [if_neg hj]

theorem Inv.listen (h : Inv d) (hc : d.resources[id]? = some c) (hphase : c.phase ≠ .listening)
    (hfree : d.listeners[c'.localAddr]? = none) (hphase' : c'.phase = .listening) (hwf : c'.WellFormed)
    (hpending : c'.pendingAccepts = c.pendingAccepts) :
    Inv (NetDevice.setConn id c' { d with listeners := d.listeners.insert c'.localAddr id }) := by
  have hend : c'.endpoint = none := hwf.endpoint_none (by rw [hphase']; decide)
  have hnone : c'.pendingAccepts = [] := by
    rw [hpending]
    exact (h.conn id c hc).pending_nil hphase
  have hholds := NetConn.not_holds hend hnone
  -- the table is changed together with the connection, so the invariant is put together anew
  have hother : Inv (d.setConn id { c' with phase := .closed }) := by
    refine h.setConn (h.ids id c hc) ⟨by simp [hend], fun hne => absurd hnone hne, by simp⟩ (fun e he => absurd he (hholds e)) ?_ ?_
    · dsimp only
      rw [hnone]
      exact List.nil_sublist _
    · exact h.listener_setConn hc (.inl ⟨hphase, by simp⟩)
  refine { hother with ids := ?_, listener := ?_, conn := ?_, bound := ?_, order := ?_ }
  · intro j x hx
    rw [setConn_get] at hx
    split at hx
    · rename_i hj
      rw [hj]
      exact h.ids id c hc
    · exact h.ids j x hx
  · intro a j
    rw [setConn_get]
    change (d.listeners.insert c'.localAddr id)[a]? = some j ↔ _
    rw [getElem?_insert_eq]
    by_cases ha : a = c'.localAddr
    · rw [if_pos ha]
      have hfree' : ∀ x, d.resources[j]? = some x → x.phase = .listening → x.localAddr ≠ a := by
        intro x hx hl hlocal
        have := (h.listener a j).mpr ⟨x, hx, hl, hlocal⟩
        rw [ha, hfree] at this
        cases this
      by_cases hj : j = id
      · rw [hj, if_pos rfl]
        simp [hphase', ha]
      · rw [if_neg hj]
        constructor
        · intro heq
          exact absurd (Option.some.inj heq).symm hj
        · rintro ⟨x, hx, hl, hlocal⟩
          exact absurd hlocal (hfree' x hx hl)
    · rw [if_neg ha]
      refine (h.listener a j).trans ?_
      by_cases hj : j = id
      · rw [hj, if_pos rfl, hc]
        simp [hphase, Ne.symm ha]
      · rw [if_neg hj]
  · intro j x hx
    rw [setConn_get] at hx
    split at hx
    · cases hx
      exact hwf
    · exact h.conn j x hx
  · intro j x e hx he
    rw [setConn_get] at hx
    split at hx
    · cases hx
      exact absurd he (hholds e)
    · exact h.bound j x e hx he
  · intro j
    have horder := hother.order j
    rw [setConn_pendingOf] at horder ⊢
    exact horder

theorem dialsTo_append (target link j : Nat) :
    (d.dialed ++ [(target, link)]).filter (·.1 = j) = d.dialsTo j ++ if target = j then [(target, link)] else [] := by
  rw [List.filter_append, dialsTo]
  by_cases hj : target = j
  · simp [hj]
  · simp [hj]

theorem acceptsBy_append (target link j : Nat) :
    (d.accepted ++ [(target, link)]).filter (·.1 = j) = d.acceptsBy j ++ if target = j then [(target, link)] else [] := by
  rw [List.filter_append, acceptsBy]
  by_cases hj : target = j
  · simp [hj]
  · simp [hj]

/-- A dial waits at the end of the queue of its listener. -/
theorem Inv.enqueue (h : Inv d) (hc : d.resources[id]? = some c) (hphase : c.phase = .listening) {pending : PendingAccept}
    (hlink : pending.endpoint.link < d.nextLink) (hfresh : ∀ x ∈ d.dialed, x.2 < pending.endpoint.link) :
    Inv { NetDevice.setConn id { c with pendingAccepts := c.pendingAccepts ++ [pending] } d with
      dialed := d.dialed ++ [(id, pending.endpoint.link)] } where
  ids j x hx := by
    rw [setConn_get] at hx
    split at hx
    · rename_i hj
      rw [hj]
      exact h.ids id c hc
    · exact h.ids j x hx
  listener := by
    refine h.listener_setConn hc ?_
    exact .inr ⟨rfl, rfl⟩
  conn j x hx := by
    rw [setConn_get] at hx
    split at hx
    · cases hx
      have hwf := h.conn id c hc
      exact ⟨hwf.endpoint, fun _ => hphase, hwf.addr⟩
    · exact h.conn j x hx
  bound j x e hx he := by
    rw [setConn_get] at hx
    split at hx
    · cases hx
      rcases he with he | ⟨p, hp, rfl⟩
      · exact h.bound id c e hc (.inl he)
      · rcases List.mem_append.mp hp with hp | hp
        · exact h.bound id c _ hc (.inr ⟨p, hp, rfl⟩)
        · rw [List.mem_singleton.mp hp]
          exact hlink
    · exact h.bound j x e hx he
  order j := by
    have horder := h.order j
    change (d.acceptsBy j ++ ((d.setConn id _).pendingOf j).map _).Sublist ((d.dialed ++ [(id, pending.endpoint.link)]).filter (·.1 = j))
    rw [dialsTo_append, setConn_pendingOf]
    by_cases hj : j = id
    · subst hj
      rw [if_pos rfl, if_pos rfl, List.map_append, ← List.append_assoc]
      rw [pendingOf_of_get hc] at horder
      exact List.Sublist.append horder (List.Sublist.refl _)
    · rw [if_neg hj, if_neg (Ne.symm hj), List.append_nil]
      exact horder
  fresh x hx := by
    rcases List.mem_append.mp hx with hx | hx
    · exact h.fresh x hx
    · rw [List.mem_singleton.mp hx]
      exact hlink
  once := by
    dsimp only
    rw [List.map_append, List.nodup_append]
    refine ⟨h.once, List.nodup_singleton _, fun a ha b hb hab => ?_⟩
    obtain ⟨x, hx, rfl⟩ := List.mem_map.mp ha
    have hlt := hfresh x hx
    rw [hab, List.mem_singleton.mp hb] at hlt
    exact absurd hlt (Nat.lt_irrefl _)
  links := h.links

/-- The dial that waited longest is taken out of the queue. -/
theorem Inv.dequeue (h : Inv d) (hc : d.resources[id]? = some c) {pending : PendingAccept} {rest : List PendingAccept}
    (hpending : c.pendingAccepts = pending :: rest) :
    Inv { NetDevice.setConn id { c with pendingAccepts := rest } d with
      accepted := d.accepted ++ [(id, pending.endpoint.link)] } := by
  have hwf := h.conn id c hc
  have hsub : rest.Sublist (d.pendingOf id) := by
    rw [pendingOf_of_get hc, hpending]
    exact List.sublist_cons_self _ _
  have hwf' : ({ c with pendingAccepts := rest } : NetConn).WellFormed :=
    ⟨hwf.endpoint, fun _ => hwf.pending (by rw [hpending]; exact List.cons_ne_nil _ _), hwf.addr⟩
  have hpop : Inv (d.setConn id { c with pendingAccepts := rest }) := by
    refine h.setConn (h.ids id c hc) hwf' (fun e he => ?_) hsub (h.listener_setConn hc (.inr ⟨rfl, rfl⟩))
    rcases he with he | ⟨p, hp, rfl⟩
    · exact h.bound id c e hc (.inl he)
    · exact h.bound id c _ hc (.inr ⟨p, by rw [hpending]; exact List.mem_cons_of_mem _ hp, rfl⟩)
  refine { hpop with order := fun j => ?_ }
  have horder := h.order j
  change ((d.accepted ++ [(id, pending.endpoint.link)]).filter (fun x : Nat × Nat => decide (x.1 = j)) ++
    ((d.setConn id _).pendingOf j).map _).Sublist (d.dialsTo j)
  rw [acceptsBy_append, setConn_pendingOf]
  by_cases hj : j = id
  · subst hj
    rw [pendingOf_of_get hc, hpending] at horder
    rw [if_pos rfl, if_pos rfl, List.append_assoc]
    exact horder
  · rw [if_neg hj, if_neg (Ne.symm hj), List.append_nil]
    exact horder

theorem Inv.setLink (h : Inv d) {link : Nat} {l : NetLink} (horder : l.InOrder) : Inv (d.setLink link l) :=
  { h with
    links := fun k => by
      unfold NetDevice.setLink
      dsimp only
      by_cases hk : k = link
      · rw [hk, Function.update_self]
        exact horder
      · rw [Function.update_of_ne hk]
        exact h.links k }

theorem Inv.effect {strict : Prop} {d d' : NetDevice} (h : Inv d) (he : Effect strict d d') : Inv d' := by
  cases he with
  | port port => exact { h with }
  | pair =>
    have hgrown : Inv { d with nextLink := d.nextLink + 1 } :=
      { h with
        bound := fun j x e hx he => Nat.lt_succ_of_lt (h.bound j x e hx he)
        fresh := fun x hx => Nat.lt_succ_of_lt (h.fresh x hx) }
    exact hgrown.setLink NetLink.new_inOrder
  | @note id c c' hc hphase hwf hholds =>
    refine h.setConn (h.ids id c hc) hwf (fun e he => h.bound id c e hc ?_) ?_ (h.listener_setConn hc hphase)
    · rwa [NetConn.Holds, hholds.1, hholds.2] at he
    · rw [pendingOf_of_get hc, hholds.2]
  | alloc hid hroom => exact h.alloc hid hroom NetConn.new_wellFormed (by decide) rfl fun e he => absurd he (NetConn.not_holds rfl rfl e)
  | listen hc hphase hfree hphase' hwf hpending hend => exact h.listen hc hphase hfree hphase' hwf hpending
  | @dial id target link c c' t pending hc hphase hwf hend hend' hnone hnone' hphase' hne ht hlisten hpend hlink hfresh =>
    have hdialer : Inv (d.setConn id c') := by
      refine h.setConn (h.ids id c hc) hwf (fun e he => ?_) (by rw [hnone']; exact List.nil_sublist _)
        (h.listener_setConn hc (.inl ⟨hphase, hphase'⟩))
      rcases he with he | ⟨p, hp, -⟩
      · rw [hend'] at he
        cases he
        exact hlink
      · rw [hnone'] at hp
        cases hp
    have ht' : (d.setConn id c').resources[target]? = some t := by rw [setConn_get, if_neg hne, ht]
    have hlink' : pending.endpoint.link < (d.setConn id c').nextLink := by rw [hpend]; exact hlink
    have hqueue := hdialer.enqueue ht' hlisten hlink' (by rw [hpend]; exact hfresh)
    rw [hpend] at hqueue
    exact hqueue
  | @accept id new c c' pending rest hc hphase hpending hid hroom hwf hend hnone hphase' =>
    refine (h.dequeue hc hpending).alloc hid hroom hwf hphase' hnone fun e he => ?_
    rcases he with he | ⟨p, hp, -⟩
    · rw [hend] at he
      cases he
      exact h.bound id c _ hc (.inr ⟨pending, by rw [hpending]; exact List.mem_cons_self, rfl⟩)
    · rw [hnone] at hp
      cases hp
  | @lose id c pending rest hc hpending hstrict =>
    have hwf := h.conn id c hc
    refine h.setConn (h.ids id c hc) ⟨hwf.endpoint, fun _ => hwf.pending (by rw [hpending]; exact List.cons_ne_nil _ _), hwf.addr⟩
      (fun e he => ?_) ?_ (h.listener_setConn hc (.inr ⟨rfl, rfl⟩))
    · rcases he with he | ⟨p, hp, rfl⟩
      · exact h.bound id c e hc (.inl he)
      · exact h.bound id c _ hc (.inr ⟨p, by rw [hpending]; exact List.mem_cons_of_mem _ hp, rfl⟩)
    · rw [pendingOf_of_get hc, hpending]
      exact List.sublist_cons_self _ _
  | drop hc hphase' hwf hend hnone hstrict => exact h.drop hc hphase' hwf hend hnone
  | @data link l hclosed horder => exact h.setLink (horder (h.links link))

end

/-! ## Both ends of a link -/

def Held (d : NetDevice) (e : NetEndpoint) : Prop := ∃ (id : Nat) (c : NetConn), d.resources[id]? = some c ∧ c.Holds e

/-- An end of an open link is not held alone. -/
def NoHalfOpen (d : NetDevice) : Prop := ∀ e, d.Held e → (d.links e.link).closed = true ∨ d.Held e.other

section
variable {d d' : NetDevice} {id : Nat} {c c' : NetConn}

theorem new_noHalfOpen : NoHalfOpen new := by
  intro e he
  obtain ⟨id, c, hc, -⟩ := he
  simp [new] at hc

def HeldBeside (d : NetDevice) (id : Nat) (e : NetEndpoint) : Prop :=
  ∃ (j : Nat) (c : NetConn), j ≠ id ∧ d.resources[j]? = some c ∧ c.Holds e

theorem held_iff (hc : d.resources[id]? = some c) (e : NetEndpoint) : d.Held e ↔ c.Holds e ∨ d.HeldBeside id e := by
  constructor
  · rintro ⟨j, x, hx, he⟩
    by_cases hj : j = id
    · rw [hj, hc] at hx
      cases hx
      exact .inl he
    · exact .inr ⟨j, x, hj, hx, he⟩
  · rintro (he | ⟨j, x, -, hx, he⟩)
    · exact ⟨id, c, hc, he⟩
    · exact ⟨j, x, hx, he⟩

theorem setConn_heldBeside (e : NetEndpoint) : (d.setConn id c').HeldBeside id e ↔ d.HeldBeside id e := by
  constructor
  · rintro ⟨j, x, hj, hx, he⟩
    rw [setConn_get, if_neg hj] at hx
    exact ⟨j, x, hj, hx, he⟩
  · rintro ⟨j, x, hj, hx, he⟩
    exact ⟨j, x, hj, by rw [setConn_get, if_neg hj]; exact hx, he⟩

theorem setConn_held (e : NetEndpoint) : (d.setConn id c').Held e ↔ c'.Holds e ∨ d.HeldBeside id e := by
  have hself : (d.setConn id c').resources[id]? = some c' := by rw [setConn_get, if_pos rfl]
  rw [held_iff hself, setConn_heldBeside]

theorem heldBeside_of_free (hfree : d.resources[id]? = none) (e : NetEndpoint) : d.HeldBeside id e ↔ d.Held e := by
  constructor
  · rintro ⟨j, x, -, hx, he⟩
    exact ⟨j, x, hx, he⟩
  · rintro ⟨j, x, hx, he⟩
    refine ⟨j, x, ?_, hx, he⟩
    rintro rfl
    rw [hfree] at hx
    cases hx

theorem setConn_held_of_holds (hc : d.resources[id]? = some c) (hholds : ∀ e, c'.Holds e ↔ c.Holds e) (e : NetEndpoint) :
    (d.setConn id c').Held e ↔ d.Held e := by
  rw [setConn_held, held_iff hc, hholds]

/-- The same ends are held, and their links are as open as before. -/
theorem NoHalfOpen.of_held (h : NoHalfOpen d) (hheld : ∀ e, d'.Held e ↔ d.Held e)
    (hclosed : ∀ e, d.Held e → (d'.links e.link).closed = (d.links e.link).closed) : NoHalfOpen d' := by
  intro e he
  have hold := (hheld e).mp he
  rw [hclosed e hold, hheld]
  exact h e hold

/-- An end that waited is now held by the connection made for it. -/
theorem accept_held {new : Nat} {pending : PendingAccept} {rest : List PendingAccept} (hc : d.resources[id]? = some c)
    (hne : new ≠ id) (hfree : d.resources[new]? = none) (hpending : c.pendingAccepts = pending :: rest)
    (hend : c'.endpoint = some pending.endpoint) (hnone : c'.pendingAccepts = []) (e : NetEndpoint) :
    (NetDevice.setConn new c' (d.setConn id { c with pendingAccepts := rest })).Held e ↔ d.Held e := by
  have hfree' : (d.setConn id { c with pendingAccepts := rest }).resources[new]? = none := by
    rw [setConn_get, if_neg hne, hfree]
  have hnew : c'.Holds e ↔ pending.endpoint = e := by
    rw [NetConn.Holds, hend, hnone]
    simp
  have hold : c.Holds e ↔ pending.endpoint = e ∨ ({ c with pendingAccepts := rest } : NetConn).Holds e := by
    unfold NetConn.Holds
    rw [hpending]
    simp only [List.mem_cons, exists_eq_or_imp]
    tauto
  rw [setConn_held, heldBeside_of_free hfree', setConn_held, held_iff hc, hnew, hold]
  tauto

theorem NoHalfOpen.dial (h : NoHalfOpen d) {target link : Nat} {t : NetConn} {pending : PendingAccept}
    (hc : d.resources[id]? = some c) (hend : c.endpoint = none) (hend' : c'.endpoint = some ⟨link, true⟩)
    (hnone : c.pendingAccepts = []) (hnone' : c'.pendingAccepts = []) (hne : target ≠ id)
    (ht : d.resources[target]? = some t) (hpend : pending.endpoint = ⟨link, false⟩) :
    NoHalfOpen (NetDevice.setConn target { t with pendingAccepts := t.pendingAccepts ++ [pending] } (d.setConn id c')) := by
  have ht' : (d.setConn id c').resources[target]? = some t := by rw [setConn_get, if_neg hne, ht]
  have hdialer : ∀ e, c'.Holds e ↔ e = ⟨link, true⟩ := by
    intro e
    rw [NetConn.Holds, hend', hnone']
    simp [eq_comm]
  have htarget : ∀ e, ({ t with pendingAccepts := t.pendingAccepts ++ [pending] } : NetConn).Holds e ↔
      t.Holds e ∨ e = ⟨link, false⟩ := by
    intro e
    unfold NetConn.Holds
    simp only [List.mem_append, List.mem_singleton, or_and_right, exists_or, exists_eq_left, hpend, eq_comm (b := e)]
    exact or_assoc.symm
  have hheld : ∀ e, (NetDevice.setConn target { t with pendingAccepts := t.pendingAccepts ++ [pending] } (d.setConn id c')).Held e ↔
      e = ⟨link, true⟩ ∨ e = ⟨link, false⟩ ∨ d.Held e := by
    intro e
    have hsplit := held_iff ht' e
    rw [setConn_held, hdialer] at hsplit
    have hempty := NetConn.not_holds hend hnone e
    have hold := held_iff hc e
    rw [setConn_held, htarget]
    tauto
  intro e he
  rw [hheld] at he
  rw [hheld]
  rcases he with rfl | rfl | he
  · exact .inr (.inr (.inl rfl))
  · exact .inr (.inl rfl)
  · rcases h e he with hclosed | hother
    · exact .inl hclosed
    · exact .inr (.inr (.inr hother))

/-- The link of the endpoint is closed, and those of the dials that waited were. -/
theorem NoHalfOpen.drop (h : NoHalfOpen d) (hc : d.resources[id]? = some c) (hend : c'.endpoint = none)
    (hnone : c'.pendingAccepts = []) (hstrict : ∀ p ∈ c.pendingAccepts, (d.links p.endpoint.link).closed = true) :
    NoHalfOpen (release id c true (d.setConn id c')) := by
  have hheld : ∀ e, (release id c true (d.setConn id c')).Held e ↔ d.HeldBeside id e := by
    intro e
    have hsame : (release id c true (d.setConn id c')).Held e ↔ (d.setConn id c').Held e := by
      rw [release_eq]
      rfl
    rw [hsame, setConn_held]
    exact or_iff_right (NetConn.not_holds hend hnone e)
  intro e he
  rw [hheld] at he
  rw [hheld, release_closed]
  have hlinks : (d.setConn id c').links = d.links := rfl
  rw [hlinks]
  rcases h e ((held_iff hc e).mpr (.inr he)) with hclosed | hother
  · rw [hclosed]
    exact .inl rfl
  · rcases (held_iff hc e.other).mp hother with hholds | hbeside
    · left
      rcases hholds with hends | ⟨p, hp, heq⟩
      · rw [hends]
        simp [NetEndpoint.other]
      · have hclosed := hstrict p hp
        rw [heq] at hclosed
        have hlink : e.other.link = e.link := rfl
        rw [← hlink, hclosed]
        rfl
    · exact .inr hbeside

theorem NoHalfOpen.effect {strict : Prop} (h : NoHalfOpen d) (hinv : Inv d) (hstrict : strict) (he : Effect strict d d') :
    NoHalfOpen d' := by
  cases he with
  | port port => exact h
  | pair =>
    refine h.of_held (fun e => Iff.rfl) fun e he => ?_
    obtain ⟨id, c, hc, hholds⟩ := he
    have hlt := hinv.bound id c e hc hholds
    unfold setLink
    dsimp only
    rw [Function.update_of_ne (Nat.ne_of_lt hlt)]
  | @note id c c' hc hphase hwf hholds =>
    refine h.of_held (setConn_held_of_holds hc fun e => ?_) fun e he => rfl
    rw [NetConn.Holds, hholds.1, hholds.2]
    rfl
  | @alloc id hid hroom =>
    refine h.of_held (fun e => ?_) fun e he => rfl
    rw [setConn_held]
    refine (or_iff_right (NetConn.not_holds rfl rfl e)).trans ?_
    exact heldBeside_of_free (hinv.next_free hid) e
  | @listen id c c' hc hphase hfree hphase' hwf hpending hend =>
    have hend' : c'.endpoint = none := hwf.endpoint_none (by rw [hphase']; decide)
    refine h.of_held (fun e => ?_) fun e he => rfl
    refine setConn_held_of_holds hc (fun e => ?_) e
    rw [NetConn.Holds, NetConn.Holds, hend, hend', hpending]
  | dial pending hc hphase hwf hend hend' hnone hnone' hphase' hne ht hlisten hpend hlink hfresh =>
    exact h.dial hc hend hend' hnone hnone' hne ht hpend
  | @accept id new c c' pending rest hc hphase hpending hid hroom hwf hend hnone hphase' =>
    have hfree := hinv.next_free hid
    have hne : new ≠ id := by
      rintro rfl
      rw [hfree] at hc
      cases hc
    exact h.of_held (accept_held hc hne hfree hpending hend hnone) fun e he => rfl
  | lose hc hpending hnot => exact absurd hstrict hnot
  | drop hc hphase' hwf hend hnone hclosed => exact h.drop hc hend hnone (hclosed hstrict)
  | @data link l hclosed horder =>
    refine h.of_held (fun e => Iff.rfl) fun e he => ?_
    unfold setLink
    dsimp only
    by_cases hk : e.link = link
    · rw [hk, Function.update_self, hclosed]
    · rw [Function.update_of_ne hk]

end

end NetDevice
end Star9
