import Star9.Runtime.NetRun

/-!
# Commands that fail

A command that fails leaves the device as it is, apart from the error that its connection
remembers. The one exception is an address that is in use: a connection that is idle or closed
takes it for its own before the device refuses it.
-/
namespace Star9
open Base Prog

/-- A connection apart from the error that it remembers. -/
def NetConn.facts (c : NetConn) : NetConn := { c with lastError := none }

namespace NetDevice

/-- Only what a connection remembers as its last error is different. -/
structure Kept (id : Nat) (d d' : NetDevice) : Prop where
  listeners : d'.listeners = d.listeners
  others : ∀ j, j ≠ id → d'.resources[j]? = d.resources[j]?
  conn : (d'.resources[id]?).map NetConn.facts = (d.resources[id]?).map NetConn.facts
  links : ∀ k < d.nextLink, d'.links k = d.links k

def KeepsOnErr (id : Nat) (d : NetDevice) (r : Outcome Error Unit × NetDevice) : Prop := ∀ e, r.1 = .err e → Kept id d r.2

/-- A connection that is idle or closed asks for an address that is in use and not its own. -/
structure TakesUsed (d : NetDevice) (id : Nat) (addr : String) : Prop where
  conn : ∃ c, d.resources[id]? = some c ∧ (c.phase = .idle ∨ c.phase = .closed) ∧ c.localAddr ≠ addr
  used : (d.listeners[addr]?).isSome

/-- The command announces such an address. -/
def AnnouncesUsed (d : NetDevice) (id : Nat) (cmd : String) : Prop :=
  ∃ parts, splitWhitespace cmd.toList = "announce" :: parts ∧ d.TakesUsed id (trim (" ".intercalate parts))

section
variable {d : NetDevice} {id : Nat} {c c' : NetConn}

theorem Kept.refl (id : Nat) (d : NetDevice) : Kept id d d := ⟨rfl, fun _ _ => rfl, rfl, fun _ _ => rfl⟩

theorem kept_setConn_iff (hc : d.resources[id]? = some c) : Kept id d (d.setConn id c') ↔ c'.facts = c.facts := by
  constructor
  · intro h
    have hconn := h.conn
    rw [setConn_get, if_pos rfl, hc] at hconn
    exact Option.some.inj hconn
  · intro h
    refine ⟨rfl, ?_, ?_, fun _ _ => rfl⟩
    · intro j hj
      rw [setConn_get, if_neg hj]
    · rw [setConn_get, if_pos rfl, hc, Option.map_some, Option.map_some, h]

/-- A new link is nobody's yet. -/
theorem Kept.pair (h : Kept id (pair d).2 d') : Kept id d d' := by
  refine ⟨h.listeners, h.others, h.conn, fun k hk => ?_⟩
  have hlink := h.links k (Nat.lt_succ_of_lt hk)
  rw [hlink]
  exact Function.update_of_ne hk.ne _ _

theorem keepsOnErr_ok {r : Outcome Error Unit × NetDevice} (h : r.1 = .ok ()) : KeepsOnErr id d r := by
  intro e he
  rw [h] at he
  exact absurd he.symm Outcome.err_ne_ok

theorem refuse_keepsOnErr (hc : d.resources[id]? = some c) (message : String) : KeepsOnErr id d (refuse id c message d) :=
  fun _ _ => (kept_setConn_iff hc).mpr rfl

theorem lookup_keepsOnErr {f : NetConn → Prog NetDevice Error Unit}
    (hf : ∀ c, d.resources[id]? = some c → KeepsOnErr id d (f c d)) : KeepsOnErr id d ((lookup id >>= f) d) := by
  cases hc : d.resources[id]? with
  | none =>
    rw [bind_err (lookup_none hc)]
    exact fun _ _ => .refl id d
  | some c =>
    rw [bind_ok (lookup_some hc)]
    exact hf c hc

/-! ## Commands -/

theorem bind_keepsOnErr (d : NetDevice) (id : Nat) (addr : String) : KeepsOnErr id d (NetDevice.bind id addr d) := by
  refine lookup_keepsOnErr fun c hc => ?_
  rw [branch_apply]
  split
  · exact refuse_keepsOnErr hc _
  · cases hp : c.phase with
    | idle => exact keepsOnErr_ok rfl
    | closed => exact keepsOnErr_ok rfl
    | bound =>
      dsimp only
      rw [branch_apply]
      split
      · exact keepsOnErr_ok rfl
      · exact refuse_keepsOnErr hc _
    | listening => exact refuse_keepsOnErr hc _
    | connected => exact refuse_keepsOnErr hc _

theorem hangup_keepsOnErr (d : NetDevice) (id : Nat) : KeepsOnErr id d (hangup id d) := by
  refine lookup_keepsOnErr fun c hc => ?_
  cases hp : c.phase with
  | connected => exact keepsOnErr_ok rfl
  | listening => exact keepsOnErr_ok rfl
  | idle => exact refuse_keepsOnErr hc _
  | bound => exact refuse_keepsOnErr hc _
  | closed => exact refuse_keepsOnErr hc _

theorem reset_keepsOnErr (d : NetDevice) (id : Nat) : KeepsOnErr id d (reset id d) :=
  lookup_keepsOnErr fun _ _ => keepsOnErr_ok rfl

/-- A listener takes in who dials it. -/
theorem dialFrom_keepsOnErr (hphase : c.phase ≠ .listening) (hc : d.resources[id]? = some c) {target : Nat} {t : NetConn}
    (ht : d.resources[target]? = some t) (hlisten : t.phase = .listening) (d' : NetDevice) (addr : String) (link : Nat) :
    KeepsOnErr id d' (dialFrom id c addr target link d) := by
  have hne : target ≠ id := by
    rintro rfl
    rw [hc] at ht
    cases ht
    exact hphase hlisten
  unfold dialFrom
  rcases localOr_cases c d with ⟨localAddr, port, hlocal⟩ | hlocal
  · rw [bind_ok hlocal, modify_bind]
    have ht' : (NetDevice.setConn id
        { c with phase := .connected, localAddr, remote := addr, lastError := none, endpoint := some ⟨link, true⟩ }
        { d with nextPort := port }).resources[target]? = some t := by
      rw [setConn_get, if_neg hne]
      exact ht
    unfold enqueueAccept
    rw [bind_ok (lookup_some ht'), if_pos hlisten]
    exact keepsOnErr_ok rfl
  · rw [bind_abort hlocal]
    exact fun _ he => absurd he.symm Outcome.err_ne_abort

theorem dial_keepsOnErr (h : Inv d) (id : Nat) (addr : String) : KeepsOnErr id d (dial id addr d) := by
  refine lookup_keepsOnErr fun c hc => ?_
  rw [branch_apply]
  split
  · exact refuse_keepsOnErr hc _
  · rcases listener_cases h (trim addr) with hnobody | ⟨target, t, hfound, ht, hlisten⟩
    · rw [bind_ok hnobody]
      exact fun _ _ => .refl id d
    · rw [bind_ok hfound]
      have hpair_eq : pair d = (.ok d.nextLink, (pair d).2) := rfl
      have hc' : (pair d).2.resources[id]? = some c := hc
      have ht' : (pair d).2.resources[target]? = some t := ht
      have hrefused : KeepsOnErr id d (invalidTransition "dial" id c (pair d).2) := fun _ _ => .pair ((kept_setConn_iff hc').mpr rfl)
      have hfrom : c.phase ≠ .listening → KeepsOnErr id d (dialFrom id c (trim addr) target d.nextLink (pair d).2) := fun hphase =>
        dialFrom_keepsOnErr hphase hc' ht' hlisten d (trim addr) d.nextLink
      dsimp only
      rw [bind_ok hpair_eq]
      cases hp : c.phase with
      | idle => exact hfrom (by rw [hp]; decide)
      | bound => exact hfrom (by rw [hp]; decide)
      | closed => exact hfrom (by rw [hp]; decide)
      | listening => exact hrefused
      | connected => exact hrefused

theorem announceAs_used (hused : (d.listeners[c.localAddr]?).isSome = true) :
    announceAs id c d = (.err (.message ("announce: address already in use: " ++ c.localAddr)), d.setConn id c) := by
  have hregister : registerListener c.localAddr id (d.setConn id c) =
      (.err (.message ("announce: address already in use: " ++ c.localAddr)), d.setConn id c) := by
    unfold registerListener
    rw [get_bind]
    exact congrFun (if_pos hused) _
  unfold announceAs
  rw [modify_bind, bind_err hregister]

theorem announceAs_free (hfree : ¬(d.listeners[c.localAddr]?).isSome = true) : (announceAs id c d).1 = .ok () := by
  have hregister : registerListener c.localAddr id (d.setConn id c) =
      (.ok (), { d.setConn id c with listeners := d.listeners.insert c.localAddr id }) := by
    unfold registerListener
    rw [get_bind]
    exact congrFun (if_neg hfree) _
  unfold announceAs
  rw [modify_bind, bind_ok hregister]
  rfl

/-- The address stays when it was not registered. -/
theorem announceAs_keepsOnErr_iff (hc : d.resources[id]? = some c) (addr : String) :
    KeepsOnErr id d (announceAs id { c with localAddr := addr } d) ↔ ((d.listeners[addr]?).isSome → c.localAddr = addr) := by
  by_cases hused : (d.listeners[addr]?).isSome = true
  · rw [announceAs_used (c := { c with localAddr := addr }) hused]
    constructor
    · intro h _
      have hfacts := (kept_setConn_iff hc).mp (h _ rfl)
      exact (congrArg NetConn.localAddr hfacts).symm
    · intro h _ _
      obtain rfl := h hused
      exact (kept_setConn_iff hc).mpr rfl
  · exact ⟨fun _ h => absurd h hused, fun _ => keepsOnErr_ok (announceAs_free hused)⟩

theorem Inv.not_used_empty (h : Inv d) : ¬(d.listeners[""]?).isSome = true := by
  intro hused
  obtain ⟨id, hid⟩ := Option.isSome_iff_exists.mp hused
  obtain ⟨c, hc, hlisten, haddr⟩ := (h.listener "" id).mp hid
  exact (h.conn id c hc).addr (.inr hlisten) haddr

theorem announce_keepsOnErr_iff (h : Inv d) (id : Nat) (addr : String) :
    KeepsOnErr id d (announce id addr d) ↔ ¬ d.TakesUsed id (trim addr) := by
  unfold announce
  cases hc : d.resources[id]? with
  | none =>
    rw [bind_err (lookup_none hc)]
    refine ⟨fun _ ⟨⟨c, hthere, _⟩, _⟩ => ?_, fun _ _ _ => .refl id d⟩
    cases hc.symm.trans hthere
  | some c =>
    rw [bind_ok (lookup_some hc)]
    have htakes : d.TakesUsed id (trim addr) ↔
        (c.phase = .idle ∨ c.phase = .closed) ∧ c.localAddr ≠ trim addr ∧ (d.listeners[trim addr]?).isSome := by
      constructor
      · rintro ⟨⟨x, hx, hphase, hne⟩, hused⟩
        cases hc.symm.trans hx
        exact ⟨hphase, hne, hused⟩
      · rintro ⟨hphase, hne, hused⟩
        exact ⟨⟨c, hc, hphase, hne⟩, hused⟩
    have hkept : ∀ (r : Outcome Error Unit × NetDevice), ¬ d.TakesUsed id (trim addr) → KeepsOnErr id d r →
        (KeepsOnErr id d r ↔ ¬ d.TakesUsed id (trim addr)) := fun r hnot hkeeps => ⟨fun _ => hnot, fun _ => hkeeps⟩
    have hfrom : c.phase = .idle ∨ c.phase = .closed →
        (KeepsOnErr id d (announceAs id { c with localAddr := trim addr } d) ↔ ¬ d.TakesUsed id (trim addr)) := by
      intro hphase
      rw [announceAs_keepsOnErr_iff hc, htakes]
      tauto
    have hother : c.phase ≠ .idle ∧ c.phase ≠ .closed → ¬ d.TakesUsed id (trim addr) := by
      rw [htakes]
      tauto
    rw [branch_apply]
    split
    · rename_i hempty
      refine hkept _ (fun htaken => ?_) (refuse_keepsOnErr hc _)
      have hused := htaken.used
      rw [hempty] at hused
      exact h.not_used_empty hused
    · cases hp : c.phase with
      | idle =>
        rw [hp] at hfrom
        exact hfrom (.inl rfl)
      | closed =>
        rw [hp] at hfrom
        exact hfrom (.inr rfl)
      | bound =>
        rw [hp] at hother
        dsimp only
        rw [branch_apply]
        split
        · rename_i haddr
          refine hkept _ (hother (by decide)) ?_
          have hown := (announceAs_keepsOnErr_iff hc (trim addr)).mpr fun _ => haddr
          rwa [← haddr] at hown
        · exact hkept _ (hother (by decide)) (refuse_keepsOnErr hc _)
      | listening =>
        rw [hp] at hother
        exact hkept _ (hother (by decide)) (refuse_keepsOnErr hc _)
      | connected =>
        rw [hp] at hother
        exact hkept _ (hother (by decide)) (refuse_keepsOnErr hc _)

theorem Inv.ctl_keepsOnErr_iff (h : Inv d) (id : Nat) (cmd : String) :
    KeepsOnErr id d (NetDevice.ctl id cmd d) ↔ ¬ AnnouncesUsed d id cmd := by
  unfold NetDevice.ctl AnnouncesUsed
  cases hw : splitWhitespace cmd.toList with
  | nil => exact ⟨fun _ ⟨_, hparts, _⟩ => absurd hparts (by simp), fun _ _ _ => .refl id d⟩
  | cons word parts =>
    by_cases hannounce : word = "announce"
    · subst hannounce
      refine (announce_keepsOnErr_iff h id _).trans (not_congr ⟨fun htakes => ⟨parts, rfl, htakes⟩, ?_⟩)
      rintro ⟨other, heq, htakes⟩
      cases heq
      exact htakes
    have hnot : ¬∃ other, word :: parts = "announce" :: other ∧ d.TakesUsed id (trim (" ".intercalate other)) := by
      rintro ⟨other, heq, -⟩
      exact hannounce (List.cons.inj heq).1
    refine ⟨fun _ => hnot, fun _ => ?_⟩
    by_cases hdial : word = "dial"
    · subst hdial
      exact dial_keepsOnErr h id _
    by_cases hbind : word = "bind"
    · subst hbind
      exact bind_keepsOnErr d id _
    by_cases hhangup : word = "hangup"
    · subst hhangup
      exact hangup_keepsOnErr d id
    by_cases hreset : word = "reset"
    · subst hreset
      exact reset_keepsOnErr d id
    by_cases hnoop : word = "noop"
    · subst hnoop
      exact keepsOnErr_ok rfl
    simp only [throw_apply]
    exact fun _ _ => .refl id d

end

/-- In every state that a run reaches, a command that fails changes nothing, except if it
announces an address that is in use and not the connection's own. -/
theorem ctl_keeps_iff (ops : List NetOp) (id : Nat) (cmd : String) :
    KeepsOnErr id (run step new ops) (ctl id cmd (run step new ops)) ↔ ¬ AnnouncesUsed (run step new ops) id cmd :=
  (run_inv ops).ctl_keepsOnErr_iff id cmd

def announcedRun : List NetOp := [.new, .new, .ctl 1 "announce a"]

/-- The second connection has an address afterwards, and had none. -/
theorem ctl_keeps_not : ¬ ∀ (ops : List NetOp) (id : Nat) (cmd : String),
    KeepsOnErr id (run step new ops) (ctl id cmd (run step new ops)) := by
  intro h
  have herr : (ctl 2 "announce a" (run step new announcedRun)).1 = .err (.message "announce: address already in use: a") := by
    decide +kernel
  have hchanged : ((ctl 2 "announce a" (run step new announcedRun)).2.resources[2]?).map NetConn.facts ≠
      ((run step new announcedRun).resources[2]?).map NetConn.facts := by decide +kernel
  exact hchanged (h announcedRun 2 "announce a" _ herr).conn

end NetDevice
end Star9
