import Star9.Protocol.FidFrame

/-!
# The fid table over a client operation

An operation that clunks the fids it has taken leaves the table of the server as
it was, and an open leaves one fid more. The two operations that walk twice
before they work can forget the first of their fids.
-/
namespace Star9
open Base Prog NinePServer

namespace NinePClientFs
variable {σ η α β : Type} (fs : FileSystem σ η) {f a : UInt32}

/-! ## Programs that write only their own fid -/

/-- The entry of a fid and the fid counter are the same after the run. -/
def Spares (f : UInt32) (p : Prog (Session σ η) Error α) : Prop :=
  Preserves (fun s => (s.transport.fids f, s.nextFid)) p

/-- The run writes no entry but that of `a`. -/
def Owns (a : UInt32) (p : Prog (Session σ η) Error α) : Prop := ∀ f, f ≠ a → Spares f p

theorem spares_call {request : NinePRequest} (h : f ∉ touched request) :
    Spares f (call (loopbackTransport fs) request) := fun s =>
  Prod.ext (preserves_call fs (keeps_handle fs h) s) (call_nextFid fs request s)

theorem owns_call {request : NinePRequest} (h : touched request ⊆ [a]) :
    Owns a (call (loopbackTransport fs) request) := fun _ hf =>
  spares_call fs fun hmem => hf (List.mem_singleton.mp (h hmem))

theorem owns_pure (x : α) : Owns a (pure x : Prog (Session σ η) Error α) := fun _ _ => preserves_pure x

theorem owns_throw (e : Error) : Owns a (throw e : Prog (Session σ η) Error α) := fun _ _ => preserves_throw e

theorem owns_ofExcept (x : Except Error α) : Owns a (Prog.ofExcept x : Prog (Session σ η) Error α) :=
  fun _ _ => preserves_ofExcept x

theorem owns_bind {p : Prog (Session σ η) Error α} {g : α → Prog (Session σ η) Error β} (hp : Owns a p)
    (hg : ∀ x, Owns a (g x)) : Owns a (p >>= g) := fun f hf => preserves_bind (hp f hf) fun x => hg x f hf

theorem owns_ite {c : Prop} [Decidable c] {p q : Prog (Session σ η) Error α} (hp : Owns a p) (hq : Owns a q) :
    Owns a (if c then p else q) := fun f hf => preserves_ite (hp f hf) (hq f hf)

theorem owns_expect (accepts : NinePResponse → Bool) {request : NinePRequest} (h : touched request ⊆ [a]) :
    Owns a (expect (loopbackTransport fs) accepts request) :=
  owns_bind (owns_call fs h) fun _ => owns_ite (owns_pure _) (owns_throw _)

theorem owns_getattrFid (path : String) : Owns a (getattrFid (loopbackTransport fs) a path) := by
  refine owns_bind (owns_call fs (List.Subset.refl _)) fun r => ?_
  split
  · split
    · exact owns_pure _
    · exact fun _ _ => preserves_abort
  · exact owns_throw _

theorem owns_readChunk (offset : UInt64) (count : UInt32) :
    Owns a (readChunk (loopbackTransport fs) a offset count) := by
  refine owns_bind (owns_call fs (List.Subset.refl _)) fun r => ?_
  split
  · exact owns_pure _
  · exact owns_throw _

theorem owns_readAllLoop (size : UInt64) (count : UInt32) (rounds : Nat) (offset : UInt64) (data : Bytes) :
    Owns a (readAllLoop (loopbackTransport fs) a size count rounds offset data) := by
  induction rounds generalizing offset data with
  | zero => exact owns_pure _
  | succ rounds ih =>
    exact owns_ite (owns_bind (owns_readChunk fs _ _) fun _ => owns_ite (owns_throw _)
      (owns_ite (owns_throw _) (ih _ _))) (owns_pure _)

theorem owns_readAllFid (size : UInt64) : Owns a (readAllFid (loopbackTransport fs) a size) :=
  owns_bind (fun _ _ => preserves_get) fun _ => owns_readAllLoop fs _ _ _ _ _

theorem owns_writeChunk (offset : UInt64) (chunk : Bytes) :
    Owns a (writeChunk (loopbackTransport fs) a offset chunk) := by
  refine owns_bind (owns_call fs (List.Subset.refl _)) fun r => ?_
  split
  · exact owns_ite (owns_throw _) (owns_ite (owns_throw _) (owns_pure _))
  · exact owns_throw _

theorem owns_writeAllLoop (count rounds : Nat) (offset : UInt64) (data : Bytes) :
    Owns a (writeAllLoop (loopbackTransport fs) a count rounds offset data) := by
  induction rounds generalizing offset data with
  | zero => exact owns_pure _
  | succ rounds ih =>
    exact owns_ite (owns_pure _) (owns_bind (owns_writeChunk fs _ _) fun _ => ih _ _)

theorem owns_writeXattr (attr : String) (data : Bytes) :
    Owns a (writeXattr (loopbackTransport fs) a attr data) :=
  owns_bind (owns_expect fs _ (List.Subset.refl _)) fun _ =>
    owns_bind (fun _ _ => preserves_get) fun _ => owns_writeAllLoop fs _ _ _ _

theorem owns_readlinkFid : Owns a (readlinkFid (loopbackTransport fs) a) := by
  refine owns_bind (owns_call fs (List.nil_subset _)) fun r => ?_
  split
  · exact owns_pure _
  · exact owns_throw _

/-! ## Clunking -/

/-- After a clunk the fid is free, whatever the answer was. -/
theorem clunkFid_fids (a : UInt32) (s : Session σ η) :
    (clunkFid (loopbackTransport fs) a s).2.transport.fids = Function.update s.transport.fids a none ∧
      (clunkFid (loopbackTransport fs) a s).2.nextFid = s.nextFid := by
  have hstate : (clunkFid (loopbackTransport fs) a s).2 = (call (loopbackTransport fs) (.clunk a) s).2 := by
    rw [clunkFid, bind_apply]
    rcases call (loopbackTransport fs) (.clunk a) s with ⟨r | e | _, s'⟩
    · cases r <;> rfl
    · rfl
    · rfl
  refine ⟨?_, by rw [hstate, call_nextFid]⟩
  have hcall := (call_state fs (show requestFits (.clunk a) = true from rfl) s).1
  rw [hstate, hcall]
  exact handle_clunk_fids fs a s.transport

theorem Owns.nextFid {p : Prog (Session σ η) Error α} (hp : Owns a p) (s : Session σ η) :
    (p s).2.nextFid = s.nextFid :=
  congrArg Prod.snd (hp (a + 1) (by simp) s)

theorem Owns.fids {p : Prog (Session σ η) Error α} (hp : Owns a p) (s : Session σ η) :
    (p s).2.transport.fids = Function.update s.transport.fids a ((p s).2.transport.fids a) := by
  funext f
  by_cases hf : f = a
  · subst hf
    rw [Function.update_self]
  · rw [Function.update_of_ne hf]
    exact congrArg Prod.fst (hp f hf s)

/-- Work on another fid, then clunk this one. -/
theorem thenClunk_owned {b : UInt32} (a : UInt32) {p : Prog (Session σ η) Error α} (hp : Owns b p)
    (s : Session σ η) (hret : (thenClunk (loopbackTransport fs) a p s).1.returned = true) :
    ∃ x, (thenClunk (loopbackTransport fs) a p s).2.transport.fids =
        Function.update (Function.update s.transport.fids b x) a none ∧
      (thenClunk (loopbackTransport fs) a p s).2.nextFid = s.nextFid := by
  obtain ⟨-, hstate⟩ := thenClunk_state hret
  obtain ⟨hclunk, hcount⟩ := clunkFid_fids fs a (p s).2
  refine ⟨(p s).2.transport.fids b, ?_, ?_⟩
  · rw [hstate, hclunk]
    exact congrArg (Function.update · a none) (hp.fids s)
  · rw [hstate, hcount, hp.nextFid]

/-- Work on a fid, then clunk it: only that fid is gone. -/
theorem thenClunk_fids {p : Prog (Session σ η) Error α} (hp : Owns a p) (s : Session σ η)
    (hret : (thenClunk (loopbackTransport fs) a p s).1.returned = true) :
    (thenClunk (loopbackTransport fs) a p s).2.transport.fids = Function.update s.transport.fids a none ∧
      (thenClunk (loopbackTransport fs) a p s).2.nextFid = s.nextFid := by
  obtain ⟨x, hfids, hnext⟩ := thenClunk_owned fs a hp s hret
  rw [hfids, hnext, Function.update_idem]
  exact ⟨rfl, rfl⟩

/-- Giving a fid up frees it. -/
theorem clunkAndThrow_fids (α : Type) (a : UInt32) (e : Error) (s : Session σ η) :
    ((clunkAndThrow (loopbackTransport fs) a e : Prog _ _ α) s).1 = .abort ∨
    ∃ s', (clunkAndThrow (loopbackTransport fs) a e : Prog _ _ α) s = (.err e, s') ∧
      s'.transport.fids = Function.update s.transport.fids a none ∧ s'.nextFid = s.nextFid := by
  have hclunk := clunkFid_fids fs a s
  rw [clunkAndThrow, bind_apply, attempt]
  rcases h : clunkFid (loopbackTransport fs) a s with ⟨_ | e' | _, s'⟩ <;> rw [h] at hclunk
  · exact Or.inr ⟨s', rfl, hclunk⟩
  · exact Or.inr ⟨s', rfl, hclunk⟩
  · exact Or.inl rfl

/-! ## Balanced operations -/

/-- The next `k` fids of the client are free on the server. -/
def FreeFids (k : Nat) (s : Session σ η) : Prop :=
  ∀ i < k, s.transport.fids (s.nextFid + UInt32.ofNat i) = none

theorem FreeFids.first {k : Nat} {s : Session σ η} (h : FreeFids (k + 1) s) :
    s.transport.fids s.nextFid = none := by
  simpa using h 0 (Nat.succ_pos k)

theorem FreeFids.second {k : Nat} {s : Session σ η} (h : FreeFids (k + 2) s) :
    s.transport.fids (s.nextFid + 1) = none := h 1 (by omega)

theorem FreeFids.mono {k k' : Nat} (hk : k' ≤ k) {s : Session σ η} (h : FreeFids k s) : FreeFids k' s :=
  fun i hi => h i (hi.trans_le hk)

/-- Fids that were free stay free while the table stays as it is. -/
theorem FreeFids.later {k k' : Nat} {s s' : Session σ η} (h : FreeFids (k + k') s)
    (hfids : s'.transport.fids = s.transport.fids) {j : Nat} (hj : j ≤ k)
    (hnext : s'.nextFid = s.nextFid + UInt32.ofNat j) : FreeFids k' s' := by
  intro i hi
  rw [hfids, hnext, UInt32.add_assoc, ← UInt32.ofNat_add]
  exact h (j + i) (by omega)

/-- With `k` free fids the operation, if it returns, leaves the table as it was. -/
def Balances (k : Nat) (p : Prog (Session σ η) Error α) : Prop :=
  ∀ s, FreeFids k s → (p s).1.returned = true →
    (p s).2.transport.fids = s.transport.fids ∧ ∃ j ≤ k, (p s).2.nextFid = s.nextFid + UInt32.ofNat j

theorem balances_of_state {p : Prog (Session σ η) Error α} (h : ∀ s, (p s).2 = s) : Balances 0 p := by
  intro s _ _
  rw [h s]
  exact ⟨rfl, 0, le_rfl, by simp⟩

theorem balances_ofExcept (x : Except Error α) : Balances 0 (Prog.ofExcept x : Prog (Session σ η) Error α) :=
  balances_of_state fun _ => by cases x <;> rfl

theorem Balances.mono {k k' : Nat} (hk : k ≤ k') {p : Prog (Session σ η) Error α} (h : Balances k p) :
    Balances k' p := by
  intro s hs hret
  obtain ⟨hfids, j, hj, hnext⟩ := h s (hs.mono hk) hret
  exact ⟨hfids, j, hj.trans hk, hnext⟩

theorem balances_throw (k : Nat) (e : Error) : Balances k (throw e : Prog (Session σ η) Error α) :=
  (balances_of_state fun _ => rfl).mono (Nat.zero_le k)

theorem balances_bind {k k' : Nat} {p : Prog (Session σ η) Error α} {g : α → Prog (Session σ η) Error β}
    (hp : Balances k p) (hg : ∀ x, Balances k' (g x)) : Balances (k + k') (p >>= g) := by
  intro s hs hret
  have hp' := hp s (hs.mono (Nat.le_add_right k k'))
  rw [bind_apply] at hret ⊢
  rcases h : p s with ⟨x | e | _, s₁⟩ <;> rw [h] at hp' hret
  · obtain ⟨hfids, j, hj, hnext⟩ := hp' rfl
    obtain ⟨hfids', j', hj', hnext'⟩ := hg x s₁ (hs.later hfids hj hnext) hret
    refine ⟨hfids'.trans hfids, j + j', by omega, ?_⟩
    rw [hnext', hnext, UInt32.add_assoc, UInt32.ofNat_add]
  · obtain ⟨hfids, j, hj, hnext⟩ := hp' rfl
    exact ⟨hfids, j, by omega, hnext⟩
  · cases hret

theorem balances_ite {c : Prop} [Decidable c] {k : Nat} {p q : Prog (Session σ η) Error α}
    (hp : Balances k p) (hq : Balances k q) : Balances k (if c then p else q) := by
  split
  · exact hp
  · exact hq

/-- An unvalidated walk fails at once or is the walk to a valid path. -/
theorem walkFid_cases (name : String) :
    (∃ e, walkFid (loopbackTransport fs) name = throw e) ∨
    ∃ path, validPath path = true ∧ walkFid (loopbackTransport fs) name = walkFid (loopbackTransport fs) path := by
  cases h : validatedClientPath "walk" name with
  | error e =>
    refine Or.inl ⟨e, ?_⟩
    rw [walkFid, h]
    rfl
  | ok path =>
    have hp := validatedClientPath_valid h
    refine Or.inr ⟨path, hp, ?_⟩
    rw [walkFid, walkFid, h, validatedClientPath_of_valid "walk" hp]

/-- A walk takes the first free fid, or gives it back. -/
theorem walkFid_fids (name : String) {s : Session σ η} (hfree : s.transport.fids s.nextFid = none) :
    (∃ st s', walkFid (loopbackTransport fs) name s = (.ok s.nextFid, s') ∧
      s'.transport.fids = Function.update s.transport.fids s.nextFid (some st) ∧
      s'.nextFid = s.nextFid + 1) ∨
    (∃ e s', walkFid (loopbackTransport fs) name s = (.err e, s') ∧ s'.transport.fids = s.transport.fids ∧
      ∃ j ≤ 1, s'.nextFid = s.nextFid + UInt32.ofNat j) ∨
    (walkFid (loopbackTransport fs) name s).1 = .abort := by
  rcases walkFid_cases fs name with ⟨e, hw⟩ | ⟨path, hp, hw⟩
  · rw [hw]
    exact Or.inr (Or.inl ⟨e, s, rfl, rfl, 0, Nat.zero_le 1, by simp⟩)
  · rw [hw]
    rcases h : walkOutcome fs path s with ⟨_ | e | _, fsys⟩
    · obtain ⟨root, s', -, hok, hnext⟩ := walkFid_of_ok fs hp hfree h
      exact Or.inl ⟨_, s', hok, by rw [hnext.transport]; rfl, hnext.nextFid⟩
    · obtain ⟨e', s', herr, hnext⟩ := walkFid_of_err fs hp hfree h
      exact Or.inr (Or.inl ⟨e', s', herr, by rw [hnext.transport]; rfl, 1, le_rfl, hnext.nextFid⟩)
    · exact Or.inr (Or.inr (walkFid_of_abort fs hp hfree h))

theorem update_of_free {g : UInt32 → Option (FidState η)} (h : g a = none) : Function.update g a none = g := by
  rw [← h, Function.update_eq_self]

theorem update_none_of_free {g : UInt32 → Option (FidState η)} (h : g a = none) (x : Option (FidState η)) :
    Function.update (Function.update g a x) a none = g := by
  rw [Function.update_idem, update_of_free h]

/-- Walk, work on the fid, clunk it. -/
theorem balances_walk_clunk (name : String) {p : UInt32 → Prog (Session σ η) Error α}
    (hp : ∀ a, Owns a (p a)) :
    Balances 1 (walkFid (loopbackTransport fs) name >>= fun fid => thenClunk (loopbackTransport fs) fid (p fid)) := by
  intro s hs hret
  have hfree := hs.first
  rcases walkFid_fids fs name hfree with ⟨st, s', hw, hfids, hnext⟩ | ⟨e, s', hw, hfids, hnext⟩ | hw
  · rw [bind_ok hw] at hret ⊢
    obtain ⟨hclunk, hcount⟩ := thenClunk_fids fs (hp s.nextFid) s' hret
    rw [hclunk, hcount, hfids, update_none_of_free hfree]
    exact ⟨rfl, 1, le_rfl, hnext⟩
  · rw [bind_err hw]
    exact ⟨hfids, hnext⟩
  · rw [bind_fst_abort _ hw] at hret
    cases hret

theorem balances_setAttr (name : String) (attr : SetAttr) :
    Balances 1 (setAttr (loopbackTransport fs) name attr) :=
  balances_walk_clunk fs name fun _ => owns_expect fs _ (List.nil_subset _)

theorem balances_stat (name : String) : Balances 1 (stat (loopbackTransport fs) name) :=
  balances_bind (balances_ofExcept _) fun path => balances_walk_clunk fs path fun _ => owns_getattrFid fs path

theorem balances_mkdir (name : String) (perm : FileMode) : Balances 1 (mkdir (loopbackTransport fs) name perm) :=
  balances_bind (balances_ofExcept _) fun path => balances_ite (balances_throw 1 _)
    (balances_walk_clunk fs (parentPath path) fun _ => owns_expect fs _ (List.nil_subset _))

theorem balances_remove (name : String) : Balances 2 (remove (loopbackTransport fs) name) :=
  balances_bind (balances_ofExcept _) fun path => balances_ite (balances_throw 2 _)
    (balances_bind (balances_stat fs path) fun _ =>
      balances_walk_clunk fs (parentPath path) fun _ => owns_expect fs _ (List.nil_subset _))

theorem balances_symlink (old new : String) : Balances 1 (symlink (loopbackTransport fs) old new) :=
  balances_bind (balances_ofExcept _) fun path =>
    balances_walk_clunk fs (parentPath path) fun _ => owns_expect fs _ (List.nil_subset _)

theorem balances_readlink (name : String) : Balances 1 (readlink (loopbackTransport fs) name) :=
  balances_walk_clunk fs name fun _ => owns_readlinkFid fs

theorem balances_setXattr (name attr : String) (data : Bytes) :
    Balances 1 (setXattr (loopbackTransport fs) name attr data) :=
  balances_bind (balances_ofExcept _) fun path => balances_walk_clunk fs path fun _ => owns_writeXattr fs attr data

/-! ## Reading an attribute -/

theorem owns_xattrwalkCall (fid : UInt32) (attr : String) :
    Owns a (xattrwalkCall (loopbackTransport fs) fid a attr) := by
  refine owns_bind (owns_call fs (List.Subset.refl _)) fun r => ?_
  split
  · exact owns_pure _
  · exact owns_throw _

theorem xattrwalkCall_fst {fid newfid : UInt32} {attr : String} {s s' : Session σ η} {v : UInt32 × UInt64}
    (h : xattrwalkCall (loopbackTransport fs) fid newfid attr s = (.ok v, s')) : v.1 = newfid := by
  rw [xattrwalkCall, bind_eq_ok] at h
  obtain ⟨r, s₁, -, h⟩ := h
  split at h
  · cases h
    rfl
  · cases h

/-- The walked fid is free again; the new one holds the attribute or is free too. -/
theorem xattrwalkOn_fids {b : UInt32} (hab : a ≠ b) (attr : String) (s : Session σ η) :
    (∃ size x s', xattrwalkOn (loopbackTransport fs) a b attr s = (.ok (b, size), s') ∧
      s'.transport.fids = Function.update (Function.update s.transport.fids a none) b x ∧
      s'.nextFid = s.nextFid) ∨
    (∃ e s', xattrwalkOn (loopbackTransport fs) a b attr s = (.err e, s') ∧
      s'.transport.fids = Function.update (Function.update s.transport.fids a none) b none ∧
      s'.nextFid = s.nextFid) ∨
    (xattrwalkOn (loopbackTransport fs) a b attr s).1 = .abort := by
  have howns := owns_xattrwalkCall (a := b) fs a attr
  have hclunk := thenClunk_owned fs a howns s
  rw [xattrwalkOn, bind_apply, attempt]
  rcases h : thenClunk (loopbackTransport fs) a (xattrwalkCall (loopbackTransport fs) a b attr) s with
    ⟨v | e | _, s₁⟩ <;> rw [h] at hclunk
  · obtain ⟨x, hfids, hnext⟩ := hclunk rfl
    refine Or.inl ⟨v.2, x, s₁, ?_, by rw [hfids, Function.update_comm hab.symm], hnext⟩
    have hv : v.1 = b := by
      rw [thenClunk_apply] at h
      rcases hc : xattrwalkCall (loopbackTransport fs) a b attr s with ⟨v' | e | _, s₂⟩ <;> rw [hc] at h
      · have hv' := xattrwalkCall_fst fs hc
        rcases hk : clunkFid (loopbackTransport fs) a s₂ with ⟨_ | e | _, s₃⟩ <;> simp only [hk] at h <;> cases h
        exact hv'
      · rcases hk : clunkFid (loopbackTransport fs) a s₂ with ⟨_ | e | _, s₃⟩ <;> simp only [hk] at h <;> cases h
      · cases h
    rw [← hv]
    rfl
  · obtain ⟨x, hfids, hnext⟩ := hclunk rfl
    rcases clunkAndThrow_fids fs (UInt32 × UInt64) b e s₁ with habort | ⟨s₂, hthrow, hfids', hnext'⟩
    · exact Or.inr (Or.inr habort)
    · refine Or.inr (Or.inl ⟨e, s₂, hthrow, ?_, hnext'.trans hnext⟩)
      rw [hfids', hfids, Function.update_comm hab.symm, Function.update_idem]
  · exact Or.inr (Or.inr rfl)

/-- A second fid is taken for the attribute, and given back if that fails. -/
theorem xattrwalkFid_fids (path attr : String) {s : Session σ η} (hs : FreeFids 2 s) :
    (∃ size x s', xattrwalkFid (loopbackTransport fs) path attr s = (.ok (s.nextFid + 1, size), s') ∧
      s'.transport.fids = Function.update s.transport.fids (s.nextFid + 1) x ∧
      s'.nextFid = s.nextFid + 1 + 1) ∨
    (∃ e s', xattrwalkFid (loopbackTransport fs) path attr s = (.err e, s') ∧
      s'.transport.fids = s.transport.fids ∧ ∃ j ≤ 2, s'.nextFid = s.nextFid + UInt32.ofNat j) ∨
    (xattrwalkFid (loopbackTransport fs) path attr s).1 = .abort := by
  have hfree := hs.first
  have hfree' := hs.second
  rcases walkFid_fids fs path hfree with ⟨st, s₁, hw, hfids, hnext⟩ | ⟨e, s₁, hw, hfids, j, hj, hnext⟩ | hw
  · have halloc : allocFid s₁ = (.ok (s.nextFid + 1), takeFid s₁) := by rw [← hnext]; rfl
    have htable : Function.update (takeFid s₁).transport.fids s.nextFid none = s.transport.fids := by
      rw [show (takeFid s₁).transport = s₁.transport from rfl, hfids, update_none_of_free hfree]
    have hcount : (takeFid s₁).nextFid = s.nextFid + 1 + 1 := by rw [← hnext]; rfl
    rw [xattrwalkFid, bind_ok hw, bind_ok halloc]
    have hne : s.nextFid ≠ s.nextFid + 1 := by simp
    rcases xattrwalkOn_fids fs hne attr (takeFid s₁) with ⟨size, x, s', hok, hfids', hnext'⟩ |
      ⟨e, s', herr, hfids', hnext'⟩ | habort
    · exact Or.inl ⟨size, x, s', hok, by rw [hfids', htable], hnext'.trans hcount⟩
    · refine Or.inr (Or.inl ⟨e, s', herr, ?_, 2, le_rfl, ?_⟩)
      · rw [hfids', htable, update_of_free hfree']
      · rw [hnext', hcount, UInt32.add_assoc]
        rfl
    · exact Or.inr (Or.inr habort)
  · exact Or.inr (Or.inl ⟨e, s₁, bind_err hw, hfids, j, by omega, hnext⟩)
  · exact Or.inr (Or.inr (bind_fst_abort _ hw))

theorem balances_xattr (path attr : String) {p : UInt32 → UInt64 → Prog (Session σ η) Error α}
    (hp : ∀ a size, Owns a (p a size)) :
    Balances 2 (xattrwalkFid (loopbackTransport fs) path attr >>= fun v =>
      thenClunk (loopbackTransport fs) v.1 (p v.1 v.2)) := by
  intro s hs hret
  rcases xattrwalkFid_fids fs path attr hs with ⟨size, x, s', hw, hfids, hnext⟩ | ⟨e, s', hw, hfids, hnext⟩ | hw
  · rw [bind_ok hw] at hret ⊢
    obtain ⟨hclunk, hcount⟩ := thenClunk_fids fs (hp (s.nextFid + 1) size) s' hret
    rw [hclunk, hcount, hfids, update_none_of_free hs.second]
    exact ⟨rfl, 2, le_rfl, by rw [hnext, UInt32.add_assoc]; rfl⟩
  · rw [bind_err hw]
    exact ⟨hfids, hnext⟩
  · rw [bind_fst_abort _ hw] at hret
    cases hret

theorem balances_getXattr (name attr : String) : Balances 2 (getXattr (loopbackTransport fs) name attr) :=
  balances_bind (balances_ofExcept _) fun path => balances_xattr fs path attr fun _ size => owns_readAllFid fs size

theorem owns_readNames (size : UInt64) : Owns a (readNames (loopbackTransport fs) a size) :=
  owns_bind (owns_readAllFid fs size) fun _ => owns_ofExcept _

theorem balances_listXattrs (name : String) : Balances 2 (listXattrs (loopbackTransport fs) name) :=
  balances_bind (balances_ofExcept _) fun path => balances_xattr fs path "" fun _ size => owns_readNames fs size

/-! ## Open files -/

/-- The table is `T` with an entry at `a`. -/
structure AtFid (a : UInt32) (T : UInt32 → Option (FidState η)) (n : UInt32) (s : Session σ η) : Prop where
  others : ∀ f, f ≠ a → s.transport.fids f = T f
  present : (s.transport.fids a).isSome = true
  nextFid : s.nextFid = n

variable {T : UInt32 → Option (FidState η)} {n : UInt32}

theorem AtFid.fids {s : Session σ η} (h : AtFid a T n s) : ∃ st, s.transport.fids = Function.update T a (some st) := by
  obtain ⟨st, hst⟩ := Option.isSome_iff_exists.mp h.present
  refine ⟨st, funext fun f => ?_⟩
  by_cases hf : f = a
  · subst hf
    rw [Function.update_self, hst]
  · rw [Function.update_of_ne hf, h.others f hf]

theorem AtFid.cleared {s : Session σ η} (h : AtFid a T n s) (hT : T a = none) :
    Function.update s.transport.fids a none = T := by
  obtain ⟨st, hst⟩ := h.fids
  rw [hst, update_none_of_free hT]

/-- The fid is in the table of the server. -/
def Present (a : UInt32) (s : ServerState σ η) : Prop := (s.fids a).isSome = true

/-- The fid stays in the table over the run. -/
def KeepsOpen (a : UInt32) (p : Prog (Session σ η) Error α) : Prop :=
  Safe (fun s => Present a s.transport) (fun _ => True) p

theorem safe_atFid {p : Prog (Session σ η) Error α} (hp : Owns a p) (hopen : KeepsOpen a p) :
    Safe (AtFid a T n) (fun _ => True) p := by
  intro s hs
  refine ⟨⟨fun f hf => ?_, (hopen s hs.present).1, ?_⟩, fun _ _ => trivial⟩
  · exact (congrArg Prod.fst (hp f hf s)).trans (hs.others f hf)
  · rw [hp.nextFid, hs.nextFid]

theorem present_of_keeps {p : Prog (ServerState σ η) Error α} (hp : Keeps a p) :
    Safe (Present a) (fun _ => True) p :=
  safe_of_preserves (P := fun o : Option (FidState η) => o.isSome = true) hp

theorem present_onFile (fid : UInt32) (st : FidState η) (file : η) (p : Prog (η × σ) Error α) :
    Safe (Present a) (fun _ => True) (onFile fid st file p) := by
  intro s hs
  by_cases hf : a = fid
  · subst hf
    have hset : Present a (onFile a st file p s).2 := by simp [Present, onFile]
    exact ⟨hset, fun _ _ => trivial⟩
  · exact present_of_keeps (keeps_onFile hf st file p) s hs

theorem present_getattr (fid : UInt32) (mask : UInt64) :
    Safe (Present a) (fun _ => True) (getattr fs fid mask) := by
  have hmeta : ∀ st, Safe (Present a) (fun _ => True) (fidMetadata fs fid st) := by
    intro st
    unfold fidMetadata
    split
    · exact present_onFile fid st _ _
    · exact present_of_keeps (keeps_onFs _)
    · exact safe_pure trivial
    · exact safe_pure trivial
  exact safe_bind (present_of_keeps (keeps_getFid fid)) fun st _ => safe_bind (hmeta st) fun _ _ =>
    safe_bind (present_of_keeps (keeps_onFs _)) fun _ _ => safe_pure trivial

theorem keepsOpen_getattrFid (fid : UInt32) (path : String) :
    KeepsOpen a (getattrFid (loopbackTransport fs) fid path) := by
  refine safe_bind (safe_call fs (show Safe _ _ (handle fs (.getAttr fid attrBasic)) from present_getattr fs fid attrBasic))
    fun r _ => ?_
  split
  · split
    · exact safe_pure trivial
    · exact fun _ hs => ⟨hs, nofun⟩
  · exact safe_throw _

theorem present_lopen {fid flags : UInt32} {r : NinePResponse} {server server' : ServerState σ η}
    (h : handle fs (.lopen fid flags) server = (.ok r, server')) : (server'.fids fid).isSome = true := by
  rw [handle, lopen, bind_eq_ok] at h
  obtain ⟨_, _, -, h⟩ := h
  obtain ⟨_, _, -, h⟩ := bind_eq_ok.mp h
  obtain ⟨_, _, -, h⟩ := bind_eq_ok.mp h
  obtain ⟨_, _, -, h⟩ := bind_eq_ok.mp h
  cases h
  simp

theorem present_lcreate {fid flags mode gid : UInt32} {name : String} {r : NinePResponse}
    {server server' : ServerState σ η}
    (h : handle fs (.lcreate fid name flags mode gid) server = (.ok r, server')) :
    (server'.fids fid).isSome = true := by
  rw [handle, lcreate, bind_eq_ok] at h
  obtain ⟨_, _, -, h⟩ := h
  obtain ⟨_, _, -, h⟩ := bind_eq_ok.mp h
  obtain ⟨_, _, -, h⟩ := bind_eq_ok.mp h
  obtain ⟨_, _, -, h⟩ := bind_eq_ok.mp h
  obtain ⟨_, _, -, h⟩ := bind_eq_ok.mp h
  cases h
  simp

/-- Dropping an open handle frees its fid. -/
theorem drop_fids {file : NinePFile} (hc : file.closed = false) (s : Session σ η) :
    (file.drop (loopbackTransport fs) s).2.transport.fids = Function.update s.transport.fids file.fid none ∧
      (file.drop (loopbackTransport fs) s).2.nextFid = s.nextFid := by
  have hclunk := clunkFid_fids fs file.fid s
  rw [NinePFile.drop, hc, if_neg Bool.false_ne_true, bind_apply, attempt]
  rcases h : clunkFid (loopbackTransport fs) file.fid s with ⟨_ | e | _, s'⟩ <;> rw [h] at hclunk <;> exact hclunk

/-- So does closing it, also when the close returns an error. -/
theorem close_fids {file : NinePFile} (hc : file.closed = false) (s : Session σ η) :
    (NinePFile.close (loopbackTransport fs) (file, s)).2.2.transport.fids =
        Function.update s.transport.fids file.fid none ∧
      (NinePFile.close (loopbackTransport fs) (file, s)).2.2.nextFid = s.nextFid ∧
      (NinePFile.close (loopbackTransport fs) (file, s)).2.1.fid = file.fid := by
  have hclunk := clunkFid_fids fs file.fid s
  have hrun : NinePFile.close (loopbackTransport fs) (file, s) =
      (NinePFile.onClient (clunkFid (loopbackTransport fs) file.fid) >>= fun _ =>
        NinePFile.update fun f => { f with closed := true }) (file, s) := by
    rw [NinePFile.close, NinePFile.ensureOpen]
    simp only [bind_apply, NinePFile.file, reads_apply, hc, Bool.false_eq_true, if_false, pure_apply]
  rw [hrun, bind_apply, NinePFile.onClient, zoom_apply]
  rcases h : clunkFid (loopbackTransport fs) file.fid s with ⟨_ | e | _, s'⟩ <;> rw [h] at hclunk <;>
    exact ⟨hclunk.1, hclunk.2, rfl⟩

/-- An open handle on `a` in a session where `a` is in the table. -/
def HandleAt (a : UInt32) (T : UInt32 → Option (FidState η)) (n : UInt32)
    (fs : NinePFile × Session σ η) : Prop :=
  fs.1.fid = a ∧ fs.1.closed = false ∧ AtFid a T n fs.2

theorem safe_onClient {p : Prog (Session σ η) Error α} (hp : Safe (AtFid a T n) (fun _ => True) p) :
    Safe (HandleAt a T n) (fun _ => True) (NinePFile.onClient p) :=
  fun _ hs => ⟨⟨hs.1, hs.2.1, (hp _ hs.2.2).1⟩, fun _ _ => trivial⟩

theorem safe_file : Safe (HandleAt a T n) (fun f => f.fid = a)
    (NinePFile.file : Prog (NinePFile × Session σ η) Error NinePFile) :=
  fun _ hs => ⟨hs, fun _ hf => by cases hf; exact hs.1⟩

theorem safe_update {g : NinePFile → NinePFile} (hfid : ∀ f, (g f).fid = f.fid)
    (hclosed : ∀ f, (g f).closed = f.closed) : Safe (HandleAt a T n) (fun _ => True)
      (NinePFile.update g : Prog (NinePFile × Session σ η) Error Unit) :=
  safe_modify fun fs hs => ⟨(hfid fs.1).trans hs.1, (hclosed fs.1).trans hs.2.1, hs.2.2⟩

theorem safe_ensureOpen : Safe (HandleAt a T n) (fun _ => True)
    (NinePFile.ensureOpen : Prog (NinePFile × Session σ η) Error Unit) :=
  safe_bind safe_file fun _ _ => safe_ite (fun _ => safe_throw _) fun _ => safe_pure trivial

theorem safe_fileStat : Safe (HandleAt a T n) (fun _ => True) (NinePFile.stat (loopbackTransport fs)) := by
  refine safe_bind safe_ensureOpen fun _ _ => safe_bind safe_file fun f hf => safe_onClient ?_
  rw [hf]
  exact safe_atFid (owns_getattrFid fs _) (keepsOpen_getattrFid fs _ _)

theorem safe_seek (pos : SeekFrom) :
    Safe (HandleAt a T n) (fun _ => True) (NinePFile.seek (loopbackTransport fs) pos) := by
  have htarget : Safe (HandleAt a T n) (fun _ => True) (NinePFile.seekTarget (loopbackTransport fs) pos) := by
    cases pos with
    | start pos => exact safe_pure trivial
    | current delta => exact safe_bind safe_file fun _ _ => safe_pure trivial
    | fromEnd delta => exact safe_bind (safe_fileStat fs) fun _ _ => safe_pure trivial
  exact safe_bind safe_ensureOpen fun _ _ => safe_bind htarget fun _ _ => safe_ite (fun _ => safe_throw _)
    fun _ => safe_bind (safe_update (fun _ => rfl) fun _ => rfl) fun _ _ => safe_pure trivial

theorem spares_readDirLoop (fid : UInt32) (count : UInt32) (rounds : Nat) (offset : UInt64)
    (entries : List DirEntry) :
    Spares f (NinePFile.readDirLoop (loopbackTransport fs) fid count rounds offset entries) := by
  induction rounds generalizing offset entries with
  | zero => exact preserves_abort
  | succ rounds ih =>
    refine preserves_bind (preserves_bind (spares_call fs (List.not_mem_nil)) fun r => ?_) fun data => ?_
    · split
      · exact preserves_pure _
      · exact preserves_throw _
    · refine preserves_ite (preserves_pure _) (preserves_bind (preserves_ofExcept _) fun dirents => ?_)
      split
      · exact preserves_pure _
      · exact ih _ _

theorem safe_fileReadDir (rounds : Nat) (count : Int) :
    Safe (HandleAt a T n) (fun _ => True) (NinePFile.readDir (loopbackTransport fs) rounds count) := by
  have hloop : ∀ fid c, Safe (HandleAt a T n) (fun _ => True)
      (NinePFile.onClient (NinePFile.readDirLoop (loopbackTransport fs) fid c rounds 0 [])) := fun fid c =>
    safe_onClient (safe_atFid (fun f _ => spares_readDirLoop fs fid c rounds 0 [])
      (safe_of_preserves (P := fun o : Option (FidState η) × UInt32 => o.1.isSome = true)
        (spares_readDirLoop fs fid c rounds 0 [])))
  have hentries : Safe (HandleAt a T n) (fun _ => True)
      (NinePFile.cachedEntries (loopbackTransport fs) rounds) := by
    refine safe_bind safe_file fun f _ => ?_
    split
    · exact safe_pure trivial
    · exact safe_bind (safe_onClient fun _ hs => ⟨hs, fun _ _ => trivial⟩) fun _ _ =>
        safe_bind (hloop _ _) fun _ _ => safe_bind (safe_update (fun _ => rfl) fun _ => rfl) fun _ _ =>
          safe_pure trivial
  refine safe_bind safe_ensureOpen fun _ _ => safe_bind hentries fun _ _ => safe_bind safe_file fun _ _ => ?_
  exact safe_ite (fun _ => safe_bind (safe_update (fun _ => rfl) fun _ => rfl) fun _ _ => safe_pure trivial)
    fun _ => safe_ite (fun _ => safe_pure trivial) fun _ =>
      safe_bind (safe_update (fun _ => rfl) fun _ => rfl) fun _ _ => safe_pure trivial

/-! ## Operations that return a handle -/

/-- Either a handle on `a` is open beside the table `T`, or the table is `T`. The
fid counter has moved by at most `k`. -/
def OpenResult (a : UInt32) (T : UInt32 → Option (FidState η)) (n : UInt32) (k : Nat) :
    Outcome Error NinePFile × Session σ η → Prop
  | (.ok f, s) => ∃ j ≤ k, HandleAt a T (n + UInt32.ofNat j) (f, s)
  | (.err _, s) => s.transport.fids = T ∧ ∃ j ≤ k, s.nextFid = n + UInt32.ofNat j
  | (.abort, _) => True

theorem openResult_of_abort {k : Nat} {x : Outcome Error NinePFile × Session σ η} (h : x.1 = .abort) :
    OpenResult a T n k x := by
  obtain ⟨o, s⟩ := x
  cases h
  trivial

/-- A step of an open that fails drops the handle. -/
theorem orDrop_result {k : Nat} {file : NinePFile} (hT : T a = none) {p : Prog (Session σ η) Error α}
    {g : α → Prog (Session σ η) Error NinePFile} {s : Session σ η}
    (hok : ∀ x s', p s = (.ok x, s') → OpenResult a T n k (g x s'))
    (herr : ∀ e s', p s = (.err e, s') → ∃ j ≤ k, HandleAt a T (n + UInt32.ofNat j) (file, s')) :
    OpenResult a T n k ((orDrop (loopbackTransport fs) file p >>= g) s) := by
  rw [bind_apply, orDrop, bind_apply, attempt]
  rcases h : p s with ⟨x | e | _, s₁⟩
  · exact hok x s₁ h
  · obtain ⟨j, hj, hs⟩ := herr e s₁ h
    obtain ⟨hfids, hnext⟩ := drop_fids fs hs.2.1 s₁
    have htable : (file.drop (loopbackTransport fs) s₁).2.transport.fids = T := by
      rw [hfids, hs.1, hs.2.2.cleared hT]
    have hcount := hnext.trans hs.2.2.nextFid
    simp only [bind_apply]
    rcases h : file.drop (loopbackTransport fs) s₁ with ⟨_ | e' | _, s'⟩ <;> rw [h] at htable hcount
    · exact ⟨htable, j, hj, hcount⟩
    · exact ⟨htable, j, hj, hcount⟩
    · trivial
  · trivial

theorem openFid_result {accepts : NinePResponse → Bool} {request : NinePRequest} (path : String)
    (htouch : touched request ⊆ [a])
    (hpresent : ∀ server r server', handle fs request server = (.ok r, server') → Present a server')
    {s : Session σ η} (hT : T a = none) {j k : Nat} (hj : j ≤ k) (hs : AtFid a T (n + UInt32.ofNat j) s) :
    OpenResult a T n k (openFid (loopbackTransport fs) accepts request a path s) := by
  have howns := owns_expect fs accepts htouch
  rw [openFid, bind_apply, attempt]
  rcases h : expect (loopbackTransport fs) accepts request s with ⟨_ | e | _, s₁⟩
  · have hs₁ : (expect (loopbackTransport fs) accepts request s).2 = s₁ := by rw [h]
    refine ⟨j, hj, rfl, rfl, fun f hf => ?_, ?_, ?_⟩
    · rw [← hs₁]
      exact (congrArg Prod.fst (howns f hf s)).trans (hs.others f hf)
    · rw [expect, bind_eq_ok] at h
      obtain ⟨r, s₂, hcall, h⟩ := h
      have hstate : s₁ = s₂ := by
        rw [branch_apply] at h
        split at h <;> cases h
        rfl
      rcases call_cases fs request s with ⟨-, e, he⟩ | ⟨htransport, hvalue⟩
      · rw [hcall] at he
        cases he
      · rw [hcall] at htransport hvalue
        rw [hstate, htransport]
        exact hpresent _ r _ (Prod.ext (hvalue r rfl) rfl)
    · rw [← hs₁, howns.nextFid, hs.nextFid]
  · have hs₁ : (expect (loopbackTransport fs) accepts request s).2 = s₁ := by rw [h]
    have htable : Function.update s₁.transport.fids a none = T := by
      rw [← hs₁, howns.fids s, Function.update_idem]
      exact hs.cleared hT
    have hcount : s₁.nextFid = n + UInt32.ofNat j := by rw [← hs₁, howns.nextFid, hs.nextFid]
    rcases clunkAndThrow_fids fs NinePFile a e s₁ with habort | ⟨s₂, hthrow, hfids, hnext⟩
    · exact openResult_of_abort habort
    · simp only [hthrow]
      exact ⟨hfids.trans htable, j, hj, hnext.trans hcount⟩
  · trivial

theorem appending_result (flags : OpenFlags) {file : NinePFile} {s : Session σ η} (hT : T a = none) {j k : Nat}
    (hj : j ≤ k) (hs : HandleAt a T (n + UInt32.ofNat j) (file, s)) :
    OpenResult a T n k (appending (loopbackTransport fs) flags file s) := by
  unfold appending
  split
  · have hseek := (safe_seek fs (.fromEnd 0) (file, s) hs).1
    rw [bind_apply, withFile]
    rcases h : NinePFile.seek (loopbackTransport fs) (.fromEnd 0) (file, s) with ⟨pos | e | _, file', s'⟩ <;>
      rw [h] at hseek
    · exact ⟨j, hj, hseek⟩
    · refine orDrop_result fs hT (fun x s₁ hx => ?_) fun e' s₁ hx => ?_
      · cases hx
      · cases hx
        exact ⟨j, hj, hseek⟩
    · trivial
  · exact ⟨j, hj, hs⟩

theorem OpenResult.mono {k k' : Nat} (hk : k ≤ k') {x : Outcome Error NinePFile × Session σ η}
    (h : OpenResult a T n k x) : OpenResult a T n k' x := by
  obtain ⟨_ | _ | _, s⟩ := x
  · obtain ⟨j, hj, hs⟩ := h
    exact ⟨j, hj.trans hk, hs⟩
  · obtain ⟨hfids, j, hj, hnext⟩ := h
    exact ⟨hfids, j, hj.trans hk, hnext⟩
  · trivial

theorem OpenResult.shift {j k : Nat} {x : Outcome Error NinePFile × Session σ η}
    (h : OpenResult a T (n + UInt32.ofNat j) k x) : OpenResult a T n (j + k) x := by
  have hadd : ∀ i, n + UInt32.ofNat j + UInt32.ofNat i = n + UInt32.ofNat (j + i) := fun i => by
    rw [UInt32.add_assoc, UInt32.ofNat_add]
  obtain ⟨_ | _ | _, s⟩ := x
  · obtain ⟨i, hi, hs⟩ := h
    exact ⟨j + i, by omega, hadd i ▸ hs⟩
  · obtain ⟨hfids, i, hi, hnext⟩ := h
    exact ⟨hfids, j + i, by omega, hadd i ▸ hnext⟩
  · trivial

/-- An open that gets past its walk works on the first free fid. -/
theorem openExisting_cases (name : String) (flags : UInt32) {s : Session σ η} (hs : FreeFids 1 s) :
    (∃ e s', openExisting (loopbackTransport fs) name flags s = (.err e, s') ∧
      s'.transport.fids = s.transport.fids ∧ ∃ j ≤ 1, s'.nextFid = s.nextFid + UInt32.ofNat j) ∨
    OpenResult s.nextFid s.transport.fids (s.nextFid + UInt32.ofNat 1) 0
      (openExisting (loopbackTransport fs) name flags s) := by
  have hfree := hs.first
  rw [openExisting]
  cases validatedClientPath "open" name with
  | error e => exact Or.inl ⟨e, s, rfl, rfl, 0, Nat.zero_le 1, by simp⟩
  | ok path =>
    rw [ofExcept_ok, bind_ok (pure_apply _ _)]
    rcases walkFid_fids fs path hfree with ⟨st, s₁, hw, hfids, hnext⟩ | ⟨e, s₁, hw, hfids, hnext⟩ | hw
    · have hat : AtFid s.nextFid s.transport.fids (s.nextFid + UInt32.ofNat 1 + UInt32.ofNat 0) s₁ :=
        ⟨fun f hf => by rw [hfids, Function.update_of_ne hf], by rw [hfids, Function.update_self]; rfl,
          by rw [hnext]; simp⟩
      rw [bind_ok hw]
      exact Or.inr (openFid_result fs path (List.Subset.refl _) (fun _ _ _ h => present_lopen fs h) hfree le_rfl hat)
    · exact Or.inl ⟨e, s₁, bind_err hw, hfids, hnext⟩
    · exact Or.inr (openResult_of_abort (bind_fst_abort _ hw))

theorem openExisting_result (name : String) (flags : UInt32) {s : Session σ η} (hs : FreeFids 1 s) :
    OpenResult s.nextFid s.transport.fids s.nextFid 1 (openExisting (loopbackTransport fs) name flags s) := by
  rcases openExisting_cases fs name flags hs with ⟨e, s', h, hfids, hnext⟩ | h
  · rw [h]
    exact ⟨hfids, hnext⟩
  · exact h.shift

/-- With `k` free fids the operation opens one of them or leaves the table as it was. -/
def Opens (k : Nat) (p : Prog (Session σ η) Error NinePFile) : Prop :=
  ∀ s, FreeFids k s → ∃ i < k,
    OpenResult (s.nextFid + UInt32.ofNat i) s.transport.fids s.nextFid k (p s)

theorem opens_open (name : String) : Opens 2 (open_ (loopbackTransport fs) name) := by
  intro s hs
  have hfirst := openExisting_result fs name OpenFlags.rdwr.bits (hs.mono (by omega : 1 ≤ 2))
  rw [open_, bind_apply, attempt]
  rcases h : openExisting (loopbackTransport fs) name OpenFlags.rdwr.bits s with ⟨f | e | _, s₁⟩ <;> rw [h] at hfirst
  · refine ⟨0, by omega, ?_⟩
    simpa using hfirst.mono (by omega : 1 ≤ 2)
  · obtain ⟨hfids, j, hj, hnext⟩ := hfirst
    have hsecond := openExisting_result fs name OpenFlags.rdonly.bits
      (FreeFids.later (k := 1) hs hfids hj hnext)
    rw [hfids, hnext] at hsecond
    exact ⟨j, by omega, hsecond.shift.mono (by omega)⟩
  · exact ⟨0, by omega, trivial⟩

theorem openResult_bind {k : Nat} {p : Prog (Session σ η) Error NinePFile}
    {g : NinePFile → Prog (Session σ η) Error NinePFile} {s : Session σ η} (hp : OpenResult a T n k (p s))
    (hg : ∀ f s' j, j ≤ k → HandleAt a T (n + UInt32.ofNat j) (f, s') → OpenResult a T n k (g f s')) :
    OpenResult a T n k ((p >>= g) s) := by
  rw [bind_apply]
  rcases h : p s with ⟨f | e | _, s'⟩ <;> rw [h] at hp
  · obtain ⟨j, hj, hs⟩ := hp
    exact hg f s' j hj hs
  · exact hp
  · trivial

theorem create_result {path : String} (flags : OpenFlags) (perm : FileMode) {s : Session σ η}
    (hs : FreeFids 1 s) : OpenResult s.nextFid s.transport.fids s.nextFid 1 ((do
      let fid ← walkFid (loopbackTransport fs) (parentPath path)
      let f ← openFid (loopbackTransport fs) isLcreate (.lcreate fid (baseName path) flags.bits perm.perm 0) fid path
      appending (loopbackTransport fs) flags f) s) := by
  have hfree := hs.first
  rcases walkFid_fids fs (parentPath path) hfree with ⟨st, s₁, hw, hfids, hnext⟩ | ⟨e, s₁, hw, hfids, hnext⟩ | hw
  · have hat : AtFid s.nextFid s.transport.fids (s.nextFid + UInt32.ofNat 1) s₁ :=
      ⟨fun f hf => by rw [hfids, Function.update_of_ne hf], by rw [hfids, Function.update_self]; rfl, hnext⟩
    rw [bind_ok hw]
    refine openResult_bind ?_ fun f s' j hj hf => appending_result fs flags hfree hj hf
    exact openFid_result fs path (List.Subset.refl _) (fun _ _ _ h => present_lcreate fs h) hfree le_rfl hat
  · rw [bind_err hw]
    exact ⟨hfids, hnext⟩
  · exact openResult_of_abort (bind_fst_abort _ hw)

/-- The open file keeps its fid while the size is set through a second one. -/
theorem truncating_result (flags : OpenFlags) (path : String) {file : NinePFile} {s : Session σ η}
    (hT : T a = none) {j : Nat} (hj : j ≤ 1) (hs : HandleAt a T (n + UInt32.ofNat j) (file, s))
    (hnext : n + UInt32.ofNat j ≠ a) (hfree : T (n + UInt32.ofNat j) = none) :
    OpenResult a T n 2 ((truncating (loopbackTransport fs) flags path file >>= fun _ =>
      appending (loopbackTransport fs) flags file) s) := by
  have hfree₁ : FreeFids 1 s := by
    intro i hi
    rw [show i = 0 by omega, hs.2.2.nextFid, show UInt32.ofNat 0 = 0 from rfl, UInt32.add_zero,
      hs.2.2.others _ hnext, hfree]
  have hset := balances_setAttr fs path { valid := setattrSize, size := 0 } s hfree₁
  have hafter : ∀ s', (setAttr (loopbackTransport fs) path { valid := setattrSize, size := 0 } s).1.returned = true →
      (setAttr (loopbackTransport fs) path { valid := setattrSize, size := 0 } s).2 = s' →
      ∃ i ≤ 2, HandleAt a T (n + UInt32.ofNat i) (file, s') := by
    rintro s' hret rfl
    obtain ⟨hfids, i, hi, hcount⟩ := hset hret
    refine ⟨j + i, by omega, hs.1, hs.2.1, fun f hf => ?_, ?_, ?_⟩
    · rw [hfids, hs.2.2.others f hf]
    · rw [hfids]
      exact hs.2.2.present
    · rw [hcount, hs.2.2.nextFid, UInt32.add_assoc, UInt32.ofNat_add]
  unfold truncating
  split
  · refine orDrop_result fs hT (fun x s' hx => ?_) fun e s' hx => ?_
    · obtain ⟨i, hi, hs'⟩ := hafter s' (by rw [hx]; rfl) (by rw [hx])
      exact appending_result fs flags hT hi hs'
    · exact hafter s' (by rw [hx]; rfl) (by rw [hx])
  · exact appending_result fs flags hT (by omega) hs

theorem opens_openFile (name : String) (flags : OpenFlags) (perm : FileMode) :
    Opens 2 (openFile (loopbackTransport fs) name flags perm) := by
  intro s hs
  refine ⟨0, by omega, ?_⟩
  rw [show s.nextFid + UInt32.ofNat 0 = s.nextFid by simp, openFile]
  cases validatedClientPath "open" name with
  | error e => exact ⟨rfl, 0, by omega, by simp⟩
  | ok path =>
    rw [ofExcept_ok, bind_ok (pure_apply _ _), branch_apply]
    split
    · exact ⟨rfl, 0, by omega, by simp⟩
    rw [branch_apply]
    split
    · exact (create_result fs flags perm (hs.mono (by omega))).mono (by omega)
    · rcases openExisting_cases fs path flags.bits (hs.mono (by omega : 1 ≤ 2)) with
        ⟨e, s₁, h, hfids, j, hj, hnext⟩ | h
      · rw [bind_err h]
        exact ⟨hfids, j, by omega, hnext⟩
      · rw [bind_apply]
        rcases hx : openExisting (loopbackTransport fs) path flags.bits s with ⟨f | e | _, s₁⟩ <;> rw [hx] at h
        · obtain ⟨j, hj, hat⟩ := h
          rw [Nat.le_zero.mp hj, show UInt32.ofNat 0 = 0 from rfl, UInt32.add_zero] at hat
          exact truncating_result fs flags path hs.first le_rfl hat (by simp) hs.second
        · obtain ⟨hfids, j, hj, hnext⟩ := h
          rw [Nat.le_zero.mp hj, show UInt32.ofNat 0 = 0 from rfl, UInt32.add_zero] at hnext
          exact ⟨hfids, 1, by omega, hnext⟩
        · trivial

/-- A drop after the close finds the fid free and leaves the table alone. -/
theorem drop_of_free {file : NinePFile} {s : Session σ η} (hfree : s.transport.fids file.fid = none) :
    (file.drop (loopbackTransport fs) s).2.transport.fids = s.transport.fids ∧
      (file.drop (loopbackTransport fs) s).2.nextFid = s.nextFid := by
  cases hc : file.closed with
  | true =>
    rw [NinePFile.drop, hc]
    exact ⟨rfl, rfl⟩
  | false =>
    obtain ⟨hfids, hnext⟩ := drop_fids fs hc s
    rw [hfids, update_of_free hfree]
    exact ⟨rfl, hnext⟩

theorem closing_fids {file : NinePFile} (r : Except Error α) {s : Session σ η} (hT : T a = none)
    (hs : HandleAt a T n (file, s)) (hret : (closing (loopbackTransport fs) file r s).1.returned = true) :
    (closing (loopbackTransport fs) file r s).2.transport.fids = T ∧
      (closing (loopbackTransport fs) file r s).2.nextFid = n := by
  obtain ⟨hfids, hnext, hfid⟩ := close_fids fs hs.2.1 s
  rw [hs.1, hs.2.2.cleared hT] at hfids
  rw [hs.2.2.nextFid] at hnext
  have hfree : (NinePFile.close (loopbackTransport fs) (file, s)).2.2.transport.fids
      (NinePFile.close (loopbackTransport fs) (file, s)).2.1.fid = none := by rw [hfids, hfid, hs.1, hT]
  obtain ⟨hdrop, hdropNext⟩ := drop_of_free fs hfree
  -- After the drop only the two results are looked at.
  have htail : ∀ (f : NinePFile) (s' : Session σ η) (c : Except Error Unit),
      ((f.drop (loopbackTransport fs) >>= fun _ => Prog.ofExcept r >>= fun x => Prog.ofExcept c >>= fun _ =>
        (pure x : Prog (Session σ η) Error α)) s').2 = (f.drop (loopbackTransport fs) s').2 := by
    intro f s' c
    rw [bind_apply]
    rcases f.drop (loopbackTransport fs) s' with ⟨_ | e | _, s₁⟩
    · cases r <;> cases c <;> rfl
    · rfl
    · rfl
  rw [closing, bind_apply, withFile] at hret ⊢
  rcases h : NinePFile.close (loopbackTransport fs) (file, s) with ⟨_ | e | _, f, s'⟩ <;>
    rw [h] at hfids hnext hdrop hdropNext hret
  · simp only [htail]
    exact ⟨hdrop.trans hfids, hdropNext.trans hnext⟩
  · simp only [htail]
    exact ⟨hdrop.trans hfids, hdropNext.trans hnext⟩
  · cases hret

/-- The entries are read through a handle that is closed again. -/
theorem balances_readDir (rounds : Nat) (name : String) :
    Balances 1 (readDir (loopbackTransport fs) rounds name) := by
  intro s hs hret
  have hopen := openExisting_result fs name OpenFlags.rdonly.bits hs
  rw [readDir] at hret ⊢
  rcases h : openExisting (loopbackTransport fs) name OpenFlags.rdonly.bits s with ⟨f | e | _, s₁⟩ <;>
    rw [h] at hopen
  · obtain ⟨j, hj, hat⟩ := hopen
    have hlist := (safe_fileReadDir fs rounds (-1) (f, s₁) hat).1
    rw [bind_ok h] at hret ⊢
    rcases hr : NinePFile.readDir (loopbackTransport fs) rounds (-1) (f, s₁) with ⟨entries | e | _, f', s₂⟩ <;>
      rw [hr] at hlist
    · have hfile : withFile f (NinePFile.readDir (loopbackTransport fs) rounds (-1)) s₁ =
          (.ok (.ok entries, f'), s₂) := by rw [withFile, hr]
      rw [bind_ok hfile] at hret ⊢
      obtain ⟨hfids, hnext⟩ := closing_fids fs (.ok entries) hs.first hlist hret
      exact ⟨hfids, j, hj, hnext⟩
    · have hfile : withFile f (NinePFile.readDir (loopbackTransport fs) rounds (-1)) s₁ =
          (.ok (.error e, f'), s₂) := by rw [withFile, hr]
      rw [bind_ok hfile] at hret ⊢
      obtain ⟨hfids, hnext⟩ := closing_fids fs (.error e) hs.first hlist hret
      exact ⟨hfids, j, hj, hnext⟩
    · have hfile : withFile f (NinePFile.readDir (loopbackTransport fs) rounds (-1)) s₁ = (.abort, s₂) := by
        rw [withFile, hr]
      rw [bind_abort hfile] at hret
      cases hret
  · rw [bind_err h]
    exact hopen
  · rw [bind_abort h] at hret
    cases hret

/-! ## Operations that walk twice -/

/-- The first walk arrives, and the second one fails where the first has left
the backing file system. -/
def SecondWalkFails (first second : String) (s : Session σ η) : Prop :=
  ∃ fsys e, walkOutcome fs first s = (.ok (), fsys) ∧
    (walkOutcome fs second (s.withServer (s.transport.setFsys fsys))).1 = .err e

theorem walkOutcome_congr {s s' : Session σ η} (path : String)
    (hroot : s'.transport.fids rootFid = s.transport.fids rootFid)
    (hfsys : s'.transport.fsys = s.transport.fsys) : walkOutcome fs path s' = walkOutcome fs path s := by
  unfold walkOutcome
  rw [hroot, hfsys]

theorem thenClunk_twice_fids {b : UInt32} {p : Prog (Session σ η) Error Unit} (hp : ∀ f, Spares f p)
    (s : Session σ η)
    (hret : (thenClunk (loopbackTransport fs) b (thenClunk (loopbackTransport fs) a p) s).1.returned = true) :
    (thenClunk (loopbackTransport fs) b (thenClunk (loopbackTransport fs) a p) s).2.transport.fids =
      Function.update (Function.update s.transport.fids a none) b none := by
  obtain ⟨hinner, hstate⟩ := thenClunk_state hret
  rw [hstate, (clunkFid_fids fs b _).1, (thenClunk_fids fs (fun f _ => hp f) s hinner).1]

/-- Such an operation keeps the table exactly when it does not fail in between. -/
theorem twoWalks_balanced_iff {first second : String} (hfirst : validPath first = true)
    (hsecond : validPath second = true) {p : UInt32 → UInt32 → Prog (Session σ η) Error Unit}
    (hp : ∀ a b f, Spares f (p a b)) {s : Session σ η} (hs : FreeFids 2 s) :
    let q := do
      let a ← walkFid (loopbackTransport fs) first
      let b ← walkFid (loopbackTransport fs) second
      thenClunk (loopbackTransport fs) b (thenClunk (loopbackTransport fs) a (p a b))
    ((q s).1.returned = true → (q s).2.transport.fids = s.transport.fids) ↔
      ¬ SecondWalkFails fs first second s := by
  intro q
  have hfree := hs.first
  have hne : s.nextFid + 1 ≠ s.nextFid := by simp
  rcases h₁ : walkOutcome fs first s with ⟨_ | e | _, fsys⟩
  · obtain ⟨root, s₁, hroot, hw₁, hnext₁⟩ := walkFid_of_ok fs hfirst hfree h₁
    have hrootne : rootFid ≠ s.nextFid := by
      intro heq
      rw [heq, hfree] at hroot
      cases hroot
    have hfree₁ : s₁.transport.fids s₁.nextFid = none := by
      rw [hnext₁.transport, hnext₁.nextFid, ServerState.setFid_fids, Function.update_of_ne hne]
      exact hs.second
    have hcongr : walkOutcome fs second s₁ = walkOutcome fs second (s.withServer (s.transport.setFsys fsys)) := by
      refine walkOutcome_congr fs second ?_ ?_
      · rw [hnext₁.transport, ServerState.setFid_fids, Function.update_of_ne hrootne]
        rfl
      · rw [hnext₁.transport]
        rfl
    have hfails : SecondWalkFails fs first second s ↔ ∃ e, (walkOutcome fs second s₁).1 = .err e := by
      rw [hcongr]
      constructor
      · rintro ⟨fsys', e, hok, herr⟩
        rw [h₁] at hok
        cases hok
        exact ⟨e, herr⟩
      · rintro ⟨e, herr⟩
        exact ⟨fsys, e, h₁, herr⟩
    have hq : q s = _ := bind_ok hw₁
    rw [hfails, hq]
    rcases h₂ : walkOutcome fs second s₁ with ⟨_ | e | _, fsys₂⟩
    · obtain ⟨_, s₂, -, hw₂, hnext₂⟩ := walkFid_of_ok fs hsecond hfree₁ h₂
      rw [bind_ok hw₂]
      refine iff_of_true (fun hret => ?_) nofun
      rw [thenClunk_twice_fids fs (hp _ _) s₂ hret, hnext₂.transport, ServerState.setFid_fids,
        ServerState.setFsys_fids, hnext₁.nextFid, Function.update_comm hne, Function.update_idem,
        hnext₁.transport, ServerState.setFid_fids, Function.update_idem, ServerState.setFsys_fids,
        update_of_free hfree, update_of_free hs.second]
    · obtain ⟨e', s₂, hw₂, hnext₂⟩ := walkFid_of_err fs hsecond hfree₁ h₂
      rw [bind_err hw₂]
      refine iff_of_false (fun hkeep => ?_) (fun hno => hno ⟨e, rfl⟩)
      have hentry := congrFun (hkeep rfl) s.nextFid
      rw [hnext₂.transport, ServerState.setFsys_fids, hnext₁.transport, ServerState.setFid_fids,
        Function.update_self, hfree] at hentry
      cases hentry
    · have hab := walkFid_of_abort fs hsecond hfree₁ h₂
      rw [bind_fst_abort _ hab]
      exact iff_of_true nofun nofun
  · obtain ⟨e', s₁, hw₁, hnext₁⟩ := walkFid_of_err fs hfirst hfree h₁
    have hq : q s = _ := bind_err hw₁
    rw [hq]
    refine iff_of_true (fun _ => by rw [hnext₁.transport]; rfl) ?_
    rintro ⟨fsys', e, hok, -⟩
    rw [h₁] at hok
    cases hok
  · have hab := walkFid_of_abort fs hfirst hfree h₁
    have hq : (q s).1 = .abort := bind_fst_abort _ hab
    rw [hq]
    refine iff_of_true nofun ?_
    rintro ⟨fsys', e, hok, -⟩
    rw [h₁] at hok
    cases hok

/-! ## Every operation -/

/-- The operations of the client; those that open a file return its handle. -/
inductive Op where
  | stat (ctx : FsContext) (name : String)
  | lstat (ctx : FsContext) (name : String)
  | readDir (ctx : FsContext) (name : String)
  | mkdir (name : String) (perm : FileMode)
  | remove (name : String)
  | rename (old new : String)
  | link (old new : String)
  | chmod (name : String) (mode : FileMode)
  | chown (name : String) (uid gid : UInt32)
  | chtimes (name : String) (mtime : SystemTime)
  | truncate (name : String) (size : UInt64)
  | symlink (old new : String)
  | readlink (name : String)
  | setXattr (name attr : String) (data : Bytes)
  | getXattr (name attr : String)
  | listXattrs (name : String)
  | open_ (ctx : FsContext) (name : String)
  | openFile (name : String) (flags : OpenFlags) (perm : FileMode)
  | create (name : String)

def noHandle (p : Prog (Session σ η) Error α) : Prog (Session σ η) Error (Option NinePFile) := do
  let _ ← p
  pure none

def someHandle (p : Prog (Session σ η) Error NinePFile) : Prog (Session σ η) Error (Option NinePFile) := do
  let f ← p
  pure (some f)

def Op.perform (rounds : Nat) : Op → Prog (Session σ η) Error (Option NinePFile)
  | .stat ctx name => noHandle ((clientFs (loopbackTransport fs) rounds).stat ctx name)
  | .lstat ctx name => noHandle ((clientFs (loopbackTransport fs) rounds).lstat ctx name)
  | .readDir ctx name => noHandle ((clientFs (loopbackTransport fs) rounds).readDir ctx name)
  | .mkdir name perm => noHandle ((clientFs (loopbackTransport fs) rounds).mkdir name perm)
  | .remove name => noHandle ((clientFs (loopbackTransport fs) rounds).remove name)
  | .rename old new => noHandle ((clientFs (loopbackTransport fs) rounds).rename old new)
  | .link old new => noHandle ((clientFs (loopbackTransport fs) rounds).link old new)
  | .chmod name mode => noHandle ((clientFs (loopbackTransport fs) rounds).chmod name mode)
  | .chown name uid gid => noHandle ((clientFs (loopbackTransport fs) rounds).chown name uid gid)
  | .chtimes name mtime => noHandle ((clientFs (loopbackTransport fs) rounds).chtimes name mtime)
  | .truncate name size => noHandle ((clientFs (loopbackTransport fs) rounds).truncate name size)
  | .symlink old new => noHandle ((clientFs (loopbackTransport fs) rounds).symlink old new)
  | .readlink name => noHandle ((clientFs (loopbackTransport fs) rounds).readlink name)
  | .setXattr name attr data => noHandle ((clientFs (loopbackTransport fs) rounds).setXattr name attr data)
  | .getXattr name attr => noHandle ((clientFs (loopbackTransport fs) rounds).getXattr name attr)
  | .listXattrs name => noHandle ((clientFs (loopbackTransport fs) rounds).listXattrs name)
  | .open_ ctx name => someHandle ((clientFs (loopbackTransport fs) rounds).open_ ctx name)
  | .openFile name flags perm => someHandle ((clientFs (loopbackTransport fs) rounds).openFile name flags perm)
  | .create name => someHandle ((clientFs (loopbackTransport fs) rounds).create name)

/-- In any later state, closing or dropping a handle on the fid frees just it. -/
def Releases (fid : UInt32) : Prop :=
  ∀ (file : NinePFile) (s : Session σ η), file.fid = fid → file.closed = false →
    (NinePFile.close (loopbackTransport fs) (file, s)).2.2.transport.fids =
        Function.update s.transport.fids fid none ∧
      (file.drop (loopbackTransport fs) s).2.transport.fids = Function.update s.transport.fids fid none

/-- An operation that comes back has left the table as it was, or has added the
one fid of the handle it returns. -/
def FidBalanced (rounds : Nat) (op : Op) (s : Session σ η) : Prop :=
  match op.perform fs rounds s with
  | (.ok (some file), s') => s.transport.fids file.fid = none ∧ file.closed = false ∧
      (∃ st, s'.transport.fids = Function.update s.transport.fids file.fid (some st)) ∧ Releases fs file.fid
  | (.ok none, s') => s'.transport.fids = s.transport.fids
  | (.err _, s') => s'.transport.fids = s.transport.fids
  | (.abort, _) => True

/-- A rename or link whose first walk arrives and whose second walk fails. -/
def ForgetsFid (s : Session σ η) : Op → Prop
  | .rename old new => ∃ o n, validatedClientPath "rename" old = .ok o ∧ validatedClientPath "rename" new = .ok n ∧
      SecondWalkFails fs (parentPath o) (parentPath n) s
  | .link old new => ∃ o n, validatedClientPath "link" old = .ok o ∧ validatedClientPath "link" new = .ok n ∧
      o ≠ "." ∧ n ≠ "." ∧ SecondWalkFails fs o (parentPath n) s
  | _ => False

theorem releases (fid : UInt32) : Releases fs fid := by
  rintro file s rfl hc
  exact ⟨(close_fids fs hc s).1, (drop_fids fs hc s).1⟩

theorem fidBalanced_noHandle_iff {rounds : Nat} {op : Op} {s : Session σ η} {p : Prog (Session σ η) Error α}
    (hop : op.perform fs rounds = noHandle p) : FidBalanced fs rounds op s ↔
      ((p s).1.returned = true → (p s).2.transport.fids = s.transport.fids) := by
  unfold FidBalanced
  rw [hop, noHandle, bind_apply]
  rcases p s with ⟨x | e | _, s'⟩
  · exact ⟨fun h _ => h, fun h => h rfl⟩
  · exact ⟨fun h _ => h, fun h => h rfl⟩
  · exact ⟨fun _ => nofun, fun _ => trivial⟩

theorem fidBalanced_of_balances {rounds k : Nat} {op : Op} {s : Session σ η} {p : Prog (Session σ η) Error α}
    (hop : op.perform fs rounds = noHandle p) (hp : Balances k p) (hs : FreeFids k s) :
    FidBalanced fs rounds op s :=
  (fidBalanced_noHandle_iff fs hop).mpr fun hret => (hp s hs hret).1

theorem fidBalanced_of_opens {rounds k : Nat} {op : Op} {s : Session σ η}
    {p : Prog (Session σ η) Error NinePFile} (hop : op.perform fs rounds = someHandle p) (hp : Opens k p)
    (hs : FreeFids k s) : FidBalanced fs rounds op s := by
  obtain ⟨i, hi, hresult⟩ := hp s hs
  unfold FidBalanced
  rw [hop, someHandle, bind_apply]
  rcases h : p s with ⟨f | e | _, s'⟩ <;> rw [h] at hresult
  · obtain ⟨j, -, hfid, hclosed, hat⟩ := hresult
    refine ⟨?_, hclosed, ?_, releases fs f.fid⟩
    · rw [hfid]
      exact hs i hi
    · rw [hfid]
      exact hat.fids
  · exact hresult.1
  · trivial

theorem fidBalanced_rename_iff (rounds : Nat) (old new : String) {s : Session σ η} (hs : FreeFids 2 s) :
    FidBalanced fs rounds (.rename old new) s ↔ ¬ ForgetsFid fs s (.rename old new) := by
  rw [fidBalanced_noHandle_iff fs rfl]
  simp only [clientFs, rename, ForgetsFid]
  cases ho : validatedClientPath "rename" old with
  | error e =>
    refine iff_of_true (fun _ => rfl) ?_
    rintro ⟨_, _, ho', -⟩
    cases ho'
  | ok o =>
    cases hn : validatedClientPath "rename" new with
    | error e =>
      refine iff_of_true (fun _ => rfl) ?_
      rintro ⟨_, _, -, hn', -⟩
      cases hn'
    | ok n =>
      rw [ofExcept_ok, bind_ok (pure_apply _ _), ofExcept_ok, bind_ok (pure_apply _ _)]
      refine (twoWalks_balanced_iff fs (parentPath_valid o) (parentPath_valid n) (fun a b f => ?_) hs).trans ?_
      · exact preserves_bind (spares_call fs List.not_mem_nil) fun _ =>
          preserves_ite (preserves_pure _) (preserves_throw _)
      · simp

theorem fidBalanced_link_iff (rounds : Nat) (old new : String) {s : Session σ η} (hs : FreeFids 2 s) :
    FidBalanced fs rounds (.link old new) s ↔ ¬ ForgetsFid fs s (.link old new) := by
  rw [fidBalanced_noHandle_iff fs rfl]
  simp only [clientFs, link, ForgetsFid]
  cases ho : validatedClientPath "link" old with
  | error e =>
    refine iff_of_true (fun _ => rfl) ?_
    rintro ⟨_, _, ho', -⟩
    cases ho'
  | ok o =>
    cases hn : validatedClientPath "link" new with
    | error e =>
      refine iff_of_true (fun _ => rfl) ?_
      rintro ⟨_, _, -, hn', -⟩
      cases hn'
    | ok n =>
      rw [ofExcept_ok, bind_ok (pure_apply _ _), ofExcept_ok, bind_ok (pure_apply _ _), branch_apply]
      by_cases hdot : o = "." ∨ n = "."
      · rw [if_pos hdot]
        refine iff_of_true (fun _ => rfl) ?_
        rintro ⟨_, _, ho', hn', hoo, hnn, -⟩
        cases ho'
        cases hn'
        exact hdot.elim hoo hnn
      · rw [if_neg hdot]
        refine (twoWalks_balanced_iff fs (validatedClientPath_valid ho) (parentPath_valid n) (fun a b f => ?_)
          hs).trans ?_
        · exact preserves_bind (spares_call fs List.not_mem_nil) fun _ =>
            preserves_ite (preserves_pure _) (preserves_throw _)
        · simp [not_or.mp hdot]

/-- While the fid counter of the client is ahead of the fids in use, every
operation keeps the fid table, but for a rename or link that fails between its
two walks. -/
theorem fidBalanced_iff (rounds : Nat) (op : Op) {s : Session σ η} (hs : FreeFids 2 s) :
    FidBalanced fs rounds op s ↔ ¬ ForgetsFid fs s op := by
  have hs₁ : FreeFids 1 s := hs.mono (by omega)
  cases op with
  | rename old new => exact fidBalanced_rename_iff fs rounds old new hs
  | link old new => exact fidBalanced_link_iff fs rounds old new hs
  | stat ctx name => exact iff_of_true (fidBalanced_of_balances fs rfl (balances_stat fs name) hs₁) nofun
  | lstat ctx name => exact iff_of_true (fidBalanced_of_balances fs rfl (balances_stat fs name) hs₁) nofun
  | readDir ctx name =>
    exact iff_of_true (fidBalanced_of_balances fs rfl (balances_readDir fs rounds name) hs₁) nofun
  | mkdir name perm => exact iff_of_true (fidBalanced_of_balances fs rfl (balances_mkdir fs name perm) hs₁) nofun
  | remove name => exact iff_of_true (fidBalanced_of_balances fs rfl (balances_remove fs name) hs) nofun
  | chmod name mode => exact iff_of_true (fidBalanced_of_balances fs rfl (balances_setAttr fs name _) hs₁) nofun
  | chown name uid gid =>
    exact iff_of_true (fidBalanced_of_balances fs rfl (balances_setAttr fs name _) hs₁) nofun
  | chtimes name mtime =>
    exact iff_of_true (fidBalanced_of_balances fs rfl (balances_setAttr fs name _) hs₁) nofun
  | truncate name size =>
    exact iff_of_true (fidBalanced_of_balances fs rfl (balances_setAttr fs name _) hs₁) nofun
  | symlink old new => exact iff_of_true (fidBalanced_of_balances fs rfl (balances_symlink fs old new) hs₁) nofun
  | readlink name => exact iff_of_true (fidBalanced_of_balances fs rfl (balances_readlink fs name) hs₁) nofun
  | setXattr name attr data =>
    exact iff_of_true (fidBalanced_of_balances fs rfl (balances_setXattr fs name attr data) hs₁) nofun
  | getXattr name attr =>
    exact iff_of_true (fidBalanced_of_balances fs rfl (balances_getXattr fs name attr) hs) nofun
  | listXattrs name => exact iff_of_true (fidBalanced_of_balances fs rfl (balances_listXattrs fs name) hs) nofun
  | open_ ctx name => exact iff_of_true (fidBalanced_of_opens fs rfl (opens_open fs name) hs) nofun
  | openFile name flags perm =>
    exact iff_of_true (fidBalanced_of_opens fs rfl (opens_openFile fs name flags perm) hs) nofun
  | create name => exact iff_of_true (fidBalanced_of_opens fs rfl (opens_openFile fs name _ _) hs) nofun

/-- A client connected to an empty in-memory file system. -/
def emptyMount : Session MemFs MemFile :=
  (connect (loopbackTransport memFs) (ClientState.new (NinePServer.new (MemFs.new fun _ => 0) fun _ => 0))).2

theorem freeFids_emptyMount : FreeFids 2 emptyMount := by
  intro i hi
  have hfree : (emptyMount.transport.fids (emptyMount.nextFid + UInt32.ofNat 0)).isNone = true ∧
      (emptyMount.transport.fids (emptyMount.nextFid + UInt32.ofNat 1)).isNone = true := by decide +kernel
  interval_cases i
  · exact Option.isNone_iff_eq_none.mp hfree.1
  · exact Option.isNone_iff_eq_none.mp hfree.2

theorem fidBalanced_mkdir_emptyMount :
    FreeFids 2 emptyMount ∧ FidBalanced memFs 8 (.mkdir "d" (FileMode.fromPerm 0o755)) emptyMount :=
  ⟨freeFids_emptyMount, (fidBalanced_iff memFs 8 _ freeFids_emptyMount).mpr nofun⟩

/-- The parent of the new name is missing, so fid 2 stays in the table. -/
theorem not_fidBalanced_rename : ¬ ∀ (rounds : Nat) (op : Op) (s : Session MemFs MemFile),
    FreeFids 2 s → FidBalanced memFs rounds op s := by
  intro h
  have hkeep := (fidBalanced_noHandle_iff memFs rfl).mp
    (h 8 (.rename "a" "d/b") emptyMount freeFids_emptyMount)
  have hret : (rename (loopbackTransport memFs) "a" "d/b" emptyMount).1.returned = true := by decide +kernel
  have hleft : ((rename (loopbackTransport memFs) "a" "d/b" emptyMount).2.transport.fids 2).isSome = true := by
    decide +kernel
  have hfree : (emptyMount.transport.fids 2).isSome = false := by decide +kernel
  rw [show (rename (loopbackTransport memFs) "a" "d/b" emptyMount).2.transport.fids =
    emptyMount.transport.fids from hkeep hret, hfree] at hleft
  cases hleft

end NinePClientFs
end Star9
