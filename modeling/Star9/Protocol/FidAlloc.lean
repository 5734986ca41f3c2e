import Star9.Base.Run
import Star9.Protocol.HostileServer

/-!
# The fids that a client hands out

Every walk and every attribute call takes the next fid of a 32-bit counter that wraps
and is never compared with the fids in use. A run is any sequence of calls of one
client and of its open files, on any server. The fids of a call are those the counter
passes over. They are fresh in a run exactly as long as the counter has not reached
the fid that stands for none.
-/
namespace Star9
open Base Prog

namespace NinePClientFs
variable {τ α β : Type} {t : NinePTransport τ}

/-! ## How many fids a program takes -/

theorem preserves_received {γ : Type} {obs : ClientState τ → γ} (r : NinePResponse) : Preserves obs (received r) := by
  unfold received
  split
  · exact preserves_throw _
  · exact preserves_pure _

/-- A call leaves the counter of fids. -/
theorem preserves_call_nextFid (request : NinePRequest) : Preserves ClientState.nextFid (call t request) := by
  refine preserves_bind (fun s => ?_) fun tag => preserves_bind (preserves_ofExcept _) fun frame => preserves_bind (fun _ => rfl) fun reply =>
    preserves_bind (preserves_ofExcept _) fun r => preserves_ite (preserves_throw _) (preserves_received _)
  unfold allocTag
  split
  · rfl
  · rfl

/-- The counter moves on by at most `k`. -/
def Takes (k : Nat) (p : Prog (ClientState τ) Error α) : Prop :=
  ∀ s, ∃ j ≤ k, (p s).2.nextFid = s.nextFid + UInt32.ofNat j

section
variable {k m : Nat} {p q : Prog (ClientState τ) Error α} {f : α → Prog (ClientState τ) Error β}

theorem takes_of_preserves (h : Preserves ClientState.nextFid p) : Takes 0 p := fun s => ⟨0, le_rfl, by rw [h s]; simp⟩

theorem Takes.mono (h : Takes k p) (hle : k ≤ m) : Takes m p := by
  intro s
  obtain ⟨j, hj, hnext⟩ := h s
  exact ⟨j, hj.trans hle, hnext⟩

theorem takes_pure (a : α) : Takes 0 (pure a : Prog (ClientState τ) Error α) := takes_of_preserves (preserves_pure a)

theorem takes_throw (e : Error) : Takes 0 (throw e : Prog (ClientState τ) Error α) := takes_of_preserves (preserves_throw e)

theorem takes_ofExcept (x : Except Error α) : Takes 0 (Prog.ofExcept x : Prog (ClientState τ) Error α) :=
  takes_of_preserves (preserves_ofExcept x)

theorem takes_call (request : NinePRequest) : Takes 0 (call t request) := takes_of_preserves (preserves_call_nextFid request)

theorem takes_allocFid : Takes 1 (allocFid : Prog (ClientState τ) Error UInt32) := fun _ => ⟨1, le_rfl, rfl⟩

theorem takes_bind (hp : Takes k p) (hf : ∀ a, Takes m (f a)) : Takes (k + m) (p >>= f) := by
  intro s
  obtain ⟨i, hi, hfirst⟩ := hp s
  rw [bind_apply]
  rcases h : p s with ⟨a | e | _, s₁⟩ <;> rw [h] at hfirst
  · obtain ⟨j, hj, hsecond⟩ := hf a s₁
    refine ⟨i + j, Nat.add_le_add hi hj, hsecond.trans ?_⟩
    rw [hfirst, UInt32.ofNat_add, UInt32.add_assoc]
  · exact ⟨i, hi.trans (Nat.le_add_right k m), hfirst⟩
  · exact ⟨i, hi.trans (Nat.le_add_right k m), hfirst⟩

theorem takes_attempt (hp : Takes k p) : Takes k (attempt p) := by
  intro s
  rw [attempt_state]
  exact hp s

theorem takes_ite {c : Prop} [Decidable c] (hp : Takes k p) (hq : Takes k q) : Takes k (if c then p else q) := by
  split
  · exact hp
  · exact hq

/-- A call and a look at its reply. -/
theorem takes_asked {f : NinePResponse → Prog (ClientState τ) Error α} (request : NinePRequest) (hf : ∀ r, Takes 0 (f r)) :
    Takes 0 (call t request >>= f) := takes_bind (takes_call request) hf

end

theorem takes_expect (accepts : NinePResponse → Bool) (request : NinePRequest) : Takes 0 (expect t accepts request) :=
  takes_asked _ fun _ => takes_ite (takes_pure _) (takes_throw _)

theorem takes_clunkFid (fid : UInt32) : Takes 0 (clunkFid t fid) := by
  refine takes_asked _ fun r => ?_
  split
  · exact takes_pure _
  · exact takes_throw _

theorem takes_clunkAndThrow (fid : UInt32) (e : Error) : Takes 0 (clunkAndThrow t fid e : Prog _ _ α) :=
  takes_bind (takes_attempt (takes_clunkFid fid)) fun _ => takes_throw e

theorem takes_thenClunk {k : Nat} {p : Prog (ClientState τ) Error α} (fid : UInt32) (hp : Takes k p) :
    Takes k (thenClunk t fid p) :=
  takes_bind (takes_attempt hp) fun _ => takes_bind (takes_attempt (takes_clunkFid fid)) fun _ =>
    takes_bind (takes_ofExcept _) fun _ => takes_bind (takes_ofExcept _) fun _ => takes_pure _

theorem takes_walked (fid : UInt32) (name : String) (n : Nat) (r : NinePResponse) : Takes 0 (walked t fid name n r) := by
  unfold walked
  split
  · exact takes_ite (takes_pure _) (takes_clunkAndThrow fid _)
  · exact takes_throw _

theorem takes_walkFid (name : String) : Takes 1 (walkFid t name) :=
  (takes_bind (takes_ofExcept _) fun name => takes_bind takes_allocFid fun fid => takes_bind (takes_call _) fun r =>
    takes_walked fid name _ r).mono (by omega)

theorem takes_getattrFid (fid : UInt32) (path : String) : Takes 0 (getattrFid t fid path) := by
  refine takes_asked _ fun r => ?_
  split
  · split
    · exact takes_pure _
    · exact takes_of_preserves preserves_abort
  · exact takes_throw _

theorem takes_setAttr (path : String) (attr : SetAttr) : Takes 1 (setAttr t path attr) :=
  takes_bind (takes_walkFid path) fun fid => takes_thenClunk fid (takes_expect _ _)

theorem takes_xattrwalkFid (path attr : String) : Takes 2 (xattrwalkFid t path attr) := by
  refine takes_bind (takes_walkFid path) fun fid => takes_bind (m := 0) takes_allocFid fun newfid => ?_
  have hcall : Takes 0 (xattrwalkCall t fid newfid attr) := by
    refine takes_asked _ fun r => ?_
    split
    · exact takes_pure _
    · exact takes_throw _
  refine takes_bind (m := 0) (takes_attempt (takes_thenClunk fid hcall)) fun r => ?_
  split
  · exact takes_pure _
  · exact takes_clunkAndThrow newfid _

theorem takes_readAllLoop (fid : UInt32) (size : UInt64) (count : UInt32) (rounds : Nat) (offset : UInt64) (data : Bytes) :
    Takes 0 (readAllLoop t fid size count rounds offset data) := by
  induction rounds generalizing offset data with
  | zero => exact takes_pure _
  | succ rounds ih =>
    refine takes_ite (takes_bind (m := 0) (takes_asked _ fun r => ?_) fun chunk => takes_ite (takes_throw _) (takes_ite (takes_throw _) (ih _ _)))
      (takes_pure _)
    split
    · exact takes_pure _
    · exact takes_throw _

theorem takes_readAllFid (fid : UInt32) (size : UInt64) : Takes 0 (readAllFid t fid size) :=
  takes_bind (takes_of_preserves preserves_get) fun _ => takes_readAllLoop _ _ _ _ _ _

theorem takes_writeAllLoop (fid : UInt32) (count rounds : Nat) (offset : UInt64) (data : Bytes) :
    Takes 0 (writeAllLoop t fid count rounds offset data) := by
  induction rounds generalizing offset data with
  | zero => exact takes_pure _
  | succ rounds ih =>
    refine takes_ite (takes_pure _) (takes_bind (takes_asked _ fun r => ?_) fun _ => ih _ _)
    split
    · exact takes_ite (takes_throw _) (takes_ite (takes_throw _) (takes_pure _))
    · exact takes_throw _

theorem takes_writeAllFid (fid : UInt32) (data : Bytes) : Takes 0 (writeAllFid t fid data) :=
  takes_bind (takes_of_preserves preserves_get) fun _ => takes_writeAllLoop _ _ _ _ _

/-! ## Open files -/

/-- A call on an open file keeps its fid and the counter of fids. -/
def KeepsFids (p : Prog (NinePFile × ClientState τ) Error α) : Prop :=
  Preserves (fun x : NinePFile × ClientState τ => (x.1.fid, x.2.nextFid)) p

theorem keepsFids_onClient {p : Prog (ClientState τ) Error α} (h : Preserves ClientState.nextFid p) : KeepsFids (NinePFile.onClient p) :=
  fun x => congrArg (Prod.mk x.1.fid) (h x.2)

theorem keepsFids_file : KeepsFids (NinePFile.file : Prog (NinePFile × ClientState τ) Error _) := preserves_reads _

theorem keepsFids_update {g : NinePFile → NinePFile} (h : ∀ f, (g f).fid = f.fid) :
    KeepsFids (NinePFile.update g : Prog (NinePFile × ClientState τ) Error Unit) :=
  preserves_modify fun x => congrArg (·, x.2.nextFid) (h x.1)

theorem keepsFids_ensureOpen : KeepsFids (NinePFile.ensureOpen : Prog (NinePFile × ClientState τ) Error Unit) :=
  preserves_bind keepsFids_file fun _ => preserves_ite (preserves_throw _) (preserves_pure _)

/-- A call and a look at its reply, for an open file. -/
theorem preserves_asked {f : NinePResponse → Prog (ClientState τ) Error α} (request : NinePRequest)
    (hf : ∀ r, Preserves ClientState.nextFid (f r)) : Preserves ClientState.nextFid (call t request >>= f) :=
  preserves_bind (preserves_call_nextFid request) hf

theorem preserves_clunkFid (fid : UInt32) : Preserves ClientState.nextFid (clunkFid t fid) := by
  refine preserves_asked _ fun r => ?_
  split
  · exact preserves_pure _
  · exact preserves_throw _

theorem keepsFids_readFrom (offset : UInt64) (len : Nat) : KeepsFids (NinePFile.readFrom t offset len) := by
  refine preserves_bind keepsFids_file fun f => preserves_ite (preserves_throw _) (preserves_bind (keepsFids_onClient ?_) fun data =>
    preserves_ite preserves_abort (preserves_pure _))
  refine preserves_asked _ fun r => ?_
  split
  · exact preserves_pure _
  · exact preserves_throw _

theorem keepsFids_read (len : Nat) : KeepsFids (NinePFile.read t len) :=
  preserves_bind keepsFids_ensureOpen fun _ => preserves_bind keepsFids_file fun _ => preserves_bind (keepsFids_readFrom _ _) fun _ =>
    preserves_bind (keepsFids_update fun _ => rfl) fun _ => preserves_pure _

theorem keepsFids_readAt (len : Nat) (offset : UInt64) : KeepsFids (NinePFile.readAt t len offset) :=
  preserves_bind keepsFids_ensureOpen fun _ => keepsFids_readFrom _ _

theorem keepsFids_writeTo (offset : UInt64) (data : Bytes) : KeepsFids (NinePFile.writeTo t offset data) := by
  refine preserves_bind keepsFids_file fun f => preserves_bind (keepsFids_onClient (preserves_call_nextFid _)) fun r => ?_
  split
  · exact preserves_pure _
  · exact preserves_throw _

theorem keepsFids_write (data : Bytes) : KeepsFids (NinePFile.write t data) :=
  preserves_bind keepsFids_ensureOpen fun _ => preserves_bind keepsFids_file fun _ => preserves_bind (keepsFids_writeTo _ _) fun _ =>
    preserves_bind (keepsFids_update fun _ => rfl) fun _ => preserves_pure _

theorem keepsFids_writeAt (data : Bytes) (offset : UInt64) : KeepsFids (NinePFile.writeAt t data offset) :=
  preserves_bind keepsFids_ensureOpen fun _ => keepsFids_writeTo _ _

theorem preserves_getattrFid (fid : UInt32) (path : String) : Preserves ClientState.nextFid (getattrFid t fid path) := by
  refine preserves_asked _ fun r => ?_
  split
  · split
    · exact preserves_pure _
    · exact preserves_abort
  · exact preserves_throw _

theorem keepsFids_stat : KeepsFids (NinePFile.stat t) :=
  preserves_bind keepsFids_ensureOpen fun _ => preserves_bind keepsFids_file fun _ => keepsFids_onClient (preserves_getattrFid _ _)

theorem keepsFids_seek (pos : SeekFrom) : KeepsFids (NinePFile.seek t pos) := by
  refine preserves_bind keepsFids_ensureOpen fun _ => preserves_bind ?_ fun next =>
    preserves_ite (preserves_throw _) (preserves_bind (keepsFids_update fun _ => rfl) fun _ => preserves_pure _)
  cases pos with
  | start pos => exact preserves_pure _
  | current delta => exact preserves_bind keepsFids_file fun _ => preserves_pure _
  | fromEnd delta => exact preserves_bind keepsFids_stat fun _ => preserves_pure _

theorem preserves_readDirLoop (fid count : UInt32) (rounds : Nat) (offset : UInt64) (entries : List DirEntry) :
    Preserves ClientState.nextFid (NinePFile.readDirLoop t fid count rounds offset entries) := by
  induction rounds generalizing offset entries with
  | zero => exact preserves_abort
  | succ rounds ih =>
    refine preserves_bind (preserves_asked _ fun r => ?_) fun data =>
      preserves_ite (preserves_pure _) (preserves_bind (preserves_ofExcept _) fun dirents => ?_)
    · split
      · exact preserves_pure _
      · exact preserves_throw _
    · split
      · exact preserves_pure _
      · exact ih _ _

theorem keepsFids_readDir (rounds : Nat) (count : Int) : KeepsFids (NinePFile.readDir t rounds count) := by
  refine preserves_bind keepsFids_ensureOpen fun _ => preserves_bind (preserves_bind keepsFids_file fun f => ?_) fun entries =>
    preserves_bind keepsFids_file fun f => ?_
  · split
    · exact preserves_pure _
    · exact preserves_bind (keepsFids_onClient preserves_get) fun _ => preserves_bind (keepsFids_onClient (preserves_readDirLoop _ _ _ _ _))
        fun _ => preserves_bind (keepsFids_update fun _ => rfl) fun _ => preserves_pure _
  · refine preserves_ite (preserves_bind (keepsFids_update fun _ => rfl) fun _ => preserves_pure _) (preserves_ite (preserves_pure _) ?_)
    exact preserves_bind (keepsFids_update fun _ => rfl) fun _ => preserves_pure _

theorem preserves_expect (accepts : NinePResponse → Bool) (request : NinePRequest) : Preserves ClientState.nextFid (expect t accepts request) :=
  preserves_asked _ fun _ => preserves_ite (preserves_pure _) (preserves_throw _)

theorem keepsFids_sync : KeepsFids (NinePFile.sync t) :=
  preserves_bind keepsFids_ensureOpen fun _ => preserves_bind keepsFids_file fun _ => keepsFids_onClient (preserves_expect _ _)

theorem keepsFids_close : KeepsFids (NinePFile.close t) :=
  preserves_bind keepsFids_ensureOpen fun _ => preserves_bind keepsFids_file fun _ =>
    preserves_bind (keepsFids_onClient (preserves_clunkFid _)) fun _ => keepsFids_update fun _ => rfl

theorem preserves_drop (f : NinePFile) : Preserves ClientState.nextFid (f.drop t) :=
  preserves_ite (preserves_pure _) (preserves_bind (preserves_attempt (preserves_clunkFid _)) fun _ => preserves_pure _)

/-- A call on an open file, from the side of the client. -/
theorem withFile_keepsFids {p : Prog (NinePFile × ClientState τ) Error α} (h : KeepsFids p) (f : NinePFile) (s : ClientState τ) :
    (withFile f p s).2.nextFid = s.nextFid ∧ ∀ r g, (withFile f p s).1 = .ok (r, g) → g.fid = f.fid := by
  have hkeep := h (f, s)
  unfold withFile
  rcases hp : p (f, s) with ⟨a | e | _, g, s₁⟩ <;> rw [hp] at hkeep
  · exact ⟨congrArg Prod.snd hkeep, fun r g' hg => by cases hg; exact congrArg Prod.fst hkeep⟩
  · exact ⟨congrArg Prod.snd hkeep, fun r g' hg => by cases hg; exact congrArg Prod.fst hkeep⟩
  · exact ⟨congrArg Prod.snd hkeep, fun r g' hg => by cases hg⟩

theorem takes_withFile {p : Prog (NinePFile × ClientState τ) Error α} (h : KeepsFids p) (f : NinePFile) : Takes 0 (withFile f p) :=
  takes_of_preserves fun s => (withFile_keepsFids h f s).1

/-! ## Calls that return an open file -/

section
variable {k m : Nat} {g : α → UInt32} {h : β → UInt32} {p q : Prog (ClientState τ) Error α} {f : α → Prog (ClientState τ) Error β}

/-- The value comes with a fid that the run has taken. -/
def Grants (g : α → UInt32) (k : Nat) (p : Prog (ClientState τ) Error α) : Prop :=
  ∀ s, ∃ j ≤ k, (p s).2.nextFid = s.nextFid + UInt32.ofNat j ∧ ∀ a, (p s).1 = .ok a → ∃ i < j, g a = s.nextFid + UInt32.ofNat i

/-- The value comes with a fid that was there before. -/
structure Carries (fid : UInt32) (h : β → UInt32) (m : Nat) (q : Prog (ClientState τ) Error β) : Prop where
  takes : Takes m q
  carries : Returns (fun b => h b = fid) q

theorem Grants.takes (hp : Grants g k p) : Takes k p := by
  intro s
  obtain ⟨j, hj, hnext, -⟩ := hp s
  exact ⟨j, hj, hnext⟩

theorem Grants.mono (hp : Grants g k p) (hle : k ≤ m) : Grants g m p := by
  intro s
  obtain ⟨j, hj, hrest⟩ := hp s
  exact ⟨j, hj.trans hle, hrest⟩

theorem grants_allocFid : Grants id 1 (allocFid : Prog (ClientState τ) Error UInt32) := by
  refine fun s => ⟨1, le_rfl, rfl, fun fid hfid => ⟨0, Nat.one_pos, ?_⟩⟩
  cases hfid
  simp

theorem grants_throw (e : Error) : Grants g 0 (throw e : Prog (ClientState τ) Error α) := fun s =>
  ⟨0, le_rfl, by simp, fun a ha => absurd ha Outcome.err_ne_ok⟩

/-- What follows keeps the fid that was granted. -/
theorem grants_carries (hp : Grants g k p) (hf : ∀ a, Carries (g a) h m (f a)) : Grants h (k + m) (p >>= f) := by
  intro s
  obtain ⟨j, hj, hnext, hgrant⟩ := hp s
  rw [bind_apply]
  rcases hrun : p s with ⟨a | e | _, s₁⟩ <;> rw [hrun] at hnext hgrant
  · obtain ⟨n, hn, hlast⟩ := (hf a).takes s₁
    obtain ⟨i, hi, hfid⟩ := hgrant a rfl
    refine ⟨j + n, Nat.add_le_add hj hn, hlast.trans ?_, fun b hb => ⟨i, Nat.lt_add_right n hi, ?_⟩⟩
    · rw [hnext, UInt32.ofNat_add, UInt32.add_assoc]
    · rw [(hf a).carries s₁ b hb]
      exact hfid
  · exact ⟨j, hj.trans (Nat.le_add_right k m), hnext, fun b hb => absurd hb Outcome.err_ne_ok⟩
  · exact ⟨j, hj.trans (Nat.le_add_right k m), hnext, fun b hb => absurd hb Outcome.abort_ne_ok⟩

/-- Fids taken before do not matter. -/
theorem grants_after {r : Prog (ClientState τ) Error β} {f : β → Prog (ClientState τ) Error α} (hr : Takes m r) (hf : ∀ b, Grants g k (f b)) :
    Grants g (m + k) (r >>= f) := by
  intro s
  obtain ⟨j, hj, hnext⟩ := hr s
  rw [bind_apply]
  rcases hrun : r s with ⟨b | e | _, s₁⟩ <;> rw [hrun] at hnext
  · obtain ⟨n, hn, hlast, hgrant⟩ := hf b s₁
    refine ⟨j + n, Nat.add_le_add hj hn, hlast.trans ?_, fun a ha => ?_⟩
    · rw [hnext, UInt32.ofNat_add, UInt32.add_assoc]
    · obtain ⟨i, hi, hfid⟩ := hgrant a ha
      refine ⟨j + i, Nat.add_lt_add_left hi j, hfid.trans ?_⟩
      rw [hnext, UInt32.ofNat_add, UInt32.add_assoc]
  · exact ⟨j, hj.trans (Nat.le_add_right m k), hnext, fun b hb => absurd hb Outcome.err_ne_ok⟩
  · exact ⟨j, hj.trans (Nat.le_add_right m k), hnext, fun b hb => absurd hb Outcome.abort_ne_ok⟩

theorem grants_ite {c : Prop} [Decidable c] (hp : Grants g k p) (hq : Grants g k q) : Grants g k (if c then p else q) := by
  split
  · exact hp
  · exact hq

theorem carries_pure {b : β} {fid : UInt32} (hb : h b = fid) : Carries fid h 0 (pure b : Prog (ClientState τ) Error β) :=
  ⟨takes_pure b, returns_pure hb⟩

theorem carries_throw {fid : UInt32} (e : Error) : Carries fid h 0 (throw e : Prog (ClientState τ) Error β) :=
  ⟨takes_throw e, returns_throw e⟩

theorem carries_after {fid : UInt32} {r : Prog (ClientState τ) Error α} (hr : Takes k r) (hf : ∀ a, Carries fid h m (f a)) :
    Carries fid h (k + m) (r >>= f) :=
  ⟨takes_bind hr fun a => (hf a).takes, returns_bind fun a => (hf a).carries⟩

theorem carries_ite {c : Prop} [Decidable c] {fid : UInt32} {p q : Prog (ClientState τ) Error β} (hp : Carries fid h m p) (hq : Carries fid h m q) :
    Carries fid h m (if c then p else q) := by
  split
  · exact hp
  · exact hq

end

theorem grants_walkFid (name : String) : Grants id 1 (walkFid t name) := by
  refine (grants_after (k := 1) (takes_ofExcept _) fun name => ?_).mono (by omega)
  refine grants_carries (m := 0) grants_allocFid fun fid => carries_after (m := 0) (takes_call _) fun r => ?_
  unfold walked
  split
  · exact carries_ite (carries_pure rfl) ⟨takes_clunkAndThrow fid _, returns_bind fun _ => returns_throw _⟩
  · exact carries_throw _

theorem carries_openFid (accepts : NinePResponse → Bool) (request : NinePRequest) (fid : UInt32) (path : String) :
    Carries fid NinePFile.fid 0 (openFid t accepts request fid path) := by
  refine carries_after (m := 0) (takes_attempt (takes_expect accepts request)) fun r => ?_
  cases r with
  | ok _ => exact carries_pure rfl
  | error e => exact ⟨takes_clunkAndThrow fid e, returns_bind fun _ => returns_throw e⟩

theorem carries_appending (flags : OpenFlags) (f : NinePFile) : Carries f.fid NinePFile.fid 0 (appending t flags f) := by
  have hseek : KeepsFids (NinePFile.seek t (.fromEnd 0)) := keepsFids_seek (.fromEnd 0)
  have hdrop : ∀ (f : NinePFile) (r : Except Error UInt64), Takes 0 (orDrop t f (Prog.ofExcept r)) := by
    intro f r
    refine takes_bind (m := 0) (takes_attempt (takes_ofExcept r)) fun r => ?_
    cases r with
    | ok a => exact takes_pure a
    | error e => exact takes_bind (takes_of_preserves (preserves_drop f)) fun _ => takes_throw e
  refine carries_ite ⟨?_, ?_⟩ (carries_pure rfl)
  · exact takes_bind (takes_withFile hseek f) fun x => takes_bind (hdrop _ _) fun _ => takes_pure _
  · intro s b hb
    obtain ⟨x, s₁, hx, hb⟩ := bind_fst_eq_ok.mp hb
    obtain ⟨u, s₂, -, hb⟩ := bind_fst_eq_ok.mp hb
    cases hb
    exact (withFile_keepsFids hseek f s).2 x.1 x.2 (by rw [hx])

theorem takes_truncating (flags : OpenFlags) (path : String) (f : NinePFile) : Takes 1 (truncating t flags path f) := by
  refine takes_ite (takes_bind (m := 0) (takes_attempt (takes_setAttr path _)) fun r => ?_) ((takes_pure _).mono (Nat.zero_le 1))
  cases r with
  | ok a => exact takes_pure a
  | error e => exact takes_bind (takes_of_preserves (preserves_drop f)) fun _ => takes_throw e

theorem grants_openExisting (name : String) (flags : UInt32) : Grants NinePFile.fid 1 (openExisting t name flags) :=
  (grants_after (takes_ofExcept _) fun path => grants_carries (grants_walkFid path) fun fid => carries_openFid _ _ fid path).mono (by omega)

/-- The second try takes its fid behind that of the first. -/
theorem grants_open (name : String) : Grants NinePFile.fid 2 (open_ t name) := by
  intro s
  obtain ⟨j, hj, hnext, hgrant⟩ := @grants_openExisting τ t name OpenFlags.rdwr.bits s
  rw [open_, bind_apply, attempt]
  rcases hrun : openExisting t name OpenFlags.rdwr.bits s with ⟨f | e | _, s₁⟩ <;> rw [hrun] at hnext hgrant
  · exact ⟨j, by omega, hnext, hgrant⟩
  · obtain ⟨n, hn, hlast, hsecond⟩ := @grants_openExisting τ t name OpenFlags.rdonly.bits s₁
    refine ⟨j + n, by omega, hlast.trans ?_, fun f hf => ?_⟩
    · rw [hnext, UInt32.ofNat_add, UInt32.add_assoc]
    · obtain ⟨i, hi, hfid⟩ := hsecond f hf
      refine ⟨j + i, Nat.add_lt_add_left hi j, hfid.trans ?_⟩
      rw [hnext, UInt32.ofNat_add, UInt32.add_assoc]
  · exact ⟨j, by omega, hnext, fun f hf => absurd hf Outcome.abort_ne_ok⟩

theorem grants_openFile (name : String) (flags : OpenFlags) (perm : FileMode) : Grants NinePFile.fid 2 (openFile t name flags perm) := by
  refine (grants_after (k := 2) (takes_ofExcept _) fun path => ?_).mono (by omega)
  refine grants_ite ((grants_throw _).mono (Nat.zero_le 2)) (grants_ite ?_ ?_)
  · refine Grants.mono (k := 1 + (0 + 0)) ?_ (by omega)
    refine grants_carries (grants_walkFid _) fun fid => ⟨?_, ?_⟩
    · exact takes_bind (carries_openFid _ _ fid path).takes fun f => (carries_appending flags f).takes
    · refine returns_then (carries_openFid _ _ fid path).carries fun f hf => returns_mono (carries_appending flags f).carries fun g hg => ?_
      exact hg.trans hf
  · refine Grants.mono (k := 1 + (1 + 0)) ?_ (by omega)
    exact grants_carries (grants_openExisting path _) fun f => carries_after (takes_truncating flags path f) fun _ => carries_appending flags f

/-! ## Calls on paths -/

theorem takes_stat (name : String) : Takes 1 (stat t name) :=
  (takes_bind (takes_ofExcept _) fun name => takes_bind (takes_walkFid name) fun fid =>
    takes_thenClunk fid (takes_getattrFid fid name)).mono (by omega)

theorem takes_closing (f : NinePFile) (r : Except Error α) : Takes 0 (closing t f r) :=
  takes_bind (takes_withFile keepsFids_close f) fun x => takes_bind (takes_of_preserves (preserves_drop x.2)) fun _ =>
    takes_bind (takes_ofExcept r) fun _ => takes_bind (takes_ofExcept x.1) fun _ => takes_pure _

theorem takes_readDir (rounds : Nat) (name : String) : Takes 1 (readDir t rounds name) :=
  takes_bind (grants_openExisting name _).takes fun f => takes_bind (takes_withFile (keepsFids_readDir rounds (-1)) f) fun x =>
    takes_closing x.2 x.1

theorem takes_mkdir (name : String) (perm : FileMode) : Takes 1 (mkdir t name perm) :=
  (takes_bind (m := 1) (takes_ofExcept _) fun path => takes_ite ((takes_throw _).mono (Nat.zero_le 1))
    (takes_bind (takes_walkFid _) fun fid => takes_thenClunk fid (takes_expect _ _))).mono (by omega)

theorem takes_remove (name : String) : Takes 2 (remove t name) :=
  (takes_bind (m := 2) (takes_ofExcept _) fun path => takes_ite ((takes_throw _).mono (Nat.zero_le 2))
    (takes_bind (m := 1) (takes_stat path) fun _ => takes_bind (takes_walkFid _) fun fid => takes_thenClunk fid (takes_expect _ _))).mono (by omega)

theorem takes_rename (old new : String) : Takes 2 (rename t old new) :=
  (takes_bind (m := 2) (takes_ofExcept _) fun old => takes_bind (m := 2) (takes_ofExcept _) fun new =>
    takes_bind (m := 1) (takes_walkFid _) fun a => takes_bind (takes_walkFid _) fun b =>
      takes_thenClunk b (takes_thenClunk a (takes_expect _ _))).mono (by omega)

theorem takes_link (old new : String) : Takes 2 (link t old new) :=
  (takes_bind (m := 2) (takes_ofExcept _) fun old => takes_bind (m := 2) (takes_ofExcept _) fun new =>
    takes_ite ((takes_throw _).mono (Nat.zero_le 2)) (takes_bind (m := 1) (takes_walkFid _) fun a =>
      takes_bind (takes_walkFid _) fun b => takes_thenClunk b (takes_thenClunk a (takes_expect _ _)))).mono (by omega)

theorem takes_symlink (old new : String) : Takes 1 (symlink t old new) :=
  (takes_bind (m := 1) (takes_ofExcept _) fun new => takes_bind (takes_walkFid _) fun fid =>
    takes_thenClunk fid (takes_expect _ _)).mono (by omega)

theorem takes_readlink (name : String) : Takes 1 (readlink t name) := by
  refine takes_bind (takes_walkFid name) fun fid => takes_thenClunk fid (takes_asked _ fun r => ?_)
  split
  · exact takes_pure _
  · exact takes_throw _

theorem takes_setXattr (name attr : String) (data : Bytes) : Takes 1 (setXattr t name attr data) :=
  (takes_bind (m := 1) (takes_ofExcept _) fun path => takes_bind (takes_walkFid path) fun fid =>
    takes_thenClunk fid (takes_bind (takes_expect _ _) fun _ => takes_writeAllFid fid data)).mono (by omega)

theorem takes_getXattr (name attr : String) : Takes 2 (getXattr t name attr) :=
  (takes_bind (m := 2) (takes_ofExcept _) fun path => takes_bind (takes_xattrwalkFid path attr) fun x =>
    takes_thenClunk x.1 (takes_readAllFid x.1 x.2)).mono (by omega)

theorem takes_listXattrs (name : String) : Takes 2 (listXattrs t name) :=
  (takes_bind (m := 2) (takes_ofExcept _) fun path => takes_bind (takes_xattrwalkFid path "") fun x =>
    takes_thenClunk x.1 (takes_bind (takes_readAllFid x.1 x.2) fun _ => takes_ofExcept _)).mono (by omega)

/-- The second tag is taken when the first is the one that stands for none. -/
theorem allocTag_ne_notag (s : ClientState τ) (tag : UInt16) (h : (allocTag s).1 = .ok tag) : tag ≠ notag := by
  unfold allocTag at h
  split at h
  case isTrue heq =>
    cases h
    rw [heq]
    decide
  case isFalse hne =>
    cases h
    exact hne

end NinePClientFs

/-! ## Runs of a client -/

inductive ClientOp where
  | stat (name : String)
  | open_ (name : String)
  | create (name : String)
  | openFile (name : String) (flags : OpenFlags) (perm : FileMode)
  | readDir (name : String)
  | mkdir (name : String) (perm : FileMode)
  | remove (name : String)
  | rename (old new : String)
  | link (old new : String)
  | setAttr (name : String) (attr : SetAttr)
  | symlink (old new : String)
  | readlink (name : String)
  | setXattr (name attr : String) (data : Bytes)
  | getXattr (name attr : String)
  | listXattrs (name : String)
  | fileRead (file : Nat) (len : Nat)
  | fileReadAt (file : Nat) (len : Nat) (offset : UInt64)
  | fileWrite (file : Nat) (data : Bytes)
  | fileWriteAt (file : Nat) (data : Bytes) (offset : UInt64)
  | fileSeek (file : Nat) (pos : SeekFrom)
  | fileStat (file : Nat)
  | fileReadDir (file : Nat) (count : Int)
  | fileSync (file : Nat)
  | fileClose (file : Nat)
  | fileDrop (file : Nat)

/-- A client with the files that it has handed out and that were not dropped. -/
structure ClientWorld (τ : Type) where
  client : ClientState τ
  files : List NinePFile

namespace ClientWorld
open NinePClientFs
variable {τ α : Type}

def onPath (p : Prog (ClientState τ) Error α) (w : ClientWorld τ) : ClientWorld τ := { w with client := (p w.client).2 }

/-- A file that the call returns joins the files of the client. -/
def opening (p : Prog (ClientState τ) Error NinePFile) (w : ClientWorld τ) : ClientWorld τ :=
  match p w.client with
  | (.ok f, s) => { client := s, files := w.files ++ [f] }
  | (_, s) => { w with client := s }

def onFile (file : Nat) (p : Prog (NinePFile × ClientState τ) Error α) (w : ClientWorld τ) : ClientWorld τ :=
  match w.files[file]? with
  | some f => { client := (p (f, w.client)).2.2, files := w.files.set file (p (f, w.client)).2.1 }
  | none => w

def dropping (t : NinePTransport τ) (file : Nat) (w : ClientWorld τ) : ClientWorld τ :=
  match w.files[file]? with
  | some f => { client := (f.drop t w.client).2, files := w.files.eraseIdx file }
  | none => w

def step (t : NinePTransport τ) (rounds : Nat) (w : ClientWorld τ) : ClientOp → ClientWorld τ
  | .stat name => w.onPath (NinePClientFs.stat t name)
  | .open_ name => w.opening (NinePClientFs.open_ t name)
  | .create name => w.opening (NinePClientFs.create t name)
  | .openFile name flags perm => w.opening (NinePClientFs.openFile t name flags perm)
  | .readDir name => w.onPath (NinePClientFs.readDir t rounds name)
  | .mkdir name perm => w.onPath (NinePClientFs.mkdir t name perm)
  | .remove name => w.onPath (NinePClientFs.remove t name)
  | .rename old new => w.onPath (NinePClientFs.rename t old new)
  | .link old new => w.onPath (NinePClientFs.link t old new)
  | .setAttr name attr => w.onPath (NinePClientFs.setAttr t name attr)
  | .symlink old new => w.onPath (NinePClientFs.symlink t old new)
  | .readlink name => w.onPath (NinePClientFs.readlink t name)
  | .setXattr name attr data => w.onPath (NinePClientFs.setXattr t name attr data)
  | .getXattr name attr => w.onPath (NinePClientFs.getXattr t name attr)
  | .listXattrs name => w.onPath (NinePClientFs.listXattrs t name)
  | .fileRead file len => w.onFile file (NinePFile.read t len)
  | .fileReadAt file len offset => w.onFile file (NinePFile.readAt t len offset)
  | .fileWrite file data => w.onFile file (NinePFile.write t data)
  | .fileWriteAt file data offset => w.onFile file (NinePFile.writeAt t data offset)
  | .fileSeek file pos => w.onFile file (NinePFile.seek t pos)
  | .fileStat file => w.onFile file (NinePFile.stat t)
  | .fileReadDir file count => w.onFile file (NinePFile.readDir t rounds count)
  | .fileSync file => w.onFile file (NinePFile.sync t)
  | .fileClose file => w.onFile file (NinePFile.close t)
  | .fileDrop file => w.dropping t file

/-- A client that has connected. -/
def init (t : NinePTransport τ) (x : τ) : ClientWorld τ := { client := (connect t (ClientState.new x)).2, files := [] }

/-- The fids that the counter has passed over. -/
def allocated (before after : ClientState τ) : List UInt32 :=
  (List.range (after.nextFid - before.nextFid).toNat).map fun i => before.nextFid + UInt32.ofNat i

variable (t : NinePTransport τ) (rounds : Nat)

/-- The fids of a call are all different, and none is the root, the fid that stands for
none or the fid of a file that is open. -/
def Fresh (w : ClientWorld τ) (op : ClientOp) : Prop :=
  (allocated w.client (w.step t rounds op).client).Nodup ∧
    ∀ fid ∈ allocated w.client (w.step t rounds op).client, fid ≠ rootFid ∧ fid ≠ nofid ∧ ∀ f ∈ w.files, f.closed = false → f.fid ≠ fid

/-- How many fids a run takes. -/
def taken : ClientWorld τ → List ClientOp → Nat
  | _, [] => 0
  | w, op :: ops => (allocated w.client (w.step t rounds op).client).length + taken (w.step t rounds op) ops


/-! ## What one call does -/

/-- The counter moves on by `j`, and a file that joins has a fid that was passed over. -/
structure Moves (j : Nat) (w w' : ClientWorld τ) : Prop where
  next : w'.client.nextFid = w.client.nextFid + UInt32.ofNat j
  files : ∀ f ∈ w'.files, (∃ g ∈ w.files, g.fid = f.fid) ∨ ∃ i < j, f.fid = w.client.nextFid + UInt32.ofNat i

variable {t rounds}

theorem moves_onPath {k : Nat} {p : Prog (ClientState τ) Error α} (h : Takes k p) (w : ClientWorld τ) :
    ∃ j ≤ k, Moves j w (w.onPath p) := by
  obtain ⟨j, hj, hnext⟩ := h w.client
  exact ⟨j, hj, hnext, fun f hf => Or.inl ⟨f, hf, rfl⟩⟩

theorem moves_opening {k : Nat} {p : Prog (ClientState τ) Error NinePFile} (h : Grants NinePFile.fid k p) (w : ClientWorld τ) :
    ∃ j ≤ k, Moves j w (w.opening p) := by
  obtain ⟨j, hj, hnext, hgrant⟩ := h w.client
  refine ⟨j, hj, ?_⟩
  unfold opening
  split
  case h_1 f s hrun =>
    rw [hrun] at hnext hgrant
    refine ⟨hnext, fun g hg => ?_⟩
    rcases List.mem_append.mp hg with hold | hnew
    · exact Or.inl ⟨g, hold, rfl⟩
    · rw [List.mem_singleton.mp hnew]
      exact Or.inr (hgrant f rfl)
  case h_2 s _ hrun =>
    rw [hrun] at hnext
    exact ⟨hnext, fun g hg => Or.inl ⟨g, hg, rfl⟩⟩

theorem moves_onFile {p : Prog (NinePFile × ClientState τ) Error α} (h : KeepsFids p) (file : Nat) (w : ClientWorld τ) :
    Moves 0 w (w.onFile file p) := by
  unfold onFile
  split
  case h_1 f hf =>
    have hkeep := h (f, w.client)
    refine ⟨by simpa using congrArg Prod.snd hkeep, fun g hg => ?_⟩
    rcases List.mem_or_eq_of_mem_set hg with hold | hnew
    · exact Or.inl ⟨g, hold, rfl⟩
    · rw [hnew]
      exact Or.inl ⟨f, List.mem_of_getElem? hf, (congrArg Prod.fst hkeep).symm⟩
  case h_2 => exact ⟨by simp, fun g hg => Or.inl ⟨g, hg, rfl⟩⟩

theorem moves_dropping (file : Nat) (w : ClientWorld τ) : Moves 0 w (w.dropping t file) := by
  unfold dropping
  split
  case h_1 f hf =>
    have hkeep : (f.drop t w.client).2.nextFid = w.client.nextFid := preserves_drop f w.client
    exact ⟨by simpa using hkeep, fun g hg => Or.inl ⟨g, List.mem_of_mem_eraseIdx hg, rfl⟩⟩
  case h_2 => exact ⟨by simp, fun g hg => Or.inl ⟨g, hg, rfl⟩⟩

/-- No call takes more than two fids. -/
theorem moves_step (w : ClientWorld τ) (op : ClientOp) : ∃ j ≤ 2, Moves j w (w.step t rounds op) := by
  have hpath : ∀ {α : Type} {k : Nat} {p : Prog (ClientState τ) Error α}, Takes k p → k ≤ 2 → ∃ j ≤ 2, Moves j w (w.onPath p) :=
    fun h hk => moves_onPath (h.mono hk) w
  have hfile : ∀ {α : Type} {p : Prog (NinePFile × ClientState τ) Error α} (file : Nat), KeepsFids p → ∃ j ≤ 2, Moves j w (w.onFile file p) :=
    fun file h => ⟨0, Nat.zero_le 2, moves_onFile h file w⟩
  cases op with
  | stat name => exact hpath (takes_stat name) (by omega)
  | open_ name => exact moves_opening (grants_open name) w
  | create name => exact moves_opening (grants_openFile name _ _) w
  | openFile name flags perm => exact moves_opening (grants_openFile name flags perm) w
  | readDir name => exact hpath (takes_readDir rounds name) (by omega)
  | mkdir name perm => exact hpath (takes_mkdir name perm) (by omega)
  | remove name => exact hpath (takes_remove name) le_rfl
  | rename old new => exact hpath (takes_rename old new) le_rfl
  | link old new => exact hpath (takes_link old new) le_rfl
  | setAttr name attr => exact hpath (takes_setAttr name attr) (by omega)
  | symlink old new => exact hpath (takes_symlink old new) (by omega)
  | readlink name => exact hpath (takes_readlink name) (by omega)
  | setXattr name attr data => exact hpath (takes_setXattr name attr data) (by omega)
  | getXattr name attr => exact hpath (takes_getXattr name attr) le_rfl
  | listXattrs name => exact hpath (takes_listXattrs name) le_rfl
  | fileRead file len => exact hfile file (keepsFids_read len)
  | fileReadAt file len offset => exact hfile file (keepsFids_readAt len offset)
  | fileWrite file data => exact hfile file (keepsFids_write data)
  | fileWriteAt file data offset => exact hfile file (keepsFids_writeAt data offset)
  | fileSeek file pos => exact hfile file (keepsFids_seek pos)
  | fileStat file => exact hfile file keepsFids_stat
  | fileReadDir file count => exact hfile file (keepsFids_readDir rounds count)
  | fileSync file => exact hfile file keepsFids_sync
  | fileClose file => exact hfile file keepsFids_close
  | fileDrop file => exact ⟨0, Nat.zero_le 2, moves_dropping file w⟩

theorem Moves.allocated_eq {j : Nat} {w w' : ClientWorld τ} (h : Moves j w w') (hj : j ≤ 2) :
    allocated w.client w'.client = (List.range j).map fun i => w.client.nextFid + UInt32.ofNat i := by
  have hdiff : w'.client.nextFid - w.client.nextFid = UInt32.ofNat j := by
    rw [h.next, add_comm]
    exact UInt32.add_sub_cancel _ _
  rw [allocated, hdiff, UInt32.toNat_ofNat_of_lt' (hj.trans_lt (by decide))]

/-! ## Runs -/

/-- The counter has passed over `n` fids and has not reached the one that stands for none. -/
structure FidsGranted (n : Nat) (w : ClientWorld τ) : Prop where
  bound : n ≤ 2 ^ 32 - 3
  next : w.client.nextFid = UInt32.ofNat (2 + n)
  files : ∀ f ∈ w.files, ∃ i < n, f.fid = UInt32.ofNat (2 + i)

theorem ofNat_inj_of_lt {i j : Nat} (hi : i < 2 ^ 32) (hj : j < 2 ^ 32) (h : UInt32.ofNat i = UInt32.ofNat j) : i = j := by
  have hval := congrArg UInt32.toNat h
  rwa [UInt32.toNat_ofNat_of_lt' hi, UInt32.toNat_ofNat_of_lt' hj] at hval

theorem fidsGranted_init (x : τ) : FidsGranted 0 (init t x) := by
  have hconnect : Preserves ClientState.nextFid (connect t) := by
    refine preserves_asked _ fun r => ?_
    split
    · refine preserves_ite ?_ (preserves_throw _)
      refine preserves_bind (preserves_modify fun _ => rfl) fun _ => preserves_asked _ fun r => ?_
      split
      · exact preserves_pure _
      · exact preserves_throw _
    · exact preserves_throw _
  refine ⟨by omega, hconnect _, fun f hf => ?_⟩
  exact absurd hf List.not_mem_nil

section
variable {n j : Nat} {w w' : ClientWorld τ}

/-- The `i`th fid of the call is the one that stands `i` places behind the counter. -/
theorem FidsGranted.nth (h : FidsGranted n w) (i : Nat) : w.client.nextFid + UInt32.ofNat i = UInt32.ofNat (2 + (n + i)) := by
  rw [h.next, ← UInt32.ofNat_add, Nat.add_assoc]

theorem FidsGranted.moves (h : FidsGranted n w) (hmoves : Moves j w w') (hbound : n + j ≤ 2 ^ 32 - 3) : FidsGranted (n + j) w' := by
  refine ⟨hbound, hmoves.next.trans (h.nth j), fun f hf => ?_⟩
  rcases hmoves.files f hf with ⟨g, hg, hfid⟩ | ⟨i, hi, hfid⟩
  · obtain ⟨i, hi, hold⟩ := h.files g hg
    exact ⟨i, by omega, by rw [← hfid, hold]⟩
  · exact ⟨n + i, by omega, by rw [hfid, h.nth]⟩

/-- A call is fresh exactly when the counter does not reach the fid that stands for none. -/
theorem FidsGranted.fresh_iff (h : FidsGranted n w) {op : ClientOp} (hmoves : Moves j w (w.step t rounds op)) (hj : j ≤ 2) :
    Fresh t rounds w op ↔ n + j ≤ 2 ^ 32 - 3 := by
  have hbound := h.bound
  rw [Fresh, hmoves.allocated_eq hj]
  constructor
  · intro ⟨_, hfresh⟩
    by_contra hover
    -- one of the fids is the one behind the last good one
    have hlast : nofid ∈ (List.range j).map fun i => w.client.nextFid + UInt32.ofNat i := by
      refine List.mem_map.mpr ⟨2 ^ 32 - 3 - n, List.mem_range.mpr (by omega), ?_⟩
      rw [h.nth, show 2 + (n + (2 ^ 32 - 3 - n)) = 2 ^ 32 - 1 by omega]
      rfl
    exact (hfresh nofid hlast).2.1 rfl
  · intro hle
    constructor
    · refine List.Nodup.map_on (fun i hi k hk heq => ?_) List.nodup_range
      rw [h.nth, h.nth] at heq
      have := ofNat_inj_of_lt (by grind) (by grind) heq
      omega
    · intro fid hfid
      obtain ⟨i, hi, rfl⟩ := List.mem_map.mp hfid
      rw [List.mem_range] at hi
      rw [h.nth]
      refine ⟨fun heq => ?_, fun heq => ?_, fun f hf _ heq => ?_⟩
      · have := ofNat_inj_of_lt (i := 2 + (n + i)) (j := 1) (by omega) (by omega) heq
        omega
      · have := ofNat_inj_of_lt (i := 2 + (n + i)) (j := 2 ^ 32 - 1) (by omega) (by omega) (heq.trans rfl)
        omega
      · obtain ⟨k, hk, hold⟩ := h.files f hf
        have := ofNat_inj_of_lt (by omega) (by omega) (hold.symm.trans heq)
        omega

end

theorem stepsMeet_fresh_iff {n : Nat} {w : ClientWorld τ} (h : FidsGranted n w) (ops : List ClientOp) :
    StepsMeet (step t rounds) (Fresh t rounds) w ops ↔ n + taken t rounds w ops ≤ 2 ^ 32 - 3 := by
  induction ops generalizing n w with
  | nil => exact iff_of_true trivial h.bound
  | cons op ops ih =>
    obtain ⟨j, hj, hmoves⟩ := @moves_step τ t rounds w op
    have hlen : (allocated w.client (w.step t rounds op).client).length = j := by
      simp [hmoves.allocated_eq hj]
    rw [StepsMeet, h.fresh_iff hmoves hj, taken, hlen, ← Nat.add_assoc]
    constructor
    · intro ⟨hle, hrest⟩
      exact (ih (h.moves hmoves hle)).mp hrest
    · intro hall
      have hle : n + j ≤ 2 ^ 32 - 3 := (Nat.le_add_right _ _).trans hall
      exact ⟨hle, (ih (h.moves hmoves hle)).mpr hall⟩

/-- The fids of a run are fresh exactly as long as it takes no more than there are
between the root and the fid that stands for none. The tags are always good. -/
theorem freshFids_iff (t : NinePTransport τ) (x : τ) (rounds : Nat) (ops : List ClientOp) :
    (StepsMeet (step t rounds) (Fresh t rounds) (init t x) ops ∧ ∀ s : ClientState τ, ∀ tag, (allocTag s).1 = .ok tag → tag ≠ notag) ↔
      taken t rounds (init t x) ops ≤ 2 ^ 32 - 3 := by
  rw [stepsMeet_fresh_iff (fidsGranted_init x), Nat.zero_add]
  exact and_iff_left fun s tag htag => allocTag_ne_notag s tag htag

/-- A call that takes a fid whatever came before. -/
theorem taken_replicate {op : ClientOp} {k : Nat} (hop : ∀ w : ClientWorld τ, (allocated w.client (w.step t rounds op).client).length = k)
    (n : Nat) (w : ClientWorld τ) : taken t rounds w (List.replicate n op) = n * k := by
  induction n generalizing w with
  | zero => simp [taken]
  | succ n ih => rw [List.replicate_succ, taken, hop, ih, Nat.succ_mul, Nat.add_comm]

/-- A server that refuses every request. -/
def refusingServer : NinePTransport Unit := NinePFile.scriptedServer fun _ => .lerror 2

/-- A look at a file takes its fid before the server is asked. -/
theorem stat_refusingServer (s : ClientState Unit) : (NinePClientFs.stat refusingServer "a" s).2.nextFid = s.nextFid + 1 := by
  have hcall : ∀ (request : NinePRequest) (s : ClientState Unit), requestFits request = true →
      ∃ e s', call refusingServer request s = (.err e, s') ∧ s'.nextFid = s.nextFid := by
    intro request s hfits
    obtain ⟨s', hcall⟩ := @NinePFile.call_scriptedServer (fun _ => .lerror 2) request hfits rfl s
    have hkeep := @preserves_call_nextFid Unit refusingServer request s
    rw [show call refusingServer request s = received (.lerror 2) s' from hcall] at hkeep
    exact ⟨_, s', hcall, hkeep⟩
  obtain ⟨e, s', hwalk, hnext⟩ := hcall (.walk rootFid s.nextFid ["a"]) { s with nextFid := s.nextFid + 1 } rfl
  have hrun : walkFid refusingServer "a" s = (.err e, s') := by
    have hfid : (allocFid s : Outcome Error UInt32 × ClientState Unit) = (.ok s.nextFid, { s with nextFid := s.nextFid + 1 }) := rfl
    rw [walkFid, show validatedClientPath "walk" "a" = .ok "a" from rfl, ofExcept_ok, pure_bind, bind_ok hfid]
    rw [show walkNames "a" = ["a"] by decide, bind_apply, hwalk]
  rw [NinePClientFs.stat, show validatedClientPath "stat" "a" = .ok "a" from rfl, ofExcept_ok, pure_bind, bind_apply, hrun]
  exact hnext

/-- A server that refuses everything drives the counter round. -/
theorem not_fresh_refusingServer :
    ¬ StepsMeet (step refusingServer 0) (Fresh refusingServer 0) (init refusingServer ()) (List.replicate (2 ^ 32 - 2) (.stat "a")) := by
  have hstat : ∀ w : ClientWorld Unit, (allocated w.client (w.step refusingServer 0 (.stat "a")).client).length = 1 := by
    intro w
    rw [allocated, show (w.step refusingServer 0 (.stat "a")).client.nextFid = w.client.nextFid + 1 from stat_refusingServer w.client]
    simp
  rw [stepsMeet_fresh_iff (fidsGranted_init ()), Nat.zero_add, taken_replicate hstat]
  omega

end ClientWorld
end Star9
