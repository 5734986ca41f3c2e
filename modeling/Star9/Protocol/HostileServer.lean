import Star9.Base.Aborts
import Star9.Base.Chain
import Star9.Protocol.ReadDirPages

/-!
# The client and a server that it cannot trust

Every reply of the server is arbitrary. A read survives it when the reply fits the
buffer of the caller. The loop of `read_dir` goes from the cursor of one reply to the
next and has no other bound, so it ends exactly when the chain of cursors does. The
loop behind `get_xattr` and `list_xattrs` goes on only while it gets bytes that are
missing, so it ends whatever the server sends.
-/
namespace Star9
open Base Prog

variable {τ : Type}

/-- The transport with a count of the round trips made over it. -/
def NinePTransport.counting (t : NinePTransport τ) : NinePTransport (τ × Nat) where
  roundTrip request := fun x => ((t.roundTrip request x.1).1, (t.roundTrip request x.1).2, x.2 + 1)

def ClientState.counted (s : ClientState τ) (n : Nat) : ClientState (τ × Nat) :=
  { transport := (s.transport, n), msize := s.msize, nextTag := s.nextTag, nextFid := s.nextFid }

namespace NinePClientFs
variable {t : NinePTransport τ} {α β : Type}

/-! ## Calls over a transport that counts -/

theorem allocTag_counted (s : ClientState τ) (n : Nat) :
    allocTag (s.counted n) = ((allocTag s).1, (allocTag s).2.counted n) := by
  unfold allocTag
  rw [show (s.counted n).nextTag = s.nextTag from rfl]
  split <;> rfl

theorem allocTag_ok (s : ClientState τ) : ∃ tag, allocTag s = (.ok tag, (allocTag s).2) := by
  unfold allocTag
  split
  · exact ⟨_, rfl⟩
  · exact ⟨_, rfl⟩

/-- A call makes at most one round trip, and one if it gets a reply. -/
theorem call_counted (request : NinePRequest) (s : ClientState τ) (n : Nat) : ∃ k ≤ 1,
    call t.counting request (s.counted n) = ((call t request s).1, (call t request s).2.counted (n + k)) ∧
      ∀ r, (call t request s).1 = .ok r → k = 1 := by
  obtain ⟨tag, htag⟩ := allocTag_ok s
  have hcounted : allocTag (s.counted n) = (.ok tag, (allocTag s).2.counted n) := by
    rw [allocTag_counted, htag]
  rw [call, bind_ok hcounted, call, bind_ok htag]
  generalize (allocTag s).2 = s₁
  cases encodeRequest tag request with
  | error e =>
    refine ⟨0, Nat.zero_le 1, rfl, fun r hr => ?_⟩
    exact absurd hr Outcome.err_ne_ok
  | ok frame =>
    refine ⟨1, le_rfl, ?_, fun _ _ => rfl⟩
    rw [ofExcept_ok, pure_bind, ofExcept_ok, pure_bind, bind_apply, bind_apply]
    rw [show onTransport (t.counting.roundTrip frame) (s₁.counted n) =
      ((onTransport (t.roundTrip frame) s₁).1, (onTransport (t.roundTrip frame) s₁).2.counted (n + 1)) from rfl]
    rcases onTransport (t.roundTrip frame) s₁ with ⟨reply | e | _, s₂⟩
    · dsimp only
      cases decodeResponse reply with
      | error e => rfl
      | ok r =>
        obtain ⟨rtag, r⟩ := r
        rw [ofExcept_ok, pure_bind, ofExcept_ok, pure_bind]
        dsimp only
        rw [branch_apply, branch_apply]
        split
        · rfl
        · cases r <;> rfl
    · rfl
    · rfl

/-! ## How many round trips a program makes -/

/-- From any state the program makes at most `n` round trips. -/
def Costs (n : Nat) (p : Prog (ClientState (τ × Nat)) Error α) : Prop := ∀ s, (p s).2.transport.2 ≤ s.transport.2 + n

section
variable {n m : Nat} {p q : Prog (ClientState (τ × Nat)) Error α} {f : α → Prog (ClientState (τ × Nat)) Error β}

theorem Costs.mono (h : Costs n p) (hle : n ≤ m) : Costs m p := fun s => (h s).trans (Nat.add_le_add_left hle _)

theorem costs_pure (a : α) : Costs 0 (pure a : Prog (ClientState (τ × Nat)) Error α) := fun _ => le_rfl

theorem costs_throw (e : Error) : Costs 0 (throw e : Prog (ClientState (τ × Nat)) Error α) := fun _ => le_rfl

theorem costs_ofExcept (x : Except Error α) : Costs 0 (Prog.ofExcept x : Prog (ClientState (τ × Nat)) Error α) := by
  cases x with
  | ok a => exact costs_pure a
  | error e => exact costs_throw e

theorem costs_allocFid : Costs 0 (allocFid : Prog (ClientState (τ × Nat)) Error UInt32) := fun _ => le_rfl

theorem costs_bind (hp : Costs n p) (hf : ∀ a, Costs m (f a)) : Costs (n + m) (p >>= f) := by
  intro s
  have hs := hp s
  rw [bind_apply]
  rcases h : p s with ⟨a | e | _, s₁⟩ <;> rw [h] at hs
  · have hrest := hf a s₁
    dsimp only at hs ⊢
    omega
  · dsimp only at hs ⊢
    omega
  · dsimp only at hs ⊢
    omega

theorem costs_attempt (hp : Costs n p) : Costs n (attempt p) := by
  intro s
  rw [attempt_state]
  exact hp s

end

theorem costs_call (request : NinePRequest) : Costs 1 (call t.counting request) := by
  intro s
  obtain ⟨k, hk, hcall, -⟩ := @call_counted τ t request
    ({ transport := s.transport.1, msize := s.msize, nextTag := s.nextTag, nextFid := s.nextFid } : ClientState τ) s.transport.2
  have hcount := congrArg (fun r => r.2.transport.2) hcall
  refine (Nat.le_of_eq hcount).trans ?_
  exact Nat.add_le_add_left hk _

/-- A call and a look at its reply. -/
theorem costs_asked {f : NinePResponse → Prog (ClientState (τ × Nat)) Error α} (request : NinePRequest) (hf : ∀ r, Costs 0 (f r)) :
    Costs 1 (call t.counting request >>= f) := costs_bind (costs_call request) hf

theorem costs_clunkFid (fid : UInt32) : Costs 1 (clunkFid t.counting fid) := by
  refine costs_asked _ fun r => ?_
  split
  · exact costs_pure _
  · exact costs_throw _

theorem costs_clunkAndThrow (fid : UInt32) (e : Error) : Costs 1 (clunkAndThrow t.counting fid e : Prog _ _ α) :=
  costs_bind (costs_attempt (costs_clunkFid fid)) fun _ => costs_throw e

theorem costs_thenClunk {n : Nat} {p : Prog (ClientState (τ × Nat)) Error α} (fid : UInt32) (hp : Costs n p) :
    Costs (n + 1) (thenClunk t.counting fid p) :=
  costs_bind (costs_attempt hp) fun _ => costs_bind (costs_attempt (costs_clunkFid fid)) fun _ =>
    costs_bind (costs_ofExcept _) fun _ => costs_bind (costs_ofExcept _) fun _ => costs_pure _

theorem costs_walkFid (name : String) : Costs 2 (walkFid t.counting name) := by
  refine Costs.mono (n := 0 + (0 + (1 + 1))) ?_ (by omega)
  refine costs_bind (costs_ofExcept _) fun name => costs_bind costs_allocFid fun fid => costs_bind (costs_call _) fun r => ?_
  unfold walked
  split
  · split
    · exact (costs_pure _).mono (Nat.zero_le 1)
    · exact costs_clunkAndThrow fid _
  · exact (costs_throw _).mono (Nat.zero_le 1)

theorem costs_xattrwalkFid (path attr : String) : Costs 5 (xattrwalkFid t.counting path attr) := by
  refine Costs.mono (n := 2 + (0 + (2 + 1))) ?_ (by omega)
  refine costs_bind (costs_walkFid path) fun fid => costs_bind costs_allocFid fun newfid => ?_
  have hcall : Costs 1 (xattrwalkCall t.counting fid newfid attr) := by
    refine costs_asked _ fun r => ?_
    split
    · exact costs_pure _
    · exact costs_throw _
  refine costs_bind (costs_attempt (costs_thenClunk fid hcall)) fun r => ?_
  split
  · exact (costs_pure _).mono (Nat.zero_le 1)
  · exact costs_clunkAndThrow newfid _

/-! ## Reading a whole attribute -/

theorem costs_readChunk (fid : UInt32) (offset : UInt64) (count : UInt32) : Costs 1 (readChunk t.counting fid offset count) := by
  refine costs_asked _ fun r => ?_
  split
  · exact costs_pure _
  · exact costs_throw _

/-- A chunk that the loop takes moves the offset forward. -/
theorem add_chunk_toNat {offset : UInt64} {chunk : Bytes} (hfits : ¬ 2 ^ 64 ≤ offset.toNat + chunk.length) :
    (offset + UInt64.ofNat chunk.length).toNat = offset.toNat + chunk.length := by
  rw [UInt64.toNat_add, UInt64.toNat_ofNat']
  omega

/-- However many rounds the loop may take, it makes no more round trips than bytes are missing. -/
theorem costs_readAllLoop (fid : UInt32) (size : UInt64) (count : UInt32) (rounds : Nat) (offset : UInt64) (data : Bytes) :
    Costs (size.toNat - offset.toNat) (readAllLoop t.counting fid size count rounds offset data) := by
  induction rounds generalizing offset data with
  | zero => exact (costs_pure _).mono (Nat.zero_le _)
  | succ rounds ih =>
    rw [readAllLoop]
    split
    case isFalse => exact (costs_pure _).mono (Nat.zero_le _)
    case isTrue hmissing =>
      have hlt : offset.toNat < size.toNat := UInt64.lt_iff_toNat_lt.mp hmissing
      refine (costs_bind (m := size.toNat - offset.toNat - 1) (costs_readChunk _ _ _) fun chunk => ?_).mono (by omega)
      split
      case isTrue => exact (costs_throw _).mono (Nat.zero_le _)
      case isFalse hchunk =>
        split
        case isTrue => exact (costs_throw _).mono (Nat.zero_le _)
        case isFalse hfits =>
          have hpos := List.length_pos_iff.mpr hchunk
          refine (ih _ _).mono ?_
          rw [add_chunk_toNat hfits]
          omega

/-- More rounds than bytes are missing change nothing: the loop ends by itself. -/
theorem readAllLoop_rounds (fid : UInt32) (size : UInt64) (count : UInt32) (rounds more : Nat) (offset : UInt64) (data : Bytes)
    (henough : size.toNat - offset.toNat ≤ rounds) :
    readAllLoop t fid size count (rounds + more) offset data = readAllLoop t fid size count rounds offset data := by
  induction rounds generalizing offset data with
  | zero =>
    have hdone : ¬ offset < size := by
      rw [UInt64.lt_iff_toNat_lt]
      omega
    cases more with
    | zero => rfl
    | succ more => rw [Nat.zero_add, readAllLoop, readAllLoop, if_neg hdone]
  | succ rounds ih =>
    rw [Nat.add_right_comm, readAllLoop, readAllLoop]
    split
    case isFalse => rfl
    case isTrue hmissing =>
      have hlt : offset.toNat < size.toNat := UInt64.lt_iff_toNat_lt.mp hmissing
      dsimp only
      refine bind_congr fun chunk => ?_
      split
      case isTrue => rfl
      case isFalse hchunk =>
        split
        case isTrue => rfl
        case isFalse hfits =>
          have hpos := List.length_pos_iff.mpr hchunk
          refine ih _ _ ?_
          rw [add_chunk_toNat hfits]
          omega

theorem costs_readAllFid (fid : UInt32) (size : UInt64) : Costs (2 ^ 64) (readAllFid t.counting fid size) := by
  intro s
  have hsize := size.toNat_lt
  have hloop := @costs_readAllLoop τ t fid size (max (saturatingSub s.msize 11) 1) size.toNat 0 [] s
  rw [readAllFid, get_bind]
  refine hloop.trans ?_
  omega

theorem costs_getXattr (path attr : String) : Costs (2 ^ 64 + 6) (getXattr t.counting path attr) := by
  refine (costs_bind (costs_ofExcept _) fun path => costs_bind (costs_xattrwalkFid path attr) fun r =>
    costs_thenClunk _ (costs_readAllFid _ _)).mono ?_
  omega

theorem costs_listXattrs (path : String) : Costs (2 ^ 64 + 6) (listXattrs t.counting path) := by
  refine (costs_bind (costs_ofExcept _) fun path => costs_bind (costs_xattrwalkFid path "") fun r =>
    costs_thenClunk _ (costs_bind (costs_readAllFid _ _) fun _ => costs_ofExcept _)).mono ?_
  omega

end NinePClientFs

namespace NinePFile
open NinePClientFs

section
variable (t : NinePTransport τ)

/-! ## The cursors of a directory -/

/-- The cursor of the last entry in the reply to a cursor, if the loop goes on with it. -/
def nextCursor (fid : UInt32) (count : UInt32) (at_ : UInt64 × ClientState τ) : Option (UInt64 × ClientState τ) :=
  match call t (.readdir fid at_.1 count) at_.2 with
  | (.ok (.readdir data), s) =>
    if data = [] then none
    else match decodeDirents data with
      | .ok dirents => dirents.getLast?.map fun last => (last.offset, s)
      | .error _ => none
  | _ => none

/-- The cursors that a listing from the start goes through come to an end. -/
def CursorsEnd (fid : UInt32) (s : ClientState τ) : Prop :=
  ∃ k, follow (nextCursor t fid (saturatingSub s.msize 24)) (0, s) k = none

end

variable {t : NinePTransport τ} {fid : UInt32} {count : UInt32}

theorem readdirChunk_counted (offset : UInt64) (s : ClientState τ) (n : Nat) : ∃ k ≤ 1,
    readdirChunk t.counting fid offset count (s.counted n) =
      ((readdirChunk t fid offset count s).1, (readdirChunk t fid offset count s).2.counted (n + k)) ∧
      ∀ data, (readdirChunk t fid offset count s).1 = .ok data → k = 1 := by
  obtain ⟨k, hk, hcall, hreply⟩ := @call_counted τ t (.readdir fid offset count) s n
  refine ⟨k, hk, ?_, ?_⟩
  · rw [readdirChunk, bind_apply, hcall, readdirChunk, bind_apply]
    rcases call t (.readdir fid offset count) s with ⟨r | e | _, s₁⟩
    · cases r <;> rfl
    · rfl
    · rfl
  · intro data hdata
    rw [readdirChunk, bind_fst_eq_ok] at hdata
    obtain ⟨r, s₁, hr, -⟩ := hdata
    exact hreply r (by rw [hr])

/-- One round of the loop, on the transport that counts: it goes on from the next cursor
behind one more round trip, or it is the last. -/
theorem readDirLoop_counted (rounds : Nat) (offset : UInt64) (entries : List DirEntry) (s : ClientState τ) (n : Nat) :
    (∃ next entries', nextCursor t fid count (offset, s) = some next ∧
      readDirLoop t.counting fid count (rounds + 1) offset entries (s.counted n) =
        readDirLoop t.counting fid count rounds next.1 entries' (next.2.counted (n + 1))) ∨
    (nextCursor t fid count (offset, s) = none ∧
      (readDirLoop t.counting fid count (rounds + 1) offset entries (s.counted n)).2.transport.2 ≤ n + 1) := by
  obtain ⟨k, hk, hchunk, hreply⟩ := @readdirChunk_counted τ t fid count offset s n
  have hlast : ∀ (o : Outcome Error (List DirEntry)) (s₁ : ClientState τ),
      ((o, s₁.counted (n + k)) : Outcome Error (List DirEntry) × _).2.transport.2 ≤ n + 1 :=
    fun _ _ => Nat.add_le_add_left hk n
  rw [readDirLoop, bind_apply, hchunk, nextCursor]
  rcases hcall : call t (.readdir fid offset count) s with ⟨r | e | _, s₁⟩
  · cases r with
    | readdir data =>
      have hrun : readdirChunk t fid offset count s = (.ok data, s₁) := by
        rw [readdirChunk, bind_ok hcall]
        rfl
      have hone : k = 1 := hreply data (by rw [hrun])
      subst hone
      rw [hrun]
      dsimp only
      rw [branch_apply]
      by_cases hnil : data = []
      · rw [if_pos hnil, if_pos hnil]
        exact Or.inr ⟨rfl, le_rfl⟩
      · rw [if_neg hnil, if_neg hnil]
        cases decodeDirents data with
        | error e => exact Or.inr ⟨rfl, le_rfl⟩
        | ok dirents =>
          rw [ofExcept_ok, pure_bind]
          dsimp only
          cases dirents.getLast? with
          | none => exact Or.inr ⟨rfl, le_rfl⟩
          | some last => exact Or.inl ⟨_, _, rfl, rfl⟩
    | _ =>
      have hrun : readdirChunk t fid offset count s = (.err (.kind .invalid), s₁) := by
        rw [readdirChunk, bind_ok hcall]
        rfl
      rw [hrun]
      exact Or.inr ⟨rfl, hlast (.err _) _⟩
  · have hrun : readdirChunk t fid offset count s = (.err e, s₁) := by rw [readdirChunk, bind_err hcall]
    rw [hrun]
    exact Or.inr ⟨rfl, hlast (.err _) _⟩
  · have hrun : readdirChunk t fid offset count s = (.abort, s₁) := by rw [readdirChunk, bind_abort hcall]
    rw [hrun]
    exact Or.inr ⟨rfl, hlast .abort _⟩

/-- A chain of cursors that ends bounds the round trips. -/
theorem readDirLoop_of_ends {offset : UInt64} {s : ClientState τ} {k : Nat} (hend : follow (nextCursor t fid count) (offset, s) k = none)
    (rounds : Nat) (entries : List DirEntry) (n : Nat) :
    (readDirLoop t.counting fid count rounds offset entries (s.counted n)).2.transport.2 ≤ n + k := by
  induction k generalizing offset s rounds entries n with
  | zero => cases hend
  | succ k ih =>
    cases rounds with
    | zero => exact Nat.le_add_right n _
    | succ rounds =>
      rcases @readDirLoop_counted τ t fid count rounds offset entries s n with
        ⟨next, entries', hnext, hrun⟩ | ⟨-, hle⟩
      · rw [follow_succ_of_next hnext] at hend
        rw [hrun]
        have htrips := ih hend rounds entries' (n + 1)
        omega
      · omega

/-- As long as the chain goes on, every round makes its round trip. -/
theorem readDirLoop_of_goes_on {offset : UInt64} {s : ClientState τ} {rounds : Nat}
    (hlong : (follow (nextCursor t fid count) (offset, s) rounds).isSome) (entries : List DirEntry) (n : Nat) :
    (readDirLoop t.counting fid count rounds offset entries (s.counted n)).2.transport.2 = n + rounds := by
  induction rounds generalizing offset s entries n with
  | zero => rfl
  | succ rounds ih =>
    rw [follow_succ] at hlong
    rcases @readDirLoop_counted τ t fid count rounds offset entries s n with
      ⟨next, entries', hnext, hrun⟩ | ⟨hnext, -⟩
    · rw [hnext] at hlong
      rw [hrun, ih hlong]
      omega
    · rw [hnext] at hlong
      cases hlong

/-- However many rounds the loop may take, it makes boundedly many round trips exactly
when the cursors come to an end. -/
theorem readDirLoop_finite_iff (s : ClientState τ) :
    (∃ n, ∀ rounds, (readDirLoop t.counting fid count rounds 0 [] (s.counted 0)).2.transport.2 ≤ n) ↔
      ∃ k, follow (nextCursor t fid count) (0, s) k = none := by
  constructor
  · rintro ⟨n, hn⟩
    by_contra hno
    have hlong : (follow (nextCursor t fid count) (0, s) (n + 1)).isSome :=
      Option.isSome_iff_ne_none.mpr fun h => hno ⟨n + 1, h⟩
    have htrips := readDirLoop_of_goes_on hlong [] 0
    have hbound := hn (n + 1)
    omega
  · rintro ⟨k, hk⟩
    refine ⟨k, fun rounds => ?_⟩
    have htrips := readDirLoop_of_ends hk rounds [] 0
    omega

/-! ## Listings and reads -/

/-- A listing that is not in the handle yet makes the round trips of the loop. -/
theorem readDir_trips (f : NinePFile) (s : ClientState τ) (rounds : Nat) (count : Int) :
    (NinePFile.readDir t.counting rounds count (f, s.counted 0)).2.2.transport.2 =
      if f.closed = false ∧ f.dirCache = none then
        (readDirLoop t.counting f.fid (saturatingSub s.msize 24) rounds 0 [] (s.counted 0)).2.transport.2
      else 0 := by
  have hrest : ∀ entries : List DirEntry, Preserves (fun x : NinePFile × ClientState (τ × Nat) => x.2.transport.2) (do
      let f ← file
      if count < 0 then do
        update fun f => { f with dirOffset := entries.length }
        pure entries
      else if entries.length ≤ f.dirOffset then pure []
      else do
        let stop := if count = 0 then entries.length else min (f.dirOffset + count.toNat) entries.length
        update fun f => { f with dirOffset := stop }
        pure ((entries.take stop).drop f.dirOffset) : Prog (NinePFile × ClientState (τ × Nat)) Error (List DirEntry)) := fun entries =>
    preserves_bind (preserves_reads _) fun f => preserves_ite (preserves_bind (preserves_modify fun _ => rfl) fun _ => preserves_pure _)
      (preserves_ite (preserves_pure _) (preserves_bind (preserves_modify fun _ => rfl) fun _ => preserves_pure _))
  cases hopen : f.closed with
  | true =>
    have hensure : ensureOpen (f, s.counted 0) = (.err (.kind .closed), (f, s.counted 0)) := by
      simp [ensureOpen, bind_apply, file, reads_apply, hopen]
    rw [NinePFile.readDir, bind_err hensure]
    simp [ClientState.counted]
  | false =>
    have hensure : ensureOpen (f, s.counted 0) = (.ok (), (f, s.counted 0)) := by
      simp [ensureOpen, bind_apply, file, reads_apply, hopen]
    rw [NinePFile.readDir, bind_ok hensure]
    cases hcache : f.dirCache with
    | some entries =>
      have hcached : cachedEntries t.counting rounds (f, s.counted 0) = (.ok entries, (f, s.counted 0)) := by
        simp [cachedEntries, bind_apply, file, reads_apply, hcache]
      rw [bind_ok hcached]
      refine (hrest entries (f, s.counted 0)).trans ?_
      simp [ClientState.counted]
    | none =>
      have hcached : cachedEntries t.counting rounds (f, s.counted 0) =
          (onClient (readDirLoop t.counting f.fid (saturatingSub s.msize 24) rounds 0 []) >>= fun entries =>
            update (fun f => { f with dirCache := some entries }) >>= fun _ => pure entries : Prog _ _ _) (f, s.counted 0) := by
        simp only [cachedEntries, bind_apply, file, reads_apply, hcache]
        rfl
      rw [if_pos ⟨rfl, rfl⟩, bind_apply, hcached, bind_apply, onClient, zoom_apply]
      rcases readDirLoop t.counting f.fid (saturatingSub s.msize 24) rounds 0 [] (s.counted 0) with ⟨entries | e | _, s₁⟩
      · exact hrest entries _
      · rfl
      · rfl

/-- The transport hands bytes or an error back. -/
def Answers (t : NinePTransport τ) : Prop := ∀ request, Calm (t.roundTrip request)

theorem calm_call (ht : Answers t) (request : NinePRequest) : Calm (call t request) := by
  refine calm_bind ?_ fun tag => calm_bind (calm_ofExcept _) fun frame => calm_bind (calm_zoom (ht frame)) fun reply =>
    calm_bind (calm_ofExcept _) fun r => calm_ite (calm_throw _) ?_
  · intro s
    obtain ⟨tag, htag⟩ := allocTag_ok s
    rw [Aborts, htag]
    exact Outcome.ok_ne_abort
  · unfold received
    split
    · exact calm_throw _
    · exact calm_pure _

/-- A read comes back with bytes that fit the buffer, or with an error. -/
def FitsBuffer (len : Nat) (o : Outcome Error Bytes) : Prop := o ≠ .abort ∧ ∀ data, o = .ok data → data.length ≤ len

/-- The reply to a read request fits the buffer. -/
def ReplyFits (t : NinePTransport τ) (fid : UInt32) (len : Nat) (offset : UInt64) (s : ClientState τ) : Prop :=
  len < 2 ^ 32 → ∀ data, (call t (.read fid offset (UInt32.ofNat len)) s).1 = .ok (.read data) → data.length ≤ len

theorem readFrom_fits_iff (ht : Answers t) (f : NinePFile) (s : ClientState τ) (len : Nat) (offset : UInt64) :
    FitsBuffer len (readFrom t offset len (f, s)).1 ↔ ReplyFits t f.fid len offset s := by
  rw [readFrom, bind_ok (show file (f, s) = (.ok f, (f, s)) from rfl), branch_apply, ReplyFits]
  by_cases hlen : 2 ^ 32 ≤ len
  · rw [if_pos hlen]
    refine iff_of_true ⟨Outcome.err_ne_abort, fun data h => absurd h Outcome.err_ne_ok⟩ fun hlt => ?_
    omega
  · rw [if_neg hlen, imp_iff_right (by omega), bind_apply, onClient, zoom_apply, readChunk, bind_apply]
    have hcalm := calm_call ht (.read f.fid offset (UInt32.ofNat len)) s
    rcases hcall : call t (.read f.fid offset (UInt32.ofNat len)) s with ⟨r | e | _, s₁⟩
    · cases r with
      | read data =>
        dsimp only [pure_apply]
        rw [branch_apply]
        split
        case isTrue hlong =>
          refine iff_of_false (fun h => h.1 rfl) fun h => ?_
          exact absurd (h data rfl) (by omega)
        case isFalse hshort =>
          refine iff_of_true ⟨Outcome.ok_ne_abort, fun d h => ?_⟩ fun d h => ?_
          · cases h
            omega
          · cases h
            omega
      | _ => exact iff_of_true ⟨Outcome.err_ne_abort, fun data h => absurd h Outcome.err_ne_ok⟩ fun data h => by cases h
    · exact iff_of_true ⟨Outcome.err_ne_abort, fun data h => absurd h Outcome.err_ne_ok⟩ fun data h => absurd h Outcome.err_ne_ok
    · rw [Aborts, hcall] at hcalm
      exact absurd rfl hcalm

theorem readAt_fits_iff (ht : Answers t) (f : NinePFile) (s : ClientState τ) (len : Nat) (offset : UInt64) :
    FitsBuffer len (NinePFile.readAt t len offset (f, s)).1 ↔ (f.closed = false → ReplyFits t f.fid len offset s) := by
  cases hopen : f.closed with
  | true =>
    have hensure : ensureOpen (f, s) = (.err (.kind .closed), (f, s)) := by
      simp [ensureOpen, bind_apply, file, reads_apply, hopen]
    rw [NinePFile.readAt, bind_err hensure]
    exact iff_of_true ⟨Outcome.err_ne_abort, fun data h => absurd h Outcome.err_ne_ok⟩ fun h => by cases h
  | false =>
    have hensure : ensureOpen (f, s) = (.ok (), (f, s)) := by
      simp [ensureOpen, bind_apply, file, reads_apply, hopen]
    rw [NinePFile.readAt, bind_ok hensure, readFrom_fits_iff ht, imp_iff_right rfl]

/-- A read at the position of the file gives what a read at that offset gives. -/
theorem read_fst (f : NinePFile) (s : ClientState τ) (len : Nat) :
    (NinePFile.read t len (f, s)).1 = (NinePFile.readAt t len f.offset (f, s)).1 := by
  cases hopen : f.closed with
  | true =>
    have hensure : ensureOpen (f, s) = (.err (.kind .closed), (f, s)) := by
      simp [ensureOpen, bind_apply, file, reads_apply, hopen]
    rw [NinePFile.read, NinePFile.readAt, bind_err hensure, bind_err hensure]
  | false =>
    have hensure : ensureOpen (f, s) = (.ok (), (f, s)) := by
      simp [ensureOpen, bind_apply, file, reads_apply, hopen]
    rw [NinePFile.read, NinePFile.readAt, bind_ok hensure, bind_ok hensure, bind_ok (show file (f, s) = (.ok f, (f, s)) from rfl),
      bind_apply]
    rcases readFrom t f.offset len (f, s) with ⟨data | e | _, x⟩ <;> rfl

/-! ## Any server -/

/-- The replies to Readdir requests carry finitely many different byte strings. -/
def FewListings (t : NinePTransport τ) : Prop :=
  {data | ∃ fid offset count s, (call t (.readdir fid offset count) s).1 = .ok (.readdir data)}.Finite

/-- What the calls on an open file and the attribute calls promise of any server. -/
structure SurvivesServer (t : NinePTransport τ) (f : NinePFile) (s : ClientState τ) : Prop where
  read : ∀ len, FitsBuffer len (NinePFile.read t len (f, s)).1
  readAt : ∀ len offset, FitsBuffer len (NinePFile.readAt t len offset (f, s)).1
  readDir : FewListings t → ∀ count, ∃ n, ∀ rounds, (NinePFile.readDir t.counting rounds count (f, s.counted 0)).2.2.transport.2 ≤ n
  readAll : ∀ fid size count rounds, (readAllLoop t.counting fid size count rounds 0 [] (s.counted 0)).2.transport.2 ≤ size.toNat
  getXattr : ∀ path attr, (getXattr t.counting path attr (s.counted 0)).2.transport.2 ≤ 2 ^ 64 + 6
  listXattrs : ∀ path, (listXattrs t.counting path (s.counted 0)).2.transport.2 ≤ 2 ^ 64 + 6

/-- The client survives a server exactly when its replies to reads fit the buffers and its
replies to a listing come to an end. -/
theorem survivesServer_iff (t : NinePTransport τ) (ht : Answers t) (f : NinePFile) (s : ClientState τ) :
    SurvivesServer t f s ↔ (f.closed = false → (∀ len offset, ReplyFits t f.fid len offset s) ∧
      (FewListings t → f.dirCache = none → CursorsEnd t f.fid s)) := by
  have hlisting : ∀ count, (∃ n, ∀ rounds, (NinePFile.readDir t.counting rounds count (f, s.counted 0)).2.2.transport.2 ≤ n) ↔
      (f.closed = false → f.dirCache = none → CursorsEnd t f.fid s) := by
    intro count
    by_cases hfetch : f.closed = false ∧ f.dirCache = none
    · rw [imp_iff_right hfetch.1, imp_iff_right hfetch.2, CursorsEnd, ← readDirLoop_finite_iff]
      refine exists_congr fun n => forall_congr' fun rounds => ?_
      rw [readDir_trips, if_pos hfetch]
    · refine iff_of_true ⟨0, fun rounds => ?_⟩ fun hopen hcache => absurd ⟨hopen, hcache⟩ hfetch
      rw [readDir_trips, if_neg hfetch]
  constructor
  · intro h hopen
    refine ⟨fun len offset => (readAt_fits_iff ht f s len offset).mp (h.readAt len offset) hopen, fun hfew hcache => ?_⟩
    exact (hlisting 0).mp (h.readDir hfew 0) hopen hcache
  · intro h
    have hat : ∀ len offset, FitsBuffer len (NinePFile.readAt t len offset (f, s)).1 := fun len offset =>
      (readAt_fits_iff ht f s len offset).mpr fun hopen => (h hopen).1 len offset
    refine ⟨fun len => ?_, hat, fun hfew count => (hlisting count).mpr fun hopen => (h hopen).2 hfew, ?_, ?_, ?_⟩
    · rw [read_fst]
      exact hat len f.offset
    · intro fid size count rounds
      refine (costs_readAllLoop fid size count rounds 0 [] (s.counted 0)).trans ?_
      simp [ClientState.counted]
    · intro path attr
      refine (costs_getXattr path attr (s.counted 0)).trans ?_
      simp [ClientState.counted]
    · intro path
      refine (costs_listXattrs path (s.counted 0)).trans ?_
      simp [ClientState.counted]

/-! ## Servers without a memory -/

/-- A server whose listings only depend on the cursor ends a listing exactly when its
cursors do not come back to one. -/
theorem cursorsEnd_iff_of_steady (next : UInt64 → Option UInt64)
    (hsteady : ∀ offset s, (nextCursor t fid count (offset, s)).map Prod.fst = next offset) (s : ClientState τ) :
    (∃ k, follow (nextCursor t fid count) (0, s) k = none) ↔ ¬ Returning next 0 := by
  have hfollow : ∀ k offset s, (follow (nextCursor t fid count) (offset, s) k).map Prod.fst = follow next offset k := by
    intro k
    induction k with
    | zero => exact fun _ _ => rfl
    | succ k ih =>
      intro offset s
      rw [follow_succ, follow_succ, ← hsteady offset s]
      cases nextCursor t fid count (offset, s) with
      | none => rfl
      | some x => exact ih x.1 x.2
  have hpoints : ∀ q, (next q).isSome → q ∈ (List.range (2 ^ 64)).map UInt64.ofNat := fun q _ =>
    List.mem_map.mpr ⟨q.toNat, List.mem_range.mpr q.toNat_lt, UInt64.ofNat_toNat⟩
  rw [← follow_eq_none_iff hpoints]
  refine exists_congr fun k => ?_
  rw [← hfollow k 0 s, Option.map_eq_none_iff]

/-- A server that answers by the request alone. -/
def scriptedServer (answer : NinePRequest → NinePResponse) : NinePTransport Unit where
  roundTrip frame := do
    let (tag, request) ← Prog.ofExcept (decodeRequest frame)
    Prog.ofExcept (encodeResponse tag (answer request))

theorem answers_scriptedServer (answer : NinePRequest → NinePResponse) : Answers (scriptedServer answer) := fun _ =>
  calm_bind (calm_ofExcept _) fun _ => calm_ofExcept _

/-- Answers that can be encoded are received. -/
theorem call_scriptedServer {answer : NinePRequest → NinePResponse} {request : NinePRequest} (hrequest : requestFits request = true)
    (hanswer : responseFits (answer request) = true) (s : ClientState Unit) :
    ∃ s', call (scriptedServer answer) request s = received (answer request) s' := by
  obtain ⟨tag, htag⟩ := allocTag_ok s
  obtain ⟨frame, hframe⟩ := encodeRequest_of_fits hrequest tag
  obtain ⟨reply, hreply⟩ := encodeResponse_of_fits hanswer tag
  refine ⟨(allocTag s).2, ?_⟩
  rw [call, bind_ok htag, hframe, ofExcept_ok, pure_bind]
  generalize (allocTag s).2 = s₁
  have hround : onTransport ((scriptedServer answer).roundTrip frame) s₁ = (.ok reply, s₁) := by
    rw [onTransport, zoom_apply, scriptedServer]
    dsimp only
    rw [encodeRequest_eq_ok_iff.mp hframe, ofExcept_ok, pure_bind]
    dsimp only
    rw [hreply]
    rfl
  rw [bind_ok hround, encodeResponse_eq_ok_iff.mp hreply, ofExcept_ok, pure_bind]
  dsimp only
  rw [branch_apply, if_neg (not_not.mpr rfl)]

/-- A listing of one entry, and the cursor behind it. -/
def oneEntry (cursor name : UInt8) : Bytes :=
  [0, 0, 0, 0, 0, 1, 0, 0, 0, 0, 0, 0, 0] ++ [cursor, 0, 0, 0, 0, 0, 0, 0] ++ [8] ++ [1, 0, name]

def pageAt (offset : UInt64) : Bytes := if offset = 0 then oneEntry 1 97 else if offset = 1 then oneEntry 2 98 else []

/-- Three bytes to read, and a listing of two pages. -/
def pagedAnswer : NinePRequest → NinePResponse
  | .read _ _ count => .read ([7, 8, 9].take count.toNat)
  | .readdir _ offset _ => .readdir (pageAt offset)
  | _ => .lerror 38

def nextPage (offset : UInt64) : Option UInt64 := if offset = 0 then some 1 else if offset = 1 then some 2 else none

theorem call_pagedServer_readdir (fid count : UInt32) (offset : UInt64) (s : ClientState Unit) :
    ∃ s', call (scriptedServer pagedAnswer) (.readdir fid offset count) s = received (.readdir (pageAt offset)) s' := by
  have hfits : responseFits (.readdir (pageAt offset)) = true := by
    unfold pageAt
    split_ifs <;> rfl
  exact @call_scriptedServer pagedAnswer (.readdir fid offset count) rfl hfits s

theorem nextCursor_pagedServer (fid count : UInt32) (offset : UInt64) (s : ClientState Unit) :
    (nextCursor (scriptedServer pagedAnswer) fid count (offset, s)).map Prod.fst = nextPage offset := by
  obtain ⟨s', hcall⟩ := call_pagedServer_readdir fid count offset s
  rw [nextCursor, hcall, pageAt, nextPage]
  split_ifs <;> rfl

theorem survivesServer_pagedServer : Answers (scriptedServer pagedAnswer) ∧ FewListings (scriptedServer pagedAnswer) ∧
    SurvivesServer (scriptedServer pagedAnswer) (NinePFile.new 2 "dir") (ClientState.new ()) := by
  refine ⟨answers_scriptedServer _, ?_, (survivesServer_iff (scriptedServer pagedAnswer) (answers_scriptedServer _) _ _).mpr fun _ => ⟨?_, ?_⟩⟩
  · refine Set.Finite.subset (Set.toFinite {oneEntry 1 97, oneEntry 2 98, []}) ?_
    rintro data ⟨fid, offset, count, s, hdata⟩
    obtain ⟨s', hcall⟩ := call_pagedServer_readdir fid count offset s
    rw [hcall] at hdata
    cases hdata
    unfold pageAt
    split_ifs <;> simp
  · intro len offset hlen data hdata
    have hfits : ∀ n, responseFits (.read ([7, 8, 9].take n)) = true
      | 0 | 1 | 2 => rfl
      | n + 3 => by
        rw [List.take_of_length_le (by simp)]
        rfl
    obtain ⟨s', hcall⟩ := @call_scriptedServer pagedAnswer (.read (NinePFile.new 2 "dir").fid offset (UInt32.ofNat len)) rfl (hfits _)
      (ClientState.new ())
    rw [hcall] at hdata
    cases hdata
    rw [List.length_take]
    exact (Nat.min_le_left _ _).trans (by rw [UInt32.toNat_ofNat', Nat.mod_eq_of_lt hlen])
  · intro _ _
    refine (cursorsEnd_iff_of_steady nextPage (nextCursor_pagedServer _ _) _).mpr ?_
    have hpoints : ∀ q, (nextPage q).isSome → q ∈ [0, 1] := by
      intro q hq
      unfold nextPage at hq
      split_ifs at hq <;> simp_all
    exact (follow_eq_none_iff hpoints).mp ⟨3, by decide⟩

/-- One byte for every read, and the same entry for every listing. -/
def stuckAnswer : NinePRequest → NinePResponse
  | .read .. => .read [0]
  | .readdir .. => .readdir (oneEntry 1 97)
  | _ => .lerror 38

theorem nextCursor_stuckServer (fid count : UInt32) (offset : UInt64) (s : ClientState Unit) :
    (nextCursor (scriptedServer stuckAnswer) fid count (offset, s)).map Prod.fst = some 1 := by
  obtain ⟨s', hcall⟩ := @call_scriptedServer stuckAnswer (.readdir fid offset count) rfl rfl s
  rw [nextCursor, hcall]
  rfl

/-- The listing of a server that repeats itself makes as many round trips as it is let. -/
theorem survivesServer_stuckServer : Answers (scriptedServer stuckAnswer) ∧ FewListings (scriptedServer stuckAnswer) ∧
    ¬ FitsBuffer 0 (NinePFile.readAt (scriptedServer stuckAnswer) 0 0 (NinePFile.new 2 "dir", ClientState.new ())).1 ∧
    ¬ ∃ n, ∀ rounds, (NinePFile.readDir (scriptedServer stuckAnswer).counting rounds (-1)
      (NinePFile.new 2 "dir", (ClientState.new ()).counted 0)).2.2.transport.2 ≤ n := by
  refine ⟨answers_scriptedServer _, ?_, ?_, ?_⟩
  · refine Set.Finite.subset (Set.finite_singleton
      (oneEntry 1 97)) ?_
    rintro data ⟨fid, offset, count, s, hdata⟩
    obtain ⟨s', hcall⟩ := @call_scriptedServer stuckAnswer (.readdir fid offset count) rfl rfl s
    rw [hcall] at hdata
    cases hdata
    rfl
  · rw [readAt_fits_iff (answers_scriptedServer _)]
    intro h
    obtain ⟨s', hcall⟩ := @call_scriptedServer stuckAnswer (.read (NinePFile.new 2 "dir").fid 0 (UInt32.ofNat 0)) rfl rfl
      (ClientState.new ())
    have hfits := h rfl (by decide) [0] (by rw [hcall]; rfl)
    exact absurd hfits (by decide)
  · rintro ⟨n, hn⟩
    have hloop : ∃ n, ∀ rounds, (readDirLoop (scriptedServer stuckAnswer).counting 2 (saturatingSub defaultMsize 24) rounds 0 []
        ((ClientState.new ()).counted 0)).2.transport.2 ≤ n := by
      refine ⟨n, fun rounds => ?_⟩
      have htrips := hn rounds
      rw [readDir_trips, if_pos ⟨rfl, rfl⟩] at htrips
      exact htrips
    rw [readDirLoop_finite_iff,
      cursorsEnd_iff_of_steady (fun _ => some 1) (nextCursor_stuckServer 2 (saturatingSub defaultMsize 24))] at hloop
    exact hloop ⟨1, 2, 1, by decide, rfl, rfl⟩

end NinePFile
end Star9
