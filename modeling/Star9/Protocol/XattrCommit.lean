import Star9.Base.Ranges
import Star9.Base.Run
import Star9.Fs.MemFrame
import Star9.Protocol.FrameSize
import Star9.Protocol.WalkSpec

/-!
# Writing an attribute through a fid

A fid opened by `Txattrcreate` collects writes in a buffer, and an `Tfsync` or the
clunk commits the buffer once the writes cover it. The ranges written so far are
kept separated, so the buffer is covered when one range is left. After the first
commit the write state is committed for good: what is written later stays in the
buffer.
-/
namespace Star9
open Base Prog NinePServer

namespace XattrWriteState
variable {w w' : XattrWriteState}

/-! ## The ranges written -/

/-- Once the new range stands in the list the rest is copied. -/
theorem foldl_mergeStep_inserted {start stop : Nat} (hlt : start < stop) (m : List (Nat × Nat)) {rs : List (Nat × Nat)}
    (hrs : ∀ r ∈ rs, r.1 < r.2 ∧ stop < r.1) :
    rs.foldl mergeStep (start, stop, true, m) = (start, stop, true, m ++ rs) := by
  induction rs generalizing m with
  | nil => simp
  | cons r rs ih =>
    obtain ⟨⟨hr, hgap⟩, hrs⟩ := List.forall_mem_cons.mp hrs
    rw [List.foldl_cons, mergeStep]
    simp only [if_neg (show ¬ r.2 < start by omega), if_pos hgap, if_true]
    rw [ih _ hrs, List.append_assoc, List.singleton_append]

/-- The merge loop of the source adds the range. -/
theorem foldl_mergeStep {start stop : Nat} (hlt : start < stop) (m : List (Nat × Nat)) {rs : List (Nat × Nat)}
    (h : Separated rs) :
    (let out := rs.foldl mergeStep (start, stop, false, m)
     if out.2.2.1 then out.2.2.2 else out.2.2.2 ++ [(out.1, out.2.1)]) = m ++ insertRange start stop rs := by
  induction rs generalizing start stop m with
  | nil => simp [insertRange]
  | cons r rs ih =>
    obtain ⟨hr, hfirst, hrs⟩ := separated_cons.mp h
    rw [insertRange, List.foldl_cons, mergeStep]
    dsimp only
    split
    · rw [ih hlt _ hrs, List.append_assoc, List.singleton_append]
    · split
      case isTrue hafter =>
        have hlater : ∀ q ∈ rs, q.1 < q.2 ∧ stop < q.1 := fun q hq => ⟨hrs.nonempty q hq, by have := hfirst q hq; omega⟩
        rw [if_neg Bool.false_ne_true, foldl_mergeStep_inserted hlt _ hlater]
        simp
      case isFalse => exact ih (by omega) m hrs

theorem recordWrite_written (h : Separated w.written) (start stop : Nat) :
    (recordWrite start stop w).written = if stop ≤ start then w.written else insertRange start stop w.written := by
  unfold recordWrite
  split
  · rfl
  case isFalse hlt =>
    have hmerge := foldl_mergeStep (Nat.lt_of_not_le hlt) [] h
    rwa [List.nil_append] at hmerge

theorem recordWrite_fields (start stop : Nat) (w : XattrWriteState) :
    (recordWrite start stop w).name = w.name ∧ (recordWrite start stop w).expectedSize = w.expectedSize ∧
      (recordWrite start stop w).data = w.data ∧ (recordWrite start stop w).committed = w.committed := by
  unfold recordWrite
  split <;> exact ⟨rfl, rfl, rfl, rfl⟩

/-! ## What the buffer holds -/

/-- The state after some writes: the buffer is their overlay, and the ranges are the
places they cover. -/
structure After (ws : List (Nat × Bytes)) (w : XattrWriteState) : Prop where
  data : w.data = overlay 0 w.expectedSize.toNat ws
  separated : Separated w.written
  places : ∀ i, InRanges w.written i ↔ Covered ws i
  fits : ∀ x ∈ ws, x.1 + x.2.length ≤ w.expectedSize.toNat

theorem new_after {name : String} {flags : UInt32} {size : UInt64} (h : new name flags size = some w) :
    w.name = name ∧ w.expectedSize = size ∧ w.committed = false ∧ w.After [] := by
  unfold new at h
  split at h
  · cases h
  · cases h
    exact ⟨rfl, rfl, rfl, overlay_nil.symm, separated_nil, by simp [Covered], nofun⟩

theorem isComplete_iff {ws : List (Nat × Bytes)} (h : w.After ws) :
    w.isComplete = true ↔ ∀ i < w.expectedSize.toNat, Covered ws i := by
  have hwithin : ∀ r ∈ w.written, r.2 ≤ w.expectedSize.toNat := by
    intro r hr
    have hne := h.separated.nonempty r hr
    obtain ⟨x, hx, -, hlt⟩ := (h.places (r.2 - 1)).mp ⟨r, hr, by omega, by omega⟩
    have hfit := h.fits x hx
    omega
  simp only [← h.places]
  rw [isComplete, Bool.or_eq_true, beq_iff_eq, beq_iff_eq]
  rcases Nat.eq_zero_or_pos w.expectedSize.toNat with hzero | hpos
  · exact iff_of_true (Or.inl (UInt64.toNat_inj.mp hzero)) fun i hi => by omega
  · rw [forall_inRanges_iff h.separated hpos hwithin]
    refine ⟨fun hor => hor.resolve_left fun heq => ?_, Or.inr⟩
    rw [heq] at hpos
    exact absurd hpos (by decide)

/-- A write inside the buffer is taken, and one that leaves it is refused. -/
theorem writeAt_cases {ws : List (Nat × Bytes)} (h : w.After ws) (offset : UInt64) (chunk : Bytes) :
    (offset.toNat + chunk.length ≤ w.expectedSize.toNat ∧ ∃ w', w.writeAt offset chunk = .ok w' ∧
      w'.After (ws ++ [(offset.toNat, chunk)]) ∧ w'.name = w.name ∧ w'.expectedSize = w.expectedSize ∧
      w'.committed = w.committed) ∨
    (w.expectedSize.toNat < offset.toNat + chunk.length ∧ w.writeAt offset chunk = .err (.kind .invalid)) := by
  have hsize := w.expectedSize.toNat_lt
  rcases Nat.lt_or_ge w.expectedSize.toNat (offset.toNat + chunk.length) with hout | hin
  · exact Or.inr ⟨hout, if_pos (Or.inr hout)⟩
  · generalize hw₁ : ({ w with data := w.data.take offset.toNat ++ chunk ++ w.data.drop (offset.toNat + chunk.length) } :
      XattrWriteState) = w₁
    have hsized : w.data.length = w.expectedSize.toNat := by
      rw [h.data, overlay_length]
    have hrun : w.writeAt offset chunk = .ok (recordWrite offset.toNat (offset.toNat + chunk.length) w₁) := by
      rw [writeAt, ← hw₁]
      exact (if_neg (by omega)).trans (if_neg (by omega))
    have hwritten := @recordWrite_written w₁ (by rw [← hw₁]; exact h.separated) offset.toNat (offset.toNat + chunk.length)
    obtain ⟨hname, hsame, hdata, hcommitted⟩ := recordWrite_fields offset.toNat (offset.toNat + chunk.length) w₁
    subst hw₁
    refine Or.inl ⟨hin, _, hrun, ⟨?_, ?_, fun i => ?_, ?_⟩, hname, hsame, hcommitted⟩
    · rw [hdata, hsame, overlay_append hin, ← h.data]
    · rw [hwritten]
      split
      · exact h.separated
      · exact separated_insertRange h.separated (by omega)
    · rw [hwritten, covered_append, ← h.places]
      split
      case isTrue hempty =>
        dsimp only
        exact (or_iff_right (by omega)).symm
      case isFalse => exact inRanges_insertRange h.separated (by omega)
    · rw [hsame]
      intro x hx
      rcases List.mem_append.mp hx with hx | hx
      · exact h.fits x hx
      · rw [List.mem_singleton.mp hx]
        exact hin

end XattrWriteState

/-! ## A fid that collects writes -/

inductive XattrOp where
  | write (offset : UInt64) (data : Bytes)
  | fsync

def XattrOp.request (fid : UInt32) : XattrOp → NinePRequest
  | .write offset data => .write fid offset data
  | .fsync => .fsync fid

/-- The server, with the writes that it has acknowledged. -/
structure XattrRun (σ η : Type) where
  server : ServerState σ η
  acked : List (Nat × Bytes)

section
variable {σ η : Type} (fs : FileSystem σ η) (fid : UInt32)

def xattrStep (r : XattrRun σ η) (op : XattrOp) : XattrRun σ η :=
  let (result, server) := handle fs (op.request fid) r.server
  { server
    acked := match op, result with
      | .write offset data, .ok _ => r.acked ++ [(offset.toNat, data)]
      | _, _ => r.acked }

/-- The acknowledged writes cover the value. -/
def CoversAll (size : Nat) (ws : List (Nat × Bytes)) : Prop := ∀ i < size, Covered ws i

instance (size : Nat) (ws : List (Nat × Bytes)) : Decidable (CoversAll size ws) :=
  inferInstanceAs (Decidable (∀ i < size, Covered ws i))

variable (path name : String) (size : Nat)

/-- A clunk that succeeds leaves the overlay of the acknowledged writes, which cover
the value; without that cover it fails and leaves the attribute as it was. -/
def CommitsFaithfully (before : σ) (r : XattrRun σ η) : Prop :=
  let (result, server) := handle fs (.clunk fid) r.server
  (result.isOk = true → CoversAll size r.acked ∧ (fs.getXattr path name server.fsys).1 = .ok (overlay 0 size r.acked)) ∧
  (¬ CoversAll size r.acked →
    (∃ err, result = .err err) ∧ (fs.getXattr path name server.fsys).1 = (fs.getXattr path name before).1)

/-- What the store does with a value for the attribute: it takes it or it refuses it,
in every state that the writes can meet. -/
structure XattrStore (I : σ → Prop) (takes : Bytes → Bool) : Prop where
  taken : ∀ value x, I x → takes value = true →
    ∃ x', fs.setXattr path name value x = (.ok (), x') ∧ I x' ∧ (fs.getXattr path name x').1 = .ok value
  refused : ∀ value x, I x → takes value = false →
    ∃ err x', fs.setXattr path name value x = (.err err, x') ∧ I x' ∧
      (fs.getXattr path name x').1 = (fs.getXattr path name x).1

/-- The writes that stay inside the value, which are those acknowledged. -/
def ackedWrites : List (Nat × Bytes) → List XattrOp → List (Nat × Bytes)
  | ws, [] => ws
  | ws, .write offset data :: ops =>
    ackedWrites (if offset.toNat + data.length ≤ size then ws ++ [(offset.toNat, data)] else ws) ops
  | ws, .fsync :: ops => ackedWrites ws ops

/-- The value at the first `Fsync` that finds it covered and that the store takes. -/
def syncedValue (takes : Bytes → Bool) : List (Nat × Bytes) → List XattrOp → Option Bytes
  | _, [] => none
  | ws, .write offset data :: ops =>
    syncedValue takes (if offset.toNat + data.length ≤ size then ws ++ [(offset.toNat, data)] else ws) ops
  | ws, .fsync :: ops =>
    if CoversAll size ws ∧ takes (overlay 0 size ws) = true then some (overlay 0 size ws) else syncedValue takes ws ops

end

section
variable {σ η : Type} {fs : FileSystem σ η} {fid : UInt32} {path name : String} {size : UInt64} {I : σ → Prop}
  {takes : Bytes → Bool}

/-- The fid holds a write state after some writes, and `value` was committed if any. -/
structure XattrHeld (fs : FileSystem σ η) (fid : UInt32) (path name : String) (size : UInt64) (I : σ → Prop) (before : σ)
    (value : Option Bytes) (ws : List (Nat × Bytes)) (w : XattrWriteState) (flags : UInt32) (s : ServerState σ η) : Prop where
  fids : s.fids fid = some { path, handle := .xattrWrite w, flags }
  attr : w.name = name
  length : w.expectedSize = size
  after : w.After ws
  store : I s.fsys
  committed : w.committed = value.isSome
  stored : (fs.getXattr path name s.fsys).1 = value.elim (fs.getXattr path name before).1 .ok

variable {before : σ} {value : Option Bytes} {ws : List (Nat × Bytes)} {w : XattrWriteState} {flags : UInt32}
  {s : ServerState σ η}

theorem XattrHeld.isComplete_iff (h : XattrHeld fs fid path name size I before value ws w flags s) :
    w.isComplete = true ↔ CoversAll size.toNat ws := by
  rw [XattrWriteState.isComplete_iff h.after, h.length]
  rfl

/-- A commit does nothing when the value is committed, and needs the cover otherwise. -/
theorem commitXattr_cases (hstore : XattrStore fs path name I takes)
    (h : XattrHeld fs fid path name size I before value ws w flags s) {s₁ : ServerState σ η} (hfsys : s₁.fsys = s.fsys) :
    (value.isSome = true ∧ commitXattr fs path w s₁ = (.ok w, s₁)) ∨
    (value = none ∧ ¬ CoversAll size.toNat ws ∧ commitXattr fs path w s₁ = (.err (.kind .invalid), s₁)) ∨
    (value = none ∧ CoversAll size.toNat ws ∧ takes (overlay 0 size.toNat ws) = true ∧
      ∃ x, commitXattr fs path w s₁ = (.ok { w with committed := true }, { s₁ with fsys := x }) ∧ I x ∧
        (fs.getXattr path name x).1 = .ok (overlay 0 size.toNat ws)) ∨
    (value = none ∧ CoversAll size.toNat ws ∧ takes (overlay 0 size.toNat ws) = false ∧
      ∃ err x, commitXattr fs path w s₁ = (.err err, { s₁ with fsys := x }) ∧ I x ∧
        (fs.getXattr path name x).1 = (fs.getXattr path name s.fsys).1) := by
  have hdata : w.data = overlay 0 size.toNat ws := by rw [h.after.data, h.length]
  cases value with
  | some v =>
    refine Or.inl ⟨rfl, ?_⟩
    rw [commitXattr, h.committed]
    rfl
  | none =>
    have hopen : w.committed = false := h.committed
    by_cases hcover : CoversAll size.toNat ws
    · have hcomplete := h.isComplete_iff.mpr hcover
      have hrun : commitXattr fs path w s₁ = (do
          onFs (fs.setXattr path name (overlay 0 size.toNat ws))
          pure { w with committed := true } : Prog (ServerState σ η) Error XattrWriteState) s₁ := by
        rw [commitXattr, hopen, hcomplete, ← hdata, ← h.attr]
        rfl
      rw [hrun]
      cases htakes : takes (overlay 0 size.toNat ws) with
      | true =>
        obtain ⟨x, hset, hx, hget⟩ := hstore.taken _ s.fsys h.store htakes
        refine Or.inr (Or.inr (Or.inl ⟨rfl, hcover, rfl, x, ?_, hx, hget⟩))
        have hcall : onFs (fs.setXattr path name (overlay 0 size.toNat ws)) s₁ = (.ok (), { s₁ with fsys := x }) := by
          rw [onFs, zoom_apply, hfsys, hset]
        rw [bind_ok hcall]
        rfl
      | false =>
        obtain ⟨err, x, hset, hx, hget⟩ := hstore.refused _ s.fsys h.store htakes
        refine Or.inr (Or.inr (Or.inr ⟨rfl, hcover, rfl, err, x, ?_, hx, hget⟩))
        have hcall : onFs (fs.setXattr path name (overlay 0 size.toNat ws)) s₁ = (.err err, { s₁ with fsys := x }) := by
          rw [onFs, zoom_apply, hfsys, hset]
        rw [bind_err hcall]
    · refine Or.inr (Or.inl ⟨rfl, hcover, ?_⟩)
      have hpartial : w.isComplete = false := Bool.eq_false_iff.mpr fun hc => hcover (h.isComplete_iff.mp hc)
      rw [commitXattr, hopen, hpartial]
      rfl

/-- A write that stays inside the value is acknowledged, and only such a write. -/
theorem xattrStep_write (h : XattrHeld fs fid path name size I before value ws w flags s) {offset : UInt64} {data : Bytes}
    (hlen : data.length < 2 ^ 32) : ∃ w' s',
    xattrStep fs fid ⟨s, ws⟩ (.write offset data) =
      ⟨s', if offset.toNat + data.length ≤ size.toNat then ws ++ [(offset.toNat, data)] else ws⟩ ∧
    XattrHeld fs fid path name size I before value
      (if offset.toNat + data.length ≤ size.toNat then ws ++ [(offset.toNat, data)] else ws) w' flags s' := by
  have hget := getFid_eq_ok.mpr ⟨h.fids, rfl⟩
  rcases XattrWriteState.writeAt_cases h.after offset data with ⟨hin, w', hrun, hafter, hname, hsame, hcommitted⟩ | ⟨hout, hrun⟩
  · rw [h.length] at hin
    have hhandle : handle fs (.write fid offset data) s = (.ok (.write (UInt32.ofNat data.length)),
        { s with fids := Function.update s.fids fid (some { path, handle := .xattrWrite w', flags }) }) := by
      rw [handle, NinePServer.write, bind_ok hget]
      simp only [writeHandle, bind_assoc]
      rw [bind_ok (show reads (fun _ => w.writeAt offset data) s = (.ok w', s) from Prod.ext hrun rfl)]
      simp only [pure_bind]
      rw [if_pos hlen]
      rfl
    refine ⟨w', { s with fids := Function.update s.fids fid (some { path, handle := .xattrWrite w', flags }) }, ?_, ?_⟩
    · simp only [xattrStep, XattrOp.request, hhandle, if_pos hin]
    · rw [if_pos hin]
      exact ⟨Function.update_self .., hname.trans h.attr, hsame.trans h.length, hafter, h.store,
        hcommitted.trans h.committed, h.stored⟩
  · rw [h.length] at hout
    have hhandle : handle fs (.write fid offset data) s = (.err (.kind .invalid), s) := by
      rw [handle, NinePServer.write, bind_ok hget]
      simp only [writeHandle, bind_assoc]
      rw [bind_err (show reads (fun _ => w.writeAt offset data) s = (.err (.kind .invalid), s) from Prod.ext hrun rfl)]
    refine ⟨w, s, ?_, ?_⟩
    · simp only [xattrStep, XattrOp.request, hhandle, if_neg (Nat.not_le.mpr hout)]
    · rw [if_neg (Nat.not_le.mpr hout)]
      exact h

/-- An `Fsync` commits the value if it is covered, taken and not committed before. -/
theorem xattrStep_fsync (hstore : XattrStore fs path name I takes)
    (h : XattrHeld fs fid path name size I before value ws w flags s) : ∃ w' s',
    xattrStep fs fid ⟨s, ws⟩ .fsync = ⟨s', ws⟩ ∧
    XattrHeld fs fid path name size I before
      (value.or (if CoversAll size.toNat ws ∧ takes (overlay 0 size.toNat ws) = true then
        some (overlay 0 size.toNat ws) else none)) ws w' flags s' := by
  have hget := getFid_eq_ok.mpr ⟨h.fids, rfl⟩
  have hstep {result : Outcome Error NinePResponse} {s' : ServerState σ η} (hrun : handle fs (.fsync fid) s = (result, s')) :
      xattrStep fs fid ⟨s, ws⟩ .fsync = ⟨s', ws⟩ := by
    simp only [xattrStep, XattrOp.request, hrun]
  have hsync : handle fs (.fsync fid) s = (commitXattr fs path w >>= fun w' => do
      setFid fid (some { path, handle := .xattrWrite w', flags })
      pure .fsync : Prog (ServerState σ η) Error NinePResponse) s := by
    rw [handle, NinePServer.fsync, bind_ok hget]
  rcases commitXattr_cases hstore h rfl with ⟨hsome, hrun⟩ | ⟨rfl, hcover, hrun⟩ | ⟨rfl, hcover, htakes, x, hrun, hx, hval⟩ |
    ⟨rfl, hcover, htakes, err, x, hrun, hx, hval⟩
  · refine ⟨w, _, hstep (hsync.trans (bind_ok hrun)), ?_⟩
    rw [Option.or_of_isSome hsome]
    exact ⟨Function.update_self .., h.attr, h.length, h.after, h.store, h.committed, h.stored⟩
  · refine ⟨w, _, hstep (hsync.trans (bind_err hrun)), ?_⟩
    rw [if_neg fun hboth => hcover hboth.1]
    exact h
  · refine ⟨{ w with committed := true }, _, hstep (hsync.trans (bind_ok hrun)), ?_⟩
    rw [if_pos ⟨hcover, htakes⟩]
    exact ⟨Function.update_self .., h.attr, h.length, ⟨h.after.data, h.after.separated, h.after.places, h.after.fits⟩, hx,
      rfl, hval⟩
  · refine ⟨w, _, hstep (hsync.trans (bind_err hrun)), ?_⟩
    rw [if_neg fun hboth => by rw [htakes] at hboth; exact Bool.false_ne_true hboth.2]
    exact ⟨h.fids, h.attr, h.length, h.after, hx, h.committed, hval.trans h.stored⟩

/-- A run acknowledges the writes inside the value and keeps the first committed value. -/
theorem xattrRun_held (hstore : XattrStore fs path name I takes) {ops : List XattrOp}
    (hlen : ∀ offset data, .write offset data ∈ ops → data.length < 2 ^ 32)
    (h : XattrHeld fs fid path name size I before value ws w flags s) : ∃ w' s',
    run (xattrStep fs fid) ⟨s, ws⟩ ops = ⟨s', ackedWrites size.toNat ws ops⟩ ∧
    XattrHeld fs fid path name size I before (value.or (syncedValue size.toNat takes ws ops))
      (ackedWrites size.toNat ws ops) w' flags s' := by
  induction ops generalizing value ws w s with
  | nil => exact ⟨w, s, rfl, by rwa [syncedValue, Option.or_none]⟩
  | cons op ops ih =>
    have hrest : ∀ offset data, .write offset data ∈ ops → data.length < 2 ^ 32 := fun offset data hmem =>
      hlen offset data (List.mem_cons_of_mem op hmem)
    cases op with
    | write offset data =>
      obtain ⟨w₁, s₁, hstep, hheld⟩ := xattrStep_write h (hlen offset data List.mem_cons_self)
      rw [run_cons, hstep]
      exact ih hrest hheld
    | fsync =>
      obtain ⟨w₁, s₁, hstep, hheld⟩ := xattrStep_fsync hstore h
      rw [run_cons, hstep]
      obtain ⟨w₂, s₂, hrun, hheld⟩ := ih hrest hheld
      refine ⟨w₂, s₂, hrun, ?_⟩
      rw [Option.or_assoc] at hheld
      rw [syncedValue, ackedWrites]
      split
      case isTrue hsync => rwa [if_pos hsync, Option.some_or] at hheld
      case isFalse hsync => rwa [if_neg hsync, Option.none_or] at hheld

/-! ## The commit at the clunk -/

theorem coversAll_ackedWrites {n : Nat} (h : CoversAll n ws) (ops : List XattrOp) : CoversAll n (ackedWrites n ws ops) := by
  induction ops generalizing ws with
  | nil => exact h
  | cons op ops ih =>
    cases op with
    | write offset data =>
      refine ih ?_
      split
      · exact fun i hi => covered_append.mpr (Or.inr (h i hi))
      · exact h
    | fsync => exact ih h

theorem coversAll_of_synced {n : Nat} {ops : List XattrOp} {v : Bytes} (h : syncedValue n takes ws ops = some v) :
    CoversAll n (ackedWrites n ws ops) := by
  induction ops generalizing ws with
  | nil => cases h
  | cons op ops ih =>
    cases op with
    | write offset data => exact ih h
    | fsync =>
      rw [syncedValue] at h
      split at h
      case isTrue hsync => exact coversAll_ackedWrites hsync.1 ops
      case isFalse => exact ih h

/-- A clunk is faithful exactly when the buffer still is what was committed, if anything was. -/
theorem XattrHeld.commitsFaithfully_iff (hstore : XattrStore fs path name I takes)
    (h : XattrHeld fs fid path name size I before value ws w flags s) (hcovered : value.isSome = true → CoversAll size.toNat ws) :
    CommitsFaithfully fs fid path name size.toNat before ⟨s, ws⟩ ↔ ∀ v, value = some v → v = overlay 0 size.toNat ws := by
  have hclunk : handle fs (.clunk fid) s = (commitXattr fs path w >>= fun _ => pure .clunk : Prog (ServerState σ η) Error _)
      { s with fids := Function.update s.fids fid none } := by
    rw [handle, clunk, bind_assoc, bind_ok (getFid_eq_ok.mpr ⟨h.fids, rfl⟩)]
    simp only [bind_assoc, pure_bind]
    rfl
  unfold CommitsFaithfully
  rw [hclunk]
  have hfsys : ({ s with fids := Function.update s.fids fid none } : ServerState σ η).fsys = s.fsys := rfl
  rcases commitXattr_cases hstore h hfsys with
    ⟨hsome, hrun⟩ | ⟨rfl, hcover, hrun⟩ | ⟨rfl, hcover, -, x, hrun, -, hval⟩ | ⟨rfl, hcover, -, err, x, hrun, -, hval⟩
  · rw [bind_ok hrun]
    obtain ⟨v, rfl⟩ := Option.isSome_iff_exists.mp hsome
    have hcover := hcovered rfl
    have hval : (fs.getXattr path name s.fsys).1 = .ok v := h.stored
    constructor
    · intro hfaith v' hv'
      cases hv'
      exact Outcome.ok.inj (hval.symm.trans (hfaith.1 rfl).2)
    · intro hsame
      refine ⟨fun _ => ⟨hcover, ?_⟩, fun hnot => absurd hcover hnot⟩
      rw [← hsame v rfl]
      exact hval
  · rw [bind_err hrun]
    exact iff_of_true ⟨fun hok => (Bool.false_ne_true hok).elim, fun _ => ⟨⟨_, rfl⟩, h.stored⟩⟩ fun v hv => (Option.some_ne_none v hv.symm).elim
  · rw [bind_ok hrun]
    exact iff_of_true ⟨fun _ => ⟨hcover, hval⟩, fun hnot => absurd hcover hnot⟩ fun v hv => (Option.some_ne_none v hv.symm).elim
  · rw [bind_err hrun]
    exact iff_of_true ⟨fun hok => (Bool.false_ne_true hok).elim, fun hnot => absurd hcover hnot⟩ fun v hv => (Option.some_ne_none v hv.symm).elim

end

/-- The writes of a fid are committed faithfully exactly when those after the first
effective `Fsync` leave the value that it committed. -/
theorem xattr_commitsFaithfully_iff {σ η : Type} (fs : FileSystem σ η) {I : σ → Prop} {takes : Bytes → Bool} {name : String}
    {st : FidState η} (hstore : XattrStore fs st.path name I takes) (fid : UInt32) (size : UInt64) (flags : UInt32)
    (s s₀ : ServerState σ η) (hfid : s.fids fid = some st) (hs : I s.fsys)
    (hcreate : handle fs (.xattrCreate fid name size flags) s = (.ok .xattrCreate, s₀)) (ops : List XattrOp)
    (hlen : ∀ offset data, .write offset data ∈ ops → data.length < 2 ^ 32) :
    CommitsFaithfully fs fid st.path name size.toNat s.fsys (run (xattrStep fs fid) ⟨s₀, []⟩ ops) ↔
      ∀ v, syncedValue size.toNat takes [] ops = some v → v = overlay 0 size.toNat (ackedWrites size.toNat [] ops) := by
  have hheld : ∃ w, XattrHeld fs fid st.path name size I s.fsys none [] w OpenFlags.wronly.bits s₀ := by
    rw [handle, xattrcreate, branch_apply] at hcreate
    split at hcreate
    · cases hcreate
    · rw [bind_ok (getFid_eq_ok.mpr ⟨hfid, rfl⟩)] at hcreate
      cases hnew : XattrWriteState.new name flags size with
      | none =>
        rw [hnew] at hcreate
        cases hcreate
      | some w =>
        rw [hnew] at hcreate
        cases hcreate
        obtain ⟨hname, hsize, hcommitted, hafter⟩ := XattrWriteState.new_after hnew
        exact ⟨w, Function.update_self .., hname, hsize, hafter, hs, hcommitted, rfl⟩
  obtain ⟨w, hheld⟩ := hheld
  obtain ⟨w', s', hrun, hend⟩ := xattrRun_held hstore hlen hheld
  rw [Option.none_or] at hend
  rw [hrun, hend.commitsFaithfully_iff hstore]
  intro hsome
  obtain ⟨v, hv⟩ := Option.isSome_iff_exists.mp hsome
  exact coversAll_of_synced hv

/-! ## Attributes in memory -/

/-- A file system in memory takes every value for a name that it has, and none for
another. -/
theorem memFs_xattrStore (m : MemFs) (path name : String) :
    XattrStore memFs path name (fun x => x.nodes = m.nodes) fun _ => (m.nodes[cleanPath path]?).isSome where
  taken := by
    intro value x hx htakes
    rw [← hx] at htakes
    rcases MemFs.nodeOr_cases "setxattr" (cleanPath path) x with ⟨id, hid, hnode⟩ | ⟨hnone, -⟩
    · refine ⟨x.updateNode id (NodeInner.setXattr name value), ?_, hx, ?_⟩
      · show MemFs.setXattr path name value x = _
        rw [MemFs.setXattr, bind_ok hnode]
        rfl
      · show (MemFs.getXattr path name _).1 = _
        rcases MemFs.nodeOr_cases "getxattr" (cleanPath path) (x.updateNode id (NodeInner.setXattr name value)) with
          ⟨id', hid', hget⟩ | ⟨hnone, -⟩
        · obtain rfl : id' = id := Option.some.inj (hid'.symm.trans hid)
          rw [MemFs.getXattr, bind_ok hget, get_bind]
          simp [NodeInner.setXattr]
        · exact absurd (hnone.symm.trans hid) nofun
    · rw [hnone] at htakes
      cases htakes
  refused := by
    intro value x hx htakes
    rw [← hx] at htakes
    rcases MemFs.nodeOr_cases "setxattr" (cleanPath path) x with ⟨id, hid, -⟩ | ⟨-, hnode⟩
    · rw [hid] at htakes
      cases htakes
    · refine ⟨.path "setxattr" (cleanPath path) .notFound, x, ?_, hx, rfl⟩
      show MemFs.setXattr path name value x = _
      rw [MemFs.setXattr, bind_err hnode]

/-- Fid 1 collects a value of one byte. -/
def xattrOpened : ServerState MemFs MemFile := (handle memFs (.xattrCreate 1 "user.a" 1 0) walkingServer).2

theorem xattr_commitsFaithfully_walkingServer :
    CommitsFaithfully memFs 1 "." "user.a" 1 walkingServer.fsys
      (run (xattrStep memFs 1) ⟨xattrOpened, []⟩ [.write 0 [7], .fsync]) := by
  have hstore := memFs_xattrStore walkingServer.fsys "." "user.a"
  have hlen : ∀ offset data, XattrOp.write offset data ∈ [.write 0 [7], .fsync] → data.length < 2 ^ 32 := by
    intro offset data hmem
    simp only [List.mem_cons, XattrOp.write.injEq, reduceCtorEq, List.not_mem_nil, or_false] at hmem
    rw [hmem.2]
    decide
  refine (xattr_commitsFaithfully_iff (I := fun x => x.nodes = walkingServer.fsys.nodes) memFs hstore 1 1 0 walkingServer xattrOpened
    (show walkingServer.fids 1 = some (.unopened ".") from rfl) rfl rfl [.write 0 [7], .fsync] hlen).mpr fun v hv => ?_
  have hsynced : syncedValue 1 (fun _ => (walkingServer.fsys.nodes[cleanPath "."]?).isSome) [] [.write 0 [7], .fsync] =
      some [7] := by
    decide +kernel
  exact Option.some.inj (hv.symm.trans hsynced)

/-- The write after the `Fsync` is acknowledged, and the clunk drops it. -/
theorem xattr_not_commitsFaithfully :
    ¬ ∀ (fid : UInt32) (name : String) (size : UInt64) (s s₀ : ServerState MemFs MemFile) (st : FidState MemFile)
      (ops : List XattrOp), s.fids fid = some st → handle memFs (.xattrCreate fid name size 0) s = (.ok .xattrCreate, s₀) →
      (∀ offset data, .write offset data ∈ ops → data.length < 2 ^ 32) →
      CommitsFaithfully memFs fid st.path name size.toNat s.fsys (run (xattrStep memFs fid) ⟨s₀, []⟩ ops) := by
  intro h
  have hlen : ∀ offset data, XattrOp.write offset data ∈ [.write 0 [7], .fsync, .write 0 [8]] → data.length < 2 ^ 32 := by
    intro offset data hmem
    simp only [List.mem_cons, XattrOp.write.injEq, reduceCtorEq, List.not_mem_nil, or_false, false_or] at hmem
    rcases hmem with ⟨-, rfl⟩ | ⟨-, rfl⟩ <;> decide
  have hfaith := h 1 "user.a" 1 walkingServer xattrOpened (.unopened ".") [.write 0 [7], .fsync, .write 0 [8]] rfl rfl hlen
  have hok : (handle memFs (.clunk 1) (run (xattrStep memFs 1)
      ⟨xattrOpened, []⟩ [.write 0 [7], .fsync, .write 0 [8]]).server).1.isOk =
      true := by
    decide +kernel
  have hstored : (memFs.getXattr "." "user.a" (handle memFs (.clunk 1) (run (xattrStep memFs 1)
      ⟨xattrOpened, []⟩
      [.write 0 [7], .fsync, .write 0 [8]]).server).2.fsys).1 = .ok [7] := by
    decide +kernel
  have hwritten : overlay 0 1 (run (xattrStep memFs 1) ⟨xattrOpened, []⟩
      [.write 0 [7], .fsync, .write 0 [8]]).acked = [8] := by
    decide +kernel
  have hvalue := hstored.symm.trans (hfaith.1 hok).2
  change Outcome.ok [7] = Outcome.ok (overlay 0 1 _) at hvalue
  rw [hwritten] at hvalue
  exact absurd hvalue (by decide)

end Star9
