import Star9.Base.Bytes
import Star9.Sync.State

/-!
# Marks made during a push

Any number of `mark_dirty` calls against pushes and pulls, each of which is two
steps under the state lock with the transfer between them; the sync lock lets one
of them run at a time. What building and applying a patch return is free, and so
is what a pull drops.
-/
namespace Star9
open Base

inductive SyncPhase where
  | idle
  | pushing (snapshot : DirtyMap)
  | pulling (snapshot : DirtyMap)

/-- `since` are the marks made since the snapshot, newest first, and `conflicts`
the conflict map at the snapshot. -/
structure MarkWorld where
  state : SyncState
  phase : SyncPhase
  poisoned : Bool
  since : List (String × DirtyChange)
  conflicts : Std.ExtTreeMap String DirtyChange

inductive MarkAction where
  | markDirty (path : String) (change : DirtyChange)
  | pushBegin
  | pushEnd (patch : Except Error Bytes) (applied : Except Error Unit)
  | pullBegin
  | pullEnd (result : Except Error (DirtyMap × Std.ExtTreeMap String DirtyChange))

namespace MarkWorld

def new : MarkWorld :=
  { state := SyncState.new, phase := .idle, poisoned := false, since := [], conflicts := ∅ }

/-- The generation is a `u64`. A run is followed up to the mark that overflows it, which panics with
the lock held, or starts over where overflows wrap. -/
def markDirty (path : String) (change : DirtyChange) (w : MarkWorld) : MarkWorld :=
  if w.state.nextGeneration + 1 < 2 ^ 64 then
    { w with state := w.state.markDirty path change, since := (cleanPath path, change) :: w.since }
  else { w with poisoned := true }

/-- A push of nothing is over at once. -/
def pushBegin (w : MarkWorld) : MarkWorld :=
  match w.phase with
  | .idle =>
    if w.state.dirty.isEmpty then w
    else { w with phase := .pushing w.state.dirty, since := [], conflicts := w.state.pullConflicts }
  | _ => w

/-- The patch was built, is not empty and was applied. -/
def pushed (patch : Except Error Bytes) (applied : Except Error Unit) : Bool :=
  match patch, applied with
  | .ok patch, .ok () => !patch.isEmpty
  | _, _ => false

def pushEnd (patch : Except Error Bytes) (applied : Except Error Unit) (w : MarkWorld) : MarkWorld :=
  match w.phase with
  | .pushing snapshot =>
    if pushed patch applied then { w with state := w.state.clearPushed snapshot, phase := .idle }
    else { w with phase := .idle }
  | _ => w

def pullBegin (w : MarkWorld) : MarkWorld :=
  match w.phase with
  | .idle => { w with phase := .pulling w.state.dirty, since := [] }
  | _ => w

def pullEnd (result : Except Error (DirtyMap × Std.ExtTreeMap String DirtyChange)) (w : MarkWorld) : MarkWorld :=
  match w.phase, result with
  | .pulling snapshot, .ok (kept, conflicts) =>
    { w with state := w.state.clearPulled snapshot kept conflicts, phase := .idle }
  | .pulling _, .error _ => { w with phase := .idle }
  | _, _ => w

/-- A poisoned lock stops every later step. -/
def step (w : MarkWorld) (a : MarkAction) : MarkWorld :=
  if w.poisoned then w
  else match a with
    | .markDirty path change => w.markDirty path change
    | .pushBegin => w.pushBegin
    | .pushEnd patch applied => w.pushEnd patch applied
    | .pullBegin => w.pullBegin
    | .pullEnd result => w.pullEnd result

/-! ## The marks since the snapshot -/

variable {w : MarkWorld}

/-- A path that was marked since the snapshot has its last mark, with a generation
past `floor`; any other path is as in the snapshot. -/
structure PushInv (w : MarkWorld) (snapshot : DirtyMap) (floor : Nat) : Prop where
  old : ∀ (path : String) (e : DirtyEntry), snapshot[path]? = some e → e.generation ≤ floor
  le : floor ≤ w.state.nextGeneration
  kept : ∀ path, w.since.lookup path = none → w.state.dirty[path]? = snapshot[path]?
  marked : ∀ path change, w.since.lookup path = some change →
    ∃ g, floor < g ∧ w.state.dirty[path]? = some { change, generation := g }
  conflicts : w.state.pullConflicts = w.conflicts

structure MarkInv (w : MarkWorld) : Prop where
  fresh : w.state.Fresh
  pushing : ∀ snapshot, w.phase = .pushing snapshot → ∃ floor, PushInv w snapshot floor

theorem PushInv.markDirty {snapshot : DirtyMap} {floor : Nat} (h : PushInv w snapshot floor) (path : String)
    (change : DirtyChange) : PushInv { w with
      state := w.state.markDirty path change
      since := (cleanPath path, change) :: w.since } snapshot floor where
  old := h.old
  le := Nat.le_succ_of_le h.le
  kept q hq := by
    rw [List.lookup_cons] at hq
    rw [SyncState.markDirty_getElem?]
    by_cases heq : q = cleanPath path
    · simp [heq] at hq
    · rw [if_neg (Ne.symm heq)]
      rw [beq_false_of_ne heq] at hq
      exact h.kept q hq
  marked q c hq := by
    rw [List.lookup_cons] at hq
    rw [SyncState.markDirty_getElem?]
    by_cases heq : q = cleanPath path
    · simp only [heq, beq_self_eq_true, Option.some.injEq] at hq
      subst hq
      exact ⟨_, Nat.lt_succ_of_le h.le, if_pos heq.symm⟩
    · rw [if_neg (Ne.symm heq)]
      rw [beq_false_of_ne heq] at hq
      exact h.marked q c hq
  conflicts := h.conflicts

theorem MarkInv.markDirty (hw : MarkInv w) (path : String) (change : DirtyChange) :
    MarkInv (w.markDirty path change) := by
  unfold MarkWorld.markDirty
  split
  · refine ⟨hw.fresh.markDirty path change, fun snapshot hphase => ?_⟩
    obtain ⟨floor, h⟩ := hw.pushing snapshot hphase
    exact ⟨floor, h.markDirty path change⟩
  · refine ⟨hw.fresh, fun snapshot hphase => ?_⟩
    obtain ⟨floor, h⟩ := hw.pushing snapshot hphase
    exact ⟨floor, h.old, h.le, h.kept, h.marked, h.conflicts⟩

theorem MarkInv.pushBegin (hw : MarkInv w) : MarkInv w.pushBegin := by
  unfold MarkWorld.pushBegin
  split
  · split
    · exact hw
    · refine ⟨hw.fresh, fun snapshot hphase => ?_⟩
      cases hphase
      exact ⟨w.state.nextGeneration, hw.fresh, Nat.le_refl _, fun _ _ => rfl, nofun, rfl⟩
  · exact hw

theorem MarkInv.pushEnd (hw : MarkInv w) (patch : Except Error Bytes) (applied : Except Error Unit) :
    MarkInv (w.pushEnd patch applied) := by
  unfold MarkWorld.pushEnd
  split
  · split
    · exact ⟨hw.fresh.of_shrinks (SyncState.clearPushed_shrinks _ _) (SyncState.clearPushed_nextGeneration _ _), nofun⟩
    · exact ⟨hw.fresh, nofun⟩
  · exact hw

theorem MarkInv.pullBegin (hw : MarkInv w) : MarkInv w.pullBegin := by
  unfold MarkWorld.pullBegin
  split
  · exact ⟨hw.fresh, nofun⟩
  · exact hw

theorem MarkInv.pullEnd (hw : MarkInv w)
    (result : Except Error (DirtyMap × Std.ExtTreeMap String DirtyChange)) : MarkInv (w.pullEnd result) := by
  unfold MarkWorld.pullEnd
  split
  · exact ⟨hw.fresh.of_shrinks (SyncState.clearPulled_shrinks _ _ _ _) (SyncState.clearPulled_nextGeneration _ _ _ _),
      nofun⟩
  · exact ⟨hw.fresh, nofun⟩
  · exact hw

theorem MarkInv.step (hw : MarkInv w) (a : MarkAction) : MarkInv (w.step a) := by
  unfold MarkWorld.step
  split
  · exact hw
  · cases a with
    | markDirty path change => exact hw.markDirty path change
    | pushBegin => exact hw.pushBegin
    | pushEnd patch applied => exact hw.pushEnd patch applied
    | pullBegin => exact hw.pullBegin
    | pullEnd result => exact hw.pullEnd result

theorem markInv_run (as : List MarkAction) : MarkInv (run step new as) :=
  run_invariant_of_step (fun _ a hw => hw.step a) ⟨SyncState.fresh_new, nofun⟩ as

/-! ## The end of a push -/

theorem PushInv.clearPushed {snapshot : DirtyMap} {floor : Nat} (h : PushInv w snapshot floor) (path : String) :
    (w.state.clearPushed snapshot).dirty[path]? = w.state.dirty[path]? ∨
      (w.since.lookup path = none ∧ (snapshot[path]?).isSome = true) := by
  rcases SyncState.clearPushed_shrinks snapshot w.state path with heq | ⟨-, e, he, hun⟩
  · exact .inl heq
  · refine .inr ⟨?_, by rw [he]; rfl⟩
    obtain ⟨current, hcurrent, hgen⟩ := SyncState.unchanged_iff.mp hun
    cases hlookup : w.since.lookup path with
    | none => rfl
    | some change =>
      obtain ⟨g, hlt, hmark⟩ := h.marked path change hlookup
      cases hcurrent.symm.trans hmark
      have hold := h.old path e he
      dsimp only at hgen
      omega

theorem pushEnd_dirty {snapshot : DirtyMap} {floor : Nat} (h : PushInv w snapshot floor)
    (hphase : w.phase = .pushing snapshot) (patch : Except Error Bytes) (applied : Except Error Unit)
    (path : String) : (w.step (.pushEnd patch applied)).state.dirty[path]? = w.state.dirty[path]? ∨
      (w.since.lookup path = none ∧ (snapshot[path]?).isSome = true) := by
  unfold step
  split
  · exact .inl rfl
  · simp only [pushEnd, hphase]
    split
    · exact h.clearPushed path
    · exact .inl rfl

theorem pushEnd_failed {snapshot : DirtyMap} (hphase : w.phase = .pushing snapshot) {patch : Except Error Bytes}
    {applied : Except Error Unit} (hfail : pushed patch applied = false) :
    (w.step (.pushEnd patch applied)).state = w.state := by
  unfold step
  split
  · rfl
  · simp only [pushEnd, hphase, hfail]
    rfl

/-- In every interleaving, the end of a push removes a path only if it was in the
snapshot and has not been marked since; a path marked since keeps its last mark;
and a push that fails leaves both maps as they were, but for the marks made since. -/
theorem run_pushEnd (as : List MarkAction) :
    let w := run step new as
    ∀ snapshot, w.phase = .pushing snapshot → ∀ (patch : Except Error Bytes) (applied : Except Error Unit),
      let w' := w.step (.pushEnd patch applied)
      (∀ path, path ∈ w.state.dirty → path ∉ w'.state.dirty → path ∈ snapshot ∧ w.since.lookup path = none) ∧
      (∀ path change, w.since.lookup path = some change →
        ∃ g, w'.state.dirty[path]? = some { change, generation := g }) ∧
      (pushed patch applied = false → w'.state = w.state ∧ w'.state.pullConflicts = w.conflicts ∧
        ∀ path, w.since.lookup path = none → w'.state.dirty[path]? = snapshot[path]?) := by
  intro w snapshot hphase patch applied w'
  obtain ⟨floor, h⟩ := (markInv_run as).pushing snapshot hphase
  refine ⟨fun path hmem hgone => ?_, fun path change hlookup => ?_, fun hfail => ?_⟩
  · rcases pushEnd_dirty h hphase patch applied path with heq | ⟨hlookup, hsnap⟩
    · rw [Std.ExtTreeMap.mem_iff_isSome_getElem?] at hmem hgone
      exact absurd ((congrArg Option.isSome heq).trans hmem) hgone
    · exact ⟨Std.ExtTreeMap.mem_iff_isSome_getElem?.mpr hsnap, hlookup⟩
  · obtain ⟨g, -, hmark⟩ := h.marked path change hlookup
    rcases pushEnd_dirty h hphase patch applied path with heq | ⟨hnone, -⟩
    · exact ⟨g, heq.trans hmark⟩
    · rw [hlookup] at hnone
      cases hnone
  · have hstate : w'.state = w.state := pushEnd_failed hphase hfail
    rw [hstate]
    exact ⟨rfl, h.conflicts, h.kept⟩

/-- A file that is removed while its upload is on the way stays marked. -/
theorem run_pushEnd_remarked : ∃ g, (run step new [.markDirty "a" .upsert, .pushBegin,
    .markDirty "a" (.remove false), .pushEnd (.ok [0]) (.ok ())]).state.dirty["a"]? =
      some { change := .remove false, generation := g } :=
  (run_pushEnd [.markDirty "a" .upsert, .pushBegin, .markDirty "a" (.remove false)]
    (SyncState.new.markDirty "a" .upsert).dirty (by rfl) (.ok [0]) (.ok ())).2.1
    "a" (.remove false) (by decide +kernel)

end MarkWorld
end Star9
