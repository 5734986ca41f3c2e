import Star9.Base.Run
import Star9.Core.Basic
import Star9.Core.Path

/-!
# Dirty marks

The state of a `SyncFs` beside its two file systems: the dirty map with the
generation of every mark, and the conflicts that the last pull kept. A push or a
pull works on a snapshot of the dirty map and clears, at its end, the marks that
were not made again since.
-/
namespace Star9
open Base

inductive DirtyChange where
  | upsert
  | remove (recursive : Bool)
deriving DecidableEq

structure DirtyEntry where
  change : DirtyChange
  generation : Nat
deriving DecidableEq

abbrev DirtyMap := Std.ExtTreeMap String DirtyEntry

structure SyncState where
  nextGeneration : Nat
  dirty : DirtyMap
  pullConflicts : Std.ExtTreeMap String DirtyChange

namespace SyncState

def new : SyncState := { nextGeneration := 0, dirty := ∅, pullConflicts := ∅ }

def markDirty (path : String) (change : DirtyChange) (s : SyncState) : SyncState :=
  { s with
    nextGeneration := s.nextGeneration + 1
    dirty := s.dirty.insert (cleanPath path) { change, generation := s.nextGeneration + 1 } }

/-- The current mark of the path is the one of the snapshot. -/
def unchanged (s : SyncState) (kv : String × DirtyEntry) : Bool :=
  match s.dirty[kv.1]? with
  | some current => current.generation == kv.2.generation
  | none => false

def clearPushedStep (s : SyncState) (kv : String × DirtyEntry) : SyncState :=
  if s.unchanged kv then { s with dirty := s.dirty.erase kv.1, pullConflicts := s.pullConflicts.erase kv.1 }
  else s

/-- The end of a push: the marks of the snapshot that were not made again go. -/
def clearPushed (snapshot : DirtyMap) (s : SyncState) : SyncState := snapshot.toList.foldl clearPushedStep s

def clearPulledStep (kept : DirtyMap) (s : SyncState) (kv : String × DirtyEntry) : SyncState :=
  if kept.contains kv.1 then s
  else if s.unchanged kv then { s with dirty := s.dirty.erase kv.1 }
  else s

/-- The end of a pull, which has dropped some marks from its copy of the snapshot. -/
def clearPulled (snapshot kept : DirtyMap) (conflicts : Std.ExtTreeMap String DirtyChange) (s : SyncState) :
    SyncState :=
  { snapshot.toList.foldl (clearPulledStep kept) s with pullConflicts := conflicts }

/-! ## What clearing removes -/

variable {s : SyncState}

theorem unchanged_iff {path : String} {e : DirtyEntry} :
    s.unchanged (path, e) = true ↔ ∃ current, s.dirty[path]? = some current ∧ current.generation = e.generation := by
  unfold unchanged
  cases h : s.dirty[path]? with
  | none => simp
  | some current => simp

/-- A map from which some keys were erased. -/
def Shrinks (before after : DirtyMap) (gone : String → Prop) : Prop :=
  ∀ path : String, after[path]? = before[path]? ∨ (after[path]? = none ∧ gone path)

theorem getElem?_erase_eq (m : DirtyMap) (p q : String) :
    (m.erase p)[q]? = if p = q then none else m[q]? := by
  rw [Std.ExtTreeMap.getElem?_erase]
  by_cases h : p = q <;> simp [h]

/-- A path goes only if the list has an entry with the generation of its mark. -/
theorem foldl_shrinks {f : SyncState → String × DirtyEntry → SyncState}
    (hstep : ∀ s kv, (f s kv).dirty = s.dirty ∨
      (s.unchanged kv = true ∧ (f s kv).dirty = s.dirty.erase kv.1))
    (l : List (String × DirtyEntry)) (s : SyncState) :
    Shrinks s.dirty (l.foldl f s).dirty fun path => ∃ e, (path, e) ∈ l ∧ s.unchanged (path, e) = true := by
  induction l generalizing s with
  | nil => exact fun _ => .inl rfl
  | cons kv l ih =>
    intro path
    rcases hstep s kv with hkeep | ⟨hsame, herase⟩
    · rcases ih (f s kv) path with heq | ⟨hnone, e, hmem, hun⟩
      · exact .inl (heq.trans (by rw [hkeep]))
      · refine .inr ⟨hnone, e, List.mem_cons_of_mem _ hmem, ?_⟩
        rw [unchanged_iff] at hun ⊢
        rwa [hkeep] at hun
    · rcases ih (f s kv) path with heq | ⟨hnone, e, hmem, hun⟩
      · rw [herase, getElem?_erase_eq] at heq
        by_cases hp : kv.1 = path
        · rw [if_pos hp] at heq
          subst hp
          exact .inr ⟨heq, kv.2, List.mem_cons_self, hsame⟩
        · rw [if_neg hp] at heq
          exact .inl heq
      · refine .inr ⟨hnone, e, List.mem_cons_of_mem _ hmem, ?_⟩
        rw [unchanged_iff, herase] at hun
        obtain ⟨current, hcurrent, hgen⟩ := hun
        rw [getElem?_erase_eq] at hcurrent
        by_cases hp : kv.1 = path
        · rw [if_pos hp] at hcurrent
          cases hcurrent
        · rw [if_neg hp] at hcurrent
          exact unchanged_iff.mpr ⟨current, hcurrent, hgen⟩

theorem clearPushed_shrinks (snapshot : DirtyMap) (s : SyncState) :
    Shrinks s.dirty (s.clearPushed snapshot).dirty fun path =>
      ∃ e, snapshot[path]? = some e ∧ s.unchanged (path, e) = true := by
  intro path
  have hfold := foldl_shrinks (f := clearPushedStep) (fun s kv => by
    unfold clearPushedStep
    split
    · exact .inr ⟨‹_›, rfl⟩
    · exact .inl rfl) snapshot.toList s path
  rcases hfold with heq | ⟨hnone, e, hmem, hun⟩
  · exact .inl heq
  · exact .inr ⟨hnone, e, Std.ExtTreeMap.mem_toList_iff_getElem?_eq_some.mp hmem, hun⟩

theorem clearPulled_shrinks (snapshot kept : DirtyMap) (conflicts : Std.ExtTreeMap String DirtyChange)
    (s : SyncState) : Shrinks s.dirty (s.clearPulled snapshot kept conflicts).dirty fun _ => True := by
  intro path
  have hfold := foldl_shrinks (f := clearPulledStep kept) (fun s kv => by
    unfold clearPulledStep
    split
    · exact .inl rfl
    · split
      · exact .inr ⟨‹_›, rfl⟩
      · exact .inl rfl) snapshot.toList s path
  exact hfold.imp_right fun h => ⟨h.1, trivial⟩

theorem foldl_nextGeneration {f : SyncState → String × DirtyEntry → SyncState}
    (hstep : ∀ s kv, (f s kv).nextGeneration = s.nextGeneration) (l : List (String × DirtyEntry))
    (s : SyncState) : (l.foldl f s).nextGeneration = s.nextGeneration := by
  induction l generalizing s with
  | nil => rfl
  | cons kv l ih => rw [List.foldl_cons, ih, hstep]

@[simp] theorem clearPushed_nextGeneration (snapshot : DirtyMap) (s : SyncState) :
    (s.clearPushed snapshot).nextGeneration = s.nextGeneration :=
  foldl_nextGeneration (fun s kv => by unfold clearPushedStep; split <;> rfl) _ _

@[simp] theorem clearPulled_nextGeneration (snapshot kept : DirtyMap)
    (conflicts : Std.ExtTreeMap String DirtyChange) (s : SyncState) :
    (s.clearPulled snapshot kept conflicts).nextGeneration = s.nextGeneration :=
  foldl_nextGeneration (fun s kv => by
    unfold clearPulledStep
    split
    · rfl
    · split <;> rfl) _ _

/-- No mark is newer than the counter. -/
def Fresh (s : SyncState) : Prop :=
  ∀ (path : String) (e : DirtyEntry), s.dirty[path]? = some e → e.generation ≤ s.nextGeneration

theorem fresh_new : Fresh new := by
  intro path e h
  simp [new] at h

theorem markDirty_getElem? (path q : String) (change : DirtyChange) (s : SyncState) :
    (s.markDirty path change).dirty[q]? = if cleanPath path = q then
      some { change, generation := s.nextGeneration + 1 } else s.dirty[q]? := by
  rw [markDirty, Std.ExtTreeMap.getElem?_insert]
  by_cases h : cleanPath path = q <;> simp [h]

theorem Fresh.markDirty (hs : Fresh s) (path : String) (change : DirtyChange) :
    Fresh (s.markDirty path change) := by
  intro q e h
  rw [markDirty_getElem?] at h
  split at h
  · cases h
    exact Nat.le_refl _
  · exact Nat.le_succ_of_le (hs q e h)

theorem Fresh.of_shrinks (hs : Fresh s) {s' : SyncState} {gone : String → Prop}
    (h : Shrinks s.dirty s'.dirty gone) (hnext : s'.nextGeneration = s.nextGeneration) : Fresh s' := by
  intro path e he
  rw [hnext]
  rcases h path with heq | ⟨hnone, -⟩
  · exact hs path e (heq.symm.trans he)
  · rw [hnone] at he
    cases he

end SyncState
end Star9
