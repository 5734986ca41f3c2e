import Star9.Task.FdFresh

/-!
# Clearing descriptors and opening them again

Clearing leaves no descriptor, also when closing one of the files fails. Opening the
descriptors of another task again leaves each of them under its number and path.
-/
namespace Star9.Task
open Base Prog

variable {σ F α : Type}

/-! ## Clearing -/

theorem locked_poisoned {s : TaskFds σ F} (h : s.fds.poisoned = true) (p : FdM σ F α) : locked p s = (.abort, s) := by
  rw [locked, if_pos h]

theorem closeFiles_fds (close : CloseFile σ F) (files : List (UInt32 × OpenFile F)) (s : TaskFds σ F) :
    (closeFiles close files s).2.fds = s.fds := by
  induction files generalizing s with
  | nil => rfl
  | cons file files ih =>
    have hfds := outside_fds (close file.2.file) s
    rw [closeFiles, bind_apply]
    rcases h : outside (close file.2.file) s with ⟨u | e | _, s'⟩
    · rw [h] at hfds
      exact (ih s').trans hfds
    · rw [h] at hfds
      exact hfds
    · rw [h] at hfds
      exact hfds

theorem clearFds_files {s : TaskFds σ F} {close : CloseFile σ F} (h : (clearFds close s).1 ≠ .abort) : (clearFds close s).2.files = ∅ := by
  cases hp : s.fds.poisoned with
  | true =>
    rw [clearFds, bind_abort (locked_poisoned hp _)] at h
    exact absurd rfl h
  | false =>
    rw [clearFds_eq hp, TaskFds.files, closeFiles_fds]
    rfl

/-- Only an open file can fail to close. -/
theorem clearFds_of_empty {s : TaskFds σ F} (h : s.fds.poisoned = false) (hfiles : s.files = ∅) (close : CloseFile σ F) :
    (clearFds close s).1 = .ok () := by
  rw [clearFds_eq h, hfiles]
  rfl

theorem files_ne_of_clearFds_err {s : TaskFds σ F} {close : CloseFile σ F} {e : Error} (h : (clearFds close s).1 = .err e) : s.files ≠ ∅ := by
  intro hfiles
  cases hp : s.fds.poisoned with
  | true =>
    rw [clearFds, bind_abort (locked_poisoned hp _)] at h
    cases h
  | false =>
    rw [clearFds_of_empty hp hfiles] at h
    cases h

/-! ## Opening again -/

/-- The path of a descriptor. -/
def TaskFds.path (s : TaskFds σ F) (fd : UInt32) : Option String := (s.files[fd]?).map OpenFile.path

theorem locked_eq_ok {p : FdM σ F α} {s s' : TaskFds σ F} {a : α} (h : locked p s = (.ok a, s')) : p s = (.ok a, s') := by
  unfold locked at h
  split at h
  · cases congrArg Prod.fst h
  · split at h
    · cases congrArg Prod.fst h
    · exact h

/-- Setting a descriptor puts the file under its number. -/
theorem setFd_eq_ok {overflow : Overflow} {s s' : TaskFds σ F} {fd : UInt32} {file : F} {path : String}
    (h : setFd overflow fd file path s = (.ok (), s')) : s'.files = s.files.insert fd ⟨file, path⟩ := by
  have hrun := locked_eq_ok h
  rw [get_bind] at hrun
  by_cases hle : s.next ≤ fd
  · rw [if_pos hle] at hrun
    obtain ⟨next, t, hnext, hset⟩ := bind_eq_ok.mp hrun
    rw [succ] at hnext
    split at hnext
    · cases congrArg Prod.fst hnext
    · cases hnext
      cases hset
      rfl
  · rw [if_neg hle] at hrun
    cases hrun
    rfl

theorem setFd_path {overflow : Overflow} {s s' : TaskFds σ F} {fd : UInt32} {file : F} {path : String}
    (h : setFd overflow fd file path s = (.ok (), s')) (d : UInt32) : s'.path d = if d = fd then some path else s.path d := by
  rw [TaskFds.path, setFd_eq_ok h, Std.ExtTreeMap.getElem?_insert]
  by_cases hd : d = fd
  · simp [hd]
  · have hne : ¬compare fd d = .eq := fun heq => hd (Std.LawfulEqCmp.compare_eq_iff_eq.mp heq).symm
    rw [if_neg hne, if_neg hd, TaskFds.path]

/-- Every entry is open under its number and path, and nothing else is changed. -/
theorem reopenFds_path {overflow : Overflow} {openPath : OpenPath σ F} {entries : List (UInt32 × String)}
    (hkeys : entries.Pairwise fun a b => a.1 ≠ b.1) {s s' : TaskFds σ F} (h : reopenFds overflow openPath entries s = (.ok (), s'))
    (fd : UInt32) :
    (∀ path, (fd, path) ∈ entries → s'.path fd = some path) ∧ ((∀ path, (fd, path) ∉ entries) → s'.path fd = s.path fd) := by
  induction entries generalizing s with
  | nil =>
    cases h
    exact ⟨fun _ hmem => absurd hmem List.not_mem_nil, fun _ => rfl⟩
  | cons entry entries ih =>
    obtain ⟨hhead, htail⟩ := List.pairwise_cons.mp hkeys
    obtain ⟨file, s₁, hopen, hrest⟩ := bind_eq_ok.mp h
    obtain ⟨u, s₂, hset, hreopen⟩ := bind_eq_ok.mp hrest
    obtain ⟨hmem, hother⟩ := ih htail hreopen
    have hpath := setFd_path hset fd
    have hworld : s₁.path fd = s.path fd := by
      have hfds := outside_fds (openPath entry.2) s
      rw [hopen] at hfds
      rw [TaskFds.path, TaskFds.path, TaskFds.files, TaskFds.files, hfds]
    constructor
    · intro path hin
      cases List.mem_cons.mp hin with
      | inl heq =>
        -- no later entry has the same number
        have hlater : ∀ p, (fd, p) ∉ entries := fun p hp => hhead (fd, p) hp (by rw [← heq])
        rw [hother hlater, hpath, ← heq, if_pos rfl]
      | inr hin => exact hmem path hin
    · intro hnot
      have hne : fd ≠ entry.1 := fun heq => hnot entry.2 (by rw [heq]; exact List.mem_cons_self)
      rw [hother fun p hp => hnot p (List.mem_cons_of_mem _ hp), hpath, if_neg hne, hworld]

theorem entries_pairwise (table : FdTable F) : table.entries.Pairwise fun a b => a.1 ≠ b.1 := by
  apply List.pairwise_map.mpr
  apply List.Pairwise.imp _ (Std.ExtTreeMap.distinct_keys_toList (t := table.files))
  intro a b hne heq
  exact hne (Std.LawfulEqCmp.compare_eq_iff_eq.mpr heq)

theorem mem_entries_iff (table : FdTable F) (fd : UInt32) (path : String) :
    (fd, path) ∈ table.entries ↔ (table.files[fd]?).map OpenFile.path = some path := by
  rw [FdTable.entries, List.mem_map, Option.map_eq_some_iff]
  constructor
  · rintro ⟨⟨d, file⟩, hmem, heq⟩
    cases heq
    exact ⟨file, Std.ExtTreeMap.mem_toList_iff_getElem?_eq_some.mp hmem, rfl⟩
  · rintro ⟨file, hfile, rfl⟩
    exact ⟨(fd, file), Std.ExtTreeMap.mem_toList_iff_getElem?_eq_some.mpr hfile, rfl⟩

/-- A new task has the descriptors of the other one, under the same paths. -/
theorem reopenFdsFrom_path {overflow : Overflow} {openPath : OpenPath σ F} {source : FdLock F} {s s' : TaskFds σ F} (hs : s.files = ∅)
    (h : reopenFdsFrom overflow openPath source s = (.ok (), s')) (fd : UInt32) :
    s'.path fd = (source.table.files[fd]?).map OpenFile.path := by
  rw [reopenFdsFrom, fdEntries] at h
  by_cases hp : source.poisoned
  · rw [if_pos hp] at h
    cases congrArg Prod.fst h
  rw [if_neg hp, pure_bind] at h
  obtain ⟨hmem, hother⟩ := reopenFds_path (entries_pairwise source.table) h fd
  cases hpath : (source.table.files[fd]?).map OpenFile.path with
  | some path => exact hmem path ((mem_entries_iff source.table fd path).mpr hpath)
  | none =>
    have hnot : ∀ path, (fd, path) ∉ source.table.entries := by
      intro path hin
      rw [mem_entries_iff, hpath] at hin
      cases hin
    rw [hother hnot, TaskFds.path, hs]
    rfl

end Star9.Task
