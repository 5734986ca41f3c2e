import Star9.Task.Descriptors

/-!
# Fresh descriptors

Every open descriptor is below the counter as long as the counter never has to pass the
largest word, so a descriptor that the counter hands out is not open.
-/
namespace Star9.Task
open Base Prog

variable {σ F α : Type}

/-- The lock can be taken, and the counter is past every open descriptor. -/
structure Below (s : TaskFds σ F) : Prop where
  free : s.fds.poisoned = false
  below : ∀ fd ∈ s.files, fd < s.next

/-- The counter does not pass the largest word. -/
def NoWrap (s : TaskFds σ F) : FdOp σ F → Prop
  | .openFd _ _ => s.next ≠ 0xffffffff
  | .setFd fd _ _ => fd ≠ 0xffffffff
  | .reopenFdsFrom _ source => 0xffffffff ∉ source.table.files
  | _ => True

/-- A new descriptor is one that is not open, and every other file stays where it is. -/
def OpensFresh (overflow : Overflow) (file : F) (path : String) (s : TaskFds σ F) : Prop :=
  ∃ fd, (openFd overflow file path s).1 = .ok fd ∧ fd ∉ s.files ∧
    (openFd overflow file path s).2.files = s.files.insert fd ⟨file, path⟩

/-! ## What one operation leaves -/

@[simp] theorem setTable_files (table : FdTable F) (s : TaskFds σ F) : (s.setTable table).files = table.files := rfl

@[simp] theorem setTable_next (table : FdTable F) (s : TaskFds σ F) : (s.setTable table).next = table.next := rfl

@[simp] theorem setTable_poisoned (table : FdTable F) (s : TaskFds σ F) : (s.setTable table).fds.poisoned = s.fds.poisoned := rfl

theorem locked_eq {p : FdM σ F α} {s s' : TaskFds σ F} {r : Outcome Error α} (hfree : s.fds.poisoned = false)
    (hp : p s = (r, s')) (hr : r ≠ .abort) : locked p s = (r, s') := by
  rw [locked, hfree, hp]
  cases r with
  | ok a => rfl
  | err e => rfl
  | abort => exact absurd rfl hr

theorem succ_apply {n : UInt32} (h : n ≠ 0xffffffff) (overflow : Overflow) (s : TaskFds σ F) :
    succ overflow n s = (.ok (n + 1), s) := by
  rw [succ, if_neg fun hmax => h hmax.1]
  rfl

section
variable {overflow : Overflow} {s : TaskFds σ F} {fd : UInt32}

theorem openFd_apply (hfree : s.fds.poisoned = false) (h : s.next ≠ 0xffffffff) (file : F) (path : String) :
    openFd overflow file path s = (.ok s.next, s.setTable { files := s.files.insert s.next ⟨file, path⟩, next := s.next + 1 }) := by
  apply locked_eq hfree _ Outcome.ok_ne_abort
  rw [get_bind, bind_ok (succ_apply h overflow s)]
  rfl

theorem setFd_apply (hfree : s.fds.poisoned = false) (h : fd ≠ 0xffffffff) (file : F) (path : String) :
    setFd overflow fd file path s =
      (.ok (), s.setTable { files := s.files.insert fd ⟨file, path⟩, next := if s.next ≤ fd then fd + 1 else s.next }) := by
  apply locked_eq hfree _ Outcome.ok_ne_abort
  rw [get_bind]
  by_cases hle : s.next ≤ fd
  · simp only [if_pos hle, bind_ok (succ_apply h overflow s)]
    rfl
  · simp only [if_neg hle]
    rfl

end

theorem lt_succ {n : UInt32} (h : n ≠ 0xffffffff) : n < n + 1 := by
  have hn : n.toNat ≠ 4294967295 := fun hmax => h (UInt32.toNat_inj.mp hmax)
  have hlt := n.toNat_lt
  rw [UInt32.lt_iff_toNat_lt, UInt32.toNat_add]
  simp only [UInt32.reduceToNat]
  omega

theorem Below.insert {s : TaskFds σ F} {fd next : UInt32} {file : OpenFile F} (h : Below s) (hle : s.next ≤ next) (hlt : fd < next) :
    Below (s.setTable { files := s.files.insert fd file, next }) where
  free := h.free
  below d hd := by
    rw [setTable_files, Std.ExtTreeMap.mem_insert] at hd
    cases hd with
    | inl heq =>
      have hfd : fd = d := Std.LawfulEqCmp.compare_eq_iff_eq.mp heq
      rw [← hfd]
      exact hlt
    | inr hd => exact UInt32.lt_of_lt_of_le (h.below d hd) hle

theorem below_openFd {s : TaskFds σ F} (h : Below s) (hnext : s.next ≠ 0xffffffff) (overflow : Overflow) (file : F) (path : String) :
    Below (openFd overflow file path s).2 := by
  rw [openFd_apply h.free hnext]
  exact h.insert (UInt32.le_of_lt (lt_succ hnext)) (lt_succ hnext)

theorem below_setFd {s : TaskFds σ F} (h : Below s) {fd : UInt32} (hfd : fd ≠ 0xffffffff) (overflow : Overflow) (file : F) (path : String) :
    Below (setFd overflow fd file path s).2 := by
  rw [setFd_apply h.free hfd]
  by_cases hle : s.next ≤ fd
  · rw [if_pos hle]
    exact h.insert (UInt32.le_trans hle (UInt32.le_of_lt (lt_succ hfd))) (lt_succ hfd)
  · rw [if_neg hle]
    exact h.insert (UInt32.le_refl _) (UInt32.not_le.mp hle)

/-- Descriptors may be closed and the world may change. -/
theorem Below.mono {s s' : TaskFds σ F} (h : Below s) (hfree : s'.fds.poisoned = false) (hfiles : ∀ fd ∈ s'.files, fd ∈ s.files)
    (hnext : s'.next = s.next) : Below s' where
  free := hfree
  below fd hfd := by
    rw [hnext]
    exact h.below fd (hfiles fd hfd)

section
variable {s : TaskFds σ F}

theorem outside_fds (call : σ → Except Error α × σ) (s : TaskFds σ F) : (outside call s).2.fds = s.fds := rfl

theorem below_outside (h : Below s) (call : σ → Except Error α × σ) : Below (outside call s).2 :=
  h.mono h.free (fun _ hfd => hfd) rfl

theorem outside_ne_abort (call : σ → Except Error α × σ) (s : TaskFds σ F) : (outside call s).1 ≠ .abort := by
  rw [outside]
  cases (call s.world).1 with
  | ok a => exact Outcome.ok_ne_abort
  | error e => exact Outcome.err_ne_abort

/-- Work under a free lock that keeps the invariant. -/
theorem below_locked (h : Below s) {p : FdM σ F α} (hp : Below (p s).2) (hr : (p s).1 ≠ .abort) : Below (locked p s).2 := by
  have heq : locked p s = ((p s).1, (p s).2) := locked_eq h.free rfl hr
  rw [heq]
  exact hp

theorem below_closeFd (h : Below s) (close : CloseFile σ F) (fd : UInt32) : Below (closeFd close fd s).2 := by
  cases hfile : s.files[fd]? with
  | none =>
    apply below_locked h
    · rw [get_bind, hfile]
      exact h
    · rw [get_bind, hfile]
      exact Outcome.err_ne_abort
  | some file =>
    have herase : ∀ d ∈ s.files.erase fd, d ∈ s.files := fun d hd => Std.ExtTreeMap.mem_of_mem_erase hd
    apply below_locked h
    · rw [get_bind, hfile]
      exact h.mono h.free herase rfl
    · rw [get_bind, hfile]
      exact outside_ne_abort _ _

theorem below_moveFd (h : Below s) {source target : UInt32} (htarget : target ∈ s.files) (file : OpenFile F) :
    Below (moveFd source target file s) := by
  have hfree : (moveFd source target file s).fds.poisoned = false := h.free
  apply h.mono hfree _ rfl
  intro d hd
  rw [moveFd, setTable_files, Std.ExtTreeMap.mem_insert] at hd
  cases hd with
  | inl heq =>
    have hfd : target = d := Std.LawfulEqCmp.compare_eq_iff_eq.mp heq
    rw [← hfd]
    exact htarget
  | inr hd => exact Std.ExtTreeMap.mem_of_mem_erase hd

/-- Closing the replaced file may fail, and then nothing moves. -/
theorem below_replaceFd (h : Below s) {target : UInt32} (htarget : target ∈ s.files) (call : σ → Except Error Unit × σ)
    (source : UInt32) (file : OpenFile F) :
    Below ((outside call >>= fun _ => Prog.modify (moveFd source target file)) s).2 ∧
      ((outside call >>= fun _ => Prog.modify (moveFd source target file)) s).1 ≠ .abort := by
  have hbelow := below_outside h call
  have hcall := outside_ne_abort call s
  have hfds := outside_fds call s
  rcases hr : outside call s with ⟨u | e | _, s'⟩
  · rw [hr] at hbelow hfds
    rw [bind_ok hr]
    have hmem : target ∈ s'.files := by
      rw [TaskFds.files, hfds]
      exact htarget
    exact ⟨below_moveFd hbelow hmem file, Outcome.ok_ne_abort⟩
  · rw [hr] at hbelow
    rw [bind_err hr]
    exact ⟨hbelow, Outcome.err_ne_abort⟩
  · rw [hr] at hcall
    exact absurd rfl hcall

theorem below_renumberFd (h : Below s) (close : CloseFile σ F) (source target : UInt32) :
    Below (renumberFd close source target s).2 := by
  cases hsource : s.files[source]? with
  | none =>
    apply below_locked h
    · rw [get_bind, hsource]
      exact h
    · rw [get_bind, hsource]
      exact Outcome.err_ne_abort
  | some file =>
    by_cases heq : source = target
    · apply below_locked h
      · rw [get_bind, hsource]
        simp only [if_pos heq]
        exact h
      · rw [get_bind, hsource]
        simp only [if_pos heq]
        exact Outcome.ok_ne_abort
    cases htarget : s.files[target]? with
    | none =>
      apply below_locked h
      · rw [get_bind, hsource]
        simp only [if_neg heq, htarget]
        exact h
      · rw [get_bind, hsource]
        simp only [if_neg heq, htarget]
        exact Outcome.err_ne_abort
    | some replaced =>
      have hmem : target ∈ s.files := Std.ExtTreeMap.mem_iff_isSome_getElem?.mpr (by rw [htarget]; rfl)
      obtain ⟨hbelow, hr⟩ := below_replaceFd h hmem (close replaced.file) source file
      apply below_locked h
      · rw [get_bind, hsource]
        simp only [if_neg heq, htarget]
        exact hbelow
      · rw [get_bind, hsource]
        simp only [if_neg heq, htarget]
        exact hr

end

theorem safe_outside (call : σ → Except Error α × σ) : Safe (Below (F := F)) (fun _ => True) (outside call) :=
  fun _ h => ⟨below_outside h call, fun _ _ => trivial⟩

theorem safe_closeFiles (close : CloseFile σ F) (files : List (UInt32 × OpenFile F)) :
    Safe Below (fun _ => True) (closeFiles close files) := by
  induction files with
  | nil => exact safe_pure trivial
  | cons file files ih => exact safe_bind (safe_outside (close file.2.file)) fun _ _ => ih

/-- The state once the lock has been given back. -/
def cleared (s : TaskFds σ F) : TaskFds σ F := s.setTable { s.fds.table with files := ∅ }

theorem clearFds_eq {s : TaskFds σ F} (h : s.fds.poisoned = false) (close : CloseFile σ F) :
    clearFds close s = closeFiles close s.files.toList (cleared s) := by
  have hlocked : locked (do
      let s : TaskFds σ F ← get
      set (s.setTable { s.fds.table with files := ∅ })
      pure s.files) s = (.ok s.files, cleared s) := locked_eq h rfl Outcome.ok_ne_abort
  rw [clearFds, bind_ok hlocked]

theorem below_clearFds {s : TaskFds σ F} (h : Below s) (close : CloseFile σ F) : Below (clearFds close s).2 := by
  have hclear : Below (s.setTable { s.fds.table with files := ∅ }) :=
    h.mono h.free (fun fd hfd => absurd hfd Std.ExtTreeMap.not_mem_empty) rfl
  rw [clearFds_eq h.free]
  exact (safe_closeFiles close s.files.toList _ hclear).1

theorem safe_reopenFds (overflow : Overflow) (openPath : OpenPath σ F) {entries : List (UInt32 × String)}
    (h : ∀ entry ∈ entries, entry.1 ≠ 0xffffffff) : Safe Below (fun _ => True) (reopenFds overflow openPath entries) := by
  induction entries with
  | nil => exact safe_pure trivial
  | cons entry entries ih =>
    apply safe_bind (safe_outside (openPath entry.2))
    intro file _
    have hset : Safe Below (fun _ => True) (setFd overflow entry.1 file entry.2 : FdM σ F Unit) := fun s hs =>
      ⟨below_setFd hs (h entry List.mem_cons_self) overflow file entry.2, fun _ _ => trivial⟩
    exact safe_bind hset fun _ _ => ih fun other hother => h other (List.mem_cons_of_mem _ hother)

theorem mem_of_mem_entries {table : FdTable F} {entry : UInt32 × String} (h : entry ∈ table.entries) : entry.1 ∈ table.files := by
  obtain ⟨⟨fd, file⟩, hmem, rfl⟩ := List.mem_map.mp h
  exact Std.ExtTreeMap.mem_iff_isSome_getElem?.mpr (by rw [Std.ExtTreeMap.mem_toList_iff_getElem?_eq_some.mp hmem]; rfl)

theorem below_reopenFdsFrom {s : TaskFds σ F} (h : Below s) (overflow : Overflow) (openPath : OpenPath σ F) {source : FdLock F}
    (hsource : 0xffffffff ∉ source.table.files) : Below (reopenFdsFrom overflow openPath source s).2 := by
  have hentries : ∀ entry ∈ source.table.entries, entry.1 ≠ 0xffffffff := fun entry hentry hmax =>
    hsource (hmax ▸ mem_of_mem_entries hentry)
  rw [reopenFdsFrom, fdEntries]
  by_cases hpoisoned : source.poisoned
  · rw [if_pos hpoisoned]
    exact h
  · rw [if_neg hpoisoned, pure_bind]
    exact (safe_reopenFds overflow openPath hentries s h).1

/-! ## Runs -/

theorem below_new (world : σ) : Below (TaskFds.new world : TaskFds σ F) where
  free := rfl
  below _ hfd := absurd hfd Std.ExtTreeMap.not_mem_empty

theorem below_step {s : TaskFds σ F} (h : Below s) (overflow : Overflow) (close : CloseFile σ F) (op : FdOp σ F) (hop : NoWrap s op) :
    Below (step overflow close s op) := by
  cases op with
  | openFd file path => exact below_openFd h hop overflow file path
  | setFd fd file path => exact below_setFd h hop overflow file path
  | closeFd fd => exact below_closeFd h close fd
  | renumberFd source target => exact below_renumberFd h close source target
  | clearFds => exact below_clearFds h close
  | reopenFdsFrom openPath source => exact below_reopenFdsFrom h overflow openPath hop

theorem opensFresh_of_below {s : TaskFds σ F} (h : Below s) (hnext : s.next ≠ 0xffffffff) (overflow : Overflow) (file : F)
    (path : String) : OpensFresh overflow file path s := by
  refine ⟨s.next, ?_, fun hmem => UInt32.lt_irrefl _ (h.below s.next hmem), ?_⟩
  · rw [openFd_apply h.free hnext]
  · rw [openFd_apply h.free hnext]
    rfl

/-- In a run whose steps never take the counter past the largest word, every descriptor that
is opened is a fresh one. -/
theorem openFd_fresh (overflow : Overflow) (close : CloseFile σ F) (world : σ) (ops : List (FdOp σ F))
    (h : StepsMeet (step overflow close) NoWrap (TaskFds.new world) ops) (k : Nat) (file : F) (path : String)
    (hk : ops[k]? = some (.openFd file path)) :
    OpensFresh overflow file path (run (step overflow close) (TaskFds.new world) (ops.take k)) := by
  have hbelow : Below (run (step overflow close) (TaskFds.new world) (ops.take k)) :=
    run_invariant (I := Below) (fun _ op hs hop => below_step hs overflow close op hop) (below_new world) (h.take k)
  exact opensFresh_of_below hbelow (h.allowed hk) overflow file path

/-- Closes nothing. -/
def closeNothing : CloseFile Unit Unit := fun _ world => (.ok (), world)

theorem openFd_fresh_eight :
    OpensFresh .panics () "b" (run (step .panics closeNothing) (TaskFds.new () : TaskFds Unit Unit) [.setFd 7 () "a"]) := by
  have hset : (7 : UInt32) ≠ 0xffffffff := by decide
  have hopen : (step .panics closeNothing (TaskFds.new () : TaskFds Unit Unit) (.setFd 7 () "a")).next ≠ 0xffffffff := by decide
  exact openFd_fresh .panics closeNothing () [.setFd 7 () "a", .openFd () "b"] ⟨hset, hopen, trivial⟩ 1 () "b" rfl

/-- After the largest number is set the counter wraps to zero, and the file at zero is replaced.
Where the addition panics instead, nobody can open a descriptor again. -/
theorem openFd_not_fresh :
    ¬OpensFresh .wraps () "b"
        (run (step .wraps closeNothing) (TaskFds.new () : TaskFds Unit Unit) [.setFd 0 () "stdin", .setFd 0xffffffff () "a"]) ∧
      ¬OpensFresh .panics () "b"
        (run (step .panics closeNothing) (TaskFds.new () : TaskFds Unit Unit) [.setFd 0 () "stdin", .setFd 0xffffffff () "a"]) := by
  constructor
  · rintro ⟨fd, hopen, hfresh, -⟩
    have hfd : (openFd .wraps () "b"
        (run (step .wraps closeNothing) (TaskFds.new () : TaskFds Unit Unit)
          [.setFd 0 () "stdin", .setFd 0xffffffff () "a"])).1.toOption = some 0 := by decide +kernel
    rw [hopen] at hfd
    cases hfd
    exact hfresh (by decide +kernel)
  · rintro ⟨fd, hopen, -, -⟩
    have hnone : (openFd .panics () "b"
        (run (step .panics closeNothing) (TaskFds.new () : TaskFds Unit Unit)
          [.setFd 0 () "stdin", .setFd 0xffffffff () "a"])).1.toOption = none := by decide +kernel
    rw [hopen] at hnone
    cases hnone

end Star9.Task
