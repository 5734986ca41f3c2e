import Star9.Runtime.WasiFd
import Star9.Runtime.WasiPath
import Star9.Fs.MemHandle

/-!
# What a failing import leaves of the descriptor table

A descriptor is allocated, removed or its file closed before the last step of an import that can
fail: putting the result into the memory of the guest, or closing the file.
-/
namespace Star9
open Base Prog

namespace WasiCaller
variable {σ η α : Type} {isClosed : η → Bool}

/-! ## What is seen of a table -/

/-- An open descriptor has a path and a file that is closed or not. -/
def table (isClosed : η → Bool) (w : WasiCaller σ η) (fd : Nat) : Option (String × Bool) :=
  (w.files[fd]?).map fun file => (file.path, isClosed file.file)

def seen (isClosed : η → Bool) (w : WasiCaller σ η) : (Nat → Option (String × Bool)) × Nat × Option Bytes :=
  (w.table isClosed, w.nextFd, w.memory)

/-- Every open descriptor is below the counter. -/
def Counted (w : WasiCaller σ η) : Prop := ∀ fd ∈ w.files, fd < w.nextFd

/-- A range of bytes inside the memory of the guest. -/
def Fits (w : WasiCaller σ η) (ptr : Int) (len : Nat) : Prop := 0 ≤ ptr ∧ ∃ data, w.memory = some data ∧ ptr + len ≤ data.length

theorem writeBytes_of_fits {w : WasiCaller σ η} {ptr : Int} {bytes : Bytes} (h : w.Fits ptr bytes.length) :
    ∃ data, (writeBytes ptr bytes : Prog (WasiCaller σ η) Errno Unit) w = (.ok (), { w with memory := some data }) := by
  obtain ⟨hptr, data, hmemory, hlen⟩ := h
  refine ⟨data.take ptr.toNat ++ bytes ++ data.drop (ptr.toNat + bytes.length), ?_⟩
  unfold writeBytes
  rw [get_bind, branch_apply, if_neg (by omega), hmemory]
  dsimp only
  rw [branch_apply, if_neg (by omega)]
  rfl

theorem writeBytes_of_not_fits {w : WasiCaller σ η} {ptr : Int} {bytes : Bytes} (h : ¬ w.Fits ptr bytes.length) :
    (writeBytes ptr bytes : Prog (WasiCaller σ η) Errno Unit) w = (.err Errno.inval, w) := by
  unfold writeBytes
  rw [get_bind, branch_apply]
  by_cases hptr : ptr < 0
  · rw [if_pos hptr]
    rfl
  · rw [if_neg hptr]
    cases hmemory : w.memory with
    | none => rfl
    | some data =>
      dsimp only
      rw [branch_apply, if_pos]
      · rfl
      · by_contra hlen
        exact h ⟨by omega, data, hmemory, by omega⟩

theorem preserves_call (p : Prog σ Error α) : Preserves (seen isClosed) (call p : Prog (WasiCaller σ η) Errno α) := by
  intro w
  unfold call
  rcases p w.ns with ⟨a | e | _, s⟩ <;> rfl

theorem preserves_readWasiPath (fd : Int32) (s : GuestString) :
    Preserves (seen isClosed) (readWasiPath fd s : Prog (WasiCaller σ η) Errno String) := by
  intro w
  rcases readWasiPath_cases fd s w with ⟨e, herr⟩ | ⟨b, path, -, -, hok⟩
  · rw [herr]
  · rw [hok]

/-- Putting a file back leaves the table as it is seen when it is as closed as before. -/
theorem table_insert {w : WasiCaller σ η} {fd : Nat} {file : OpenFile η} (hfile : w.files[fd]? = some file) {handle : η}
    (h : isClosed handle = isClosed file.file) (ns : σ) :
    ({ w with ns, files := w.files.insert fd { file with file := handle } } : WasiCaller σ η).table isClosed = w.table isClosed := by
  funext n
  unfold table
  dsimp only
  by_cases hn : fd = n
  · subst hn
    rw [Std.ExtTreeMap.getElem?_insert_self, hfile, Option.map_some, Option.map_some, h]
  · rw [Std.ExtTreeMap.getElem?_insert, if_neg (by rwa [Std.LawfulEqCmp.compare_eq_iff_eq])]

theorem preserves_withFdMut {p : Prog (η × σ) Error α} (h : ∀ s, isClosed (p s).2.1 = isClosed s.1) (fd : Int32) :
    Preserves (seen isClosed) (withFdMut fd p : Prog (WasiCaller σ η) Errno α) := by
  intro w
  unfold withFdMut
  cases hfile : w.files[fd.toUInt32.toNat]? with
  | none => rfl
  | some file =>
    dsimp only
    have hclosed := h (file.file, w.ns)
    rcases hp : p (file.file, w.ns) with ⟨a | e | _, handle, ns⟩ <;> rw [hp] at hclosed
    · exact congrArg (·, _) (table_insert hfile hclosed ns)
    · exact congrArg (·, _) (table_insert hfile hclosed ns)
    · exact congrArg (·, _) (table_insert hfile hclosed ns)

end WasiCaller

/-! ## The imports that open a file -/

namespace Wasi
open WasiCaller
variable {σ η : Type} (ns : FileSystem σ η) {isClosed : η → Bool}

/-- A failing run leaves the table as it was. -/
def KeepsTable (isClosed : η → Bool) (p : Prog (WasiCaller σ η) Errno Unit) (w : WasiCaller σ η) : Prop :=
  ∀ e w', p w = (.err e, w') → w'.table isClosed = w.table isClosed

/-- The file that `path_open` opens, with its path. -/
def openedPath (fd : Int32) (path : GuestString) (oflags : Int32) (rightsBase : Int64) (fdflags : Int32) :
    Prog (WasiCaller σ η) Errno (η × String) := do
  let path ← readWasiPath fd path
  let file ← if oflags &&& oflagsDirectory ≠ 0 then call (ns.open_ FsContext.new path)
    else call (ns.openFile path (openFlags oflags fdflags rightsBase) (FileMode.fromPerm 0o666))
  pure (file, path)

/-- The connection that `sock_accept` opens, with its path. -/
def acceptedFile (fd : Int32) : Prog (WasiCaller σ η) Errno (η × String) := do
  let w ← get
  let path ← ofOption (Errno.fromFdLookupError (fdError fd)) (w.fdPath fd)
  if netListenerIdFromPath path = none then throw Errno.notsup
  else do
    let accepted ← withFdMut fd (ns.file.read 64)
    if accepted = [] then throw Errno.again
    else do
      let acceptedId ← ofOption Errno.inval ((utf8String? accepted).map trim)
      if acceptedId = "" then throw Errno.again
      else do
        let file ← call (ns.open_ FsContext.new ("#net/" ++ acceptedId ++ "/data"))
        pure (file, "#net/" ++ acceptedId ++ "/data")

/-- The descriptor is handed to the guest through its memory. -/
def handOut (opened : η × String) (ptr : Int) : Prog (WasiCaller σ η) Errno Unit := do
  let fd ← openFd opened.1 opened.2
  writeU32 ptr fd

theorem pathOpen_eq (fd : Int32) (path : GuestString) (oflags : Int32) (rightsBase : Int64) (fdflags : Int32) (ptr : Int) :
    pathOpen ns fd path oflags rightsBase fdflags ptr = openedPath ns fd path oflags rightsBase fdflags >>= fun opened => handOut opened ptr := by
  simp only [pathOpen, openedPath, handOut, bind_assoc]
  congr 1
  funext path
  split
  · rw [bind_assoc]
    rfl
  · rw [bind_assoc]
    rfl

theorem ite_throw_bind {S ε α β : Type} {c : Prop} [Decidable c] (e : ε) (p : Prog S ε α) (f : α → Prog S ε β) :
    (if c then throw e else p) >>= f = if c then throw e else p >>= f := by
  split
  · rfl
  · rfl

theorem sockAccept_eq (fd fdPtr : Int32) :
    sockAccept ns fd fdPtr = acceptedFile ns fd >>= fun opened => handOut opened fdPtr.toInt := by
  simp only [sockAccept, acceptedFile, handOut, bind_assoc, pure_bind, ite_throw_bind]

theorem preserves_openedPath (fd : Int32) (path : GuestString) (oflags : Int32) (rightsBase : Int64) (fdflags : Int32) :
    Preserves (seen isClosed) (openedPath ns fd path oflags rightsBase fdflags) := by
  apply preserves_bind (preserves_readWasiPath fd path)
  intro path
  dsimp only
  split
  · exact preserves_bind (preserves_call _) fun file => preserves_pure _
  · exact preserves_bind (preserves_call _) fun file => preserves_pure _

theorem preserves_acceptedFile (hread : ∀ len s, isClosed (ns.file.read len s).2.1 = isClosed s.1) (fd : Int32) :
    Preserves (seen isClosed) (acceptedFile ns fd) := by
  apply preserves_bind preserves_get
  intro w
  apply preserves_bind (preserves_ofOption _ _)
  intro path
  apply preserves_ite (preserves_throw _)
  apply preserves_bind (preserves_withFdMut (hread 64) fd)
  intro accepted
  apply preserves_ite (preserves_throw _)
  apply preserves_bind (preserves_ofOption _ _)
  intro acceptedId
  apply preserves_ite (preserves_throw _)
  apply preserves_bind (preserves_call _)
  intro file
  exact preserves_pure _

theorem handOut_cases (opened : η × String) (ptr : Int) (w : WasiCaller σ η) :
    (w.nextFd = 0xffffffff ∧ handOut opened ptr w = (.abort, w)) ∨
    (w.Fits ptr 4 ∧ ∃ w', handOut opened ptr w = (.ok (), w')) ∨
    (w.nextFd ≠ 0xffffffff ∧ ¬ w.Fits ptr 4 ∧ handOut opened ptr w =
      (.err Errno.inval, { w with nextFd := w.nextFd + 1, files := w.files.insert w.nextFd ⟨opened.1, opened.2⟩ })) := by
  by_cases hnext : w.nextFd = 0xffffffff
  · refine Or.inl ⟨hnext, ?_⟩
    have hopen : (openFd opened.1 opened.2 : Prog (WasiCaller σ η) Errno Nat) w = (.abort, w) := by
      unfold openFd
      rw [get_bind, branch_apply, if_pos hnext]
      rfl
    exact bind_abort hopen
  · have hopen : (openFd opened.1 opened.2 : Prog (WasiCaller σ η) Errno Nat) w =
        (.ok w.nextFd, { w with nextFd := w.nextFd + 1, files := w.files.insert w.nextFd ⟨opened.1, opened.2⟩ }) := by
      unfold openFd
      rw [get_bind, branch_apply, if_neg hnext]
      rfl
    have hlen : (leBytes 4 w.nextFd).length = 4 := leBytes_length 4 w.nextFd
    refine Or.inr ?_
    rw [handOut, bind_ok hopen]
    by_cases hfits : w.Fits ptr 4
    · obtain ⟨data, hwrite⟩ := @writeBytes_of_fits σ η
        { w with nextFd := w.nextFd + 1, files := w.files.insert w.nextFd ⟨opened.1, opened.2⟩ } ptr (leBytes 4 w.nextFd) (by rwa [hlen])
      exact Or.inl ⟨hfits, _, hwrite⟩
    · refine Or.inr ⟨hnext, hfits, ?_⟩
      exact @writeBytes_of_not_fits σ η
        { w with nextFd := w.nextFd + 1, files := w.files.insert w.nextFd ⟨opened.1, opened.2⟩ } ptr (leBytes 4 w.nextFd) (by rwa [hlen])

/-- Once a file is open, its descriptor stays in the table whether or not the guest is told. -/
theorem keepsTable_handOut {p : Prog (WasiCaller σ η) Errno (η × String)} (hp : Preserves (seen isClosed) p) {w : WasiCaller σ η}
    (hcounted : w.Counted) (ptr : Int) :
    KeepsTable isClosed (p >>= fun opened => handOut opened ptr) w ↔
      ((∃ opened w', p w = (.ok opened, w')) → w.nextFd ≠ 0xffffffff → w.Fits ptr 4) := by
  have hseen := hp w
  rcases hrun : p w with ⟨opened | e | _, w₁⟩ <;> rw [hrun] at hseen
  · obtain ⟨htable, hnext, hmemory⟩ : w₁.table isClosed = w.table isClosed ∧ w₁.nextFd = w.nextFd ∧ w₁.memory = w.memory := by
      simpa [seen] using hseen
    have hfits : w₁.Fits ptr 4 ↔ w.Fits ptr 4 := by rw [Fits, Fits, hmemory]
    rw [KeepsTable, bind_ok hrun]
    rcases handOut_cases opened ptr w₁ with ⟨hmax, hout⟩ | ⟨hin, w₂, hout⟩ | ⟨hmax, hnot, hout⟩
    · rw [hout]
      constructor
      · intro _ _ hne
        exact absurd (hnext ▸ hmax) hne
      · intro _ e w' h
        cases h
    · rw [hout]
      constructor
      · intro _ _ _
        exact hfits.mp hin
      · intro _ e w' h
        cases h
    · rw [hout]
      constructor
      · intro hkeeps _ _
        have hsame := congrFun (hkeeps _ _ rfl) w₁.nextFd
        have hfree : w.files[w.nextFd]? = none :=
          Std.ExtTreeMap.getElem?_eq_none fun hmem => absurd (hcounted _ hmem) (Nat.lt_irrefl _)
        rw [hnext] at hsame
        simp only [table, Std.ExtTreeMap.getElem?_insert_self, hfree] at hsame
        cases hsame
      · intro hcondition
        rw [hnext] at hmax
        exact absurd (hfits.mpr (hcondition ⟨opened, w₁, rfl⟩ hmax)) hnot
  · rw [KeepsTable, bind_err hrun]
    constructor
    · rintro _ ⟨opened, w', h⟩
      cases h
    · intro _ e' w' h
      cases h
      exact congrArg Prod.fst hseen
  · rw [KeepsTable, bind_abort hrun]
    constructor
    · rintro _ ⟨opened, w', h⟩
      cases h
    · intro _ e' w' h
      cases h

/-! ## The imports that close a file -/

theorem keepsTable_fdClose {w : WasiCaller σ η} (fd : Int32) :
    KeepsTable isClosed (fdClose ns fd) w ↔
      ∀ file, w.files[fd.toUInt32.toNat]? = some file → ∀ e s, ns.file.close (file.file, w.ns) ≠ (.err e, s) := by
  unfold KeepsTable fdClose
  cases hfile : w.files[fd.toUInt32.toNat]? with
  | none =>
    constructor
    · intro _ file h
      cases h
    · intro _ e w' h
      rw [← (Prod.mk.inj h).2]
  | some file =>
    dsimp only
    rcases hclose : ns.file.close (file.file, w.ns) with ⟨a | e | _, handle, s⟩
    · constructor
      · rintro _ file' hsome e s' herr
        rw [← Option.some.inj hsome, hclose] at herr
        cases herr
      · intro _ e w' h
        cases h
    · constructor
      · intro hkeeps
        have hsame := congrFun (hkeeps _ _ rfl) fd.toUInt32.toNat
        simp only [table, Std.ExtTreeMap.getElem?_erase_self, hfile] at hsame
        cases hsame
      · intro hcondition
        exact absurd hclose (hcondition file rfl e (handle, s))
    · constructor
      · rintro _ file' hsome e s' herr
        rw [← Option.some.inj hsome, hclose] at herr
        cases herr
      · intro _ e w' h
        cases h

theorem keepsTable_fdRenumber {w : WasiCaller σ η} (source target : Int32) :
    KeepsTable isClosed (fdRenumber ns source target) w ↔
      ∀ file replaced, source ≠ target → w.files[source.toUInt32.toNat]? = some file → w.files[target.toUInt32.toNat]? = some replaced →
        ∀ e handle s, ns.file.close (replaced.file, w.ns) = (.err e, handle, s) → isClosed handle = isClosed replaced.file := by
  unfold KeepsTable fdRenumber
  cases hsource : w.files[source.toUInt32.toNat]? with
  | none =>
    constructor
    · intro _ file replaced _ h
      cases h
    · intro _ e w' h
      rw [← (Prod.mk.inj h).2]
  | some file =>
    by_cases hsame : source = target
    · constructor
      · intro _ _ _ hne
        exact absurd hsame hne
      · intro _ e w' h
        dsimp only at h
        rw [if_pos hsame] at h
        cases h
    · cases htarget : w.files[target.toUInt32.toNat]? with
      | none =>
        constructor
        · intro _ file replaced _ _ h
          cases h
        · intro _ e w' h
          dsimp only at h
          rw [if_neg hsame] at h
          rw [← (Prod.mk.inj h).2]
      | some replaced =>
        dsimp only
        rw [if_neg hsame]
        unfold withFdMut
        rw [htarget]
        dsimp only
        rcases hclose : ns.file.close (replaced.file, w.ns) with ⟨a | e | _, handle, s⟩
        · constructor
          · rintro _ _ replaced' _ _ hsome e handle' s' herr
            rw [← Option.some.inj hsome, hclose] at herr
            cases herr
          · intro _ e w' h
            cases h
        · constructor
          · rintro hkeeps _ replaced' _ _ hsome e' handle' s' herr
            obtain rfl := Option.some.inj hsome
            rw [hclose] at herr
            have hhandle : handle = handle' := congrArg (fun r => r.2.1) herr
            rw [← hhandle]
            have htable := congrFun (hkeeps _ _ rfl) target.toUInt32.toNat
            simp only [table, Std.ExtTreeMap.getElem?_insert_self, htarget, Option.map_some, Option.some.injEq, Prod.mk.injEq, true_and] at htable
            exact htable
          · intro hcondition e' w' h
            rw [← (Prod.mk.inj h).2]
            exact table_insert htarget (hcondition file replaced hsame rfl rfl e handle s hclose) s
        · constructor
          · rintro _ _ replaced' _ _ hsome e handle' s' herr
            rw [← Option.some.inj hsome, hclose] at herr
            cases herr
          · intro _ e w' h
            cases h

/-! ## The imports that open and close nothing -/

/-- The open descriptors with their paths, and the descriptor that is handed out next. -/
def handed (w : WasiCaller σ η) : (Nat → Option String) × Nat := (fun fd => (w.files[fd]?).map (·.path), w.nextFd)

theorem preserves_handed {α : Type} {p : Prog (WasiCaller σ η) Errno α} (h : Preserves (seen fun _ => false) p) : Preserves handed p := by
  intro w
  have hhanded : ∀ w : WasiCaller σ η, handed w = (fun fd => (w.table (fun _ => false) fd).map Prod.fst, w.nextFd) := by
    intro w
    simp [handed, table, Function.comp_def]
  have hseen := h w
  rw [seen, seen, Prod.mk.injEq, Prod.mk.injEq] at hseen
  rw [hhanded, hhanded, hseen.1, hseen.2.1]

theorem preserves_writes (ptr : Int) (bytes : Bytes) : Preserves handed (writeBytes ptr bytes : Prog (WasiCaller σ η) Errno Unit) :=
  preserves_writeBytes (fun _ _ => rfl) ptr bytes

theorem preserves_checkedI32 (n : Int) : Preserves handed (checkedI32 n : Prog (WasiCaller σ η) Errno Int) :=
  preserves_ite preserves_abort (preserves_pure _)

theorem preserves_checkedElement (base : Int) (index size : Nat) :
    Preserves handed (checkedElement base index size : Prog (WasiCaller σ η) Errno Int) :=
  preserves_ite (preserves_throw _) (preserves_pure _)

theorem preserves_readLe (width : Nat) (ptr : Int) : Preserves handed (readLe width ptr : Prog (WasiCaller σ η) Errno Nat) :=
  preserves_bind preserves_get fun _ => preserves_ofOption _ _

theorem preserves_fdPathOf (fd : Int32) : Preserves handed (fdPathOf fd : Prog (WasiCaller σ η) Errno String) :=
  preserves_bind preserves_get fun _ => preserves_ofOption _ _

theorem preserves_onHandle {α : Type} (fd : Int32) (p : Prog (η × σ) Error α) :
    Preserves handed (withFdMut fd p : Prog (WasiCaller σ η) Errno α) :=
  preserves_handed (preserves_withFdMut (fun _ => rfl) fd)

theorem preserves_writeAt (n : Int) (bytes : Bytes) :
    Preserves handed (checkedI32 n >>= fun ptr => writeBytes ptr bytes : Prog (WasiCaller σ η) Errno Unit) :=
  preserves_bind (preserves_checkedI32 _) fun _ => preserves_writes _ _

theorem preserves_writeThen {α : Type} {rest : Prog (WasiCaller σ η) Errno α} (h : Preserves handed rest) (n : Int) (bytes : Bytes) :
    Preserves handed (checkedI32 n >>= fun ptr => writeBytes ptr bytes >>= fun _ => rest) :=
  preserves_bind (preserves_checkedI32 _) fun _ => preserves_bind (preserves_writes _ _) fun _ => h

theorem preserves_readThen {α : Type} {rest : Nat → Prog (WasiCaller σ η) Errno α} (h : ∀ value, Preserves handed (rest value))
    (width : Nat) (n : Int) : Preserves handed (checkedI32 n >>= fun ptr => readLe width ptr >>= rest) :=
  preserves_bind (preserves_checkedI32 _) fun _ => preserves_bind (preserves_readLe _ _) h

theorem preserves_writeEvent (ptr : Int) (userdata : Nat) (eventType : UInt8) (nbytes : Nat) :
    Preserves handed (writeEvent ptr userdata eventType nbytes : Prog (WasiCaller σ η) Errno Unit) := by
  refine preserves_bind (preserves_writes _ _) fun _ => preserves_writeThen (preserves_writeThen ?_ _ _) _ _
  exact preserves_ite (preserves_writeThen (preserves_writeAt _ _) _ _) (preserves_pure _)

theorem preserves_pollClock (subscription : Int) : Preserves handed (pollClock subscription : Prog (WasiCaller σ η) Errno Unit) := by
  refine preserves_readThen (fun _ => preserves_readThen (fun _ => preserves_readThen (fun _ => ?_) _ _) _ _) _ _
  exact preserves_ite (preserves_throw _) (preserves_pure _)

theorem preserves_pollFd (subscription : Int) (eventType : UInt8) : Preserves handed (pollFd ns subscription eventType) := by
  refine preserves_readThen (fun fd => preserves_ite ?_ ?_) _ _
  · exact preserves_bind (preserves_onHandle _ _) fun _ => preserves_pure _
  · exact preserves_bind (preserves_fdPathOf _) fun _ => preserves_pure _

theorem preserves_pollFrom (inPtr outPtr : Int) (count index : Nat) : Preserves handed (pollFrom ns inPtr outPtr count index) := by
  induction count generalizing index with
  | zero => exact preserves_pure _
  | succ count ih =>
    refine preserves_bind (preserves_checkedElement _ _ _) fun subscription => ?_
    refine preserves_bind (preserves_checkedElement _ _ _) fun event => ?_
    refine preserves_bind (preserves_readLe _ _) fun userdata => ?_
    refine preserves_readThen (fun eventType => ?_) _ _
    refine preserves_ite ?_ (preserves_ite ?_ (preserves_throw _))
    · exact preserves_bind (preserves_pollClock _) fun _ => preserves_bind (preserves_writeEvent _ _ _ _) fun _ => ih _
    · exact preserves_bind (preserves_pollFd ns _ _) fun _ => preserves_bind (preserves_writeEvent _ _ _ _) fun _ => ih _

inductive FdCall where
  | fdAllocate (fd : Int32) (offset len : Int64)
  | fdFilestatGet (fd statPtr : Int32)
  | fdFilestatSetSize (fd : Int32) (size : Int64)
  | fdPrestatGet (fd prestatPtr : Int32)
  | pollOneoff (inPtr outPtr nsubscriptions neventsPtr : Int32)

def FdCall.run : FdCall → Prog (WasiCaller σ η) Errno Unit
  | .fdAllocate fd offset len => Wasi.fdAllocate ns fd offset len
  | .fdFilestatGet fd statPtr => Wasi.fdFilestatGet ns fd statPtr
  | .fdFilestatSetSize fd size => Wasi.fdFilestatSetSize ns fd size
  | .fdPrestatGet fd prestatPtr => Wasi.fdPrestatGet fd prestatPtr
  | .pollOneoff inPtr outPtr nsubscriptions neventsPtr => Wasi.pollOneoff ns inPtr outPtr nsubscriptions neventsPtr

/-- Whatever these imports answer, the same descriptors are open under the same paths. -/
theorem preserves_fdCall (op : FdCall) : Preserves handed (op.run ns) := by
  cases op with
  | fdAllocate fd offset len => exact preserves_ite (preserves_throw _) (preserves_onHandle fd _)
  | fdFilestatGet fd statPtr =>
    exact preserves_bind (preserves_onHandle fd _) fun _ => preserves_writeFilestat (fun _ _ => rfl) _ _ _
  | fdFilestatSetSize fd size =>
    refine preserves_ite (preserves_throw _) (preserves_bind (preserves_fdPathOf fd) fun _ => ?_)
    exact preserves_handed (preserves_call _)
  | fdPrestatGet fd prestatPtr =>
    refine preserves_bind (preserves_fdPathOf fd) fun _ => preserves_bind (preserves_writes _ _) fun _ => ?_
    exact preserves_writeAt _ _
  | pollOneoff inPtr outPtr nsubscriptions neventsPtr =>
    refine preserves_ite (preserves_throw _) (preserves_bind (preserves_pollFrom ns _ _ _ _) fun _ => ?_)
    exact preserves_writes _ _

/-! ## The four imports -/

inductive TableCall where
  | pathOpen (fd : Int32) (path : GuestString) (oflags : Int32) (rightsBase : Int64) (fdflags openedFdPtr : Int32)
  | sockAccept (fd fdPtr : Int32)
  | fdClose (fd : Int32)
  | fdRenumber (source target : Int32)

def TableCall.run : TableCall → Prog (WasiCaller σ η) Errno Unit
  | .pathOpen fd path oflags rightsBase fdflags openedFdPtr => Star9.pathOpen ns fd path oflags rightsBase fdflags openedFdPtr.toInt
  | .sockAccept fd fdPtr => Wasi.sockAccept ns fd fdPtr
  | .fdClose fd => Wasi.fdClose ns fd
  | .fdRenumber source target => Wasi.fdRenumber ns source target

/-- The step after the table has changed, or a file has been closed, does not fail: the word for the
new descriptor is inside the memory, and closing the file is not refused. -/
def TableCall.LastStepSucceeds (isClosed : η → Bool) (w : WasiCaller σ η) : TableCall → Prop
  | .pathOpen fd path oflags rightsBase fdflags openedFdPtr =>
    (∃ opened w', openedPath ns fd path oflags rightsBase fdflags w = (.ok opened, w')) → w.nextFd ≠ 0xffffffff → w.Fits openedFdPtr.toInt 4
  | .sockAccept fd fdPtr =>
    (∃ opened w', acceptedFile ns fd w = (.ok opened, w')) → w.nextFd ≠ 0xffffffff → w.Fits fdPtr.toInt 4
  | .fdClose fd => ∀ file, w.files[fd.toUInt32.toNat]? = some file → ∀ e s, ns.file.close (file.file, w.ns) ≠ (.err e, s)
  | .fdRenumber source target =>
    ∀ file replaced, source ≠ target → w.files[source.toUInt32.toNat]? = some file → w.files[target.toUInt32.toNat]? = some replaced →
      ∀ e handle s, ns.file.close (replaced.file, w.ns) = (.err e, handle, s) → isClosed handle = isClosed replaced.file

/-- A failing import leaves the descriptors, their paths and their files open as they were just when
its last step cannot fail. Reading does not close a file. -/
theorem keepsTable_iff (hread : ∀ len s, isClosed (ns.file.read len s).2.1 = isClosed s.1) {w : WasiCaller σ η} (hcounted : w.Counted)
    (op : TableCall) : KeepsTable isClosed (op.run ns) w ↔ op.LastStepSucceeds ns isClosed w := by
  cases op with
  | pathOpen fd path oflags rightsBase fdflags openedFdPtr =>
    rw [TableCall.run, pathOpen_eq]
    exact keepsTable_handOut (preserves_openedPath ns fd path oflags rightsBase fdflags) hcounted openedFdPtr.toInt
  | sockAccept fd fdPtr =>
    rw [TableCall.run, sockAccept_eq]
    exact keepsTable_handOut (preserves_acceptedFile ns hread fd) hcounted fdPtr.toInt
  | fdClose fd => exact keepsTable_fdClose ns fd
  | fdRenumber source target => exact keepsTable_fdRenumber ns source target

def memIsClosed : MemFile → Bool
  | .node f => f.closed
  | .dir _ => false

theorem mem_read_isClosed (len : Nat) (s : MemFile × MemFs) : memIsClosed (memFs.file.read len s).2.1 = memIsClosed s.1 := by
  obtain ⟨f, fs⟩ := s
  cases f with
  | dir f => rfl
  | node f =>
    change memIsClosed (MemFile.handle.read len (.node f, fs)).2.1 = f.closed
    simp only [MemFile.handle, MemFile.dispatch, NodeFile.read]
    split_ifs <;> rfl

/-- The guest has the root under descriptor 3, and the text `f` at the front of its one page of memory. -/
def pageGuest : WasiCaller MemFs MemFile where
  ns := (MemFs.create "f" (MemFs.new fun _ => 0)).2
  files := (∅ : Std.ExtTreeMap Nat (OpenFile MemFile)).insert 3 ⟨.dir (DirFile.new (Metadata.dir "." 0o755) []), "."⟩
  nextFd := 4
  memory := some (102 :: List.replicate 65535 0)

theorem pageGuest_counted : pageGuest.Counted := by
  intro fd hfd
  rw [pageGuest, Std.ExtTreeMap.mem_insert, Std.LawfulEqCmp.compare_eq_iff_eq] at hfd
  rcases hfd with rfl | hfd
  · decide
  · exact absurd hfd Std.ExtTreeMap.not_mem_empty

theorem keepsTable_iff_pageGuest :
    KeepsTable memIsClosed ((TableCall.pathOpen 3 ⟨0, 1⟩ 0 2 0 65533).run memFs) pageGuest ↔
      (TableCall.pathOpen 3 ⟨0, 1⟩ 0 2 0 65533).LastStepSucceeds memFs memIsClosed pageGuest :=
  keepsTable_iff memFs mem_read_isClosed pageGuest_counted _

/-- The file is open under descriptor 4 after a `path_open` that the guest sees fail. -/
theorem not_keepsTable : ¬ ∀ (w : WasiCaller MemFs MemFile) (op : TableCall), w.Counted → KeepsTable memIsClosed (op.run memFs) w := by
  intro hall
  have hrun : ((TableCall.pathOpen 3 ⟨0, 1⟩ 0 2 0 65533).run memFs pageGuest).1 = .err Errno.inval := by decide +kernel
  have hleft : (((TableCall.pathOpen 3 ⟨0, 1⟩ 0 2 0 65533).run memFs pageGuest).2.table memIsClosed 4).isSome = true := by decide +kernel
  have hbefore : (pageGuest.table memIsClosed 4).isSome = false := by decide +kernel
  have hkeeps := hall pageGuest (.pathOpen 3 ⟨0, 1⟩ 0 2 0 65533) pageGuest_counted
  rcases hresult : (TableCall.pathOpen 3 ⟨0, 1⟩ 0 2 0 65533).run memFs pageGuest with ⟨r, w'⟩
  rw [hresult] at hrun hleft
  rw [hkeeps Errno.inval w' (by rw [hresult, ← hrun]), hbefore] at hleft
  cases hleft

end Wasi
end Star9
