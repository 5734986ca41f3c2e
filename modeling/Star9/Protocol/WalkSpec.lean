import Star9.Core.PathOrder
import Star9.Fs.MemRun
import Star9.Protocol.Server

/-!
# The specification of a walk

The names of a walk are looked up one after the other, each below the path of the
names before it. The loop of the server has three exits; here a walk is described
without the loop, by the longest prefix of names that resolve. A lookup may change
the served file system, so each one is made in the state that those before it leave.
-/
namespace Star9
namespace NinePServer
open Base Prog

/-- The components after one more name; the root is its own parent. -/
def walkStep (cs : List String) (name : String) : List String :=
  if name = "." then cs else if name = ".." then cs.dropLast else cs ++ [name]

/-- The path of the first `k` names. -/
def pathAt (base : String) (names : List String) (k : Nat) : String := (names.take k).foldl walkJoin base

section
variable {σ η : Type} (fs : FileSystem σ η) (base : String) (names : List String) (s : σ)

/-- The file system after the lookups of the first `k` names. -/
def lookedUp : Nat → σ
  | 0 => s
  | k + 1 => (fs.lstat FsContext.new.noFollow (pathAt base names (k + 1)) (lookedUp k)).2

/-- The lookup of the name after the first `k`. -/
def lookup (k : Nat) : Outcome Error Metadata :=
  (fs.lstat FsContext.new.noFollow (pathAt base names (k + 1)) (lookedUp fs base names s k)).1

def Resolves (k : Nat) : Prop := ∃ metadata, lookup fs base names s k = .ok metadata

/-- Every name that is reached is one component. -/
def NamesFit : Prop :=
  ∀ i name, names[i]? = some name → (∀ j < i, Resolves fs base names s j) → name ≠ "" ∧ hasSlash name = false

/-- The first `k` names resolve, and no longer prefix does. -/
structure LongestPrefix (k : Nat) : Prop where
  length_le : k ≤ names.length
  resolves : ∀ i < k, Resolves fs base names s i
  longest : k < names.length → ¬ Resolves fs base names s k

/-- One qid for each name of the prefix. -/
def QidsOf (qids : List Qid) : Prop :=
  ∀ i qid, qids[i]? = some qid →
    ∃ metadata, lookup fs base names s i = .ok metadata ∧ qid = qidFromMeta (pathAt base names (i + 1)) metadata

end

/-! ## One name more -/

section
variable {σ η : Type} {fs : FileSystem σ η} {base name : String} {names : List String} {s : σ}

@[simp] theorem pathAt_zero : pathAt base names 0 = base := rfl

@[simp] theorem pathAt_cons (k : Nat) : pathAt base (name :: names) (k + 1) = pathAt (walkJoin base name) names k := rfl

variable (fs base name s) in
/-- The file system after the lookup of the first name. -/
def afterFirst : σ := (fs.lstat FsContext.new.noFollow (walkJoin base name) s).2

theorem lookedUp_cons (k : Nat) : lookedUp fs base (name :: names) s (k + 1) =
    lookedUp fs (walkJoin base name) names (afterFirst fs base name s) k := by
  induction k with
  | zero => rfl
  | succ k ih =>
    rw [lookedUp, ih]
    rfl

theorem lookup_cons (k : Nat) : lookup fs base (name :: names) s (k + 1) =
    lookup fs (walkJoin base name) names (afterFirst fs base name s) k := by
  unfold lookup
  rw [lookedUp_cons, pathAt_cons]

theorem lookup_cons_zero : lookup fs base (name :: names) s 0 = (fs.lstat FsContext.new.noFollow (walkJoin base name) s).1 := rfl

theorem resolves_cons (k : Nat) : Resolves fs base (name :: names) s (k + 1) ↔
    Resolves fs (walkJoin base name) names (afterFirst fs base name s) k := by
  unfold Resolves
  rw [lookup_cons]

theorem namesFit_cons (hfirst : Resolves fs base (name :: names) s 0) :
    NamesFit fs base (name :: names) s ↔ (name ≠ "" ∧ hasSlash name = false) ∧
      NamesFit fs (walkJoin base name) names (afterFirst fs base name s) := by
  constructor
  · intro h
    refine ⟨h 0 name rfl nofun, fun i n hi hreach => h (i + 1) n hi fun j hj => ?_⟩
    cases j with
    | zero => exact hfirst
    | succ j => exact (resolves_cons j).mpr (hreach j (Nat.lt_of_succ_lt_succ hj))
  · rintro ⟨hname, hrest⟩ i n hi hreach
    cases i with
    | zero =>
      cases hi
      exact hname
    | succ i => exact hrest i n hi fun j hj => (resolves_cons j).mp (hreach (j + 1) (Nat.succ_lt_succ hj))

/-- When the first name does not resolve, no other is reached. -/
theorem namesFit_of_not_resolves (hfirst : ¬ Resolves fs base (name :: names) s 0) :
    NamesFit fs base (name :: names) s ↔ name ≠ "" ∧ hasSlash name = false := by
  constructor
  · intro h
    exact h 0 name rfl nofun
  · intro hname i n hi hreach
    cases i with
    | zero =>
      cases hi
      exact hname
    | succ i => exact absurd (hreach 0 (Nat.succ_pos i)) hfirst

theorem LongestPrefix.cons {k : Nat} (hfirst : Resolves fs base (name :: names) s 0)
    (h : LongestPrefix fs (walkJoin base name) names (afterFirst fs base name s) k) :
    LongestPrefix fs base (name :: names) s (k + 1) where
  length_le := Nat.succ_le_succ h.length_le
  resolves i hi := by
    cases i with
    | zero => exact hfirst
    | succ i => exact (resolves_cons i).mpr (h.resolves i (Nat.lt_of_succ_lt_succ hi))
  longest hk hres := h.longest (Nat.lt_of_succ_lt_succ hk) ((resolves_cons k).mp hres)

theorem QidsOf.cons {qids : List Qid} {metadata : Metadata} (hfirst : lookup fs base (name :: names) s 0 = .ok metadata)
    (h : QidsOf fs (walkJoin base name) names (afterFirst fs base name s) qids) :
    QidsOf fs base (name :: names) s (qidFromMeta (walkJoin base name) metadata :: qids) := by
  intro i qid hi
  cases i with
  | zero =>
    cases hi
    exact ⟨metadata, hfirst, rfl⟩
  | succ i =>
    obtain ⟨m, hm, hqid⟩ := h i qid hi
    exact ⟨m, (lookup_cons i).trans hm, hqid⟩

theorem longestPrefix_zero (h : names = [] ∨ ¬ Resolves fs base names s 0) : LongestPrefix fs base names s 0 where
  length_le := Nat.zero_le _
  resolves := nofun
  longest hk := h.resolve_left (List.ne_nil_of_length_pos hk)

/-! ## Paths of names -/

theorem hasSlash_eq_false {name : String} : hasSlash name = false ↔ '/' ∉ name.toList := by
  simp [hasSlash]

theorem components_walkJoin (hbase : validPath base = true) (hname : name ≠ "" ∧ hasSlash name = false) :
    components (walkJoin base name) = walkStep (components base) name ∧ validPath (walkJoin base name) = true := by
  unfold walkJoin walkStep
  split
  · exact ⟨rfl, hbase⟩
  · rename_i hdot
    split
    · exact ⟨components_parentPath hbase, parentPath_valid base⟩
    · rename_i hdots
      have hvalid : ValidName name := ⟨hname.1, hdot, hdots, hasSlash_eq_false.mp hname.2⟩
      have hchild := childPath_valid hbase hvalid
      rw [joinPath, cleanPath_of_valid hchild]
      exact ⟨components_childPath base hvalid, hchild⟩

/-- The path of a prefix that resolves goes down a name and up for two dots, and stays at the root. -/
theorem components_pathAt (hbase : validPath base = true) (hfit : NamesFit fs base names s) {k : Nat}
    (hres : ∀ i < k, Resolves fs base names s i) :
    components (pathAt base names k) = (names.take k).foldl walkStep (components base) := by
  induction names generalizing base s k with
  | nil => simp [pathAt]
  | cons name names ih =>
    cases k with
    | zero => rfl
    | succ k =>
      have hfirst := hres 0 (Nat.succ_pos k)
      obtain ⟨hname, hrest⟩ := (namesFit_cons hfirst).mp hfit
      obtain ⟨hjoin, hvalid⟩ := components_walkJoin hbase hname
      rw [pathAt_cons, ih hvalid hrest fun i hi => (resolves_cons i).mp (hres (i + 1) (Nat.succ_lt_succ hi)), hjoin]
      rfl

end

/-! ## The loop -/

section
variable {σ η : Type} {fs : FileSystem σ η} {base : String} {names : List String}

theorem qidFor_ok {path : String} {s s' : σ} {metadata : Metadata}
    (h : fs.lstat FsContext.new.noFollow path s = (.ok metadata, s')) :
    qidFor fs path s = (.ok (qidFromMeta path metadata), s') := bind_ok h

theorem qidFor_err {path : String} {s s' : σ} {e : Error} (h : fs.lstat FsContext.new.noFollow path s = (.err e, s')) :
    qidFor fs path s = (.err e, s') := bind_err h

theorem onFs_apply {α : Type} (p : Prog σ Error α) (s : ServerState σ η) :
    onFs p s = ((p s.fsys).1, { s with fsys := (p s.fsys).2 }) := rfl

/-- The exits of the loop: all names that are reached fit and there is a qid, or the walk fails. -/
theorem walkLoop_spec (hret : ∀ path s, (fs.lstat FsContext.new.noFollow path s).1 ≠ .abort) (qids : List Qid)
    (s : ServerState σ η) :
    (NamesFit fs base names s.fsys ∧ (qids = [] → names = [] ∨ Resolves fs base names s.fsys 0) ∧
      ∃ more x, walkLoop fs base qids names s = (.ok (pathAt base names more.length, qids ++ more), { s with fsys := x }) ∧
        LongestPrefix fs base names s.fsys more.length ∧ QidsOf fs base names s.fsys more) ∨
    (¬ (NamesFit fs base names s.fsys ∧ (qids = [] → names = [] ∨ Resolves fs base names s.fsys 0)) ∧
      ∃ e x, walkLoop fs base qids names s = (.err e, { s with fsys := x })) := by
  induction names generalizing base qids s with
  | nil =>
    refine Or.inl ⟨nofun, fun _ => Or.inl rfl, [], s.fsys, ?_, longestPrefix_zero (Or.inl rfl), nofun⟩
    rw [List.append_nil]
    rfl
  | cons name names ih =>
    rw [walkLoop, branch_apply]
    by_cases hname : name ≠ "" ∧ hasSlash name = false
    · rw [if_neg (by simp [hname.1, hname.2]), bind_apply]
      rcases hlstat : fs.lstat FsContext.new.noFollow (walkJoin base name) s.fsys with ⟨metadata | e | _, x⟩
      · -- the name resolves and the loop goes on from there
        have hfirst : lookup fs base (name :: names) s.fsys 0 = .ok metadata := congrArg Prod.fst hlstat
        have hafter : afterFirst fs base name s.fsys = x := congrArg Prod.snd hlstat
        have hqid : attempt (onFs (qidFor fs (walkJoin base name))) s =
            (.ok (.ok (qidFromMeta (walkJoin base name) metadata)), { s with fsys := x }) := by
          refine attempt_ok ?_
          rw [onFs_apply, qidFor_ok hlstat]
        have hloop := @ih (walkJoin base name) (qids ++ [qidFromMeta (walkJoin base name) metadata]) { s with fsys := x }
        rw [hqid]
        dsimp only
        rcases hloop with ⟨hfit, -, more, y, hrun, hlong, hqids⟩ | ⟨hnot, e, y, hrun⟩
        · refine Or.inl ⟨(namesFit_cons ⟨_, hfirst⟩).mpr ⟨hname, hafter ▸ hfit⟩, fun _ => Or.inr ⟨_, hfirst⟩,
            qidFromMeta (walkJoin base name) metadata :: more, y, ?_, ?_, ?_⟩
          · rw [hrun, List.append_assoc]
            rfl
          · exact LongestPrefix.cons ⟨_, hfirst⟩ (hafter ▸ hlong)
          · exact QidsOf.cons hfirst (hafter ▸ hqids)
        · refine Or.inr ⟨fun h => hnot ⟨?_, fun hnil => absurd hnil (by simp)⟩, e, y, hrun⟩
          exact hafter ▸ ((namesFit_cons ⟨_, hfirst⟩).mp h.1).2
      · -- the name does not resolve and ends the walk
        have hfirst : ¬ Resolves fs base (name :: names) s.fsys 0 := by
          rintro ⟨m, hm⟩
          rw [lookup_cons_zero, hlstat] at hm
          cases hm
        have hqid : attempt (onFs (qidFor fs (walkJoin base name))) s = (.ok (.error e), { s with fsys := x }) := by
          refine attempt_err ?_
          rw [onFs_apply, qidFor_err hlstat]
        rw [hqid]
        dsimp only
        rw [branch_apply]
        by_cases hnil : qids = []
        · rw [if_pos (by rw [hnil]; rfl)]
          exact Or.inr ⟨fun h => (h.2 hnil).elim (List.cons_ne_nil _ _) hfirst, e, x, rfl⟩
        · rw [if_neg (by simpa using hnil)]
          refine Or.inl ⟨(namesFit_of_not_resolves hfirst).mpr hname, fun h => absurd h hnil, [], x, ?_,
            longestPrefix_zero (Or.inr hfirst), nofun⟩
          rw [List.append_nil]
          rfl
      · exact absurd (congrArg Prod.fst hlstat) (hret _ _)
    · rw [if_pos (by simp only [not_and_or, not_not, Bool.not_eq_false] at hname; simpa [or_comm] using hname)]
      exact Or.inr ⟨fun h => hname (h.1 0 name rfl nofun), _, s.fsys, rfl⟩

theorem walkBase_ok {fid newfid : UInt32} {s : ServerState σ η} {st : FidState η} (hfid : s.fids fid = some st)
    (hnew : newfid = fid ∨ s.fids newfid = none) : walkBase fid newfid s = (.ok st.path, s) := by
  have hfree : ¬ (newfid ≠ fid && (s.fids newfid).isSome) = true := by
    rcases hnew with rfl | hnone
    · simp
    · simp [hnone]
  have hget : getFid fid s = (.ok st, s) := by
    rw [getFid, get_bind, hfid]
    rfl
  rw [walkBase, get_bind, branch_apply, if_neg hfree, fidPath, bind_ok hget]
  rfl

theorem walkBase_err {fid newfid : UInt32} {s : ServerState σ η}
    (h : ¬ ∃ st, s.fids fid = some st ∧ (newfid = fid ∨ s.fids newfid = none)) :
    walkBase fid newfid s = (.err (.kind .invalid), s) := by
  rw [walkBase, get_bind, branch_apply]
  split
  · rfl
  · rename_i hfree
    cases hfid : s.fids fid with
    | some st =>
      refine absurd ⟨st, hfid, ?_⟩ h
      by_contra hbound
      simp only [not_or] at hbound
      exact hfree (by simp [hbound.1, Option.isSome_iff_ne_none.mpr hbound.2])
    | none =>
      have hget : getFid fid s = (.err (.kind .invalid), s) := by
        rw [getFid, get_bind, hfid]
        rfl
      rw [fidPath, bind_err hget]

/-- The names of a walk from the fid fit, and the first one resolves. -/
def CanWalk (fs : FileSystem σ η) (fid newfid : UInt32) (names : List String) (s : ServerState σ η) : Prop :=
  ∃ st, s.fids fid = some st ∧ (newfid = fid ∨ s.fids newfid = none) ∧ NamesFit fs st.path names s.fsys ∧
    (names = [] ∨ Resolves fs st.path names s.fsys 0)

/-- What a walk that succeeds answers and binds. -/
def Walked (fs : FileSystem σ η) (fid newfid : UInt32) (names : List String) (s s' : ServerState σ η)
    (response : NinePResponse) : Prop :=
  ∃ st qids, s.fids fid = some st ∧ response = .walk qids ∧ LongestPrefix fs st.path names s.fsys qids.length ∧
    QidsOf fs st.path names s.fsys qids ∧
    s'.fids = Function.update s.fids newfid (some (.unopened (pathAt st.path names qids.length))) ∧
    (validPath st.path = true → components (pathAt st.path names qids.length) =
      (names.take qids.length).foldl walkStep (components st.path))

theorem walk_cases (hret : ∀ path s, (fs.lstat FsContext.new.noFollow path s).1 ≠ .abort) (fid newfid : UInt32)
    (s : ServerState σ η) :
    (CanWalk fs fid newfid names s ∧ ∃ r s', walk fs fid newfid names s = (.ok r, s') ∧ Walked fs fid newfid names s s' r) ∨
    (¬ CanWalk fs fid newfid names s ∧ ∃ e s', walk fs fid newfid names s = (.err e, s') ∧ s'.fids = s.fids) := by
  by_cases hbase : ∃ st, s.fids fid = some st ∧ (newfid = fid ∨ s.fids newfid = none)
  · obtain ⟨st, hfid, hnew⟩ := hbase
    have hstart := walkBase_ok hfid hnew
    rcases @walkLoop_spec σ η fs st.path names hret [] s with
      ⟨hfit, hfirst, qids, x, hrun, hlong, hqids⟩ | ⟨hnot, e, x, hrun⟩
    · let s' : ServerState σ η :=
        { s with fsys := x, fids := Function.update s.fids newfid (some (.unopened (pathAt st.path names qids.length))) }
      refine Or.inl ⟨⟨st, hfid, hnew, hfit, hfirst rfl⟩, .walk qids, s', ?_, st, qids, hfid, rfl, hlong, hqids, rfl, ?_⟩
      · rw [walk, bind_ok hstart, bind_ok hrun]
        rfl
      · exact fun hvalid => components_pathAt hvalid hfit hlong.resolves
    · refine Or.inr ⟨?_, e, { s with fsys := x }, ?_, rfl⟩
      · rintro ⟨st', hfid', -, hfit, hfirst⟩
        rw [hfid] at hfid'
        cases hfid'
        exact hnot ⟨hfit, fun _ => hfirst⟩
      · rw [walk, bind_ok hstart, bind_err hrun]
  · refine Or.inr ⟨?_, .kind .invalid, s, ?_, rfl⟩
    · rintro ⟨st, hfid, hnew, -⟩
      exact hbase ⟨st, hfid, hnew⟩
    · rw [walk, bind_err (walkBase_err hbase)]

/-- A walk succeeds exactly when it can be made; it then answers for the longest prefix of
names that resolve and binds the new fid to its path, and otherwise leaves the fids alone. -/
theorem walk_spec (fs : FileSystem σ η) (hret : ∀ path s, (fs.lstat FsContext.new.noFollow path s).1 ≠ .abort)
    (fid newfid : UInt32) (names : List String) (s : ServerState σ η) :
    ((walk fs fid newfid names s).1.isOk = true ↔ CanWalk fs fid newfid names s) ∧
    (∀ response, (walk fs fid newfid names s).1 = .ok response →
      Walked fs fid newfid names s (walk fs fid newfid names s).2 response) ∧
    ((walk fs fid newfid names s).1.isOk = false → (walk fs fid newfid names s).2.fids = s.fids) := by
  rcases walk_cases hret fid newfid s with ⟨hcan, r, s', hrun, hwalked⟩ | ⟨hcannot, e, s', hrun, hfids⟩
  · rw [hrun]
    refine ⟨iff_of_true rfl hcan, fun response hresponse => ?_, nofun⟩
    cases hresponse
    exact hwalked
  · rw [hrun]
    refine ⟨iff_of_false Bool.false_ne_true hcannot, nofun, fun _ => hfids⟩

end

/-- Without following symlinks there is one lookup, which returns. -/
theorem memFs_lstat_returns (path : String) (s : MemFs) : (memFs.lstat FsContext.new.noFollow path s).1 ≠ .abort := by
  change s.statAt (s.nodes.size + 1) FsContext.new.noFollow.noFollow path ≠ .abort
  rw [MemFs.statAt]
  split
  · exact Outcome.err_ne_abort
  · dsimp only
    split
    · exact Outcome.err_ne_abort
    · rw [show FsContext.new.noFollow.noFollow.followSymlinks = false from rfl, Bool.false_and, if_neg Bool.false_ne_true]
      exact Outcome.ok_ne_abort

/-- Fid 1 is attached to a tree with one file in one directory. -/
def walkingServer : ServerState MemFs MemFile :=
  (attach memFs 1 (new (Base.run MemWorld.step (MemWorld.init fun _ => 0)
    [.mkdir "dir" (FileMode.fromPerm 0o755), .create "dir/file.txt"]).fs fun _ => 0)).2

theorem walk_spec_walkingServer :
    (∀ path s, (memFs.lstat FsContext.new.noFollow path s).1 ≠ .abort) ∧
    CanWalk memFs 1 2 ["dir", "..", "dir", "missing.txt"] walkingServer :=
  ⟨memFs_lstat_returns, (walk_spec memFs memFs_lstat_returns 1 2 ["dir", "..", "dir", "missing.txt"] walkingServer).1.mp
    (by decide +kernel)⟩

end NinePServer
end Star9
