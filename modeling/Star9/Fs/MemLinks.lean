import Star9.Base.Chain
import Star9.Fs.MemRun

/-!
# Following symlinks

Opening a name and asking for its metadata follow the chain of symlinks that
starts there. The recursion of the source has no bound, so a call ends exactly
when the chain does. The context names the path that the caller gave, and only the
link at that path is read from its own directory when the caller is a helper.
-/
namespace Star9
namespace MemFs
open Base Prog

section
variable (fs : MemFs) (ctx : FsContext)

/-- The text of the symlink at a name. -/
def linkText (name : String) : Option String :=
  match fs.nodes[name]? with
  | some id => if (fs.heap id).metadata.mode.isSymlink then some (utf8Lossy (fs.heap id).data) else none
  | none => none

/-- Where the symlink at a name leads to. -/
def nextLink (name : String) : Option String :=
  if ctx.followSymlinks then (fs.linkText name).map (resolveSymlink ctx name) else none

/-- The metadata of a name that is not a symlink to follow. -/
def statHere (name : String) : Outcome Error Metadata :=
  match fs.nodes[name]? with
  | some id => .ok (fs.heap id).metadata
  | none => .err (.path "stat" name .notFound)

/-- The file or directory of a name that is not a symlink to follow. -/
def openHere (name : String) : Prog MemFs Error MemFile := fun fs =>
  match fs.nodes[name]? with
  | some id =>
    if !(fs.heap id).metadata.isDir then
      (do Prog.modify (updateNode id (NodeInner.setName (baseName name)))
          openNode id : Prog MemFs Error MemFile) fs
    else openDir name fs
  | none => openDir name fs

end

variable {fs : MemFs} {ctx : FsContext} {name : String}

/-! ## One call of the recursion -/

theorem resolveSymlink_valid (ctx : FsContext) (name target : String) : validPath (resolveSymlink ctx name target) = true := by
  unfold resolveSymlink
  split
  · exact cleanPath_valid _
  · split
    · exact cleanPath_valid _
    · exact cleanPath_valid _

theorem nextLink_valid {q : String} (h : fs.nextLink ctx name = some q) : validPath q = true := by
  unfold nextLink at h
  split at h
  · obtain ⟨target, -, rfl⟩ := Option.map_eq_some_iff.mp h
    exact resolveSymlink_valid ctx name target
  · cases h

theorem linkText_isSome {text : String} (h : fs.linkText name = some text) : name ∈ fs.nodes.keys := by
  unfold linkText at h
  split at h
  · rename_i id hid
    rw [Std.ExtTreeMap.mem_keys, Std.ExtTreeMap.mem_iff_isSome_getElem?, hid]
    rfl
  · cases h

theorem nextLink_isSome (h : (fs.nextLink ctx name).isSome) : name ∈ fs.nodes.keys := by
  obtain ⟨q, hq⟩ := Option.isSome_iff_exists.mp h
  unfold nextLink at hq
  split at hq
  · obtain ⟨text, htext, -⟩ := Option.map_eq_some_iff.mp hq
    exact linkText_isSome htext
  · cases hq

theorem statAt_succ (hname : validPath name = true) (depth : Nat) : fs.statAt (depth + 1) ctx name =
    match fs.nextLink ctx name with
    | some q => fs.statAt depth ctx q
    | none => fs.statHere name := by
  rw [statAt, if_neg (by simp [hname])]
  dsimp only
  rw [cleanPath_of_valid hname]
  unfold nextLink linkText statHere
  cases fs.nodes[name]? with
  | none => cases ctx.followSymlinks <;> rfl
  | some id =>
    cases ctx.followSymlinks
    · rfl
    · cases hlink : (fs.heap id).metadata.mode.isSymlink
      · simp [hlink]
      · simp [hlink]

theorem openAt_succ (hname : validPath name = true) (depth : Nat) : openAt (depth + 1) ctx name fs =
    match fs.nextLink ctx name with
    | some q => openAt depth ctx q fs
    | none => openHere name fs := by
  rw [openAt, branch_apply, if_neg (by simp [hname]), get_bind, cleanPath_of_valid hname]
  unfold nextLink linkText openHere
  cases fs.nodes[name]? with
  | none => cases ctx.followSymlinks <;> rfl
  | some id =>
    dsimp only
    rw [branch_apply]
    cases ctx.followSymlinks
    · rw [Bool.false_and, if_neg Bool.false_ne_true, branch_apply]
      rfl
    · cases hlink : (fs.heap id).metadata.mode.isSymlink
      · rw [Bool.and_false, if_neg Bool.false_ne_true, branch_apply]
        rfl
      · rfl

theorem statHere_ne_abort (name : String) : fs.statHere name ≠ .abort := by
  unfold statHere
  split
  · nofun
  · nofun

theorem openHere_ne_abort (name : String) : (openHere name fs).1 ≠ .abort := by
  have hdir : (openDir name fs).1 ≠ .abort := by
    rw [openDir, get_bind]
    dsimp only
    rw [branch_apply]
    split
    · nofun
    · nofun
  unfold openHere
  split
  · split
    · nofun
    · exact hdir
  · exact hdir

/-! ## Termination -/

/-- A call that may nest `depth` deep does not end while the chain of links goes on. -/
theorem statAt_eq_abort_iff (hname : validPath name = true) (depth : Nat) :
    fs.statAt depth ctx name = .abort ↔ (follow (fs.nextLink ctx) name depth).isSome := by
  induction depth generalizing name with
  | zero => exact iff_of_true rfl rfl
  | succ depth ih =>
    rw [statAt_succ hname, follow_succ]
    cases hq : fs.nextLink ctx name with
    | none => exact iff_of_false (statHere_ne_abort name) Bool.false_ne_true
    | some q => exact ih (nextLink_valid hq)

theorem openAt_eq_abort_iff (hname : validPath name = true) (depth : Nat) :
    (openAt depth ctx name fs).1 = .abort ↔ (follow (fs.nextLink ctx) name depth).isSome := by
  induction depth generalizing name with
  | zero => exact iff_of_true rfl rfl
  | succ depth ih =>
    rw [openAt_succ hname, follow_succ]
    cases hq : fs.nextLink ctx name with
    | none => exact iff_of_false (openHere_ne_abort name) Bool.false_ne_true
    | some q => exact ih (nextLink_valid hq)

variable (fs ctx name) in
/-- The call ends when its recursion may go deep enough. -/
def StatEnds : Prop := ∃ depth, fs.statAt depth ctx name ≠ .abort

variable (fs ctx name) in
def OpenEnds : Prop := ∃ depth, (openAt depth ctx name fs).1 ≠ .abort

theorem exists_not_isSome_iff : (∃ depth, ¬ (follow (fs.nextLink ctx) name depth).isSome) ↔ ¬ Returning (fs.nextLink ctx) name := by
  rw [← @follow_eq_none_iff _ _ _ fs.nodes.keys fun q => nextLink_isSome]
  exact exists_congr fun depth => Option.not_isSome_iff_eq_none

theorem statEnds_iff (hname : validPath name = true) : fs.StatEnds ctx name ↔ ¬ Returning (fs.nextLink ctx) name := by
  rw [← exists_not_isSome_iff]
  exact exists_congr fun depth => not_congr (statAt_eq_abort_iff hname depth)

theorem openEnds_iff (hname : validPath name = true) : fs.OpenEnds ctx name ↔ ¬ Returning (fs.nextLink ctx) name := by
  rw [← exists_not_isSome_iff]
  exact exists_congr fun depth => not_congr (openAt_eq_abort_iff hname depth)

/-- A stat and an open end exactly when the chain of symlinks does not come back to a name. -/
theorem stat_open_end_iff (fs : MemFs) (ctx : FsContext) (name : String) (hname : validPath name = true) :
    fs.StatEnds ctx name ∧ fs.OpenEnds ctx name ↔ ¬ Returning (fs.nextLink ctx) name := by
  rw [statEnds_iff hname, openEnds_iff hname, and_self]

/-- A symlink that names itself. -/
def selfLink : MemFs := (run MemWorld.step (MemWorld.init fun _ => 0) [.symlink "l" "l"]).fs

theorem stat_open_end_selfLink : ¬ ∀ (fs : MemFs) (ctx : FsContext) (name : String), validPath name = true →
    fs.StatEnds ctx name ∧ fs.OpenEnds ctx name := by
  intro hall
  have hnext : selfLink.nextLink FsContext.new "l" = some "l" := by
    decide +kernel
  have hstat := (hall selfLink FsContext.new "l" (by decide)).1
  refine (statEnds_iff (by decide)).mp hstat ⟨0, 1, "l", Nat.one_pos, rfl, ?_⟩
  rw [follow_succ, hnext]
  rfl

/-- A link to a directory ends there. -/
def dirLink : MemFs :=
  (run MemWorld.step (MemWorld.init fun _ => 0) [.mkdir "d" (FileMode.fromPerm 0o755), .symlink "d" "l"]).fs

theorem stat_open_end_dirLink : validPath "l" = true ∧ dirLink.StatEnds FsContext.new "l" ∧ dirLink.OpenEnds FsContext.new "l" := by
  refine ⟨by decide, (stat_open_end_iff dirLink FsContext.new "l" (by decide)).mpr fun hret => ?_⟩
  have hlong := hret.isSome 2
  revert hlong
  decide +kernel

/-! ## The caller's path -/

/-- A relative link is read from the directory that it is in. -/
def fromOwnDir (q target : String) : String := cleanPath (parentPath q ++ "/" ++ target)

variable (fs ctx name) in
/-- Every relative link of the chain is read from the directory that it is in. -/
def ReadFromOwnDir : Prop := ∀ k q target, follow (fs.nextLink ctx) name k = some q → fs.linkText q = some target →
  startsWithSlash target = false → fs.nextLink ctx q = some (fromOwnDir q target)

variable (fs name) in
/-- The relative links of the chain after the first one name the same path when they are read from the root. -/
def SameFromRoot : Prop := ∀ k q target, follow (fs.nextLink FsContext.new) name k = some q → q ≠ name →
  fs.linkText q = some target → startsWithSlash target = false → fromOwnDir q target = cleanPath target

theorem nextLink_new {q target : String} (h : fs.linkText q = some target) (hrel : startsWithSlash target = false) :
    fs.nextLink FsContext.new q = some (fromOwnDir q target) := by
  unfold nextLink
  rw [h]
  simp [FsContext.new, resolveSymlink, hrel, fromOwnDir]

theorem readFromOwnDir_new : fs.ReadFromOwnDir FsContext.new name := fun _ _ _ _ htext hrel => nextLink_new htext hrel

theorem withOrigin_new (path op : String) : (FsContext.new.withOrigin path op).followSymlinks = true ∧
    (FsContext.new.withOrigin path op).filepath = some path := ⟨rfl, rfl⟩

/-- The helpers read the link at the caller's path from its own directory and the others from the root. -/
theorem nextLink_withOrigin {op q target : String} (h : fs.linkText q = some target) (hrel : startsWithSlash target = false) :
    fs.nextLink (FsContext.new.withOrigin name op) q = some (if q = name then fromOwnDir q target else cleanPath target) := by
  obtain ⟨hfollow, hpath⟩ := withOrigin_new name op
  unfold nextLink
  rw [h, hfollow, if_pos rfl, Option.map_some]
  unfold resolveSymlink
  rw [hrel, if_neg Bool.false_ne_true, hpath]
  simp [fromOwnDir, eq_comm]

/-- The rest of the links do not depend on the context. -/
theorem nextLink_withOrigin_eq {op q : String}
    (h : ∀ target, fs.linkText q = some target → startsWithSlash target = false → q ≠ name → fromOwnDir q target = cleanPath target) :
    fs.nextLink (FsContext.new.withOrigin name op) q = fs.nextLink FsContext.new q := by
  cases htext : fs.linkText q with
  | none =>
    unfold nextLink
    rw [htext]
    simp
  | some target =>
    cases hrel : startsWithSlash target with
    | true =>
      unfold nextLink
      rw [htext, Option.map_some, Option.map_some]
      simp [resolveSymlink, hrel, FsContext.new, FsContext.withOrigin]
    | false =>
      rw [nextLink_withOrigin htext hrel, nextLink_new htext hrel]
      split
      · rfl
      · rename_i hne
        rw [h target htext hrel hne]

theorem statAt_congr {ctx' : FsContext} (hname : validPath name = true)
    (h : ∀ k q, follow (fs.nextLink ctx) name k = some q → fs.nextLink ctx' q = fs.nextLink ctx q) (depth : Nat) :
    fs.statAt depth ctx' name = fs.statAt depth ctx name := by
  induction depth generalizing name with
  | zero => rfl
  | succ depth ih =>
    rw [statAt_succ hname, statAt_succ hname, h 0 name rfl]
    cases hq : fs.nextLink ctx name with
    | none => rfl
    | some q => exact ih (nextLink_valid hq) fun k r hr => h (k + 1) r (by rw [follow_succ_of_next hq]; exact hr)

theorem openAt_congr {ctx' : FsContext} (hname : validPath name = true)
    (h : ∀ k q, follow (fs.nextLink ctx) name k = some q → fs.nextLink ctx' q = fs.nextLink ctx q) (depth : Nat) :
    openAt depth ctx' name fs = openAt depth ctx name fs := by
  induction depth generalizing name with
  | zero => rfl
  | succ depth ih =>
    rw [openAt_succ hname, openAt_succ hname, h 0 name rfl]
    cases hq : fs.nextLink ctx name with
    | none => rfl
    | some q => exact ih (nextLink_valid hq) fun k r hr => h (k + 1) r (by rw [follow_succ_of_next hq]; exact hr)

variable (fs name) in
/-- The helpers and the calls with a fresh context read every link from its own directory and give the same. -/
structure EntryFree : Prop where
  stat_own : fs.ReadFromOwnDir (FsContext.new.withOrigin name "stat") name
  open_own : fs.ReadFromOwnDir (FsContext.new.withOrigin name "open") name
  new_own : fs.ReadFromOwnDir FsContext.new name
  stat_eq : memFs.stat (FsContext.new.withOrigin name "stat") name fs = memFs.stat FsContext.new name fs
  open_eq : memFs.open_ (FsContext.new.withOrigin name "open") name fs = memFs.open_ FsContext.new name fs

theorem sameFromRoot_of_own {op : String} (h : fs.ReadFromOwnDir (FsContext.new.withOrigin name op) name) : fs.SameFromRoot name := by
  have hnext : ∀ k q, follow (fs.nextLink (FsContext.new.withOrigin name op)) name k = some q →
      fs.nextLink FsContext.new q = fs.nextLink (FsContext.new.withOrigin name op) q := by
    intro k q hq
    refine (nextLink_withOrigin_eq fun target htext hrel hne => ?_).symm
    have hown := h k q target hq htext hrel
    rw [nextLink_withOrigin htext hrel, if_neg hne, Option.some.injEq] at hown
    exact hown.symm
  intro k q target hq hne htext hrel
  rw [follow_congr hnext] at hq
  have hown := h k q target hq htext hrel
  rw [nextLink_withOrigin htext hrel, if_neg hne, Option.some.injEq] at hown
  exact hown.symm

/-- Resolution does not depend on the entry point exactly when the links after the first
one name the same path from the root as from their own directories. -/
theorem entryFree_iff (fs : MemFs) (name : String) (hname : validPath name = true) : fs.EntryFree name ↔ fs.SameFromRoot name := by
  constructor
  · intro h
    exact sameFromRoot_of_own h.stat_own
  · intro h
    have hnext : ∀ op k q, follow (fs.nextLink FsContext.new) name k = some q →
        fs.nextLink (FsContext.new.withOrigin name op) q = fs.nextLink FsContext.new q := by
      intro op k q hq
      exact nextLink_withOrigin_eq fun target htext hrel hne => h k q target hq hne htext hrel
    have hown : ∀ op, fs.ReadFromOwnDir (FsContext.new.withOrigin name op) name := by
      intro op k q target hq htext hrel
      rw [follow_congr (hnext op)] at hq
      rw [hnext op k q hq]
      exact nextLink_new htext hrel
    refine ⟨hown "stat", hown "open", readFromOwnDir_new, ?_, ?_⟩
    · exact Prod.ext (statAt_congr hname (hnext "stat") _) rfl
    · exact openAt_congr hname (hnext "open") _

/-- Two links in one directory, the second of which is relative. -/
def twoLinks : MemFs :=
  (run MemWorld.step (MemWorld.init fun _ => 0)
    [.mkdir "d" (FileMode.fromPerm 0o755), .create "d/c", .symlink "c" "d/b", .symlink "b" "d/a"]).fs

theorem twoLinks_ends (q : String) : ¬ Returning (twoLinks.nextLink FsContext.new) q := by
  intro hret
  have hkeys : ∀ r ∈ twoLinks.nodes.keys, (follow (twoLinks.nextLink FsContext.new) r 3).isSome = false := by
    decide +kernel
  have hfirst : (twoLinks.nextLink FsContext.new q).isSome := by
    rw [← @follow_succ_last _ (twoLinks.nextLink FsContext.new) q 0 q rfl]
    exact hret.isSome 1
  have hlong := hret.isSome 3
  rw [hkeys q (nextLink_isSome hfirst)] at hlong
  cases hlong

theorem entryFree_twoLinks : ¬ ∀ (fs : MemFs) (name : String), (∀ q, ¬ Returning (fs.nextLink FsContext.new) q) →
    validPath name = true → fs.EntryFree name := by
  intro hall
  have heq := congrArg (fun r => r.1.isOk) (hall twoLinks "d/a" twoLinks_ends (by decide)).stat_eq
  revert heq
  decide +kernel

/-- Two links in the root. -/
def rootLinks : MemFs :=
  (run MemWorld.step (MemWorld.init fun _ => 0) [.create "f", .symlink "f" "b", .symlink "b" "a"]).fs

theorem entryFree_rootLinks : validPath "a" = true ∧ rootLinks.EntryFree "a" := by
  refine ⟨by decide, (entryFree_iff rootLinks "a" (by decide)).mpr fun k q target hq hne htext hrel => ?_⟩
  have hkeys : ∀ r ∈ rootLinks.nodes.keys, ((rootLinks.linkText r).all fun t => fromOwnDir r t == cleanPath t) = true := by
    decide +kernel
  have hq := hkeys q (linkText_isSome htext)
  rw [htext] at hq
  exact eq_of_beq hq

end MemFs
end Star9
