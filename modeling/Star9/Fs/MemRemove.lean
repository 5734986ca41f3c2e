import Star9.Fs.MemLinks
import Star9.Fs.MemList
import Star9.Fs.MemRename

/-!
# What a remove takes away

A remove should take one key, unless the key is a directory with something below
it. The source asks for the metadata and the listing of the name, and both follow
symlinks and leave out the names that begin with `#`. So a symlink is judged by
what its chain leads to, and a directory by what it shows.
-/
namespace Star9
namespace MemFs
open Base Prog

variable {fs : MemFs} {ctx : FsContext} {name p q : String}

/-! ## The end of a chain -/

/-- The chain of symlinks from a name ends at `q`. -/
def LeadsTo (fs : MemFs) (ctx : FsContext) (name q : String) : Prop :=
  ∃ k, follow (fs.nextLink ctx) name k = some q ∧ fs.nextLink ctx q = none

theorem LeadsTo.not_returning (h : fs.LeadsTo ctx name q) : ¬ Returning (fs.nextLink ctx) name := by
  obtain ⟨k, hk, hend⟩ := h
  intro hret
  have hlong := hret.isSome (k + 1)
  rw [follow_succ_last hk, hend] at hlong
  cases hlong

theorem exists_leadsTo (h : ¬ Returning (fs.nextLink ctx) name) : ∃ q, fs.LeadsTo ctx name q := by
  obtain ⟨n, hn⟩ := (@follow_eq_none_iff _ _ _ fs.nodes.keys fun q => nextLink_isSome).mpr h
  induction n generalizing name with
  | zero => cases hn
  | succ n ih =>
    cases hnext : fs.nextLink ctx name with
    | none => exact ⟨name, 0, rfl, hnext⟩
    | some r =>
      rw [follow_succ_of_next hnext] at hn
      have hr : ¬ Returning (fs.nextLink ctx) r := by
        intro hret
        have hsome := hret.isSome n
        rw [hn] at hsome
        cases hsome
      obtain ⟨q, k, hk, hend⟩ := ih hr hn
      exact ⟨q, k + 1, by rw [follow_succ_of_next hnext]; exact hk, hend⟩

theorem statAt_of_follow (hname : validPath name = true) {k depth : Nat} (hk : follow (fs.nextLink ctx) name k = some q)
    (hend : fs.nextLink ctx q = none) (hdepth : k < depth) : fs.statAt depth ctx name = fs.statHere q := by
  induction k generalizing name depth with
  | zero =>
    cases hk
    cases depth with
    | zero => omega
    | succ depth => rw [statAt_succ hname, hend]
  | succ k ih =>
    cases depth with
    | zero => omega
    | succ depth =>
      cases hnext : fs.nextLink ctx name with
      | none =>
        rw [follow_succ, hnext] at hk
        cases hk
      | some r =>
        rw [follow_succ_of_next hnext] at hk
        rw [statAt_succ hname, hnext]
        exact ih (nextLink_valid hnext) hk (Nat.lt_of_succ_lt_succ hdepth)

theorem openAt_of_follow (hname : validPath name = true) {k depth : Nat} (hk : follow (fs.nextLink ctx) name k = some q)
    (hend : fs.nextLink ctx q = none) (hdepth : k < depth) : openAt depth ctx name fs = openHere q fs := by
  induction k generalizing name depth with
  | zero =>
    cases hk
    cases depth with
    | zero => omega
    | succ depth => rw [openAt_succ hname, hend]
  | succ k ih =>
    cases depth with
    | zero => omega
    | succ depth =>
      cases hnext : fs.nextLink ctx name with
      | none =>
        rw [follow_succ, hnext] at hk
        cases hk
      | some r =>
        rw [follow_succ_of_next hnext] at hk
        rw [openAt_succ hname, hnext]
        exact ih (nextLink_valid hnext) hk (Nat.lt_of_succ_lt_succ hdepth)

/-- A chain that ends has fewer links than there are nodes. -/
theorem lt_size_of_follow {k : Nat} (hk : follow (fs.nextLink ctx) name k = some q) (hend : fs.nextLink ctx q = none) :
    k < fs.nodes.size + 1 := by
  by_contra hlong
  have hsome : (follow (fs.nextLink ctx) name (fs.nodes.keys.length + 1)).isSome := by
    refine follow_isSome_of_le (k := k) ?_ (by rw [hk]; rfl)
    rw [Std.ExtTreeMap.length_keys]
    omega
  exact LeadsTo.not_returning ⟨k, hk, hend⟩ (returning_of_isSome (fun q => nextLink_isSome) hsome)

theorem stat_of_leadsTo (hname : validPath name = true) (h : fs.LeadsTo ctx name q) :
    stat ctx name fs = (fs.statHere q, fs) := by
  obtain ⟨k, hk, hend⟩ := h
  exact Prod.ext (statAt_of_follow hname hk hend (lt_size_of_follow hk hend)) rfl

theorem open_of_leadsTo (hname : validPath name = true) (h : fs.LeadsTo ctx name q) :
    open_ ctx name fs = openHere q fs := by
  obtain ⟨k, hk, hend⟩ := h
  exact openAt_of_follow hname hk hend (lt_size_of_follow hk hend)

theorem stat_of_returning (hname : validPath name = true) (h : Returning (fs.nextLink ctx) name) :
    stat ctx name fs = (.abort, fs) :=
  Prod.ext ((statAt_eq_abort_iff hname _).mpr (h.isSome _)) rfl

/-! ## The question that a remove asks -/

theorem nextLink_of_context {ctx' : FsContext} (hfollow : ctx'.followSymlinks = ctx.followSymlinks)
    (hpath : ctx'.filepath = ctx.filepath) : fs.nextLink ctx' = fs.nextLink ctx := by
  funext q
  unfold nextLink resolveSymlink
  rw [hfollow, hpath]

/-- The context of the helpers that a remove calls. -/
def removeCtx (p : String) : FsContext := FsContext.new.withOrigin p "stat"

theorem openHere_of_dir {id : NodeId} (hid : fs.nodes[q]? = some id) (hdir : (fs.heap id).metadata.isDir = true) :
    ∃ f : DirFile, f.entries = dedupeSortHide (fs.dirEntries q) ∧ openHere q fs = (.ok (.dir f), fs) := by
  rcases openDir_cases q fs with ⟨f, hf, hopen⟩ | ⟨hnot, -⟩
  · refine ⟨f, hf, ?_⟩
    unfold openHere
    rw [hid]
    dsimp only
    rw [hdir]
    exact hopen
  · exact absurd (mem_nodes_iff.mpr ⟨id, hid⟩) hnot

/-- Reading a directory through symlinks reads the one at the end of the chain. -/
theorem readDir_of_leadsTo (hp : validPath p = true) (h : fs.LeadsTo (removeCtx p) p q) {id : NodeId}
    (hid : fs.nodes[q]? = some id) (hdir : (fs.heap id).metadata.isDir = true) :
    readDir (FsContext.new.withOrigin p "readdir") p fs = (.ok (fs.listing q), fs) := by
  obtain ⟨f, hf, hopen⟩ := openHere_of_dir hid hdir
  have hlead : fs.LeadsTo ((FsContext.new.withOrigin p "readdir").setReadOnly.withOrigin p "readdir") p q := by
    have hnext : fs.nextLink ((FsContext.new.withOrigin p "readdir").setReadOnly.withOrigin p "readdir")
        = fs.nextLink (removeCtx p) := nextLink_of_context rfl rfl
    unfold LeadsTo
    rw [hnext]
    exact h
  unfold readDir FileSystem.defaultReadDir
  rw [bind_ok ((open_of_leadsTo hp hlead).trans hopen)]
  show (Outcome.ok (FileSystem.sortEntries f.entries), fs) = _
  rw [hf]
  rfl

theorem isNonEmptyDir_of_leadsTo (hp : validPath p = true) (h : fs.LeadsTo (removeCtx p) p q) {id : NodeId}
    (hid : fs.nodes[q]? = some id) :
    isNonEmptyDir p fs = (.ok ((fs.heap id).metadata.isDir && !(fs.listing q).isEmpty), fs) := by
  have hstat : stat (removeCtx p) p fs = (.ok (fs.heap id).metadata, fs) := by
    rw [stat_of_leadsTo hp h, statHere, hid]
  have hisDir : FileSystem.isDirWith stat p fs = (.ok (fs.heap id).metadata.isDir, fs) := bind_ok hstat
  rw [isNonEmptyDir, bind_ok hisDir]
  cases hdir : (fs.heap id).metadata.isDir with
  | false => rfl
  | true =>
    have hempty : FileSystem.isEmptyWith readDir p fs = (.ok (fs.listing q).isEmpty, fs) :=
      bind_ok (readDir_of_leadsTo hp h hid hdir)
    rw [if_pos rfl, bind_ok hempty]
    rfl

theorem isNonEmptyDir_of_missing (hp : validPath p = true) (h : fs.LeadsTo (removeCtx p) p q) (hq : fs.nodes[q]? = none) :
    isNonEmptyDir p fs = (.err (.path "stat" q .notFound), fs) := by
  have hstat : stat (removeCtx p) p fs = (.err (.path "stat" q .notFound), fs) := by
    rw [stat_of_leadsTo hp h, statHere, hq]
  have hisDir : FileSystem.isDirWith stat p fs = (.err (.path "stat" q .notFound), fs) := bind_err hstat
  rw [isNonEmptyDir, bind_err hisDir]

theorem isNonEmptyDir_of_returning (hp : validPath p = true) (h : Returning (fs.nextLink (removeCtx p)) p) :
    isNonEmptyDir p fs = (.abort, fs) := by
  have hisDir : FileSystem.isDirWith stat p fs = (.abort, fs) := bind_abort (stat_of_returning hp h)
  rw [isNonEmptyDir, bind_abort hisDir]

/-! ## Which names go -/

/-- Every child of a directory is hidden from its listing. -/
def AllHidden (fs : MemFs) (q : String) : Prop := ∀ c, ValidName c → childPath q c ∈ fs.nodes → hiddenName c = true

theorem listing_isEmpty_iff (h : fs.TreeInv) : (fs.listing q).isEmpty = true ↔ fs.AllHidden q := by
  rw [List.isEmpty_iff]
  constructor
  · intro hnil c hc hmem
    by_contra hshow
    have hlisted := (mem_listing h.alloc h.tree.parentClosed).mpr ⟨by simpa using hshow, hc, hmem⟩
    rw [hnil] at hlisted
    cases hlisted
  · intro hall
    rw [List.eq_nil_iff_forall_not_mem]
    intro e he
    obtain ⟨hshow, hc, hmem⟩ := (mem_listing h.alloc h.tree.parentClosed).mp (List.mem_map_of_mem he)
    rw [hall e.name hc hmem] at hshow
    cases hshow

/-- The chain from a name ends at a node that shows no children. -/
def Passes (fs : MemFs) (p : String) : Prop :=
  ∃ q, fs.LeadsTo (removeCtx p) p q ∧ q ∈ fs.nodes ∧ (fs.isDirNode q = true → fs.AllHidden q)

theorem isDirNode_of_get {id : NodeId} (hid : fs.nodes[q]? = some id) :
    fs.isDirNode q = true ↔ (fs.heap id).metadata.isDir = true := by
  rw [isDirNode_iff, hid]
  simp

theorem isNonEmptyDir_state (hp : validPath p = true) : (isNonEmptyDir p fs).2 = fs := by
  by_cases hret : Returning (fs.nextLink (removeCtx p)) p
  · rw [isNonEmptyDir_of_returning hp hret]
  · obtain ⟨q, hlead⟩ := exists_leadsTo hret
    cases hq : fs.nodes[q]? with
    | none => rw [isNonEmptyDir_of_missing hp hlead hq]
    | some id => rw [isNonEmptyDir_of_leadsTo hp hlead hq]

theorem isNonEmptyDir_eq_false_iff (h : fs.TreeInv) (hp : validPath p = true) :
    (isNonEmptyDir p fs).1 = .ok false ↔ fs.Passes p := by
  constructor
  · intro hfalse
    by_cases hret : Returning (fs.nextLink (removeCtx p)) p
    · rw [isNonEmptyDir_of_returning hp hret] at hfalse
      cases hfalse
    · obtain ⟨q, hlead⟩ := exists_leadsTo hret
      cases hq : fs.nodes[q]? with
      | none =>
        rw [isNonEmptyDir_of_missing hp hlead hq] at hfalse
        cases hfalse
      | some id =>
        rw [isNonEmptyDir_of_leadsTo hp hlead hq, Outcome.ok.injEq] at hfalse
        refine ⟨q, hlead, mem_nodes_iff.mpr ⟨id, hq⟩, fun hdir => ?_⟩
        rw [isDirNode_of_get hq] at hdir
        rw [hdir, Bool.true_and, Bool.not_eq_false'] at hfalse
        exact (listing_isEmpty_iff h).mp hfalse
  · rintro ⟨q, hlead, hmem, hhidden⟩
    obtain ⟨id, hq⟩ := mem_nodes_iff.mp hmem
    rw [isNonEmptyDir_of_leadsTo hp hlead hq]
    rw [isDirNode_of_get hq, ← listing_isEmpty_iff h] at hhidden
    cases hdir : (fs.heap id).metadata.isDir with
    | false => rfl
    | true =>
      rw [hhidden hdir]
      rfl

/-- A remove takes a name away when its chain passes, and does nothing otherwise. -/
theorem remove_eq (h : fs.TreeInv) (hp : validPath p = true) (hdot : p ≠ ".") :
    (p ∈ fs.nodes ∧ fs.Passes p ∧ remove p fs = (.ok (), (fs.eraseNode p).recomputeDirSizes)) ∨
    (¬ (p ∈ fs.nodes ∧ fs.Passes p) ∧ (remove p fs).1 ≠ .ok () ∧ (remove p fs).2 = fs) := by
  have hstate : (isNonEmptyDir p fs).2 = fs := isNonEmptyDir_state hp
  have hpasses := isNonEmptyDir_eq_false_iff h hp
  simp only [remove, cleanPath_of_valid hp, branch_apply, get_bind, if_neg hdot]
  cases hnode : fs.nodes[p]? with
  | none =>
    have hmiss : p ∉ fs.nodes := by
      rw [← Std.ExtTreeMap.isSome_getElem?_iff_mem, hnode]
      exact Bool.false_ne_true
    exact Or.inr ⟨fun hboth => hmiss hboth.1, Outcome.err_ne_ok, rfl⟩
  | some id =>
    have hmem : p ∈ fs.nodes := mem_nodes_iff.mpr ⟨id, hnode⟩
    rw [if_neg (by simp), bind_of_state hstate]
    cases hr : (isNonEmptyDir p fs).1 with
    | ok b =>
      cases b with
      | true =>
        refine Or.inr ⟨fun hboth => ?_, Outcome.err_ne_ok, rfl⟩
        rw [hpasses.mpr hboth.2] at hr
        cases hr
      | false => exact Or.inl ⟨hmem, hpasses.mp hr, rfl⟩
    | err e =>
      refine Or.inr ⟨fun hboth => ?_, Outcome.err_ne_ok, rfl⟩
      rw [hpasses.mpr hboth.2] at hr
      cases hr
    | abort =>
      refine Or.inr ⟨fun hboth => ?_, Outcome.abort_ne_ok, rfl⟩
      rw [hpasses.mpr hboth.2] at hr
      cases hr

theorem remove_eq_ok_iff (h : fs.TreeInv) (hp : validPath p = true) (hdot : p ≠ ".") :
    (remove p fs).1 = .ok () ↔ p ∈ fs.nodes ∧ fs.Passes p := by
  rcases remove_eq h hp hdot with ⟨hmem, hpass, hr⟩ | ⟨hnot, hr, -⟩
  · rw [hr]
    exact iff_of_true rfl ⟨hmem, hpass⟩
  · exact iff_of_false hr hnot

/-! ## Symlinks and hidden children -/

/-- The node at a name is a symlink. -/
def isLinkNode (fs : MemFs) (p : String) : Bool := (fs.linkText p).isSome

/-- A name that is there and is not a directory with something below it. -/
def Removable (fs : MemFs) (p : String) : Prop :=
  p ∈ fs.nodes ∧ (fs.isLinkNode p = true ∨ ¬ (fs.isDirNode p = true ∧ fs.someBelow p = true))

variable (fs p) in
/-- What a remove should do: take away one key that is removable, or leave the state alone. -/
structure RemoveSpec : Prop where
  ok_iff : (remove p fs).1 = .ok () ↔ fs.Removable p
  erased : (remove p fs).1 = .ok () → Resized (fs.eraseNode p) (remove p fs).2
  refused : (remove p fs).1 ≠ .ok () → (remove p fs).2 = fs

/-- A symlink leads to a node that shows no children, and a directory that holds something shows some of it. -/
def RemoveAgrees (fs : MemFs) (p : String) : Prop :=
  if fs.isLinkNode p = true then fs.Passes p
  else fs.isDirNode p = true → fs.someBelow p = true → ¬ fs.AllHidden p

theorem passes_of_not_link (hlink : fs.isLinkNode p = false) (hmem : p ∈ fs.nodes) :
    fs.Passes p ↔ (fs.isDirNode p = true → fs.AllHidden p) := by
  have htext : fs.linkText p = none := by
    rw [← Option.not_isSome_iff_eq_none]
    simpa [isLinkNode] using hlink
  have hnext : fs.nextLink (removeCtx p) p = none := by
    unfold nextLink
    rw [htext]
    simp
  constructor
  · rintro ⟨q, ⟨k, hk, -⟩, -, hhidden⟩
    cases k with
    | zero =>
      cases hk
      exact hhidden
    | succ k =>
      rw [follow_succ, hnext] at hk
      cases hk
  · intro hhidden
    exact ⟨p, ⟨0, rfl, hnext⟩, hmem, hhidden⟩

theorem someBelow_of_not_allHidden (h : ¬ fs.AllHidden p) : fs.someBelow p = true := by
  by_contra hnone
  refine h fun c hc hmem => absurd (someBelow_iff.mpr ⟨childPath p c, hmem, below_childPath p hc⟩) hnone

/-- A remove does what it should exactly when the links and the hidden children do not mislead it. -/
theorem remove_spec_iff (h : fs.TreeInv) (hp : validPath p = true) (hdot : p ≠ ".") :
    fs.RemoveSpec p ↔ (p ∈ fs.nodes → fs.RemoveAgrees p) := by
  have hok := remove_eq_ok_iff h hp hdot
  have hspec : fs.RemoveSpec p ↔ (p ∈ fs.nodes ∧ fs.Passes p ↔ fs.Removable p) := by
    constructor
    · intro hs
      exact hok.symm.trans hs.ok_iff
    · intro hiff
      rcases remove_eq h hp hdot with ⟨-, -, hr⟩ | ⟨-, hne, hr⟩
      · refine ⟨hok.trans hiff, fun _ => ?_, fun hne => ?_⟩
        · rw [hr]
          exact resized_recomputeDirSizes _
        · rw [hr] at hne
          exact absurd rfl hne
      · exact ⟨hok.trans hiff, fun hyes => absurd hyes hne, fun _ => hr⟩
  rw [hspec, Removable, and_congr_right_iff]
  refine imp_congr_right fun hmem => ?_
  unfold RemoveAgrees
  cases hlink : fs.isLinkNode p with
  | true => simp
  | false =>
    rw [passes_of_not_link hlink hmem, if_neg Bool.false_ne_true]
    simp only [Bool.false_eq_true, false_or]
    have hbelow : ¬ fs.AllHidden p → fs.someBelow p = true := someBelow_of_not_allHidden
    tauto

/-- A file in a directory goes, and the directory that holds it stays. -/
theorem remove_spec_smallFs : smallFs.RemoveSpec "a/b" ∧ smallFs.RemoveSpec "a" := by
  have hfile : smallFs.isLinkNode "a/b" = false ∧ smallFs.isDirNode "a/b" = false := by
    decide +kernel
  have hdir : smallFs.isLinkNode "a" = false ∧ (smallFs.nodes[childPath "a" "b"]?).isSome = true := by
    decide +kernel
  constructor
  · refine (remove_spec_iff smallFs_treeInv (by decide) (by decide)).mpr fun _ => ?_
    rw [RemoveAgrees, hfile.1, if_neg Bool.false_ne_true, hfile.2]
    exact fun hyes => absurd hyes Bool.false_ne_true
  · refine (remove_spec_iff smallFs_treeInv (by decide) (by decide)).mpr fun _ => ?_
    rw [RemoveAgrees, hdir.1, if_neg Bool.false_ne_true]
    intro _ _ hall
    have hshow := hall "b" (by decide) (Std.ExtTreeMap.isSome_getElem?_iff_mem.mp hdir.2)
    revert hshow
    decide

/-- A symlink to a path where nothing is. -/
def dangling : MemFs := (run MemWorld.step (MemWorld.init fun _ => 0) [.symlink "gone" "l"]).fs

theorem dangling_treeInv : dangling.TreeInv := by
  have hsteps : StepsMeet MemWorld.step MemWorld.TreeStep (MemWorld.init fun _ => 0) [.symlink "gone" "l"] := by
    decide +kernel
  exact run_invariant (I := fun w : MemWorld => w.fs.TreeInv)
    (fun _ op hw hok => MemWorld.step_treeInv op hw hok) (MemWorld.init_treeInv _) hsteps

/-- The dangling symlink cannot be removed. -/
theorem remove_not_spec : ¬ ∀ (fs : MemFs) (p : String), fs.TreeInv → validPath p = true → p ≠ "." → fs.RemoveSpec p := by
  intro hall
  have hspec := hall dangling "l" dangling_treeInv (by decide) (by decide)
  have hkind : (dangling.nodes["l"]?).isSome = true ∧ dangling.isLinkNode "l" = true := by
    decide +kernel
  have hok := hspec.ok_iff.mpr ⟨Std.ExtTreeMap.isSome_getElem?_iff_mem.mp hkind.1, Or.inl hkind.2⟩
  revert hok
  decide +kernel

end MemFs
end Star9
