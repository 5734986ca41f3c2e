import Star9.Fs.UnionFs

/-!
# What a layer answers

A path is looked up by following the links at its end. What a layer says of a path and lists
there depends on where this leads, and on nothing that opening a file may change: the names that
nodes have.
-/
namespace Star9
open Base Prog

namespace MemFs

/-! ## Where a path leads -/

inductive Resolved where
  | invalid
  | endless
  | missing (name : String)
  | node (name : String) (id : NodeId)
  deriving DecidableEq

def resolveAt (fs : MemFs) (ctx : FsContext) : Nat → String → Resolved
  | 0, _ => .endless
  | depth + 1, name =>
    if validPath name then
      match fs.nodes[cleanPath name]? with
      | none => .missing (cleanPath name)
      | some id =>
        if ctx.followSymlinks && (fs.heap id).metadata.mode.isSymlink then
          fs.resolveAt ctx depth (resolveSymlink ctx (cleanPath name) (utf8Lossy (fs.heap id).data))
        else .node (cleanPath name) id
    else .invalid

def resolve (fs : MemFs) (ctx : FsContext) (name : String) : Resolved := fs.resolveAt ctx (fs.nodes.size + 1) name

/-- What stat says once it is known where the path leads. -/
def statResolved (fs : MemFs) : Resolved → Outcome Unit Metadata
  | .node _ id => .ok { (fs.heap id).metadata with name := "" }
  | .endless => .abort
  | _ => .err ()

/-- What a file system says of a path, apart from names and messages. -/
def answer (fs : MemFs) (ctx : FsContext) (name : String) : Outcome Unit Metadata :=
  match (stat ctx name fs).1 with
  | .ok metadata => .ok { metadata with name := "" }
  | .err _ => .err ()
  | .abort => .abort

/-- What a directory lists, nothing if it cannot; a panic is no listing. -/
def entriesAt (fs : MemFs) (ctx : FsContext) (name : String) : Option (List DirEntry) :=
  match (readDir ctx name fs).1 with
  | .ok entries => some entries
  | .err _ => some []
  | .abort => none

section
variable {fs : MemFs} {ctx : FsContext} {name : String}

theorem statAt_cases (fs : MemFs) (ctx : FsContext) (depth : Nat) (name : String) :
    (∃ n id, fs.resolveAt ctx depth name = .node n id ∧ fs.statAt depth ctx name = .ok (fs.heap id).metadata) ∨
      (fs.resolveAt ctx depth name = .endless ∧ fs.statAt depth ctx name = .abort) ∨
      (fs.statResolved (fs.resolveAt ctx depth name) = .err () ∧ ∃ e, fs.statAt depth ctx name = .err e ∧ e.errorKind = .notFound) := by
  induction depth generalizing name with
  | zero => exact .inr (.inl ⟨rfl, rfl⟩)
  | succ depth ih =>
    unfold resolveAt statAt
    by_cases hvalid : validPath name = true
    · rw [if_pos hvalid, hvalid]
      cases hid : fs.nodes[cleanPath name]? with
      | none => exact .inr (.inr ⟨rfl, .path "stat" (cleanPath name) .notFound, by simp [hid], rfl⟩)
      | some id =>
        by_cases hlink : (ctx.followSymlinks && (fs.heap id).metadata.mode.isSymlink) = true
        · simpa only [hlink, hid, Bool.not_true, Bool.false_eq_true, if_false, if_true] using ih _
        · exact .inl ⟨cleanPath name, id, by simp [hlink], by simp [hid, hlink]⟩
    · rw [if_neg hvalid]
      exact .inr (.inr ⟨rfl, .path "stat" name .notFound, by simp [hvalid], rfl⟩)

theorem answer_eq (fs : MemFs) (ctx : FsContext) (name : String) : fs.answer ctx name = fs.statResolved (fs.resolve ctx name) := by
  unfold answer stat resolve
  rw [reads_apply]
  obtain ⟨n, id, hresolve, hstat⟩ | ⟨hresolve, hstat⟩ | ⟨hresolve, e, hstat, -⟩ := statAt_cases fs ctx (fs.nodes.size + 1) name
  · rw [hresolve, hstat]
    rfl
  · rw [hresolve, hstat]
    rfl
  · rw [hresolve, hstat]

/-- Asking for a path that a file system does not have is never worse than not found. -/
theorem stat_of_absent (h : fs.answer ctx name = .err ()) : ∃ e, stat ctx name fs = (.err e, fs) ∧ e.errorKind = .notFound := by
  unfold answer stat at h
  rw [reads_apply] at h
  obtain ⟨n, id, -, hstat⟩ | ⟨-, hstat⟩ | ⟨-, e, hstat, hkind⟩ := statAt_cases fs ctx (fs.nodes.size + 1) name
  · rw [hstat] at h
    cases h
  · rw [hstat] at h
    cases h
  · exact ⟨e, by rw [stat, reads_apply, hstat], hkind⟩

theorem stat_of_abort (h : fs.answer ctx name = .abort) : stat ctx name fs = (.abort, fs) := by
  unfold answer at h
  cases hstat : stat ctx name fs with
  | mk r fs' =>
    have hsame : fs' = fs := congrArg Prod.snd hstat.symm
    rw [hstat] at h
    cases r with
    | ok m => cases h
    | err e => cases h
    | abort => rw [hsame]

theorem stat_of_ok {m : Metadata} (h : fs.answer ctx name = .ok m) :
    ∃ m', stat ctx name fs = (.ok m', fs) ∧ m = { m' with name := "" } := by
  unfold answer at h
  cases hstat : stat ctx name fs with
  | mk r fs' =>
    have hsame : fs' = fs := congrArg Prod.snd hstat.symm
    rw [hstat] at h
    cases r with
    | ok m' =>
      cases h
      exact ⟨m', by rw [hsame], rfl⟩
    | err e => cases h
    | abort => cases h

/-! ## Opening and listing -/

theorem openAt_eq (fs : MemFs) (ctx : FsContext) (depth : Nat) (name : String) :
    (∃ n id, fs.resolveAt ctx depth name = .node n id ∧ openAt depth ctx name fs =
      if (fs.heap id).metadata.isDir then openDir n fs else openNode id (fs.updateNode id (NodeInner.setName (baseName n)))) ∨
      (∃ n, fs.resolveAt ctx depth name = .missing n ∧ openAt depth ctx name fs = openDir n fs) ∨
      (fs.resolveAt ctx depth name = .endless ∧ openAt depth ctx name fs = (.abort, fs)) ∨
      (fs.resolveAt ctx depth name = .invalid ∧ ∃ e, openAt depth ctx name fs = (.err e, fs)) := by
  induction depth generalizing name with
  | zero => exact .inr (.inr (.inl ⟨rfl, rfl⟩))
  | succ depth ih =>
    unfold resolveAt openAt
    rw [branch_apply]
    by_cases hvalid : validPath name = true
    · rw [if_pos hvalid, if_neg (by simp [hvalid]), get_bind]
      cases hid : fs.nodes[cleanPath name]? with
      | none => exact .inr (.inl ⟨_, rfl, rfl⟩)
      | some id =>
        dsimp only
        rw [branch_apply]
        by_cases hlink : (ctx.followSymlinks && (fs.heap id).metadata.mode.isSymlink) = true
        · rw [if_pos hlink, if_pos hlink]
          exact ih _
        · rw [if_neg hlink, if_neg hlink, branch_apply]
          refine .inl ⟨_, _, rfl, ?_⟩
          cases (fs.heap id).metadata.isDir <;> rfl
    · rw [if_neg hvalid, if_pos (by simp [hvalid])]
      exact .inr (.inr (.inr ⟨rfl, _, rfl⟩))

/-- Something is at the name, or something below it. -/
def opensDir (fs : MemFs) (name : String) : Bool :=
  !((fs.nodes[name]?).isNone && (fs.childrenFor name).1.isEmpty && (fs.childrenFor name).2.isEmpty && name ≠ ".")

/-- What listing gives once it is known where the path leads. -/
def listResolved (fs : MemFs) : Resolved → Option (List DirEntry)
  | .node name id => some (if (fs.heap id).metadata.isDir && fs.opensDir name then fs.listing name else [])
  | .missing name => some (if fs.opensDir name then fs.listing name else [])
  | .invalid => some []
  | .endless => none

theorem openDir_eq (fs : MemFs) (name : String) :
    (fs.opensDir name = true ∧ ∃ f : DirFile, f.entries = dedupeSortHide (fs.dirEntries name) ∧ openDir name fs = (.ok (.dir f), fs)) ∨
      (fs.opensDir name = false ∧ ∃ e, openDir name fs = (.err e, fs)) := by
  unfold openDir opensDir
  rw [get_bind]
  dsimp only
  rw [branch_apply]
  split
  · rename_i h
    exact .inr ⟨by rw [h]; rfl, _, rfl⟩
  · rename_i h
    exact .inl ⟨by rw [Bool.not_eq_true] at h; rw [h]; rfl, _, rfl, rfl⟩

/-- The context in which a listing is opened. -/
def readContext (ctx : FsContext) (name : String) : FsContext := ctx.setReadOnly.withOrigin name "readdir"

/-- A state apart from the names of its nodes. -/
def facts (fs : MemFs) : MemFs := { fs with heap := fun i => (fs.heap i).setName "" }

theorem facts_setName (id : NodeId) (n : String) : (fs.updateNode id (NodeInner.setName n)).facts = fs.facts := by
  have hheap : (fun i => ((fs.updateNode id (NodeInner.setName n)).heap i).setName "") = fun i => (fs.heap i).setName "" := by
    funext i
    rw [updateNode_heap]
    by_cases hi : i = id
    · subst hi
      rw [Function.update_self]
      rfl
    · rw [Function.update_of_ne hi]
  rw [facts, hheap]
  rfl

theorem readDir_of_dir {f : DirFile} {fs' : MemFs} (h : open_ (readContext ctx name) name fs = (.ok (.dir f), fs')) :
    readDir ctx name fs = (.ok (FileSystem.sortEntries f.entries), fs') := by
  rw [readDir, FileSystem.defaultReadDir]
  exact bind_ok h

theorem readDir_of_node {f : NodeFile} {fs' : MemFs} (h : open_ (readContext ctx name) name fs = (.ok (.node f), fs')) :
    ∃ e, readDir ctx name fs = (.err e, fs') := by
  refine ⟨.path "readdir" f.metadata.name .notSupported, ?_⟩
  rw [readDir, FileSystem.defaultReadDir]
  exact bind_ok h

theorem readDir_of_err {e : Error} {fs' : MemFs} (h : open_ (readContext ctx name) name fs = (.err e, fs')) :
    readDir ctx name fs = (.err e, fs') := by
  rw [readDir, FileSystem.defaultReadDir]
  exact bind_err h

theorem readDir_of_abort {fs' : MemFs} (h : open_ (readContext ctx name) name fs = (.abort, fs')) :
    readDir ctx name fs = (.abort, fs') := by
  rw [readDir, FileSystem.defaultReadDir]
  exact bind_abort h

/-- A listing is that of where the path leads, and at most a name changes. -/
theorem readDir_eq (fs : MemFs) (ctx : FsContext) (name : String) :
    fs.entriesAt ctx name = fs.listResolved (fs.resolve (readContext ctx name) name) ∧ (readDir ctx name fs).2.facts = fs.facts := by
  have hopened : ∀ n, open_ (readContext ctx name) name fs = openDir n fs →
      fs.entriesAt ctx name = some (if fs.opensDir n then fs.listing n else []) ∧ (readDir ctx name fs).2.facts = fs.facts := by
    intro n hopen
    unfold entriesAt
    obtain ⟨hdir, f, hf, hopenDir⟩ | ⟨hdir, e, hopenDir⟩ := openDir_eq fs n
    · rw [readDir_of_dir (hopen.trans hopenDir), hdir, hf]
      exact ⟨rfl, rfl⟩
    · rw [readDir_of_err (hopen.trans hopenDir), hdir]
      exact ⟨rfl, rfl⟩
  have hopen : open_ (readContext ctx name) name fs = openAt (fs.nodes.size + 1) (readContext ctx name) name fs := rfl
  obtain ⟨n, id, hresolve, hat⟩ | ⟨n, hresolve, hat⟩ | ⟨hresolve, hat⟩ | ⟨hresolve, e, hat⟩ :=
    openAt_eq fs (readContext ctx name) (fs.nodes.size + 1) name
  · rw [resolve, hresolve]
    by_cases hdir : (fs.heap id).metadata.isDir = true
    · rw [if_pos hdir] at hat
      obtain ⟨hentries, hfacts⟩ := hopened n (hopen.trans hat)
      exact ⟨by rw [hentries, listResolved, hdir, Bool.true_and], hfacts⟩
    · rw [if_neg hdir] at hat
      obtain ⟨e, hread⟩ := readDir_of_node (hopen.trans hat)
      rw [entriesAt, hread, listResolved, Bool.eq_false_iff.mpr hdir]
      exact ⟨rfl, facts_setName id _⟩
  · rw [resolve, hresolve]
    exact hopened n (hopen.trans hat)
  · rw [resolve, hresolve, entriesAt, readDir_of_abort (hopen.trans hat)]
    exact ⟨rfl, rfl⟩
  · rw [resolve, hresolve, entriesAt, readDir_of_err (hopen.trans hat)]
    exact ⟨rfl, rfl⟩

/-! ## Names do not matter -/

theorem resolveAt_facts (fs : MemFs) (ctx : FsContext) (depth : Nat) (name : String) :
    fs.facts.resolveAt ctx depth name = fs.resolveAt ctx depth name := by
  induction depth generalizing name with
  | zero => rfl
  | succ depth ih =>
    unfold resolveAt
    split
    · have hnodes : fs.facts.nodes[cleanPath name]? = fs.nodes[cleanPath name]? := rfl
      rw [hnodes]
      cases fs.nodes[cleanPath name]? with
      | none => rfl
      | some id =>
        dsimp only
        rw [ih]
        rfl
    · rfl

theorem childrenFor_facts (fs : MemFs) (name : String) : fs.facts.childrenFor name = fs.childrenFor name := by
  have hstep : fs.facts.childStep name = fs.childStep name := by
    funext acc kv
    rfl
  unfold childrenFor
  rw [hstep]
  rfl

theorem answer_facts (fs : MemFs) (ctx : FsContext) (name : String) : fs.facts.answer ctx name = fs.answer ctx name := by
  have hresolve : fs.facts.resolve ctx name = fs.resolve ctx name := resolveAt_facts fs ctx _ name
  rw [answer_eq, answer_eq, hresolve]
  cases fs.resolve ctx name <;> rfl

theorem entriesAt_facts (fs : MemFs) (ctx : FsContext) (name : String) : fs.facts.entriesAt ctx name = fs.entriesAt ctx name := by
  have hresolve : fs.facts.resolve (readContext ctx name) name = fs.resolve (readContext ctx name) name :=
    resolveAt_facts fs (readContext ctx name) _ name
  have hopens : ∀ n, fs.facts.opensDir n = fs.opensDir n := by
    intro n
    rw [opensDir, opensDir, childrenFor_facts]
    rfl
  have hlisting : ∀ n, fs.facts.listing n = fs.listing n := by
    intro n
    rw [listing, listing, dirEntries, dirEntries, childrenFor_facts]
  rw [(readDir_eq _ ctx name).1, (readDir_eq fs ctx name).1, hresolve]
  cases fs.resolve (readContext ctx name) name with
  | invalid => rfl
  | endless => rfl
  | missing n => simp only [listResolved, hopens, hlisting]
  | node n id =>
    simp only [listResolved, hopens, hlisting]
    rfl

/-- A listing shows no hidden name. -/
theorem visible_of_entriesAt {entries : List DirEntry} (h : fs.entriesAt ctx name = some entries) {e : DirEntry} (he : e ∈ entries) :
    hiddenName e.name = false := by
  have hlisting : ∀ n, e ∈ fs.listing n → hiddenName e.name = false := fun n hmem => (mem_listing_names.mp (List.mem_map_of_mem hmem)).1
  rw [(readDir_eq fs ctx name).1] at h
  cases hresolve : fs.resolve (readContext ctx name) name with
  | invalid =>
    rw [hresolve] at h
    cases h
    cases he
  | endless =>
    rw [hresolve] at h
    cases h
  | missing n =>
    rw [hresolve, listResolved, Option.some.injEq] at h
    subst h
    split at he
    · exact hlisting n he
    · cases he
  | node n id =>
    rw [hresolve, listResolved, Option.some.injEq] at h
    subst h
    split at he
    · exact hlisting n he
    · cases he

/-- Opening something that is no directory gives a file of this kind. -/
theorem open_of_answer_file {m : Metadata} (h : fs.answer ctx name = .ok m) (hfile : m.isDir = false) :
    ∃ f fs', open_ ctx name fs = (.ok (.node f), fs') ∧ f.metadata.mode = m.mode := by
  rw [answer_eq] at h
  have hopen : open_ ctx name fs = openAt (fs.nodes.size + 1) ctx name fs := rfl
  obtain ⟨n, id, hresolve, hat⟩ | ⟨n, hresolve, hat⟩ | ⟨hresolve, hat⟩ | ⟨hresolve, e, hat⟩ := openAt_eq fs ctx (fs.nodes.size + 1) name
  · rw [resolve, hresolve] at h
    have hm : { (fs.heap id).metadata with name := "" } = m := Outcome.ok.inj h
    have hdir : (fs.heap id).metadata.isDir = false := by
      rw [← hm] at hfile
      exact hfile
    rw [hdir, if_neg Bool.false_ne_true] at hat
    refine ⟨_, _, hopen.trans hat, ?_⟩
    rw [← hm]
    change ((fs.updateNode id (NodeInner.setName (baseName n))).heap id).metadata.mode = _
    rw [updateNode_heap, Function.update_self]
    rfl
  · rw [resolve, hresolve] at h
    cases h
  · rw [resolve, hresolve] at h
    cases h
  · rw [resolve, hresolve] at h
    cases h

end
end MemFs
end Star9
