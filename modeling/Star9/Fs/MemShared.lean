import Star9.Fs.MemHandle
import Star9.Fs.MemRun

/-!
# Two handles on one file

A handle takes a copy of the whole file when it is opened, writes into its copy,
and puts the copy back when it is synced or closed with writes pending. What the
other handle has put back in the meantime stays only where the copy has it too.
-/
namespace Star9
open Base Prog

/-! ## Ranges of a file -/

/-- The bytes `new` stand in `data` from `offset` on. -/
def Holds (data : Bytes) (offset : Nat) (new : Bytes) : Prop := ∀ i, i < new.length → data[offset + i]? = new[i]?

instance (data : Bytes) (offset : Nat) (new : Bytes) : Decidable (Holds data offset new) :=
  inferInstanceAs (Decidable (∀ i, i < new.length → data[offset + i]? = new[i]?))

variable {data new : Bytes} {offset start : Nat}

theorem overwrite_getElem? (h : start ≤ data.length) (k : Nat) : (overwrite data start new)[k]? =
    if k < start then data[k]? else if k < start + new.length then new[k - start]? else data[k]? := by
  have htake : (data.take start).length = start := by
    rw [List.length_take]
    omega
  unfold overwrite
  split
  · rename_i hk
    rw [List.append_assoc, List.getElem?_append_left (by omega), List.getElem?_take_of_lt hk]
  · rename_i hk
    split
    · rw [List.append_assoc, List.getElem?_append_right (by omega), htake, List.getElem?_append_left (by omega)]
    · rw [List.getElem?_append_right (by rw [List.length_append]; omega), List.length_append, htake, List.getElem?_drop]
      congr 1
      omega

theorem Holds.of_prefix {data' : Bytes} (h : Holds data offset new) (hpre : data <+: data') : Holds data' offset new := by
  intro i hi
  rw [← h i hi]
  obtain ⟨rest, rfl⟩ := hpre
  have hin : offset + i < data.length := by
    by_contra hout
    have hnone := h i hi
    rw [List.getElem?_eq_none (by omega), List.getElem?_eq_getElem hi] at hnone
    cases hnone
  exact List.getElem?_append_left hin

theorem holds_overwrite (h : start ≤ data.length) : Holds (overwrite data start new) start new := by
  intro i hi
  rw [overwrite_getElem? h, if_neg (by omega), if_pos (by omega), Nat.add_sub_cancel_left]

/-- No byte is in both ranges. -/
def Apart (offset n start m : Nat) : Prop := ∀ i, i < n → ∀ j, j < m → offset + i ≠ start + j

instance (offset n start m : Nat) : Decidable (Apart offset n start m) :=
  inferInstanceAs (Decidable (∀ i, i < n → ∀ j, j < m → offset + i ≠ start + j))

theorem Holds.overwrite {put : Bytes} (h : Holds data offset new) (hstart : start ≤ data.length)
    (hapart : Apart offset new.length start put.length) : Holds (overwrite data start put) offset new := by
  intro i hi
  rw [overwrite_getElem? hstart, ← h i hi]
  split
  · rfl
  · rw [if_neg]
    intro hin
    exact hapart i hi (offset + i - start) (by omega) (by omega)

/-! ## Two handles -/

inductive Side where
  | left
  | right
  deriving DecidableEq

inductive SharedOp where
  | open_ (who : Side) (ctx : FsContext)
  | writeAt (who : Side) (data : Bytes) (offset : UInt64)
  | sync (who : Side)
  | close (who : Side)
  | truncate (size : UInt64)

/-- A call of `write_at` that returned. -/
structure Written where
  who : Side
  offset : Nat
  data : Bytes

/-- The file system, the two handles and what they wrote. -/
structure SharedFile where
  fs : MemFs
  handle : Side → Option NodeFile
  written : List Written

namespace SharedFile

/-- A call on an open handle. -/
def onHandle {α : Type} (who : Side) (p : Prog (NodeFile × MemFs) Error α) (log : Outcome Error α → List Written)
    (w : SharedFile) : SharedFile :=
  match w.handle who with
  | none => w
  | some f =>
    { fs := (p (f, w.fs)).2.2
      handle := Function.update w.handle who (some (p (f, w.fs)).2.1)
      written := log (p (f, w.fs)).1 ++ w.written }

/-- The handle that an open returned. -/
def opened : Outcome Error MemFile → Option NodeFile
  | .ok (.node f) => some f
  | _ => none

/-- Both handles are opened on the file at `path`, each once. -/
def step (path : String) (w : SharedFile) : SharedOp → SharedFile
  | .open_ who ctx =>
    match w.handle who with
    | none =>
      { w with
        fs := (MemFs.open_ ctx path w.fs).2
        handle := Function.update w.handle who (opened (MemFs.open_ ctx path w.fs).1) }
    | some _ => w
  | .writeAt who data offset =>
    w.onHandle who (NodeFile.writeAt data offset) fun r => if r.isOk then [{ who, offset := offset.toNat, data }] else []
  | .sync who => w.onHandle who NodeFile.sync fun _ => []
  | .close who => w.onHandle who NodeFile.close fun _ => []
  | .truncate size => { w with fs := (MemFs.truncate path size w.fs).2 }

def init (fs : MemFs) : SharedFile := { fs, handle := fun _ => none, written := [] }

/-- The handle has writes that it has not put back. -/
def pending (w : SharedFile) (who : Side) : Bool := ((w.handle who).map (·.dirty)).getD false

def closed (w : SharedFile) (who : Side) : Bool := ((w.handle who).map (·.closed)).getD false

/-- The writes are to separate ranges, and no truncation comes after a write. -/
def Given (w : SharedFile) : SharedOp → Prop
  | .writeAt _ data offset => ∀ x ∈ w.written, Apart x.offset x.data.length offset.toNat data.length
  | .truncate _ => w.written = []
  | _ => True

/-- A handle that puts its copy back holds what the other one has put back. -/
def StoreKeeps (w : SharedFile) (who : Side) : Prop :=
  ∀ f, w.handle who = some f → f.dirty = true → ∀ x ∈ w.written, x.who ≠ who → w.pending x.who = false →
    Holds f.data x.offset x.data

instance (w : SharedFile) (who : Side) : Decidable (w.StoreKeeps who) :=
  match hf : w.handle who with
  | none => isTrue fun f hsome => by rw [hf] at hsome; cases hsome
  | some f =>
    decidable_of_iff (f.dirty = true → ∀ x ∈ w.written, x.who ≠ who → w.pending x.who = false → Holds f.data x.offset x.data)
      (by simp [StoreKeeps, hf])

def StepKeeps (w : SharedFile) : SharedOp → Prop
  | .sync who => w.StoreKeeps who
  | .close who => w.StoreKeeps who
  | _ => True

instance (w : SharedFile) : ∀ op, Decidable (w.Given op)
  | .open_ _ _ => instDecidableTrue
  | .writeAt _ data offset => inferInstanceAs (Decidable (∀ x ∈ w.written, Apart x.offset x.data.length offset.toNat data.length))
  | .sync _ => instDecidableTrue
  | .close _ => instDecidableTrue
  | .truncate _ => decidable_of_iff (w.written.isEmpty = true) List.isEmpty_iff

instance (w : SharedFile) : ∀ op, Decidable (w.StepKeeps op)
  | .open_ _ _ => instDecidableTrue
  | .writeAt _ _ _ => instDecidableTrue
  | .sync who => inferInstanceAs (Decidable (w.StoreKeeps who))
  | .close who => inferInstanceAs (Decidable (w.StoreKeeps who))
  | .truncate _ => instDecidableTrue

/-- Every write that returned is in the file at `id` or waits in its handle. -/
def NothingLost (id : NodeId) (w : SharedFile) : Prop :=
  ∀ x ∈ w.written, w.pending x.who = true ∨ Holds (w.fs.heap id).data x.offset x.data

/-! ## What one call does -/

end SharedFile

theorem prefix_resize {n : Nat} (h : data.length ≤ n) : data <+: resize data n := by
  rw [resize, List.take_of_length_le h]
  exact List.prefix_append _ _

/-- A write puts the bytes into the copy, which may have grown before, or fails and at most lets it grow. -/
theorem NodeFile.writeAt_cases (new : Bytes) (offset : UInt64) (f : NodeFile) (fs : MemFs) :
    (NodeFile.writeAt new offset (f, fs)).2.1.node = f.node ∧ (NodeFile.writeAt new offset (f, fs)).2.1.closed = f.closed ∧
    (NodeFile.writeAt new offset (f, fs)).2.2.nodes = fs.nodes ∧ (NodeFile.writeAt new offset (f, fs)).2.2.heap = fs.heap ∧
    (((NodeFile.writeAt new offset (f, fs)).1.isOk = true ∧ f.closed = false ∧ (NodeFile.writeAt new offset (f, fs)).2.1.dirty = true ∧
        ∃ grown, f.data <+: grown ∧ offset.toNat ≤ grown.length ∧
          (NodeFile.writeAt new offset (f, fs)).2.1.data = overwrite grown offset.toNat new) ∨
      ((NodeFile.writeAt new offset (f, fs)).1.isOk = false ∧ (NodeFile.writeAt new offset (f, fs)).2.1.dirty = f.dirty ∧
        f.data <+: (NodeFile.writeAt new offset (f, fs)).2.1.data)) := by
  have hgrown : f.data <+: (if f.data.length < offset.toNat then resize f.data offset.toNat else f.data) := by
    split
    · exact prefix_resize (by omega)
    · exact List.prefix_rfl
  have hlen : offset.toNat ≤ (if f.data.length < offset.toNat then resize f.data offset.toNat else f.data).length := by
    split
    · rw [resize_length]
    · omega
  unfold NodeFile.writeAt NodeFile.write
  dsimp only
  generalize (if f.data.length < offset.toNat then resize f.data offset.toNat else f.data) = grown at *
  split
  · exact ⟨rfl, rfl, rfl, rfl, Or.inr ⟨rfl, rfl, List.prefix_rfl⟩⟩
  · rename_i hclosed
    split
    · exact ⟨rfl, rfl, rfl, rfl, Or.inr ⟨rfl, rfl, List.prefix_rfl⟩⟩
    · split
      · exact ⟨rfl, rfl, rfl, rfl, Or.inr ⟨rfl, rfl, List.prefix_rfl⟩⟩
      · split
        · exact ⟨rfl, rfl, rfl, rfl, Or.inr ⟨rfl, rfl, hgrown⟩⟩
        · refine ⟨rfl, rfl, rfl, rfl, Or.inl ⟨rfl, by simpa using hclosed, rfl, _, ?_, ?_, rfl⟩⟩
          · split
            · exact hgrown.trans (prefix_resize (by omega))
            · exact hgrown
          · split
            · rw [resize_length]
              omega
            · exact hlen

/-- A call that puts the copy back when writes are pending. -/
def Stores (p : Prog (NodeFile × MemFs) Error Unit) : Prop :=
  ∀ f fs, (f.closed = true → f.dirty = false) →
    (p (f, fs)).2.2 = (if f.dirty = true then fs.setData f.node f.data else fs) ∧ (p (f, fs)).2.1.node = f.node ∧
    (p (f, fs)).2.1.data = f.data ∧ (p (f, fs)).2.1.dirty = false

theorem stores_sync : Stores NodeFile.sync := by
  intro f fs _
  unfold NodeFile.sync
  dsimp only
  split_ifs with hdirty
  · exact ⟨rfl, rfl, rfl, rfl⟩
  · exact ⟨rfl, rfl, rfl, by simpa using hdirty⟩

theorem stores_close : Stores NodeFile.close := by
  intro f fs hrest
  obtain ⟨hfs, hnode, hdata, hdirty⟩ := stores_sync f fs hrest
  unfold NodeFile.close
  dsimp only
  by_cases hclosed : f.closed = true
  · have hclean := hrest hclosed
    rw [if_pos hclosed, if_neg (by simp [hclean])]
    exact ⟨rfl, rfl, rfl, hclean⟩
  · rw [if_neg hclosed]
    exact ⟨hfs, hnode, hdata, hdirty⟩

/-- The name and the kind of the file stay. -/
structure MemFs.SameFile (path : String) (id : NodeId) (fs : MemFs) : Prop where
  node : fs.nodes[path]? = some id
  leaf : (fs.heap id).metadata.isDir = false
  plain : (fs.heap id).metadata.mode.isSymlink = false

theorem MemFs.SameFile.setData {path : String} {id : NodeId} {fs : MemFs} (h : fs.SameFile path id) (data : Bytes) :
    (fs.setData id data).SameFile path id ∧ ((fs.setData id data).heap id).data = data := by
  have hnode : (fs.setData id data).heap id = NodeInner.setData data (fs.clock fs.ticks) (fs.heap id) := by
    simp [MemFs.setData, updateNode]
  refine ⟨⟨h.node, ?_, ?_⟩, ?_⟩
  · rw [hnode]
    exact h.leaf
  · rw [hnode]
    exact h.plain
  · rw [hnode]
    rfl

/-- Opening a file by its own name copies it into a new handle. -/
theorem MemFs.SameFile.open_ {path : String} {id : NodeId} {fs : MemFs} (hpath : validPath path = true) (h : fs.SameFile path id)
    (ctx : FsContext) :
    (∃ f : NodeFile, (MemFs.open_ ctx path fs).1 = .ok (.node f) ∧ f.node = id ∧ f.dirty = false) ∧
      (MemFs.open_ ctx path fs).2.SameFile path id ∧ ((MemFs.open_ ctx path fs).2.heap id).data = (fs.heap id).data := by
  have hnode : (fs.updateNode id (NodeInner.setName (baseName path))).heap id = NodeInner.setName (baseName path) (fs.heap id) := by
    simp [updateNode]
  rw [MemFs.open_of_file ctx hpath h.node h.plain h.leaf]
  refine ⟨⟨_, rfl, rfl, rfl⟩, ⟨h.node, ?_, ?_⟩, ?_⟩
  · show ((fs.updateNode id (NodeInner.setName (baseName path))).heap id).metadata.isDir = false
    rw [hnode]
    exact h.leaf
  · show ((fs.updateNode id (NodeInner.setName (baseName path))).heap id).metadata.mode.isSymlink = false
    rw [hnode]
    exact h.plain
  · show ((fs.updateNode id (NodeInner.setName (baseName path))).heap id).data = _
    rw [hnode]
    rfl

theorem MemFs.SameFile.truncate {path : String} {id : NodeId} {fs : MemFs} (hpath : validPath path = true) (h : fs.SameFile path id)
    (size : UInt64) : (MemFs.truncate path size fs).2.SameFile path id := by
  have hnode : nodeOr "truncate" (cleanPath path) fs = (.ok id, fs) := by
    rw [nodeOr, get_bind, cleanPath_of_valid hpath, h.node]
    rfl
  rw [MemFs.truncate, bind_ok hnode, get_bind, branch_apply]
  split
  · exact h
  · exact (h.setData _).1

namespace SharedFile

variable {w : SharedFile} {path : String} {id : NodeId}

variable (path id w) in
/-- What holds in every state: the handles are on the file, a closed one waits for
nothing, and each copy holds what its handle wrote. -/
structure Inv : Prop where
  file : w.fs.SameFile path id
  on_file : ∀ who f, w.handle who = some f → f.node = id ∧ (f.closed = true → f.dirty = false)
  logged : ∀ x ∈ w.written, ∃ f, w.handle x.who = some f ∧ Holds f.data x.offset x.data

theorem pending_eq {who : Side} {f : NodeFile} (h : w.handle who = some f) : w.pending who = f.dirty := by
  rw [pending, h]
  rfl

/-- A new value for one handle keeps the invariant when it still holds what the handle wrote. -/
theorem Inv.replace (h : w.Inv path id) {who : Side} {f g : NodeFile} (hf : w.handle who = some f) {fs : MemFs}
    (hfile : fs.SameFile path id) (hnode : g.node = f.node) (hrest : g.closed = true → g.dirty = false)
    (hkeep : ∀ x ∈ w.written, Holds f.data x.offset x.data → Holds g.data x.offset x.data) :
    ({ fs, handle := Function.update w.handle who (some g), written := w.written } : SharedFile).Inv path id := by
  refine ⟨hfile, fun who' f' hf' => ?_, fun x hx => ?_⟩
  · change Function.update w.handle who (some g) who' = some f' at hf'
    by_cases hwho : who' = who
    · subst hwho
      rw [Function.update_self, Option.some.injEq] at hf'
      subst hf'
      exact ⟨hnode.trans (h.on_file _ f hf).1, hrest⟩
    · rw [Function.update_of_ne hwho] at hf'
      exact h.on_file _ f' hf'
  · obtain ⟨f', hf', hholds⟩ := h.logged x hx
    by_cases hwho : x.who = who
    · rw [hwho, hf, Option.some.injEq] at hf'
      subst hf'
      exact ⟨g, by rw [hwho]; exact Function.update_self .., hkeep x hx hholds⟩
    · exact ⟨f', by rw [← hf']; exact Function.update_of_ne hwho .., hholds⟩

theorem pending_update {fs : MemFs} {log : List Written} (who who' : Side) (g : NodeFile) :
    ({ fs, handle := Function.update w.handle who (some g), written := log } : SharedFile).pending who' =
      if who' = who then g.dirty else w.pending who' := by
  unfold pending
  split
  · rename_i hwho
    rw [hwho]
    show ((Function.update w.handle who (some g) who).map (·.dirty)).getD false = _
    rw [Function.update_self]
    rfl
  · rename_i hwho
    show ((Function.update w.handle who (some g) who').map (·.dirty)).getD false = _
    rw [Function.update_of_ne hwho]

/-- Putting back a copy keeps the invariant, and loses nothing exactly when the copy holds
what the other handle has put back. -/
theorem Inv.store (h : w.Inv path id) (hkept : w.NothingLost id) {p : Prog (NodeFile × MemFs) Error Unit} (hp : Stores p)
    (who : Side) :
    (w.onHandle who p fun _ => []).Inv path id ∧ ((w.onHandle who p fun _ => []).NothingLost id ↔ w.StoreKeeps who) := by
  unfold onHandle
  cases hf : w.handle who with
  | none =>
    refine ⟨h, iff_of_true hkept fun f hsome => ?_⟩
    rw [hf] at hsome
    cases hsome
  | some f =>
    obtain ⟨hnode, hrest⟩ := h.on_file who f hf
    obtain ⟨hfs, hn, hd, hc⟩ := hp f w.fs hrest
    have hfile : (p (f, w.fs)).2.2.SameFile path id := by
      rw [hfs, hnode]
      split
      · exact (h.file.setData f.data).1
      · exact h.file
    refine ⟨h.replace hf hfile hn (fun _ => hc) fun x _ hx => by rw [hd]; exact hx, ?_⟩
    unfold NothingLost StoreKeeps
    simp only [List.nil_append, pending_update, hc, hf, Option.some.injEq, forall_eq']
    rw [hfs, hnode]
    by_cases hdirty : f.dirty = true
    · rw [if_pos hdirty, (h.file.setData f.data).2]
      constructor
      · intro hall _ x hx hwho hpend
        rcases hall x hx with hp | hholds
        · rw [if_neg hwho, hpend] at hp
          cases hp
        · exact hholds
      · intro hall x hx
        by_cases hwho : x.who = who
        · obtain ⟨f', hf', hholds⟩ := h.logged x hx
          rw [hwho, hf, Option.some.injEq] at hf'
          subst hf'
          exact Or.inr hholds
        · rw [if_neg hwho]
          cases hpend : w.pending x.who with
          | true => exact Or.inl rfl
          | false => exact Or.inr (hall hdirty x hx hwho hpend)
    · rw [if_neg hdirty]
      refine iff_of_true (fun x hx => ?_) fun hyes => absurd hyes hdirty
      rcases hkept x hx with hpend | hholds
      · by_cases hwho : x.who = who
        · rw [hwho, pending_eq hf] at hpend
          exact absurd hpend hdirty
        · rw [if_neg hwho]
          exact Or.inl hpend
      · exact Or.inr hholds

theorem Inv.log (h : w.Inv path id) {x : Written} {f : NodeFile} (hf : w.handle x.who = some f) (hholds : Holds f.data x.offset x.data) :
    ({ w with written := x :: w.written } : SharedFile).Inv path id := by
  refine ⟨h.file, h.on_file, fun y hy => ?_⟩
  rcases List.mem_cons.mp hy with rfl | hy
  · exact ⟨f, hf, hholds⟩
  · exact h.logged y hy

/-- A write to a separate range loses nothing. -/
theorem Inv.write (h : w.Inv path id) (hkept : w.NothingLost id) (who : Side) (data : Bytes) (offset : UInt64)
    (hgiven : w.Given (.writeAt who data offset)) :
    (w.step path (.writeAt who data offset)).Inv path id ∧ (w.step path (.writeAt who data offset)).NothingLost id := by
  unfold step onHandle
  dsimp only
  cases hf : w.handle who with
  | none => exact ⟨h, hkept⟩
  | some f =>
    dsimp only
    obtain ⟨hnode, hclosed, hnodes, hheap, hcases⟩ := NodeFile.writeAt_cases data offset f w.fs
    generalize NodeFile.writeAt data offset (f, w.fs) = r at *
    have hfile : r.2.2.SameFile path id := ⟨by rw [hnodes]; exact h.file.node, by rw [hheap]; exact h.file.leaf, by rw [hheap]; exact h.file.plain⟩
    have hother : ∀ log, ∀ x ∈ w.written, x.who ≠ who →
        ({ fs := r.2.2, handle := Function.update w.handle who (some r.2.1), written := log } : SharedFile).pending x.who = true ∨
          Holds (r.2.2.heap id).data x.offset x.data := by
      intro log x hx hwho
      rw [pending_update, if_neg hwho, hheap]
      exact hkept x hx
    rcases hcases with ⟨hok, hopen, hdirty, grown, hpre, hle, hdata⟩ | ⟨hfail, hdirty, hpre⟩
    · rw [hok, if_pos rfl]
      have hkeep : ∀ x ∈ w.written, Holds f.data x.offset x.data → Holds r.2.1.data x.offset x.data := by
        intro x hx hholds
        rw [hdata]
        exact (hholds.of_prefix hpre).overwrite hle (hgiven x hx)
      have hnew : Holds r.2.1.data offset.toNat data := by
        rw [hdata]
        exact holds_overwrite hle
      have hrest : r.2.1.closed = true → r.2.1.dirty = false := by
        rw [hclosed, hopen]
        nofun
      refine ⟨(h.replace hf hfile hnode hrest hkeep).log (x := { who, offset := offset.toNat, data }) (Function.update_self ..) hnew, ?_⟩
      intro x hx
      by_cases hwho : x.who = who
      · left
        rw [pending_update, if_pos hwho, hdirty]
      · rcases List.mem_cons.mp hx with rfl | hx
        · exact absurd rfl hwho
        · exact hother _ x hx hwho
    · rw [hfail, if_neg Bool.false_ne_true]
      have hrest : r.2.1.closed = true → r.2.1.dirty = false := by
        rw [hclosed, hdirty]
        exact (h.on_file who f hf).2
      refine ⟨h.replace hf hfile hnode hrest fun x _ hholds => hholds.of_prefix hpre, fun x hx => ?_⟩
      by_cases hwho : x.who = who
      · rw [pending_update, if_pos hwho, hdirty, hheap, ← pending_eq hf, ← hwho]
        exact hkept x hx
      · exact hother _ x hx hwho

theorem Inv.open_ (hpath : validPath path = true) (h : w.Inv path id) (hkept : w.NothingLost id) (who : Side) (ctx : FsContext) :
    (w.step path (.open_ who ctx)).Inv path id ∧ (w.step path (.open_ who ctx)).NothingLost id := by
  unfold step
  dsimp only
  cases hf : w.handle who with
  | some f => exact ⟨h, hkept⟩
  | none =>
    dsimp only
    obtain ⟨⟨g, hopen, hnode, hclean⟩, hfile, hdata⟩ := h.file.open_ hpath ctx
    rw [hopen]
    have hwho : ∀ x ∈ w.written, x.who ≠ who := by
      intro x hx he
      obtain ⟨f', hf', -⟩ := h.logged x hx
      rw [he, hf] at hf'
      cases hf'
    refine ⟨⟨hfile, fun who' f' hf' => ?_, fun x hx => ?_⟩, fun x hx => ?_⟩
    · change Function.update w.handle who (some g) who' = some f' at hf'
      by_cases hsame : who' = who
      · subst hsame
        rw [Function.update_self, Option.some.injEq] at hf'
        subst hf'
        exact ⟨hnode, fun _ => hclean⟩
      · rw [Function.update_of_ne hsame] at hf'
        exact h.on_file _ f' hf'
    · obtain ⟨f', hf', hholds⟩ := h.logged x hx
      exact ⟨f', by rw [← hf']; exact Function.update_of_ne (hwho x hx) .., hholds⟩
    · change SharedFile.pending { w with fs := _, handle := Function.update w.handle who (some g) } x.who = true ∨ _
      rw [pending_update, if_neg (hwho x hx), hdata]
      exact hkept x hx

/-- One call keeps the invariant, and loses nothing exactly when it puts back no copy that misses what the other handle put back. -/
theorem Inv.step (hpath : validPath path = true) (h : w.Inv path id) (hkept : w.NothingLost id) (op : SharedOp) (hgiven : w.Given op) :
    (w.step path op).Inv path id ∧ ((w.step path op).NothingLost id ↔ w.StepKeeps op) := by
  cases op with
  | open_ who ctx =>
    obtain ⟨hinv, hnext⟩ := h.open_ hpath hkept who ctx
    exact ⟨hinv, iff_of_true hnext trivial⟩
  | writeAt who data offset =>
    obtain ⟨hinv, hnext⟩ := h.write hkept who data offset hgiven
    exact ⟨hinv, iff_of_true hnext trivial⟩
  | sync who => exact h.store hkept stores_sync who
  | close who => exact h.store hkept stores_close who
  | truncate size =>
    have hnone : w.written = [] := hgiven
    refine ⟨⟨h.file.truncate hpath size, h.on_file, h.logged⟩, iff_of_true (fun x hx => ?_) trivial⟩
    change x ∈ w.written at hx
    rw [hnone] at hx
    cases hx

/-- In every run the writes survive exactly as long as no stale copy is put back. -/
theorem Inv.run (hpath : validPath path = true) (h : w.Inv path id) (hkept : w.NothingLost id) (ops : List SharedOp)
    (hgiven : StepsMeet (SharedFile.step path) Given w ops) :
    ((∀ k, (Base.run (SharedFile.step path) w (ops.take k)).NothingLost id) ↔ StepsMeet (SharedFile.step path) StepKeeps w ops) ∧
      (StepsMeet (SharedFile.step path) StepKeeps w ops → (Base.run (SharedFile.step path) w ops).Inv path id) := by
  induction ops generalizing w with
  | nil => exact ⟨iff_of_true (fun k => by rw [List.take_nil]; exact hkept) trivial, fun _ => h⟩
  | cons op ops ih =>
    obtain ⟨hinv, hiff⟩ := h.step hpath hkept op hgiven.1
    refine ⟨⟨fun hall => ?_, fun hok k => ?_⟩, fun hok => ?_⟩
    · have hnext := hall 1
      exact ⟨hiff.mp hnext, (ih hinv hnext hgiven.2).1.mp fun k => hall (k + 1)⟩
    · cases k with
      | zero => exact hkept
      | succ k => exact (ih hinv (hiff.mpr hok.1) hgiven.2).1.mpr hok.2 k
    · exact (ih hinv (hiff.mpr hok.1) hgiven.2).2 hok.2

theorem Inv.init {fs : MemFs} (h : fs.SameFile path id) : (SharedFile.init fs).Inv path id := by
  refine ⟨h, fun who f hnone => ?_, fun x hx => ?_⟩
  · cases hnone
  · cases hx

/-- A run loses no write exactly when no copy is put back that misses what the other handle has put back; then the file
holds every write when both handles are closed. -/
theorem run_keeps_writes (fs : MemFs) (path : String) (id : NodeId) (ops : List SharedOp) (hpath : validPath path = true)
    (hfile : fs.SameFile path id) (hgiven : StepsMeet (SharedFile.step path) Given (SharedFile.init fs) ops) :
    ((∀ k, (Base.run (SharedFile.step path) (SharedFile.init fs) (ops.take k)).NothingLost id) ↔
      StepsMeet (SharedFile.step path) StepKeeps (SharedFile.init fs) ops) ∧
    (StepsMeet (SharedFile.step path) StepKeeps (SharedFile.init fs) ops →
      (∀ who, (Base.run (SharedFile.step path) (SharedFile.init fs) ops).closed who = true) →
      ∀ x ∈ (Base.run (SharedFile.step path) (SharedFile.init fs) ops).written,
        Holds ((Base.run (SharedFile.step path) (SharedFile.init fs) ops).fs.heap id).data x.offset x.data) := by
  have hnone : (SharedFile.init fs).NothingLost id := fun x hx => by cases hx
  obtain ⟨hiff, hinv⟩ := (Inv.init hfile).run hpath hnone ops hgiven
  refine ⟨hiff, fun hok hclosed x hx => ?_⟩
  have hkept := hiff.mpr hok ops.length
  rw [List.take_length] at hkept
  obtain ⟨f, hf, -⟩ := (hinv hok).logged x hx
  have hrest : f.dirty = false := by
    refine ((hinv hok).on_file x.who f hf).2 ?_
    have hc := hclosed x.who
    rw [closed, hf] at hc
    exact hc
  refine (hkept x hx).resolve_left ?_
  rw [pending_eq hf, hrest]
  exact Bool.false_ne_true

/-- A file system with one empty file. -/
def oneFile : MemFs := (Base.run MemWorld.step (MemWorld.init fun _ => 0) [.create "f"]).fs

theorem oneFile_sameFile : oneFile.SameFile "f" 1 := by
  refine ⟨?_, ?_, ?_⟩
  · decide +kernel
  · decide +kernel
  · decide +kernel

/-- The second handle is opened when the first one has put its write back. -/
def oneByOne : List SharedOp :=
  [.truncate 1, .open_ .left FsContext.new, .writeAt .left [1] 0, .close .left,
    .open_ .right FsContext.new, .writeAt .right [2] 1, .sync .right, .close .right]

theorem run_keeps_writes_oneByOne :
    (∀ k, (Base.run (SharedFile.step "f") (SharedFile.init oneFile) (oneByOne.take k)).NothingLost 1) ∧
    ∀ x ∈ (Base.run (SharedFile.step "f") (SharedFile.init oneFile) oneByOne).written,
      Holds ((Base.run (SharedFile.step "f") (SharedFile.init oneFile) oneByOne).fs.heap 1).data x.offset x.data := by
  have hgiven : StepsMeet (SharedFile.step "f") Given (SharedFile.init oneFile) oneByOne := by
    decide +kernel
  have hkeeps : StepsMeet (SharedFile.step "f") StepKeeps (SharedFile.init oneFile) oneByOne := by
    decide +kernel
  have hclosed : ∀ who, (Base.run (SharedFile.step "f") (SharedFile.init oneFile) oneByOne).closed who = true := by
    intro who
    cases who with
    | left => decide +kernel
    | right => decide +kernel
  obtain ⟨hiff, hkept⟩ := run_keeps_writes oneFile "f" 1 oneByOne (by decide) oneFile_sameFile hgiven
  exact ⟨hiff.mpr hkeeps, hkept hkeeps hclosed⟩

/-- Both handles are open at once, and the second close puts back a copy without the first write. -/
def atOnce : List SharedOp :=
  [.open_ .left FsContext.new, .open_ .right FsContext.new, .writeAt .left [1] 0, .writeAt .right [2] 1, .close .left, .close .right]

theorem run_not_keeps_writes :
    ¬ ∀ (fs : MemFs) (path : String) (id : NodeId) (ops : List SharedOp), validPath path = true → fs.SameFile path id →
      StepsMeet (SharedFile.step path) Given (SharedFile.init fs) ops →
      (∀ who, (Base.run (SharedFile.step path) (SharedFile.init fs) ops).closed who = true) →
      ∀ x ∈ (Base.run (SharedFile.step path) (SharedFile.init fs) ops).written,
        Holds ((Base.run (SharedFile.step path) (SharedFile.init fs) ops).fs.heap id).data x.offset x.data := by
  intro hall
  have hclosed : ∀ who, (Base.run (SharedFile.step "f") (SharedFile.init oneFile) atOnce).closed who = true := by
    intro who
    cases who with
    | left => decide +kernel
    | right => decide +kernel
  have hgiven : StepsMeet (SharedFile.step "f") Given (SharedFile.init oneFile) atOnce := by
    decide +kernel
  have hkept := hall oneFile "f" 1 atOnce (by decide) oneFile_sameFile hgiven hclosed
  revert hkept
  decide +kernel

end SharedFile
end Star9
