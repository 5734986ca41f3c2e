import Star9.Base.Map
import Star9.Core.PathOrder
import Star9.Fs.MemState

/-!
# The tree invariant of the in-memory file system

The path map is flat, so nothing but the checks of the operations makes it a
tree. The steps on the map are treated first: each keeps the tree under a
condition on the state before it.
-/
namespace Star9
open Base

namespace MemFs
variable {fs : MemFs}

/-- The root is a directory, and so is the parent of every other path. -/
def TreeWellFormed (fs : MemFs) : Prop :=
  fs.isDirNode "." = true ∧ ∀ p, p ∈ fs.nodes → p ≠ "." → fs.isDirNode (parentPath p) = true

/-- Keys are valid paths and name allocated nodes. -/
structure Allocated (fs : MemFs) : Prop where
  valid : ∀ {p : String} {i : NodeId}, fs.nodes[p]? = some i → validPath p = true
  lt_next : ∀ {p : String} {i : NodeId}, fs.nodes[p]? = some i → i < fs.next

def someBelow (fs : MemFs) (p : String) : Bool := fs.nodes.keys.any (below p)

theorem someBelow_iff {p : String} : fs.someBelow p = true ↔ ∃ q, q ∈ fs.nodes ∧ below p q = true := by
  simp [someBelow, Std.ExtTreeMap.mem_keys]

theorem mem_nodes_iff {p : String} : p ∈ fs.nodes ↔ ∃ i, fs.nodes[p]? = some i := by
  rw [← Std.ExtTreeMap.isSome_getElem?_iff_mem, Option.isSome_iff_exists]

theorem mem_of_isDirNode {p : String} (h : fs.isDirNode p = true) : p ∈ fs.nodes := by
  obtain ⟨i, hi, -⟩ := isDirNode_iff.mp h
  exact mem_nodes_iff.mpr ⟨i, hi⟩

theorem Allocated.of_shape {fs' : MemFs} (ha : fs.Allocated) (h : fs'.shape = fs.shape) : fs'.Allocated := by
  have hn : fs'.nodes = fs.nodes := congrArg Shape.nodes h
  have hx : fs'.next = fs.next := congrArg Shape.next h
  refine ⟨fun {p i} hp => ?_, fun {p i} hp => ?_⟩
  · rw [hn] at hp
    exact ha.valid hp
  · rw [hn] at hp
    rw [hx]
    exact ha.lt_next hp

theorem isDirNode_of_coreAt {fs' : MemFs} {p : String} (h : fs'.coreAt p = fs.coreAt p) :
    fs'.isDirNode p = fs.isDirNode p := by
  simp only [isDirNode, h]

theorem TreeWellFormed.of_shape {fs' : MemFs} (ht : fs.TreeWellFormed) (h : fs'.shape = fs.shape) :
    fs'.TreeWellFormed := by
  have hn : fs'.nodes = fs.nodes := congrArg Shape.nodes h
  have hd : ∀ p, fs'.isDirNode p = fs.isDirNode p := fun p => isDirNode_of_coreAt (coreAt_of_shape h p)
  refine ⟨by rw [hd]; exact ht.1, fun p hp hdot => ?_⟩
  rw [hn] at hp
  rw [hd]
  exact ht.2 p hp hdot

/-- Every ancestor of a key is a directory. -/
theorem TreeWellFormed.isDirNode_of_below (ht : fs.TreeWellFormed) (ha : fs.Allocated) {p q : String}
    (hq : q ∈ fs.nodes) (h : below p q = true) : fs.isDirNode p = true := by
  induction hn : (components q).length using Nat.strong_induction_on generalizing q with
  | _ n ih =>
    obtain ⟨i, hi⟩ := mem_nodes_iff.mp hq
    have hdot : q ≠ "." := below_ne_dot h
    have hpar := ht.2 q hq hdot
    rcases (below_iff_parent (ha.valid hi) hdot).mp h with rfl | hb
    · exact hpar
    · refine ih _ ?_ (mem_of_isDirNode hpar) hb rfl
      rw [← hn, components_parent_base (ha.valid hi) hdot]
      simp

theorem TreeWellFormed.not_below (ht : fs.TreeWellFormed) (ha : fs.Allocated) {p : String}
    (h : fs.isDirNode p = false) : fs.someBelow p = false := by
  by_contra hb
  obtain ⟨q, hq, hpq⟩ := someBelow_iff.mp (by simpa using hb)
  rw [ht.isDirNode_of_below ha hq hpq] at h
  cases h

/-- Every key has its parent among the keys, the root apart. A flat map may be so without being a tree. -/
def ParentClosed (fs : MemFs) : Prop := ∀ p, p ∈ fs.nodes → parentPath p ≠ "." → parentPath p ∈ fs.nodes

theorem TreeWellFormed.parentClosed (ht : fs.TreeWellFormed) : fs.ParentClosed := by
  intro p hp hpar
  refine mem_of_isDirNode (ht.2 p hp fun hdot => hpar ?_)
  rw [hdot]
  rfl

theorem ParentClosed.mem_of_below (hc : fs.ParentClosed) (ha : fs.Allocated) {p q : String} (hq : q ∈ fs.nodes)
    (hdot : p ≠ ".") (h : below p q = true) : p ∈ fs.nodes := by
  induction hn : (components q).length using Nat.strong_induction_on generalizing q with
  | _ n ih =>
    obtain ⟨i, hi⟩ := mem_nodes_iff.mp hq
    have hqdot : q ≠ "." := below_ne_dot h
    rcases (below_iff_parent (ha.valid hi) hqdot).mp h with rfl | hb
    · exact hc q hq hdot
    · refine ih _ ?_ (hc q hq (below_ne_dot hb)) hb rfl
      rw [← hn, components_parent_base (ha.valid hi) hqdot]
      simp

/-! ## Inserting and erasing one key -/

theorem insertNew_get (p : String) (n : NodeInner) (q : String) :
    (fs.insertNew p n).nodes[q]? = if p = q then some fs.next else fs.nodes[q]? := by
  simp [insertNew, Std.ExtTreeMap.getElem?_insert]

theorem insertNode_get (p : String) (id : NodeId) (q : String) :
    (fs.insertNode p id).nodes[q]? = if p = q then some id else fs.nodes[q]? := by
  simp [insertNode, Std.ExtTreeMap.getElem?_insert]

theorem eraseNode_get (p q : String) :
    (fs.eraseNode p).nodes[q]? = if p = q then none else fs.nodes[q]? := by
  simp [eraseNode, Std.ExtTreeMap.getElem?_erase]

theorem isDirNode_insertNew (ha : fs.Allocated) (p : String) (n : NodeInner) (q : String) :
    (fs.insertNew p n).isDirNode q = if q = p then n.metadata.isDir else fs.isDirNode q := by
  unfold isDirNode coreAt
  rw [insertNew_get]
  by_cases hpq : p = q
  · subst hpq
    simp [insertNew, NodeInner.isDir_core]
  · rw [if_neg hpq, if_neg (Ne.symm hpq)]
    cases hq : fs.nodes[q]? with
    | none => rfl
    | some i =>
      have hi : i ≠ fs.next := (ha.lt_next hq).ne
      simp [insertNew, Function.update_of_ne hi]

theorem mem_insertNew {p q : String} {n : NodeInner} :
    q ∈ (fs.insertNew p n).nodes ↔ p = q ∨ q ∈ fs.nodes := by
  rw [mem_nodes_iff, insertNew_get, mem_nodes_iff]
  by_cases hpq : p = q <;> simp [hpq]

theorem Allocated.insertNew (ha : fs.Allocated) {p : String} (hp : validPath p = true) (n : NodeInner) :
    (fs.insertNew p n).Allocated := by
  have hnext : (fs.insertNew p n).next = fs.next + 1 := rfl
  refine ⟨fun {q i} hq => ?_, fun {q i} hq => ?_⟩
  · rw [insertNew_get] at hq
    split at hq
    · rename_i h
      exact h ▸ hp
    · exact ha.valid hq
  · rw [insertNew_get] at hq
    rw [hnext]
    split at hq
    · rw [Option.some.injEq] at hq
      exact hq ▸ Nat.lt_succ_self fs.next
    · exact Nat.lt_succ_of_lt (ha.lt_next hq)

/-- A new key keeps the tree when its parent is a directory and it either is a
directory itself or has nothing below it. -/
theorem TreeWellFormed.insertNew (ht : fs.TreeWellFormed) (ha : fs.Allocated) {p : String} {n : NodeInner}
    (hp : validPath p = true) (hdot : p ≠ ".") (hpar : fs.isDirNode (parentPath p) = true)
    (hn : n.metadata.isDir = true ∨ fs.someBelow p = false) : (fs.insertNew p n).TreeWellFormed := by
  refine ⟨?_, fun q hq hqdot => ?_⟩
  · rw [isDirNode_insertNew ha, if_neg (Ne.symm hdot)]
    exact ht.1
  · rw [isDirNode_insertNew ha]
    rcases mem_insertNew.mp hq with rfl | hq
    · rw [if_neg (parentPath_ne_self hp hdot)]
      exact hpar
    · split
      · rename_i hqp
        rcases hn with hn | hn
        · exact hn
        · obtain ⟨i, hi⟩ := mem_nodes_iff.mp hq
          have hb := someBelow_iff.mpr ⟨q, hq, hqp ▸ below_parentPath (ha.valid hi) hqdot⟩
          rw [hb] at hn
          cases hn
      · exact ht.2 q hq hqdot

theorem isDirNode_congr {fs' : MemFs} (hheap : fs'.heap = fs.heap) {p q : String}
    (h : fs'.nodes[p]? = fs.nodes[q]?) : fs'.isDirNode p = fs.isDirNode q := by
  simp only [isDirNode, coreAt, h, hheap]

theorem TreeWellFormed.eraseNode (ht : fs.TreeWellFormed) (ha : fs.Allocated) {p : String}
    (hdot : p ≠ ".") (hn : fs.someBelow p = false) : (fs.eraseNode p).TreeWellFormed := by
  have hget : ∀ q, q ≠ p → (fs.eraseNode p).isDirNode q = fs.isDirNode q := by
    intro q hq
    have hheap : (fs.eraseNode p).heap = fs.heap := rfl
    refine isDirNode_congr hheap ?_
    rw [eraseNode_get, if_neg (Ne.symm hq)]
  refine ⟨by rw [hget _ (Ne.symm hdot)]; exact ht.1, fun q hq hqdot => ?_⟩
  have hq' : q ≠ p ∧ q ∈ fs.nodes := by
    rw [mem_nodes_iff, eraseNode_get] at hq
    rw [mem_nodes_iff]
    by_cases hpq : p = q
    · simp [hpq] at hq
    · exact ⟨Ne.symm hpq, by simpa [hpq] using hq⟩
  obtain ⟨i, hi⟩ := mem_nodes_iff.mp hq'.2
  rw [hget]
  · exact ht.2 q hq'.2 hqdot
  · intro hpar
    have hb := someBelow_iff.mpr ⟨q, hq'.2, hpar ▸ below_parentPath (ha.valid hi) hqdot⟩
    rw [hb] at hn
    cases hn

theorem Allocated.of_nodes {fs' : MemFs} (ha : fs.Allocated) (hnext : fs'.next = fs.next)
    (h : ∀ (q : String) (i : NodeId), fs'.nodes[q]? = some i →
      validPath q = true ∧ ∃ r : String, fs.nodes[r]? = some i) :
    fs'.Allocated := by
  refine ⟨fun {q i} hq => (h q i hq).1, fun {q i} hq => ?_⟩
  obtain ⟨r, hr⟩ := (h q i hq).2
  rw [hnext]
  exact ha.lt_next hr

theorem TreeWellFormed.insertNode (ht : fs.TreeWellFormed) (ha : fs.Allocated) {p : String} {id : NodeId}
    (hp : validPath p = true) (hdot : p ≠ ".") (hpar : fs.isDirNode (parentPath p) = true)
    (hn : fs.someBelow p = false) : (fs.insertNode p id).TreeWellFormed := by
  have hget : ∀ q, q ≠ p → (fs.insertNode p id).isDirNode q = fs.isDirNode q := by
    intro q hq
    have hheap : (fs.insertNode p id).heap = fs.heap := rfl
    refine isDirNode_congr hheap ?_
    rw [insertNode_get, if_neg (Ne.symm hq)]
  refine ⟨by rw [hget _ (Ne.symm hdot)]; exact ht.1, fun q hq hqdot => ?_⟩
  by_cases hqp : q = p
  · subst hqp
    rw [hget _ (parentPath_ne_self hp hdot)]
    exact hpar
  · have hq' : q ∈ fs.nodes := by
      rw [mem_nodes_iff, insertNode_get, if_neg (Ne.symm hqp)] at hq
      exact mem_nodes_iff.mpr hq
    obtain ⟨i, hi⟩ := mem_nodes_iff.mp hq'
    rw [hget]
    · exact ht.2 q hq' hqdot
    · intro hpar'
      have hb := someBelow_iff.mpr ⟨q, hq', hpar' ▸ below_parentPath (ha.valid hi) hqdot⟩
      rw [hb] at hn
      cases hn

theorem someBelow_eraseNode {p r : String} (h : fs.someBelow r = false) :
    (fs.eraseNode p).someBelow r = false := by
  rw [Bool.eq_false_iff] at h ⊢
  intro hb
  obtain ⟨q, hq, hrq⟩ := someBelow_iff.mp hb
  rw [mem_nodes_iff, eraseNode_get] at hq
  refine h (someBelow_iff.mpr ⟨q, mem_nodes_iff.mpr ?_, hrq⟩)
  split at hq
  · simp at hq
  · exact hq

theorem Allocated.eraseNode (ha : fs.Allocated) (p : String) : (fs.eraseNode p).Allocated := by
  refine ha.of_nodes rfl fun q i hq => ?_
  rw [eraseNode_get] at hq
  split at hq
  · cases hq
  · exact ⟨ha.valid hq, q, hq⟩

theorem Allocated.insertNode (ha : fs.Allocated) {p r : String} {id : NodeId} (hp : validPath p = true)
    (hr : fs.nodes[r]? = some id) : (fs.insertNode p id).Allocated := by
  refine ha.of_nodes rfl fun q i hq => ?_
  rw [insertNode_get] at hq
  split at hq
  · rename_i hpq
    cases hq
    exact ⟨hpq ▸ hp, r, hr⟩
  · exact ⟨ha.valid hq, q, hq⟩

theorem moveNode_get {old new : String} (id : NodeId) (q : String) :
    (fs.moveNode old new id).nodes[q]? =
      if new = q then some id else if old = q then none else fs.nodes[q]? := by
  rw [moveNode, insertNode_get, eraseNode_get, eraseNode_get]
  by_cases h : new = q <;> simp [h]

theorem Allocated.moveNode (ha : fs.Allocated) {old new : String} {id : NodeId}
    (hnew : validPath new = true) (hid : fs.nodes[old]? = some id) :
    (fs.moveNode old new id).Allocated := by
  refine ha.of_nodes rfl fun q i hq => ?_
  rw [moveNode_get] at hq
  split at hq
  · rename_i hpq
    cases hq
    exact ⟨hpq ▸ hnew, old, hid⟩
  · split at hq
    · cases hq
    · exact ⟨ha.valid hq, q, hq⟩

/-- Moving a file or a symlink to a free place whose parent is a directory. -/
theorem TreeWellFormed.moveNode (ht : fs.TreeWellFormed) (ha : fs.Allocated) {old new : String} {id : NodeId}
    (hvnew : validPath new = true) (hold : old ≠ ".") (hnew : new ≠ ".")
    (hfile : fs.isDirNode old = false) (hfree : fs.someBelow new = false)
    (hpar : fs.isDirNode (parentPath new) = true) : (fs.moveNode old new id).TreeWellFormed := by
  have hne : parentPath new ≠ old := fun h => by
    rw [h, hfile] at hpar
    cases hpar
  have h₁ := ht.eraseNode ha hnew hfree
  have ha₁ := ha.eraseNode new
  have h₂ := h₁.eraseNode ha₁ hold (someBelow_eraseNode (ht.not_below ha hfile))
  refine h₂.insertNode (ha₁.eraseNode old) hvnew hnew ?_ (someBelow_eraseNode (someBelow_eraseNode hfree))
  rw [← hpar]
  have hheap : ((fs.eraseNode new).eraseNode old).heap = fs.heap := rfl
  refine isDirNode_congr hheap ?_
  rw [eraseNode_get, if_neg (Ne.symm hne), eraseNode_get,
    if_neg (Ne.symm (parentPath_ne_self hvnew hnew))]

/-! ## Moving a subtree -/

theorem mem_toMove (ha : fs.Allocated) {old new : String} (hold : old ≠ ".") (hnew : new ≠ ".")
    {m : String × String × NodeId} :
    m ∈ fs.toMove old new ↔
      fs.nodes[m.1]? = some m.2.2 ∧ within old m.1 = true ∧ m.2.1 = rebase old new m.1 := by
  obtain ⟨q, q', i⟩ := m
  have hmoved : ∀ {q i}, fs.nodes[q]? = some i →
      (q == old || (stripPrefix (old ++ "/") q).isSome) = within old q := by
    intro q i hq
    rw [Bool.eq_iff_iff, within_iff_below, Bool.or_eq_true, beq_iff_eq,
      stripPrefix_slash_isSome hold (ha.valid hq)]
  simp only [toMove, List.mem_map, List.mem_filter, Prod.exists, Prod.mk.injEq,
    Std.ExtTreeMap.mem_toList_iff_getElem?_eq_some]
  constructor
  · rintro ⟨q, i, ⟨hq, hw⟩, rfl, rfl, rfl⟩
    rw [hmoved hq] at hw
    exact ⟨hq, hw, append_stripPrefix_eq_rebase hold hnew (ha.valid hq) hw⟩
  · rintro ⟨hq, hw, rfl⟩
    refine ⟨q, i, ⟨hq, ?_⟩, rfl, append_stripPrefix_eq_rebase hold hnew (ha.valid hq) hw, rfl⟩
    rw [hmoved hq]
    exact hw

theorem moveTree_nodes (old new : String) :
    (fs.moveTree old new).nodes =
      ((fs.toMove old new).map fun m => (m.2.1, m.2.2)).foldl (fun nodes kv => nodes.insert kv.1 kv.2)
        (((fs.toMove old new).map (·.1)).foldl (fun nodes k => nodes.erase k) fs.nodes) := by
  have herase : ∀ (l : List (String × String × NodeId)) (fs : MemFs),
      (l.foldl (fun fs m => fs.eraseNode m.1) fs).nodes =
        (l.map (·.1)).foldl (fun nodes k => nodes.erase k) fs.nodes := by
    intro l
    induction l with
    | nil => exact fun _ => rfl
    | cons m l ih => exact fun fs => ih _
  have hinsert : ∀ (l : List (String × String × NodeId)) (fs : MemFs),
      (l.foldl (fun fs m => fs.insertNode m.2.1 m.2.2) fs).nodes =
        (l.map fun m => (m.2.1, m.2.2)).foldl (fun nodes kv => nodes.insert kv.1 kv.2) fs.nodes := by
    intro l
    induction l with
    | nil => exact fun _ => rfl
    | cons m l ih => exact fun fs => ih _
  rw [moveTree, hinsert, herase]

/-- A move changes nothing but the keys. -/
theorem moveTree_eq (old new : String) :
    fs.moveTree old new = { fs with nodes := (fs.moveTree old new).nodes } := by
  have hfold : ∀ {β : Type} (f : MemFs → β → MemFs) (l : List β) (fs : MemFs),
      (∀ fs b, f fs b = { fs with nodes := (f fs b).nodes }) →
      l.foldl f fs = { fs with nodes := (l.foldl f fs).nodes } := by
    intro β f l
    induction l with
    | nil => exact fun _ _ => rfl
    | cons b l ih =>
      intro fs h
      rw [List.foldl_cons, ih (f fs b) h, h fs b]
  have herase := hfold (fun fs m => eraseNode m.1 fs) (fs.toMove old new) fs fun _ _ => rfl
  have hinsert := hfold (fun fs m => insertNode m.2.1 m.2.2 fs) (fs.toMove old new)
    ((fs.toMove old new).foldl (fun fs m => fs.eraseNode m.1) fs) fun _ _ => rfl
  unfold moveTree
  dsimp only at hinsert herase ⊢
  rw [hinsert, herase]

theorem moveTree_frame (old new : String) :
    (fs.moveTree old new).heap = fs.heap ∧ (fs.moveTree old new).next = fs.next := by
  rw [moveTree_eq]
  exact ⟨rfl, rfl⟩

/-- A moved tree: below `new` stand the nodes from below `old`, and the rest of
the map is as before without the paths below `old`. -/
theorem moveTree_get (ha : fs.Allocated) {old new q : String} (hold : old ≠ ".") (hnew : new ≠ ".")
    (hvold : validPath old = true) (hvnew : validPath new = true) (hq : validPath q = true)
    (hdisj : within new q = true → fs.nodes[rebase new old q]? = none → fs.nodes[q]? = none) :
    (fs.moveTree old new).nodes[q]? =
      if within new q = true then fs.nodes[rebase new old q]?
      else if within old q = true then none else fs.nodes[q]? := by
  rw [moveTree_nodes]
  by_cases hmoved : within new q = true ∧ ∃ i, fs.nodes[rebase new old q]? = some i
  · obtain ⟨hw, i, hi⟩ := hmoved
    rw [if_pos hw, hi]
    have hback : rebase old new (rebase new old q) = q := rebase_rebase hvold hq hw
    refine getElem?_foldl_insert_of_mem _ _ ?_ ?_
    · refine List.mem_map.mpr ⟨(rebase new old q, q, i), ?_, rfl⟩
      exact (mem_toMove ha hold hnew).mpr ⟨hi, within_rebase hvold hq, hback.symm⟩
    · rintro ⟨q', j⟩ hmem rfl
      obtain ⟨⟨r, r', j'⟩, hr, heq⟩ := List.mem_map.mp hmem
      obtain ⟨rfl, rfl⟩ := Prod.mk.injEq _ _ _ _ ▸ heq
      obtain ⟨hrn, hrw, hrr⟩ := (mem_toMove ha hold hnew).mp hr
      dsimp only at hrn hrw hrr
      rw [hrr, rebase_rebase hvnew (ha.valid hrn) hrw, hrn] at hi
      exact Option.some.inj hi
  · rw [getElem?_foldl_insert_of_not_mem, getElem?_foldl_erase]
    · have hmem : q ∈ (fs.toMove old new).map (·.1) ↔ within old q = true ∧ ∃ i, fs.nodes[q]? = some i := by
        rw [List.mem_map]
        constructor
        · rintro ⟨⟨r, r', i⟩, hr, rfl⟩
          obtain ⟨h₁, h₂, -⟩ := (mem_toMove ha hold hnew).mp hr
          exact ⟨h₂, i, h₁⟩
        · rintro ⟨h₁, i, h₂⟩
          exact ⟨(q, rebase old new q, i), (mem_toMove ha hold hnew).mpr ⟨h₂, h₁, rfl⟩, rfl⟩
      have hrest : (if q ∈ (fs.toMove old new).map (·.1) then none else fs.nodes[q]?) =
          if within old q = true then none else fs.nodes[q]? := by
        cases hn : fs.nodes[q]? with
        | none => simp
        | some i => simp [hmem, hn]
      rw [hrest]
      by_cases hw : within new q = true
      · have hnone : fs.nodes[rebase new old q]? = none := by
          by_contra hne
          exact hmoved ⟨hw, Option.ne_none_iff_exists'.mp hne⟩
        rw [if_pos hw, hnone, hdisj hw hnone]
        simp
      · rw [if_neg hw]
    · rintro ⟨q', i⟩ hmem rfl
      obtain ⟨⟨r, r', j⟩, hr, heq⟩ := List.mem_map.mp hmem
      obtain ⟨rfl, rfl⟩ := Prod.mk.injEq _ _ _ _ ▸ heq
      obtain ⟨hrn, hrw, hrr⟩ := (mem_toMove ha hold hnew).mp hr
      dsimp only at hrn hrw hrr
      subst hrr
      exact hmoved ⟨within_rebase hvnew (ha.valid hrn), j, by
        rw [rebase_rebase hvnew (ha.valid hrn) hrw, hrn]⟩

/-- The keys after a move: the new names, and the keys that did not move. -/
theorem mem_moveTree {old new q : String} :
    q ∈ (fs.moveTree old new).nodes ↔
      (∃ m ∈ fs.toMove old new, m.2.1 = q) ∨ q ∈ fs.nodes ∧ ∀ m ∈ fs.toMove old new, m.1 ≠ q := by
  rw [moveTree_nodes, mem_map_foldl_insert, mem_map_foldl_erase]
  simp only [List.mem_map, exists_exists_and_eq_and, not_exists, not_and, ne_eq]

/-- A directory with nothing below it moves alone, and so does the root, whose name is a part of no other key. -/
theorem mem_toMove_of_alone (ha : fs.Allocated) {old new : String} {id : NodeId} (hid : fs.nodes[old]? = some id)
    (halone : old = "." ∨ fs.someBelow old = false) {m : String × String × NodeId} :
    m ∈ fs.toMove old new ↔ m = (old, new, id) := by
  have hself : (stripPrefix old old).getD "" = "" := by
    rw [stripPrefix_eq_some.mpr (String.append_empty (s := old)).symm]
    rfl
  simp only [toMove, List.mem_map, List.mem_filter, Prod.exists, Bool.or_eq_true, beq_iff_eq,
    Std.ExtTreeMap.mem_toList_iff_getElem?_eq_some]
  constructor
  · rintro ⟨q, i, ⟨hq, rfl | hsome⟩, rfl⟩
    · rw [hid] at hq
      cases hq
      rw [hself, String.append_empty]
    · rcases halone with rfl | hfree
      · rw [stripPrefix_dot_slash (ha.valid hq)] at hsome
        cases hsome
      · by_cases hdot : old = "."
        · rw [hdot, stripPrefix_dot_slash (ha.valid hq)] at hsome
          cases hsome
        · rw [stripPrefix_slash_isSome hdot (ha.valid hq)] at hsome
          rw [someBelow_iff.mpr ⟨q, mem_nodes_iff.mpr ⟨i, hq⟩, hsome⟩] at hfree
          cases hfree
  · rintro rfl
    exact ⟨old, id, ⟨hid, Or.inl rfl⟩, by rw [hself, String.append_empty]⟩

theorem moveTree_get_of_alone (ha : fs.Allocated) {old new : String} {id : NodeId} (hid : fs.nodes[old]? = some id)
    (halone : old = "." ∨ fs.someBelow old = false) (q : String) :
    (fs.moveTree old new).nodes[q]? = if new = q then some id else if old = q then none else fs.nodes[q]? := by
  have hmoved : ∀ m, m ∈ fs.toMove old new ↔ m = (old, new, id) := fun m => mem_toMove_of_alone ha hid halone
  rw [moveTree_nodes]
  by_cases hnew : new = q
  · rw [if_pos hnew]
    refine getElem?_foldl_insert_of_mem _ _ (List.mem_map.mpr ⟨_, (hmoved _).mpr rfl, by rw [hnew]⟩) fun kv hkv _ => ?_
    obtain ⟨m, hm, rfl⟩ := List.mem_map.mp hkv
    rw [(hmoved m).mp hm]
  · rw [if_neg hnew, getElem?_foldl_insert_of_not_mem, getElem?_foldl_erase]
    · have hmem : q ∈ (fs.toMove old new).map (·.1) ↔ old = q := by
        rw [List.mem_map]
        constructor
        · rintro ⟨m, hm, rfl⟩
          rw [(hmoved m).mp hm]
        · rintro rfl
          exact ⟨_, (hmoved _).mpr rfl, rfl⟩
      simp only [hmem]
    · rintro kv hkv rfl
      obtain ⟨m, hm, rfl⟩ := List.mem_map.mp hkv
      rw [(hmoved m).mp hm] at hnew
      exact hnew rfl

section Move
variable {old new : String} (ha : fs.Allocated) (hvold : validPath old = true)
  (hvnew : validPath new = true) (hold : old ≠ ".") (hnew : new ≠ ".")
include ha hvold hvnew hold hnew

/-- Nothing stands below the destination, and the source does not contain it. -/
theorem moveTree_get_of_free (hfree : fs.someBelow new = false) (hsrc : old ∈ fs.nodes)
    {q : String} (hq : validPath q = true) :
    (fs.moveTree old new).nodes[q]? =
      if within new q = true then fs.nodes[rebase new old q]?
      else if within old q = true then none else fs.nodes[q]? := by
  refine moveTree_get ha hold hnew hvold hvnew hq fun hw hnone => ?_
  rcases within_iff_below.mp hw with rfl | hb
  · rw [rebase_self] at hnone
    rw [← Std.ExtTreeMap.isSome_getElem?_iff_mem, hnone] at hsrc
    cases hsrc
  · by_contra hne
    obtain ⟨i, hi⟩ := Option.ne_none_iff_exists'.mp hne
    rw [someBelow_iff.mpr ⟨q, mem_nodes_iff.mpr ⟨i, hi⟩, hb⟩] at hfree
    cases hfree

omit hvold in
theorem Allocated.moveTree : (fs.moveTree old new).Allocated := by
  obtain ⟨-, hnext⟩ := fs.moveTree_frame old new
  refine ha.of_nodes hnext fun q i hi => ?_
  rw [moveTree_nodes] at hi
  by_cases hmem : ∃ m ∈ fs.toMove old new, m.2.1 = q
  · obtain ⟨⟨r, r', j⟩, hr, rfl⟩ := hmem
    obtain ⟨hrn, hrw, hrr⟩ := (mem_toMove ha hold hnew).mp hr
    dsimp only at hrn hrw hrr hi ⊢
    have hlisted : (r', j) ∈ (fs.toMove old new).map fun m => (m.2.1, m.2.2) :=
      List.mem_map.mpr ⟨_, hr, rfl⟩
    rw [getElem?_foldl_insert_of_mem _ _ hlisted] at hi
    · cases hi
      subst hrr
      exact ⟨rebase_valid hvnew (ha.valid hrn), r, hrn⟩
    · rintro ⟨s', k⟩ hmem heq
      obtain ⟨⟨s, s'', k'⟩, hs, hs'⟩ := List.mem_map.mp hmem
      obtain ⟨rfl, rfl⟩ := Prod.mk.injEq _ _ _ _ ▸ hs'
      obtain ⟨hsn, hsw, hss⟩ := (mem_toMove ha hold hnew).mp hs
      dsimp only at hsn hsw hss heq ⊢
      have hrs : r = s := by
        rw [← rebase_rebase hvnew (ha.valid hrn) hrw, ← hrr, ← heq, hss,
          rebase_rebase hvnew (ha.valid hsn) hsw]
      rw [← hrs, hrn] at hsn
      exact (Option.some.inj hsn).symm
  · rw [getElem?_foldl_insert_of_not_mem, getElem?_foldl_erase] at hi
    · split at hi
      · cases hi
      · exact ⟨ha.valid hi, q, hi⟩
    · rintro ⟨r, j⟩ hmem' rfl
      obtain ⟨m, hm, heq⟩ := List.mem_map.mp hmem'
      exact hmem ⟨m, hm, congrArg Prod.fst heq⟩

/-- Moving a directory to a free place whose parent is a directory outside it
keeps the tree. -/
theorem TreeWellFormed.moveTree (ht : fs.TreeWellFormed) (hsrc : old ∈ fs.nodes)
    (hout : within old new = false) (hfree : fs.someBelow new = false)
    (hpar : fs.isDirNode (parentPath new) = true) : (fs.moveTree old new).TreeWellFormed := by
  have hget : ∀ {q}, validPath q = true → (fs.moveTree old new).nodes[q]? = _ := fun hq =>
    moveTree_get_of_free ha hvold hvnew hold hnew hfree hsrc hq
  have hheap := (fs.moveTree_frame old new).1
  -- A path outside both subtrees keeps its kind.
  have hkeep : ∀ {q}, validPath q = true → within new q = false → within old q = false →
      (fs.moveTree old new).isDirNode q = fs.isDirNode q := by
    intro q hq h₁ h₂
    refine isDirNode_congr hheap ?_
    rw [hget hq, h₁, h₂]
    rfl
  have hnotRoot : ∀ {p}, p ≠ "." → within p "." = false := by
    intro p hp
    rw [Bool.eq_false_iff, Ne, within_iff_below, not_or]
    exact ⟨Ne.symm hp, fun h => below_ne_dot h rfl⟩
  refine ⟨?_, fun q hq hqdot => ?_⟩
  · rw [hkeep (by decide) (hnotRoot hnew) (hnotRoot hold)]
    exact ht.1
  · obtain ⟨i, hi⟩ := mem_nodes_iff.mp hq
    have hvq := (Allocated.moveTree ha hvnew hold hnew).valid hi
    rw [hget hvq] at hi
    split at hi
    · rename_i hw
      rcases within_iff_below.mp hw with rfl | hb
      · -- the moved directory itself
        rw [hkeep (parentPath_valid q)]
        · exact hpar
        · rw [Bool.eq_false_iff, Ne, within_iff_below, not_or]
          exact ⟨parentPath_ne_self hvq hqdot, fun h => by
            rw [below_asymm (below_parentPath hvq hqdot)] at h
            cases h⟩
        · rw [Bool.eq_false_iff, Ne, within_iff_below]
          rintro (h | h)
          · rw [within_iff_below.mpr (Or.inr (h ▸ below_parentPath hvq hqdot))] at hout
            cases hout
          · rw [within_iff_below.mpr (Or.inr (below_trans h (below_parentPath hvq hqdot)))] at hout
            cases hout
      · -- a node from below it
        have hsrcq : below old (rebase new old q) = true := below_rebase hvold hvq hb
        have hp := ht.2 _ (mem_nodes_iff.mpr ⟨i, hi⟩) (below_ne_dot hsrcq)
        rw [rebase_parentPath hvold hvq hb] at hp
        rw [← hp]
        refine isDirNode_congr hheap ?_
        rw [hget (parentPath_valid q), if_pos]
        rw [within_iff_below]
        exact (below_iff_parent hvq hqdot).mp hb
    · rename_i hw
      split at hi
      · cases hi
      · rename_i hwold
        rw [hkeep (parentPath_valid q)]
        · exact ht.2 q (mem_nodes_iff.mpr ⟨i, hi⟩) hqdot
        · rw [Bool.eq_false_iff]
          exact fun h => hw (within_iff_below.mpr
            (Or.inr ((below_iff_parent hvq hqdot).mpr (within_iff_below.mp h))))
        · rw [Bool.eq_false_iff]
          exact fun h => hwold (within_iff_below.mpr
            (Or.inr ((below_iff_parent hvq hqdot).mpr (within_iff_below.mp h))))

end Move

end MemFs
end Star9
