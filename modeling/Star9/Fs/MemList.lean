import Star9.Fs.MemOps

/-!
# Listing a directory

The entries of a directory are read off the keys: the direct children, and the
heads of the longer keys that have no node of their own. In a tree every head has
a node, so a listing names exactly the children that are not hidden.
-/
namespace Star9
open Base Prog

/-! ## Keys below a directory -/

theorem relativeTo_eq_some {p key rest : String} :
    MemFs.relativeTo p key = some rest ↔ components key = components p ++ splitSlash rest := by
  unfold MemFs.relativeTo
  by_cases hp : p = "."
  · subst hp
    rw [if_pos rfl, components_dot, List.nil_append]
    by_cases hkey : key = "."
    · subst hkey
      simp [Ne.symm (splitSlash_ne_nil rest)]
    · rw [if_neg hkey, components, if_neg hkey, Option.some.injEq, splitSlash_injective.eq_iff]
  · rw [if_neg hp, stripPrefix_slash hp]

theorem splitOnceSlash_eq_none {rest : String} : splitOnceSlash rest = none ↔ splitSlash rest = [rest] := by
  have hjoin := joinSlash_splitSlash rest
  unfold splitOnceSlash
  rcases h : splitSlash rest with _ | ⟨c, _ | ⟨d, cs⟩⟩
  · exact absurd h (splitSlash_ne_nil rest)
  · rw [h] at hjoin
    have hc : c = rest := by simpa [joinSlash] using hjoin
    simp [hc]
  · simp

theorem splitOnceSlash_eq_some {rest head tail : String} :
    splitOnceSlash rest = some (head, tail) ↔ ∃ c cs, splitSlash rest = head :: c :: cs ∧ tail = joinSlash (c :: cs) := by
  unfold splitOnceSlash
  rcases h : splitSlash rest with _ | ⟨c, _ | ⟨d, cs⟩⟩
  · simp
  · simp
  · simp only [Option.some.injEq, Prod.mk.injEq, List.cons.injEq]
    constructor
    · rintro ⟨rfl, rfl⟩
      exact ⟨d, cs, ⟨rfl, rfl, rfl⟩, rfl⟩
    · rintro ⟨c', cs', ⟨rfl, rfl, rfl⟩, rfl⟩
      exact ⟨rfl, rfl⟩

theorem slash_not_mem_of_mem_components {p c : String} (h : c ∈ components p) : '/' ∉ c.toList := by
  unfold components at h
  split at h
  · cases h
  · exact slash_not_mem_of_mem_splitSlash h

theorem relativeTo_of_components {p key c : String} {cs : List String}
    (h : components key = components p ++ c :: cs) :
    ∃ rest, MemFs.relativeTo p key = some rest ∧ splitSlash rest = c :: cs := by
  have hsplit : splitSlash (joinSlash (c :: cs)) = c :: cs := by
    refine splitSlash_joinSlash (List.cons_ne_nil c cs) fun d hd => ?_
    exact slash_not_mem_of_mem_components (h ▸ List.mem_append_right _ hd)
  exact ⟨joinSlash (c :: cs), relativeTo_eq_some.mpr (by rw [h, hsplit]), hsplit⟩

namespace MemFs
variable {fs : MemFs}

/-- The entry of a child with a node. -/
def childEntry (fs : MemFs) (name : String) (id : NodeId) : DirEntry :=
  { name, metadata := { (fs.heap id).metadata with name } }

section
variable {p : String} {kv : String × NodeId} {acc : List DirEntry × Std.ExtTreeSet String}

theorem childStep_of_not_below (h : relativeTo p kv.1 = none) : fs.childStep p acc kv = acc := by
  rw [childStep, h]

theorem childStep_of_child {c : String} (h : components kv.1 = components p ++ [c]) :
    fs.childStep p acc kv = (acc.1 ++ [fs.childEntry c kv.2], acc.2) := by
  obtain ⟨rest, hrel, hsplit⟩ := relativeTo_of_components h
  have hrest : rest = c := by
    have := joinSlash_splitSlash rest
    rw [hsplit] at this
    simpa [joinSlash] using this.symm
  subst hrest
  rw [childStep, hrel]
  simp only [splitOnceSlash_eq_none.mpr hsplit]
  rfl

theorem childStep_of_deeper {head c : String} {cs : List String}
    (h : components kv.1 = components p ++ head :: c :: cs) :
    fs.childStep p acc kv = (acc.1, acc.2.insert head) := by
  obtain ⟨rest, hrel, hsplit⟩ := relativeTo_of_components h
  rw [childStep, hrel]
  simp only [splitOnceSlash_eq_some.mpr ⟨c, cs, hsplit, rfl⟩]

/-- A key is not below the directory, or is a child of it, or lies deeper. -/
theorem key_cases (p key : String) :
    (relativeTo p key = none ∧ ∀ c cs, components key ≠ components p ++ c :: cs) ∨
    (∃ c, components key = components p ++ [c]) ∨
    ∃ head c cs, components key = components p ++ head :: c :: cs := by
  cases hrel : relativeTo p key with
  | none =>
    refine Or.inl ⟨rfl, fun c cs h => ?_⟩
    obtain ⟨rest, hrest, -⟩ := relativeTo_of_components h
    rw [hrel] at hrest
    cases hrest
  | some rest =>
    have hcomp := relativeTo_eq_some.mp hrel
    rcases h : splitSlash rest with _ | ⟨c, _ | ⟨d, cs⟩⟩
    · exact absurd h (splitSlash_ne_nil rest)
    · exact Or.inr (Or.inl ⟨c, by rw [hcomp, h]⟩)
    · exact Or.inr (Or.inr ⟨c, d, cs, by rw [hcomp, h]⟩)

end

theorem mem_foldl_childStep {p : String} {l : List (String × NodeId)} {acc : List DirEntry × Std.ExtTreeSet String}
    {e : DirEntry} :
    e ∈ (l.foldl (fs.childStep p) acc).1 ↔ e ∈ acc.1 ∨
      ∃ kv ∈ l, components kv.1 = components p ++ [e.name] ∧ e = fs.childEntry e.name kv.2 := by
  induction l generalizing acc with
  | nil => simp
  | cons kv l ih =>
    rw [List.foldl_cons, ih]
    simp only [List.mem_cons, exists_eq_or_imp, ← or_assoc]
    refine or_congr_left ?_
    rcases key_cases p kv.1 with ⟨hrel, hnot⟩ | ⟨c, hc⟩ | ⟨head, c, cs, hc⟩
    · rw [childStep_of_not_below hrel]
      exact (or_iff_left fun h => hnot _ _ h.1).symm
    · rw [childStep_of_child hc, List.mem_append, List.mem_singleton]
      refine or_congr_right ⟨fun he => ?_, fun h => ?_⟩
      · subst he
        exact ⟨hc, rfl⟩
      · have hname : c = e.name := by simpa [hc] using h.1
        rw [hname]
        exact h.2
    · rw [childStep_of_deeper hc]
      refine (or_iff_left fun h => ?_).symm
      simp [hc] at h

theorem mem_need_foldl_childStep {p head : String} {l : List (String × NodeId)}
    {acc : List DirEntry × Std.ExtTreeSet String} :
    head ∈ (l.foldl (fs.childStep p) acc).2 ↔ head ∈ acc.2 ∨
      ∃ kv ∈ l, ∃ c cs, components kv.1 = components p ++ head :: c :: cs := by
  induction l generalizing acc with
  | nil => simp
  | cons kv l ih =>
    rw [List.foldl_cons, ih]
    simp only [List.mem_cons, exists_eq_or_imp, ← or_assoc]
    refine or_congr_left ?_
    rcases key_cases p kv.1 with ⟨hrel, hnot⟩ | ⟨c, hc⟩ | ⟨head', c, cs, hc⟩
    · rw [childStep_of_not_below hrel]
      exact (or_iff_left fun ⟨_, _, h⟩ => hnot _ _ h).symm
    · rw [childStep_of_child hc]
      refine (or_iff_left fun ⟨_, _, h⟩ => ?_).symm
      simp [hc] at h
    · rw [childStep_of_deeper hc, Std.ExtTreeSet.mem_insert, or_comm]
      refine or_congr_right ⟨fun h => ?_, fun ⟨_, _, h⟩ => ?_⟩
      · exact ⟨c, cs, by rw [hc, Std.LawfulEqCmp.eq_of_compare h]⟩
      · have hname : head' = head := by
          have h' := hc.symm.trans h
          simp only [List.append_cancel_left_eq, List.cons.injEq] at h'
          exact h'.1
        simp [hname]

theorem mem_foldl_erase {l : List DirEntry} {need : Std.ExtTreeSet String} {c : String} :
    c ∈ l.foldl (fun need e => need.erase e.name) need ↔ c ∈ need ∧ c ∉ l.map (·.name) := by
  induction l generalizing need with
  | nil => simp
  | cons e l ih =>
    rw [List.foldl_cons, ih, Std.ExtTreeSet.mem_erase, List.map_cons, List.mem_cons, not_or]
    have hne : compare e.name c ≠ .eq ↔ c ≠ e.name := by
      rw [ne_eq, Std.LawfulEqCmp.compare_eq_iff_eq, eq_comm]
    rw [hne]
    tauto

theorem mem_children (ha : fs.Allocated) {p : String} {e : DirEntry} :
    e ∈ (fs.childrenFor p).1 ↔ ValidName e.name ∧ ∃ id, fs.nodes[childPath p e.name]? = some id ∧
      e = fs.childEntry e.name id := by
  unfold childrenFor
  dsimp only
  rw [mem_foldl_childStep]
  constructor
  · rintro (h | ⟨⟨key, id⟩, hkv, hcomp, he⟩)
    · cases h
    · have hid := Std.ExtTreeMap.mem_toList_iff_getElem?_eq_some.mp hkv
      have hname : ValidName e.name := validName_of_mem_components (ha.valid hid) (hcomp ▸ by simp)
      have hkey : key = childPath p e.name := components_injective (hcomp.trans (components_childPath p hname).symm)
      exact ⟨hname, id, hkey ▸ hid, he⟩
  · rintro ⟨hname, id, hid, he⟩
    exact Or.inr ⟨(childPath p e.name, id), Std.ExtTreeMap.mem_toList_iff_getElem?_eq_some.mpr hid,
      components_childPath p hname, he⟩

theorem mem_need (ha : fs.Allocated) {p c : String} (h : c ∈ (fs.childrenFor p).2) :
    ValidName c ∧ fs.someBelow (childPath p c) = true ∧ childPath p c ∉ fs.nodes := by
  have hchildren : c ∉ (fs.childrenFor p).1.map (·.name) := by
    unfold childrenFor at h ⊢
    exact (mem_foldl_erase.mp h).2
  unfold childrenFor at h
  dsimp only at h
  rw [mem_foldl_erase, mem_need_foldl_childStep] at h
  obtain ⟨h | ⟨⟨key, id⟩, hkv, d, cs, hcomp⟩, -⟩ := h
  · simp at h
  · have hid := Std.ExtTreeMap.mem_toList_iff_getElem?_eq_some.mp hkv
    have hname : ValidName c := validName_of_mem_components (ha.valid hid) (hcomp ▸ by simp)
    refine ⟨hname, someBelow_iff.mpr ⟨key, mem_nodes_iff.mpr ⟨id, hid⟩, below_iff.mpr ⟨d, cs, ?_⟩⟩, fun hmem => ?_⟩
    · rw [components_childPath p hname, List.append_assoc]
      exact hcomp
    · obtain ⟨i, hi⟩ := mem_nodes_iff.mp hmem
      refine hchildren (List.mem_map.mpr ⟨fs.childEntry c i, (mem_children ha).mpr ⟨hname, i, hi, rfl⟩, rfl⟩)

/-! ## The entries of a listing -/

/-- Names that a listing leaves out. -/
def hiddenName (c : String) : Bool := c.toList.head? == some '#'

/-- The entries that `open_dir` puts into its handle. -/
def dirEntries (fs : MemFs) (p : String) : List DirEntry :=
  (fs.childrenFor p).1 ++ (fs.childrenFor p).2.toList.map fun dir => { name := dir, metadata := Metadata.dir dir 0o755 }

def listing (fs : MemFs) (p : String) : List DirEntry := FileSystem.sortEntries (dedupeSortHide (fs.dirEntries p))

end MemFs

def dedupeStep (m : Std.ExtTreeMap String DirEntry) (e : DirEntry) : Std.ExtTreeMap String DirEntry :=
  if e.name.toList.head? == some '#' then m else m.insert e.name e

theorem mem_foldl_dedupeStep {l : List DirEntry} {m : Std.ExtTreeMap String DirEntry} {c : String} :
    c ∈ l.foldl dedupeStep m ↔ c ∈ m ∨ MemFs.hiddenName c = false ∧ c ∈ l.map (·.name) := by
  induction l generalizing m with
  | nil => simp
  | cons e l ih =>
    rw [List.foldl_cons, ih, List.map_cons, List.mem_cons]
    have hstep : c ∈ dedupeStep m e ↔ c ∈ m ∨ MemFs.hiddenName c = false ∧ c = e.name := by
      unfold dedupeStep
      split
      · rename_i hhide
        refine (or_iff_left ?_).symm
        rintro ⟨hshow, rfl⟩
        rw [MemFs.hiddenName, hhide] at hshow
        cases hshow
      · rename_i hshow
        rw [Std.ExtTreeMap.mem_insert, Std.LawfulEqCmp.compare_eq_iff_eq, or_comm]
        refine or_congr_right ⟨?_, fun h => h.2.symm⟩
        rintro rfl
        exact ⟨by simpa [MemFs.hiddenName] using hshow, rfl⟩
    rw [hstep]
    tauto

theorem name_of_foldl_dedupeStep {l : List DirEntry} {m : Std.ExtTreeMap String DirEntry}
    (hm : ∀ (c : String) (e : DirEntry), m[c]? = some e → e.name = c) {c : String} {e : DirEntry}
    (h : (l.foldl dedupeStep m)[c]? = some e) : e.name = c := by
  induction l generalizing m with
  | nil => exact hm c e h
  | cons d l ih =>
    refine ih (fun c' e' h' => ?_) h
    unfold dedupeStep at h'
    split at h'
    · exact hm c' e' h'
    · rw [Std.ExtTreeMap.getElem?_insert] at h'
      split at h'
      · rename_i heq
        cases h'
        exact Std.LawfulEqCmp.eq_of_compare heq
      · exact hm c' e' h'

theorem mem_of_foldl_dedupeStep {l : List DirEntry} {m : Std.ExtTreeMap String DirEntry} {c : String} {e : DirEntry}
    (h : (l.foldl dedupeStep m)[c]? = some e) : e ∈ l ∨ m[c]? = some e := by
  induction l generalizing m with
  | nil => exact Or.inr h
  | cons d l ih =>
    rcases ih h with hl | hm
    · exact Or.inl (List.mem_cons_of_mem d hl)
    · unfold dedupeStep at hm
      split at hm
      · exact Or.inr hm
      · rw [Std.ExtTreeMap.getElem?_insert] at hm
        split at hm
        · cases hm
          exact Or.inl List.mem_cons_self
        · exact Or.inr hm

/-- The names of the entries are the keys of the map they go through. -/
theorem dedupeSortHide_names (l : List DirEntry) : (dedupeSortHide l).map (·.name) = (l.foldl dedupeStep ∅).keys := by
  have hname : ∀ kv ∈ (l.foldl dedupeStep ∅).toList, kv.2.name = kv.1 := by
    intro kv hkv
    exact name_of_foldl_dedupeStep (by simp) (Std.ExtTreeMap.mem_toList_iff_getElem?_eq_some.mp hkv)
  rw [← Std.ExtTreeMap.map_fst_toList_eq_keys]
  show ((l.foldl dedupeStep ∅).toList.map (·.2)).map (·.name) = _
  rw [List.map_map]
  exact List.map_congr_left hname

namespace MemFs
variable {fs : MemFs}

theorem mem_listing_names {p c : String} :
    c ∈ (fs.listing p).map (·.name) ↔ hiddenName c = false ∧ c ∈ (fs.dirEntries p).map (·.name) := by
  have hperm := (List.mergeSort_perm (dedupeSortHide (fs.dirEntries p))
    fun a b => (compare a.name b.name).isLE).map (·.name)
  rw [listing, FileSystem.sortEntries, hperm.mem_iff, dedupeSortHide_names, Std.ExtTreeMap.mem_keys,
    mem_foldl_dedupeStep]
  simp

/-- The listing has only entries of the directory. -/
theorem mem_dirEntries_of_mem_listing {p : String} {e : DirEntry} (h : e ∈ fs.listing p) : e ∈ fs.dirEntries p := by
  rw [listing, FileSystem.sortEntries, (List.mergeSort_perm _ _).mem_iff] at h
  obtain ⟨⟨c, e'⟩, hkv, rfl⟩ := List.mem_map.mp h
  have hget : ((fs.dirEntries p).foldl dedupeStep ∅)[c]? = some e' :=
    Std.ExtTreeMap.mem_toList_iff_getElem?_eq_some.mp hkv
  exact (mem_of_foldl_dedupeStep hget).resolve_right (by simp)

theorem listing_nodup (fs : MemFs) (p : String) : ((fs.listing p).map (·.name)).Nodup := by
  have hperm := (List.mergeSort_perm (dedupeSortHide (fs.dirEntries p))
    fun a b => (compare a.name b.name).isLE).map (·.name)
  rw [listing, FileSystem.sortEntries, hperm.nodup_iff, dedupeSortHide_names]
  exact Std.ExtTreeMap.nodup_keys

theorem validName_of_mem_dirEntries (ha : fs.Allocated) {p c : String} (h : c ∈ (fs.dirEntries p).map (·.name)) :
    ValidName c := by
  rw [dirEntries, List.map_append, List.mem_append] at h
  rcases h with h | h
  · obtain ⟨e, he, rfl⟩ := List.mem_map.mp h
    exact ((mem_children ha).mp he).1
  · simp only [List.map_map, List.mem_map, Function.comp] at h
    obtain ⟨d, hd, rfl⟩ := h
    exact (mem_need ha (Std.ExtTreeSet.mem_toList.mp hd)).1

/-- When every key has its parent, a listing names the children that are not hidden. -/
theorem mem_listing (ha : fs.Allocated) (hclosed : fs.ParentClosed) {p c : String} :
    c ∈ (fs.listing p).map (·.name) ↔ hiddenName c = false ∧ ValidName c ∧ childPath p c ∈ fs.nodes := by
  rw [mem_listing_names]
  refine and_congr_right fun _ => ⟨fun h => ⟨validName_of_mem_dirEntries ha h, ?_⟩, fun ⟨hname, hmem⟩ => ?_⟩
  · rw [dirEntries, List.map_append, List.mem_append] at h
    rcases h with h | h
    · obtain ⟨e, he, rfl⟩ := List.mem_map.mp h
      obtain ⟨-, id, hid, -⟩ := (mem_children ha).mp he
      exact mem_nodes_iff.mpr ⟨id, hid⟩
    · simp only [List.map_map, List.mem_map, Function.comp] at h
      obtain ⟨d, hd, rfl⟩ := h
      obtain ⟨hname, hbelow, -⟩ := mem_need ha (Std.ExtTreeSet.mem_toList.mp hd)
      obtain ⟨q, hq, hdq⟩ := someBelow_iff.mp hbelow
      exact hclosed.mem_of_below ha hq (childPath_ne_dot p hname) hdq
  · obtain ⟨id, hid⟩ := mem_nodes_iff.mp hmem
    rw [dirEntries, List.map_append]
    exact List.mem_append_left _ (List.mem_map.mpr ⟨fs.childEntry c id, (mem_children ha).mpr ⟨hname, id, hid, rfl⟩, rfl⟩)

/-! ## Reading a directory -/

theorem openDir_cases (p : String) (fs : MemFs) :
    (∃ f : DirFile, f.entries = dedupeSortHide (fs.dirEntries p) ∧ openDir p fs = (.ok (.dir f), fs)) ∨
    (p ∉ fs.nodes ∧ ∃ e, openDir p fs = (.err e, fs)) := by
  unfold openDir
  rw [get_bind]
  dsimp only
  rw [branch_apply]
  split
  · rename_i h
    refine Or.inr ⟨fun hmem => ?_, _, rfl⟩
    obtain ⟨i, hi⟩ := mem_nodes_iff.mp hmem
    simp [hi] at h
  · exact Or.inl ⟨_, rfl, rfl⟩

theorem openAt_dir {depth : Nat} {ctx : FsContext} {name : String} {f : DirFile}
    (h : (openAt depth ctx name fs).1 = .ok (.dir f)) :
    ∃ p, f.entries = dedupeSortHide (fs.dirEntries p) := by
  induction depth generalizing name with
  | zero => cases h
  | succ depth ih =>
    have hdir : ∀ p, (openDir p fs).1 = .ok (.dir f) → f.entries = dedupeSortHide (fs.dirEntries p) := by
      intro p hp
      rcases openDir_cases p fs with ⟨g, hg, hopen⟩ | ⟨-, e, hopen⟩ <;> rw [hopen] at hp
      · cases hp
        exact hg
      · cases hp
    unfold openAt at h
    rw [branch_apply] at h
    split at h
    · cases h
    · rw [get_bind] at h
      cases hi : fs.nodes[cleanPath name]? with
      | none =>
        simp only [hi] at h
        exact ⟨_, hdir _ h⟩
      | some i =>
        simp only [hi, branch_apply] at h
        split at h
        · exact ih h
        · split at h
          · cases h
          · exact ⟨_, hdir _ h⟩

/-- What `read_dir` returns is the listing of some path. -/
theorem readDir_listing {ctx : FsContext} {name : String} {es : List DirEntry} (h : (readDir ctx name fs).1 = .ok es) :
    ∃ p, es = fs.listing p := by
  unfold readDir FileSystem.defaultReadDir at h
  rw [bind_apply] at h
  rcases hopen : open_ (ctx.setReadOnly.withOrigin name "readdir") name fs with ⟨f | e | _, fs'⟩ <;> rw [hopen] at h
  · cases f with
    | node f => cases h
    | dir f =>
      have hf : (open_ (ctx.setReadOnly.withOrigin name "readdir") name fs).1 = .ok (.dir f) := by rw [hopen]
      obtain ⟨p, hp⟩ := openAt_dir hf
      refine ⟨p, ?_⟩
      rw [listing, ← hp]
      cases h
      rfl
  · cases h
  · cases h

theorem readDir_names (ha : fs.Allocated) {ctx : FsContext} {name : String} {es : List DirEntry}
    (h : (readDir ctx name fs).1 = .ok es) : ∀ e ∈ es, ValidName e.name := by
  obtain ⟨p, rfl⟩ := readDir_listing h
  intro e he
  exact validName_of_mem_dirEntries ha (mem_listing_names.mp (List.mem_map_of_mem he)).2

theorem readDir_of_dirNode {ctx : FsContext} {p : String} {i : NodeId} (hp : validPath p = true)
    (hi : fs.nodes[p]? = some i) (hdir : (fs.heap i).metadata.isDir = true)
    (hlink : (fs.heap i).metadata.mode.isSymlink = false) : readDir ctx p fs = (.ok (fs.listing p), fs) := by
  have hopen : ∃ f : DirFile, f.entries = dedupeSortHide (fs.dirEntries p) ∧
      open_ (ctx.setReadOnly.withOrigin p "readdir") p fs = (.ok (.dir f), fs) := by
    rcases openDir_cases p fs with ⟨f, hf, hopen⟩ | ⟨hnot, -⟩
    · refine ⟨f, hf, ?_⟩
      rw [open_, get_bind, openAt, hp]
      simp only [Bool.not_true, Bool.false_eq_true, if_false, get_bind, cleanPath_of_valid hp, hi, hlink,
        Bool.and_false, hdir]
      exact hopen
    · exact absurd (mem_nodes_iff.mpr ⟨i, hi⟩) hnot
  obtain ⟨f, hf, hopen⟩ := hopen
  unfold readDir FileSystem.defaultReadDir
  rw [bind_ok hopen]
  show (Outcome.ok (FileSystem.sortEntries f.entries), fs) = _
  rw [hf]
  rfl

theorem freeLstat_of_mem {p : String} {i : NodeId} (hp : validPath p = true) (hi : fs.nodes[p]? = some i) :
    memFs.freeLstat p fs = (.ok (fs.heap i).metadata, fs) := by
  show stat _ p fs = _
  rw [stat, reads_apply, statAt, hp]
  simp only [Bool.not_true, Bool.false_eq_true, if_false, cleanPath_of_valid hp, hi]
  rfl

theorem readlink_of_symlink {p : String} {i : NodeId} (hp : validPath p = true) (hi : fs.nodes[p]? = some i)
    (hlink : (fs.heap i).metadata.mode.isSymlink = true) :
    readlink p fs = (.ok (utf8Lossy (fs.heap i).data), fs) := by
  unfold readlink nodeOr
  rw [cleanPath_of_valid hp, bind_assoc, get_bind, hi, ofOption_some, pure_bind, get_bind, hlink]
  rfl

end MemFs
end Star9
