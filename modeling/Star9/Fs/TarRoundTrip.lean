import Star9.Base.Map
import Star9.Core.PathLaws
import Star9.Fs.MemCopy
import Star9.Fs.TarFs

/-!
# Reading back an archive

An archive has one entry for every path of the tree that listings lead to. Reading enters the nodes
one by one and makes up directories on the way, which entries of their own replace; so when the
headers keep paths and targets, what is read is the tree that was written.
-/
namespace Star9
open Base Prog

/-! ## Entering nodes -/

theorem mem_tarParentDirs {fuel : Nat} {p d : String} (hp : validPath p = true) (hfuel : (components p).length ≤ fuel) :
    d ∈ tarParentDirs fuel p ↔ d ≠ "." ∧ below d p = true := by
  induction fuel generalizing p with
  | zero =>
    have hdot : p = "." := components_eq_nil.mp (List.length_eq_zero_iff.mp (Nat.le_zero.mp hfuel))
    subst hdot
    refine ⟨fun h => absurd h List.not_mem_nil, fun ⟨_, h⟩ => absurd rfl (below_ne_dot h)⟩
  | succ fuel ih =>
    rw [tarParentDirs]
    by_cases hdot : p = "."
    · subst hdot
      rw [if_pos parentPath_dot]
      exact ⟨fun h => absurd h List.not_mem_nil, fun ⟨_, h⟩ => absurd rfl (below_ne_dot h)⟩
    · have hparent := parentPath_valid p
      have hshorter : (components (parentPath p)).length ≤ fuel := by
        rw [components_parentPath hp, List.length_dropLast]
        omega
      rw [below_iff_parent hp hdot]
      by_cases htop : parentPath p = "."
      · rw [if_pos htop, htop]
        refine ⟨fun h => absurd h List.not_mem_nil, fun ⟨hd, h⟩ => ?_⟩
        rcases h with rfl | h
        · exact absurd rfl hd
        · exact absurd rfl (below_ne_dot h)
      · rw [if_neg htop, List.mem_cons, ih hparent hshorter]
        constructor
        · rintro (rfl | ⟨hd, h⟩)
          · exact ⟨htop, .inl rfl⟩
          · exact ⟨hd, .inr h⟩
        · rintro ⟨hd, h | h⟩
          · exact .inl h.symm
          · exact .inr ⟨hd, h⟩

theorem components_length_le (p : String) : (components p).length ≤ (splitSlash p).length := by
  unfold components
  split
  · exact Nat.zero_le _
  · exact Nat.le_refl _

theorem getElem?_ensureTarParentDirs {p : String} (hp : validPath p = true) (nodes : TarNodes) (q : String) :
    (ensureTarParentDirs nodes p)[q]? = if q ∉ nodes ∧ q ≠ "." ∧ below q p = true then some (.dir q) else nodes[q]? := by
  rw [ensureTarParentDirs, getElem?_foldl_insertIfNew]
  simp only [List.mem_reverse, mem_tarParentDirs hp (components_length_le p)]

/-- An entry is read as a node at a path. -/
structure ReadsAs (e : TarEntry) (p : String) (n : TarNode) : Prop where
  path : e.path = .ok p
  valid : validPath p = true
  node : e.node p = .ok n

theorem trimStartSlash_of_valid {p : String} (hp : validPath p = true) : trimStartSlash p = p := by
  by_cases hdot : p = "."
  · subst hdot
    decide
  · have hjoin : joinSlash (components p) = p := by
      rw [components, if_neg hdot, joinSlash_splitSlash]
    rw [← hjoin]
    exact trimStartSlash_joinSlash (fun h => hdot (components_eq_nil.mp h)) fun c hc => validName_of_mem_components hp hc

theorem ReadsAs.readTarEntry {e : TarEntry} {p : String} {n : TarNode} (h : ReadsAs e p n) (nodes : TarNodes) :
    readTarEntry nodes e = .ok (if p = "." then nodes else (ensureTarParentDirs nodes p).insert p n) := by
  rw [Star9.readTarEntry, h.path, Outcome.ofExcept_ok, Outcome.ok_bind, trimStartSlash_of_valid h.valid, cleanPath_of_valid h.valid]
  dsimp only
  rw [h.valid, h.node]
  by_cases hdot : p = "."
  · rw [if_pos (.inl hdot), if_pos hdot]
    rfl
  · rw [if_neg (by simpa using hdot), if_neg hdot]
    rfl

/-- Every entry's node is at its path, and of the other paths only those above an entry were made up. -/
theorem readTarEntries_eq {path : TarEntry → String} {node : String → TarNode} (entries : List TarEntry)
    (h : ∀ e ∈ entries, ReadsAs e (path e) (node (path e))) (nodes : TarNodes) :
    ∃ nodes', readTarEntries nodes entries = .ok nodes' ∧ nodes'["."]? = nodes["."]? ∧ ∀ q, q ≠ "." →
      (q ∈ entries.map path → nodes'[q]? = some (node q)) ∧
      (q ∉ entries.map path → nodes'[q]? = nodes[q]? ∨ (nodes[q]? = none ∧ ∃ e ∈ entries, below q (path e) = true)) := by
  induction entries generalizing nodes with
  | nil => exact ⟨nodes, rfl, rfl, fun q _ => ⟨fun hq => absurd hq List.not_mem_nil, fun _ => .inl rfl⟩⟩
  | cons e entries ih =>
    rw [List.forall_mem_cons] at h
    have hread := h.1.readTarEntry nodes
    generalize hmid : (if path e = "." then nodes else (ensureTarParentDirs nodes (path e)).insert (path e) (node (path e))) = mid at hread
    have hmid' : ∀ q, mid[q]? = if path e = "." then nodes[q]? else if q = path e then some (node (path e))
        else if q ∉ nodes ∧ q ≠ "." ∧ below q (path e) = true then some (.dir q) else nodes[q]? := by
      intro q
      rw [← hmid]
      by_cases hdot : path e = "."
      · rw [if_pos hdot, if_pos hdot]
      · rw [if_neg hdot, if_neg hdot, getElem?_insert_eq, getElem?_ensureTarParentDirs h.1.valid]
    obtain ⟨nodes', hrest, htop, hnodes⟩ := ih h.2 mid
    refine ⟨nodes', ?_, ?_, fun q hq => ⟨fun hmem => ?_, fun hmem => ?_⟩⟩
    · rw [readTarEntries, hread, Outcome.ok_bind, hrest]
    · rw [htop, hmid']
      split
      · rfl
      · rename_i hdot
        rw [if_neg (Ne.symm hdot), if_neg fun hbad => hbad.2.1 rfl]
    · by_cases hlater : q ∈ entries.map path
      · exact (hnodes q hq).1 hlater
      · have hhere : q = path e := by
          rw [List.map_cons, List.mem_cons] at hmem
          exact hmem.resolve_right hlater
        have hvalue : mid[q]? = some (node q) := by rw [hmid', if_neg (hhere ▸ hq), if_pos hhere, hhere]
        rcases (hnodes q hq).2 hlater with hkept | ⟨hnone, -⟩
        · rw [hkept, hvalue]
        · rw [hvalue] at hnone
          cases hnone
    · rw [List.map_cons, List.mem_cons, not_or] at hmem
      have hvalue := hmid' q
      rw [if_neg hmem.1] at hvalue
      by_cases hmade : path e ≠ "." ∧ q ∉ nodes ∧ q ≠ "." ∧ below q (path e) = true
      · exact .inr ⟨Std.ExtTreeMap.getElem?_eq_none hmade.2.1, e, List.mem_cons_self, hmade.2.2.2⟩
      · have hsame : mid[q]? = nodes[q]? := by
          rw [hvalue]
          split
          · rfl
          · rename_i hdot
            exact if_neg fun hbad => hmade ⟨hdot, hbad⟩
        rcases (hnodes q hq).2 hmem.2 with hkept | ⟨hnone, e', he', hbelow⟩
        · exact .inl (hkept.trans hsame)
        · exact .inr ⟨hsame ▸ hnone, e', List.mem_cons_of_mem e he', hbelow⟩

/-! ## Sizes of directories -/

theorem getElem?_recomputeTarDirSizes (nodes : TarNodes) (p : String) :
    (recomputeTarDirSizes nodes)[p]? = (nodes[p]?).map fun n =>
      if n.metadata.isDir = true then n.setSize (2 + ((tarRests nodes p).map tarChildName).eraseDups.length) else n := by
  have htwice : ∀ (d : String) (n : TarNode), (n.setSize (2 + ((tarRests nodes d).map tarChildName).eraseDups.length)).setSize
      (2 + ((tarRests nodes d).map tarChildName).eraseDups.length) =
        n.setSize (2 + ((tarRests nodes d).map tarChildName).eraseDups.length) := fun _ _ => rfl
  rw [recomputeTarDirSizes, getElem?_foldl_modify htwice]
  cases hp : nodes[p]? with
  | none => simp
  | some n =>
    have hkey : p ∈ nodes.keys := Std.ExtTreeMap.mem_keys.mpr (Std.ExtTreeMap.isSome_getElem?_iff_mem.mp (by rw [hp]; rfl))
    by_cases hdir : n.metadata.isDir = true
    · rw [if_pos (List.mem_filter.mpr ⟨hkey, by rw [hp]; exact hdir⟩), Option.map_some, Option.map_some, if_pos hdir]
    · rw [if_neg fun hmem => hdir (by simpa [hp] using (List.mem_filter.mp hmem).2), Option.map_some, if_neg hdir]

theorem mem_tarRests {nodes : TarNodes} {p rest : String} :
    rest ∈ tarRests nodes p ↔ ∃ q, q ∈ nodes ∧ (q ≠ p ∧ q ≠ ".") ∧ components q = components p ++ splitSlash rest := by
  have hrest : ∀ q, q ≠ "." → (stripPrefix (if p = "." then "" else p ++ "/") q = some rest ↔ components q = components p ++ splitSlash rest) := by
    intro q hdot
    by_cases hp : p = "."
    · subst hp
      rw [if_pos rfl, stripPrefix_eq_some, String.empty_append, components_dot, List.nil_append, components, if_neg hdot]
      exact ⟨fun h => by rw [h], fun h => splitSlash_injective h⟩
    · rw [if_neg hp, stripPrefix_slash hp]
  rw [tarRests, List.mem_filterMap]
  refine exists_congr fun q => ?_
  rw [Std.ExtTreeMap.mem_keys]
  refine and_congr_right fun _ => ?_
  by_cases hout : q = p ∨ q = "."
  · rw [if_pos hout]
    exact ⟨fun h => absurd h (Option.some_ne_none rest).symm, fun h => absurd hout (not_or.mpr h.1)⟩
  · rw [if_neg hout, hrest q (not_or.mp hout).2]
    exact ⟨fun h => ⟨not_or.mp hout, h⟩, fun h => h.2⟩

/-- The parts behind a directory begin with the names below it. -/
theorem mem_tarChildNames {nodes : TarNodes} (hvalid : ∀ q, q ∈ nodes → validPath q = true) {p c : String} :
    c ∈ ((tarRests nodes p).map tarChildName) ↔ ∃ q, q ∈ nodes ∧ ∃ cs, components q = components p ++ c :: cs := by
  rw [List.mem_map]
  constructor
  · rintro ⟨rest, hmem, rfl⟩
    obtain ⟨q, hq, -, hcomp⟩ := mem_tarRests.mp hmem
    obtain ⟨d, ds, hsplit⟩ := List.exists_cons_of_ne_nil (splitSlash_ne_nil rest)
    exact ⟨q, hq, ds, by rw [hcomp, tarChildName, hsplit, List.headD_cons]⟩
  · rintro ⟨q, hq, cs, hcomp⟩
    have hdot : q ≠ "." := by
      rintro rfl
      rw [components_dot] at hcomp
      exact List.cons_ne_nil _ _ (List.append_eq_nil_iff.mp hcomp.symm).2
    have hne : q ≠ p := by
      rintro rfl
      exact List.cons_ne_nil _ _ (List.self_eq_append_right.mp hcomp)
    have hparts : splitSlash (joinSlash (c :: cs)) = c :: cs := by
      refine splitSlash_joinSlash (List.cons_ne_nil _ _) fun d hd => ?_
      have hmem : d ∈ components q := by
        rw [hcomp]
        exact List.mem_append_right _ hd
      exact (validName_of_mem_components (hvalid q hq) hmem).2.2.2
    refine ⟨joinSlash (c :: cs), mem_tarRests.mpr ⟨q, hq, ⟨hne, hdot⟩, ?_⟩, ?_⟩
    · rw [hparts, hcomp]
    · rw [tarChildName, hparts, List.headD_cons]

/-- No part behind a directory is empty. -/
theorem ne_empty_of_mem_tarRests {nodes : TarNodes} (hvalid : ∀ q, q ∈ nodes → validPath q = true) {p rest : String}
    (h : rest ∈ tarRests nodes p) : rest ≠ "" := by
  rintro rfl
  obtain ⟨q, hq, -, hcomp⟩ := mem_tarRests.mp h
  have hmem : "" ∈ components q := by
    rw [hcomp]
    exact List.mem_append_right _ (by decide)
  exact absurd (validName_of_mem_components (hvalid q hq) hmem) (by decide)

theorem nodup_eraseDups {α : Type} [BEq α] [LawfulBEq α] (l : List α) : l.eraseDups.Nodup := by
  induction hn : l.length using Nat.strong_induction_on generalizing l with
  | _ n ih =>
    cases l with
    | nil => simp
    | cons a l =>
      rw [List.eraseDups_cons, List.nodup_cons, List.mem_eraseDups, List.mem_filter]
      have hlen : (l.filter fun b => !b == a).length < n := by
        have := List.length_filter_le (fun b => !b == a) l
        rw [← hn, List.length_cons]
        omega
      exact ⟨fun h => by simpa using h.2, ih _ hlen _ rfl⟩

/-! ## The entries of a tree -/

/-- A path that listings lead to. -/
def ShownPath (p : String) : Prop := ∀ c ∈ components p, MemFs.hiddenName c = false

namespace NodeInner

def tarEntry (format : TarFormat) (p : String) (n : NodeInner) : TarEntry :=
  if n.metadata.mode.isSymlink then Star9.tarEntry format n.metadata p .symlink (some (utf8Lossy n.data)) []
  else if n.metadata.isDir then Star9.tarEntry format n.metadata p .directory none []
  else Star9.tarEntry format n.metadata p .regular none n.data

/-- What an archive keeps of a node: its kind, permissions, owner, contents or target, and the seconds of its time. -/
def archived (p : String) (children : Nat) (n : NodeInner) : TarNode :=
  let metadata (mode : FileMode) (size : Nat) : Metadata :=
    ⟨baseName p, mode, size, HttpFs.unixSecs n.metadata.modified * 1000000000, n.metadata.uid, n.metadata.gid⟩
  if n.metadata.mode.isSymlink then
    ⟨metadata (FileMode.symlink ||| FileMode.fromPerm 0o777) (utf8Bytes (utf8Lossy n.data)).length, utf8Bytes (utf8Lossy n.data), some (utf8Lossy n.data)⟩
  else if n.metadata.isDir then ⟨metadata (FileMode.dir ||| FileMode.fromPerm n.metadata.mode.perm) (2 + children), [], none⟩
  else ⟨metadata (FileMode.fromPerm n.metadata.mode.perm) n.data.length, n.data, none⟩

variable {n n' : NodeInner}

theorem tarEntry_congr (hcore : n'.core = n.core) (htime : n'.metadata.modified = n.metadata.modified) (format : TarFormat) (p : String) :
    n'.tarEntry format p = n.tarEntry format p := by
  have hmode : n'.metadata.mode = n.metadata.mode := congrArg NodeCore.mode hcore
  have huid : n'.metadata.uid = n.metadata.uid := congrArg NodeCore.uid hcore
  have hgid : n'.metadata.gid = n.metadata.gid := congrArg NodeCore.gid hcore
  have hdata : n'.data = n.data := congrArg NodeCore.data hcore
  have hparts (t : TarEntryType) (link : Option String) (data : Bytes) :
      Star9.tarEntry format n'.metadata p t link data = Star9.tarEntry format n.metadata p t link data := by
    rw [Star9.tarEntry, Star9.tarEntry, hmode, huid, hgid, htime]
  rw [tarEntry, tarEntry, hparts, hparts, hparts, hdata, Metadata.isDir, Metadata.isDir, hmode]

theorem isDir_archived (p : String) (children : Nat) (n : NodeInner) :
    (n.archived p children).metadata.isDir = (!n.metadata.mode.isSymlink && n.metadata.isDir) := by
  unfold archived
  cases hlink : n.metadata.mode.isSymlink with
  | true => simp [Metadata.isDir]
  | false =>
    cases hdir : n.metadata.isDir with
    | true => simp [Metadata.isDir]
    | false => simp [Metadata.isDir]

end NodeInner

/-- The headers of the format keep the paths and the targets of a tree, and its times are times of the clock. -/
structure TarFormat.Keeps (format : TarFormat) (fs : MemFs) : Prop where
  paths : ∀ p ∈ fs.nodes, ShownPath p → format.appendData p = .ok () ∧ format.headerPath p = p
  targets : ∀ (p : String) (i : NodeId), fs.nodes[p]? = some i → ShownPath p → (fs.heap i).metadata.mode.isSymlink = true →
    format.setLinkName (utf8Lossy (fs.heap i).data) = .ok () ∧ format.headerLinkName (utf8Lossy (fs.heap i).data) = utf8Lossy (fs.heap i).data
  times : ∀ (p : String) (i : NodeId), fs.nodes[p]? = some i → HttpFs.unixSecs (fs.heap i).metadata.modified < 2 ^ 63

namespace MemFs
variable {fs : MemFs} {format : TarFormat}

theorem readsAs_tarEntry (hkeeps : format.Keeps fs) {p : String} {i : NodeId} (hp : validPath p = true) (hshown : ShownPath p)
    (hi : fs.nodes[p]? = some i) : ReadsAs ((fs.heap i).tarEntry format p) p ((fs.heap i).archived p 0) := by
  have hmem : p ∈ fs.nodes := mem_nodes_iff.mpr ⟨i, hi⟩
  have hpath := (hkeeps.paths p hmem hshown).2
  have hsecs : (UInt64.ofNat (HttpFs.unixSecs (fs.heap i).metadata.modified)).toNat = HttpFs.unixSecs (fs.heap i).metadata.modified := by
    have htime := hkeeps.times p i hi
    rw [UInt64.toNat_ofNat']
    exact Nat.mod_eq_of_lt (by omega)
  have htime (t : TarEntryType) (link : Option String) (data : Bytes) :
      (Star9.tarEntry format (fs.heap i).metadata p t link data).modified = .ok (HttpFs.unixSecs (fs.heap i).metadata.modified * 1000000000) := by
    rw [tarEntry, TarEntry.modified]
    dsimp only
    rw [hsecs, epochPlusSecs, if_pos (hkeeps.times p i hi)]
  have hperm : (fs.heap i).metadata.mode.perm &&& 0o777 = (fs.heap i).metadata.mode.perm := FileMode.perm_and_mask _
  unfold NodeInner.tarEntry NodeInner.archived
  cases hlink : (fs.heap i).metadata.mode.isSymlink with
  | true =>
    obtain ⟨-, htarget⟩ := hkeeps.targets p i hi hshown hlink
    refine ⟨congrArg Except.ok hpath, hp, ?_⟩
    rw [if_pos rfl, if_pos rfl, TarEntry.node, htime]
    simp [tarEntry, TarEntry.metadata, htarget]
  | false =>
    cases hdir : (fs.heap i).metadata.isDir with
    | true =>
      refine ⟨congrArg Except.ok hpath, hp, ?_⟩
      rw [if_neg Bool.false_ne_true, if_neg Bool.false_ne_true, if_pos rfl, if_pos rfl, TarEntry.node, htime]
      simp [tarEntry, TarEntry.metadata, hperm]
    | false =>
      refine ⟨congrArg Except.ok hpath, hp, ?_⟩
      rw [if_neg Bool.false_ne_true, if_neg Bool.false_ne_true, if_neg Bool.false_ne_true, if_neg Bool.false_ne_true, TarEntry.node, htime]
      simp [tarEntry, TarEntry.metadata, hperm]

/-- A reader may have changed the names that nodes carry, and nothing else. -/
structure SameTree (fs s : MemFs) : Prop where
  shape : s.shape = fs.shape
  times : ∀ i, (s.heap i).metadata.modified = (fs.heap i).metadata.modified

namespace SameTree
variable {s : MemFs} (h : SameTree fs s)
include h

theorem nodes : s.nodes = fs.nodes := congrArg Shape.nodes h.shape

theorem core (i : NodeId) : (s.heap i).core = (fs.heap i).core := congrFun (congrArg Shape.core h.shape) i

theorem tarEntry (format : TarFormat) (p : String) (i : NodeId) : (s.heap i).tarEntry format p = (fs.heap i).tarEntry format p :=
  NodeInner.tarEntry_congr (h.core i) (h.times i) format p

theorem copyable (hfs : fs.Copyable) : s.Copyable :=
  ⟨hfs.tree.of_shape h.shape, fun {p _} hc => hfs.plain ((coreAt_of_shape h.shape p) ▸ hc)⟩

theorem setName (i : NodeId) (name : String) : SameTree fs (s.updateNode i (NodeInner.setName name)) := by
  refine ⟨(shape_updateNode fun n => n.core_setName name).trans h.shape, fun j => ?_⟩
  rw [updateNode_heap]
  by_cases hj : j = i
  · rw [hj, Function.update_self]
    exact h.times i
  · simpa [hj] using h.times j

end SameTree

/-- The archive has an entry for each listed path within `p` that the tree has, and no other entries. -/
structure Archives (format : TarFormat) (fs : MemFs) (p : String) (entries : List TarEntry) : Prop where
  sound : ∀ e ∈ entries, ∃ names i, ListedNames names ∧ fs.nodes[descend p names]? = some i ∧
    e = (fs.heap i).tarEntry format (descend p names)
  complete : ∀ names i, ListedNames names → fs.nodes[descend p names]? = some i →
    (fs.heap i).tarEntry format (descend p names) ∈ entries

theorem archives_leaf (h : fs.Copyable) {p : String} {i : NodeId} (hi : fs.nodes[p]? = some i) (hdir : fs.isDirNode p = false) :
    Archives format fs p [(fs.heap i).tarEntry format p] := by
  refine ⟨fun e he => ⟨[], i, fun c hc => absurd hc List.not_mem_nil, by rw [descend_nil, hi], ?_⟩, fun names j hnames hj => ?_⟩
  · rw [descend_nil, List.mem_singleton.mp he]
  · by_cases hne : names = []
    · subst hne
      rw [descend_nil] at hj ⊢
      obtain rfl : i = j := Option.some.inj (hi.symm.trans hj)
      exact List.mem_singleton_self _
    · have hnone := h.none_below (h.tree.alloc.valid hi) hdir hnames.valid hne
      rw [coreAt_eq_none] at hnone
      exact absurd (mem_nodes_iff.mpr ⟨j, hj⟩) hnone

theorem archives_dir (h : fs.Copyable) {p : String} {i : NodeId} (hi : fs.nodes[p]? = some i) {names : List String}
    (hlisted : ∀ c, c ∈ names ↔ hiddenName c = false ∧ ValidName c ∧ childPath p c ∈ fs.nodes) {children : List (List TarEntry)}
    (hchildren : List.Forall₂ (fun c entries => Archives format fs (childPath p c) entries) names children) :
    Archives format fs p ((fs.heap i).tarEntry format p :: children.flatten) := by
  have hmem : ∀ e, e ∈ children.flatten → ∃ c ∈ names, ∃ entries, Archives format fs (childPath p c) entries ∧ e ∈ entries := by
    intro e he
    clear hlisted
    induction hchildren with
    | nil => cases he
    | cons hhead _ ih =>
      rw [List.flatten_cons, List.mem_append] at he
      rcases he with he | he
      · exact ⟨_, List.mem_cons_self, _, hhead, he⟩
      · obtain ⟨c, hc, entries, harch, hmem⟩ := ih he
        exact ⟨c, List.mem_cons_of_mem _ hc, entries, harch, hmem⟩
  have hhas : ∀ c ∈ names, ∃ entries, Archives format fs (childPath p c) entries ∧ ∀ e ∈ entries, e ∈ children.flatten := by
    intro c hc
    clear hlisted hmem
    induction hchildren with
    | nil => cases hc
    | cons hhead _ ih =>
      rcases List.mem_cons.mp hc with rfl | hc
      · exact ⟨_, hhead, fun e he => List.mem_append_left _ he⟩
      · obtain ⟨entries, harch, hsub⟩ := ih hc
        exact ⟨entries, harch, fun e he => List.mem_append_right _ (hsub e he)⟩
  refine ⟨fun e he => ?_, fun cs j hcs hj => ?_⟩
  · rcases List.mem_cons.mp he with rfl | he
    · exact ⟨[], i, fun c hc => absurd hc List.not_mem_nil, by rw [descend_nil, hi], by rw [descend_nil]⟩
    · obtain ⟨c, hc, entries, harch, hin⟩ := hmem e he
      obtain ⟨hshown, hname, -⟩ := (hlisted c).mp hc
      obtain ⟨cs, j, hcs, hj, rfl⟩ := harch.sound e hin
      rw [descend_childPath p hname] at hj ⊢
      exact ⟨c :: cs, j, listed_cons.mpr ⟨⟨hname, hshown⟩, hcs⟩, hj, rfl⟩
  · cases cs with
    | nil =>
      rw [descend_nil] at hj ⊢
      obtain rfl : i = j := Option.some.inj (hi.symm.trans hj)
      exact List.mem_cons_self
    | cons c cs =>
      obtain ⟨⟨hname, hshown⟩, hrest⟩ := listed_cons.mp hcs
      rw [← descend_childPath p hname] at hj ⊢
      have hchild : childPath p c ∈ fs.nodes := by
        by_contra habsent
        have hnone := h.none_within (childPath_valid (h.tree.alloc.valid hi) hname) habsent hrest.valid
        rw [coreAt_eq_none] at hnone
        exact hnone (mem_nodes_iff.mpr ⟨j, hj⟩)
      obtain ⟨entries, harch, hsub⟩ := hhas c ((hlisted c).mpr ⟨hshown, hname, hchild⟩)
      exact List.mem_cons_of_mem _ (hsub _ (harch.complete cs j hrest hj))

theorem archives_appendTarPath (h : fs.Copyable) (hkeeps : format.Keeps fs) {rounds depth : Nat} {p : String} (hp : p ∈ fs.nodes)
    (hshown : ShownPath p) (henough : Enough rounds depth p fs) :
    Triple (SameTree fs) (appendTarPath memFs format rounds depth p) fun entries s => SameTree fs s ∧ Archives format fs p entries := by
  induction depth generalizing p with
  | zero =>
    have hdeep := henough.deep [] (fun c hc => absurd hc List.not_mem_nil) (by rw [descend_nil]; exact hp)
    exact absurd hdeep (Nat.not_lt_zero _)
  | succ depth ih =>
    intro s hs
    obtain ⟨i, hi⟩ := mem_nodes_iff.mp hp
    have hvalid := h.tree.alloc.valid hi
    have hi' : s.nodes[p]? = some i := by rw [hs.nodes, hi]
    have hcore := hs.core i
    have hcoreAt : fs.coreAt p = some (fs.heap i).core := coreAt_eq_some.mpr ⟨i, hi, rfl⟩
    have happend := (hkeeps.paths p hp hshown).1
    have hmode : (s.heap i).metadata.mode = (fs.heap i).metadata.mode := congrArg NodeCore.mode hcore
    rw [appendTarPath, bind_ok (freeLstat_of_mem hvalid hi')]
    cases hlink : (fs.heap i).metadata.mode.isSymlink with
    | true =>
      have hlink' : (s.heap i).metadata.mode.isSymlink = true := by rw [hmode, hlink]
      have hdata : (s.heap i).data = (fs.heap i).data := congrArg NodeCore.data hcore
      have hread : memFs.readlink p s = _ := readlink_of_symlink hvalid hi' hlink'
      have hset := (hkeeps.targets p i hi hshown hlink).1
      have hentry := hs.tarEntry format p i
      rw [NodeInner.tarEntry, if_pos hlink', hdata] at hentry
      rw [if_pos hlink', bind_ok hread, hdata, hset, happend]
      refine ⟨_, s, rfl, hs, ?_⟩
      rw [hentry]
      exact archives_leaf h hi ((isDirNode_eq hcoreAt).trans ((h.plain hcoreAt).oneKind hlink))
    | false =>
      have hlink' : ¬(s.heap i).metadata.mode.isSymlink = true := by rw [hmode, hlink]; decide
      rw [if_neg hlink']
      cases hdir : (fs.heap i).metadata.isDir with
      | true =>
        have hdir' : (s.heap i).metadata.isDir = true := by rw [Metadata.isDir, hmode]; exact hdir
        have hlist : memFs.freeReadDir p s = _ := readDir_of_dirNode hvalid hi' hdir' (by rw [hmode, hlink])
        have hentry := hs.tarEntry format p i
        rw [NodeInner.tarEntry, if_neg hlink', if_pos hdir'] at hentry
        have hlisted (c : String) := mem_listing (hs.copyable h).tree.alloc (hs.copyable h).tree.tree.parentClosed (p := p) (c := c)
        rw [hs.nodes] at hlisted
        have hbelow : Triple (SameTree fs) ((s.listing p).mapM fun entry => appendTarPath memFs format rounds depth (childPath p entry.name))
            fun children s' => SameTree fs s' ∧ List.Forall₂ (fun entry => Archives format fs (childPath p entry.name)) (s.listing p) children := by
          refine triple_mapM_forall₂ fun entry hentry => ?_
          obtain ⟨hhidden, hname, hmem⟩ := (hlisted entry.name).mp (List.mem_map_of_mem hentry)
          refine ih hmem (fun c hc => ?_) (henough.child ⟨hname, hhidden⟩)
          rw [components_childPath p hname, List.mem_append, List.mem_singleton] at hc
          rcases hc with hc | rfl
          · exact hshown c hc
          · exact hhidden
        obtain ⟨children, s', hchildren, hs', harch⟩ := hbelow s hs
        rw [if_pos hdir', happend]
        refine ⟨(fs.heap i).tarEntry format p :: children.flatten, s', ?_, hs', ?_⟩
        · show (memFs.freeReadDir p >>= _) s = _
          rw [bind_ok hlist, bind_ok hchildren, hentry]
          rfl
        · exact archives_dir h hi hlisted (List.forall₂_map_left_iff.mpr harch)
      | false =>
        have hdir' : ¬(s.heap i).metadata.isDir = true := by rw [Metadata.isDir, hmode]; simpa [Metadata.isDir] using hdir
        have hdata : (s.heap i).data = (fs.heap i).data := congrArg NodeCore.data hcore
        have hentry := hs.tarEntry format p i
        rw [NodeInner.tarEntry, if_neg hlink', if_neg hdir', hdata] at hentry
        have hfits : (s.heap i).data.length < 2 ^ 64 := by
          have hlen := (h.plain hcoreAt).fits hlink
          rw [hdata]
          exact Nat.lt_of_le_of_lt hlen (by unfold isizeMax; norm_num)
        rw [if_neg hdir']
        rcases readFile_cases hvalid hi' (by rw [hmode, hlink]) (by simpa using hdir') hfits rounds with ⟨-, hshort⟩ | hread
        · have hlong := henough.long [] (fun c hc => absurd hc List.not_mem_nil) (fs.heap i).core (by rw [descend_nil]; exact hcoreAt) hlink hdir
          have hlen : (s.heap i).data.length = (fs.heap i).core.data.length := congrArg List.length hdata
          omega
        · rw [bind_ok hread, hdata, happend]
          refine ⟨[(fs.heap i).tarEntry format p], _, ?_, hs.setName i (baseName p), archives_leaf h hi ((isDirNode_eq hcoreAt).trans hdir)⟩
          rw [← hentry]
          rfl

/-! ## What is read back -/

/-- The nodes of the tree that listings lead to, and nothing but them. -/
structure ReadBack (fs : MemFs) (t : TarFs) : Prop where
  top : t.nodes["."]? = some ((⟨Metadata.dir "." 0o755, [], none⟩ : TarNode).setSize (2 + (fs.listing ".").length))
  nodes : ∀ p, p ≠ "." → ShownPath p → t.nodes[p]? = (fs.nodes[p]?).map fun i => (fs.heap i).archived p (fs.listing p).length
  hidden : ∀ p, p ≠ "." → ¬ShownPath p → t.nodes[p]? = none
  children : ∀ p ∈ fs.nodes, ShownPath p → ((t.childrenFor p).map (·.name)).Perm ((fs.listing p).map (·.name))

theorem shownPath_of_within {p q : String} (h : within p q = true) (hq : ShownPath q) : ShownPath p := by
  obtain ⟨cs, hcs⟩ := within_iff.mp h
  intro c hc
  refine hq c ?_
  rw [hcs]
  exact List.mem_append_left _ hc

theorem shownPath_childPath {p c : String} (hc : ValidName c) : ShownPath (childPath p c) ↔ ShownPath p ∧ hiddenName c = false := by
  unfold ShownPath
  rw [components_childPath p hc, List.forall_mem_append]
  exact and_congr_right fun _ => List.forall_mem_singleton

/-- Of the names below a path, those that a listing shows come first on a shown path of the tree. -/
theorem mem_listing_of_shown (h : fs.Copyable) {p c : String} (hshown : ShownPath p) :
    c ∈ (fs.listing p).map (·.name) ↔ ∃ q, (q ∈ fs.nodes ∧ ShownPath q) ∧ ∃ cs, components q = components p ++ c :: cs := by
  rw [mem_listing h.tree.alloc h.tree.tree.parentClosed]
  constructor
  · rintro ⟨hhidden, hname, hmem⟩
    exact ⟨childPath p c, ⟨hmem, (shownPath_childPath hname).mpr ⟨hshown, hhidden⟩⟩, [], components_childPath p hname⟩
  · rintro ⟨q, ⟨hmem, hq⟩, cs, hcs⟩
    obtain ⟨i, hi⟩ := mem_nodes_iff.mp hmem
    have hc : c ∈ components q := by
      rw [hcs]
      exact List.mem_append_right _ List.mem_cons_self
    have hname := validName_of_mem_components (h.tree.alloc.valid hi) hc
    refine ⟨hq c hc, hname, ?_⟩
    have hwithin : within (childPath p c) q = true := by
      rw [within_iff, components_childPath p hname, hcs]
      exact ⟨cs, by rw [List.append_assoc, List.singleton_append]⟩
    rcases within_iff_below.mp hwithin with heq | hbelow
    · exact heq ▸ hmem
    · exact h.tree.tree.parentClosed.mem_of_below h.tree.alloc hmem (childPath_ne_dot p hname) hbelow

section
variable (h : fs.Copyable) {nodes : TarNodes} (hnodes : ∀ q, q ∈ nodes ↔ q = "." ∨ (q ∈ fs.nodes ∧ ShownPath q))
include h hnodes

theorem valid_of_mem_read (q : String) (hq : q ∈ nodes) : validPath q = true := by
  rcases (hnodes q).mp hq with rfl | ⟨hmem, -⟩
  · decide
  · obtain ⟨i, hi⟩ := mem_nodes_iff.mp hmem
    exact h.tree.alloc.valid hi

theorem perm_listing {p : String} (hshown : ShownPath p) :
    ((tarRests nodes p).map tarChildName).eraseDups.Perm ((fs.listing p).map (·.name)) := by
  refine (List.perm_ext_iff_of_nodup (nodup_eraseDups _) (listing_nodup fs p)).mpr fun c => ?_
  rw [List.mem_eraseDups, mem_tarChildNames (valid_of_mem_read h hnodes), mem_listing_of_shown h hshown]
  refine exists_congr fun q => and_congr_left fun ⟨cs, hcs⟩ => ?_
  rw [hnodes q]
  refine or_iff_right fun hdot => ?_
  rw [hdot, components_dot] at hcs
  exact List.cons_ne_nil _ _ (List.append_eq_nil_iff.mp hcs.symm).2

theorem names_childrenFor {p : String} (hshown : ShownPath p) :
    (((⟨nodes⟩ : TarFs).childrenFor p).map (·.name)).Perm ((fs.listing p).map (·.name)) := by
  have hall : (tarRests nodes p).filter (· ≠ "") = tarRests nodes p := by
    refine List.filter_eq_self.mpr fun rest hrest => ?_
    exact decide_eq_true (ne_empty_of_mem_tarRests (valid_of_mem_read h hnodes) hrest)
  rw [TarFs.childrenFor, hall, List.map_map]
  simpa [Function.comp_def] using perm_listing h hnodes hshown

end

theorem sized_archived (p : String) (n : NodeInner) (size : Nat) :
    (if (n.archived p 0).metadata.isDir = true then (n.archived p 0).setSize (2 + size) else n.archived p 0) = n.archived p size := by
  rw [NodeInner.isDir_archived]
  unfold NodeInner.archived
  cases hlink : n.metadata.mode.isSymlink with
  | true => rfl
  | false =>
    cases hdir : n.metadata.isDir with
    | true => rfl
    | false => rfl

theorem listedNames_components {p : String} (hp : validPath p = true) (hshown : ShownPath p) : ListedNames (components p) :=
  fun c hc => ⟨validName_of_mem_components hp hc, hshown c hc⟩

/-- The entries of an archive read as the tree they were made from. -/
theorem readBack_of_archives (h : fs.Copyable) (hkeeps : format.Keeps fs) {entries : List TarEntry}
    (harch : Archives format fs "." entries) : ∃ t, TarFs.fromReader entries = .ok t ∧ ReadBack fs t := by
  let path : TarEntry → String := fun e => e.path.toOption.getD "."
  let node : String → TarNode := fun p => ((fs.nodes[p]?).map fun i => (fs.heap i).archived p 0).getD (.dir p)
  have hentry : ∀ e ∈ entries, ∃ p i, (fs.nodes[p]? = some i ∧ ShownPath p) ∧ e = (fs.heap i).tarEntry format p ∧ path e = p ∧ ReadsAs e p (node p) := by
    intro e he
    obtain ⟨names, i, hnames, hi, rfl⟩ := harch.sound e he
    have hshown : ShownPath (descend "." names) := by
      intro c hc
      rw [components_descend (by decide) hnames.valid, components_dot, List.nil_append] at hc
      exact (hnames c hc).2
    have hreads := readsAs_tarEntry hkeeps (h.tree.alloc.valid hi) hshown hi
    refine ⟨_, i, ⟨hi, hshown⟩, rfl, ?_, ?_⟩
    · show ((fs.heap i).tarEntry format _).path.toOption.getD "." = _
      rw [hreads.path]
      rfl
    · show ReadsAs _ _ (((fs.nodes[_]?).map fun i => (fs.heap i).archived _ 0).getD _)
      rw [hi]
      exact hreads
  have hpaths : ∀ p, p ∈ entries.map path ↔ p ∈ fs.nodes ∧ ShownPath p := by
    intro p
    rw [List.mem_map]
    constructor
    · rintro ⟨e, he, rfl⟩
      obtain ⟨p, i, ⟨hi, hshown⟩, -, hpath, -⟩ := hentry e he
      rw [hpath]
      exact ⟨mem_nodes_iff.mpr ⟨i, hi⟩, hshown⟩
    · rintro ⟨hmem, hshown⟩
      obtain ⟨i, hi⟩ := mem_nodes_iff.mp hmem
      have hvalid := h.tree.alloc.valid hi
      have hp : descend "." (components p) = p := by rw [descend, components_dot, List.nil_append, ofComponents_components]
      have hin := harch.complete (components p) i (listedNames_components hvalid hshown) (by rw [hp, hi])
      rw [hp] at hin
      refine ⟨_, hin, ?_⟩
      show ((fs.heap i).tarEntry format p).path.toOption.getD "." = p
      rw [(readsAs_tarEntry hkeeps hvalid hshown hi).path]
      rfl
  have hreadsAs : ∀ e ∈ entries, ReadsAs e (path e) (node (path e)) := by
    intro e he
    obtain ⟨p, i, -, -, hpath, hreads⟩ := hentry e he
    rw [hpath]
    exact hreads
  obtain ⟨nodes, hread, htop, hnodes⟩ := readTarEntries_eq entries hreadsAs TarFs.root
  have hroot : ∀ q, TarFs.root[q]? = if q = "." then some ⟨Metadata.dir "." 0o755, [], none⟩ else none := by
    intro q
    rw [TarFs.root, getElem?_insert_eq]
    rfl
  have habsent : ∀ q, q ≠ "." → ¬(q ∈ fs.nodes ∧ ShownPath q) → nodes[q]? = none := by
    intro q hdot hq
    rcases (hnodes q hdot).2 (fun hmem => hq ((hpaths q).mp hmem)) with hkept | ⟨-, e, he, hbelow⟩
    · rw [hkept, hroot, if_neg hdot]
    · obtain ⟨hmem, hshown⟩ := (hpaths _).mp (List.mem_map_of_mem he)
      exact absurd ⟨h.tree.tree.parentClosed.mem_of_below h.tree.alloc hmem hdot hbelow, shownPath_of_within (within_of_below hbelow) hshown⟩ hq
  have hmem : ∀ q, q ∈ nodes ↔ q = "." ∨ (q ∈ fs.nodes ∧ ShownPath q) := by
    intro q
    rw [← Std.ExtTreeMap.isSome_getElem?_iff_mem]
    by_cases hdot : q = "."
    · rw [hdot, htop, hroot]
      exact iff_of_true rfl (.inl rfl)
    · by_cases hq : q ∈ fs.nodes ∧ ShownPath q
      · rw [(hnodes q hdot).1 ((hpaths q).mpr hq)]
        exact iff_of_true rfl (.inr hq)
      · rw [habsent q hdot hq]
        exact iff_of_false Bool.false_ne_true (not_or.mpr ⟨hdot, hq⟩)
  have hsize : ∀ p, ShownPath p → ((tarRests nodes p).map tarChildName).eraseDups.length = (fs.listing p).length := by
    intro p hshown
    rw [(perm_listing h hmem hshown).length_eq, List.length_map]
  have hfinal := getElem?_recomputeTarDirSizes nodes
  refine ⟨⟨recomputeTarDirSizes nodes⟩, by rw [TarFs.fromReader, hread]; rfl, ?_, fun p hdot hshown => ?_, fun p hdot hnot => ?_, fun p hp hshown => ?_⟩
  · rw [hfinal, htop, hroot, hsize "." fun c hc => absurd hc (by rw [components_dot]; exact List.not_mem_nil)]
    rfl
  · rw [hfinal, hsize p hshown]
    by_cases hp : p ∈ fs.nodes
    · obtain ⟨i, hi⟩ := mem_nodes_iff.mp hp
      have hnode : node p = (fs.heap i).archived p 0 := by
        show ((fs.nodes[p]?).map _).getD _ = _
        rw [hi]
        rfl
      rw [(hnodes p hdot).1 ((hpaths p).mpr ⟨hp, hshown⟩), hi, hnode, Option.map_some, Option.map_some, sized_archived]
    · rw [habsent p hdot fun hq => hp hq.1, Std.ExtTreeMap.getElem?_eq_none hp]
      rfl
  · rw [hfinal, habsent p hdot fun hq => hnot hq.2]
    rfl
  · refine names_childrenFor h (fun q => ?_) hshown
    rw [← hmem q, ← Std.ExtTreeMap.isSome_getElem?_iff_mem, ← Std.ExtTreeMap.isSome_getElem?_iff_mem, hfinal, Option.isSome_map]

/-- A builder that has no room for long targets and keeps what it has room for. -/
def shortLinks : TarFormat where
  setLinkName target := if (utf8Bytes target).length ≤ 100 then .ok () else .error (.kind .other)
  appendData _ := .ok ()
  headerPath path := path
  headerLinkName target := target

theorem shortLinks_keeps : shortLinks.Keeps copyTree where
  paths _ _ _ := ⟨rfl, rfl⟩
  targets p i hi _ _ := by
    have hfits : ∀ kv ∈ copyTree.nodes.toList, (utf8Bytes (utf8Lossy (copyTree.heap kv.2).data)).length ≤ 100 := by decide +kernel
    exact ⟨if_pos (hfits (p, i) (Std.ExtTreeMap.mem_toList_iff_getElem?_eq_some.mpr hi)), rfl⟩
  times p i hi := by
    have hall : ∀ kv ∈ copyTree.nodes.toList, HttpFs.unixSecs (copyTree.heap kv.2).metadata.modified < 2 ^ 63 := by decide +kernel
    exact hall (p, i) (Std.ExtTreeMap.mem_toList_iff_getElem?_eq_some.mpr hi)

end MemFs

end Star9
