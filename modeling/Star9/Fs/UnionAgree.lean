import Star9.Fs.UnionViews

/-!
# The views of a union

Stat takes the first layer that has a path, and open looks at all of them. They agree when
nothing but directories is under a directory, one of which lists something, and when the layer
that a merged listing takes an entry from agrees with the first that has its path.
-/
namespace Star9
open Base Prog MemFs

/-! ## The last entry of a name -/

theorem getElem?_foldl_dedupeStep (l : List DirEntry) (hvisible : ∀ e ∈ l, hiddenName e.name = false)
    (m : Std.ExtTreeMap String DirEntry) (c : String) :
    (l.foldl dedupeStep m)[c]? = ((l.filter fun e => e.name = c).getLast?).or m[c]? := by
  induction l generalizing m with
  | nil => simp
  | cons e l ih =>
    have hstep : dedupeStep m e = m.insert e.name e := by
      have hshow := hvisible e List.mem_cons_self
      rw [hiddenName] at hshow
      rw [dedupeStep, hshow]
      rfl
    rw [List.foldl_cons, ih (fun d hd => hvisible d (List.mem_cons_of_mem e hd)), hstep, Std.ExtTreeMap.getElem?_insert]
    by_cases hname : e.name = c
    · rw [if_pos (Std.LawfulEqCmp.compare_eq_iff_eq.mpr hname), List.filter_cons_of_pos (by simpa using hname), List.getLast?_cons]
      cases (l.filter fun e => e.name = c).getLast? <;> rfl
    · rw [if_neg (fun heq => hname (Std.LawfulEqCmp.compare_eq_iff_eq.mp heq)), List.filter_cons_of_neg (by simpa using hname)]

/-- A merged listing has the last entry of each name. -/
theorem mem_sortEntries_dedupeSortHide {l : List DirEntry} (hvisible : ∀ e ∈ l, hiddenName e.name = false) {e : DirEntry} :
    e ∈ FileSystem.sortEntries (dedupeSortHide l) ↔ (l.filter fun x => x.name = e.name).getLast? = some e := by
  have hget : ∀ c : String, (l.foldl dedupeStep ∅)[c]? = (l.filter fun x => x.name = c).getLast? := by
    intro c
    rw [getElem?_foldl_dedupeStep l hvisible]
    simp
  have hmem : e ∈ dedupeSortHide l ↔ ∃ c : String, (l.foldl dedupeStep ∅)[c]? = some e := by
    have hmap : dedupeSortHide l = (l.foldl dedupeStep ∅).toList.map (·.2) := rfl
    rw [hmap, List.mem_map]
    constructor
    · rintro ⟨kv, hkv, rfl⟩
      exact ⟨kv.1, Std.ExtTreeMap.mem_toList_iff_getElem?_eq_some.mp hkv⟩
    · rintro ⟨c, hc⟩
      exact ⟨(c, e), Std.ExtTreeMap.mem_toList_iff_getElem?_eq_some.mpr hc, rfl⟩
  rw [FileSystem.sortEntries, (List.mergeSort_perm _ _).mem_iff, hmem]
  constructor
  · rintro ⟨c, hc⟩
    rw [hget] at hc
    have hname : e.name = c := by
      simpa using (List.mem_filter.mp (List.mem_of_getLast? hc)).2
    rw [hname]
    exact hc
  · intro h
    exact ⟨e.name, by rw [hget, h]⟩

namespace UnionFs

/-! ## What the layers answer -/

/-- What a layer adds to a merge: nothing if it does not have the path, and what it lists if this
is a directory. Something else ends the merge. -/
def adds (ctx : FsContext) (name : String) (fs : MemFs) : Option (List DirEntry) :=
  match fs.answer ctx name with
  | .ok metadata => if metadata.isDir then fs.entriesAt ctx name else none
  | .err _ => some []
  | .abort => none

def merged (ctx : FsContext) (name : String) (w : LayerWorld) : List Nat → Option (List DirEntry)
  | [] => some []
  | i :: layers => do
    let entries ← adds ctx name (w i)
    let more ← merged ctx name w layers
    some (entries ++ more)

/-- The first layer that has the path has no directory there; or all layers merge, and there is
something to list, or the path is the root. The root is somewhere. -/
def OpensLikeStat (ctx : FsContext) (name : String) (w : LayerWorld) : List Nat → Prop
  | [] => name ≠ "."
  | i :: layers =>
    match (w i).answer ctx name with
    | .ok metadata => metadata.isDir → ∃ entries, merged ctx name w (i :: layers) = some entries ∧ (entries ≠ [] ∨ name = ".")
    | .err _ => OpensLikeStat ctx name w layers
    | .abort => True

/-- The first layer that has a path has there what the entry says. -/
def FirstHas (ctx : FsContext) (name : String) (e : DirEntry) (w : LayerWorld) : List Nat → Prop
  | [] => False
  | i :: layers =>
    match (w i).answer ctx name with
    | .ok metadata => metadata.kind = e.metadata.kind ∧ metadata.size = e.metadata.size
    | .err _ => FirstHas ctx name e w layers
    | .abort => False

/-- Of what the layers list under a name the last is what the first layer has. -/
def ListsLikeStat (ctx : FsContext) (name : String) (w : LayerWorld) (layers : List Nat) : Prop :=
  ∀ entries, merged (readContext ctx name) name w layers = some entries →
    ∀ e, (entries.filter fun x => x.name = e.name).getLast? = some e → FirstHas ctx (childPath name e.name) e w layers

/-- Stat succeeds if and only if open does, and then they say the same kind. -/
structure OpenAgrees (statted : Outcome Error Metadata) (opened : Outcome Error UnionFile) : Prop where
  succeeds : (∃ m, statted = .ok m) ↔ ∃ f, opened = .ok f
  kind : ∀ m f, statted = .ok m → opened = .ok f → m.kind = f.metadata.kind

/-- Stat, open and the listing of a path say the same. -/
structure Agrees (u : UnionFs) (ctx : FsContext) (name : String) (w : LayerWorld) : Prop where
  opens : OpenAgrees (u.stat ctx name w).1 (u.open_ ctx name w).1
  lists : ∀ entries, (u.readDir ctx name w).1 = .ok entries → ∀ e ∈ entries, ∃ m,
    (u.stat ctx (childPath name e.name) w).1 = .ok m ∧ m.kind = e.metadata.kind ∧ m.size = e.metadata.size

theorem openAgrees_of_ok {statted : Outcome Error Metadata} {opened : Outcome Error UnionFile} {m : Metadata} (h : statted = .ok m) :
    OpenAgrees statted opened ↔ ∃ f, opened = .ok f ∧ m.kind = f.metadata.kind := by
  constructor
  · intro hagrees
    obtain ⟨f, hf⟩ := hagrees.succeeds.mp ⟨m, h⟩
    exact ⟨f, hf, hagrees.kind m f h hf⟩
  · rintro ⟨f, hf, hkind⟩
    refine ⟨iff_of_true ⟨m, h⟩ ⟨f, hf⟩, fun m' f' hm' hf' => ?_⟩
    cases h.symm.trans hm'
    cases hf.symm.trans hf'
    exact hkind

theorem openAgrees_of_not_ok {statted : Outcome Error Metadata} {opened : Outcome Error UnionFile} (h : ∀ m, statted ≠ .ok m) :
    OpenAgrees statted opened ↔ ∀ f, opened ≠ .ok f := by
  constructor
  · intro hagrees f hf
    obtain ⟨m, hm⟩ := hagrees.succeeds.mpr ⟨f, hf⟩
    exact h m hm
  · intro hopened
    refine ⟨iff_of_false ?_ ?_, fun m f hm => absurd hm (h m)⟩
    · rintro ⟨m, hm⟩
      exact h m hm
    · rintro ⟨f, hf⟩
      exact hopened f hf

section
variable {ctx : FsContext} {name : String} {w w' : LayerWorld} {i : Nat} {layers : List Nat}

/-- Two worlds apart from the names of nodes. -/
def SameFacts (w w' : LayerWorld) : Prop := ∀ i, (w i).facts = (w' i).facts

theorem SameFacts.answer (h : SameFacts w w') (i : Nat) (ctx : FsContext) (name : String) :
    (w i).answer ctx name = (w' i).answer ctx name := by
  rw [← answer_facts, h i, answer_facts]

theorem SameFacts.entriesAt (h : SameFacts w w') (i : Nat) (ctx : FsContext) (name : String) :
    (w i).entriesAt ctx name = (w' i).entriesAt ctx name := by
  rw [← entriesAt_facts, h i, entriesAt_facts]

/-! ## Stat -/

theorem onLayer_same {α : Type} {p : Prog MemFs Error α} {r : Outcome Error α} (h : p (w i) = (r, w i)) : onLayer i p w = (r, w) := by
  rw [onLayer, zoom_apply, h, Function.update_eq_self]

theorem statLayers_absent (h : (w i).answer ctx name = .err ()) :
    statLayers ctx name (i :: layers) w = statLayers ctx name layers w := by
  obtain ⟨e, he, hkind⟩ := stat_of_absent h
  rw [statLayers, bind_ok (attempt_err (onLayer_same he))]
  dsimp only
  rw [if_pos hkind]

theorem statLayers_abort (h : (w i).answer ctx name = .abort) : statLayers ctx name (i :: layers) w = (.abort, w) := by
  rw [statLayers, bind_abort (attempt_abort (onLayer_same (stat_of_abort h)))]

theorem statLayers_ok (layers : List Nat) {m : Metadata} (h : (w i).answer ctx name = .ok m) :
    ∃ m', statLayers ctx name (i :: layers) w = (.ok m', w) ∧ m = { m' with name := "" } := by
  obtain ⟨m', hm', hm⟩ := stat_of_ok h
  refine ⟨m', ?_, hm⟩
  rw [statLayers, bind_ok (attempt_ok (onLayer_same hm'))]
  rfl

/-- Stat of a path is that of the first layer that has it. -/
theorem statLayers_firstHas_iff (layers : List Nat) (e : DirEntry) : FirstHas ctx name e w layers ↔
    ∃ m, (statLayers ctx name layers w).1 = .ok m ∧ m.kind = e.metadata.kind ∧ m.size = e.metadata.size := by
  induction layers with
  | nil =>
    constructor
    · exact False.elim
    · rintro ⟨m, h, -⟩
      cases h
  | cons i layers ih =>
    unfold FirstHas
    cases hanswer : (w i).answer ctx name with
    | err u =>
      rw [statLayers_absent hanswer]
      exact ih
    | abort =>
      rw [statLayers_abort hanswer]
      constructor
      · exact False.elim
      · rintro ⟨m, h, -⟩
        cases h
    | ok m =>
      obtain ⟨m', hstat, rfl⟩ := statLayers_ok layers hanswer
      rw [hstat]
      constructor
      · intro h
        exact ⟨m', rfl, h⟩
      · rintro ⟨m, hm, h⟩
        cases hm
        exact h

/-! ## Open -/

theorem openLayers_absent (h : (w i).answer ctx name = .err ()) (entries : List DirEntry) :
    openLayers ctx name (i :: layers) entries w = openLayers ctx name layers entries w := by
  obtain ⟨e, he, hkind⟩ := stat_of_absent h
  rw [openLayers, bind_ok (attempt_err (onLayer_same he))]
  dsimp only
  rw [if_pos hkind]

theorem openLayers_abort (h : (w i).answer ctx name = .abort) (entries : List DirEntry) :
    openLayers ctx name (i :: layers) entries w = (.abort, w) := by
  rw [openLayers, bind_abort (attempt_abort (onLayer_same (stat_of_abort h)))]

/-- What is no directory is opened by its layer. -/
theorem openLayers_file (layers : List Nat) {m : Metadata} (h : (w i).answer ctx name = .ok m) (hfile : m.isDir = false)
    (entries : List DirEntry) :
    ∃ f : NodeFile, (openLayers ctx name (i :: layers) entries w).1 = .ok (.layer i (.node f)) ∧ f.metadata.mode = m.mode := by
  obtain ⟨m', hm', hm⟩ := stat_of_ok h
  obtain ⟨f, fs', hopen, hmode⟩ := open_of_answer_file h hfile
  have hnot : ¬ m'.isDir = true := by
    rw [hm] at hfile
    exact Bool.eq_false_iff.mp hfile
  have hlayer : onLayer i (MemFs.open_ ctx name) w = (.ok (.node f), Function.update w i fs') := by rw [onLayer, zoom_apply, hopen]
  refine ⟨f, ?_, hmode⟩
  rw [openLayers, bind_ok (attempt_ok (onLayer_same hm'))]
  dsimp only
  rw [if_neg hnot, bind_ok hlayer]
  rfl

/-- What is a directory is listed, which may change a name. -/
theorem openLayers_dir (layers : List Nat) {m : Metadata} (h : (w i).answer ctx name = .ok m) (hdir : m.isDir = true)
    (entries : List DirEntry) :
    ((w i).entriesAt ctx name = none ∧ (openLayers ctx name (i :: layers) entries w).1 = .abort) ∨
      ∃ found w', (w i).entriesAt ctx name = some found ∧ SameFacts w w' ∧
        openLayers ctx name (i :: layers) entries w = openLayers ctx name layers (entries ++ found) w' := by
  obtain ⟨m', hm', hm⟩ := stat_of_ok h
  have hyes : m'.isDir = true := by
    rw [hm] at hdir
    exact hdir
  have hfacts := (readDir_eq (w i) ctx name).2
  have hsame : SameFacts w (Function.update w i (MemFs.readDir ctx name (w i)).2) := by
    intro j
    by_cases hj : j = i
    · subst hj
      rw [Function.update_self, hfacts]
    · rw [Function.update_of_ne hj]
  have hlayer : onLayer i (MemFs.readDir ctx name) w = ((MemFs.readDir ctx name (w i)).1, Function.update w i (MemFs.readDir ctx name (w i)).2) := rfl
  rw [openLayers, bind_ok (attempt_ok (onLayer_same hm'))]
  dsimp only
  rw [if_pos hyes, MemFs.entriesAt]
  cases hr : (MemFs.readDir ctx name (w i)).1 with
  | ok found =>
    rw [hr] at hlayer
    exact .inr ⟨found, _, rfl, hsame, by rw [bind_ok (attempt_ok hlayer)]; rfl⟩
  | err e =>
    rw [hr] at hlayer
    exact .inr ⟨[], _, rfl, hsame, by rw [bind_ok (attempt_err hlayer)]; rfl⟩
  | abort =>
    rw [hr] at hlayer
    exact .inl ⟨rfl, by rw [bind_abort (attempt_abort hlayer)]⟩

theorem SameFacts.trans {w'' : LayerWorld} (h : SameFacts w w') (h' : SameFacts w' w'') : SameFacts w w'' := fun i => (h i).trans (h' i)

theorem merged_cons {found : List DirEntry} (h : merged ctx name w (i :: layers) = some found) :
    ∃ entries more, adds ctx name (w i) = some entries ∧ merged ctx name w layers = some more ∧ found = entries ++ more := by
  obtain ⟨entries, hadds, hrest⟩ := Option.bind_eq_some_iff.mp h
  obtain ⟨more, hmore, hfound⟩ := Option.bind_eq_some_iff.mp hrest
  exact ⟨entries, more, hadds, hmore, (Option.some.inj hfound).symm⟩

/-- Layers that merge are opened as one directory. -/
theorem openLayers_merged {found : List DirEntry} (h : merged ctx name w layers = some found) (hsame : SameFacts w w')
    (entries : List DirEntry) : (openLayers ctx name layers entries w').1 =
      if entries ++ found ≠ [] ∨ name = "." then .ok (.dir (DirFile.new (Metadata.dir (baseName name) 0o555) (entries ++ found)))
      else .err (.path "open" name .notFound) := by
  induction layers generalizing w' entries found with
  | nil =>
    cases h
    rw [List.append_nil, openLayers, branch_apply]
    split <;> rfl
  | cons i layers ih =>
    obtain ⟨first, more, hadds, hmore, rfl⟩ := merged_cons h
    rw [← List.append_assoc]
    cases hanswer : (w i).answer ctx name with
    | err u =>
      rw [adds, hanswer] at hadds
      cases hadds
      rw [openLayers_absent ((hsame.answer i ctx name).symm.trans hanswer), List.append_nil]
      exact ih hmore hsame entries
    | abort =>
      rw [adds, hanswer] at hadds
      cases hadds
    | ok m =>
      rw [adds, hanswer] at hadds
      dsimp only at hadds
      split at hadds
      · rename_i hdir
        rw [hsame.entriesAt] at hadds
        obtain ⟨hnone, -⟩ | ⟨found, w'', hfound, hchanged, hopen⟩ :=
          openLayers_dir layers ((hsame.answer i ctx name).symm.trans hanswer) hdir entries
        · cases hadds.symm.trans hnone
        · cases hadds.symm.trans hfound
          rw [hopen]
          exact ih hmore (hsame.trans hchanged) _
      · cases hadds

/-- Layers that do not merge are opened as a file, or opening panics. -/
theorem openLayers_unmerged (h : merged ctx name w layers = none) (hsame : SameFacts w w') (entries : List DirEntry) :
    (openLayers ctx name layers entries w').1 = .abort ∨
      ∃ (i : Nat) (f : NodeFile), (openLayers ctx name layers entries w').1 = .ok (.layer i (.node f)) ∧ f.metadata.isDir = false := by
  induction layers generalizing w' entries with
  | nil => cases h
  | cons i layers ih =>
    have hmore : ∀ first, adds ctx name (w i) = some first → merged ctx name w layers = none := by
      intro first hfirst
      rw [merged, hfirst] at h
      cases hrest : merged ctx name w layers with
      | none => rfl
      | some more =>
        rw [hrest] at h
        cases h
    cases hanswer : (w i).answer ctx name with
    | err u =>
      rw [openLayers_absent ((hsame.answer i ctx name).symm.trans hanswer)]
      exact ih (hmore [] (by rw [adds, hanswer])) hsame entries
    | abort =>
      rw [openLayers_abort ((hsame.answer i ctx name).symm.trans hanswer)]
      exact .inl rfl
    | ok m =>
      cases hdir : m.isDir with
      | false =>
        obtain ⟨f, hopen, hmode⟩ := openLayers_file layers ((hsame.answer i ctx name).symm.trans hanswer) hdir entries
        refine .inr ⟨i, f, hopen, ?_⟩
        rw [Metadata.isDir, hmode]
        exact hdir
      | true =>
        obtain ⟨-, hopen⟩ | ⟨found, w'', hfound, hchanged, hopen⟩ :=
          openLayers_dir layers ((hsame.answer i ctx name).symm.trans hanswer) hdir entries
        · exact .inl hopen
        · have hadds : adds ctx name (w i) = some found := by
            rw [adds, hanswer]
            dsimp only
            rw [if_pos hdir, hsame.entriesAt]
            exact hfound
          rw [hopen]
          exact ih (hmore found hadds) (hsame.trans hchanged) _

/-! ## Agreement -/

theorem kind_of_file {m m' : Metadata} (h : m'.mode = m.mode) : m'.kind = m.kind := by
  rw [Metadata.kind, Metadata.kind, Metadata.isDir, Metadata.isDir, h]

theorem kind_eq_dir_iff {m : Metadata} : m.kind = .dir ↔ m.isDir = true := by
  unfold Metadata.kind
  cases m.isDir with
  | true => simp
  | false =>
    simp only [Bool.false_eq_true, if_false, iff_false]
    split_ifs <;> simp

theorem kind_merged (name : String) (entries : List DirEntry) :
    (UnionFile.dir (DirFile.new (Metadata.dir (baseName name) 0o555) entries)).metadata.kind = .dir := by
  rw [kind_eq_dir_iff]
  change ((Metadata.dir "" 0o555).mode ||| FileMode.dir).isDir = true
  decide

/-- Stat and open agree exactly then. -/
theorem opensLikeStat_iff (layers : List Nat) : OpensLikeStat ctx name w layers ↔
    OpenAgrees (statLayers ctx name layers w).1 (openLayers ctx name layers [] w).1 := by
  induction layers with
  | nil =>
    have hstat : ∀ m, (statLayers ctx name [] w).1 ≠ .ok m := fun _ => Outcome.err_ne_ok
    rw [openAgrees_of_not_ok hstat, openLayers, branch_apply, OpensLikeStat]
    by_cases hname : name = "."
    · rw [if_pos (.inr hname)]
      exact iff_of_false (fun h => h hname) fun h => h _ rfl
    · rw [if_neg (by simp [hname])]
      exact iff_of_true hname fun _ => Outcome.err_ne_ok
  | cons i layers ih =>
    rw [OpensLikeStat]
    cases hanswer : (w i).answer ctx name with
    | err u =>
      rw [statLayers_absent hanswer, openLayers_absent hanswer]
      exact ih
    | abort =>
      rw [statLayers_abort hanswer, openLayers_abort hanswer, openAgrees_of_not_ok fun _ => Outcome.abort_ne_ok]
      exact iff_of_true trivial fun _ => Outcome.abort_ne_ok
    | ok m =>
      obtain ⟨m', hstat, rfl⟩ := statLayers_ok layers hanswer
      rw [hstat, openAgrees_of_ok rfl]
      cases hdir : m'.isDir with
      | false =>
        obtain ⟨f, hopen, hmode⟩ := openLayers_file layers hanswer hdir []
        refine iff_of_true (fun h => ?_) ⟨_, hopen, (kind_of_file hmode).symm⟩
        cases hdir.symm.trans h
      | true =>
        rw [kind_eq_dir_iff.mpr hdir]
        cases hmerged : merged ctx name w (i :: layers) with
        | none =>
          refine iff_of_false ?_ ?_
          · intro h
            obtain ⟨entries, hentries, -⟩ := h hdir
            cases hentries
          · rintro ⟨f, hf, hkind⟩
            obtain habort | ⟨j, g, hg, hfile⟩ := openLayers_unmerged hmerged (fun _ => rfl) []
            · exact Outcome.abort_ne_ok (habort.symm.trans hf)
            · cases hg.symm.trans hf
              have hdirectory : g.metadata.isDir = true := kind_eq_dir_iff.mp hkind.symm
              cases hdirectory.symm.trans hfile
        | some entries =>
          have hopen := openLayers_merged hmerged (fun _ => rfl) []
          rw [List.nil_append] at hopen
          by_cases hsome : entries ≠ [] ∨ name = "."
          · rw [if_pos hsome] at hopen
            exact iff_of_true (fun _ => ⟨entries, rfl, hsome⟩) ⟨_, hopen, (kind_merged name entries).symm⟩
          · rw [if_neg hsome] at hopen
            refine iff_of_false ?_ ?_
            · intro h
              obtain ⟨entries', hentries, hnonempty⟩ := h hdir
              cases hentries
              exact hsome hnonempty
            · rintro ⟨f, hf, -⟩
              exact Outcome.err_ne_ok (hopen.symm.trans hf)

theorem merged_visible {entries : List DirEntry} (h : merged ctx name w layers = some entries) : ∀ e ∈ entries, hiddenName e.name = false := by
  induction layers generalizing entries with
  | nil =>
    cases h
    simp
  | cons i layers ih =>
    obtain ⟨first, more, hadds, hmore, rfl⟩ := merged_cons h
    intro e he
    cases List.mem_append.mp he with
    | inr hrest => exact ih hmore e hrest
    | inl hfirst =>
      unfold adds at hadds
      split at hadds
      · split at hadds
        · exact visible_of_entriesAt hadds hfirst
        · cases hadds
      · cases hadds
        cases hfirst
      · cases hadds

/-- A listing of a union is the merged listing of its layers. -/
theorem readDir_ok_iff (u : UnionFs) (ctx : FsContext) (name : String) (w : LayerWorld) (listed : List DirEntry) :
    (u.readDir ctx name w).1 = .ok listed ↔ ∃ entries, merged (readContext ctx name) name w u.layers = some entries ∧
      (entries ≠ [] ∨ name = ".") ∧ listed = FileSystem.sortEntries (dedupeSortHide entries) := by
  have hread : u.readDir ctx name w = ((do
      let f ← openLayers (readContext ctx name) name u.layers []
      let entries ← readDirFile f
      pure (FileSystem.sortEntries entries)) : Prog LayerWorld Error (List DirEntry)) w := rfl
  rw [hread]
  cases hmerged : merged (readContext ctx name) name w u.layers with
  | none =>
    refine iff_of_false (fun h => ?_) (by simp)
    obtain habort | ⟨i, f, hf, -⟩ := openLayers_unmerged hmerged (fun _ => rfl) []
    · rw [bind_abort (Prod.ext habort rfl)] at h
      exact Outcome.abort_ne_ok h
    · rw [bind_ok (Prod.ext hf rfl)] at h
      cases h
  | some entries =>
    have hopen := openLayers_merged hmerged (fun _ => rfl) []
    rw [List.nil_append] at hopen
    by_cases hsome : entries ≠ [] ∨ name = "."
    · rw [if_pos hsome] at hopen
      rw [bind_ok (Prod.ext hopen rfl)]
      constructor
      · intro h
        cases h
        exact ⟨entries, rfl, hsome, rfl⟩
      · rintro ⟨entries', hentries, -, rfl⟩
        cases hentries
        rfl
    · rw [if_neg hsome] at hopen
      rw [bind_err (Prod.ext hopen rfl)]
      refine iff_of_false Outcome.err_ne_ok ?_
      rintro ⟨entries', hentries, hnonempty, -⟩
      cases hentries
      exact hsome hnonempty

end

/-- The views of a union agree at a path if and only if its layers do: nothing but directories is
under a directory, one of them lists something, the root is there, and of what is listed under a
name the last is what the first layer has. -/
theorem agrees_iff (u : UnionFs) (ctx : FsContext) (name : String) (w : LayerWorld) :
    Agrees u ctx name w ↔ OpensLikeStat ctx name w u.layers ∧ ListsLikeStat ctx name w u.layers := by
  have hlists : (∀ entries, (u.readDir ctx name w).1 = .ok entries → ∀ e ∈ entries, ∃ m,
      (u.stat ctx (childPath name e.name) w).1 = .ok m ∧ m.kind = e.metadata.kind ∧ m.size = e.metadata.size) ↔
        ListsLikeStat ctx name w u.layers := by
    constructor
    · intro h entries hentries e he
      have hsome : entries ≠ [] := by
        rintro rfl
        cases he
      have hmem := (mem_sortEntries_dedupeSortHide (merged_visible hentries)).mpr he
      exact (statLayers_firstHas_iff u.layers e).mpr
        (h _ ((readDir_ok_iff u ctx name w _).mpr ⟨entries, hentries, .inl hsome, rfl⟩) e hmem)
    · intro h listed hlisted e he
      obtain ⟨entries, hentries, -, rfl⟩ := (readDir_ok_iff u ctx name w listed).mp hlisted
      have hlast := (mem_sortEntries_dedupeSortHide (merged_visible hentries)).mp he
      exact (statLayers_firstHas_iff u.layers e).mp (h entries hentries e hlast)
  have hopens : OpensLikeStat ctx name w u.layers ↔ OpenAgrees (u.stat ctx name w).1 (u.open_ ctx name w).1 := opensLikeStat_iff u.layers
  exact ⟨fun h => ⟨hopens.mpr h.opens, hlists.mp h.lists⟩, fun h => ⟨hopens.mp h.1, hlists.mpr h.2⟩⟩

/-- An empty directory in the first of two layers. -/
def emptyDirWorld : LayerWorld := fun i =>
  if i = 0 then (MemFs.mkdir "d" (FileMode.fromPerm 0o755) (MemFs.new fun _ => unixEpoch)).2 else MemFs.new fun _ => unixEpoch

/-- Stat has the directory, and open does not find it. -/
theorem not_agrees : ¬ ∀ (u : UnionFs) (ctx : FsContext) (name : String) (w : LayerWorld), validPath name = true → Agrees u ctx name w := by
  intro h
  have hagrees := (h { layers := [0, 1] } FsContext.new "d" emptyDirWorld (by decide)).opens
  have hstat : (stat { layers := [0, 1] } FsContext.new "d" emptyDirWorld).1.isOk = true := by decide +kernel
  have hopen : (open_ { layers := [0, 1] } FsContext.new "d" emptyDirWorld).1.isOk = false := by decide +kernel
  obtain ⟨m, hm⟩ : ∃ m, (stat { layers := [0, 1] } FsContext.new "d" emptyDirWorld).1 = .ok m := by
    cases hr : (stat { layers := [0, 1] } FsContext.new "d" emptyDirWorld).1 with
    | ok m => exact ⟨m, rfl⟩
    | err e =>
      rw [hr] at hstat
      cases hstat
    | abort =>
      rw [hr] at hstat
      cases hstat
  obtain ⟨f, hf⟩ := hagrees.succeeds.mp ⟨m, hm⟩
  rw [hf] at hopen
  cases hopen

end UnionFs
end Star9
