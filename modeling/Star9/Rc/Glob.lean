import Star9.Core.PathOrder
import Star9.Rc.Expand

/-!
# What a glob finds in a tree of directories

A glob reads a directory for every component of the pattern that has a wildcard, and takes
the others as they are. It looks from the directory that the text of the current directory
names, and what it shows is put together from the components alone.
-/
namespace Star9.Rc
open Base Prog

/-! ## Components -/

/-- A name that a component of a path can be. -/
def PathName (c : String) : Prop := c ≠ "" ∧ '/' ∉ c.toList

theorem PathName.splitSlash {c : String} (h : PathName c) : splitSlash c = [c] := by
  have hone := @splitSlash_joinSlash [c] (by simp) fun d hd => by
    cases List.mem_singleton.mp hd
    exact h.2
  rwa [show joinSlash [c] = c by simp [joinSlash]] at hone

/-- The component of a path that a component of a pattern stands for. -/
structure ComponentMatch (part c : String) : Prop where
  pattern : patternMatch part c = true
  hidden : c.toList.head? = some '.' → part.toList.head? = some '.'
  name : PathName c

theorem patternMatchInner_literal {pattern : List Char} (h : pattern.any (fun ch => ch = '*' || ch = '?' || ch = '[') = false)
    (value : List Char) {fuel : Nat} (hfuel : pattern.length ≤ fuel) : patternMatchInner fuel pattern value = decide (value = pattern) := by
  induction pattern generalizing value fuel with
  | nil => cases fuel <;> cases value <;> simp [patternMatchInner]
  | cons ch pattern ih =>
    obtain ⟨fuel, rfl⟩ := Nat.exists_eq_add_one_of_ne_zero (Nat.ne_zero_of_lt (Nat.lt_of_lt_of_le (Nat.zero_lt_succ _) hfuel))
    simp only [List.any_cons, Bool.or_eq_false_iff, decide_eq_false_iff_not] at h
    obtain ⟨⟨⟨hstar, hquestion⟩, hbracket⟩, hrest⟩ := h
    cases value with
    | nil =>
      rw [patternMatchInner.eq_def]
      split <;> simp_all
    | cons v rest =>
      have hstep : patternMatchInner (fuel + 1) (ch :: pattern) (v :: rest) = (ch = v && patternMatchInner fuel pattern rest) := by
        rw [patternMatchInner.eq_def]
        split <;> simp_all
      rw [hstep, ih hrest rest (Nat.le_of_succ_le_succ hfuel)]
      by_cases hv : ch = v
      · simp [hv]
      · simp [hv, Ne.symm hv]

theorem patternMatch_literal {part : String} (h : hasGlobChars part = false) (c : String) : patternMatch part c = decide (c = part) := by
  rw [patternMatch, patternMatchInner_literal h c.toList (Nat.le_add_right _ _)]
  simp [String.toList_inj]

/-- A component without wildcards stands for itself. -/
theorem ComponentMatch.eq {part c : String} (hmatch : ComponentMatch part c) (h : hasGlobChars part = false) : c = part := by
  have heq := hmatch.pattern
  rwa [patternMatch_literal h, decide_eq_true_eq] at heq

theorem componentMatch_self {part : String} (h : hasGlobChars part = false) (hpart : PathName part) : ComponentMatch part part :=
  ⟨by simp [patternMatch_literal h], id, hpart⟩

/-- The components of a path match those of a pattern one by one. -/
def Matches (parts cs : List String) : Prop := List.Forall₂ ComponentMatch parts cs

theorem Matches.names {parts cs : List String} (h : Matches parts cs) : ∀ c ∈ cs, PathName c := by
  induction h with
  | nil => simp
  | cons hc _ ih =>
    intro c hmem
    rcases List.mem_cons.mp hmem with rfl | hmem
    · exact hc.name
    · exact ih c hmem

/-! ## Texts of paths -/

/-- The text of a path from the root, or from the current directory. -/
def pathText (absolute : Bool) (cs : List String) : String := if absolute then "/" ++ joinSlash cs else ofComponents cs

theorem pathText_injective {absolute : Bool} {cs ds : List String} (hcs : ∀ c ∈ cs, PathName c) (hds : ∀ d ∈ ds, PathName d)
    (hlen : cs.length = ds.length) (h : pathText absolute cs = pathText absolute ds) : cs = ds := by
  by_cases hnil : cs = []
  · subst hnil
    exact (List.eq_nil_of_length_eq_zero hlen.symm).symm
  · have hnil' : ds ≠ [] := by
      rintro rfl
      exact hnil (List.eq_nil_of_length_eq_zero hlen)
    have hjoin : joinSlash cs = joinSlash ds := by
      cases absolute with
      | true =>
        apply String.toList_inj.mp
        have hchars := congrArg String.toList h
        simp only [pathText, if_true, String.toList_append] at hchars
        exact List.append_cancel_left hchars
      | false => simpa [pathText, ofComponents, hnil, hnil'] using h
    rw [← splitSlash_joinSlash hnil fun c hc => (hcs c hc).2, hjoin, splitSlash_joinSlash hnil' fun d hd => (hds d hd).2]

theorem pathText_of_ne_nil {cs : List String} (h : cs ≠ []) : pathText false cs = joinSlash cs := by
  simp [pathText, ofComponents, h]

/-- A dot that something is joined to is dropped. -/
def dropDots : List String → List String
  | "." :: c :: cs => dropDots (c :: cs)
  | cs => cs

theorem dropDots_of_head {cs : List String} (h : cs.head? ≠ some ".") : dropDots cs = cs := by
  match cs with
  | [] => rfl
  | c :: cs =>
    have hc : c ≠ "." := fun hc => h (by rw [hc]; rfl)
    rw [dropDots]
    rintro d ds ⟨⟩
    exact hc rfl

theorem dropDots_spec (cs : List String) (h : ∀ c ∈ cs, PathName c) (hne : cs ≠ []) :
    dropDots cs ≠ [] ∧ (∀ c ∈ dropDots cs, PathName c) ∧ (dropDots cs = ["."] ∨ (dropDots cs).head? ≠ some ".") := by
  induction cs with
  | nil => exact absurd rfl hne
  | cons c cs ih =>
    by_cases hc : c = "."
    · subst hc
      cases cs with
      | nil => exact ⟨by simp [dropDots], h, Or.inl rfl⟩
      | cons d ds => exact ih (fun c hc => h c (List.mem_cons_of_mem _ hc)) (List.cons_ne_nil d ds)
    · rw [dropDots_of_head (by simpa using hc)]
      exact ⟨List.cons_ne_nil c cs, h, Or.inr (by simpa using hc)⟩

/-- A text that names are joined to as they are. -/
def Joins (pre : String) : Prop := pre ≠ "" ∧ pre ≠ "." ∧ pre.toList.getLast? ≠ some '/'

theorem joinPath_of_joins {pre : String} (h : Joins pre) {c : String} (hc : PathName c) : joinPath pre c = pre ++ "/" ++ c := by
  have htrim : trimEndSlash pre = pre := by
    apply String.toList_inj.mp
    rw [trimEndSlash, String.toList_ofList, List.rdropWhile_eq_self_iff]
    intro hne hlast
    refine h.2.2 ?_
    rw [List.getLast?_eq_getLast_of_ne_nil hne, beq_iff_eq.mp hlast]
  rw [joinPath, if_neg (not_or.mpr ⟨h.1, h.2.1⟩), if_neg hc.1, htrim]

theorem PathName.getLast {c : String} (h : PathName c) : c.toList.getLast? ≠ some '/' := fun hlast => h.2 (List.mem_of_getLast? hlast)

theorem joins_joinPath {pre : String} (h : Joins pre) {c : String} (hc : PathName c) : Joins (joinPath pre c) := by
  have hlen : (pre ++ "/" ++ c).toList = pre.toList ++ '/' :: c.toList := by simp
  have hcne : c.toList ≠ [] := fun hnil => hc.1 (by rw [← String.toList_inj, hnil]; rfl)
  rw [joinPath_of_joins h hc]
  refine ⟨fun heq => ?_, fun heq => ?_, ?_⟩
  · rw [heq] at hlen
    simp at hlen
  · rw [heq] at hlen
    have hpre : pre.toList ≠ [] := fun hnil => h.1 (by rw [← String.toList_inj, hnil]; rfl)
    have hcount := congrArg List.length hlen
    have hpos := List.length_pos_iff.mpr hpre
    have hpos' := List.length_pos_iff.mpr hcne
    rw [List.length_append, List.length_cons] at hcount
    simp at hcount
    omega
  · rw [hlen, List.getLast?_append_of_ne_nil _ (List.cons_ne_nil _ _), List.getLast?_cons_of_ne_nil hcne]
    exact hc.getLast

theorem splitSlash_foldl_joinPath {pre : String} (h : Joins pre) {cs : List String} (hcs : ∀ c ∈ cs, PathName c) :
    splitSlash (cs.foldl joinPath pre) = splitSlash pre ++ cs := by
  induction cs generalizing pre with
  | nil => simp
  | cons c cs ih =>
    have hc : PathName c := hcs c List.mem_cons_self
    rw [List.foldl_cons, ih (joins_joinPath h hc) fun d hd => hcs d (List.mem_cons_of_mem c hd), joinPath_of_joins h hc, splitSlash_append,
      hc.splitSlash, List.append_assoc, List.singleton_append]

/-- What a glob shows for the components it found. -/
theorem foldl_joinPath_eq {cs : List String} (hcs : ∀ c ∈ cs, PathName c) (hne : cs ≠ []) : cs.foldl joinPath "" = joinSlash (dropDots cs) := by
  induction cs with
  | nil => exact absurd rfl hne
  | cons c cs ih =>
    have hc : PathName c := hcs c List.mem_cons_self
    have htail : ∀ d ∈ cs, PathName d := fun d hd => hcs d (List.mem_cons_of_mem c hd)
    have hfirst : joinPath "" c = c := by simp [joinPath]
    rw [List.foldl_cons, hfirst]
    by_cases hdot : c = "."
    · subst hdot
      cases cs with
      | nil => simp [dropDots, joinSlash]
      | cons d ds =>
        have hnext : joinPath "." d = joinPath "" d := by simp [joinPath]
        rw [List.foldl_cons, hnext, ← List.foldl_cons, ih htail (List.cons_ne_nil d ds)]
        rfl
    · rw [dropDots_of_head (by simpa using hdot)]
      apply splitSlash_injective
      rw [splitSlash_foldl_joinPath ⟨hc.1, hdot, hc.getLast⟩ htail, hc.splitSlash, splitSlash_joinSlash (List.cons_ne_nil c cs) fun d hd => (hcs d hd).2,
        List.singleton_append]


/-! ## Directories of a host -/

/-- A host with one tree of directories. A path resolves to the names that lead to it from the
root of the tree, and a directory answers with its entries. -/
structure DirTree {H : Type} (host : RcHost H) where
  resolve : H → String → List String
  entries : H → List String → Option (List String)
  readDir_some : ∀ path h names, entries h (resolve h path) = some names → host.readDir path h = (.ok names, h)
  readDir_none : ∀ path h, entries h (resolve h path) = none → ∃ e, host.readDir path h = (.err e, h)
  named : ∀ h dir names, entries h dir = some names → ∀ entry ∈ names, PathName (trimEndSlash entry) ∧ trimEndSlash entry ≠ "."

namespace DirTree
variable {H : Type} {host : RcHost H} (tree : DirTree host)

/-- A directory has an entry with this name. -/
def Has (h : H) (dir : List String) (name : String) : Prop := ∃ names, tree.entries h dir = some names ∧ name ∈ names.map trimEndSlash

/-- The names lead to the root or to an entry of a directory. -/
def Exists (h : H) (names : List String) : Prop := ∀ dir name, names = dir ++ [name] → tree.Has h dir name

/-- Every wildcard is an entry of the directory that the text before it names. Components
without wildcards are not looked up. -/
inductive Listed (h : H) : String → List String → List String → Prop
  | nil {base : String} : Listed h base [] []
  | cons {base part c : String} {parts cs : List String} :
    (hasGlobChars part = true → tree.Has h (tree.resolve h base) c) → Listed h (joinPath base c) parts cs →
      Listed h base (part :: parts) (c :: cs)

end DirTree

section
variable {H : Type} {host : RcHost H} (tree : DirTree host)

/-- A loop over entries that leaves the state alone. -/
theorem mapM_flatten {β : Type} {f : β → RcM H (List String)} {Q : β → String → Prop} {s : RcSession H} (entries : List β)
    (hf : ∀ entry ∈ entries, ∃ l, f entry s = (.ok l, s) ∧ ∀ p, p ∈ l ↔ Q entry p) :
    ∃ found, entries.mapM f s = (.ok found, s) ∧ ∀ p, p ∈ found.flatten ↔ ∃ entry ∈ entries, Q entry p := by
  induction entries with
  | nil => exact ⟨[], rfl, by simp⟩
  | cons entry entries ih =>
    obtain ⟨l, hfirst, hl⟩ := hf entry List.mem_cons_self
    obtain ⟨found, hrest, hfound⟩ := ih fun b hb => hf b (List.mem_cons_of_mem entry hb)
    refine ⟨l :: found, ?_, fun p => ?_⟩
    · rw [List.mapM_cons, bind_ok hfirst, bind_ok hrest]
      rfl
    · rw [List.flatten_cons, List.mem_append, hl, hfound]
      simp

/-- The components that a glob finds from a base on. -/
theorem globInner_spec (s : RcSession H) (base : String) (parts : List String) (hparts : ∀ part ∈ parts, PathName part) (pre : String) :
    ∃ found, globInner host base parts pre s = (.ok found, s) ∧
      ∀ p, p ∈ found ↔ ∃ cs, Matches parts cs ∧ tree.Listed s.host base parts cs ∧
        p = if cs.foldl joinPath pre = "" then "." else cs.foldl joinPath pre := by
  induction parts generalizing base pre with
  | nil =>
    refine ⟨_, rfl, fun p => ?_⟩
    rw [List.mem_singleton]
    constructor
    · rintro rfl
      exact ⟨[], .nil, .nil, rfl⟩
    · rintro ⟨cs, hcs, -, rfl⟩
      cases hcs
      rfl
  | cons part parts ih =>
    have hpart : PathName part := hparts part List.mem_cons_self
    have hrest : ∀ part ∈ parts, PathName part := fun p hp => hparts p (List.mem_cons_of_mem part hp)
    rw [globInner]
    by_cases hglob : hasGlobChars part = true
    · -- a wildcard: one branch for every entry that matches
      rw [if_neg (by simp [hglob])]
      cases hentries : tree.entries s.host (tree.resolve s.host base) with
      | none =>
        obtain ⟨e, hread⟩ := tree.readDir_none base s.host hentries
        have hhost : onHost (host.readDir base) s = (.err e, s) := by rw [onHost, zoom_apply, hread]
        rw [bind_ok (attempt_err hhost)]
        refine ⟨[], rfl, fun p => ?_⟩
        simp only [List.not_mem_nil, false_iff]
        rintro ⟨cs, hcs, hlisted, -⟩
        cases hcs with
        | cons hc _ =>
          cases hlisted with
          | cons hhas _ =>
            obtain ⟨names, hnames, -⟩ := hhas hglob
            rw [hentries] at hnames
            cases hnames
      | some names =>
        have hread := tree.readDir_some base s.host names hentries
        have hhost : onHost (host.readDir base) s = (.ok names, s) := by rw [onHost, zoom_apply, hread]
        rw [bind_ok (attempt_ok hhost)]
        have hbranch : ∀ entry ∈ names, ∃ l, (if (trimEndSlash entry).toList.head? = some '.' ∧ part.toList.head? ≠ some '.' then pure []
            else if patternMatch part (trimEndSlash entry) then globInner host (joinPath base (trimEndSlash entry)) parts (joinPath pre (trimEndSlash entry))
            else pure [] : RcM H (List String)) s = (.ok l, s) ∧
            ∀ p, p ∈ l ↔ ComponentMatch part (trimEndSlash entry) ∧ ∃ cs, Matches parts cs ∧
              tree.Listed s.host (joinPath base (trimEndSlash entry)) parts cs ∧
              p = if cs.foldl joinPath (joinPath pre (trimEndSlash entry)) = "" then "." else cs.foldl joinPath (joinPath pre (trimEndSlash entry)) := by
          intro entry hentry
          have hname := (tree.named s.host _ names hentries entry hentry).1
          by_cases hhidden : (trimEndSlash entry).toList.head? = some '.' ∧ part.toList.head? ≠ some '.'
          · rw [if_pos hhidden]
            exact ⟨[], rfl, fun p => by simpa using fun hmatch _ _ _ => absurd (hmatch.hidden hhidden.1) hhidden.2⟩
          · rw [if_neg hhidden]
            by_cases hmatch : patternMatch part (trimEndSlash entry) = true
            · rw [if_pos hmatch]
              obtain ⟨found, hfound, hmem⟩ := ih (joinPath base (trimEndSlash entry)) hrest (joinPath pre (trimEndSlash entry))
              have hcomponent : ComponentMatch part (trimEndSlash entry) :=
                ⟨hmatch, fun hdot => not_not.mp fun hpart => hhidden ⟨hdot, hpart⟩, hname⟩
              exact ⟨found, hfound, fun p => (hmem p).trans (and_iff_right hcomponent).symm⟩
            · rw [if_neg hmatch]
              exact ⟨[], rfl, fun p => by simpa using fun hcomponent _ _ _ => absurd hcomponent.pattern hmatch⟩
        obtain ⟨found, hfound, hmem⟩ := mapM_flatten names hbranch
        refine ⟨found.flatten, ?_, fun p => ?_⟩
        · exact bind_ok hfound
        · rw [hmem]
          constructor
          · rintro ⟨entry, hentry, hcomponent, cs, hcs, hlisted, rfl⟩
            refine ⟨trimEndSlash entry :: cs, .cons hcomponent hcs, .cons (fun _ => ⟨names, hentries, List.mem_map_of_mem hentry⟩) hlisted, rfl⟩
          · rintro ⟨cs, hcs, hlisted, rfl⟩
            cases hcs with
            | cons hcomponent hcs =>
              cases hlisted with
              | cons hhas hlisted =>
                obtain ⟨names', hnames, hmem⟩ := hhas hglob
                rw [hentries] at hnames
                cases hnames
                obtain ⟨entry, hentry, rfl⟩ := List.mem_map.mp hmem
                exact ⟨entry, hentry, hcomponent, _, hcs, hlisted, rfl⟩
    · -- a component that stands for itself
      have hplain : hasGlobChars part = false := Bool.eq_false_of_not_eq_true hglob
      rw [if_pos (by simp [hplain])]
      obtain ⟨found, hfound, hmem⟩ := ih (joinPath base part) hrest (joinPath pre part)
      refine ⟨found, hfound, fun p => ?_⟩
      rw [hmem]
      constructor
      · rintro ⟨cs, hcs, hlisted, rfl⟩
        exact ⟨part :: cs, .cons (componentMatch_self hplain hpart) hcs, .cons (fun h => absurd h hglob) hlisted, rfl⟩
      · rintro ⟨cs, hcs, hlisted, rfl⟩
        cases hcs with
        | cons hcomponent hcs =>
          cases hcomponent.eq hplain
          cases hlisted with
          | cons _ hlisted => exact ⟨_, hcs, hlisted, rfl⟩

end

/-! ## The whole pattern -/

def globParts (pattern : String) : List String := (splitSlash (trimStartSlash pattern)).filter (· ≠ "")

theorem globParts_names (pattern : String) : ∀ part ∈ globParts pattern, PathName part := by
  intro part hpart
  obtain ⟨hmem, hne⟩ := List.mem_filter.mp hpart
  exact ⟨by simpa using hne, slash_not_mem_of_mem_splitSlash hmem⟩

section
variable {H : Type} {host : RcHost H} (tree : DirTree host)

/-- The directory that a glob starts in. -/
def globBase (host : RcHost H) (h : H) (pattern : String) : String := if startsWithSlash pattern then "." else host.currentDir h

/-- The list holds the paths that match the pattern and exist, as the host resolves them. -/
def GlobExact (h : H) (pattern : String) (found : List String) : Prop :=
  ∀ p, p ∈ found ↔ ∃ cs, Matches (globParts pattern) cs ∧ tree.Exists h (tree.resolve h (pathText (startsWithSlash pattern) cs)) ∧
    p = pathText (startsWithSlash pattern) cs

/-- A pattern of which no slash and no dot at the front is lost. -/
def ShownWhole (pattern : String) : Prop :=
  startsWithSlash pattern = false ∧ ((globParts pattern).head? = some "." → (globParts pattern).length = 1)

instance (pattern : String) : Decidable (ShownWhole pattern) := inferInstanceAs (Decidable (_ ∧ (_ → _)))

/-- The directories that a glob reads have the entries of the paths that exist. -/
def GlobAgrees (h : H) (pattern : String) : Prop :=
  ∀ cs, Matches (globParts pattern) cs →
    if ShownWhole pattern then
      tree.Listed h (globBase host h pattern) (globParts pattern) cs ↔ tree.Exists h (tree.resolve h (pathText false cs))
    else ¬ tree.Listed h (globBase host h pattern) (globParts pattern) cs ∧
      ¬ tree.Exists h (tree.resolve h (pathText (startsWithSlash pattern) cs))

theorem glob_spec (s : RcSession H) (pattern : String) : ∃ found, glob host pattern s = (.ok found, s) ∧
    ∀ p, p ∈ found ↔ ∃ cs, Matches (globParts pattern) cs ∧ tree.Listed s.host (globBase host s.host pattern) (globParts pattern) cs ∧
      p = pathText false (dropDots cs) := by
  obtain ⟨found, hfound, hmem⟩ :=
    globInner_spec tree s (globBase host s.host pattern) (globParts pattern) (globParts_names pattern) ""
  refine ⟨(found.mergeSort (fun a b => decide (a ≤ b))).eraseDups, ?_, fun p => ?_⟩
  · rw [glob, get_bind]
    exact bind_ok hfound
  · have hshown : ∀ cs, Matches (globParts pattern) cs →
        (if cs.foldl joinPath "" = "" then "." else cs.foldl joinPath "") = pathText false (dropDots cs) := by
      intro cs hcs
      by_cases hnil : cs = []
      · subst hnil
        rfl
      · obtain ⟨hne, hnames, -⟩ := dropDots_spec cs hcs.names hnil
        rw [foldl_joinPath_eq hcs.names hnil, pathText_of_ne_nil hne, if_neg]
        intro hempty
        have hsplit := splitSlash_joinSlash hne fun c hc => (hnames c hc).2
        rw [hempty] at hsplit
        exact (hnames "" (by rw [← hsplit]; decide)).1 rfl
    rw [List.mem_eraseDups, List.mem_mergeSort, hmem]
    constructor
    · rintro ⟨cs, hcs, hlisted, rfl⟩
      exact ⟨cs, hcs, hlisted, hshown cs hcs⟩
    · rintro ⟨cs, hcs, hlisted, rfl⟩
      exact ⟨cs, hcs, hlisted, (hshown cs hcs).symm⟩

/-- A wildcard never stands for a dot. -/
theorem dropDots_of_listed {h : H} {base : String} {parts cs : List String} (hcs : Matches parts cs) (hlisted : tree.Listed h base parts cs)
    (hdot : parts.head? = some "." → parts.length = 1) : dropDots cs = cs := by
  cases hlisted with
  | nil => rfl
  | @cons _ part c parts cs hhas _ =>
    cases hcs with
    | cons hcomponent hcs =>
      by_cases hc : c = "."
      · subst hc
        have hpart : hasGlobChars part = false := by
          refine Bool.eq_false_of_not_eq_true fun hglob => ?_
          obtain ⟨names, hnames, hmem⟩ := hhas hglob
          obtain ⟨entry, hentry, hname⟩ := List.mem_map.mp hmem
          exact (tree.named h _ names hnames entry hentry).2 hname
        obtain rfl : "." = part := hcomponent.eq hpart
        have hone := hdot rfl
        rw [List.length_cons, Nat.add_eq_right, List.length_eq_zero_iff] at hone
        subst hone
        cases hcs
        rfl
      · exact dropDots_of_head (by simpa using hc)

/-- What is shown of a pattern that loses its front is no path that the pattern stands for. -/
theorem shown_ne {pattern : String} (h : ¬ ShownWhole pattern) {cs ds : List String} (hcs : Matches (globParts pattern) cs)
    (hds : Matches (globParts pattern) ds) : pathText false (dropDots cs) ≠ pathText (startsWithSlash pattern) ds := by
  have hshown : ∀ text, pathText false (dropDots cs) = text → ∀ c ∈ splitSlash text, PathName c := by
    rintro _ rfl c hc
    by_cases hnil : cs = []
    · subst hnil
      rw [show pathText false (dropDots []) = "." from rfl, show splitSlash "." = ["."] by decide] at hc
      cases List.mem_singleton.mp hc
      exact ⟨by decide, by decide⟩
    · obtain ⟨hne, hnames, -⟩ := dropDots_spec cs hcs.names hnil
      rw [pathText_of_ne_nil hne, splitSlash_joinSlash hne fun c hc => (hnames c hc).2] at hc
      exact hnames c hc
  intro heq
  by_cases habsolute : startsWithSlash pattern = true
  · rw [habsolute] at heq
    have hempty : "" ∈ splitSlash (pathText true ds) := by
      apply head_splitSlash_of_startsWithSlash
      simp [pathText, startsWithSlash]
    exact (hshown _ heq "" hempty).1 rfl
  · -- a dot with something after it
    rw [Bool.eq_false_of_not_eq_true habsolute] at heq
    have hdot : (globParts pattern).head? = some "." ∧ (globParts pattern).length ≠ 1 := by
      rw [ShownWhole, Bool.eq_false_of_not_eq_true habsolute] at h
      simpa using h
    obtain ⟨hhead, hmore⟩ := hdot
    have hdsne : ds ≠ [] := by
      rintro rfl
      rw [List.forall₂_nil_right_iff.mp hds] at hhead
      cases hhead
    have hcsne : cs ≠ [] := fun hnil => hdsne (List.eq_nil_of_length_eq_zero (hds.length_eq.symm.trans (hcs.length_eq.trans (by rw [hnil]; rfl))))
    obtain ⟨hne, hnames, hfront⟩ := dropDots_spec cs hcs.names hcsne
    have hsame : dropDots cs = ds := by
      rw [pathText_of_ne_nil hne, pathText_of_ne_nil hdsne] at heq
      rw [← splitSlash_joinSlash hne fun c hc => (hnames c hc).2, heq, splitSlash_joinSlash hdsne fun d hd => (hds.names d hd).2]
    rcases hfront with hone | hfront
    · rw [hone] at hsame
      exact hmore (by rw [hds.length_eq, ← hsame]; rfl)
    · rw [hsame] at hfront
      obtain ⟨parts, hparts⟩ := List.head?_eq_some_iff.mp hhead
      rw [Matches, hparts] at hds
      obtain ⟨d, ds, hd, -, rfl⟩ := List.forall₂_cons_left_iff.mp hds
      rw [hd.eq (by decide)] at hfront
      exact hfront rfl

/-- A glob finds exactly what exists if the directories it reads agree with the paths, and the pattern is shown whole. -/
theorem glob_exact_iff (s : RcSession H) (pattern : String) :
    ∃ found, glob host pattern s = (.ok found, s) ∧ (GlobExact tree s.host pattern found ↔ GlobAgrees tree s.host pattern) := by
  obtain ⟨found, hfound, hmem⟩ := glob_spec tree s pattern
  refine ⟨found, hfound, ?_⟩
  by_cases hwhole : ShownWhole pattern
  · have hrelative : startsWithSlash pattern = false := hwhole.1
    have hdots : ∀ cs, Matches (globParts pattern) cs → tree.Listed s.host (globBase host s.host pattern) (globParts pattern) cs → dropDots cs = cs :=
      fun cs hcs hlisted => dropDots_of_listed tree hcs hlisted hwhole.2
    have hlength : ∀ {cs ds}, Matches (globParts pattern) cs → Matches (globParts pattern) ds → cs.length = ds.length :=
      fun hcs hds => hcs.length_eq.symm.trans hds.length_eq
    constructor
    · intro hexact cs hcs
      rw [if_pos hwhole]
      constructor
      · intro hlisted
        obtain ⟨ds, hds, hexists, heq⟩ := (hexact _).mp ((hmem _).mpr ⟨cs, hcs, hlisted, rfl⟩)
        rw [hdots cs hcs hlisted, hrelative] at heq
        rw [hrelative] at hexists
        rwa [pathText_injective hcs.names hds.names (hlength hcs hds) heq]
      · intro hexists
        have hfound : pathText false cs ∈ found := by
          have hspec := hexact (pathText false cs)
          rw [hrelative] at hspec
          exact hspec.mpr ⟨cs, hcs, hexists, rfl⟩
        obtain ⟨ds, hds, hlisted, heq⟩ := (hmem (pathText false cs)).mp hfound
        rw [hdots ds hds hlisted] at heq
        rwa [pathText_injective hcs.names hds.names (hlength hcs hds) heq]
    · intro hagrees p
      rw [hmem]
      constructor
      · rintro ⟨cs, hcs, hlisted, rfl⟩
        have hiff := hagrees cs hcs
        rw [if_pos hwhole] at hiff
        refine ⟨cs, hcs, ?_, ?_⟩
        · rw [hrelative]
          exact hiff.mp hlisted
        · rw [hdots cs hcs hlisted, hrelative]
      · rintro ⟨cs, hcs, hexists, rfl⟩
        have hiff := hagrees cs hcs
        rw [if_pos hwhole] at hiff
        rw [hrelative] at hexists ⊢
        have hlisted := hiff.mpr hexists
        exact ⟨cs, hcs, hlisted, by rw [hdots cs hcs hlisted]⟩
  · constructor
    · intro hexact cs hcs
      rw [if_neg hwhole]
      refine ⟨fun hlisted => ?_, fun hexists => ?_⟩
      · obtain ⟨ds, hds, -, heq⟩ := (hexact _).mp ((hmem _).mpr ⟨cs, hcs, hlisted, rfl⟩)
        exact shown_ne hwhole hcs hds heq
      · obtain ⟨ds, hds, -, heq⟩ := (hmem _).mp ((hexact _).mpr ⟨cs, hcs, hexists, rfl⟩)
        exact shown_ne hwhole hds hcs heq.symm
    · intro hagrees p
      rw [hmem]
      constructor
      · rintro ⟨cs, hcs, hlisted, -⟩
        have hnone := hagrees cs hcs
        rw [if_neg hwhole] at hnone
        exact absurd hlisted hnone.1
      · rintro ⟨cs, hcs, hexists, -⟩
        have hnone := hagrees cs hcs
        rw [if_neg hwhole] at hnone
        exact absurd hexists hnone.2

/-- A pattern without a dot at the front of a component finds no dots. -/
theorem plain_of_matches {parts cs : List String} (hcs : Matches parts cs) (hhidden : ∀ part ∈ parts, part.toList.head? ≠ some '.') :
    ∀ c ∈ cs, PathName c ∧ c ≠ "." ∧ c ≠ ".." := by
  induction hcs with
  | nil => simp
  | cons hcomponent _ ih =>
    rw [List.forall_mem_cons] at hhidden ⊢
    have hfront := fun hdot => hhidden.1 (hcomponent.hidden hdot)
    exact ⟨⟨hcomponent.name, fun heq => hfront (by rw [heq]; rfl), fun heq => hfront (by rw [heq]; rfl)⟩, ih hhidden.2⟩

/-- Names resolve one by one, and what is read as a directory is an entry itself. -/
structure DirTree.Composes (h : H) : Prop where
  here : tree.resolve h "." = tree.resolve h ""
  join : ∀ base c, PathName c → c ≠ "." → c ≠ ".." → tree.resolve h (joinPath base c) = tree.resolve h base ++ [c]
  inside : ∀ dir name names, tree.entries h (dir ++ [name]) = some names → tree.Has h dir name

section
variable {tree} {h : H} (hcomposes : tree.Composes h)
include hcomposes

theorem resolve_foldl_joinPath {cs : List String} (hcs : ∀ c ∈ cs, PathName c ∧ c ≠ "." ∧ c ≠ "..") (base : String) :
    tree.resolve h (cs.foldl joinPath base) = tree.resolve h base ++ cs := by
  induction cs generalizing base with
  | nil => simp
  | cons c cs ih =>
    obtain ⟨hname, hdot, hdots⟩ := hcs c List.mem_cons_self
    rw [List.foldl_cons, ih fun d hd => hcs d (List.mem_cons_of_mem c hd), hcomposes.join base c hname hdot hdots, List.append_assoc, List.singleton_append]

theorem exists_of_append {names rest : List String} (hexists : tree.Exists h (names ++ rest)) : tree.Exists h names := by
  induction rest using List.reverseRecOn with
  | nil => simpa using hexists
  | append_singleton rest c ih =>
    apply ih
    rintro dir name heq
    obtain ⟨found, hfound, -⟩ := hexists (names ++ rest) c (List.append_assoc names rest [c]).symm
    rw [heq] at hfound
    exact hcomposes.inside dir name found hfound

/-- Everything on the way to a path that exists is listed. -/
theorem listed_of_exists {parts cs : List String} (hmatch : Matches parts cs) (hcs : ∀ c ∈ cs, c ≠ "." ∧ c ≠ "..") {base : String}
    (hexists : tree.Exists h (tree.resolve h base ++ cs)) : tree.Listed h base parts cs := by
  induction hmatch generalizing base with
  | nil => exact .nil
  | @cons part c parts cs hcomponent _ ih =>
    obtain ⟨hdot, hdots⟩ := hcs c List.mem_cons_self
    have hsplit : tree.resolve h base ++ c :: cs = tree.resolve h base ++ [c] ++ cs := by simp
    refine .cons (fun _ => ?_) (ih (fun d hd => hcs d (List.mem_cons_of_mem c hd)) ?_)
    · rw [hsplit] at hexists
      exact exists_of_append hcomposes hexists _ c rfl
    · rw [hcomposes.join base c hcomponent.name hdot hdots, ← hsplit]
      exact hexists

/-- What ends with a component that is looked up exists. -/
theorem exists_of_listed {parts cs : List String} {base : String} (hlisted : tree.Listed h base parts cs)
    (hcs : ∀ c ∈ cs, PathName c ∧ c ≠ "." ∧ c ≠ "..") (hne : parts ≠ []) (hlast : ∀ part ∈ parts.getLast?, hasGlobChars part = true) :
    tree.Exists h (tree.resolve h base ++ cs) := by
  induction hlisted with
  | nil => exact absurd rfl hne
  | @cons base part c parts cs hhas hrest ih =>
    rw [List.forall_mem_cons] at hcs
    cases parts with
    | nil =>
      cases hrest
      intro dir name heq
      obtain ⟨rfl, hname⟩ := List.append_inj' heq rfl
      cases hname
      exact hhas (hlast part rfl)
    | cons next parts =>
      have hexists := ih hcs.2 (List.cons_ne_nil _ _) (by rwa [List.getLast?_cons_cons] at hlast)
      rwa [hcomposes.join base c hcs.1.1 hcs.1.2.1 hcs.1.2.2, List.append_assoc, List.singleton_append] at hexists

/-- Where names resolve one by one and the text of the current directory names the current
directory, nothing is missed: all that can go wrong is a component that is not looked up. -/
theorem globAgrees_iff_of_composes {pattern : String} (hwhole : ShownWhole pattern) (hhidden : ∀ part ∈ globParts pattern, part.toList.head? ≠ some '.')
    (hhere : tree.resolve h (host.currentDir h) = tree.resolve h "") :
    GlobAgrees tree h pattern ↔ ∀ cs, Matches (globParts pattern) cs → tree.Listed h (host.currentDir h) (globParts pattern) cs →
      tree.Exists h (tree.resolve h "" ++ cs) := by
  have hbase : globBase host h pattern = host.currentDir h := by simp [globBase, hwhole.1]
  have hplain : ∀ cs, Matches (globParts pattern) cs → ∀ c ∈ cs, PathName c ∧ c ≠ "." ∧ c ≠ ".." := fun cs hcs => plain_of_matches hcs hhidden
  have hresolve : ∀ cs, Matches (globParts pattern) cs → tree.resolve h (pathText false cs) = tree.resolve h "" ++ cs := by
    intro cs hcs
    by_cases hnil : cs = []
    · subst hnil
      exact hcomposes.here.trans (List.append_nil _).symm
    · have hhead : cs.head? ≠ some "." := fun hdot => (hplain cs hcs "." (List.mem_of_mem_head? hdot)).2.1 rfl
      rw [pathText_of_ne_nil hnil, ← dropDots_of_head hhead, ← foldl_joinPath_eq hcs.names hnil, dropDots_of_head hhead,
        resolve_foldl_joinPath hcomposes (hplain cs hcs)]
  constructor
  · intro hagrees cs hcs hlisted
    have hiff := hagrees cs hcs
    rw [if_pos hwhole, hbase, hresolve cs hcs] at hiff
    exact hiff.mp hlisted
  · intro htails cs hcs
    rw [if_pos hwhole, hbase, hresolve cs hcs]
    refine ⟨htails cs hcs, fun hexists => listed_of_exists hcomposes hcs (fun c hc => (hplain cs hcs c hc).2) ?_⟩
    rwa [hhere]

end

end

/-! ## Directories in directories -/

/-- The names on a path. -/
def pathNames (path : String) : List String := (splitSlash path).filter fun c => c ≠ "" ∧ c ≠ "."

theorem pathNames_join (base c : String) : pathNames (base ++ "/" ++ c) = pathNames base ++ pathNames c := by
  rw [pathNames, splitSlash_append, List.filter_append]
  rfl

theorem pathNames_name {c : String} (hname : PathName c) (hdot : c ≠ ".") : pathNames c = [c] := by
  rw [pathNames, hname.splitSlash]
  simp [hname.1, hdot]

theorem pathNames_trimEndSlash (base : String) : pathNames (trimEndSlash base) = pathNames base := by
  obtain ⟨cs, rfl⟩ : ∃ cs, base = String.ofList cs := ⟨base.toList, String.ofList_toList.symm⟩
  rw [trimEndSlash, String.toList_ofList]
  induction cs using List.reverseRecOn with
  | nil => rfl
  | append_singleton cs c ih =>
    rw [List.rdropWhile_concat]
    split
    case isFalse => rfl
    case isTrue hslash =>
      have htext : String.ofList (cs ++ [c]) = String.ofList cs ++ "/" ++ "" := by
        rw [eq_of_beq hslash, String.ofList_append, String.append_empty]
      have hnone : pathNames "" = [] := by decide
      rw [ih, htext, pathNames_join, hnone, List.append_nil]

/-- A host with the directories of a table, each with its entries. -/
def treeHost (entries : List String → Option (List String)) : RcHost Unit :=
  { RcHost.naming with
    readDir := fun path =>
      match entries (pathNames path) with
      | some names => pure names
      | none => throw (.new (path ++ ": not found")) }

def hostTree {entries : List String → Option (List String)}
    (hnamed : ∀ dir names, entries dir = some names → ∀ entry ∈ names, PathName (trimEndSlash entry) ∧ trimEndSlash entry ≠ ".") :
    DirTree (treeHost entries) where
  resolve _ := pathNames
  entries _ := entries
  readDir_some path h names hnames := by
    unfold treeHost
    dsimp only
    rw [hnames]
    rfl
  readDir_none path h hnames := by
    refine ⟨.new (path ++ ": not found"), ?_⟩
    unfold treeHost
    dsimp only
    rw [hnames]
    rfl
  named _ := hnamed

theorem composes_hostTree {entries : List String → Option (List String)}
    (hnamed : ∀ dir names, entries dir = some names → ∀ entry ∈ names, PathName (trimEndSlash entry) ∧ trimEndSlash entry ≠ ".")
    (hinside : ∀ dir name names, entries (dir ++ [name]) = some names → ∃ above, entries dir = some above ∧ name ∈ above.map trimEndSlash) :
    (hostTree hnamed).Composes () where
  here := by
    change pathNames "." = pathNames ""
    decide
  join base c hname hdot _ := by
    change pathNames (joinPath base c) = pathNames base ++ [c]
    rw [joinPath, if_neg hname.1]
    split
    case isTrue hbase =>
      have hnone : pathNames base = [] := by rcases hbase with rfl | rfl <;> decide
      rw [hnone, pathNames_name hname hdot, List.nil_append]
    case isFalse => rw [pathNames_join, pathNames_trimEndSlash, pathNames_name hname hdot]
  inside := hinside

/-- A file in a directory in a directory, next to files that do not lie so deep. -/
def nested : List String → Option (List String)
  | [] => some ["src/", "a"]
  | ["src"] => some ["lib/", "b.c"]
  | ["src", "lib"] => some ["c.c"]
  | _ => none

theorem nested_named : ∀ dir names, nested dir = some names → ∀ entry ∈ names, PathName (trimEndSlash entry) ∧ trimEndSlash entry ≠ "." := by
  intro dir names hnames
  unfold nested at hnames
  split at hnames <;> cases hnames <;> unfold PathName <;> decide

theorem nested_inside : ∀ dir name names, nested (dir ++ [name]) = some names → ∃ above, nested dir = some above ∧ name ∈ above.map trimEndSlash := by
  intro dir name names hnames
  unfold nested at hnames
  split at hnames
  case h_1 heq => exact absurd heq (List.concat_ne_nil _ _)
  case h_2 heq =>
    obtain ⟨rfl, hname⟩ := List.append_inj' (show dir ++ [name] = [] ++ ["src"] from heq) rfl
    cases hname
    exact ⟨_, rfl, by decide⟩
  case h_3 heq =>
    obtain ⟨rfl, hname⟩ := List.append_inj' (show dir ++ [name] = ["src"] ++ ["lib"] from heq) rfl
    cases hname
    exact ⟨_, rfl, by decide⟩
  case h_4 => cases hnames

/-- All three directories on the way are read. -/
theorem globAgrees_nested : GlobAgrees (hostTree nested_named) () "*/*/*.c" := by
  have hcomposes := composes_hostTree nested_named nested_inside
  have hhidden : ∀ part ∈ globParts "*/*/*.c", part.toList.head? ≠ some '.' := by decide
  have hhere : (hostTree nested_named).resolve () ((treeHost nested).currentDir ()) = (hostTree nested_named).resolve () "" := hcomposes.here
  rw [globAgrees_iff_of_composes hcomposes (by decide) hhidden hhere]
  intro cs hcs hlisted
  have hexists := exists_of_listed hcomposes hlisted (plain_of_matches hcs hhidden) (by decide) (by decide)
  rwa [hhere] at hexists

theorem glob_exact_iff_nested : ∃ found, glob (treeHost nested) "*/*/*.c" (.fresh ()) = (.ok found, .fresh ()) ∧
    GlobExact (hostTree nested_named) () "*/*/*.c" found := by
  obtain ⟨found, hfound, hexact⟩ := glob_exact_iff (hostTree nested_named) (.fresh ()) "*/*/*.c"
  exact ⟨found, hfound, hexact.mpr globAgrees_nested⟩

/-! ## A pattern from the root -/

/-- One file `a` in the root directory. -/
def oneFile (dir : List String) : Option (List String) := if dir = [] then some ["a"] else none

theorem oneFile_named : ∀ dir names, oneFile dir = some names → ∀ entry ∈ names, PathName (trimEndSlash entry) ∧ trimEndSlash entry ≠ "." := by
  intro dir names hnames
  unfold oneFile at hnames
  split at hnames <;> cases hnames
  unfold PathName
  decide

/-- The glob `/*` answers with `a`, which is no path from the root. -/
theorem glob_not_exact : ¬∀ (H : Type) (host : RcHost H) (tree : DirTree host) (s : RcSession H) (pattern : String) (found : List String),
    glob host pattern s = (.ok found, s) → GlobExact tree s.host pattern found := by
  intro h
  obtain ⟨found, hfound, -⟩ := glob_spec (hostTree oneFile_named) (.fresh ()) "/*"
  have hval : (glob (treeHost oneFile) "/*" (.fresh ())).1.toOption = some ["a"] := by decide +kernel
  have hexact := h Unit (treeHost oneFile) (hostTree oneFile_named) (.fresh ()) "/*" found hfound
  rw [hfound] at hval
  cases hval
  obtain ⟨cs, -, -, heq⟩ := (hexact "a").mp List.mem_cons_self
  have hchars := congrArg (fun text => text.toList.head?) heq
  rw [show startsWithSlash "/*" = true by decide] at hchars
  simp [pathText] at hchars

end Star9.Rc
