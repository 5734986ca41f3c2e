import Star9.Core.PathOrder
import Star9.Fs.MapFs
import Star9.Fs.MemList

/-!
# Where a map of file systems routes

Of the keys above a path the longest is asked, unless it is the root: a root entry answers for
its own path only. The path it is asked for is what remains after the key, with every further
repetition of the key taken off as well.
-/
namespace Star9
open Base Prog

/-! ## Taking a key off a path -/

/-- What stays of a valid path is a valid path below the root. -/
theorem stripPrefix_valid {key p rest : String} (hkey : key ≠ ".") (hp : validPath p = true) (h : stripPrefix (key ++ "/") p = some rest) :
    validPath rest = true ∧ rest ≠ "." ∧ components p = components key ++ components rest := by
  rw [stripPrefix_slash hkey] at h
  have hnames : ∀ c ∈ splitSlash rest, ValidName c := by
    intro c hc
    exact validName_of_mem_components hp (h ▸ List.mem_append_right _ hc)
  have hrest : ofComponents (splitSlash rest) = rest := by
    rw [ofComponents, if_neg (splitSlash_ne_nil rest), joinSlash_splitSlash]
  have hvalid := validPath_ofComponents hnames
  have hcomponents := components_ofComponents hnames
  rw [hrest] at hvalid hcomponents
  have hdot : rest ≠ "." := by
    intro hdot
    rw [← hcomponents] at h
    have hnil := components_eq_nil.mpr hdot
    exact splitSlash_ne_nil rest (hcomponents ▸ hnil)
  exact ⟨hvalid, hdot, by rw [h, hcomponents]⟩

theorem stripPrefix_of_components {key p rest : String} (hkey : key ≠ ".") (hrest : rest ≠ ".")
    (h : components p = components key ++ components rest) : stripPrefix (key ++ "/") p = some rest := by
  rw [stripPrefix_slash hkey, h, components, components, if_neg hrest]

/-- Taking a key off again and again leaves a path that is not the root. -/
theorem trimStartMatches_valid {key : String} (hkey : key ≠ ".") (count : Nat) {p : String} (hp : validPath p = true) (hdot : p ≠ ".") :
    validPath (trimStartMatches (key ++ "/") count p) = true ∧ trimStartMatches (key ++ "/") count p ≠ "." ∧
      (components (trimStartMatches (key ++ "/") count p)).length ≤ (components p).length := by
  induction count generalizing p with
  | zero => exact ⟨hp, hdot, le_rfl⟩
  | succ count ih =>
    rw [trimStartMatches]
    cases hstrip : stripPrefix (key ++ "/") p with
    | none => exact ⟨hp, hdot, le_rfl⟩
    | some rest =>
      obtain ⟨hvalid, hrest, hcomponents⟩ := stripPrefix_valid hkey hp hstrip
      obtain ⟨h₁, h₂, h₃⟩ := ih hvalid hrest
      refine ⟨h₁, h₂, h₃.trans ?_⟩
      rw [hcomponents, List.length_append]
      omega

theorem components_length_pos {key : String} (hkey : key ≠ ".") : 0 < (components key).length :=
  List.length_pos_of_ne_nil fun h => hkey (components_eq_nil.mp h)

/-- The key goes once, if what remains does not begin with it. -/
theorem trimStartMatches_eq_iff {key p rest : String} (hkey : key ≠ ".") (hp : validPath p = true) (hrest : rest ≠ ".")
    (h : components p = components key ++ components rest) (count : Nat) :
    trimStartMatches (key ++ "/") (count + 2) p = rest ↔ below key rest = false := by
  have hstrip := stripPrefix_of_components hkey hrest h
  obtain ⟨hvalid, -, -⟩ := stripPrefix_valid hkey hp hstrip
  have hsome := stripPrefix_slash_isSome hkey hvalid
  rw [trimStartMatches, hstrip]
  dsimp only
  rw [trimStartMatches]
  cases hagain : stripPrefix (key ++ "/") rest with
  | none =>
    rw [hagain] at hsome
    exact ⟨fun _ => hsome.symm, fun _ => rfl⟩
  | some less =>
    rw [hagain] at hsome
    rw [← hsome]
    obtain ⟨hless, hdot, hcomponents⟩ := stripPrefix_valid hkey hvalid hagain
    have hshort := (trimStartMatches_valid hkey count hless hdot).2.2
    have hpos := components_length_pos hkey
    refine ⟨fun heq => ?_, fun hfalse => by cases hfalse⟩
    dsimp only at heq
    rw [heq, hcomponents, List.length_append] at hshort
    omega

namespace MapFs
variable {m : MapFs} {p key rest : String}

/-- The path extends a key, which is the longest to do so, and no key is the path or below it. -/
structure Extends (m : MapFs) (p key rest : String) : Prop where
  valid : validPath p = true
  mem : key ∈ m.entries
  rest : rest ≠ "." ∧ components p = components key ++ components rest
  longest : ∀ other ∈ m.entries, below other p = true → within other key = true
  free : p ∉ m.entries ∧ ∀ other ∈ m.entries, below p other = false

theorem Extends.below (h : m.Extends p key rest) : Star9.below key p = true := by
  obtain ⟨hdot, hcomponents⟩ := h.rest
  obtain ⟨c, cs, hc⟩ := List.exists_cons_of_ne_nil fun hnil => hdot (components_eq_nil.mp hnil)
  exact below_iff.mpr ⟨c, cs, by rw [hcomponents, hc]⟩

theorem Extends.ne_dot (h : m.Extends p key rest) : p ≠ "." := below_ne_dot h.below

theorem Extends.direct (h : m.Extends p key rest) : m.direct p = none := Std.ExtTreeMap.getElem?_eq_none h.free.1

/-! ## The key that is asked -/

theorem mem_matchPrefixes (hp : validPath p = true) {entry : String × Nat} :
    entry ∈ m.matchPrefixes p ↔ m.entries[entry.1]? = some entry.2 ∧ (entry.1 = p ∨ (entry.1 ≠ "." ∧ Star9.below entry.1 p = true)) := by
  unfold matchPrefixes
  rw [List.mem_mergeSort, List.mem_filter, decide_eq_true_eq, Std.ExtTreeMap.mem_toList_iff_getElem?_eq_some]
  by_cases hdot : entry.1 = "."
  · simp [hdot]
  · rw [stripPrefix_slash_isSome hdot hp]

/-- Above one path the longer text is the lower key. -/
theorem utf8ByteSize_lt_of_below {q : String} (hq : q ≠ ".") (h : Star9.below q key = true) : q.utf8ByteSize < key.utf8ByteSize := by
  obtain ⟨c, cs, hcs⟩ := below_iff.mp h
  have hkey : key = q ++ "/" ++ joinSlash (c :: cs) := by
    apply components_injective
    rw [components_append_slash hq, hcs, splitSlash_joinSlash (List.cons_ne_nil c cs)]
    intro d hd
    exact slash_not_mem_of_mem_components (hcs ▸ List.mem_append_right _ hd)
  have hslash : ("/" : String).utf8ByteSize = 1 := by decide
  rw [hkey, String.utf8ByteSize_append, String.utf8ByteSize_append, hslash]
  omega

theorem matchPrefixes_sorted (m : MapFs) (p : String) :
    (m.matchPrefixes p).Pairwise fun a b => b.1.utf8ByteSize ≤ a.1.utf8ByteSize := by
  have hsorted : (m.matchPrefixes p).Pairwise fun a b => decide (b.1.utf8ByteSize ≤ a.1.utf8ByteSize) = true := by
    apply List.pairwise_mergeSort
    · intro a b c hab hbc
      simp only [decide_eq_true_eq] at hab hbc ⊢
      omega
    · intro a b
      simp only [Bool.or_eq_true, decide_eq_true_eq]
      omega
  exact hsorted.imp fun h => of_decide_eq_true h

theorem route_of_head {entry : String × Nat} {others : List (String × Nat)} (h : m.matchPrefixes p = entry :: others)
    (hrel : relative entry.1 p ≠ ".") : m.route p = some (entry.2, relative entry.1 p) := by
  rw [route, h, List.findSome?_cons]
  simp [hrel]

/-- A key that is not the root is asked for what trimming leaves. -/
theorem Extends.asks_trimmed (h : m.Extends p key rest) (hkey : key ≠ ".") :
    ∃ fs, m.entries[key]? = some fs ∧ m.route p = some (fs, trimStartMatches (key ++ "/") p.length p) := by
  obtain ⟨fs, hfs⟩ : ∃ fs, m.entries[key]? = some fs := ⟨_, Std.ExtTreeMap.getElem?_eq_some_getElem h.mem⟩
  have hmem : (key, fs) ∈ m.matchPrefixes p := (mem_matchPrefixes h.valid).mpr ⟨hfs, .inr ⟨hkey, h.below⟩⟩
  obtain ⟨entry, others, hlist⟩ := List.exists_cons_of_ne_nil (List.ne_nil_of_mem hmem)
  have hentry : entry ∈ m.matchPrefixes p := by
    rw [hlist]
    exact List.mem_cons_self
  obtain ⟨hget, hmatch⟩ := (mem_matchPrefixes h.valid).mp hentry
  have hentryKey : entry.1 ∈ m.entries := Std.ExtTreeMap.mem_iff_isSome_getElem?.mpr (by rw [hget]; rfl)
  have hbelow : entry.1 ≠ "." ∧ Star9.below entry.1 p = true := by
    refine hmatch.resolve_left fun heq => h.free.1 ?_
    rw [← heq]
    exact hentryKey
  -- the head of the list is not shorter than the key, and not longer
  have hle : key.utf8ByteSize ≤ entry.1.utf8ByteSize := by
    have hsorted := matchPrefixes_sorted m p
    rw [hlist, List.pairwise_cons] at hsorted
    rw [hlist] at hmem
    cases List.mem_cons.mp hmem with
    | inl heq => rw [← heq]
    | inr hothers => exact hsorted.1 _ hothers
  have heq : entry.1 = key := by
    cases within_iff_below.mp (h.longest entry.1 hentryKey hbelow.2) with
    | inl heq => exact heq.symm
    | inr hlt =>
      have := utf8ByteSize_lt_of_below hbelow.1 hlt
      omega
  rw [heq, hfs] at hget
  have hrel : relative key p = trimStartMatches (key ++ "/") p.length p := by
    rw [relative, if_neg hkey, cleanPath_of_valid (trimStartMatches_valid hkey _ h.valid h.ne_dot).1]
  refine ⟨fs, hfs, ?_⟩
  rw [route_of_head hlist]
  · rw [heq, hrel, Option.some.inj hget]
  · rw [heq, hrel]
    exact (trimStartMatches_valid hkey _ h.valid h.ne_dot).2.1

/-- The root is asked for no path but its own. -/
theorem Extends.asks_nobody (h : m.Extends p "." rest) : m.route p = none := by
  have hempty : m.matchPrefixes p = [] := by
    rw [List.eq_nil_iff_forall_not_mem]
    intro entry hentry
    obtain ⟨hget, hmatch⟩ := (mem_matchPrefixes h.valid).mp hentry
    have hentryKey : entry.1 ∈ m.entries := Std.ExtTreeMap.mem_iff_isSome_getElem?.mpr (by rw [hget]; rfl)
    rcases hmatch with heq | ⟨hdot, hbelow⟩
    · exact h.free.1 (heq ▸ hentryKey)
    · have hroot := h.longest entry.1 hentryKey hbelow
      cases within_iff_below.mp hroot with
      | inl heq => exact hdot heq.symm
      | inr hlt => exact below_ne_dot hlt rfl
  rw [route, hempty]
  rfl

/-! ## Open and stat -/

section
variable {σ η : Type} (world : Nat → MappedFs σ η)

/-- Open and stat of the path are those of a file system at a path of its own; stat succeeds
with what the file that open gives says of itself. -/
structure Routed (m : MapFs) (p : String) (fs : Nat) (rest : String) : Prop where
  opens : ∀ ctx, m.open_ world ctx p = openIn world fs ctx rest
  stats : ∀ ctx, m.stat world ctx p = statFile world (openIn world fs ctx rest)
  agrees : ∀ ctx s metadata, (m.stat world ctx p s).1 = .ok metadata ↔
    ∃ file s', m.open_ world ctx p s = (.ok file, s') ∧ (fileStat world file s').1 = .ok metadata

theorem statFile_ok_iff (q : Prog σ Error (MapFile η)) (s : σ) (metadata : Metadata) :
    (statFile world q s).1 = .ok metadata ↔ ∃ file s', q s = (.ok file, s') ∧ (fileStat world file s').1 = .ok metadata := by
  cases hq : q s with
  | mk r s' =>
    cases r with
    | err e =>
      rw [statFile, bind_err hq]
      constructor
      · intro h
        cases h
      · rintro ⟨_, _, h, _⟩
        cases h
    | abort =>
      rw [statFile, bind_abort hq]
      constructor
      · intro h
        cases h
      · rintro ⟨_, _, h, _⟩
        cases h
    | ok file =>
      have hclosed : (statFile world q s).1 = (fileStat world file s').1 := by
        rw [statFile, bind_ok hq]
        cases hf : fileStat world file s' with
        | mk r s'' =>
          cases r with
          | ok md => rw [bind_ok (attempt_ok hf)]; rfl
          | err e => rw [bind_ok (attempt_err hf)]; rfl
          | abort => rw [bind_abort (attempt_abort hf)]
      rw [hclosed]
      constructor
      · exact fun h => ⟨file, s', rfl, h⟩
      · rintro ⟨file', s'', heq, h⟩
        cases heq
        exact h

theorem open_of_route {fs : Nat} {rel : String} (hp : validPath p = true) (hdirect : m.direct p = none)
    (hroute : m.route p = some (fs, rel)) (ctx : FsContext) : m.open_ world ctx p = openIn world fs ctx rel := by
  simp [open_, hp, cleanPath_of_valid hp, hdirect, hroute]

/-- Without a key below it a path is no directory of the map. -/
theorem foldlM_listStep {ctx : FsContext} {entries : List (String × Nat)} (h : ∀ entry ∈ entries, Star9.below p entry.1 = false)
    (acc : List DirEntry × Std.ExtTreeSet String) (s : σ) : entries.foldlM (listStep world ctx p) acc s = (.ok acc, s) := by
  induction entries with
  | nil => rfl
  | cons entry entries ih =>
    have hnone : MemFs.relativeTo p entry.1 = none := by
      cases hrel : MemFs.relativeTo p entry.1 with
      | none => rfl
      | some rest =>
        obtain ⟨c, cs, hc⟩ := List.exists_cons_of_ne_nil (splitSlash_ne_nil rest)
        have hbelow : Star9.below p entry.1 = true := below_iff.mpr ⟨c, cs, by rw [relativeTo_eq_some.mp hrel, hc]⟩
        rw [h entry List.mem_cons_self] at hbelow
        cases hbelow
    have hstep : listStep world ctx p acc entry s = (.ok acc, s) := by simp only [listStep, hnone]; rfl
    rw [List.foldlM_cons, bind_ok hstep]
    exact ih fun other hother => h other (List.mem_cons_of_mem _ hother)

theorem Extends.open_root (h : m.Extends p "." rest) (ctx : FsContext) (s : σ) :
    m.open_ world ctx p s = (.err (.path "open" p .notFound), s) := by
  have hlisting : m.open_ world ctx p = m.openListing world ctx p := by
    simp [open_, h.valid, cleanPath_of_valid h.valid, h.direct, h.asks_nobody]
  have hnone : ∀ entry ∈ m.entries.toList, Star9.below p entry.1 = false := by
    intro entry hentry
    rw [Std.ExtTreeMap.mem_toList_iff_getElem?_eq_some] at hentry
    exact h.free.2 entry.1 (Std.ExtTreeMap.mem_iff_isSome_getElem?.mpr (by rw [hentry]; rfl))
  rw [hlisting, openListing, bind_ok (foldlM_listStep world hnone _ s)]
  simp [h.ne_dot]

end

theorem length_of_extends (h : m.Extends p key rest) (hkey : key ≠ ".") : ∃ count, p.length = count + 2 := by
  have hp : p = key ++ "/" ++ rest := stripPrefix_eq_some.mp (stripPrefix_of_components hkey h.rest.1 h.rest.2)
  have hne : key ≠ "" := by
    rintro rfl
    exact absurd (m.clean "" h.mem) (by decide)
  have hpos : 0 < key.length := by
    rw [Nat.pos_iff_ne_zero]
    exact fun hzero => hne (String.length_eq_zero_iff.mp hzero)
  have hslash : ("/" : String).length = 1 := rfl
  refine ⟨key.length - 1 + rest.length, ?_⟩
  rw [hp, String.length_append, String.length_append, hslash]
  omega

theorem Extends.routed {fs : Nat} (h : m.Extends p key rest) (hfs : m.entries[key]? = some fs) (hbelow : Star9.below key rest = false)
    {σ η : Type} (world : Nat → MappedFs σ η) : Routed world m p fs rest := by
  have hkey : key ≠ "." := by
    rintro rfl
    rw [below_dot_iff.mpr h.rest.1] at hbelow
    cases hbelow
  obtain ⟨fs', hfs', hroute⟩ := h.asks_trimmed hkey
  obtain ⟨count, hcount⟩ := length_of_extends h hkey
  cases hfs.symm.trans hfs'
  rw [hcount, (trimStartMatches_eq_iff hkey h.valid h.rest.1 h.rest.2 count).mpr hbelow] at hroute
  have hopen := open_of_route world h.valid h.direct hroute
  have hstat : ∀ ctx, m.stat world ctx p = statFile world (m.open_ world ctx p) := by
    intro ctx
    rw [stat, if_neg h.ne_dot]
  refine ⟨hopen, fun ctx => ?_, fun ctx s metadata => ?_⟩
  · rw [hstat, hopen]
  · rw [hstat]
    exact statFile_ok_iff world _ s metadata

/-- A file system whose files are the paths that it was asked for. -/
def echoFs : MappedFs Unit String where
  open_ _ name := pure name
  stat _ name := pure (Metadata.dir name 0o555)
  fileStat name := pure (Metadata.dir name 0o555)
  close _ s := s

/-- Asked for what remains, a file system shows that the key does not go twice. -/
theorem Extends.not_below {fs : Nat} (h : m.Extends p key rest) (hfs : m.entries[key]? = some fs)
    (hrouted : Routed (fun _ => echoFs) m p fs rest) : Star9.below key rest = false := by
  have hopens := congrFun (hrouted.opens FsContext.new) ()
  by_cases hkey : key = "."
  · subst hkey
    rw [h.open_root] at hopens
    cases congrArg Prod.fst hopens
  · obtain ⟨fs', hfs', hroute⟩ := h.asks_trimmed hkey
    obtain ⟨count, hcount⟩ := length_of_extends h hkey
    cases hfs.symm.trans hfs'
    rw [open_of_route _ h.valid h.direct hroute] at hopens
    have hfile := MapFile.mapped.inj (Outcome.ok.inj (congrArg Prod.fst hopens))
    rw [hcount] at hfile
    exact (trimStartMatches_eq_iff hkey h.valid h.rest.1 h.rest.2 count).mp hfile.2

/-- A path that extends a key is routed to the file system of the key at the remaining names,
whatever the file systems are, if and only if what remains does not extend the key again; what
extends the root key always does. -/
theorem routed_iff (m : MapFs) (p : String) :
    (∀ key rest fs, m.Extends p key rest → m.entries[key]? = some fs →
      ∀ (σ η : Type) (world : Nat → MappedFs σ η), Routed world m p fs rest) ↔
      ∀ key rest, m.Extends p key rest → Star9.below key rest = false := by
  constructor
  · intro hall key rest h
    have hfs := Std.ExtTreeMap.getElem?_eq_some_getElem h.mem
    exact h.not_below hfs (hall key rest _ h hfs Unit String fun _ => echoFs)
  · intro hbelow key rest fs h hfs σ η world
    exact h.routed hfs (hbelow key rest h) world

def repeatedMap : MapFs := (new.insert "." 0).insert "a" 1

theorem key_repeatedMap {other : String} (h : other ∈ repeatedMap.entries) : other = "a" ∨ other = "." := by
  have ha : cleanPath "a" = "a" := by decide
  have hroot : cleanPath "." = "." := by decide
  simp only [repeatedMap, insert, new, Std.ExtTreeMap.mem_insert, Std.LawfulEqCmp.compare_eq_iff_eq, ha, hroot] at h
  rcases h with h | h | h
  · exact .inl h.symm
  · exact .inr h.symm
  · exact absurd h Std.ExtTreeMap.not_mem_empty

theorem extends_repeated : repeatedMap.Extends "a/a/b" "a" "a/b" where
  valid := by decide +kernel
  mem := by decide +kernel
  rest := by decide +kernel
  longest other hother _ := by
    rcases key_repeatedMap hother with rfl | rfl <;> decide
  free := by
    refine ⟨by decide +kernel, fun other hother => ?_⟩
    rcases key_repeatedMap hother with rfl | rfl <;> decide

/-- The key goes twice, and the file system is asked for `b`. -/
theorem not_routed : ¬ ∀ (m : MapFs) (p key rest : String) (fs : Nat), m.Extends p key rest → m.entries[key]? = some fs →
    ∀ (σ η : Type) (world : Nat → MappedFs σ η), Routed world m p fs rest := by
  intro hall
  have hfs : repeatedMap.entries["a"]? = some 1 := by decide +kernel
  have hbelow := extends_repeated.not_below hfs (hall repeatedMap "a/a/b" "a" "a/b" 1 extends_repeated hfs Unit String fun _ => echoFs)
  exact absurd hbelow (by decide +kernel)

end MapFs
end Star9
