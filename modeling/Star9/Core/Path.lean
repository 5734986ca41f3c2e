import Star9.Core.Basic

/-!
# Slash-separated relative paths

The path functions of the core crate, on strings. A valid path other than the
root is the join of a nonempty list of names, so every statement about paths is
proved on component lists and carried back to strings.
-/
namespace Star9

/-- All parts between slashes, empty ones included. -/
def splitSlash (s : String) : List String := (s.toList.splitOn '/').map String.ofList

def joinSlash (parts : List String) : String := "/".intercalate parts

def startsWithSlash (s : String) : Bool := s.toList.head? == some '/'

def endsWithSlash (s : String) : Bool := s.toList.getLast? == some '/'

def trimStartSlash (s : String) : String := String.ofList (s.toList.dropWhile (· == '/'))

/-- One part of the cleaning loop: empty and dot parts vanish, a dot-dot part
drops the last kept part. -/
def cleanStep (parts : List String) (part : String) : List String :=
  if part = "" ∨ part = "." then parts
  else if part = ".." then parts.dropLast
  else parts ++ [part]

def cleanPath (path : String) : String :=
  if path = "" ∨ path = "." then "."
  else
    let absolute := startsWithSlash path
    let cleaned := joinSlash ((splitSlash path).foldl cleanStep [])
    if cleaned = "" then "."
    else if absolute then trimStartSlash cleaned
    else cleaned

def validPath (path : String) : Bool :=
  if path = "." then true
  else if path = "" || startsWithSlash path || endsWithSlash path then false
  else (splitSlash path).all fun part => part ≠ "" && part ≠ "." && part ≠ ".."

def baseName (path : String) : String := (splitSlash path).getLast?.getD path

/-- The halves around the first slash. -/
def splitOnceSlash (s : String) : Option (String × String) :=
  match splitSlash s with
  | head :: rest@(_ :: _) => some (head, joinSlash rest)
  | _ => none

def stripPrefix (pre s : String) : Option String :=
  if pre.toList <+: s.toList then some (String.ofList (s.toList.drop pre.toList.length)) else none

/-- The halves around the last slash. -/
def rsplitOnceSlash (s : String) : Option (String × String) :=
  let parts := splitSlash s
  if parts.length ≤ 1 then none
  else some (joinSlash parts.dropLast, parts.getLast?.getD "")

def parentPath (path : String) : String :=
  let cleaned := cleanPath path
  if cleaned = "." then "."
  else ((rsplitOnceSlash cleaned).map Prod.fst).getD "."

/-- The path of a directory entry, as the callers of a listing build it. -/
def childPath (name child : String) : String := if name = "." then child else name ++ "/" ++ child

/-! ## Component lists -/

/-- A name that can stand between two slashes of a valid path. -/
def ValidName (c : String) : Prop := c ≠ "" ∧ c ≠ "." ∧ c ≠ ".." ∧ '/' ∉ c.toList

instance (c : String) : Decidable (ValidName c) := inferInstanceAs (Decidable (_ ∧ _))

def components (p : String) : List String := if p = "." then [] else splitSlash p

def ofComponents (cs : List String) : String := if cs = [] then "." else joinSlash cs

theorem splitSlash_ne_nil (s : String) : splitSlash s ≠ [] := by
  simp [splitSlash]

theorem not_mem_of_mem_splitOn {α : Type*} [BEq α] [LawfulBEq α] {a : α} {l part : List α}
    (h : part ∈ l.splitOn a) : a ∉ part := by
  induction l generalizing part with
  | nil =>
    rw [List.splitOn_eq_singleton (by simp)] at h
    simp_all
  | cons x l ih =>
    rw [List.splitOn_cons_eq_if_modifyHead] at h
    split at h
    · rcases List.mem_cons.mp h with rfl | h
      · simp
      · exact ih h
    · rename_i hx
      obtain ⟨hd, tl, htl⟩ := List.exists_cons_of_ne_nil (List.splitOn_ne_nil a l)
      rw [htl, List.modifyHead_cons] at h
      rcases List.mem_cons.mp h with rfl | h
      · have hhd : a ∉ hd := ih (by simp [htl])
        simp only [beq_iff_eq] at hx
        simp [hhd, Ne.symm hx]
      · exact ih (by simp [htl, h])

theorem slash_not_mem_of_mem_splitSlash {s c : String} (h : c ∈ splitSlash s) : '/' ∉ c.toList := by
  obtain ⟨part, hpart, rfl⟩ := List.mem_map.mp h
  rw [String.toList_ofList]
  exact not_mem_of_mem_splitOn hpart

theorem joinSlash_toList (parts : List String) :
    (joinSlash parts).toList = ['/'].intercalate (parts.map String.toList) := by
  rw [joinSlash, String.toList_intercalate]
  rfl

theorem splitSlash_joinSlash {parts : List String} (hne : parts ≠ [])
    (h : ∀ c ∈ parts, '/' ∉ c.toList) : splitSlash (joinSlash parts) = parts := by
  rw [splitSlash, joinSlash_toList, List.splitOn_intercalate]
  · simp [List.map_map, Function.comp_def, String.ofList_toList]
  · intro l hl
    obtain ⟨c, hc, rfl⟩ := List.mem_map.mp hl
    exact h c hc
  · simpa using hne

theorem joinSlash_splitSlash (s : String) : joinSlash (splitSlash s) = s := by
  apply String.toList_inj.mp
  rw [joinSlash_toList, splitSlash, List.map_map]
  simp [Function.comp_def, String.toList_ofList]

theorem splitSlash_injective : Function.Injective splitSlash := by
  intro a b h
  rw [← joinSlash_splitSlash a, h, joinSlash_splitSlash]

theorem joinSlash_ne_empty {parts : List String} (hne : parts ≠ [])
    (h : ∀ c ∈ parts, ValidName c) : joinSlash parts ≠ "" := by
  intro he
  have hs := splitSlash_joinSlash hne fun c hc => (h c hc).2.2.2
  rw [he] at hs
  have hmem : "" ∈ parts := by
    rw [← hs]
    decide
  exact (h _ hmem).1 rfl

theorem joinSlash_ne_dot {parts : List String} (hne : parts ≠ [])
    (h : ∀ c ∈ parts, ValidName c) : joinSlash parts ≠ "." := by
  intro he
  have hs := splitSlash_joinSlash hne fun c hc => (h c hc).2.2.2
  rw [he] at hs
  have hmem : "." ∈ parts := by
    rw [← hs]
    decide
  exact (h _ hmem).2.1 rfl

theorem components_ofComponents {cs : List String} (h : ∀ c ∈ cs, ValidName c) :
    components (ofComponents cs) = cs := by
  by_cases hne : cs = []
  · subst hne
    rfl
  · rw [ofComponents, if_neg hne, components, if_neg (joinSlash_ne_dot hne h),
      splitSlash_joinSlash hne fun c hc => (h c hc).2.2.2]

theorem ofComponents_components (p : String) : ofComponents (components p) = p := by
  by_cases hp : p = "."
  · subst hp
    rfl
  · rw [components, if_neg hp, ofComponents, if_neg (splitSlash_ne_nil p), joinSlash_splitSlash]

theorem components_injective : Function.Injective components := by
  intro a b h
  rw [← ofComponents_components a, h, ofComponents_components]

@[simp] theorem components_dot : components "." = [] := rfl

theorem components_eq_nil {p : String} : components p = [] ↔ p = "." := by
  constructor
  · intro h
    rw [← ofComponents_components p, h]
    rfl
  · rintro rfl
    rfl

/-! ## Validity and cleaning -/

theorem head_splitSlash_of_startsWithSlash {p : String} (h : startsWithSlash p = true) :
    "" ∈ splitSlash p := by
  simp only [startsWithSlash, beq_iff_eq] at h
  obtain ⟨rest, hrest⟩ : ∃ rest, p.toList = '/' :: rest := by
    cases hp : p.toList with
    | nil => simp [hp] at h
    | cons c rest =>
      simp only [hp, List.head?_cons, Option.some.injEq] at h
      exact ⟨rest, by rw [h]⟩
  rw [splitSlash, hrest, List.splitOn_cons_eq_if_modifyHead]
  simp

theorem getLast_splitSlash_of_endsWithSlash {p : String} (h : endsWithSlash p = true) :
    "" ∈ splitSlash p := by
  simp only [endsWithSlash, beq_iff_eq] at h
  obtain ⟨front, hfront⟩ := List.getLast?_eq_some_iff.mp h
  rw [splitSlash, hfront, List.splitOn_append_cons_self]
  simp [List.splitOn_eq_singleton]

/-- A path is valid exactly when it is the root or all of its parts are names. -/
theorem validPath_iff {p : String} :
    validPath p = true ↔ p = "." ∨ ∀ c ∈ splitSlash p, ValidName c := by
  by_cases hdot : p = "."
  · simp [validPath, hdot]
  · have hempty : p = "" → "" ∈ splitSlash p := by
      rintro rfl
      decide
    simp only [validPath, hdot, if_false, false_or]
    split
    · rename_i hbad
      have hmem : "" ∈ splitSlash p := by
        simp only [decide_eq_true_eq, Bool.or_eq_true] at hbad
        rcases hbad with (h | h) | h
        · exact hempty h
        · exact head_splitSlash_of_startsWithSlash h
        · exact getLast_splitSlash_of_endsWithSlash h
      simp only [Bool.false_eq_true, false_iff, not_forall]
      exact ⟨"", hmem, fun hv => hv.1 rfl⟩
    · simp only [List.all_eq_true, decide_not, Bool.and_eq_true, Bool.not_eq_eq_eq_not, Bool.not_true,
        decide_eq_false_iff_not, ValidName]
      constructor
      · intro h c hc
        exact ⟨(h c hc).1.1, (h c hc).1.2, (h c hc).2, slash_not_mem_of_mem_splitSlash hc⟩
      · intro h c hc
        exact ⟨⟨(h c hc).1, (h c hc).2.1⟩, (h c hc).2.2.1⟩

theorem validPath_dot : validPath "." = true := rfl

theorem validName_of_mem_components {p c : String} (hp : validPath p = true)
    (hc : c ∈ components p) : ValidName c := by
  rcases validPath_iff.mp hp with rfl | h
  · simp at hc
  · by_cases hdot : p = "."
    · simp [hdot] at hc
    · rw [components, if_neg hdot] at hc
      exact h c hc

theorem validPath_ofComponents {cs : List String} (h : ∀ c ∈ cs, ValidName c) :
    validPath (ofComponents cs) = true := by
  by_cases hne : cs = []
  · subst hne
    rfl
  · rw [validPath_iff]
    right
    rw [ofComponents, if_neg hne, splitSlash_joinSlash hne fun c hc => (h c hc).2.2.2]
    exact h

theorem cleanStep_valid {parts : List String} {part : String} (h : ∀ c ∈ parts, ValidName c)
    (hpart : '/' ∉ part.toList) : ∀ c ∈ cleanStep parts part, ValidName c := by
  unfold cleanStep
  split
  · exact h
  · split
    · exact fun c hc => h c (List.mem_of_mem_dropLast hc)
    · rename_i hne hdd
      intro c hc
      rcases List.mem_append.mp hc with hc | hc
      · exact h c hc
      · rw [List.mem_singleton] at hc
        subst hc
        exact ⟨fun h => hne (Or.inl h), fun h => hne (Or.inr h), hdd, hpart⟩

/-- The invariant of the cleaning loop: only names are kept. -/
theorem foldl_cleanStep_valid {parts todo : List String} (h : ∀ c ∈ parts, ValidName c)
    (htodo : ∀ c ∈ todo, '/' ∉ c.toList) : ∀ c ∈ todo.foldl cleanStep parts, ValidName c := by
  induction todo generalizing parts with
  | nil => exact h
  | cons part todo ih =>
    exact ih (cleanStep_valid h (htodo part (by simp))) fun c hc => htodo c (by simp [hc])

theorem cleaned_parts_valid (s : String) : ∀ c ∈ (splitSlash s).foldl cleanStep [], ValidName c :=
  foldl_cleanStep_valid (by simp) fun _ hc => slash_not_mem_of_mem_splitSlash hc

theorem trimStartSlash_joinSlash {parts : List String} (hne : parts ≠ [])
    (h : ∀ c ∈ parts, ValidName c) : trimStartSlash (joinSlash parts) = joinSlash parts := by
  apply String.toList_inj.mp
  rw [trimStartSlash, String.toList_ofList]
  obtain ⟨c, cs, rfl⟩ := List.exists_cons_of_ne_nil hne
  obtain ⟨hc, -, -, hslash⟩ := h c (by simp)
  obtain ⟨x, xs, hx⟩ := List.exists_cons_of_ne_nil (fun he => hc (String.toList_eq_nil_iff.mp he))
  have hxs : ∃ rest, (joinSlash (c :: cs)).toList = x :: rest := by
    rw [joinSlash_toList, List.map_cons, hx]
    cases cs with
    | nil => exact ⟨xs, by simp⟩
    | cons d ds => exact ⟨_, by rw [List.map_cons, List.intercalate_cons_cons, List.cons_append,
        List.cons_append]⟩
  obtain ⟨rest, hrest⟩ := hxs
  have hne : (x == '/') = false := by
    rw [beq_eq_false_iff_ne]
    rintro rfl
    exact hslash (by simp [hx])
  rw [hrest, List.dropWhile_cons, hne]
  simp

/-- Cleaning keeps the surviving parts and nothing else. -/
theorem cleanPath_eq (s : String) : cleanPath s = ofComponents ((splitSlash s).foldl cleanStep []) := by
  have hv := cleaned_parts_valid s
  unfold cleanPath
  split
  · rename_i h
    rcases h with rfl | rfl <;> decide
  · by_cases hne : (splitSlash s).foldl cleanStep [] = []
    · simp [hne, ofComponents, joinSlash]
    · simp only [joinSlash_ne_empty hne hv, if_false, ofComponents, hne]
      split
      · exact trimStartSlash_joinSlash hne hv
      · rfl

theorem cleanPath_valid (s : String) : validPath (cleanPath s) = true := by
  rw [cleanPath_eq]
  exact validPath_ofComponents (cleaned_parts_valid s)

theorem foldl_cleanStep_of_valid {parts todo : List String} (h : ∀ c ∈ todo, ValidName c) :
    todo.foldl cleanStep parts = parts ++ todo := by
  induction todo generalizing parts with
  | nil => simp
  | cons c todo ih =>
    obtain ⟨h1, h2, h3, -⟩ := h c (by simp)
    have hstep : cleanStep parts c = parts ++ [c] := by
      simp [cleanStep, h1, h2, h3]
    rw [List.foldl_cons, hstep, ih fun d hd => h d (by simp [hd])]
    simp

theorem cleanPath_of_valid {p : String} (hp : validPath p = true) : cleanPath p = p := by
  rcases validPath_iff.mp hp with rfl | h
  · decide
  · rw [cleanPath_eq, foldl_cleanStep_of_valid h, List.nil_append, ofComponents,
      if_neg (splitSlash_ne_nil p), joinSlash_splitSlash]

@[simp] theorem cleanPath_cleanPath (s : String) : cleanPath (cleanPath s) = cleanPath s :=
  cleanPath_of_valid (cleanPath_valid s)

/-! ## Parent and base name -/

theorem parentPath_eq (p : String) : parentPath p = ofComponents (components (cleanPath p)).dropLast := by
  unfold parentPath
  by_cases hdot : cleanPath p = "."
  · simp [hdot, ofComponents]
  · have hne := splitSlash_ne_nil (cleanPath p)
    simp only [hdot, if_false, rsplitOnceSlash, components, ofComponents]
    split
    · rename_i hlen
      obtain ⟨c, cs, hcs⟩ := List.exists_cons_of_ne_nil hne
      rw [hcs, List.length_cons] at hlen
      have : cs = [] := List.eq_nil_of_length_eq_zero (by omega)
      simp [hcs, this]
    · rename_i hlen
      have : (splitSlash (cleanPath p)).dropLast ≠ [] := by
        intro he
        have := congrArg List.length he
        rw [List.length_dropLast, List.length_nil] at this
        omega
      simp [this]

theorem components_parentPath {p : String} (hp : validPath p = true) :
    components (parentPath p) = (components p).dropLast := by
  rw [parentPath_eq, cleanPath_of_valid hp, components_ofComponents]
  exact fun c hc => validName_of_mem_components hp (List.mem_of_mem_dropLast hc)

theorem parentPath_valid (p : String) : validPath (parentPath p) = true := by
  rw [parentPath_eq]
  exact validPath_ofComponents fun c hc =>
    validName_of_mem_components (cleanPath_valid p) (List.mem_of_mem_dropLast hc)

@[simp] theorem parentPath_dot : parentPath "." = "." := by decide

theorem components_eq_dropLast_append {p : String} (hdot : p ≠ ".") :
    components p = (components p).dropLast ++ [baseName p] := by
  have hne := splitSlash_ne_nil p
  rw [components, if_neg hdot, baseName, List.getLast?_eq_getLast_of_ne_nil hne, Option.getD_some,
    List.dropLast_append_getLast hne]

/-- A valid path other than the root is its parent followed by its base name. -/
theorem components_parent_base {p : String} (hp : validPath p = true) (hdot : p ≠ ".") :
    components p = components (parentPath p) ++ [baseName p] := by
  rw [components_parentPath hp]
  exact components_eq_dropLast_append hdot

theorem baseName_validName {p : String} (hp : validPath p = true) (hdot : p ≠ ".") :
    ValidName (baseName p) :=
  validName_of_mem_components hp (by rw [components_eq_dropLast_append hdot]; simp)

theorem parentPath_ne_self {p : String} (hp : validPath p = true) (hdot : p ≠ ".") : parentPath p ≠ p := by
  intro h
  have hc := components_parent_base hp hdot
  rw [h] at hc
  simpa using congrArg List.length hc

end Star9
