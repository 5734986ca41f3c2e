import Star9.Core.PathOrder

/-!
# Laws of cleaning

Cleaning folds the parts of a text over the names kept so far, so what stands before a slash may
be cleaned first. On valid paths it changes nothing, and the relative path below a root is the
list of names after those of the root.
-/
namespace Star9

def relativeUnder (root name : String) : Option String :=
  if root = name then some "."
  else if root = "." then some (cleanPath name)
  else ((stripPrefix root name).bind (stripPrefix "/")).map cleanPath

theorem components_cleanPath (s : String) : components (cleanPath s) = (splitSlash s).foldl cleanStep [] := by
  rw [cleanPath_eq, components_ofComponents (cleaned_parts_valid s)]

/-- The parts of a valid path are kept as they are. -/
theorem foldl_cleanStep_splitSlash {p : String} (hp : validPath p = true) :
    (splitSlash p).foldl cleanStep [] = components p := by
  rw [← components_cleanPath, cleanPath_of_valid hp]

/-- A `..` of the second text drops what the first one leaves, however that is spelled. -/
theorem cleanPath_cleanPath_append (a b : String) : cleanPath (cleanPath a ++ "/" ++ b) = cleanPath (a ++ "/" ++ b) := by
  have hfirst : (splitSlash (cleanPath a)).foldl cleanStep [] = (splitSlash a).foldl cleanStep [] := by
    rw [foldl_cleanStep_splitSlash (cleanPath_valid a), components_cleanPath]
  rw [cleanPath_eq (cleanPath a ++ "/" ++ b), cleanPath_eq (a ++ "/" ++ b), splitSlash_append, splitSlash_append,
    List.foldl_append, List.foldl_append, hfirst]

theorem splitSlash_of_ne_dot {r : String} (hr : r ≠ ".") : splitSlash r = components r := by
  rw [components, if_neg hr]

section Relative
variable {root name : String}

/-- Below a root other than the top, the relative path is the text after the slash. -/
theorem relativeUnder_of_ne (hname : validPath name = true) (hne : root ≠ name) (hroot : root ≠ ".") (r : String) :
    relativeUnder root name = some r ↔ r ≠ "." ∧ components name = components root ++ components r := by
  have hstrip : ∀ rest, (stripPrefix root name).bind (stripPrefix "/") = some rest ↔
      components name = components root ++ splitSlash rest := by
    intro rest
    rw [Option.bind_eq_some_iff, ← stripPrefix_slash hroot]
    simp only [stripPrefix_eq_some]
    constructor
    · rintro ⟨tail, rfl, rfl⟩
      rw [String.append_assoc]
    · intro h
      exact ⟨"/" ++ rest, by rw [h, String.append_assoc], rfl⟩
  -- what is left of a valid name is valid, so cleaning keeps it
  have hrest : ∀ rest, components name = components root ++ splitSlash rest → rest ≠ "." ∧ cleanPath rest = rest := by
    intro rest h
    have hall : ∀ c ∈ splitSlash rest, ValidName c :=
      fun c hc => validName_of_mem_components hname (by rw [h]; exact List.mem_append_right _ hc)
    refine ⟨?_, cleanPath_of_valid (validPath_iff.mpr (Or.inr hall))⟩
    rintro rfl
    exact (hall "." (by decide)).2.1 rfl
  rw [relativeUnder, if_neg hne, if_neg hroot, Option.map_eq_some_iff]
  constructor
  · rintro ⟨rest, hsome, rfl⟩
    have hcomps := (hstrip rest).mp hsome
    obtain ⟨hdot, hclean⟩ := hrest rest hcomps
    rw [hclean, ← splitSlash_of_ne_dot hdot]
    exact ⟨hdot, hcomps⟩
  · rintro ⟨hdot, hcomps⟩
    rw [← splitSlash_of_ne_dot hdot] at hcomps
    exact ⟨r, (hstrip r).mpr hcomps, (hrest r hcomps).2⟩

theorem relativeUnder_eq_some (hname : validPath name = true) (r : String) :
    relativeUnder root name = some r ↔ validPath r = true ∧ components name = components root ++ components r := by
  by_cases hne : root = name
  · subst hne
    rw [relativeUnder, if_pos rfl, Option.some.injEq]
    constructor
    · rintro rfl
      exact ⟨validPath_dot, by simp⟩
    · rintro ⟨-, hcomps⟩
      exact (components_eq_nil.mp (List.self_eq_append_right.mp hcomps)).symm
  · by_cases hroot : root = "."
    · subst hroot
      rw [relativeUnder, if_neg hne, if_pos rfl, Option.some.injEq, cleanPath_of_valid hname, components_dot, List.nil_append]
      constructor
      · rintro rfl
        exact ⟨hname, rfl⟩
      · exact fun h => components_injective h.2
    · rw [relativeUnder_of_ne hname hne hroot]
      refine and_congr_left fun hcomps => ⟨fun _ => ?_, ?_⟩
      · have hall : ∀ c ∈ components r, ValidName c :=
          fun c hc => validName_of_mem_components hname (by rw [hcomps]; exact List.mem_append_right _ hc)
        rw [← ofComponents_components r]
        exact validPath_ofComponents hall
      · rintro - rfl
        rw [components_dot, List.append_nil] at hcomps
        exact hne (components_injective hcomps.symm)

end Relative

/-- Cleaning is a retraction onto the valid paths, which splits at every slash; a valid path is
its parent joined with its name; a path below a root is the root joined with the relative path. -/
theorem cleanPath_retraction :
    (∀ s, validPath (cleanPath s) = true) ∧ (∀ s, validPath s = true → cleanPath s = s) ∧
    (∀ s, cleanPath (cleanPath s) = cleanPath s) ∧
    (∀ a b, cleanPath (a ++ "/" ++ b) = cleanPath (cleanPath a ++ "/" ++ b)) ∧
    (∀ p, validPath p = true → p ≠ "." → childPath (parentPath p) (baseName p) = p) ∧
    (∀ root name r, validPath root = true → validPath name = true →
      (relativeUnder root name = some r ↔ validPath r = true ∧ components name = components root ++ components r)) :=
  ⟨cleanPath_valid, fun _ => cleanPath_of_valid, fun s => cleanPath_of_valid (cleanPath_valid s),
    fun a b => (cleanPath_cleanPath_append a b).symm, fun _ => childPath_parent_base, fun _ _ r _ hname => relativeUnder_eq_some hname r⟩

theorem cleanPath_retraction_of_ab :
    cleanPath "a/b" = "a/b" ∧ childPath (parentPath "a/b") (baseName "a/b") = "a/b" ∧
      (relativeUnder "a" "a/b" = some "b" ↔ validPath "b" = true ∧ components "a/b" = components "a" ++ components "b") :=
  ⟨cleanPath_retraction.2.1 "a/b" (by decide), cleanPath_retraction.2.2.2.2.1 "a/b" (by decide) (by decide),
    cleanPath_retraction.2.2.2.2.2 "a" "a/b" "b" (by decide) (by decide)⟩

end Star9
