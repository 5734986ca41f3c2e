import Star9.Core.Path

/-!
# Paths below a path

One path lies below another when its component list properly extends the other's.
The string tests of the source (a prefix followed by a slash) decide this order.
-/
namespace Star9

/-- `q` lies strictly below `p`. -/
def below (p q : String) : Bool := (components p).isPrefixOf (components q) && p != q

theorem below_iff {p q : String} : below p q = true ↔ ∃ c cs, components q = components p ++ c :: cs := by
  rw [below, Bool.and_eq_true, List.isPrefixOf_iff_prefix, bne_iff_ne]
  constructor
  · rintro ⟨⟨t, ht⟩, hne⟩
    cases t with
    | nil =>
      rw [List.append_nil] at ht
      exact absurd (components_injective ht) hne
    | cons c cs => exact ⟨c, cs, ht.symm⟩
  · rintro ⟨c, cs, h⟩
    refine ⟨⟨c :: cs, h.symm⟩, ?_⟩
    rintro rfl
    simpa using congrArg List.length h

theorem below_irrefl (p : String) : below p p = false := by
  simp [below]

theorem below_trans {p q r : String} (h₁ : below p q = true) (h₂ : below q r = true) :
    below p r = true := by
  obtain ⟨c, cs, hq⟩ := below_iff.mp h₁
  obtain ⟨d, ds, hr⟩ := below_iff.mp h₂
  exact below_iff.mpr ⟨c, cs ++ d :: ds, by rw [hr, hq]; simp⟩

theorem below_asymm {p q : String} (h : below p q = true) : below q p = false := by
  by_contra hq
  have := below_trans h (by simpa using hq)
  rw [below_irrefl] at this
  cases this

theorem ne_of_below {p q : String} (h : below p q = true) : p ≠ q := by
  rintro rfl
  rw [below_irrefl] at h
  cases h

theorem below_ne_dot {p q : String} (h : below p q = true) : q ≠ "." := by
  rintro rfl
  obtain ⟨c, cs, hq⟩ := below_iff.mp h
  simp at hq

theorem below_dot_iff {q : String} : below "." q = true ↔ q ≠ "." := by
  constructor
  · exact below_ne_dot
  · intro hq
    obtain ⟨c, cs, hc⟩ := List.exists_cons_of_ne_nil fun h => hq (components_eq_nil.mp h)
    exact below_iff.mpr ⟨c, cs, by simp [hc]⟩

/-- The paths below `p` are those whose parent is `p` or lies below it. -/
theorem below_iff_parent {p q : String} (hq : validPath q = true) (hdot : q ≠ ".") :
    below p q = true ↔ parentPath q = p ∨ below p (parentPath q) = true := by
  have hc := components_parent_base hq hdot
  constructor
  · intro h
    obtain ⟨c, cs, hpq⟩ := below_iff.mp h
    rw [hc, ← List.dropLast_concat_getLast (List.cons_ne_nil c cs), ← List.append_assoc] at hpq
    have hpar : components (parentPath q) = components p ++ (c :: cs).dropLast :=
      (List.append_inj_left' hpq rfl)
    cases hd : (c :: cs).dropLast with
    | nil =>
      rw [hd, List.append_nil] at hpar
      exact Or.inl (components_injective hpar)
    | cons d ds => exact Or.inr (below_iff.mpr ⟨d, ds, by rw [hpar, hd]⟩)
  · rintro (rfl | h)
    · exact below_iff.mpr ⟨_, [], hc⟩
    · exact below_trans h (below_iff.mpr ⟨_, [], hc⟩)

theorem below_parentPath {q : String} (hq : validPath q = true) (hdot : q ≠ ".") :
    below (parentPath q) q = true :=
  (below_iff_parent hq hdot).mpr (Or.inl rfl)

/-! ## Prefix tests on strings -/

theorem stripPrefix_eq_some {pre s r : String} : stripPrefix pre s = some r ↔ s = pre ++ r := by
  unfold stripPrefix
  constructor
  · intro h
    split at h
    · rename_i hpre
      obtain ⟨t, ht⟩ := hpre
      rw [Option.some.injEq] at h
      subst h
      apply String.toList_inj.mp
      rw [String.toList_append, String.toList_ofList, ← ht, List.drop_left]
    · cases h
  · rintro rfl
    rw [String.toList_append, if_pos (List.prefix_append _ _), List.drop_left, String.ofList_toList]

theorem splitSlash_append (a b : String) : splitSlash (a ++ "/" ++ b) = splitSlash a ++ splitSlash b := by
  have hne : splitSlash a ++ splitSlash b ≠ [] := by simp [splitSlash_ne_nil]
  have hmem : ∀ c ∈ splitSlash a ++ splitSlash b, '/' ∉ c.toList := by
    intro c hc
    rcases List.mem_append.mp hc with h | h <;> exact slash_not_mem_of_mem_splitSlash h
  rw [← splitSlash_joinSlash hne hmem]
  congr 1
  rw [joinSlash, String.intercalate_append_of_ne_nil (splitSlash_ne_nil a) (splitSlash_ne_nil b)]
  rw [← joinSlash, ← joinSlash, joinSlash_splitSlash, joinSlash_splitSlash]

theorem components_append_slash {p : String} (hp : p ≠ ".") (r : String) :
    components (p ++ "/" ++ r) = components p ++ splitSlash r := by
  have hne : p ++ "/" ++ r ≠ "." := by
    intro h
    have : '/' ∈ (p ++ "/" ++ r).toList := by simp [String.toList_append]
    rw [h] at this
    simp at this
  rw [components, if_neg hne, components, if_neg hp, splitSlash_append]

theorem stripPrefix_slash {p q r : String} (hp : p ≠ ".") :
    stripPrefix (p ++ "/") q = some r ↔ components q = components p ++ splitSlash r := by
  rw [stripPrefix_eq_some]
  constructor
  · rintro rfl
    exact components_append_slash hp r
  · intro h
    rw [← components_append_slash hp] at h
    exact components_injective h

theorem stripPrefix_slash_isSome {p q : String} (hp : p ≠ ".") (hq : validPath q = true) :
    (stripPrefix (p ++ "/") q).isSome = below p q := by
  rw [Bool.eq_iff_iff, Option.isSome_iff_exists, below_iff]
  constructor
  · rintro ⟨r, hr⟩
    rw [stripPrefix_slash hp] at hr
    obtain ⟨c, cs, hc⟩ := List.exists_cons_of_ne_nil (splitSlash_ne_nil r)
    exact ⟨c, cs, by rw [hr, hc]⟩
  · rintro ⟨c, cs, h⟩
    refine ⟨joinSlash (c :: cs), (stripPrefix_slash hp).mpr ?_⟩
    rw [h, splitSlash_joinSlash (List.cons_ne_nil c cs)]
    intro d hd
    exact (validName_of_mem_components hq (by rw [h]; simp_all)).2.2.2

theorem splitSlash_of_no_slash {c : String} (h : '/' ∉ c.toList) : splitSlash c = [c] := by
  have hne : [c] ≠ [] := List.cons_ne_nil c []
  have := splitSlash_joinSlash hne (by simpa using h)
  simpa [joinSlash] using this

/-- No valid path goes through a component `.`. -/
theorem stripPrefix_dot_slash {q : String} (hq : validPath q = true) : stripPrefix ("." ++ "/") q = none := by
  by_contra hne
  obtain ⟨r, hr⟩ := Option.ne_none_iff_exists'.mp hne
  rw [stripPrefix_eq_some] at hr
  have hdot : q ≠ "." := by
    intro h
    have hslash : '/' ∈ ("." ++ "/" ++ r).toList := by simp [String.toList_append]
    rw [← hr, h] at hslash
    simp at hslash
  have hmem : "." ∈ components q := by
    rw [components, if_neg hdot, hr, splitSlash_append, splitSlash_of_no_slash (by decide)]
    exact List.mem_append_left _ List.mem_cons_self
  exact (validName_of_mem_components hq hmem).2.1 rfl

/-! ## Children -/

theorem components_childPath (p : String) {c : String} (hc : ValidName c) :
    components (childPath p c) = components p ++ [c] := by
  have hs := splitSlash_of_no_slash hc.2.2.2
  unfold childPath
  split
  · rename_i hp
    rw [hp, components, if_neg hc.2.1, hs]
    rfl
  · rename_i hp
    rw [components_append_slash hp, hs]

theorem childPath_valid {p c : String} (hp : validPath p = true) (hc : ValidName c) :
    validPath (childPath p c) = true := by
  rw [← ofComponents_components (childPath p c), components_childPath p hc]
  refine validPath_ofComponents fun d hd => ?_
  rcases List.mem_append.mp hd with h | h
  · exact validName_of_mem_components hp h
  · rwa [List.mem_singleton.mp h]

theorem childPath_ne_dot (p : String) {c : String} (hc : ValidName c) : childPath p c ≠ "." := by
  intro h
  have := components_childPath p hc
  rw [h] at this
  simp at this

theorem parentPath_childPath {p c : String} (hp : validPath p = true) (hc : ValidName c) :
    parentPath (childPath p c) = p := by
  apply components_injective
  rw [components_parentPath (childPath_valid hp hc), components_childPath p hc, List.dropLast_concat]

theorem baseName_childPath (p : String) {c : String} (hc : ValidName c) :
    baseName (childPath p c) = c := by
  have h := components_eq_dropLast_append (childPath_ne_dot p hc)
  rw [components_childPath p hc, List.dropLast_concat] at h
  simpa using h.symm

theorem childPath_parent_base {q : String} (hq : validPath q = true) (hdot : q ≠ ".") :
    childPath (parentPath q) (baseName q) = q := by
  apply components_injective
  rw [components_childPath _ (baseName_validName hq hdot), ← components_parent_base hq hdot]

theorem below_childPath (p : String) {c : String} (hc : ValidName c) : below p (childPath p c) = true :=
  below_iff.mpr ⟨c, [], components_childPath p hc⟩

/-! ## Moving a subtree -/

/-- `q` is `p` or lies below it. -/
def within (p q : String) : Bool := (components p).isPrefixOf (components q)

theorem within_iff {p q : String} : within p q = true ↔ ∃ cs, components q = components p ++ cs := by
  rw [within, List.isPrefixOf_iff_prefix]
  constructor
  · rintro ⟨t, ht⟩
    exact ⟨t, ht.symm⟩
  · rintro ⟨t, ht⟩
    exact ⟨t, ht.symm⟩

theorem within_iff_below {p q : String} : within p q = true ↔ q = p ∨ below p q = true := by
  rw [below, Bool.and_eq_true, bne_iff_ne, ← within]
  constructor
  · intro h
    by_cases hpq : q = p
    · exact Or.inl hpq
    · exact Or.inr ⟨h, Ne.symm hpq⟩
  · rintro (rfl | h)
    · exact within_iff.mpr ⟨[], by simp⟩
    · exact h.1

@[simp] theorem within_self (p : String) : within p p = true := within_iff_below.mpr (Or.inl rfl)

theorem within_trans {p q r : String} (h₁ : within p q = true) (h₂ : within q r = true) : within p r = true := by
  rw [within_iff] at h₁ h₂ ⊢
  obtain ⟨cs, hcs⟩ := h₁
  obtain ⟨ds, hds⟩ := h₂
  exact ⟨cs ++ ds, by rw [hds, hcs, List.append_assoc]⟩

theorem within_of_below {p q : String} (h : below p q = true) : within p q = true := within_iff_below.mpr (Or.inr h)

/-- Of two paths above one path, one is above the other. -/
theorem within_total {p q r : String} (h₁ : within p r = true) (h₂ : within q r = true) :
    within p q = true ∨ within q p = true := by
  rw [within_iff] at h₁ h₂
  obtain ⟨cs, hcs⟩ := h₁
  obtain ⟨ds, hds⟩ := h₂
  rcases List.prefix_or_prefix_of_prefix ⟨cs, hcs.symm⟩ ⟨ds, hds.symm⟩ with h | h
  · exact Or.inl (List.isPrefixOf_iff_prefix.mpr h)
  · exact Or.inr (List.isPrefixOf_iff_prefix.mpr h)

theorem within_of_within_parentPath {p q : String} (hp : validPath p = true) (h : within q (parentPath p) = true) :
    within q p = true := by
  by_cases hdot : p = "."
  · subst hdot
    rwa [parentPath_dot] at h
  · exact within_trans h (within_of_below (below_parentPath hp hdot))

/-- The place of `q` after the subtree at `old` has been moved to `new`. -/
def rebase (old new q : String) : String :=
  ofComponents (components new ++ (components q).drop (components old).length)

theorem components_rebase {old new q : String} (hnew : validPath new = true) (hq : validPath q = true) :
    components (rebase old new q) = components new ++ (components q).drop (components old).length := by
  refine components_ofComponents fun c hc => ?_
  rcases List.mem_append.mp hc with h | h
  · exact validName_of_mem_components hnew h
  · exact validName_of_mem_components hq (List.mem_of_mem_drop h)

theorem rebase_valid {old new q : String} (hnew : validPath new = true) (hq : validPath q = true) :
    validPath (rebase old new q) = true := by
  refine validPath_ofComponents fun c hc => ?_
  rcases List.mem_append.mp hc with h | h
  · exact validName_of_mem_components hnew h
  · exact validName_of_mem_components hq (List.mem_of_mem_drop h)

theorem within_rebase {old new q : String} (hnew : validPath new = true) (hq : validPath q = true) :
    within new (rebase old new q) = true :=
  within_iff.mpr ⟨_, components_rebase hnew hq⟩

theorem rebase_rebase {old new q : String} (hnew : validPath new = true) (hq : validPath q = true)
    (h : within old q = true) : rebase new old (rebase old new q) = q := by
  obtain ⟨cs, hcs⟩ := within_iff.mp h
  rw [rebase, components_rebase hnew hq, List.drop_left, hcs, List.drop_left, ← hcs,
    ofComponents_components]

theorem rebase_self {old new : String} : rebase old new old = new := by
  rw [rebase, List.drop_length, List.append_nil, ofComponents_components]

/-- The string the source builds for a moved key. -/
theorem append_stripPrefix_eq_rebase {old new q : String} (hold : old ≠ ".") (hnew : new ≠ ".")
    (hq : validPath q = true) (h : within old q = true) :
    new ++ (stripPrefix old q).getD "" = rebase old new q := by
  obtain ⟨cs, hcs⟩ := within_iff.mp h
  cases cs with
  | nil =>
    rw [List.append_nil] at hcs
    obtain rfl := components_injective hcs
    rw [rebase_self, (stripPrefix_eq_some (r := "")).mpr (by simp)]
    simp
  | cons c cs =>
    have hs : splitSlash (joinSlash (c :: cs)) = c :: cs := by
      refine splitSlash_joinSlash (List.cons_ne_nil c cs) fun d hd => ?_
      exact (validName_of_mem_components hq (by rw [hcs]; simp_all)).2.2.2
    have hq' : q = old ++ ("/" ++ joinSlash (c :: cs)) := by
      apply components_injective
      rw [← String.append_assoc, components_append_slash hold, hs, hcs]
    rw [stripPrefix_eq_some.mpr hq', Option.getD_some, ← String.append_assoc]
    rw [← ofComponents_components (new ++ "/" ++ joinSlash (c :: cs)), components_append_slash hnew, hs,
      rebase, hcs, List.drop_left]

theorem rebase_parentPath {old new q : String} (hnew : validPath new = true) (hq : validPath q = true)
    (h : below old q = true) : parentPath (rebase old new q) = rebase old new (parentPath q) := by
  obtain ⟨c, cs, hcs⟩ := below_iff.mp h
  apply components_injective
  rw [components_parentPath (rebase_valid hnew hq), components_rebase hnew hq,
    components_rebase hnew (parentPath_valid q), components_parentPath hq, hcs, List.drop_left,
    List.dropLast_append_of_ne_nil (List.cons_ne_nil c cs),
    List.dropLast_append_of_ne_nil (List.cons_ne_nil c cs), List.drop_left]

theorem below_rebase {old new q : String} (hnew : validPath new = true) (hq : validPath q = true)
    (h : below old q = true) : below new (rebase old new q) = true := by
  obtain ⟨c, cs, hcs⟩ := below_iff.mp h
  exact below_iff.mpr ⟨c, cs, by rw [components_rebase hnew hq, hcs, List.drop_left]⟩

theorem getLast?_components {p : String} (hp : validPath p = true) (hdot : p ≠ ".") :
    (components p).getLast? = some (baseName p) := by
  rw [components_parent_base hp hdot, List.getLast?_concat]

theorem baseName_rebase {old new q : String} (hnew : validPath new = true) (hq : validPath q = true)
    (h : below old q = true) : baseName (rebase old new q) = baseName q := by
  obtain ⟨c, cs, hcs⟩ := below_iff.mp h
  have hlast := getLast?_components hq (below_ne_dot h)
  have hmoved := getLast?_components (rebase_valid hnew hq) (below_ne_dot (below_rebase hnew hq h))
  rw [hcs, List.getLast?_append_of_ne_nil _ (List.cons_ne_nil c cs)] at hlast
  rw [components_rebase hnew hq, hcs, List.drop_left, List.getLast?_append_of_ne_nil _ (List.cons_ne_nil c cs)] at hmoved
  exact Option.some.inj (hmoved.symm.trans hlast)

/-! ## Names below a path -/

/-- The path that further names lead to. -/
def descend (p : String) (names : List String) : String := ofComponents (components p ++ names)

@[simp] theorem descend_nil (p : String) : descend p [] = p := by
  rw [descend, List.append_nil, ofComponents_components]

section
variable {p : String} (hp : validPath p = true) {names : List String} (hnames : ∀ c ∈ names, ValidName c)
include hp hnames

theorem validName_of_mem_append {c : String} (hc : c ∈ components p ++ names) : ValidName c := by
  rcases List.mem_append.mp hc with h | h
  · exact validName_of_mem_components hp h
  · exact hnames c h

theorem components_descend : components (descend p names) = components p ++ names :=
  components_ofComponents fun _ hc => validName_of_mem_append hp hnames hc

theorem within_descend : within p (descend p names) = true := within_iff.mpr ⟨names, components_descend hp hnames⟩

end

theorem descend_childPath (p : String) {c : String} (hc : ValidName c) (names : List String) :
    descend (childPath p c) names = descend p (c :: names) := by
  rw [descend, descend, components_childPath p hc, List.append_assoc, List.singleton_append]

/-- What lies within a path is reached by names. -/
theorem eq_descend_of_within {p q : String} (hq : validPath q = true) (h : within p q = true) :
    ∃ names, (∀ c ∈ names, ValidName c) ∧ q = descend p names := by
  obtain ⟨names, hnames⟩ := within_iff.mp h
  refine ⟨names, fun c hc => validName_of_mem_components hq (hnames ▸ List.mem_append_right _ hc), ?_⟩
  rw [descend, ← hnames, ofComponents_components]

/-- Paths below two children of one path are apart. -/
theorem within_childPath_of_ne (p : String) {c d : String} (hc : ValidName c) (hd : ValidName d) (hne : c ≠ d) {q : String}
    (h : within (childPath p d) q = true) : within (childPath p c) q = false := by
  by_contra hwithin
  rw [Bool.not_eq_false, within_iff, components_childPath p hc] at hwithin
  rw [within_iff, components_childPath p hd] at h
  obtain ⟨cs, hcs⟩ := hwithin
  obtain ⟨ds, hds⟩ := h
  rw [hcs, List.append_assoc, List.append_assoc] at hds
  exact hne (List.cons.inj (List.append_cancel_left hds)).1

theorem within_of_within_childPath {p c q : String} (hc : ValidName c) (h : within (childPath p c) q = true) : within p q = true :=
  within_trans (within_of_below (below_childPath p hc)) h

end Star9
