import Star9.Rc.Expand

/-!
# What a pattern means

A pattern is read as a list of items, and matches the texts that split into segments which the
items accept in order. The reading is a grammar: every text has one reading, and the matcher,
which reads the pattern while it backtracks over the value, agrees with it.
-/
namespace Star9.Rc
open Base

/-! ## Readings -/

inductive ClassMember where
  | single (c : Char)
  | range (low high : Char)

def ClassMember.Has : ClassMember → Char → Prop
  | .single a, v => a = v
  | .range low high, v => low ≤ v ∧ v ≤ high

/-- The members between the brackets; a dash between two characters makes a range. -/
inductive ClassReads : List Char → List ClassMember → Prop
  | nil : ClassReads [] []
  | range (low high : Char) {rest : List Char} {members : List ClassMember} :
      ClassReads rest members → ClassReads (low :: '-' :: high :: rest) (.range low high :: members)
  | single (a : Char) {rest : List Char} {members : List ClassMember} :
      (∀ high tail, rest ≠ '-' :: high :: tail) → ClassReads rest members → ClassReads (a :: rest) (.single a :: members)

/-- What stands between the brackets, with a `~` at the front for all the others. -/
inductive BracketReads : List Char → Bool → List ClassMember → Prop
  | plain {text : List Char} {members : List ClassMember} :
      text.head? ≠ some '~' → ClassReads text members → BracketReads text false members
  | negated {text : List Char} {members : List ClassMember} : ClassReads text members → BracketReads ('~' :: text) true members

inductive PatternItem where
  | star
  | any
  | closed (negate : Bool) (members : List ClassMember)
  | literal (c : Char)

/-- The texts that an item stands for. -/
def PatternItem.Accepts : PatternItem → List Char → Prop
  | .star, _ => True
  | .any, segment => ∃ v, segment = [v]
  | .closed negate members, segment => ∃ v, segment = [v] ∧ (negate = true ↔ ¬ ∃ m ∈ members, m.Has v)
  | .literal c, segment => segment = [c]

/-- The items of a pattern; a bracket that is not closed stands for itself. -/
inductive PatternReads : List Char → List PatternItem → Prop
  | nil : PatternReads [] []
  | star {rest : List Char} {items : List PatternItem} : PatternReads rest items → PatternReads ('*' :: rest) (.star :: items)
  | any {rest : List Char} {items : List PatternItem} : PatternReads rest items → PatternReads ('?' :: rest) (.any :: items)
  | closed {text rest : List Char} {negate : Bool} {members : List ClassMember} {items : List PatternItem} :
      ']' ∉ text → BracketReads text negate members → PatternReads rest items →
      PatternReads ('[' :: (text ++ ']' :: rest)) (.closed negate members :: items)
  | unclosed {rest : List Char} {items : List PatternItem} :
      ']' ∉ rest → PatternReads rest items → PatternReads ('[' :: rest) (.literal '[' :: items)
  | literal (c : Char) {rest : List Char} {items : List PatternItem} :
      c ≠ '*' → c ≠ '?' → c ≠ '[' → PatternReads rest items → PatternReads (c :: rest) (.literal c :: items)

/-- The value splits into segments that the items accept one by one. -/
def Splits (items : List PatternItem) (value : List Char) : Prop :=
  ∃ segments : List (List Char), segments.flatten = value ∧ List.Forall₂ PatternItem.Accepts items segments

/-! ## Every text has one reading -/

theorem takeWhile_class {text : List Char} (h : ']' ∉ text) (rest : List Char) :
    (text ++ ']' :: rest).takeWhile (· ≠ ']') = text := by
  induction text with
  | nil => simp
  | cons c text ih =>
    rw [List.mem_cons, not_or] at h
    have hc : c ≠ ']' := Ne.symm h.1
    rw [List.cons_append, List.takeWhile_cons, if_pos (by simpa using hc), ih h.2]

theorem dropWhile_class {text : List Char} (h : ']' ∉ text) (rest : List Char) :
    ((text ++ ']' :: rest).dropWhile (· ≠ ']')).drop 1 = rest := by
  induction text with
  | nil => simp
  | cons c text ih =>
    rw [List.mem_cons, not_or] at h
    have hc : c ≠ ']' := Ne.symm h.1
    rw [List.cons_append, List.dropWhile_cons, if_pos (by simpa using hc), ih h.2]

theorem class_split_unique {text text' rest rest' : List Char} (h : ']' ∉ text) (h' : ']' ∉ text')
    (heq : text ++ ']' :: rest = text' ++ ']' :: rest') : text = text' ∧ rest = rest' := by
  constructor
  · rw [← takeWhile_class h rest, heq, takeWhile_class h' rest']
  · rw [← dropWhile_class h rest, heq, dropWhile_class h' rest']

theorem class_split {p : List Char} (h : ']' ∈ p) : ∃ text rest, p = text ++ ']' :: rest ∧ ']' ∉ text := by
  obtain ⟨text, rest, heq, hnot⟩ := List.eq_append_cons_of_mem h
  exact ⟨text, rest, heq, hnot⟩

theorem ClassReads.unique {text : List Char} {members members' : List ClassMember} (h : ClassReads text members)
    (h' : ClassReads text members') : members = members' := by
  induction h generalizing members' with
  | nil => cases h'; rfl
  | range low high _ ih =>
    cases h' with
    | range _ _ h' => rw [ih h']
    | single _ hnot _ => exact absurd rfl (hnot _ _)
  | single a hnot _ ih =>
    cases h' with
    | range _ _ _ => exact absurd rfl (hnot _ _)
    | single _ _ h' => rw [ih h']

theorem classReads_exists : ∀ text : List Char, ∃ members, ClassReads text members
  | [] => ⟨[], .nil⟩
  | [a] => ⟨[.single a], .single a (by simp) .nil⟩
  | a :: b :: rest => by
    obtain ⟨members, hmembers⟩ := classReads_exists (b :: rest)
    by_cases hrange : ∃ high tail, b :: rest = '-' :: high :: tail
    · obtain ⟨high, tail, heq⟩ := hrange
      obtain ⟨members, hmembers⟩ := classReads_exists tail
      rw [heq]
      exact ⟨_, .range a high hmembers⟩
    · exact ⟨_, .single a (fun high tail heq => hrange ⟨high, tail, heq⟩) hmembers⟩
termination_by text => text.length
decreasing_by
  · simp
  · have hlen := congrArg List.length heq
    simp only [List.length_cons] at hlen ⊢
    omega

theorem BracketReads.unique {text : List Char} {negate negate' : Bool} {members members' : List ClassMember}
    (h : BracketReads text negate members) (h' : BracketReads text negate' members') : negate = negate' ∧ members = members' := by
  cases h with
  | plain hhead h =>
    cases h' with
    | plain _ h' => exact ⟨rfl, h.unique h'⟩
    | negated _ => exact absurd rfl hhead
  | negated h =>
    cases h' with
    | plain hhead _ => exact absurd rfl hhead
    | negated h' => exact ⟨rfl, h.unique h'⟩

theorem bracketReads_exists (text : List Char) : ∃ negate members, BracketReads text negate members := by
  by_cases hneg : text.head? = some '~'
  · cases text with
    | nil => cases hneg
    | cons c text =>
      obtain rfl := Option.some.inj hneg
      obtain ⟨members, hmembers⟩ := classReads_exists text
      exact ⟨true, members, .negated hmembers⟩
  · obtain ⟨members, hmembers⟩ := classReads_exists text
    exact ⟨false, members, .plain hneg hmembers⟩

theorem PatternReads.bracket {p : List Char} {items : List PatternItem} (h : PatternReads ('[' :: p) items) :
    (∃ text rest negate members tail, p = text ++ ']' :: rest ∧ ']' ∉ text ∧ BracketReads text negate members ∧
      PatternReads rest tail ∧ items = .closed negate members :: tail) ∨
    (']' ∉ p ∧ ∃ tail, PatternReads p tail ∧ items = .literal '[' :: tail) := by
  cases h with
  | closed hnot hbracket hrest => exact Or.inl ⟨_, _, _, _, _, rfl, hnot, hbracket, hrest, rfl⟩
  | unclosed hnone hrest => exact Or.inr ⟨hnone, _, hrest, rfl⟩
  | literal _ _ _ hne _ => exact absurd rfl hne

theorem PatternReads.unique {pattern : List Char} {items items' : List PatternItem} (h : PatternReads pattern items)
    (h' : PatternReads pattern items') : items = items' := by
  induction h generalizing items' with
  | nil => cases h'; rfl
  | star _ ih =>
    cases h' with
    | star h' => rw [ih h']
    | literal _ hne _ _ _ => exact absurd rfl hne
  | any _ ih =>
    cases h' with
    | any h' => rw [ih h']
    | literal _ _ hne _ _ => exact absurd rfl hne
  | closed hnot hbracket _ ih =>
    rcases h'.bracket with ⟨text, rest, negate, members, tail, heq, hnot', hbracket', hrest, rfl⟩ | ⟨hnone, -⟩
    · obtain ⟨rfl, rfl⟩ := class_split_unique hnot hnot' heq
      obtain ⟨rfl, rfl⟩ := hbracket.unique hbracket'
      rw [ih hrest]
    · exact absurd (by simp) hnone
  | unclosed hnone _ ih =>
    rcases h'.bracket with ⟨text, rest, negate, members, tail, rfl, -⟩ | ⟨-, tail, hrest, rfl⟩
    · exact absurd (by simp) hnone
    · rw [ih hrest]
  | literal c hstar hquestion hbracket _ ih =>
    cases h' with
    | star _ => exact absurd rfl hstar
    | any _ => exact absurd rfl hquestion
    | closed _ _ _ => exact absurd rfl hbracket
    | unclosed _ _ => exact absurd rfl hbracket
    | literal _ _ _ _ h' => rw [ih h']

theorem patternReads_exists (pattern : List Char) : ∃ items, PatternReads pattern items := by
  induction hlen : pattern.length using Nat.strong_induction_on generalizing pattern with
  | _ n ih =>
    cases pattern with
    | nil => exact ⟨[], .nil⟩
    | cons c rest =>
      rw [List.length_cons] at hlen
      obtain ⟨items, hitems⟩ := ih rest.length (by omega) rest rfl
      by_cases hstar : c = '*'
      · subst hstar
        exact ⟨_, .star hitems⟩
      by_cases hquestion : c = '?'
      · subst hquestion
        exact ⟨_, .any hitems⟩
      by_cases hbracket : c = '['
      · subst hbracket
        by_cases hclosed : ']' ∈ rest
        · obtain ⟨text, tail, rfl, hnot⟩ := class_split hclosed
          obtain ⟨negate, members, hmembers⟩ := bracketReads_exists text
          obtain ⟨items, hitems⟩ := ih tail.length (by simp at hlen; omega) tail rfl
          exact ⟨_, .closed hnot hmembers hitems⟩
        · exact ⟨_, .unclosed hclosed hitems⟩
      · exact ⟨_, .literal c hstar hquestion hbracket hitems⟩

/-! ## Splitting a value -/

theorem splits_nil {value : List Char} : Splits [] value ↔ value = [] := by
  constructor
  · rintro ⟨segments, rfl, h⟩
    cases h
    rfl
  · rintro rfl
    exact ⟨[], rfl, .nil⟩

/-- An item that stands for single characters takes the first one. -/
theorem splits_cons_of_single {item : PatternItem} {P : Char → Prop} (hitem : ∀ segment, item.Accepts segment ↔ ∃ v, segment = [v] ∧ P v)
    {items : List PatternItem} {value : List Char} : Splits (item :: items) value ↔ ∃ v rest, value = v :: rest ∧ P v ∧ Splits items rest := by
  constructor
  · rintro ⟨segments, rfl, h⟩
    cases h with
    | cons hfirst hrest =>
      obtain ⟨v, rfl, hv⟩ := (hitem _).mp hfirst
      exact ⟨v, _, rfl, hv, _, rfl, hrest⟩
  · rintro ⟨v, rest, rfl, hv, segments, rfl, h⟩
    exact ⟨[v] :: segments, rfl, .cons ((hitem [v]).mpr ⟨v, rfl, hv⟩) h⟩

theorem splits_star {items : List PatternItem} {value : List Char} :
    Splits (.star :: items) value ↔ Splits items value ∨ ∃ v rest, value = v :: rest ∧ Splits (.star :: items) rest := by
  constructor
  · rintro ⟨segments, rfl, h⟩
    cases h with
    | @cons _ segment _ segments _ hrest =>
      cases segment with
      | nil => exact Or.inl ⟨segments, rfl, hrest⟩
      | cons v segment => exact Or.inr ⟨v, _, rfl, segment :: segments, rfl, .cons trivial hrest⟩
  · rintro (⟨segments, rfl, h⟩ | ⟨v, rest, rfl, segments, rfl, h⟩)
    · exact ⟨[] :: segments, rfl, .cons trivial h⟩
    · cases h with
      | @cons _ segment _ segments _ hrest => exact ⟨(v :: segment) :: segments, rfl, .cons trivial hrest⟩

theorem splits_literal {c : Char} {items : List PatternItem} {value : List Char} :
    Splits (.literal c :: items) value ↔ ∃ rest, value = c :: rest ∧ Splits items rest := by
  rw [splits_cons_of_single (P := (c = ·)) fun segment => by simp [PatternItem.Accepts]]
  constructor
  · rintro ⟨v, rest, rfl, rfl, h⟩
    exact ⟨rest, rfl, h⟩
  · rintro ⟨rest, rfl, h⟩
    exact ⟨c, rest, rfl, rfl, h⟩

/-! ## The matcher -/

theorem charClassMembers_iff {text : List Char} {members : List ClassMember} (h : ClassReads text members) (v : Char) :
    charClassMembers v text = true ↔ ∃ m ∈ members, m.Has v := by
  induction h with
  | nil => simp [charClassMembers]
  | range low high _ ih => simp [charClassMembers, ih, ClassMember.Has]
  | @single a rest members hnot _ ih =>
    have hstep : charClassMembers v (a :: rest) = (a = v || charClassMembers v rest) := by
      rw [charClassMembers.eq_def]
      split
      · rename_i heq
        exact absurd (List.cons.inj heq).2 (hnot _ _)
      · rename_i heq
        rw [(List.cons.inj heq).1, (List.cons.inj heq).2]
      · rename_i heq
        cases heq
    simp [hstep, ih, ClassMember.Has]

theorem charClassMatch_iff {text : List Char} {negate : Bool} {members : List ClassMember} (h : BracketReads text negate members)
    (v : Char) : charClassMatch text v = true ↔ (negate = true ↔ ¬ ∃ m ∈ members, m.Has v) := by
  cases h with
  | plain hhead hmembers =>
    have hstep : charClassMatch text v = charClassMembers v text := by
      rw [charClassMatch.eq_def]
      split
      · exact absurd rfl hhead
      · rfl
    rw [hstep, charClassMembers_iff hmembers]
    simp
  | negated hmembers =>
    rw [← charClassMembers_iff hmembers v, charClassMatch, Bool.not_eq_true']
    simp

/-- With enough fuel the matcher accepts exactly the values that split; the induction is on the
reading of the pattern, and for a star on the value. -/
theorem patternMatchInner_iff {pattern : List Char} {items : List PatternItem} (h : PatternReads pattern items) (value : List Char)
    {fuel : Nat} (hfuel : pattern.length + value.length ≤ fuel) :
    patternMatchInner fuel pattern value = true ↔ Splits items value := by
  induction h generalizing value fuel with
  | nil => cases fuel <;> simp [patternMatchInner, splits_nil, List.isEmpty_iff]
  | star _ ih =>
    induction value generalizing fuel with
    | nil =>
      obtain ⟨fuel, rfl⟩ := Nat.exists_eq_add_one_of_ne_zero (Nat.ne_zero_of_lt (by simpa using hfuel))
      rw [splits_star, ← @ih [] fuel (by simp at hfuel ⊢; omega)]
      simp [patternMatchInner]
    | cons v rest ihvalue =>
      obtain ⟨fuel, rfl⟩ := Nat.exists_eq_add_one_of_ne_zero (show fuel ≠ 0 by simp at hfuel; omega)
      simp only [List.length_cons] at hfuel
      rw [splits_star, ← @ih (v :: rest) fuel (by simp; omega)]
      have hrest := @ihvalue fuel (by simp; omega)
      simp [patternMatchInner, hrest]
  | any _ ih =>
    obtain ⟨fuel, rfl⟩ := Nat.exists_eq_add_one_of_ne_zero (show fuel ≠ 0 by simp at hfuel; omega)
    rw [splits_cons_of_single (P := fun _ => True) fun segment => by simp [PatternItem.Accepts]]
    cases value with
    | nil => simp [patternMatchInner]
    | cons v rest =>
      have hrest := @ih rest fuel (by simp at hfuel; omega)
      simp [patternMatchInner, hrest]
  | @closed text tail negate members items hnot hbracket _ ih =>
    obtain ⟨fuel, rfl⟩ := Nat.exists_eq_add_one_of_ne_zero (show fuel ≠ 0 by simp at hfuel; omega)
    rw [splits_cons_of_single fun segment => by rw [PatternItem.Accepts]]
    cases value with
    | nil => simp [patternMatchInner]
    | cons v rest =>
      have hrest := @ih rest fuel (by simp at hfuel; omega)
      have hmem : ']' ∈ text ++ ']' :: tail := by simp
      rw [patternMatchInner, if_pos hmem, takeWhile_class hnot, dropWhile_class hnot, Bool.and_eq_true, charClassMatch_iff hbracket,
        hrest]
      simp
  | @unclosed tail items hnone _ ih =>
    obtain ⟨fuel, rfl⟩ := Nat.exists_eq_add_one_of_ne_zero (show fuel ≠ 0 by simp at hfuel; omega)
    rw [splits_literal]
    cases value with
    | nil => simp [patternMatchInner]
    | cons v rest =>
      have hrest := @ih rest fuel (by simp at hfuel; omega)
      rw [patternMatchInner, if_neg hnone]
      simp [hrest]
  | literal c hstar hquestion hbracket _ ih =>
    obtain ⟨fuel, rfl⟩ := Nat.exists_eq_add_one_of_ne_zero (show fuel ≠ 0 by simp at hfuel; omega)
    rw [splits_literal]
    cases value with
    | nil => simp [patternMatchInner]
    | cons v rest =>
      have hrest := @ih rest fuel (by simp at hfuel; omega)
      simp only [patternMatchInner, Bool.and_eq_true, decide_eq_true_eq, hrest, List.cons.injEq]
      constructor
      · rintro ⟨rfl, hsplits⟩
        exact ⟨rest, ⟨rfl, rfl⟩, hsplits⟩
      · rintro ⟨_, ⟨rfl, rfl⟩, hsplits⟩
        exact ⟨rfl, hsplits⟩

/-- A pattern matches the values that split into segments which its items accept; the items are
those of its only reading. -/
theorem patternMatch_iff_splits (pattern : String) :
    ∃ items, (∀ items', PatternReads pattern.toList items' ↔ items' = items) ∧
      ∀ value, patternMatch pattern value = true ↔
        ∃ segments : List (List Char), segments.flatten = value.toList ∧ List.Forall₂ PatternItem.Accepts items segments := by
  obtain ⟨items, hitems⟩ := patternReads_exists pattern.toList
  refine ⟨items, fun items' => ⟨fun h => h.unique hitems, ?_⟩, fun value => patternMatchInner_iff hitems _ le_rfl⟩
  rintro rfl
  exact hitems

end Star9.Rc
