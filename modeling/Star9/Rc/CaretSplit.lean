import Star9.Rc.Parser

/-!
# The source of a command substitution

The lexer finds where a braced substitution ends by counting braces outside quotes.
Expansion splits the word at its carets before it counts them again, so the two agree as
long as the body has no caret outside quotes.
-/
namespace Star9.Rc
open Base Prog

/-- Read from a depth and from inside or outside a quote, the text closes every brace and
every quote and no brace that it does not open. -/
def balancedFrom (depth : Nat) (quoted : Bool) : List Char → Bool
  | [] => depth = 0 && !quoted
  | ch :: rest =>
    if ch = '\'' then balancedFrom depth (!quoted) rest
    else if quoted then balancedFrom depth quoted rest
    else if ch = '\x7b' then balancedFrom (depth + 1) quoted rest
    else if ch = '\x7d' then 0 < depth && balancedFrom (depth - 1) quoted rest
    else balancedFrom depth quoted rest

def caretFrom (quoted : Bool) : List Char → Bool
  | [] => false
  | ch :: rest =>
    if ch = '\'' then caretFrom (!quoted) rest
    else (ch = '^' && !quoted) || caretFrom quoted rest

/-- Braces and quotes are closed. -/
def Balanced (b : String) : Prop := balancedFrom 0 false b.toList = true

/-- Some caret stands outside quotes. -/
def HasCaret (b : String) : Prop := caretFrom false b.toList = true

instance (b : String) : Decidable (Balanced b) := inferInstanceAs (Decidable (_ = true))

instance (b : String) : Decidable (HasCaret b) := inferInstanceAs (Decidable (_ = true))

def substitutionChars (b : List Char) : List Char := '\x60' :: '\x7b' :: b ++ ['\x7d']

/-- The word that substitutes the output of a source. -/
def substitution (b : String) : String := String.ofList (substitutionChars b.toList)

/-! ## The scanner of the lexer -/

section
variable (span : Span)

theorem readBracedSubstitution_append {depth : Nat} {quoted : Bool} (out : List Char) {b : List Char}
    (h : balancedFrom depth quoted b = true) (rest : List Char) (i : Nat) :
    readBracedSubstitution span (depth + 1) quoted out (b ++ '\x7d' :: rest) i =
      .ok (out.reverse ++ b ++ ['\x7d'], rest, i + b.length + 1) := by
  induction b generalizing depth quoted out i with
  | nil =>
    simp only [balancedFrom, Bool.and_eq_true, decide_eq_true_eq, Bool.not_eq_true'] at h
    simp [readBracedSubstitution, h.1, h.2]
  | cons ch b ih =>
    have hi : i + 1 + b.length + 1 = i + (ch :: b).length + 1 := by simp only [List.length_cons]; omega
    have hout : (ch :: out).reverse ++ b ++ ['\x7d'] = out.reverse ++ ch :: b ++ ['\x7d'] := by simp
    rw [← hi, ← hout, List.cons_append, readBracedSubstitution]
    rw [balancedFrom] at h
    by_cases hq : ch = '\''
    · rw [if_pos hq] at h ⊢
      exact ih _ h _
    rw [if_neg hq] at h ⊢
    cases quoted with
    | true => exact ih _ h _
    | false =>
      simp only [Bool.false_eq_true, if_false] at h ⊢
      by_cases ho : ch = '\x7b'
      · rw [if_pos ho] at h ⊢
        exact_mod_cast ih _ h (i + 1)
      rw [if_neg ho] at h ⊢
      by_cases hc : ch = '\x7d'
      · rw [if_pos hc] at h ⊢
        rw [Bool.and_eq_true, decide_eq_true_eq] at h
        obtain ⟨d, rfl⟩ : ∃ d, depth = d + 1 := ⟨depth - 1, by omega⟩
        have hd : ((d + 1 : Nat) : Int) + 1 - 1 = (d : Int) + 1 := by omega
        rw [hd, if_neg (by omega)]
        exact ih _ h.2 _
      · rw [if_neg hc] at h ⊢
        exact ih _ h _

theorem readBracedSubstitution_prefix {depth : Nat} {quoted : Bool} (out : List Char) {pre post : List Char}
    (h : balancedFrom depth quoted (pre ++ post) = true) (i : Nat) :
    readBracedSubstitution span (depth + 1) quoted out pre i = .error (.at "unterminated command substitution" span) := by
  induction pre generalizing depth quoted out i with
  | nil => rfl
  | cons ch pre ih =>
    rw [readBracedSubstitution]
    rw [List.cons_append, balancedFrom] at h
    by_cases hq : ch = '\''
    · rw [if_pos hq] at h ⊢
      exact ih _ h _
    rw [if_neg hq] at h ⊢
    cases quoted with
    | true => exact ih _ h _
    | false =>
      simp only [Bool.false_eq_true, if_false] at h ⊢
      by_cases ho : ch = '\x7b'
      · rw [if_pos ho] at h ⊢
        exact_mod_cast ih _ h (i + 1)
      rw [if_neg ho] at h ⊢
      by_cases hc : ch = '\x7d'
      · rw [if_pos hc] at h ⊢
        rw [Bool.and_eq_true, decide_eq_true_eq] at h
        obtain ⟨d, rfl⟩ : ∃ d, depth = d + 1 := ⟨depth - 1, by omega⟩
        have hd : ((d + 1 : Nat) : Int) + 1 - 1 = (d : Int) + 1 := by omega
        rw [hd, if_neg (by omega)]
        exact ih _ h.2 _
      · rw [if_neg hc] at h ⊢
        exact ih _ h _

/-- What follows is no part of the word: the text ends or a separator comes, and no list of
subscripts. -/
def WordEnds (rest : List Char) : Prop := ∀ ch ∈ rest.head?, isWordEnd ch = true ∧ ch ≠ '('

theorem readBracedSubstitution_whole {b : List Char} (h : balancedFrom 0 false b = true) (rest : List Char) (i : Nat) :
    readBracedSubstitution span 0 false [] (substitutionChars b ++ rest) i =
      .ok (substitutionChars b, rest, i + (substitutionChars b).length) := by
  have hb := readBracedSubstitution_append span ['\x7b', '\x60'] h rest (i + 1 + 1)
  simp only [Nat.cast_zero, zero_add] at hb
  have hi : i + 1 + 1 + b.length + 1 = i + (substitutionChars b).length := by
    simp only [substitutionChars, List.cons_append, List.length_cons, List.length_append, List.length_nil]
    omega
  simpa [readBracedSubstitution, substitutionChars, hi] using hb

end

theorem ofList_substitution_ne (b : List Char) : substitutionChars b ≠ [] := by simp [substitutionChars]

theorem readWord_substitution {b : String} (h : Balanced b) {rest : List Char} (hrest : WordEnds rest) (total i : Nat) :
    readWord total (substitutionChars b.toList ++ rest) i = .ok (substitution b, rest, i + (substitutionChars b.toList).length) := by
  have hfirst : readWordStep total { rest := substitutionChars b.toList ++ rest, i, out := [] } =
      .ok (.inl { rest, i := i + (substitutionChars b.toList).length, out := substitutionChars b.toList }) := by
    have hread := readBracedSubstitution_whole ⟨i, total⟩ h rest i
    simp only [substitutionChars, List.cons_append] at hread ⊢
    simp only [readWordStep, hread]
    simp [isWordEnd, isWhiteSpace]
  have hlast : readWordStep total { rest, i := i + (substitutionChars b.toList).length, out := substitutionChars b.toList } =
      .ok (.inr { rest, i := i + (substitutionChars b.toList).length, out := substitutionChars b.toList }) := by
    cases rest with
    | nil => rfl
    | cons ch rest =>
      obtain ⟨hend, hparen⟩ := hrest ch (by simp)
      simp [readWordStep, hend, hparen]
  obtain ⟨n, hn⟩ : ∃ n, (substitutionChars b.toList ++ rest).length + 1 = n + 1 + 1 :=
    ⟨(substitutionChars b.toList ++ rest).length - 1, by simp [substitutionChars]⟩
  rw [readWord, hn, iterate_of_step hfirst, iterate_of_leave hlast, Outcome.ok_bind, if_neg (ofList_substitution_ne _)]
  rfl

/-- The lexer takes the whole substitution as one word. -/
theorem lexStep_substitution {b : String} (h : Balanced b) {rest : List Char} (hrest : WordEnds rest) (total : Nat) (s : LexScan)
    (hs : s.rest = substitutionChars b.toList ++ rest) :
    lexStep total s = .ok (.inl (s.push (.word (substitution b)) (s.i + (substitutionChars b.toList).length) rest)) := by
  obtain ⟨tail, htail⟩ : ∃ tail, substitutionChars b.toList ++ rest = '\x60' :: tail := ⟨_, rfl⟩
  have hword := readWord_substitution h hrest total s.i
  rw [htail] at hs hword
  simp only [lexStep, hs]
  simp [lexChar, lexToken, charToken, hword]
  rfl

/-! ## The scanner of the expansion -/

theorem splitCaretParts_plain {quoted : Bool} {current cs : List Char} (h : caretFrom quoted cs = false) :
    splitCaretParts quoted current cs = [current.reverse ++ cs] := by
  induction cs generalizing quoted current with
  | nil => simp [splitCaretParts]
  | cons ch cs ih =>
    rw [caretFrom] at h
    rw [splitCaretParts]
    by_cases hq : ch = '\''
    · rw [if_pos hq] at h ⊢
      simp [ih h]
    rw [if_neg hq] at h ⊢
    rw [Bool.or_eq_false_iff] at h
    have hc : ¬(ch = '^' ∧ (!quoted) = true) := by simpa using h.1
    rw [if_neg hc]
    simp [ih h.2]

/-- The first part ends at a caret. -/
theorem splitCaretParts_caret {quoted : Bool} (current : List Char) {cs : List Char} (h : caretFrom quoted cs = true) :
    ∃ pre post parts, cs = pre ++ '^' :: post ∧ splitCaretParts quoted current cs = (current.reverse ++ pre) :: parts := by
  induction cs generalizing quoted current with
  | nil => cases h
  | cons ch cs ih =>
    rw [caretFrom] at h
    rw [splitCaretParts]
    by_cases hq : ch = '\''
    · rw [if_pos hq] at h ⊢
      obtain ⟨pre, post, parts, hcs, hparts⟩ := ih (ch :: current) h
      exact ⟨ch :: pre, post, parts, by simp [hcs], by simp [hparts]⟩
    rw [if_neg hq] at h ⊢
    by_cases hc : ch = '^' ∧ (!quoted) = true
    · exact ⟨[], cs, splitCaretParts quoted [] cs, by simp [hc.1], by simp [hc]⟩
    · rw [if_neg hc]
      have hrest : caretFrom quoted cs = true := by
        rw [Bool.or_eq_true, Bool.and_eq_true, decide_eq_true_eq] at h
        exact h.resolve_left hc
      obtain ⟨pre, post, parts, hcs, hparts⟩ := ih (ch :: current) hrest
      exact ⟨ch :: pre, post, parts, by simp [hcs], by simp [hparts]⟩

theorem caretFrom_append_brace (quoted : Bool) (b : List Char) : caretFrom quoted (b ++ ['\x7d']) = caretFrom quoted b := by
  induction b generalizing quoted with
  | nil => simp [caretFrom]
  | cons ch b ih => simp [caretFrom, ih]

theorem caretFrom_substitution (b : List Char) : caretFrom false (substitutionChars b) = caretFrom false b := by
  simp [substitutionChars, caretFrom, caretFrom_append_brace]

section
variable {H : Type} (evalSource : String → RcM H RcOutput)

theorem concatValues_unit (values : List String) : concatValues [""] values = values := by simp [concatValues]

/-- A part that is one substitution. -/
theorem expandPart_substitution {b : String} (h : Balanced b) :
    expandPart evalSource (substitutionChars b.toList) =
      (do
        let out ← evalSource b
        let s ← get
        pure (splitIfs out.stdout (s.lookupVar "ifs"))) := by
  have hread : extractCommandSubstitution (substitutionChars b.toList).length (substitutionChars b.toList) 0 =
      .ok (b, [], (substitutionChars b.toList).length) := by
    have hwhole := readBracedSubstitution_whole ⟨0, (substitutionChars b.toList).length⟩ h [] 0
    rw [List.append_nil, Nat.zero_add] at hwhole
    have hbody : (List.drop 2 (substitutionChars b.toList)).dropLast = b.toList := by simp [substitutionChars]
    simp [extractCommandSubstitution, hwhole, hbody, bind, Except.bind, pure, Except.pure]
  rw [expandPart]
  simp only [substitutionChars, List.cons_append, List.length_cons] at hread ⊢
  rw [expandPartFrom]
  simp only [hread]
  simp [concatValues_unit, expandPartFrom]

theorem expandPart_unterminated {pre post : List Char} (h : balancedFrom 0 false (pre ++ post) = true) :
    ∃ err, expandPart evalSource ('\x60' :: '\x7b' :: pre) = throw err := by
  have hread := readBracedSubstitution_prefix ⟨0, ('\x60' :: '\x7b' :: pre).length⟩ ['\x7b', '\x60'] h (0 + 1 + 1)
  have hextract : extractCommandSubstitution ('\x60' :: '\x7b' :: pre).length ('\x60' :: '\x7b' :: pre) 0 =
      .error (.at "unterminated command substitution" ⟨0, ('\x60' :: '\x7b' :: pre).length⟩) := by
    simp only [Nat.cast_zero, zero_add, List.length_cons, Nat.reduceAdd] at hread
    simp [extractCommandSubstitution, readBracedSubstitution, hread, bind, Except.bind]
  refine ⟨.at "unterminated command substitution" ⟨0, ('\x60' :: '\x7b' :: pre).length⟩, ?_⟩
  simp only [List.length_cons] at hextract
  simp [expandPart, expandPartFrom, hextract]
  rfl

/-- A word without a caret outside quotes is one part. -/
theorem expandRawWord_substitution {b : String} (h : Balanced b) (hcaret : ¬HasCaret b) :
    expandRawWord evalSource (substitution b) =
      (do
        let out ← evalSource b
        let s ← get
        pure (splitIfs out.stdout (s.lookupVar "ifs"))) := by
  have hparts : splitCaretParts false [] (substitution b).toList = [substitutionChars b.toList] := by
    rw [substitution, String.toList_ofList]
    exact splitCaretParts_plain ((caretFrom_substitution _).trans (Bool.eq_false_iff.mpr hcaret))
  rw [expandRawWord, hparts]
  simp [expandPart_substitution evalSource h, concatValues_unit]

/-- With one, the first part has no closing brace, and nothing is evaluated. -/
theorem expandRawWord_caret {b : String} (h : Balanced b) (hcaret : HasCaret b) :
    ∃ err, expandRawWord evalSource (substitution b) = throw err := by
  obtain ⟨pre, post, parts, hb, hparts⟩ := splitCaretParts_caret ['\x7b', '\x60']
    ((caretFrom_append_brace false b.toList).trans hcaret)
  obtain ⟨tail, htail⟩ : pre <+: b.toList := by
    have hlength := congrArg List.length hb
    simp only [List.length_append, List.length_cons, List.length_nil] at hlength
    exact List.prefix_of_prefix_length_le ⟨'^' :: post, hb.symm⟩ ⟨['\x7d'], rfl⟩ (by omega)
  rw [Balanced, ← htail] at h
  obtain ⟨err, herr⟩ := expandPart_unterminated evalSource h
  have hsplit : splitCaretParts false [] (substitution b).toList = ('\x60' :: '\x7b' :: pre) :: parts := by
    rw [substitution, String.toList_ofList, substitutionChars, List.cons_append, List.cons_append]
    simpa [splitCaretParts] using hparts
  refine ⟨err, ?_⟩
  rw [expandRawWord, hsplit, List.foldlM_cons, herr]
  rfl

end

/-! ## When expansion evaluates what the lexer bracketed -/

/-- A word expands to the output of one evaluation of a source, split on `$ifs`. -/
def ExpandsBy (raw b : String) : Prop :=
  ∀ (H : Type) (evalSource : String → RcM H RcOutput),
    expandRawWord evalSource raw =
      (do
        let out ← evalSource b
        let s ← get
        pure (splitIfs out.stdout (s.lookupVar "ifs")))

/-- The lexer takes every balanced substitution as one word, and the word expands by one
evaluation of its body exactly if no caret stands outside quotes there. -/
theorem substitution_expands_iff (b : String) (h : Balanced b) :
    (∀ rest : List Char, WordEnds rest → ∀ (total : Nat) (s : LexScan), s.rest = substitutionChars b.toList ++ rest →
      lexStep total s = .ok (.inl (s.push (.word (substitution b)) (s.i + (substitutionChars b.toList).length) rest))) ∧
    (ExpandsBy (substitution b) b ↔ ¬HasCaret b) := by
  refine ⟨fun rest hrest total s hs => lexStep_substitution h hrest total s hs, fun hexp hcaret => ?_, fun hcaret H evalSource => ?_⟩
  · -- an evaluator that always answers
    obtain ⟨err, herr⟩ := expandRawWord_caret (fun _ : String => (pure .default : RcM Unit RcOutput)) h hcaret
    have hrun := congrFun (herr.symm.trans (hexp Unit fun _ => pure .default)) (RcSession.fresh ())
    exact Outcome.err_ne_ok (congrArg Prod.fst hrun)
  · exact expandRawWord_substitution evalSource h hcaret

theorem substitution_expands_echo : Balanced "echo $x; echo '^' | wc" ∧ ¬HasCaret "echo $x; echo '^' | wc" ∧
    ExpandsBy (substitution "echo $x; echo '^' | wc") "echo $x; echo '^' | wc" :=
  ⟨by decide, by decide, (substitution_expands_iff _ (by decide)).2.mpr (by decide)⟩

/-- The caret of `echo a^b` takes the word apart inside its braces. -/
theorem substitution_caret_not_expanded : ¬∀ b : String, Balanced b → '\x60' ∉ b.toList → ExpandsBy (substitution b) b := by
  intro hall
  obtain ⟨err, herr⟩ := expandRawWord_caret (b := "echo a^b") (fun _ : String => (pure .default : RcM Unit RcOutput)) (by decide) (by decide)
  have hrun := congrFun (herr.symm.trans (hall "echo a^b" (by decide) (by decide) Unit fun _ => pure .default)) (RcSession.fresh ())
  exact Outcome.err_ne_ok (congrArg Prod.fst hrun)

end Star9.Rc
