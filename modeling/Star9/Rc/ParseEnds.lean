import Star9.Base.Aborts
import Star9.Rc.Parser

/-!
# Parsing comes to an end

The three loops over the text shorten what is left of it in every round. The parser never
goes back behind the place where a procedure started, a command that nests another has
taken a token before, and so the number of tokens left bounds the nesting and the rounds.
-/
namespace Star9.Rc
open Base Prog

/-! ## Programs of the parser that come back -/

/-- The tokens that are left. -/
def ParserState.left (s : ParserState) : Nat := s.tokens.length - s.pos

def kindAt (s : ParserState) : Option TokenKind := s.tokens[s.pos]?.map (·.kind)

/-- The run comes back, with the tokens it had and no earlier position. -/
structure Reaches {α : Type} (s : ParserState) (p : ParserM α) : Prop where
  returns : ¬ Aborts p s
  tokens : (p s).2.tokens = s.tokens
  pos : s.pos ≤ (p s).2.pos

/-- The run comes back wherever less than `n` tokens are left. -/
structure Comes {α : Type} (n : Nat) (p : ParserM α) : Prop where
  reaches : ∀ s, s.left < n → Reaches s p

/-- Moreover a value is only returned after a token has been taken. -/
structure Eats {α : Type} (n : Nat) (p : ParserM α) : Prop extends Comes n p where
  less : ∀ s a s', s.left < n → p s = (.ok a, s') → s'.left < s.left

section
variable {α β : Type} {n m : Nat} {s : ParserState} {p q : ParserM α} {f : α → ParserM β}

theorem Comes.mono (h : Comes m p) (hle : n ≤ m) : Comes n p := ⟨fun s hs => h.reaches s (Nat.lt_of_lt_of_le hs hle)⟩

theorem Eats.mono (h : Eats m p) (hle : n ≤ m) : Eats n p :=
  ⟨h.toComes.mono hle, fun s a s' hs => h.less s a s' (Nat.lt_of_lt_of_le hs hle)⟩

theorem left_le {s s' : ParserState} (htokens : s'.tokens = s.tokens) (hpos : s.pos ≤ s'.pos) : s'.left ≤ s.left := by
  rw [ParserState.left, ParserState.left, htokens]
  exact Nat.sub_le_sub_left hpos _

theorem reaches_pure (a : α) : Reaches s (pure a : ParserM α) := ⟨calm_pure a s, rfl, le_rfl⟩

theorem reaches_throw (e : RcError) : Reaches s (throw e : ParserM α) := ⟨calm_throw e s, rfl, le_rfl⟩

theorem reaches_bind (hp : Reaches s p) (hf : ∀ a s', p s = (.ok a, s') → Reaches s' (f a)) : Reaches s (p >>= f) := by
  rcases hrun : p s with ⟨a | e | _, s'⟩
  · have hnext := hf a s' hrun
    have htokens := hp.tokens
    have hpos := hp.pos
    rw [hrun] at htokens hpos
    refine ⟨?_, ?_, ?_⟩
    · rw [aborts_bind_of_ok hrun]
      exact hnext.returns
    · rw [bind_ok hrun]
      exact hnext.tokens.trans htokens
    · rw [bind_ok hrun]
      exact hpos.trans hnext.pos
  · have htokens := hp.tokens
    have hpos := hp.pos
    rw [hrun] at htokens hpos
    refine ⟨not_aborts_bind_of_err hrun, ?_, ?_⟩
    · rw [bind_err hrun]
      exact htokens
    · rw [bind_err hrun]
      exact hpos
  · exact absurd (congrArg Prod.fst hrun) hp.returns

theorem comes_pure (a : α) : Comes n (pure a : ParserM α) := ⟨fun _ _ => reaches_pure a⟩

theorem comes_zero : Comes 0 p := ⟨fun _ hs => absurd hs (Nat.not_lt_zero _)⟩

theorem comes_bind (hp : Comes n p) (hf : ∀ a, Comes n (f a)) : Comes n (p >>= f) := by
  refine ⟨fun s hs => reaches_bind (hp.reaches s hs) fun a s' hrun => (hf a).reaches s' ?_⟩
  have hreaches := hp.reaches s hs
  have hle := left_le hreaches.tokens hreaches.pos
  rw [hrun] at hle
  exact Nat.lt_of_le_of_lt hle hs

/-- Behind a token that is taken one token less is left. -/
theorem comes_eats_bind (hp : Eats (n + 1) p) (hf : ∀ a, Comes n (f a)) : Comes (n + 1) (p >>= f) := by
  refine ⟨fun s hs => reaches_bind (hp.reaches s hs) fun a s' hrun => (hf a).reaches s' ?_⟩
  exact Nat.lt_of_lt_of_le (hp.less s a s' hs hrun) (Nat.le_of_lt_succ hs)

theorem eats_bind (hp : Eats (n + 1) p) (hf : ∀ a, Comes n (f a)) : Eats (n + 1) (p >>= f) := by
  refine ⟨comes_eats_bind hp hf, fun s b s' hs hrun => ?_⟩
  obtain ⟨a, s₁, hfirst, hrest⟩ := bind_eq_ok.mp hrun
  have hless := hp.less s a s₁ hs hfirst
  have hreaches := (hf a).reaches s₁ (Nat.lt_of_lt_of_le hless (Nat.le_of_lt_succ hs))
  have hle := left_le hreaches.tokens hreaches.pos
  rw [hrest] at hle
  exact Nat.lt_of_le_of_lt hle hless

theorem comes_ite {c : Prop} [Decidable c] (hp : Comes n p) (hq : Comes n q) : Comes n (if c then p else q) := by
  split
  · exact hp
  · exact hq

/-! ## Looking at a token and taking it -/

theorem reaches_peek {f : Option Token → ParserM β} (h : Reaches s (f s.tokens[s.pos]?)) : Reaches s (peek >>= f) := ⟨h.returns, h.tokens, h.pos⟩

theorem reaches_peekKind {f : Option TokenKind → ParserM β} (h : Reaches s (f (kindAt s))) : Reaches s (peekKind >>= f) :=
  ⟨h.returns, h.tokens, h.pos⟩

theorem comes_peekKind {f : Option TokenKind → ParserM β} (h : ∀ kind, Comes n (f kind)) : Comes n (peekKind >>= f) :=
  ⟨fun s hs => reaches_peekKind ((h (kindAt s)).reaches s hs)⟩

theorem lt_length_of_kindAt {kind : TokenKind} (h : kindAt s = some kind) : s.pos < s.tokens.length := by
  obtain ⟨token, htoken, -⟩ := Option.map_eq_some_iff.mp h
  exact (List.getElem?_eq_some_iff.mp htoken).1

theorem left_advance (h : s.pos < s.tokens.length) : ParserState.left { s with pos := s.pos + 1 } < s.left := by
  unfold ParserState.left
  dsimp only
  omega

/-- A token that is there is taken. -/
theorem reaches_advance {g : Unit → ParserM β} (h : s.pos < s.tokens.length) (hs : s.left < n + 1) (hg : Comes n (g ())) :
    Reaches s (advance >>= g) := by
  have hnext := hg.reaches { s with pos := s.pos + 1 } (Nat.lt_of_lt_of_le (left_advance h) (Nat.le_of_lt_succ hs))
  exact ⟨hnext.returns, hnext.tokens, (Nat.le_succ _).trans hnext.pos⟩

theorem reaches_advance_alone : Reaches s advance := ⟨fun h => Outcome.ok_ne_abort h, rfl, Nat.le_succ _⟩

theorem eats_expectSymbol (kind : TokenKind) (label : String) : Eats n (expectSymbol kind label) := by
  refine ⟨⟨fun s _ => reaches_peek ?_⟩, fun s a s' _ hrun => ?_⟩
  · cases s.tokens[s.pos]? with
    | none => exact reaches_throw _
    | some token =>
      dsimp only
      split
      · exact reaches_advance_alone
      · exact reaches_throw _
  · obtain ⟨token, s₁, hpeek, hrun⟩ := bind_eq_ok.mp hrun
    cases hpeek
    cases htoken : s.tokens[s.pos]? with
    | none =>
      rw [htoken] at hrun
      cases hrun
    | some token =>
      rw [htoken] at hrun
      dsimp only at hrun
      split at hrun
      · cases hrun
        exact left_advance (List.getElem?_eq_some_iff.mp htoken).1
      · cases hrun

theorem eats_expectWord (expected : String) : Eats n (expectWord expected) := by
  refine ⟨⟨fun s _ => reaches_peekKind ?_⟩, fun s a s' _ hrun => ?_⟩
  · split
    · exact reaches_advance_alone
    · exact reaches_throw _
  · have hkind : (if kindAt s = some (.word expected) then advance else throw (RcError.new ("expected " ++ expected)) : ParserM Unit) s =
        (.ok a, s') := hrun
    split at hkind
    · rename_i hword
      cases hkind
      exact left_advance (lt_length_of_kindAt hword)
    · cases hkind

theorem expectAnyWord_eq_ok {s s' : ParserState} {raw : String} (hrun : expectAnyWord s = (.ok raw, s')) :
    kindAt s = some (.word raw) ∧ s' = { s with pos := s.pos + 1 } := by
  obtain ⟨kind, s₁, hpeek, hrun⟩ := bind_eq_ok.mp hrun
  have hkind : kind = kindAt s ∧ s₁ = s := by
    cases hpeek
    exact ⟨rfl, rfl⟩
  obtain ⟨rfl, rfl⟩ := hkind
  cases hk : kindAt s₁ with
  | none =>
    rw [hk] at hrun
    cases hrun
  | some kind =>
    rw [hk] at hrun
    cases kind with
    | word raw =>
      cases hrun
      exact ⟨rfl, rfl⟩
    | _ => cases hrun

theorem eats_expectAnyWord : Eats n expectAnyWord := by
  refine ⟨⟨fun s _ => reaches_peekKind ?_⟩, fun s a s' _ hrun => ?_⟩
  · split
    · exact reaches_bind reaches_advance_alone fun _ _ _ => reaches_pure _
    · exact reaches_throw _
  · obtain ⟨hword, rfl⟩ := expectAnyWord_eq_ok hrun
    exact left_advance (lt_length_of_kindAt hword)

theorem comes_matchWord (expected : String) : Comes n (matchWord expected) := by
  refine ⟨fun s _ => reaches_peekKind ?_⟩
  split
  · exact reaches_bind reaches_advance_alone fun _ _ _ => reaches_pure _
  · exact reaches_pure _

theorem comes_consumeSeparator : Comes n consumeSeparator := by
  refine ⟨fun s _ => reaches_peekKind ?_⟩
  split
  · exact reaches_bind reaches_advance_alone fun _ _ _ => reaches_pure _
  · exact reaches_pure _

theorem kindAt_of_isSeparator (h : isSeparator (kindAt s) = true) : ∃ kind, kindAt s = some kind := by
  cases hk : kindAt s with
  | none =>
    rw [hk] at h
    cases h
  | some kind => exact ⟨kind, rfl⟩

theorem comes_skipSeparators (rounds : Nat) : Comes rounds (skipSeparators rounds) := by
  induction rounds with
  | zero => exact comes_zero
  | succ rounds ih =>
    refine ⟨fun s hs => reaches_peekKind ?_⟩
    by_cases hseparator : isSeparator (kindAt s) = true
    · rw [if_pos hseparator]
      obtain ⟨kind, hkind⟩ := kindAt_of_isSeparator hseparator
      exact reaches_advance (lt_length_of_kindAt hkind) hs ih
    · rw [if_neg hseparator]
      exact reaches_pure ()

theorem comes_wordsUntil (stop : Option TokenKind → Bool) (rounds : Nat) (words : List Word) : Comes rounds (wordsUntil stop rounds words) := by
  induction rounds generalizing words with
  | zero => exact comes_zero
  | succ rounds ih => exact comes_peekKind fun kind => comes_ite (comes_pure _) (comes_eats_bind eats_expectAnyWord fun raw => ih _)

end

/-! ## The procedures -/

section
variable {n m budget : Nat} {cmd : ParserM Node}

theorem comes_parseUnary (hcmd : Comes m cmd) {rounds : Nat} (hn : n ≤ rounds) (hm : n ≤ m) : Comes n (parseUnary cmd rounds) := by
  induction rounds generalizing n with
  | zero => exact comes_zero.mono hn
  | succ rounds ih =>
    refine ⟨fun s hs => reaches_peekKind ?_⟩
    by_cases hbang : kindAt s = some .bang
    · rw [if_pos hbang]
      obtain ⟨n, rfl⟩ := Nat.exists_eq_add_one_of_ne_zero (Nat.ne_zero_of_lt hs)
      exact reaches_advance (lt_length_of_kindAt hbang) hs
        (comes_bind (ih (Nat.le_of_succ_le_succ hn) (Nat.le_of_succ_le hm)) fun _ => comes_pure _)
    · rw [if_neg hbang]
      exact (hcmd.mono hm).reaches s hs

theorem comes_pipelineLoop (hcmd : Comes m cmd) (hbudget : m ≤ budget) {rounds : Nat} (hn : n ≤ rounds) (hm : n ≤ m) (left : Node) :
    Comes n (pipelineLoop cmd budget rounds left) := by
  induction rounds generalizing n left with
  | zero => exact comes_zero.mono hn
  | succ rounds ih =>
    refine ⟨fun s hs => reaches_peekKind ?_⟩
    split
    · rename_i spec hpipe
      obtain ⟨n, rfl⟩ := Nat.exists_eq_add_one_of_ne_zero (Nat.ne_zero_of_lt hs)
      have hless : n ≤ m := Nat.le_of_succ_le hm
      exact reaches_advance (lt_length_of_kindAt hpipe) hs
        (comes_bind (comes_parseUnary hcmd (hless.trans hbudget) hless) fun _ => ih (Nat.le_of_succ_le_succ hn) hless _)
    · exact reaches_pure _

theorem comes_parsePipeline (hcmd : Comes m cmd) (hbudget : m ≤ budget) (hm : n ≤ m) : Comes n (parsePipeline cmd budget) :=
  comes_bind (comes_parseUnary hcmd (hm.trans hbudget) hm) fun _ => comes_pipelineLoop hcmd hbudget (hm.trans hbudget) hm _

theorem comes_andOrLoop (hcmd : Comes m cmd) (hbudget : m ≤ budget) {rounds : Nat} (hn : n ≤ rounds) (hm : n ≤ m) (left : Node) :
    Comes n (andOrLoop cmd budget rounds left) := by
  induction rounds generalizing n left with
  | zero => exact comes_zero.mono hn
  | succ rounds ih =>
    refine ⟨fun s hs => reaches_peekKind ?_⟩
    obtain ⟨n, rfl⟩ := Nat.exists_eq_add_one_of_ne_zero (Nat.ne_zero_of_lt hs)
    have hless : n ≤ m := Nat.le_of_succ_le hm
    have hrest : ∀ join : Node → Node, Comes n (parsePipeline cmd budget >>= fun right => andOrLoop cmd budget rounds (join right)) :=
      fun join => comes_bind (comes_parsePipeline hcmd hbudget hless) fun _ => ih (Nat.le_of_succ_le_succ hn) hless _
    split
    · rename_i hand
      exact reaches_advance (lt_length_of_kindAt hand) hs (hrest _)
    · rename_i hor
      exact reaches_advance (lt_length_of_kindAt hor) hs (hrest _)
    · exact reaches_pure _

theorem comes_parseAndOr (hcmd : Comes m cmd) (hbudget : m ≤ budget) (hm : n ≤ m) : Comes n (parseAndOr cmd budget) :=
  comes_bind (comes_parsePipeline hcmd hbudget hm) fun _ => comes_andOrLoop hcmd hbudget (hm.trans hbudget) hm _

/-- The check for progress: a command that is returned has taken a token. -/
theorem reaches_parseProgress (hcmd : Comes m cmd) (hbudget : m ≤ budget) (hm : n ≤ m) (token : Token) {s : ParserState} (hs : s.left < n) :
    Reaches s (parseProgress cmd budget token) ∧
      ∀ node s', parseProgress cmd budget token s = (.ok node, s') → s'.tokens = s.tokens ∧ s.pos < s'.pos := by
  have hnode := (comes_parseAndOr hcmd hbudget hm).reaches s hs
  have hrun : parseProgress cmd budget token s = (parseAndOr cmd budget >>= fun node => (get >>= fun after =>
      if after.pos = s.pos then throw (RcError.at ("parser made no progress at token " ++ token.kind.debug) token.span) else pure node :
        ParserM Node)) s := rfl
  constructor
  · have hbind : Reaches s (parseAndOr cmd budget >>= fun node => (get >>= fun after =>
        if after.pos = s.pos then throw (RcError.at ("parser made no progress at token " ++ token.kind.debug) token.span) else pure node :
          ParserM Node)) := by
      refine reaches_bind hnode fun node s' _ => ?_
      by_cases hpos : s'.pos = s.pos
      · refine ⟨?_, ?_, ?_⟩ <;> simp [Aborts, get_bind, hpos]
      · refine ⟨?_, ?_, ?_⟩ <;> simp [Aborts, get_bind, hpos]
    exact ⟨hbind.returns, hbind.tokens, hbind.pos⟩
  · intro node s' hok
    rw [hrun] at hok
    obtain ⟨node₁, s₁, hfirst, hrest⟩ := bind_eq_ok.mp hok
    have htokens := hnode.tokens
    have hpos := hnode.pos
    rw [hfirst] at htokens hpos
    rw [get_bind, branch_apply] at hrest
    by_cases hsame : s₁.pos = s.pos
    · rw [if_pos hsame] at hrest
      cases hrest
    · rw [if_neg hsame] at hrest
      cases hrest
      exact ⟨htokens, Nat.lt_of_le_of_ne hpos (Ne.symm hsame)⟩

theorem comes_parseBackground (node : Node) : Comes n (parseBackground node) := by
  refine ⟨fun s _ => reaches_peekKind ?_⟩
  split
  · exact reaches_bind reaches_advance_alone fun _ _ _ => reaches_pure _
  · exact reaches_pure _

theorem comes_commandFollows (stop : TokenKind → Bool) (hn : n ≤ budget) : Comes n (commandFollows budget stop) := by
  refine comes_bind comes_consumeSeparator fun more => comes_ite ?_ ?_
  · exact comes_bind ((comes_skipSeparators budget).mono hn) fun _ => comes_pure _
  · exact ⟨fun s _ => reaches_peek (reaches_pure _)⟩

theorem comes_sequenceLoop (hcmd : Comes m cmd) (hbudget : m ≤ budget) (stop : TokenKind → Bool) {rounds : Nat} (hn : n ≤ rounds) (hm : n ≤ m)
    (nodes : List Node) : Comes n (sequenceLoop cmd budget stop rounds nodes) := by
  induction rounds generalizing n nodes with
  | zero => exact comes_zero.mono hn
  | succ rounds ih =>
    refine ⟨fun s hs => reaches_peek ?_⟩
    cases htoken : s.tokens[s.pos]? with
    | none => exact reaches_pure _
    | some token =>
      dsimp only
      split
      · exact reaches_pure _
      · obtain ⟨n, rfl⟩ := Nat.exists_eq_add_one_of_ne_zero (Nat.ne_zero_of_lt hs)
        have hless : n ≤ m := Nat.le_of_succ_le hm
        obtain ⟨hprogress, hafter⟩ := reaches_parseProgress hcmd hbudget hm token hs
        refine reaches_bind hprogress fun node s' hrun => ?_
        -- the command took a token, so the next round has fewer of them
        obtain ⟨htokens, hpos⟩ := hafter node s' hrun
        have hin : s.pos < s.tokens.length := (List.getElem?_eq_some_iff.mp htoken).1
        have hleft : s'.left < n := by
          unfold ParserState.left at hs ⊢
          rw [htokens]
          omega
        have hrest : Comes n (parseBackground node >>= fun node => commandFollows budget stop >>= fun more =>
            if more then sequenceLoop cmd budget stop rounds (nodes ++ [node]) else pure (nodes ++ [node])) :=
          comes_bind (comes_parseBackground node) fun node => comes_bind (comes_commandFollows stop (hless.trans hbudget)) fun more =>
            comes_ite (ih (Nat.le_of_succ_le_succ hn) hless _) (comes_pure _)
        exact hrest.reaches s' hleft

theorem comes_parseSequenceUntil (hcmd : Comes m cmd) (hbudget : m ≤ budget) (hm : n ≤ m) (stop : TokenKind → Bool) :
    Comes n (parseSequenceUntil cmd budget stop) :=
  comes_bind ((comes_skipSeparators budget).mono (hm.trans hbudget)) fun _ => comes_sequenceLoop hcmd hbudget stop (hm.trans hbudget) hm []

theorem eats_parseBlock (hcmd : Comes m cmd) (hbudget : m ≤ budget) : Eats (m + 1) (parseBlock cmd budget) :=
  eats_bind (eats_expectSymbol _ _) fun _ => comes_bind (comes_parseSequenceUntil hcmd hbudget le_rfl _) fun _ =>
    comes_bind (eats_expectSymbol _ _).toComes fun _ => comes_pure _

theorem eats_parseParenGroup (hcmd : Comes m cmd) (hbudget : m ≤ budget) : Eats (m + 1) (parseParenGroup cmd budget) :=
  eats_bind (eats_expectSymbol _ _) fun _ => comes_bind (comes_parseSequenceUntil hcmd hbudget le_rfl _) fun _ =>
    comes_bind (eats_expectSymbol _ _).toComes fun _ => comes_pure _

theorem comes_parseCondition (hcmd : Comes m cmd) (hbudget : m ≤ budget) : Comes m (parseCondition cmd budget) :=
  comes_bind (eats_expectSymbol _ _).toComes fun _ => comes_bind (comes_parseSequenceUntil hcmd hbudget le_rfl _) fun _ =>
    comes_bind (eats_expectSymbol _ _).toComes fun _ => comes_pure _

theorem comes_matchIfNot : Comes n matchIfNot := comes_bind (comes_matchWord _) fun _ => comes_ite (comes_matchWord _) (comes_pure _)

/-- Where no `if not` follows, the parser is back at the end of the first branch. -/
theorem reaches_parseElse (hcmd : Comes m cmd) (hbudget : m ≤ budget) {s : ParserState} (hs : s.left < m) :
    Reaches s (parseElse cmd budget) ∧ ∀ s', parseElse cmd budget s = (.ok none, s') → s'.pos = s.pos := by
  have hlook : Comes m (skipSeparators budget >>= fun _ => matchIfNot) :=
    comes_bind ((comes_skipSeparators budget).mono hbudget) fun _ => comes_matchIfNot
  have hsplit : parseElse cmd budget s = ((skipSeparators budget >>= fun _ => matchIfNot) >>= fun found =>
      if found then (skipSeparators budget >>= fun _ => cmd >>= fun branch => pure (some branch))
      else (modify fun s₁ => { s₁ with pos := s.pos }) >>= fun _ => pure none : ParserM (Option Node)) s := by
    rw [bind_assoc]
    rfl
  have hreach := hlook.reaches s hs
  rcases hrun : (skipSeparators budget >>= fun _ => matchIfNot : ParserM Bool) s with ⟨found | e | _, s₁⟩
  · have htokens := hreach.tokens
    have hpos := hreach.pos
    rw [hrun] at htokens hpos
    rw [bind_ok hrun] at hsplit
    cases found with
    | true =>
      have hbranch : Comes m (skipSeparators budget >>= fun _ => cmd >>= fun branch => pure (some branch)) :=
        comes_bind ((comes_skipSeparators budget).mono hbudget) fun _ => comes_bind hcmd fun _ => comes_pure _
      have hnext := hbranch.reaches s₁ (Nat.lt_of_le_of_lt (left_le htokens hpos) hs)
      have hsplit : parseElse cmd budget s = (skipSeparators budget >>= fun _ => cmd >>= fun branch => pure (some branch)) s₁ := hsplit
      refine ⟨⟨?_, ?_, ?_⟩, fun s' hnone => ?_⟩
      · rw [Aborts, hsplit]
        exact hnext.returns
      · rw [hsplit]
        exact hnext.tokens.trans htokens
      · rw [hsplit]
        exact hpos.trans hnext.pos
      · rw [hsplit] at hnone
        obtain ⟨_, s₂, -, hnone⟩ := bind_eq_ok.mp hnone
        obtain ⟨branch, s₃, -, hnone⟩ := bind_eq_ok.mp hnone
        cases hnone
    | false =>
      have hsplit : parseElse cmd budget s = (.ok none, { s₁ with pos := s.pos }) := hsplit
      refine ⟨⟨?_, ?_, ?_⟩, fun s' hnone => ?_⟩
      · rw [Aborts, hsplit]
        exact Outcome.ok_ne_abort
      · rw [hsplit]
        exact htokens
      · rw [hsplit]
      · rw [hsplit] at hnone
        cases hnone
        rfl
  · have htokens := hreach.tokens
    have hpos := hreach.pos
    rw [hrun] at htokens hpos
    rw [bind_err hrun] at hsplit
    refine ⟨⟨?_, ?_, ?_⟩, fun s' hnone => ?_⟩
    · rw [Aborts, hsplit]
      exact Outcome.err_ne_abort
    · rw [hsplit]
      exact htokens
    · rw [hsplit]
      exact hpos
    · rw [hsplit] at hnone
      cases hnone
  · exact absurd (congrArg Prod.fst hrun) hreach.returns

theorem comes_parseElse (hcmd : Comes m cmd) (hbudget : m ≤ budget) : Comes m (parseElse cmd budget) :=
  ⟨fun _ hs => (reaches_parseElse hcmd hbudget hs).1⟩

theorem eats_parseIf (hcmd : Comes m cmd) (hbudget : m ≤ budget) : Eats (m + 1) (parseIf cmd budget) :=
  eats_bind (eats_expectWord _) fun _ => comes_bind (comes_parseCondition hcmd hbudget) fun _ =>
    comes_bind ((comes_skipSeparators budget).mono hbudget) fun _ => comes_bind hcmd fun _ =>
      comes_bind (comes_parseElse hcmd hbudget) fun _ => comes_pure _

theorem eats_parseWhile (hcmd : Comes m cmd) (hbudget : m ≤ budget) : Eats (m + 1) (parseWhile cmd budget) :=
  eats_bind (eats_expectWord _) fun _ => comes_bind (comes_parseCondition hcmd hbudget) fun _ =>
    comes_bind ((comes_skipSeparators budget).mono hbudget) fun _ => comes_bind hcmd fun _ => comes_pure _

theorem comes_forWords (hn : n ≤ budget) : Comes n (forWords budget) :=
  comes_bind (comes_matchWord _) fun _ => comes_ite ((comes_wordsUntil _ budget _).mono hn) (comes_pure _)

theorem eats_parseFor (hcmd : Comes m cmd) (hbudget : m ≤ budget) : Eats (m + 1) (parseFor cmd budget) :=
  eats_bind (eats_expectWord _) fun _ => comes_bind (eats_expectSymbol _ _).toComes fun _ => comes_bind eats_expectAnyWord.toComes fun _ =>
    comes_bind (comes_forWords hbudget) fun _ => comes_bind (eats_expectSymbol _ _).toComes fun _ =>
      comes_bind ((comes_skipSeparators budget).mono hbudget) fun _ => comes_bind hcmd fun _ => comes_pure _

theorem eats_parseCase (hcmd : Comes m cmd) (hbudget : m ≤ budget) : Eats (m + 1) (parseCase cmd budget) :=
  eats_bind (eats_expectWord _) fun _ => comes_bind ((comes_wordsUntil _ budget _).mono hbudget) fun _ =>
    comes_bind comes_consumeSeparator fun _ => comes_bind (comes_parseSequenceUntil hcmd hbudget le_rfl _) fun _ =>
      comes_bind ((comes_skipSeparators budget).mono hbudget) fun _ => comes_pure _

theorem comes_casesLoop (hcmd : Comes m cmd) (hbudget : m ≤ budget) {rounds : Nat} (hn : n ≤ rounds) (hm : n ≤ m + 1) (cases : List SwitchCase) :
    Comes n (casesLoop cmd budget rounds cases) := by
  induction rounds generalizing n cases with
  | zero => exact comes_zero.mono hn
  | succ rounds ih =>
    cases n with
    | zero => exact comes_zero
    | succ n =>
      exact comes_peekKind fun kind => comes_ite (comes_pure _) (comes_eats_bind ((eats_parseCase hcmd hbudget).mono hm) fun next =>
        ih (Nat.le_of_succ_le_succ hn) (Nat.le_of_succ_le hm) _)

theorem eats_parseSwitch (hcmd : Comes m cmd) (hbudget : m ≤ budget) : Eats (m + 1) (parseSwitch cmd budget) :=
  eats_bind (eats_expectWord _) fun _ => comes_bind (eats_expectSymbol _ _).toComes fun _ => comes_bind eats_expectAnyWord.toComes fun _ =>
    comes_bind (eats_expectSymbol _ _).toComes fun _ => comes_bind ((comes_skipSeparators budget).mono hbudget) fun _ =>
      comes_bind (eats_expectSymbol _ _).toComes fun _ => comes_bind ((comes_skipSeparators budget).mono hbudget) fun _ =>
        comes_bind (comes_casesLoop hcmd hbudget hbudget (Nat.le_succ m) []) fun _ =>
          comes_bind (eats_expectSymbol _ _).toComes fun _ => comes_pure _

theorem comes_functionBody (hcmd : Comes m cmd) (hbudget : m ≤ budget) (hm : n ≤ m + 1) : Comes n (functionBody cmd budget) :=
  comes_peekKind fun _ => comes_ite (comes_bind ((eats_parseBlock hcmd hbudget).toComes.mono hm) fun _ => comes_pure _) (comes_pure _)

theorem eats_parseFunction (hcmd : Comes m cmd) (hbudget : m ≤ budget) : Eats (m + 1) (parseFunction cmd budget) :=
  eats_bind (eats_expectWord _) fun _ => comes_bind eats_expectAnyWord.toComes fun _ =>
    comes_bind (comes_functionBody hcmd hbudget (Nat.le_succ m)) fun _ => comes_pure _

theorem comes_assignmentValues (hn : n ≤ budget) (suffix : String) : Comes n (assignmentValues budget suffix) := by
  refine comes_peekKind fun kind => comes_ite ?_ (comes_ite (comes_pure _) (comes_pure _))
  exact comes_bind ⟨fun s _ => reaches_advance_alone⟩ fun _ => comes_bind ((comes_wordsUntil _ budget _).mono hn) fun _ =>
    comes_bind (eats_expectSymbol _ _).toComes fun _ => comes_pure _

theorem comes_takeHereDoc (raw : String) : Comes n (takeHereDoc raw) := by
  refine ⟨fun s _ => ?_⟩
  cases hdoc : s.hereDocs[raw]? with
  | some doc =>
    have hrun : takeHereDoc raw s = (.ok (.hereDoc doc), { s with hereDocs := s.hereDocs.erase raw }) := by
      unfold takeHereDoc
      rw [get_bind, hdoc]
      rfl
    exact ⟨by rw [Aborts, hrun]; exact Outcome.ok_ne_abort, by rw [hrun], by rw [hrun]⟩
  | none =>
    have hrun : takeHereDoc raw s = (.ok (.word ⟨raw⟩), s) := by
      unfold takeHereDoc
      rw [get_bind, hdoc]
      rfl
    exact ⟨by rw [Aborts, hrun]; exact Outcome.ok_ne_abort, by rw [hrun], by rw [hrun]⟩

theorem comes_parseRedirection (hcmd : Comes m cmd) (hbudget : m ≤ budget) (hm : n ≤ m + 1) (op : RedirectOp) : Comes n (parseRedirection cmd budget op) := by
  refine comes_ite (comes_pure _) (comes_bind (comes_peekKind fun kind => comes_ite ?_ ?_) fun _ => comes_pure _)
  · exact comes_bind ((eats_parseBlock hcmd hbudget).toComes.mono hm) fun _ => comes_pure _
  · exact comes_bind eats_expectAnyWord.toComes fun raw => comes_ite (comes_takeHereDoc raw) (comes_pure _)

theorem comes_simpleLoop (hcmd : Comes m cmd) (hbudget : m + 1 ≤ budget) {rounds : Nat} (hn : n ≤ rounds) (hm : n ≤ m + 1) (simple : SimpleCommand) :
    Comes n (simpleLoop cmd budget rounds simple) := by
  induction rounds generalizing n simple with
  | zero => exact comes_zero.mono hn
  | succ rounds ih =>
    obtain ⟨assignments, words, redirects⟩ := simple
    refine ⟨fun s hs => reaches_peekKind ?_⟩
    obtain ⟨n, rfl⟩ := Nat.exists_eq_add_one_of_ne_zero (Nat.ne_zero_of_lt hs)
    have hless : n ≤ m + 1 := Nat.le_of_succ_le hm
    have hrest : ∀ simple, Comes n (simpleLoop cmd budget rounds simple) := fun simple => ih (Nat.le_of_succ_le_succ hn) hless simple
    split
    · rename_i raw hword
      refine reaches_advance (lt_length_of_kindAt hword) hs ?_
      split
      · exact comes_bind (comes_assignmentValues (hless.trans hbudget) _) fun _ => hrest _
      · exact hrest _
    · rename_i op hredirect
      exact reaches_advance (lt_length_of_kindAt hredirect) hs
        (comes_bind (comes_parseRedirection hcmd (Nat.le_of_succ_le hbudget) hless op) fun _ => hrest _)
    · exact reaches_pure _

theorem comes_parseSimple (hcmd : Comes m cmd) (hbudget : m + 1 ≤ budget) : Comes (m + 1) (parseSimple cmd budget) :=
  comes_bind (comes_simpleLoop hcmd hbudget hbudget le_rfl _) fun _ => comes_pure _

theorem comes_commandBody (hcmd : Comes m cmd) (hbudget : m + 1 ≤ budget) : Comes (m + 1) (commandBody cmd budget) := by
  have hm : m ≤ budget := Nat.le_of_succ_le hbudget
  exact comes_peekKind fun kind => comes_ite (eats_parseBlock hcmd hm).toComes (comes_ite (eats_parseParenGroup hcmd hm).toComes
    (comes_ite (eats_parseIf hcmd hm).toComes (comes_ite (eats_parseWhile hcmd hm).toComes (comes_ite (eats_parseFor hcmd hm).toComes
      (comes_ite (eats_parseSwitch hcmd hm).toComes (comes_ite (eats_parseFunction hcmd hm).toComes (comes_parseSimple hcmd hbudget)))))))

end

/-- A budget above the number of tokens left is enough. -/
theorem comes_parseCommand (budget : Nat) : Comes budget (parseCommand budget) := by
  induction budget with
  | zero => exact comes_zero
  | succ budget ih => exact comes_commandBody ih le_rfl

theorem comes_parseScript (budget : Nat) : Comes budget (parseScript budget) :=
  comes_bind (comes_parseSequenceUntil (comes_parseCommand budget) le_rfl le_rfl _) fun _ => comes_pure _

/-! ## The loops over the text -/

theorem length_readThrough (stop : Char) (cs : List Char) : (readThrough stop cs).1.length + (readThrough stop cs).2.length = cs.length := by
  induction cs with
  | nil => rfl
  | cons c cs ih =>
    rw [readThrough]
    split
    · simp [Nat.add_comm]
    · simp only [List.length_cons]
      omega

theorem length_readQuoted (cs : List Char) : (readQuoted cs).1.length + (readQuoted cs).2.length = cs.length := by
  fun_induction readQuoted cs with
  | case1 => rfl
  | case2 cs out rest hrest ih =>
    rw [hrest] at ih
    simp only [List.length_cons] at ih ⊢
    omega
  | case3 cs => simp [Nat.add_comm]
  | case4 c cs _ _ out rest hrest ih =>
    rw [hrest] at ih
    simp only [List.length_cons] at ih ⊢
    omega

theorem length_readDelimiter (cs : List Char) : (readDelimiter cs).2.2.1 + (readDelimiter cs).2.2.2.length = cs.length := by
  unfold readDelimiter
  split
  · rename_i tail
    have hlength := length_readThrough '\'' tail
    simp only [List.length_cons]
    omega
  · rw [← List.length_append, List.takeWhile_append_dropWhile]

/-- A substitution that is read ends behind the place where it starts. -/
theorem length_readBracedSubstitution {span : Span} {depth : Int} {quoted : Bool} {out chars sub rest : List Char} {i next : Nat}
    (h : readBracedSubstitution span depth quoted out chars i = .ok (sub, rest, next)) :
    rest.length < chars.length ∧ next + rest.length = i + chars.length := by
  induction chars generalizing depth quoted out i with
  | nil => cases h
  | cons c chars ih =>
    have hmore : ∀ {depth quoted out}, readBracedSubstitution span depth quoted out chars (i + 1) = .ok (sub, rest, next) →
        rest.length < (c :: chars).length ∧ next + rest.length = i + (c :: chars).length := by
      intro depth quoted out hrest
      obtain ⟨hless, hsum⟩ := ih hrest
      rw [List.length_cons]
      omega
    rw [readBracedSubstitution] at h
    split_ifs at h
    · exact hmore h
    · exact hmore h
    · exact hmore h
    · cases h
      rw [List.length_cons]
      omega
    · exact hmore h
    · exact hmore h

/-- A round of the scan for markers takes characters off the front. -/
theorem findHereMarkersStep_next {line : List Char} {nextId : Nat} {s s' : MarkerScan} (h : findHereMarkersStep line nextId s = .ok (.inl s')) :
    s'.rest.length < s.rest.length ∧ s'.i + s'.rest.length = s.i + s.rest.length := by
  unfold findHereMarkersStep at h
  cases hrest : s.rest with
  | nil =>
    rw [hrest] at h
    cases h
  | cons ch rest =>
    rw [hrest] at h
    dsimp only at h
    rw [List.length_cons]
    split_ifs at h with hquote hmarker
    · cases h
      dsimp only
      omega
    · obtain ⟨-, -, hhead⟩ := hmarker
      obtain ⟨tail, rfl⟩ := List.head?_eq_some_iff.mp hhead
      rw [List.tail_cons] at h
      have hblanks : ((tail.takeWhile fun c => isWhiteSpace c && c != '\n')).length ≤ tail.length := (List.takeWhile_sublist _).length_le
      generalize (tail.takeWhile fun c => isWhiteSpace c && c != '\n').length = blanks at h hblanks
      have hlength : (tail.drop blanks).length = tail.length - blanks := List.length_drop
      generalize tail.drop blanks = body at h hlength
      cases body with
      | nil => cases h
      | cons first body =>
        dsimp only at h
        have hread := length_readDelimiter (first :: body)
        generalize readDelimiter (first :: body) = delimiter at h hread
        obtain ⟨text, quoted, count, left⟩ := delimiter
        dsimp only at h hread
        split_ifs at h
        cases h
        rw [List.length_cons]
        dsimp only
        omega
    · cases h
      dsimp only
      omega

theorem decreases_findHereMarkersStep (line : List Char) (nextId : Nat) : Decreases (findHereMarkersStep line nextId) fun s => s.rest.length := by
  refine ⟨fun s => ?_, fun s s' h => (findHereMarkersStep_next h).1⟩
  unfold findHereMarkersStep
  split
  · exact Outcome.ok_ne_abort
  · split_ifs
    · exact Outcome.ok_ne_abort
    · dsimp only
      split
      · exact Outcome.ok_ne_abort
      · split_ifs
        · exact Outcome.err_ne_abort
        · exact Outcome.ok_ne_abort
    · exact Outcome.ok_ne_abort

theorem findHereMarkers_returns (line : List Char) (nextId : Nat) : findHereMarkers line nextId ≠ .abort :=
  iterate_returns (decreases_findHereMarkersStep line nextId) (Nat.lt_succ_self _)

theorem length_takeHereBody {delimiter body : List Char} {lines rest : List (List Char)} (h : takeHereBody delimiter lines = some (body, rest)) :
    rest.length ≤ lines.length := by
  induction lines generalizing body rest with
  | nil => cases h
  | cons line lines ih =>
    rw [takeHereBody] at h
    split_ifs at h
    · cases h
      exact Nat.le_succ _
    · obtain ⟨found, hfound, heq⟩ := Option.map_eq_some_iff.mp h
      cases heq
      exact (ih hfound).trans (Nat.le_succ _)

theorem length_takeHereBodies {markers : List HereMarker} {lines rest : List (List Char)} {docs docs' : Std.ExtTreeMap String HereDoc}
    (h : takeHereBodies markers lines docs = .ok (docs', rest)) : rest.length ≤ lines.length := by
  induction markers generalizing lines docs with
  | nil =>
    cases h
    exact le_rfl
  | cons marker markers ih =>
    rw [takeHereBodies] at h
    cases hbody : takeHereBody marker.delimiter lines with
    | none =>
      rw [hbody] at h
      cases h
    | some found =>
      rw [hbody] at h
      exact (ih h).trans (length_takeHereBody hbody)

/-- A round of the pass over the lines takes lines away. -/
theorem prepareStep_next {s s' : HereScan} (h : prepareStep s = .ok (.inl s')) : s'.lines.length < s.lines.length := by
  unfold prepareStep at h
  cases hlines : s.lines with
  | nil =>
    rw [hlines] at h
    cases h
  | cons line lines =>
    rw [hlines] at h
    dsimp only at h
    cases hmarkers : findHereMarkers line s.nextId with
    | err e =>
      rw [hmarkers] at h
      cases h
    | abort =>
      rw [hmarkers] at h
      cases h
    | ok markers =>
      rw [hmarkers, Outcome.ok_bind] at h
      cases hnext : prepareLine s line lines markers with
      | error e =>
        rw [hnext] at h
        cases h
      | ok next =>
        rw [hnext] at h
        cases h
        rw [List.length_cons]
        apply Nat.lt_succ_of_le
        unfold prepareLine at hnext
        split_ifs at hnext
        · cases hnext
          exact le_rfl
        · cases hbodies : takeHereBodies markers lines s.docs with
          | error e =>
            rw [hbodies] at hnext
            cases hnext
          | ok found =>
            rw [hbodies] at hnext
            cases hnext
            exact length_takeHereBodies hbodies

theorem decreases_prepareStep : Decreases prepareStep fun s => s.lines.length := by
  refine ⟨fun s => ?_, fun s s' h => prepareStep_next h⟩
  unfold prepareStep
  split
  · exact Outcome.ok_ne_abort
  · rename_i line lines _
    have hmarkers := findHereMarkers_returns line s.nextId
    cases hfound : findHereMarkers line s.nextId with
    | err e => exact Outcome.err_ne_abort
    | abort => exact absurd hfound hmarkers
    | ok markers =>
      rw [Outcome.ok_bind]
      cases prepareLine s line lines markers with
      | error e => exact Outcome.err_ne_abort
      | ok next => exact Outcome.ok_ne_abort

theorem prepareHereDocs_returns (source : List Char) : prepareHereDocs source ≠ .abort :=
  iterate_returns decreases_prepareStep (Nat.lt_succ_self _)

/-- A round of the scan of a word takes characters off the front. -/
theorem readWordStep_next {total : Nat} {s s' : WordScan} (h : readWordStep total s = .ok (.inl s')) :
    s'.rest.length < s.rest.length ∧ s'.i + s'.rest.length = s.i + s.rest.length := by
  unfold readWordStep at h
  cases hrest : s.rest with
  | nil =>
    rw [hrest] at h
    cases h
  | cons ch rest =>
    rw [hrest] at h
    dsimp only at h
    rw [List.length_cons]
    split_ifs at h
    · cases h
      have hlength := length_readThrough ')' rest
      dsimp only
      omega
    · cases h
    · cases h
      have hlength := length_readQuoted rest
      dsimp only
      omega
    · cases hsub : readBracedSubstitution ⟨s.i, total⟩ 0 false [] (ch :: rest) s.i with
      | error e =>
        rw [hsub] at h
        cases h
      | ok found =>
        obtain ⟨sub, left, next⟩ := found
        rw [hsub] at h
        cases h
        exact length_readBracedSubstitution hsub
    · cases h
      dsimp only
      omega

theorem readWordStep_returns (total : Nat) (s : WordScan) : readWordStep total s ≠ .abort := by
  unfold readWordStep
  split
  · exact Outcome.ok_ne_abort
  · dsimp only
    split_ifs
    · exact Outcome.ok_ne_abort
    · exact Outcome.ok_ne_abort
    · exact Outcome.ok_ne_abort
    · split
      · exact Outcome.err_ne_abort
      · exact Outcome.ok_ne_abort
    · exact Outcome.ok_ne_abort

theorem decreases_readWordStep (total : Nat) : Decreases (readWordStep total) fun s => s.rest.length :=
  ⟨readWordStep_returns total, fun _ _ h => (readWordStep_next h).1⟩

theorem readWordStep_leave {total : Nat} {s b : WordScan} (h : readWordStep total s = .ok (.inr b)) : b = s := by
  unfold readWordStep at h
  split at h
  · cases h
    rfl
  · dsimp only at h
    split_ifs at h
    · cases h
    · cases h
      rfl
    · cases h
    · split at h
      · cases h
      · cases h
    · cases h

/-- A word ends behind the place where it starts. -/
theorem readWord_spec {total start next : Nat} {cs left : List Char} {word : String} (h : readWord total cs start = .ok (word, left, next)) :
    left.length < cs.length ∧ next + left.length = start + cs.length := by
  unfold readWord at h
  cases hloop : iterate (readWordStep total) (cs.length + 1) { rest := cs, i := start, out := [] } with
  | err e =>
    rw [hloop] at h
    cases h
  | abort =>
    rw [hloop] at h
    cases h
  | ok s =>
    rw [hloop, Outcome.ok_bind] at h
    split_ifs at h with hempty
    cases h
    -- something was read, so something is gone
    have hinv : (s.rest.length < cs.length ∨ s.out = []) ∧ s.i + s.rest.length = start + cs.length := by
      refine iterate_invariant (P := fun s => (s.rest.length < cs.length ∨ s.out = []) ∧ s.rest.length ≤ cs.length ∧ s.i + s.rest.length = start + cs.length)
        (Q := fun s => (s.rest.length < cs.length ∨ s.out = []) ∧ s.i + s.rest.length = start + cs.length) ?_ ?_ ⟨Or.inr rfl, le_rfl, rfl⟩ hloop
      · rintro s s' ⟨-, hle, hsum⟩ hstep
        obtain ⟨hless, hnext⟩ := readWordStep_next hstep
        exact ⟨Or.inl (Nat.lt_of_lt_of_le hless hle), hless.le.trans hle, hnext.trans hsum⟩
      · rintro s b ⟨hor, -, hsum⟩ hstep
        rw [readWordStep_leave hstep]
        exact ⟨hor, hsum⟩
    exact ⟨hinv.1.resolve_right hempty, hinv.2⟩

theorem readWord_returns (total start : Nat) (cs : List Char) : readWord total cs start ≠ .abort := by
  have hloop : iterate (readWordStep total) (cs.length + 1) { rest := cs, i := start, out := [] } ≠ .abort :=
    iterate_returns (decreases_readWordStep total) (Nat.lt_succ_self _)
  unfold readWord
  cases hrun : iterate (readWordStep total) (cs.length + 1) { rest := cs, i := start, out := [] } with
  | err e => exact Outcome.err_ne_abort
  | abort => exact absurd hrun hloop
  | ok s =>
    rw [Outcome.ok_bind]
    split_ifs
    · exact Outcome.err_ne_abort
    · exact Outcome.ok_ne_abort

theorem length_readBracket {total start : Nat} {cs rest : List Char} {text : String} (h : readBracket total start cs = .ok (text, rest)) :
    rest.length ≤ cs.length := by
  unfold readBracket at h
  split_ifs at h
  · cases h
    rw [List.length_drop]
    exact (Nat.sub_le _ _).trans (List.length_dropWhile_le _ _)

theorem length_parsePipeSpec {total start : Nat} {cs rest : List Char} {spec : Option PipeSpec} (h : parsePipeSpec total start cs = .ok (spec, rest)) :
    rest.length ≤ cs.length := by
  unfold parsePipeSpec at h
  split at h
  · rename_i tail
    cases hbracket : readBracket total start tail with
    | error e =>
      rw [hbracket] at h
      cases h
    | ok found =>
      rw [hbracket] at h
      cases h
      exact (length_readBracket hbracket).trans (Nat.le_succ _)
  · cases h
    exact le_rfl

theorem length_parseRedirect {total start : Nat} {ch : Char} {cs rest : List Char} {op : RedirectOp}
    (h : parseRedirect total start ch cs = .ok (op, rest)) : rest.length ≤ cs.length := by
  have hfront : (if cs.head? = some ch then cs.tail else cs).length ≤ cs.length := by
    split
    · rw [List.length_tail]
      exact Nat.sub_le _ _
    · exact le_rfl
  unfold parseRedirect at h
  dsimp only at h
  generalize (if cs.head? = some ch then cs.tail else cs) = front at h hfront
  split at h
  · rename_i tail
    cases hbracket : readBracket total (start + 1 + if cs.head? = some ch then 1 else 0) tail with
    | error e =>
      rw [hbracket] at h
      cases h
    | ok found =>
      rw [hbracket] at h
      cases h
      exact ((length_readBracket hbracket).trans (Nat.le_succ _)).trans hfront
  · cases h
    exact hfront

/-- A round of the lexer at a character takes characters off the front. -/
structure Shortens (s : LexScan) (rest : List Char) (next : LexScan) : Prop where
  less : next.rest.length ≤ rest.length
  sum : next.i + next.rest.length = s.i + 1 + rest.length

theorem lexToken_next {total : Nat} {s next : LexScan} {ch : Char} {rest : List Char} (h : lexToken total s ch rest = .ok next) : Shortens s rest next := by
  unfold lexToken at h
  cases hchar : charToken ch with
  | some kind =>
    rw [hchar] at h
    cases h
    exact ⟨le_rfl, rfl⟩
  | none =>
    rw [hchar] at h
    dsimp only at h
    have htwo : rest.head? = some '&' ∨ rest.head? = some '|' → rest.tail.length ≤ rest.length ∧ s.i + 2 + rest.tail.length = s.i + 1 + rest.length := by
      intro hhead
      have hne : rest ≠ [] := by
        rintro rfl
        rcases hhead with hhead | hhead <;> cases hhead
      have hpos := List.length_pos_iff.mpr hne
      rw [List.length_tail]
      omega
    split_ifs at h with hamp hand hbar hor harrow
    · cases h
      exact ⟨(htwo (Or.inl hand)).1, (htwo (Or.inl hand)).2⟩
    · cases h
      exact ⟨le_rfl, rfl⟩
    · cases h
      exact ⟨(htwo (Or.inr hor)).1, (htwo (Or.inr hor)).2⟩
    · cases hspec : parsePipeSpec total (s.i + 1) rest with
      | error e =>
        rw [hspec] at h
        cases h
      | ok found =>
        rw [hspec] at h
        cases h
        have hle := length_parsePipeSpec hspec
        refine ⟨hle, ?_⟩
        change s.i + 1 + (rest.length - found.2.length) + found.2.length = _
        omega
    · cases hop : parseRedirect total s.i ch rest with
      | error e =>
        rw [hop] at h
        cases h
      | ok found =>
        rw [hop] at h
        cases h
        have hle := length_parseRedirect hop
        refine ⟨hle, ?_⟩
        change s.i + 1 + (rest.length - found.2.length) + found.2.length = _
        omega
    · cases hword : readWord total (ch :: rest) s.i with
      | err e =>
        rw [hword] at h
        cases h
      | abort =>
        rw [hword] at h
        cases h
      | ok found =>
        obtain ⟨word, left, next⟩ := found
        rw [hword] at h
        cases h
        obtain ⟨hless, hsum⟩ := readWord_spec hword
        rw [List.length_cons] at hless hsum
        refine ⟨Nat.le_of_lt_succ hless, ?_⟩
        change next + left.length = _
        omega

theorem lexChar_next {total : Nat} {s next : LexScan} {ch : Char} {rest : List Char} (h : lexChar total s ch rest = .ok next) : Shortens s rest next := by
  unfold lexChar at h
  split_ifs at h with hblank hline hcomment
  · cases h
    exact ⟨le_rfl, rfl⟩
  · cases h
    exact ⟨le_rfl, rfl⟩
  · cases h
    have hlong : ((ch :: rest).takeWhile (· ≠ '\n')).length ≤ (ch :: rest).length := (List.takeWhile_sublist _).length_le
    have hone : 0 < ((ch :: rest).takeWhile (· ≠ '\n')).length := by
      rw [List.takeWhile_cons_of_pos (by simpa using hline)]
      exact Nat.succ_pos _
    refine ⟨?_, ?_⟩
    · dsimp only
      rw [List.length_drop, List.length_cons] at *
      omega
    · dsimp only
      rw [List.length_drop, List.length_cons] at *
      omega
  · exact lexToken_next h

theorem lexStep_next {total : Nat} {s s' : LexScan} (h : lexStep total s = .ok (.inl s')) :
    s'.rest.length < s.rest.length ∧ s'.i + s'.rest.length = s.i + s.rest.length := by
  unfold lexStep at h
  cases hrest : s.rest with
  | nil =>
    rw [hrest] at h
    cases h
  | cons ch rest =>
    rw [hrest] at h
    dsimp only at h
    cases hchar : lexChar total s ch rest with
    | err e =>
      rw [hchar] at h
      cases h
    | abort =>
      rw [hchar] at h
      cases h
    | ok next =>
      rw [hchar] at h
      cases h
      obtain ⟨hless, hsum⟩ := lexChar_next hchar
      rw [List.length_cons]
      omega

theorem lexToken_returns (total : Nat) (s : LexScan) (ch : Char) (rest : List Char) : lexToken total s ch rest ≠ .abort := by
  unfold lexToken
  split
  · exact Outcome.ok_ne_abort
  · split_ifs
    · exact Outcome.ok_ne_abort
    · exact Outcome.ok_ne_abort
    · exact Outcome.ok_ne_abort
    · cases parsePipeSpec total (s.i + 1) rest with
      | error e => exact Outcome.err_ne_abort
      | ok found => exact Outcome.ok_ne_abort
    · cases parseRedirect total s.i ch rest with
      | error e => exact Outcome.err_ne_abort
      | ok found => exact Outcome.ok_ne_abort
    · have hword := readWord_returns total s.i (ch :: rest)
      cases hrun : readWord total (ch :: rest) s.i with
      | err e => exact Outcome.err_ne_abort
      | abort => exact absurd hrun hword
      | ok found => exact Outcome.ok_ne_abort

theorem decreases_lexStep (total : Nat) : Decreases (lexStep total) fun s => s.rest.length := by
  refine ⟨fun s => ?_, fun s s' h => (lexStep_next h).1⟩
  unfold lexStep
  split
  · exact Outcome.ok_ne_abort
  · rename_i ch rest _
    have hchar : lexChar total s ch rest ≠ .abort := by
      unfold lexChar
      split_ifs
      · exact Outcome.ok_ne_abort
      · exact Outcome.ok_ne_abort
      · exact Outcome.ok_ne_abort
      · exact lexToken_returns _ _ _ _
    cases hrun : lexChar total s ch rest with
    | err e => exact Outcome.err_ne_abort
    | abort => exact absurd hrun hchar
    | ok next => exact Outcome.ok_ne_abort

theorem lex_returns (source : List Char) : lex source ≠ .abort := iterate_returns (decreases_lexStep source.length) (Nat.lt_succ_self _)

/-! ## The whole parse -/

/-- The tokens that separators are skipped over are separators. -/
theorem skipSeparators_spec {rounds : Nat} {s s' : ParserState} (h : skipSeparators rounds s = (.ok (), s')) :
    s'.tokens = s.tokens ∧ s.pos ≤ s'.pos ∧ ∀ i, s.pos ≤ i → i < s'.pos → isSeparator (s.tokens[i]?.map (·.kind)) = true := by
  induction rounds generalizing s with
  | zero => cases h
  | succ rounds ih =>
    have hrun : (if isSeparator (kindAt s) then (advance >>= fun _ => skipSeparators rounds) else pure () : ParserM Unit) s = (.ok (), s') := h
    rw [branch_apply] at hrun
    by_cases hseparator : isSeparator (kindAt s) = true
    · rw [if_pos hseparator] at hrun
      obtain ⟨htokens, hpos, hall⟩ := ih hrun
      refine ⟨htokens, (Nat.le_succ _).trans hpos, fun i hi hlt => ?_⟩
      rcases Nat.eq_or_lt_of_le hi with rfl | hi
      · exact hseparator
      · exact hall i hi hlt
    · rw [if_neg hseparator] at hrun
      cases hrun
      exact ⟨rfl, le_rfl, fun i hi hlt => absurd hlt (Nat.not_lt.mpr hi)⟩

/-- What the parser goes back over where no `if not` follows. -/
theorem lookAhead_spec {budget : Nat} {s s' : ParserState} (h : (skipSeparators budget >>= fun _ => matchIfNot) s = (.ok false, s')) :
    ∀ i, s.pos ≤ i → i < s'.pos → isSeparator (s.tokens[i]?.map (·.kind)) = true ∨ s.tokens[i]?.map (·.kind) = some (.word "if") := by
  obtain ⟨_, s₁, hskip, hmatch⟩ := bind_eq_ok.mp h
  obtain ⟨htokens, hpos, hall⟩ := skipSeparators_spec hskip
  have hend : s'.pos = s₁.pos ∨ s'.pos = s₁.pos + 1 ∧ kindAt s₁ = some (.word "if") := by
    by_cases hif : kindAt s₁ = some (.word "if")
    · have hword : matchWord "if" s₁ = (.ok true, { s₁ with pos := s₁.pos + 1 }) := by
        change (if kindAt s₁ = some (.word "if") then (advance >>= fun _ => pure true) else pure false : ParserM Bool) s₁ = _
        rw [if_pos hif]
        rfl
      rw [matchIfNot, bind_ok hword] at hmatch
      change (if kindAt { s₁ with pos := s₁.pos + 1 } = some (.word "not") then (advance >>= fun _ => pure true) else pure false : ParserM Bool)
        { s₁ with pos := s₁.pos + 1 } = _ at hmatch
      split at hmatch
      · cases hmatch
      · cases hmatch
        exact Or.inr ⟨rfl, hif⟩
    · have hword : matchWord "if" s₁ = (.ok false, s₁) := by
        change (if kindAt s₁ = some (.word "if") then (advance >>= fun _ => pure true) else pure false : ParserM Bool) s₁ = _
        rw [if_neg hif]
        rfl
      rw [matchIfNot, bind_ok hword] at hmatch
      cases hmatch
      exact Or.inl rfl
  intro i hi hlt
  rcases hend with heq | ⟨heq, hif⟩
  · exact Or.inl (hall i hi (heq ▸ hlt))
  · rcases Nat.lt_or_ge i s₁.pos with hbefore | hafter
    · exact Or.inl (hall i hi hbefore)
    · obtain rfl : i = s₁.pos := by omega
      rw [← htokens]
      exact Or.inr hif

/-- With less tokens left than the budget every procedure comes back, at its start or behind it. -/
structure ParserEnds (budget : Nat) : Prop where
  sequence : ∀ stop, Comes budget (parseSequenceUntil (parseCommand budget) budget stop)
  andOr : Comes budget (parseAndOr (parseCommand budget) budget)
  pipeline : Comes budget (parsePipeline (parseCommand budget) budget)
  unary : Comes budget (parseUnary (parseCommand budget) budget)
  command : Comes budget (parseCommand budget)
  block : Comes budget (parseBlock (parseCommand budget) budget)
  parenGroup : Comes budget (parseParenGroup (parseCommand budget) budget)
  conditional : Comes budget (parseIf (parseCommand budget) budget)
  loop : Comes budget (parseWhile (parseCommand budget) budget)
  iteration : Comes budget (parseFor (parseCommand budget) budget)
  switch : Comes budget (parseSwitch (parseCommand budget) budget)
  function : Comes budget (parseFunction (parseCommand budget) budget)
  simple : Comes budget (parseSimple (parseCommand budget) budget)
  -- the one place that goes back: to the end of the branch, over separators and an `if`
  back : ∀ s s', s.left < budget → parseElse (parseCommand budget) budget s = (.ok none, s') → s'.pos = s.pos
  passed : ∀ s s', (skipSeparators budget >>= fun _ => matchIfNot) s = (.ok false, s') →
    ∀ i, s.pos ≤ i → i < s'.pos → isSeparator (s.tokens[i]?.map (·.kind)) = true ∨ s.tokens[i]?.map (·.kind) = some (.word "if")

theorem parserEnds (budget : Nat) : ParserEnds budget := by
  have hcmd : Comes budget (parseCommand budget) := comes_parseCommand budget
  have hle : budget ≤ budget := le_rfl
  have hmore : budget ≤ budget + 1 := Nat.le_succ budget
  refine
    { sequence := comes_parseSequenceUntil hcmd hle hle
      andOr := comes_parseAndOr hcmd hle hle
      pipeline := comes_parsePipeline hcmd hle hle
      unary := comes_parseUnary hcmd hle hle
      command := hcmd
      block := (eats_parseBlock hcmd hle).toComes.mono hmore
      parenGroup := (eats_parseParenGroup hcmd hle).toComes.mono hmore
      conditional := (eats_parseIf hcmd hle).toComes.mono hmore
      loop := (eats_parseWhile hcmd hle).toComes.mono hmore
      iteration := (eats_parseFor hcmd hle).toComes.mono hmore
      switch := (eats_parseSwitch hcmd hle).toComes.mono hmore
      function := (eats_parseFunction hcmd hle).toComes.mono hmore
      simple := ?_
      back := fun s s' hs hnone => (reaches_parseElse hcmd hle hs).2 s' hnone
      passed := fun s s' hlook => lookAhead_spec hlook }
  cases budget with
  | zero => exact comes_zero
  | succ budget => exact comes_parseSimple (hcmd.mono (Nat.le_succ budget)) le_rfl

/-- Every source text is parsed or refused. -/
theorem parse_returns (source : String) : ∃ result : Except RcError Script, parse source = .ofExcept result := by
  have hparse : parse source ≠ .abort := by
    unfold parse
    cases hprepare : prepareHereDocs source.toList with
    | err e => exact Outcome.err_ne_abort
    | abort => exact absurd hprepare (prepareHereDocs_returns _)
    | ok prepared =>
      rw [Outcome.ok_bind]
      cases hlex : lex prepared.source with
      | err e => exact Outcome.err_ne_abort
      | abort => exact absurd hlex (lex_returns _)
      | ok tokens => exact ((comes_parseScript (tokens.length + 1)).reaches ⟨tokens, 0, prepared.hereDocs⟩ (Nat.lt_succ_self _)).returns
  cases hresult : parse source with
  | ok script => exact ⟨.ok script, rfl⟩
  | err e => exact ⟨.error e, rfl⟩
  | abort => exact absurd hresult hparse

/-- Parsing ends: every text has a result, every round of the three loops over the text moves on,
and every procedure of the parser comes back no earlier than it started. -/
theorem parse_ends :
    (∀ source, ∃ result : Except RcError Script, parse source = .ofExcept result) ∧
    (∀ s s', prepareStep s = .ok (.inl s') → s'.lines.length < s.lines.length) ∧
    (∀ line nextId s s', findHereMarkersStep line nextId s = .ok (.inl s') → s.i < s'.i ∧ s'.i + s'.rest.length = s.i + s.rest.length) ∧
    (∀ total s s', readWordStep total s = .ok (.inl s') → s.i < s'.i ∧ s'.i + s'.rest.length = s.i + s.rest.length) ∧
    (∀ total s s', lexStep total s = .ok (.inl s') → s.i < s'.i ∧ s'.i + s'.rest.length = s.i + s.rest.length) ∧
    ∀ budget, ParserEnds budget := by
  refine ⟨parse_returns, fun s s' h => prepareStep_next h, fun line nextId s s' h => ?_, fun total s s' h => ?_, fun total s s' h => ?_, parserEnds⟩
  · obtain ⟨hless, hsum⟩ := findHereMarkersStep_next h
    omega
  · obtain ⟨hless, hsum⟩ := readWordStep_next h
    omega
  · obtain ⟨hless, hsum⟩ := lexStep_next h
    omega

end Star9.Rc
