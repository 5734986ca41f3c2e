import Star9.Rc.Eval

/-!
# The variables of a command's prefix

A simple command saves, for each of its assignments in turn, what the variable was just
before, and gives the saved values back in the same order. For a name that is assigned
twice the later save is what stays: the value of the assignment before it. A command whose
redirection fails gives nothing back.
-/
namespace Star9.Rc
open Base Prog

/-! ## Saved values -/

/-- The values that a list of assignments gives to a name, in order. -/
def assignedTo (values : List (String × List String)) (name : String) : List (List String) :=
  (values.filter fun x => x.1 = name).map Prod.snd

section
variable (values : List (String × List String)) (vars : RcVars) (name : String)

@[simp] theorem assignedTo_nil : assignedTo [] name = [] := rfl

theorem assignedTo_cons_self (v : List String) : assignedTo ((name, v) :: values) name = v :: assignedTo values name := by
  simp [assignedTo]

theorem assignedTo_cons_ne {n : String} (h : n ≠ name) (v : List String) : assignedTo ((n, v) :: values) name = assignedTo values name := by
  simp [assignedTo, h]

theorem assignedTo_eq_nil : assignedTo values name = [] ↔ name ∉ values.map Prod.fst := by
  simp only [assignedTo, List.map_eq_nil_iff, List.filter_eq_nil_iff, List.mem_map, decide_eq_true_eq]
  exact ⟨fun h ⟨x, hx, heq⟩ => h x hx heq, fun h x hx heq => h ⟨x, hx, heq⟩⟩

theorem getLast?_cons_or {α : Type} (a : α) (l : List α) (old : Option α) : (a :: l).getLast?.or old = l.getLast?.or (some a) := by
  rw [List.getLast?_cons]
  cases l.getLast? with
  | none => rfl
  | some b => rfl

theorem pushVars_cons (n : String) (v : List String) :
    pushVars vars ((n, v) :: values) = ((pushVars (vars.insert n v) values).1, (n, vars[n]?) :: (pushVars (vars.insert n v) values).2) := rfl

/-- The last assignment counts while the command runs. -/
theorem pushVars_get : (pushVars vars values).1[name]? = (assignedTo values name).getLast?.or vars[name]? := by
  induction values generalizing vars with
  | nil => simp [pushVars]
  | cons x values ih =>
    obtain ⟨n, v⟩ := x
    rw [pushVars_cons, ih]
    by_cases h : n = name
    · subst h
      rw [assignedTo_cons_self, getLast?_cons_or, Std.ExtTreeMap.getElem?_insert_self]
    · rw [assignedTo_cons_ne values name h]
      simp [Std.ExtTreeMap.getElem?_insert, h]

theorem restoreVar_self (old : Option (List String)) : (restoreVar vars name old)[name]? = old := by
  cases old with
  | none => simp [restoreVar]
  | some v => simp [restoreVar]

theorem restoreVar_ne {n : String} (h : n ≠ name) (old : Option (List String)) : (restoreVar vars n old)[name]? = vars[name]? := by
  cases old with
  | none => simp [restoreVar, Std.ExtTreeMap.getElem?_erase, h]
  | some v => simp [restoreVar, Std.ExtTreeMap.getElem?_insert, h]

/-- What is given back is the value of the last assignment but one, if there is one. -/
theorem restored_get (later : RcVars) (h : name ∈ values.map Prod.fst) :
    ((pushVars vars values).2.foldl (fun vars (name, old) => restoreVar vars name old) later)[name]? =
      (assignedTo values name).dropLast.getLast?.or vars[name]? := by
  have hall : ((pushVars vars values).2.foldl (fun vars (name, old) => restoreVar vars name old) later)[name]? =
      if name ∈ values.map Prod.fst then (assignedTo values name).dropLast.getLast?.or vars[name]? else later[name]? := by
    clear h
    induction values generalizing vars later with
    | nil => simp [pushVars]
    | cons x values ih =>
      obtain ⟨n, v⟩ := x
      rw [pushVars_cons, List.foldl_cons, ih]
      by_cases hn : n = name
      · subst hn
        rw [assignedTo_cons_self]
        by_cases hmem : n ∈ values.map Prod.fst
        · obtain ⟨a, l, hl⟩ := List.exists_cons_of_ne_nil (mt (assignedTo_eq_nil values n).mp (not_not_intro hmem))
          rw [if_pos hmem, if_pos (by simp), hl, List.dropLast_cons_cons, getLast?_cons_or,
            Std.ExtTreeMap.getElem?_insert_self]
        · rw [if_neg hmem, if_pos (by simp), (assignedTo_eq_nil values n).mpr hmem, restoreVar_self]
          simp
      · have hmem : name ∈ (n, v).1 :: values.map Prod.fst ↔ name ∈ values.map Prod.fst := by simp [Ne.symm hn]
        have hget : (vars.insert n v)[name]? = vars[name]? := by simp [Std.ExtTreeMap.getElem?_insert, hn]
        rw [assignedTo_cons_ne values name hn, restoreVar_ne _ _ hn, List.map_cons, hget]
        simp only [hmem]
  rw [hall, if_pos h]

end

/-! ## A simple command -/

section
variable {H : Type} {parse : String → Except RcError Script} {host : RcHost H} {ev : Node → String → RcM H RcRun}

theorem publishEnvironment_vars : Preserves RcSession.vars (ignore (publishEnvironment host)) :=
  preserves_bind (preserves_attempt (preserves_bind preserves_get fun _ => fun _ => rfl)) fun _ => preserves_pure _

theorem expandAssignments_names (src : String → RcM H RcOutput) (assignments : List Assignment) :
    Returns (fun values => values.map Prod.fst = assignments.map Assignment.name) (expandAssignments host src assignments) := by
  unfold expandAssignments
  induction assignments with
  | nil => exact returns_pure rfl
  | cons a assignments ih =>
    rw [List.mapM_cons]
    refine returns_then (V := fun x => x.1 = a.name) ?_ fun x hx => returns_then ih fun values hvalues => returns_pure ?_
    · split
      · exact returns_bind fun _ => returns_pure rfl
      · exact returns_bind fun _ => returns_pure rfl
    · rw [List.map_cons, List.map_cons, hx, hvalues]

theorem finishSimple_restores {out : RcRun} {sinks : FdSinks} {restore : List (String × Option (List String))} {s s' : RcSession H} {r : RcRun}
    (hrun : finishSimple parse host ev out sinks restore s = (.ok r, s')) :
    ∃ later, s'.vars = restore.foldl (fun vars (name, old) => restoreVar vars name old) later := by
  unfold finishSimple at hrun
  obtain ⟨_, s₁, -, hrun⟩ := bind_eq_ok.mp hrun
  obtain ⟨⟨sunk, err⟩, s₂, -, hrun⟩ := bind_eq_ok.mp hrun
  dsimp only at hrun
  rw [modify_bind, modify_bind] at hrun
  obtain ⟨_, s₃, hpublish, hrun⟩ := bind_eq_ok.mp hrun
  have hvars := @publishEnvironment_vars H host (restoreVars restore (setStatus (sinkFailure sunk err).status s₂))
  rw [hpublish] at hvars
  cases hrun
  exact ⟨_, hvars⟩

/-- A command that gets past its redirections gives every saved value back. -/
theorem evalCommand_restores {simple : SimpleCommand} {st : RedirectState} {restore : List (String × Option (List String))}
    {s s' : RcSession H} {r : RcRun} (hrun : evalCommand parse host ev simple st restore s = (.ok r, s')) :
    ∃ later, s'.vars = restore.foldl (fun vars (name, old) => restoreVar vars name old) later := by
  obtain ⟨words, s₁, -, hrun⟩ := bind_eq_ok.mp hrun
  cases words with
  | nil =>
    obtain ⟨_, s₂, hgive, hrun⟩ := bind_eq_ok.mp hrun
    cases hgive
    cases hrun
    exact ⟨_, rfl⟩
  | cons command args =>
    obtain ⟨out, s₂, -, hrun⟩ := bind_eq_ok.mp hrun
    exact finishSimple_restores hrun

/-- The redirections of a command, after its assignments. -/
def redirectsOf (parse : String → Except RcError Script) (host : RcHost H) (ev : Node → String → RcM H RcRun) (simple : SimpleCommand)
    (input : String) : RcM H (RedirectState × Option RcError) :=
  prepareRedirects parse host ev simple.redirects { input, sinks := .default, reads := .nothing }

/-- The variables are given back when the redirections succeed, and left alone when one fails. -/
theorem evalSimple_vars {simple : SimpleCommand} (hwords : simple.words ≠ []) {input : String} {s s₁ s₂ s' : RcSession H}
    {values : List (String × List String)} {st : RedirectState} {err : Option RcError} {r : RcRun}
    (hvalues : expandAssignments host (sourceOutput parse host ev) simple.assignments s = (.ok values, s₁))
    (hredirects : redirectsOf parse host ev simple input { s₁ with vars := (pushVars s₁.vars values).1 } = (.ok (st, err), s₂))
    (hrun : evalSimple parse host ev simple input s = (.ok r, s')) :
    (err = none → ∃ later, s'.vars = (pushVars s₁.vars values).2.foldl (fun vars (name, old) => restoreVar vars name old) later) ∧
      (err ≠ none → s'.vars = s₂.vars) := by
  unfold evalSimple at hrun
  rw [bind_ok hvalues, branch_apply, if_neg (by simpa using hwords), get_bind] at hrun
  obtain ⟨_, s₃, hset, hrun⟩ := bind_eq_ok.mp hrun
  cases hset
  rw [branch_apply] at hrun
  by_cases hempty : simple.redirects.isEmpty = true
  · rw [if_pos hempty] at hrun
    rw [redirectsOf, List.isEmpty_iff.mp hempty] at hredirects
    cases hredirects
    exact ⟨fun _ => evalCommand_restores hrun, fun h => absurd rfl h⟩
  · rw [if_neg hempty] at hrun
    rw [redirectsOf] at hredirects
    unfold evalRedirected at hrun
    rw [bind_ok hredirects] at hrun
    cases err with
    | none =>
      obtain ⟨out, s₄, hout, hrun⟩ := bind_eq_ok.mp hrun
      cases hrun
      exact ⟨fun _ => evalCommand_restores hout, fun h => absurd rfl h⟩
    | some err =>
      cases hrun
      exact ⟨fun h => absurd h (Option.some_ne_none err), fun _ => rfl⟩

/-- What the command leaves in a variable of its prefix: what the variable was just before its
last assignment, or, when a redirection fails, what it was assigned last. -/
def leftBehind (values : List (String × List String)) (expanded : RcVars) (failed : Bool) (name : String) : Option (List String) :=
  if failed then (assignedTo values name).getLast? else (assignedTo values name).dropLast.getLast?.or expanded[name]?

/-- The variables of the prefix are as before the command exactly when what is left behind is
the value from before. A redirection whose failure leaves the last assignment is taken not
to assign the variables itself. -/
theorem prefixVars_restored_iff (parse : String → Except RcError Script) (host : RcHost H) (ev : Node → String → RcM H RcRun)
    (simple : SimpleCommand) (hwords : simple.words ≠ []) (input : String) (s s₁ s₂ s' : RcSession H)
    (values : List (String × List String)) (st : RedirectState) (err : Option RcError) (r : RcRun)
    (hvalues : expandAssignments host (sourceOutput parse host ev) simple.assignments s = (.ok values, s₁))
    (hredirects : redirectsOf parse host ev simple input { s₁ with vars := (pushVars s₁.vars values).1 } = (.ok (st, err), s₂))
    (hredirect : err.isSome = true → ∀ a ∈ simple.assignments, s₂.vars[a.name]? = (pushVars s₁.vars values).1[a.name]?)
    (hrun : evalSimple parse host ev simple input s = (.ok r, s')) :
    (∀ a ∈ simple.assignments, s'.vars[a.name]? = s.vars[a.name]?) ↔
      ∀ a ∈ simple.assignments, leftBehind values s₁.vars err.isSome a.name = s.vars[a.name]? := by
  obtain ⟨hgiven, hkept⟩ := evalSimple_vars hwords hvalues hredirects hrun
  have hnames := expandAssignments_names (sourceOutput parse host ev) simple.assignments s values (by rw [hvalues])
  refine forall₂_congr fun a ha => ?_
  have hmem : a.name ∈ values.map Prod.fst := by
    rw [hnames]
    exact List.mem_map_of_mem ha
  cases err with
  | none =>
    obtain ⟨later, hvars⟩ := hgiven rfl
    rw [hvars, restored_get values s₁.vars a.name later hmem]
    rfl
  | some err =>
    rw [hkept (Option.some_ne_none err), hredirect rfl a ha, pushVars_get]
    have hlast : ∃ v, (assignedTo values a.name).getLast? = some v := by
      cases hget : (assignedTo values a.name).getLast? with
      | some v => exact ⟨v, rfl⟩
      | none => exact absurd hmem ((assignedTo_eq_nil values a.name).mp (List.getLast?_eq_none_iff.mp hget))
    obtain ⟨v, hv⟩ := hlast
    rw [leftBehind, Option.isSome_some, if_pos rfl, hv]
    rfl

def prefixedCommand (values : List String) : SimpleCommand := .mk (values.map fun v => ⟨"A", [⟨v⟩]⟩) [⟨"true"⟩] []

/-- `A=1 true`, where `A` is not there before and not after. -/
theorem prefixVars_restored_true :
    (evalSimple noParse .naming (evalNode noParse .naming 0) (prefixedCommand ["1"]) "" (.fresh ())).2.vars["A"]? =
      (RcSession.fresh ()).vars["A"]? := by
  have hvalues : (expandAssignments .naming (sourceOutput noParse .naming (evalNode noParse .naming 0)) (prefixedCommand ["1"]).assignments
      (.fresh ())).1 = .ok [("A", ["1"])] := by decide +kernel
  have hrun : (evalSimple noParse .naming (evalNode noParse .naming 0) (prefixedCommand ["1"]) "" (.fresh ())).1 = .ok (.ofCommand .default) := by
    decide +kernel
  have hleft : ∀ a ∈ (prefixedCommand ["1"]).assignments, leftBehind [("A", ["1"])]
      (expandAssignments .naming (sourceOutput noParse .naming (evalNode noParse .naming 0)) (prefixedCommand ["1"]).assignments
        (.fresh ())).2.vars false a.name = (RcSession.fresh ()).vars[a.name]? := by decide +kernel
  exact (prefixVars_restored_iff noParse .naming (evalNode noParse .naming 0) (prefixedCommand ["1"]) (List.cons_ne_nil _ _) ""
    (.fresh ()) _ _ _ _ { input := "", sinks := .default, reads := .nothing } none _ (Prod.ext hvalues rfl) rfl
    (fun h => absurd h Bool.false_ne_true) (Prod.ext hrun rfl)).mpr hleft ⟨"A", [⟨"1"⟩]⟩ List.mem_cons_self

/-- `A=1 A=2 true` leaves `A` with the first of the two values. -/
theorem prefixVars_kept :
    (RcSession.fresh ()).vars["A"]? = none ∧
    (evalSimple noParse .naming (evalNode noParse .naming 0) (prefixedCommand ["1", "2"]) "" (.fresh ())).2.vars["A"]? = some ["1"] := by
  decide +kernel

end

end Star9.Rc
