import Star9.Rc.Streams

/-!
# Redirections in a process graph and in rc

rc goes through the redirections of a command from left to right. A stage keeps them as
bindings, and the shell looks for the last binding of a descriptor when it needs the
stream. The two agree when every duplicate is of a descriptor that is bound and stays
where it was.
-/
namespace Star9.Rc
open Base Prog

/-! ## Left to right -/

/-- The sink that a binding gives its descriptor. -/
def sinkOf (sinks : FdSinks) (binding : RcFdBindingSpec) : FdSink :=
  if binding.close then .closed
  else
    match binding.dupFrom with
    | some source => dupSink sinks source
    | none => .file binding.path binding.append

def bindSinks (sinks : FdSinks) (bindings : List RcFdBindingSpec) : FdSinks :=
  bindings.foldl (fun sinks binding => sinks.insert binding.fd (sinkOf sinks binding)) sinks

section Sinks
variable {sinks : FdSinks} {bindings before after : List RcFdBindingSpec} {binding : RcFdBindingSpec}

theorem dupSink_insert (sinks : FdSinks) (fd source : Nat) (sink : FdSink) :
    dupSink (sinks.insert fd sink) source = if fd = source then sink else dupSink sinks source := by
  unfold dupSink
  rw [Std.ExtTreeMap.getElem?_insert]
  by_cases h : fd = source <;> simp [h]

theorem dupSink_bindSinks_of_forall_ne {fd : Nat} (h : ∀ b ∈ bindings, b.fd ≠ fd) :
    dupSink (bindSinks sinks bindings) fd = dupSink sinks fd := by
  induction bindings generalizing sinks with
  | nil => rfl
  | cons b bindings ih =>
    have htail : ∀ c ∈ bindings, c.fd ≠ fd := fun c hc => h c (List.mem_cons_of_mem b hc)
    have hcons : bindSinks sinks (b :: bindings) = bindSinks (sinks.insert b.fd (sinkOf sinks b)) bindings := rfl
    rw [hcons, ih htail, dupSink_insert, if_neg (h b List.mem_cons_self)]

/-- The last binding of a descriptor decides. -/
theorem dupSink_bindSinks_last (h : ∀ c ∈ after, c.fd ≠ binding.fd) :
    dupSink (bindSinks sinks (before ++ binding :: after)) binding.fd = sinkOf (bindSinks sinks before) binding := by
  have hsplit : bindSinks sinks (before ++ binding :: after) =
      bindSinks ((bindSinks sinks before).insert binding.fd (sinkOf (bindSinks sinks before) binding)) after := by
    unfold bindSinks
    rw [List.foldl_append, List.foldl_cons]
  rw [hsplit, dupSink_bindSinks_of_forall_ne h, dupSink_insert, if_pos rfl]

end Sinks

/-! ## The bindings of a list of redirections -/

/-- A redirection of an output descriptor to a file or to another descriptor, or its end. -/
def OutputRedirect (redirect : Redirect) : Prop :=
  (redirect.fd = 1 ∨ redirect.fd = 2) ∧
    match redirect.mode, redirect.target with
    | .write, some (.word _) => True
    | .append, some (.word _) => True
    | .dup _, _ => True
    | _, _ => False

/-- What the bindings of such redirections are like. -/
structure OutputBinding (binding : RcFdBindingSpec) : Prop where
  fd : binding.fd = 1 ∨ binding.fd = 2
  closed : binding.close = true → binding.dupFrom = none

section Session
variable {H : Type} (parse : String → Except RcError Script) (host : RcHost H) (ev : Node → String → RcM H RcRun)

theorem attempt?_eq_some {α : Type} {p : RcM H α} {a : α} {s s' : RcSession H} (h : attempt? p s = (.ok (some a), s')) :
    p s = (.ok a, s') := by
  unfold attempt? at h
  rw [bind_apply] at h
  unfold attempt at h
  rcases hp : p s with ⟨b | e | _, s₁⟩ <;> rw [hp] at h <;> cases h
  rfl

theorem prepareRedirects_cons {redirect : Redirect} {redirects : List Redirect} {st st₁ : RedirectState}
    {s s₁ : RcSession H} (h : prepareRedirect parse host ev redirect st s = (.ok st₁, s₁)) :
    prepareRedirects parse host ev (redirect :: redirects) st s = prepareRedirects parse host ev redirects st₁ s₁ := by
  rw [prepareRedirects, bind_ok (attempt_ok h)]

/-- A file word gives the stage a binding and rc a sink. -/
theorem prepareRedirect_file {redirect : Redirect} {word : Word} (hmode : redirect.mode = .write ∨ redirect.mode = .append)
    (htarget : redirect.target = some (.word word)) {path : String} (hnull : isNullPath path = false) {s s₁ : RcSession H}
    (hpath : redirectPath (sourceOutput parse host ev) redirect s = (.ok path, s₁)) (st : RedirectState) :
    prepareRedirect parse host ev redirect st s =
      (.ok { st with sinks := st.sinks.insert redirect.fd (.file path (redirect.mode = .append)) }, s₁) := by
  have hsink : fileSink parse host ev redirect s = (.ok (.file path (redirect.mode = .append)), s₁) := by
    unfold fileSink
    rw [bind_ok hpath, hnull]
    rfl
  unfold prepareRedirect
  rw [htarget]
  rcases hmode with hmode | hmode
  · rw [hmode] at hsink ⊢
    exact bind_ok hsink
  · rw [hmode] at hsink ⊢
    exact bind_ok hsink

/-- The redirections that give a stage its bindings give rc the sinks of these bindings. -/
theorem stageRedirects_prepare {redirects : List Redirect} (hredirects : ∀ r ∈ redirects, OutputRedirect r)
    {stdin stdin' : String} {base bindings : List RcFdBindingSpec} {s s' : RcSession H}
    (h : stageRedirects (sourceOutput parse host ev) redirects stdin base s = (.ok (some (stdin', bindings)), s'))
    (hnull : ∀ b ∈ bindings, isNullPath b.path = false) (st : RedirectState) :
    ∃ added, bindings = base ++ added ∧ (∀ b ∈ added, OutputBinding b) ∧
      prepareRedirects parse host ev redirects st s = (.ok ({ st with sinks := bindSinks st.sinks added }, none), s') := by
  induction redirects generalizing base s st with
  | nil =>
    cases h
    exact ⟨[], (List.append_nil _).symm, (fun _ h => nomatch h), rfl⟩
  | cons redirect redirects ih =>
    have htail : ∀ r ∈ redirects, OutputRedirect r := fun r hr => hredirects r (List.mem_cons_of_mem redirect hr)
    -- one redirection adds one binding, and rc makes a sink of it
    have hone : ∀ (binding : RcFdBindingSpec) (s₁ : RcSession H), OutputBinding binding →
        stageRedirects (sourceOutput parse host ev) redirects stdin (base ++ [binding]) s₁ = (.ok (some (stdin', bindings)), s') →
        (isNullPath binding.path = false → prepareRedirect parse host ev redirect st s =
          (.ok { st with sinks := st.sinks.insert binding.fd (sinkOf st.sinks binding) }, s₁)) →
        ∃ added, bindings = base ++ added ∧ (∀ b ∈ added, OutputBinding b) ∧
          prepareRedirects parse host ev (redirect :: redirects) st s =
            (.ok ({ st with sinks := bindSinks st.sinks added }, none), s') := by
      intro binding s₁ hbinding hstage hprepare
      obtain ⟨added, hadded, houtput, hrest⟩ := ih htail hstage
        { st with sinks := st.sinks.insert binding.fd (sinkOf st.sinks binding) }
      have hmem : binding ∈ bindings := by simp [hadded]
      refine ⟨binding :: added, by simp [hadded], ?_, ?_⟩
      · intro b hb
        rcases List.mem_cons.mp hb with rfl | hb
        · exact hbinding
        · exact houtput b hb
      · rw [prepareRedirects_cons parse host ev (hprepare (hnull binding hmem)), hrest]
        rfl
    obtain ⟨hfd, hkind⟩ := hredirects redirect List.mem_cons_self
    obtain ⟨fd, mode, target⟩ := redirect
    cases mode with
    | read => exact hkind.elim
    | here => exact hkind.elim
    | dup source =>
      cases source with
      | some source => exact hone (.ofDup fd source) s ⟨hfd, (fun h => nomatch h)⟩ h fun _ => rfl
      | none => exact hone (.ofClose fd) s ⟨hfd, fun _ => rfl⟩ h fun _ => rfl
    | write =>
      match target, hkind with
      | some (.word word), _ =>
        obtain ⟨path, s₁, hpath, h⟩ := bind_eq_ok.mp h
        cases path with
        | none => cases h
        | some path =>
          refine hone (.ofFile fd path false true) s₁ ⟨hfd, (fun h => nomatch h)⟩ h fun hpathNull => ?_
          exact prepareRedirect_file parse host ev (Or.inl rfl) rfl hpathNull (attempt?_eq_some hpath) st
    | append =>
      match target, hkind with
      | some (.word word), _ =>
        obtain ⟨path, s₁, hpath, h⟩ := bind_eq_ok.mp h
        cases path with
        | none => cases h
        | some path =>
          refine hone (.ofAppendFile fd path) s₁ ⟨hfd, (fun h => nomatch h)⟩ h fun hpathNull => ?_
          exact prepareRedirect_file parse host ev (Or.inr rfl) rfl hpathNull (attempt?_eq_some hpath) st

/-- The bindings of a stage are made after the words of its command are expanded. -/
theorem executableStage_redirects {simple : SimpleCommand} {stdin : String} {base : List RcFdBindingSpec}
    {s s' : RcSession H} {stage : RcExecutableStageSpec}
    (h : executableStage host (sourceOutput parse host ev) (.simple simple) stdin base s = (.ok (some stage), s')) :
    ∃ assigned s₀ words s₁ s₂, expandAssignments host (sourceOutput parse host ev) simple.assignments s = (.ok assigned, s₀) ∧
      expandWords host (sourceOutput parse host ev) simple.words s₀ = (.ok words, s₁) ∧
      stageRedirects (sourceOutput parse host ev) simple.redirects stdin base s₁ = (.ok (some (stage.stdin, stage.fdBindings)), s₂) := by
  unfold executableStage at h
  dsimp only [stageCommand] at h
  rw [get_bind] at h
  obtain ⟨assigned, s₀, hassigned, h⟩ := bind_eq_ok.mp h
  obtain ⟨words, s₁, hwords, h⟩ := bind_eq_ok.mp h
  rw [get_bind] at h
  refine ⟨assigned, s₀, words, s₁, ?_⟩
  cases words with
  | nil => cases h
  | cons command args =>
    dsimp only at h
    rw [branch_apply] at h
    split at h
    · cases h
    · obtain ⟨found, s₂, hfound, h⟩ := bind_eq_ok.mp h
      cases found with
      | none => cases h
      | some found =>
        obtain ⟨argv, s₃, hargv, h⟩ := bind_eq_ok.mp h
        cases argv with
        | none => cases h
        | some argv =>
          dsimp only at h
          rw [get_bind] at h
          cases h
          exact ⟨s₂, hassigned, hwords, hfound⟩

end Session

/-! ## The last binding -/

def lastBinding (bindings : List RcFdBindingSpec) (fd : Nat) : Option RcFdBindingSpec :=
  bindings.reverse.find? fun binding => binding.fd = fd

section Last
variable {bindings base added before after : List RcFdBindingSpec} {binding : RcFdBindingSpec} {fd : Nat}

theorem lastBinding_append : lastBinding (base ++ added) fd = (lastBinding added fd).or (lastBinding base fd) := by
  unfold lastBinding
  rw [List.reverse_append, List.find?_append]

theorem lastBinding_eq_none : lastBinding bindings fd = none ↔ ∀ b ∈ bindings, b.fd ≠ fd := by
  simp [lastBinding, List.find?_eq_none]

theorem lastBinding_mem (h : lastBinding bindings fd = some binding) : binding ∈ bindings ∧ binding.fd = fd := by
  have hfd := List.find?_some h
  exact ⟨List.mem_reverse.mp (List.mem_of_find?_eq_some h), of_decide_eq_true hfd⟩

theorem lastBinding_split (h : ∀ c ∈ after, c.fd ≠ binding.fd) :
    lastBinding (before ++ binding :: after) binding.fd = some binding := by
  have hafter : lastBinding after binding.fd = none := lastBinding_eq_none.mpr h
  have hone : lastBinding [binding] binding.fd = some binding := by simp [lastBinding]
  rw [lastBinding_append, ← List.singleton_append, lastBinding_append, hafter, hone]
  rfl

theorem split_of_lastBinding (h : lastBinding bindings fd = some binding) :
    ∃ before after, bindings = before ++ binding :: after ∧ ∀ c ∈ after, c.fd ≠ binding.fd := by
  obtain ⟨hfd, after, before, hsplit, hafter⟩ := List.find?_eq_some_iff_append.mp h
  refine ⟨before.reverse, after.reverse, ?_, fun c hc => ?_⟩
  · rw [← List.reverse_reverse bindings, hsplit, List.reverse_append, List.reverse_cons]
    simp
  · have hne := hafter c (List.mem_reverse.mp hc)
    rw [of_decide_eq_true hfd]
    simpa using hne

end Last

/-! ## Streams -/

section Streams
variable {graphRoot : String} {bindings : List RcFdBindingSpec} {binding : RcFdBindingSpec} {fd source depth : Nat}

theorem streamForFd_of_none (h : lastBinding bindings fd = none) : streamForFd graphRoot bindings (depth + 1) fd = some none := by
  unfold lastBinding at h
  rw [streamForFd, h]

theorem streamForFd_of_some (h : lastBinding bindings fd = some binding) :
    streamForFd graphRoot bindings (depth + 1) fd =
      if binding.close then some (some .null)
      else
        match binding.dupFrom with
        | some source => (streamForFd graphRoot bindings depth source).map fun stream => stream.or (unboundStream source)
        | none =>
          if binding.path = "" then some none else some (some (.fd (fdDescriptorFromBinding graphRoot binding))) := by
  unfold lastBinding at h
  cases hdup : binding.dupFrom <;> simp only [streamForFd, h, hdup]

theorem streamForFd_of_dup (h : lastBinding bindings fd = some binding) (hclose : binding.close = false)
    (hdup : binding.dupFrom = some source) :
    streamForFd graphRoot bindings (depth + 1) fd =
      (streamForFd graphRoot bindings depth source).map fun stream => stream.or (unboundStream source) := by
  rw [streamForFd_of_some h, hclose, if_neg Bool.false_ne_true, hdup]

theorem streamForFd_of_file (h : lastBinding bindings fd = some binding) (hclose : binding.close = false)
    (hdup : binding.dupFrom = none) :
    streamForFd graphRoot bindings (depth + 1) fd =
      if binding.path = "" then some none else some (some (.fd (fdDescriptorFromBinding graphRoot binding))) := by
  rw [streamForFd_of_some h, hclose, if_neg Bool.false_ne_true, hdup]

/-- A search that comes back does so with the same stream at every greater depth. -/
theorem streamForFd_mono {stream : Option StreamDescriptor} (h : streamForFd graphRoot bindings depth fd = some stream) {depth' : Nat}
    (hle : depth ≤ depth') : streamForFd graphRoot bindings depth' fd = some stream := by
  induction depth generalizing fd stream depth' with
  | zero => cases h
  | succ depth ih =>
    obtain ⟨k, rfl⟩ := Nat.exists_eq_add_of_le' hle
    cases hlast : lastBinding bindings fd with
    | none =>
      rw [streamForFd_of_none hlast] at h
      rw [← h]
      exact streamForFd_of_none hlast
    | some binding =>
      have hsucc : k + (depth + 1) = (k + depth) + 1 := rfl
      rw [hsucc, streamForFd_of_some hlast]
      rw [streamForFd_of_some hlast] at h
      split at h
      · rwa [if_pos ‹_›]
      · rw [if_neg ‹_›]
        split at h
        · obtain ⟨found, hfound, hstream⟩ := Option.map_eq_some_iff.mp h
          rw [ih hfound (Nat.le_add_left depth k), Option.map_some, hstream]
        · exact h

/-- A descriptor that is a duplicate of itself has no stream. -/
theorem streamForFd_loop (h : lastBinding bindings fd = some binding) (hclose : binding.close = false)
    (hdup : binding.dupFrom = some fd) : streamForFd graphRoot bindings depth fd = none := by
  induction depth with
  | zero => rfl
  | succ depth ih => rw [streamForFd_of_dup h hclose hdup, ih, Option.map_none]

/-- Two descriptors that are duplicates of each other have no streams. -/
theorem streamForFd_cycle {other : RcFdBindingSpec} (h : lastBinding bindings fd = some binding)
    (hclose : binding.close = false) (hdup : binding.dupFrom = some source) (hother : lastBinding bindings source = some other)
    (hotherClose : other.close = false) (hback : other.dupFrom = some fd) : streamForFd graphRoot bindings depth fd = none := by
  induction depth using Nat.strong_induction_on with
  | _ depth ih =>
    match depth, ih with
    | 0, _ => rfl
    | 1, _ => rw [streamForFd_of_dup h hclose hdup]; rfl
    | depth + 2, ih =>
      rw [streamForFd_of_dup h hclose hdup, streamForFd_of_dup hother hotherClose hback, ih depth (by omega)]
      rfl

end Streams

/-! ## When the two agree -/

/-- The bindings that a stage has before its redirections: pipes, and no duplicates. -/
structure PipeBinding (binding : RcFdBindingSpec) : Prop where
  opened : binding.close = false
  source : binding.dupFrom = none
  path : binding.path ≠ ""

section Agree
variable (graphRoot : String) (base added : List RcFdBindingSpec)

/-- Where rc leads a descriptor after these redirections. -/
def leadsTo (bindings : List RcFdBindingSpec) (fd : Nat) : Option Destination :=
  (dupSink (bindSinks .default bindings) fd).destination graphRoot base

/-- The stream of a descriptor is found, and it leads where rc leads the descriptor. -/
def Agrees (fd : Nat) : Prop :=
  ∃ depth stream, streamForFd graphRoot (base ++ added) depth fd = some stream ∧
    some ((stream.getD .inherit).destination fd) = leadsTo graphRoot base added fd

/-- The last redirection of its descriptor, after those in `before`, means the same to both. -/
inductive Settled (before : List RcFdBindingSpec) (binding : RcFdBindingSpec) : Prop
  | closed (hclose : binding.close = true)
  | file (hclose : binding.close = false) (hdup : binding.dupFrom = none) (hempty : binding.path ≠ "")
      (hpath : resolveExecutableBindingPath graphRoot binding.path = binding.path)
  | input (hclose : binding.close = false) (hdup : binding.dupFrom = some 0) (hbase : ∀ b ∈ base, b.fd ≠ 0)
  /-- a duplicate of the other descriptor, which is bound, is no duplicate of this one and stays where it was -/
  | duplicate (source : Nat) (other : RcFdBindingSpec) (hclose : binding.close = false)
      (hdup : binding.dupFrom = some source) (hsource : source = 1 ∨ source = 2) (hne : source ≠ binding.fd)
      (hother : lastBinding (base ++ added) source = some other) (hback : other.dupFrom ≠ some binding.fd)
      (hstays : leadsTo graphRoot base before source = leadsTo graphRoot base added source)

/-- The last redirection of every descriptor means the same to both. -/
def AllSettled : Prop :=
  ∀ before binding after, added = before ++ binding :: after → (∀ c ∈ after, c.fd ≠ binding.fd) →
    Settled graphRoot base added before binding

variable {graphRoot base added} {fd : Nat} {binding : RcFdBindingSpec}

theorem lastBinding_base (h : ∀ b ∈ added, b.fd ≠ fd) : lastBinding (base ++ added) fd = lastBinding base fd := by
  rw [lastBinding_append, lastBinding_eq_none.mpr h]
  rfl

theorem lastBinding_added {before after : List RcFdBindingSpec} (hsplit : added = before ++ binding :: after)
    (hafter : ∀ c ∈ after, c.fd ≠ binding.fd) : lastBinding (base ++ added) binding.fd = some binding := by
  rw [lastBinding_append, hsplit, lastBinding_split hafter]
  rfl

theorem leadsTo_of_forall_ne (hfd : fd = 1 ∨ fd = 2) (h : ∀ b ∈ added, b.fd ≠ fd) :
    leadsTo graphRoot base added fd = some (ownDestination graphRoot base fd) := by
  unfold leadsTo
  rw [dupSink_bindSinks_of_forall_ne h]
  rcases hfd with rfl | rfl
  · have hsink : dupSink FdSinks.default 1 = .stdout := by
      unfold FdSinks.default
      rw [dupSink_insert, dupSink_insert]
      rfl
    rw [hsink]
    rfl
  · have hsink : dupSink FdSinks.default 2 = .stderr := by
      unfold FdSinks.default
      rw [dupSink_insert]
      rfl
    rw [hsink]
    rfl

theorem leadsTo_of_other (hfd : fd ≠ 1 ∧ fd ≠ 2) (h : ∀ b ∈ added, b.fd ≠ fd) :
    leadsTo graphRoot base added fd = some .null := by
  unfold leadsTo
  rw [dupSink_bindSinks_of_forall_ne h]
  have hsink : dupSink FdSinks.default fd = .closed := by
    unfold FdSinks.default
    rw [dupSink_insert, dupSink_insert, if_neg (Ne.symm hfd.2), if_neg (Ne.symm hfd.1)]
    simp [dupSink, hfd]
  rw [hsink]
  rfl

theorem leadsTo_last {before after : List RcFdBindingSpec} (hsplit : added = before ++ binding :: after)
    (hafter : ∀ c ∈ after, c.fd ≠ binding.fd) :
    leadsTo graphRoot base added binding.fd = (sinkOf (bindSinks .default before) binding).destination graphRoot base := by
  unfold leadsTo
  rw [hsplit, dupSink_bindSinks_last hafter]

theorem leadsTo_dup {before after : List RcFdBindingSpec} (hsplit : added = before ++ binding :: after)
    (hafter : ∀ c ∈ after, c.fd ≠ binding.fd) (hclose : binding.close = false) {source : Nat}
    (hdup : binding.dupFrom = some source) :
    leadsTo graphRoot base added binding.fd = leadsTo graphRoot base before source := by
  rw [leadsTo_last hsplit hafter]
  unfold sinkOf leadsTo
  rw [hclose, if_neg Bool.false_ne_true, hdup]

theorem settled_file {before after : List RcFdBindingSpec} (hsplit : added = before ++ binding :: after)
    (hafter : ∀ c ∈ after, c.fd ≠ binding.fd) (hclose : binding.close = false) (hnone : binding.dupFrom = none)
    (hagrees : Agrees graphRoot base added binding.fd) : Settled graphRoot base added before binding := by
  obtain ⟨depth, stream, hstream, hdest⟩ := hagrees
  rw [leadsTo_last hsplit hafter, sinkOf, hclose, if_neg Bool.false_ne_true, hnone] at hdest
  cases depth with
  | zero => cases hstream
  | succ depth =>
    rw [streamForFd_of_file (lastBinding_added hsplit hafter) hclose hnone] at hstream
    by_cases hempty : binding.path = ""
    · rw [if_pos hempty] at hstream
      cases hstream
      cases hdest
    · rw [if_neg hempty] at hstream
      cases hstream
      refine .file hclose hnone hempty ?_
      simpa [StreamDescriptor.destination, fdDescriptorFromBinding, FdSink.destination] using hdest

/-- What agreement says of a duplicate. -/
theorem agrees_dup {before after : List RcFdBindingSpec} (hsplit : added = before ++ binding :: after)
    (hafter : ∀ c ∈ after, c.fd ≠ binding.fd) (hclose : binding.close = false) {source : Nat}
    (hdup : binding.dupFrom = some source) (hagrees : Agrees graphRoot base added binding.fd) :
    ∃ depth found, streamForFd graphRoot (base ++ added) (depth + 1) source = some found ∧
      some (((found.or (unboundStream source)).getD .inherit).destination binding.fd) = leadsTo graphRoot base before source := by
  obtain ⟨depth, stream, hstream, hdest⟩ := hagrees
  rw [leadsTo_dup hsplit hafter hclose hdup] at hdest
  cases depth with
  | zero => cases hstream
  | succ depth =>
    rw [streamForFd_of_dup (lastBinding_added hsplit hafter) hclose hdup] at hstream
    obtain ⟨found, hfound, rfl⟩ := Option.map_eq_some_iff.mp hstream
    cases depth with
    | zero => cases hfound
    | succ depth => exact ⟨depth, found, hfound, hdest⟩

theorem extraFds_of_pipes {bindings rest : List RcFdBindingSpec} {depth : Nat} (hrest : ∀ b ∈ rest, b.dupFrom = none) :
    ∃ fds, extraFds graphRoot bindings depth rest = some fds := by
  induction rest with
  | nil => exact ⟨[], rfl⟩
  | cons b rest ih =>
    obtain ⟨fds, hfds⟩ := ih fun c hc => hrest c (List.mem_cons_of_mem b hc)
    have hone : ∃ found, fdDescriptorForBinding graphRoot bindings depth b = some found := by
      unfold fdDescriptorForBinding
      rw [hrest b List.mem_cons_self]
      split
      · exact ⟨_, rfl⟩
      · exact ⟨_, rfl⟩
    obtain ⟨found, hfound⟩ := hone
    refine ⟨found.toList ++ fds, ?_⟩
    rw [extraFds, hfound, hfds]
    rfl

/-- The pipes of a stage and the bindings of its redirections. -/
structure StageBindings (base added : List RcFdBindingSpec) : Prop where
  pipes : ∀ b ∈ base, PipeBinding b
  output : ∀ b ∈ added, OutputBinding b

namespace StageBindings
variable (h : StageBindings base added)
include h

theorem streamForFd_base {other : RcFdBindingSpec} {depth : Nat} (hlast : lastBinding (base ++ added) fd = some other)
    (hmem : other ∈ base) :
    streamForFd graphRoot (base ++ added) (depth + 1) fd = some (some (.fd (fdDescriptorFromBinding graphRoot other))) := by
  have hother := h.pipes other hmem
  rw [streamForFd_of_file hlast hother.opened hother.source, if_neg hother.path]

/-- Without a redirection a descriptor stays where the pipes lead it. -/
theorem agrees_of_unbound (hfd : fd = 1 ∨ fd = 2) (hnone : lastBinding added fd = none) : Agrees graphRoot base added fd := by
  have hne := lastBinding_eq_none.mp hnone
  refine ⟨1, ?_⟩
  rw [leadsTo_of_forall_ne hfd hne]
  unfold ownDestination
  cases hlast : lastBinding base fd with
  | none =>
    refine ⟨none, streamForFd_of_none ((lastBinding_base hne).trans hlast), ?_⟩
    unfold lastBinding at hlast
    rw [hlast]
    rfl
  | some other =>
    refine ⟨_, h.streamForFd_base ((lastBinding_base hne).trans hlast) (lastBinding_mem hlast).1, ?_⟩
    unfold lastBinding at hlast
    rw [hlast]
    rfl

/-- Only the output descriptors are redirected. -/
theorem forall_ne (hfd : fd ≠ 1 ∧ fd ≠ 2) : ∀ b ∈ added, b.fd ≠ fd := by
  intro b hb hfd'
  rcases (h.output b hb).fd with h' | h'
  · exact hfd.1 (hfd'.symm.trans h')
  · exact hfd.2 (hfd'.symm.trans h')

theorem leadsTo_input {before after : List RcFdBindingSpec} (hsplit : added = before ++ binding :: after)
    (hfd : fd ≠ 1 ∧ fd ≠ 2) : leadsTo graphRoot base before fd = some .null := by
  refine leadsTo_of_other hfd fun b hb => h.forall_ne hfd b ?_
  rw [hsplit]
  exact List.mem_append_left _ hb

/-- The stream of a descriptor that is not a duplicate of an output descriptor. -/
theorem streamForFd_settled {before after : List RcFdBindingSpec} (hsplit : added = before ++ binding :: after)
    (hafter : ∀ c ∈ after, c.fd ≠ binding.fd) (hset : Settled graphRoot base added before binding)
    (hdup : ∀ source, binding.dupFrom = some source → source ≠ 1 ∧ source ≠ 2) :
    ∃ stream, streamForFd graphRoot (base ++ added) 2 binding.fd = some (some stream) ∧
      ∀ k, some (stream.destination k) = leadsTo graphRoot base added binding.fd := by
  have hlast : lastBinding (base ++ added) binding.fd = some binding := lastBinding_added hsplit hafter
  rw [leadsTo_last hsplit hafter]
  unfold sinkOf
  cases hset with
  | closed hclose =>
    refine ⟨.null, ?_, fun _ => ?_⟩
    · rw [streamForFd_of_some hlast, if_pos hclose]
    · rw [if_pos hclose]
      rfl
  | file hclose hnone hempty hpath =>
    refine ⟨.fd (fdDescriptorFromBinding graphRoot binding), ?_, fun _ => ?_⟩
    · rw [streamForFd_of_file hlast hclose hnone, if_neg hempty]
    · rw [hclose, if_neg Bool.false_ne_true, hnone]
      simp only [StreamDescriptor.destination, fdDescriptorFromBinding, FdSink.destination, hpath]
  | input hclose hzero hbase =>
    have hlast0 : lastBinding (base ++ added) 0 = none := by
      rw [lastBinding_base (h.forall_ne (by decide))]
      exact lastBinding_eq_none.mpr hbase
    refine ⟨.null, ?_, fun _ => ?_⟩
    · rw [streamForFd_of_dup hlast hclose hzero, streamForFd_of_none hlast0]
      rfl
    · rw [hclose, if_neg Bool.false_ne_true, hzero]
      exact (h.leadsTo_input hsplit (by decide)).symm
  | duplicate source _ _ hsome hsource =>
    have hne := hdup source hsome
    exact absurd hsource (by omega)

/-- The stream of a descriptor that another one is a duplicate of. -/
theorem streamForFd_source (hall : AllSettled graphRoot base added) {source : Nat} {other : RcFdBindingSpec}
    (hsource : source = 1 ∨ source = 2) (hfd : fd = 1 ∨ fd = 2) (hne : source ≠ fd)
    (hother : lastBinding (base ++ added) source = some other) (hback : other.dupFrom ≠ some fd) :
    ∃ stream, streamForFd graphRoot (base ++ added) 2 source = some (some stream) ∧
      ∀ k, some (stream.destination k) = leadsTo graphRoot base added source := by
  cases hlast : lastBinding added source with
  | none =>
    have hnone := lastBinding_eq_none.mp hlast
    have hbase : lastBinding base source = some other := (lastBinding_base hnone).symm.trans hother
    refine ⟨_, h.streamForFd_base hother (lastBinding_mem hbase).1, fun k => ?_⟩
    rw [leadsTo_of_forall_ne hsource hnone]
    unfold lastBinding at hbase
    rw [ownDestination, hbase]
    rfl
  | some binding =>
    have hbinding : other = binding := by
      rw [lastBinding_append, hlast] at hother
      exact (Option.some.inj hother).symm
    subst hbinding
    obtain ⟨before, after, hsplit, hafter⟩ := split_of_lastBinding hlast
    have hset := hall before other after hsplit hafter
    have hother_fd : other.fd = source := (lastBinding_mem hlast).2
    rw [← hother_fd]
    refine h.streamForFd_settled hsplit hafter hset fun source' hdup => ?_
    -- a duplicate of an output descriptor would lead back to `fd`
    have hself : source' ≠ fd := by
      rintro rfl
      exact hback hdup
    cases hset with
    | closed hclose => exact absurd ((h.output other (by simp [hsplit])).closed hclose) (by simp [hdup])
    | file _ hnone => exact absurd hnone (by simp [hdup])
    | input _ hzero =>
      rw [hdup, Option.some.injEq] at hzero
      omega
    | duplicate source'' _ _ hsome hsource' hne' =>
      rw [hdup, Option.some.injEq] at hsome
      omega

theorem agrees_of_settled (hall : AllSettled graphRoot base added) (hfd : fd = 1 ∨ fd = 2) : Agrees graphRoot base added fd := by
  cases hlast : lastBinding added fd with
  | none => exact h.agrees_of_unbound hfd hlast
  | some binding =>
    obtain ⟨before, after, hsplit, hafter⟩ := split_of_lastBinding hlast
    obtain rfl : binding.fd = fd := (lastBinding_mem hlast).2
    have hset := hall before binding after hsplit hafter
    by_cases hdup : ∀ source, binding.dupFrom = some source → source ≠ 1 ∧ source ≠ 2
    · obtain ⟨stream, hstream, hdest⟩ := h.streamForFd_settled hsplit hafter hset hdup
      exact ⟨2, some stream, hstream, hdest binding.fd⟩
    · cases hset with
      | closed hclose => exact absurd (fun _ hsome => by simp [(h.output binding (by simp [hsplit])).closed hclose] at hsome) hdup
      | file _ hnone => exact absurd (fun _ hsome => by simp [hnone] at hsome) hdup
      | input _ hzero => exact absurd (fun source hsome => by rw [hzero, Option.some.injEq] at hsome; omega) hdup
      | duplicate source other hclose hsome hsource hne hother hback hstays =>
        obtain ⟨stream, hstream, hdest⟩ := h.streamForFd_source hall hsource hfd hne hother hback
        refine ⟨3, some stream, ?_, ?_⟩
        · rw [streamForFd_of_dup (lastBinding_added hsplit hafter) hclose hsome, hstream]
          rfl
        · rw [leadsTo_dup hsplit hafter hclose hsome, hstays]
          exact hdest binding.fd

/-- A duplicate of a descriptor that is not redirected leads to the pipe of that descriptor, and otherwise as if it
were not bound. -/
theorem streamForFd_unredirected {source depth : Nat} {found : Option StreamDescriptor} (hne : ∀ b ∈ added, b.fd ≠ source)
    (hfound : streamForFd graphRoot (base ++ added) (depth + 1) source = some found) :
    (lastBinding base source = none ∧ found = none) ∨
      ∃ other, lastBinding base source = some other ∧ found = some (.fd (fdDescriptorFromBinding graphRoot other)) := by
  cases hlast : lastBinding base source with
  | none =>
    rw [streamForFd_of_none ((lastBinding_base hne).trans hlast)] at hfound
    exact Or.inl ⟨rfl, (Option.some.inj hfound).symm⟩
  | some other =>
    rw [h.streamForFd_base ((lastBinding_base hne).trans hlast) (lastBinding_mem hlast).1] at hfound
    exact Or.inr ⟨other, rfl, (Option.some.inj hfound).symm⟩

theorem settled_input {before after : List RcFdBindingSpec} (hsplit : added = before ++ binding :: after)
    (hafter : ∀ c ∈ after, c.fd ≠ binding.fd) (hclose : binding.close = false) {source : Nat}
    (hdup : binding.dupFrom = some source) (hsource : source ≠ 1 ∧ source ≠ 2)
    (hagrees : Agrees graphRoot base added binding.fd) : Settled graphRoot base added before binding := by
  obtain ⟨depth, found, hfound, hdest⟩ := agrees_dup hsplit hafter hclose hdup hagrees
  rw [h.leadsTo_input hsplit hsource] at hdest
  rcases h.streamForFd_unredirected (h.forall_ne hsource) hfound with ⟨hnone, rfl⟩ | ⟨other, _, rfl⟩
  · by_cases hzero : source = 0
    · subst hzero
      exact .input hclose hdup (lastBinding_eq_none.mp hnone)
    · have hunbound : unboundStream source = none := by simp [unboundStream, hzero, hsource]
      rw [hunbound] at hdest
      cases hdest
  · cases hdest

/-- Both of them find a stream for a descriptor that is bound, unless it is a duplicate of the other one. -/
theorem stream_ne_inherit {source depth : Nat} {found : Option StreamDescriptor} {other : RcFdBindingSpec}
    (hsource : source = 1 ∨ source = 2) (hfd : fd = 1 ∨ fd = 2) (hne : source ≠ fd)
    (hother : lastBinding (base ++ added) source = some other) (hback : other.dupFrom ≠ some fd)
    (hfound : streamForFd graphRoot (base ++ added) (depth + 1) source = some found)
    (hdest : some ((found.getD .inherit).destination source) = leadsTo graphRoot base added source) :
    ∃ stream, found = some stream ∧ stream ≠ .inherit := by
  cases hlast : lastBinding added source with
  | none =>
    rcases h.streamForFd_unredirected (lastBinding_eq_none.mp hlast) hfound with ⟨hnone, _⟩ | ⟨_, _, rfl⟩
    · rw [lastBinding_append, hlast, hnone] at hother
      cases hother
    · exact ⟨_, rfl, by simp⟩
  | some binding =>
    have hbinding : other = binding := by
      rw [lastBinding_append, hlast] at hother
      exact (Option.some.inj hother).symm
    subst hbinding
    obtain ⟨before, after, hsplit, hafter⟩ := split_of_lastBinding hlast
    obtain rfl : other.fd = source := (lastBinding_mem hlast).2
    by_contra hinherit
    have hget : found.getD .inherit = .inherit := by
      cases found with
      | none => rfl
      | some stream =>
        by_contra hstream
        exact hinherit ⟨stream, rfl, hstream⟩
    rw [hget] at hdest
    cases hclose : other.close with
    | true =>
      rw [leadsTo_last hsplit hafter, sinkOf, if_pos hclose] at hdest
      cases hdest
    | false =>
      cases hdup : other.dupFrom with
      | none =>
        rw [leadsTo_last hsplit hafter, sinkOf, hclose, if_neg Bool.false_ne_true, hdup] at hdest
        cases hdest
      | some source' =>
        by_cases hself : source' = other.fd
        · rw [streamForFd_loop hother hclose (hself ▸ hdup)] at hfound
          cases hfound
        · have hfd' : source' ≠ fd := by
            rintro rfl
            exact hback hdup
          have hinput : source' ≠ 1 ∧ source' ≠ 2 := by omega
          rw [leadsTo_dup hsplit hafter hclose hdup, h.leadsTo_input hsplit hinput] at hdest
          cases hdest

theorem settled_duplicate {before after : List RcFdBindingSpec} (hsplit : added = before ++ binding :: after)
    (hafter : ∀ c ∈ after, c.fd ≠ binding.fd) (hclose : binding.close = false) {source : Nat}
    (hdup : binding.dupFrom = some source) (hsource : source = 1 ∨ source = 2)
    (hagrees : Agrees graphRoot base added binding.fd) (hagreesSource : Agrees graphRoot base added source) :
    Settled graphRoot base added before binding := by
  have hlast : lastBinding (base ++ added) binding.fd = some binding := lastBinding_added hsplit hafter
  have hfd : binding.fd = 1 ∨ binding.fd = 2 := (h.output binding (by simp [hsplit])).fd
  obtain ⟨depth, found, hfound, hdest⟩ := agrees_dup hsplit hafter hclose hdup hagrees
  have hne : source ≠ binding.fd := by
    intro hself
    rw [hself, streamForFd_loop hlast hclose (hself ▸ hdup)] at hfound
    cases hfound
  cases hother : lastBinding (base ++ added) source with
  | none =>
    -- the duplicate inherits its own stream, and not that of the other descriptor
    exfalso
    have hnone : ∀ b ∈ added, b.fd ≠ source := fun b hb => lastBinding_eq_none.mp hother b (List.mem_append_right _ hb)
    have hbase : lastBinding base source = none := (lastBinding_base hnone).symm.trans hother
    have hbefore : ∀ b ∈ before, b.fd ≠ source := fun b hb => hnone b (by simp [hsplit, hb])
    rw [streamForFd_of_none hother] at hfound
    cases hfound
    have hunbound : unboundStream source = some .inherit := by
      rcases hsource with rfl | rfl <;> rfl
    unfold lastBinding at hbase
    rw [leadsTo_of_forall_ne hsource hbefore, ownDestination, hbase, hunbound] at hdest
    exact hne (by simpa [StreamDescriptor.destination] using hdest.symm)
  | some other =>
    have hback : other.dupFrom ≠ some binding.fd := by
      intro hback
      have hopen : other.close = false := by
        rcases List.mem_append.mp (lastBinding_mem hother).1 with hmem | hmem
        · exact (h.pipes other hmem).opened
        · by_contra hclosed
          rw [(h.output other hmem).closed (Bool.eq_true_of_not_eq_false hclosed)] at hback
          cases hback
      obtain ⟨depth', stream, hstream, _⟩ := hagrees
      rw [streamForFd_cycle hlast hclose hdup hother hopen hback] at hstream
      cases hstream
    refine .duplicate source other hclose hdup hsource hne hother hback ?_
    obtain ⟨depth', found', hfound', hdest'⟩ := hagreesSource
    have hsame : found' = found := by
      have hleft := streamForFd_mono hfound (Nat.le_max_left (depth + 1) depth')
      have hright := streamForFd_mono hfound' (Nat.le_max_right (depth + 1) depth')
      exact Option.some.inj (hright.symm.trans hleft)
    subst hsame
    obtain ⟨stream, rfl, hstream⟩ := h.stream_ne_inherit hsource hfd hne hother hback hfound hdest'
    rw [← hdest, ← hdest']
    cases stream with
    | inherit => exact absurd rfl hstream
    | null => rfl
    | fd descriptor => rfl

/-- The two agree exactly when the last redirection of each descriptor means the same to both. -/
theorem agrees_iff_allSettled :
    Agrees graphRoot base added 1 ∧ Agrees graphRoot base added 2 ↔ AllSettled graphRoot base added := by
  constructor
  · rintro ⟨hone, htwo⟩ before binding after hsplit hafter
    have hagrees : ∀ fd, fd = 1 ∨ fd = 2 → Agrees graphRoot base added fd := by
      rintro fd (rfl | rfl)
      · exact hone
      · exact htwo
    have hbinding := h.output binding (by simp [hsplit])
    cases hclose : binding.close with
    | true => exact .closed hclose
    | false =>
      cases hdup : binding.dupFrom with
      | none => exact settled_file hsplit hafter hclose hdup (hagrees _ hbinding.fd)
      | some source =>
        by_cases hsource : source = 1 ∨ source = 2
        · exact h.settled_duplicate hsplit hafter hclose hdup hsource (hagrees _ hbinding.fd) (hagrees _ hsource)
        · exact h.settled_input hsplit hafter hclose hdup (not_or.mp hsource) (hagrees _ hbinding.fd)
  · intro hall
    exact ⟨h.agrees_of_settled hall (Or.inl rfl), h.agrees_of_settled hall (Or.inr rfl)⟩

theorem exists_stdin (depth : Nat) : ∃ stream, streamForFd graphRoot (base ++ added) (depth + 1) 0 = some stream := by
  have hne : ∀ b ∈ added, b.fd ≠ 0 := h.forall_ne (by decide)
  cases hlast : lastBinding base 0 with
  | none => exact ⟨_, streamForFd_of_none ((lastBinding_base hne).trans hlast)⟩
  | some other => exact ⟨_, h.streamForFd_base ((lastBinding_base hne).trans hlast) (lastBinding_mem hlast).1⟩

theorem exists_extraFds (depth : Nat) :
    ∃ fds, extraFds graphRoot (base ++ added) depth ((base ++ added).filter fun binding => 2 < binding.fd) = some fds := by
  have hpipes : ∀ b ∈ (base ++ added).filter (fun binding => 2 < binding.fd), b.dupFrom = none := by
    intro b hb
    obtain ⟨hmem, hfd⟩ := List.mem_filter.mp hb
    have hlt : 2 < b.fd := of_decide_eq_true hfd
    rcases List.mem_append.mp hmem with hmem | hmem
    · exact (h.pipes b hmem).source
    · have := (h.output b hmem).fd
      omega
  exact extraFds_of_pipes hpipes

/-- The process has the destinations of rc when the streams of both descriptors agree with it. -/
theorem sameDestinations_iff {stage : RcExecutableStageSpec} (index : Nat) (hstage : stage.fdBindings = base ++ added) :
    SameDestinations graphRoot index base stage (bindSinks .default added) ↔
      Agrees graphRoot base added 1 ∧ Agrees graphRoot base added 2 := by
  unfold SameDestinations buildExecutionSpec
  rw [hstage]
  constructor
  · rintro ⟨depth, stdio, fds, hspec, hstdout, hstderr⟩
    simp only [Option.bind_eq_bind, Option.bind_eq_some_iff, Option.some.injEq, Prod.mk.injEq] at hspec
    obtain ⟨stdin, _, stdout, hone, stderr, htwo, _, _, rfl, _⟩ := hspec
    exact ⟨⟨depth, stdout, hone, hstdout⟩, ⟨depth, stderr, htwo, hstderr⟩⟩
  · rintro ⟨⟨depth, stdout, hone, hstdout⟩, ⟨depth', stderr, htwo, hstderr⟩⟩
    obtain ⟨stdin, hzero⟩ := h.exists_stdin (max depth depth')
    obtain ⟨fds, hfds⟩ := h.exists_extraFds (max depth depth' + 1)
    have hone' : streamForFd graphRoot (base ++ added) (max depth depth' + 1) 1 = some stdout := streamForFd_mono hone (by omega)
    have htwo' : streamForFd graphRoot (base ++ added) (max depth depth' + 1) 2 = some stderr := streamForFd_mono htwo (by omega)
    refine ⟨max depth depth' + 1, ?_⟩
    rw [hzero, hone', htwo', hfds]
    exact ⟨_, fds, rfl, hstdout, hstderr⟩

end StageBindings

end Agree

section Command
variable {H : Type} (parse : String → Except RcError Script) (host : RcHost H) (ev : Node → String → RcM H RcRun)

/-- The stage of a command has the destinations that rc computes for the command from left to right
exactly when the last redirection of each descriptor means the same to both. -/
theorem redirects_agree_iff (graphRoot : String) (index : Nat) {simple : SimpleCommand} {stdin : String}
    {base : List RcFdBindingSpec} {s s' : RcSession H} {stage : RcExecutableStageSpec} (hbase : ∀ b ∈ base, PipeBinding b)
    (hredirects : ∀ r ∈ simple.redirects, OutputRedirect r)
    (hstage : executableStage host (sourceOutput parse host ev) (.simple simple) stdin base s = (.ok (some stage), s'))
    (hnull : ∀ b ∈ stage.fdBindings, isNullPath b.path = false) :
    ∃ assigned s₀ words s₁ st s₂, expandAssignments host (sourceOutput parse host ev) simple.assignments s = (.ok assigned, s₀) ∧
      expandWords host (sourceOutput parse host ev) simple.words s₀ = (.ok words, s₁) ∧
      prepareRedirects parse host ev simple.redirects ⟨stdin, .default, .nothing⟩ s₁ = (.ok (st, none), s₂) ∧
      (SameDestinations graphRoot index base stage st.sinks ↔
        AllSettled graphRoot base (stage.fdBindings.drop base.length)) := by
  obtain ⟨assigned, s₀, words, s₁, s₂, hassigned, hwords, hbindings⟩ := executableStage_redirects parse host ev hstage
  obtain ⟨added, hadded, houtput, hprepare⟩ :=
    stageRedirects_prepare parse host ev hredirects hbindings hnull ⟨stdin, .default, .nothing⟩
  have h : StageBindings base added := ⟨hbase, houtput⟩
  refine ⟨assigned, s₀, words, s₁, _, s₂, hassigned, hwords, hprepare, ?_⟩
  rw [h.sameDestinations_iff index hadded, h.agrees_iff_allSettled, hadded, List.drop_left]

end Command

/-- A command of the shell with these redirections. -/
def redirected (redirects : List Redirect) : SimpleCommand := .mk [] [⟨"wasi"⟩, ⟨"prog"⟩] redirects

/-- The stage that a host without files makes of it. -/
def redirectedStage (redirects : List Redirect) : Outcome RcError (Option RcExecutableStageSpec) × RcSession Unit :=
  executableStage RcHost.naming (sourceOutput noParse RcHost.naming fun _ _ => abort) (.simple (redirected redirects)) "" []
    (.fresh ())

theorem redirectedStage_eq {redirects : List Redirect} {bindings : List RcFdBindingSpec}
    (h : (redirectedStage redirects).1.toOption.join.map RcExecutableStageSpec.fdBindings = some bindings) :
    ∃ stage s', redirectedStage redirects = (.ok (some stage), s') ∧ stage.fdBindings = bindings := by
  rcases hstage : redirectedStage redirects with ⟨(_ | stage) | e | _, s'⟩ <;> rw [hstage] at h <;> cases h
  exact ⟨stage, s', rfl, rfl⟩

/-- Standard output to a file, and the errors after it. -/
def bothToFile : List Redirect := [.mk 1 .write (some (.word ⟨"out"⟩)), .mk 2 (.dup (some 1)) none]

theorem redirects_agree_bothToFile :
    ∃ stage s' st, redirectedStage bothToFile = (.ok (some stage), s') ∧ SameDestinations "graph" 0 [] stage st := by
  have hbindings : (redirectedStage bothToFile).1.toOption.join.map RcExecutableStageSpec.fdBindings =
      some [.ofFile 1 "out" false true, .ofDup 2 1] := by
    decide +kernel
  obtain ⟨stage, s', hstage, hstageBindings⟩ := redirectedStage_eq hbindings
  have hredirects : ∀ r ∈ (redirected bothToFile).redirects, OutputRedirect r := by
    simp [redirected, bothToFile, SimpleCommand.redirects, OutputRedirect, Redirect.fd, Redirect.mode, Redirect.target]
  have hnull : ∀ b ∈ stage.fdBindings, isNullPath b.path = false := by
    rw [hstageBindings]
    decide
  obtain ⟨_, _, _, _, st, _, _, _, _, hiff⟩ := redirects_agree_iff noParse RcHost.naming (fun _ _ => abort) "graph" 0
    (List.forall_mem_nil _) hredirects hstage hnull
  refine ⟨stage, s', st.sinks, hstage, hiff.mpr ?_⟩
  rw [hstageBindings]
  intro before binding after hsplit hafter
  match before, hsplit with
  | [], hsplit =>
    cases hsplit
    exact .file rfl rfl (by decide) rfl
  | [_], hsplit =>
    cases hsplit
    exact .duplicate 1 (.ofFile 1 "out" false true) rfl rfl (Or.inl rfl) (by decide) rfl (by decide) rfl
  | _ :: _ :: _, hsplit => simp at hsplit

/-- Each of the two descriptors a duplicate of the other. -/
def crossed : List Redirect := [.mk 1 (.dup (some 2)) none, .mk 2 (.dup (some 1)) none]

/-- The search for the stream goes back and forth between the two descriptors. -/
theorem redirects_differ :
    ¬∀ (H : Type) (parse : String → Except RcError Script) (host : RcHost H) (ev : Node → String → RcM H RcRun)
      (graphRoot : String) (index : Nat) (simple : SimpleCommand) (stdin : String) (base : List RcFdBindingSpec)
      (s s' : RcSession H) (stage : RcExecutableStageSpec), (∀ b ∈ base, PipeBinding b) →
      (∀ r ∈ simple.redirects, OutputRedirect r) →
      executableStage host (sourceOutput parse host ev) (.simple simple) stdin base s = (.ok (some stage), s') →
      (∀ b ∈ stage.fdBindings, isNullPath b.path = false) →
      ∀ st s₁ s₂, prepareRedirects parse host ev simple.redirects ⟨stdin, .default, .nothing⟩ s₁ = (.ok (st, none), s₂) →
        SameDestinations graphRoot index base stage st.sinks := by
  intro h
  have hbindings : (redirectedStage crossed).1.toOption.join.map RcExecutableStageSpec.fdBindings =
      some [.ofDup 1 2, .ofDup 2 1] := by
    decide +kernel
  obtain ⟨stage, s', hstage, hstageBindings⟩ := redirectedStage_eq hbindings
  have hredirects : ∀ r ∈ (redirected crossed).redirects, OutputRedirect r := by
    simp [redirected, crossed, SimpleCommand.redirects, OutputRedirect, Redirect.fd, Redirect.mode, Redirect.target]
  have hnull : ∀ b ∈ stage.fdBindings, isNullPath b.path = false := by
    rw [hstageBindings]
    decide
  obtain ⟨depth, stdio, fds, hspec, _⟩ := h Unit noParse RcHost.naming (fun _ _ => abort) "graph" 0 (redirected crossed) ""
    [] (.fresh ()) s' stage (List.forall_mem_nil _) hredirects hstage hnull _ (.fresh ()) _ rfl
  have hloop : streamForFd "graph" stage.fdBindings depth 1 = none := by
    rw [hstageBindings]
    have hone : lastBinding [.ofDup 1 2, .ofDup 2 1] 1 = some (.ofDup 1 2) := rfl
    have htwo : lastBinding [.ofDup 1 2, .ofDup 2 1] 2 = some (.ofDup 2 1) := rfl
    exact streamForFd_cycle hone rfl rfl htwo rfl rfl
  simp [buildExecutionSpec, hloop] at hspec

end Star9.Rc
