import Star9.Rc.Redirects

/-!
# What arrives in the files of a command's redirections

The output of a command is flushed to its two sinks by one whole write each, the standard
output first. A sink remembers a path and whether to append, not an open file, so a file
that is redirected to but gets nothing is never touched, and two sinks of one file write it
twice.
-/
namespace Star9.Rc
open Base Prog

/-! ## Files of a host -/

/-- A host whose writes that succeed replace or extend the contents of one file. Paths that
lead to the same file have the same name. -/
structure FileStore {H : Type} (host : RcHost H) (K : Type) where
  name : H → String → K
  contents : H → K → Option Bytes
  write_spec : ∀ path data h h', host.writeFile path data h = (.ok (), h') → name h' = name h ∧
    contents h' (name h path) = some data ∧ ∀ k, k ≠ name h path → contents h' k = contents h k
  append_spec : ∀ path data h h', host.appendFile path data h = (.ok (), h') → name h' = name h ∧
    contents h' (name h path) = some ((contents h (name h path)).getD [] ++ data) ∧ ∀ k, k ≠ name h path → contents h' k = contents h k

/-- A write to a file, appending or not. -/
def flush (old : Option Bytes) (write : Bool × Bytes) : Option Bytes := if write.1 then some (old.getD [] ++ write.2) else some write.2

/-- The writes leave what they write and nothing else: nothing comes before the first of
them, none replaces an earlier one, and without writes the file is there and empty. -/
def LeaveThemselves (old : Option Bytes) : List (Bool × Bytes) → Prop
  | [] => old = some []
  | write :: later => (write.1 = true → old.getD [] = []) ∧ ∀ w ∈ later, w.1 = true

/-- Two writes at most, none of them empty. -/
theorem flush_leaves_iff (old : Option Bytes) (writes : List (Bool × Bytes)) (hlen : writes.length ≤ 2) (hne : ∀ w ∈ writes, w.2 ≠ []) :
    writes.foldl flush old = some (writes.flatMap Prod.snd) ↔ LeaveThemselves old writes := by
  match writes, hlen with
  | [], _ => simp [LeaveThemselves]
  | [(append, data)], _ =>
    cases append with
    | false => simp [flush, LeaveThemselves]
    | true => simp [flush, LeaveThemselves]
  | [(append, data), (append', data')], _ =>
    have hdata : data ≠ [] := hne (append, data) (by simp)
    cases append' with
    | false => simp [flush, LeaveThemselves, hdata]
    | true =>
      cases append with
      | false => simp [flush, LeaveThemselves]
      | true => simp [flush, LeaveThemselves]

/-- Appending writes extend what was there. -/
theorem flush_appending (old : Option Bytes) {writes : List (Bool × Bytes)} (h : ∀ w ∈ writes, w.1 = true) :
    (writes.foldl flush old).getD [] = old.getD [] ++ writes.flatMap Prod.snd := by
  induction writes generalizing old with
  | nil => simp
  | cons w writes ih =>
    have hw : w.1 = true := h w List.mem_cons_self
    rw [List.foldl_cons, ih (flush old w) fun x hx => h x (List.mem_cons_of_mem w hx)]
    simp [flush, hw]

/-! ## One sink -/

section
variable {H K : Type} [DecidableEq K] {parse : String → Except RcError Script} {host : RcHost H} {ev : Node → String → RcM H RcRun}
variable (store : FileStore host K)

namespace FdSink

/-- What a sink puts on the standard output of the command. -/
def toStdout (data : String) : FdSink → String
  | stdout => data
  | _ => ""

def toStderr (data : String) : FdSink → String
  | stderr => data
  | _ => ""

/-- The bytes of the data that are meant for a file. -/
def directed (h : H) (k : K) (data : String) : FdSink → Bytes
  | file path _ => if store.name h path = k then utf8Bytes data else []
  | _ => []

/-- The write that the sink makes to a file. -/
def writes (h : H) (k : K) (data : String) : FdSink → List (Bool × Bytes)
  | file path append => if data ≠ "" ∧ store.name h path = k then [(append, utf8Bytes data)] else []
  | _ => []

end FdSink

theorem utf8Bytes_ne_nil {data : String} (h : data ≠ "") : utf8Bytes data ≠ [] := by
  intro hnil
  exact h (utf8Bytes_injective (hnil.trans rfl))

theorem writes_flatMap (h : H) (k : K) (data : String) (sink : FdSink) : (sink.writes store h k data).flatMap Prod.snd = sink.directed store h k data := by
  cases sink with
  | file path append =>
    rw [FdSink.writes, FdSink.directed]
    by_cases hname : store.name h path = k
    · by_cases hempty : data = ""
      · rw [if_neg (by simp [hempty]), if_pos hname, hempty]
        rfl
      · rw [if_pos ⟨hempty, hname⟩, if_pos hname]
        simp
    · rw [if_neg (by simp [hname]), if_neg hname]
      rfl
  | _ => rfl

theorem mem_writes {h : H} {k : K} {data : String} {sink : FdSink} {w : Bool × Bytes} (hw : w ∈ sink.writes store h k data) :
    w.2 ≠ [] ∧ ∃ path, sink = .file path w.1 ∧ store.name h path = k := by
  cases sink with
  | file path append =>
    rw [FdSink.writes] at hw
    split_ifs at hw with hboth
    · cases List.mem_singleton.mp hw
      exact ⟨utf8Bytes_ne_nil hboth.1, path, rfl, hboth.2⟩
    · cases hw
  | _ => cases hw

theorem writes_length (h : H) (k : K) (data : String) (sink : FdSink) : (sink.writes store h k data).length ≤ 1 := by
  cases sink with
  | file path append =>
    rw [FdSink.writes]
    split_ifs
    · exact le_rfl
    · exact Nat.zero_le 1
  | _ => exact Nat.zero_le 1

/-- A sink that is not a process substitution. -/
def FdSink.Plain : FdSink → Prop
  | process _ _ => False
  | _ => True

theorem applyFdSink_plain {fd : Nat} (hfd : fd = 1 ∨ fd = 2) {data : String} {sinks : FdSinks} (hplain : (dupSink sinks fd).Plain)
    {out r : RcRun} {s s' : RcSession H} (hrun : applyFdSink parse host ev fd data sinks out s = (.ok (r, none), s')) :
    r.stdout = out.stdout ++ (dupSink sinks fd).toStdout data ∧ r.stderr = out.stderr ++ (dupSink sinks fd).toStderr data ∧
      store.name s'.host = store.name s.host ∧
      ∀ k, store.contents s'.host k = ((dupSink sinks fd).writes store s.host k data).foldl flush (store.contents s.host k) := by
  have hsink : (sinks[fd]?).getD (if fd = 2 then .stderr else .stdout) = dupSink sinks fd := by
    rcases hfd with rfl | rfl <;> rfl
  unfold applyFdSink at hrun
  rw [hsink, branch_apply] at hrun
  by_cases hempty : data = ""
  · rw [if_pos hempty] at hrun
    cases hrun
    rw [hempty]
    cases dupSink sinks fd with
    | file path append => exact ⟨by simp [FdSink.toStdout], by simp [FdSink.toStderr], rfl, fun k => by simp [FdSink.writes]⟩
    | _ => exact ⟨by simp [FdSink.toStdout], by simp [FdSink.toStderr], rfl, fun k => rfl⟩
  · rw [if_neg hempty] at hrun
    cases hcase : dupSink sinks fd with
    | stdout =>
      rw [hcase] at hrun
      cases hrun
      exact ⟨rfl, by simp [FdSink.toStderr], rfl, fun k => rfl⟩
    | stderr =>
      rw [hcase] at hrun
      cases hrun
      exact ⟨by simp [FdSink.toStdout], rfl, rfl, fun k => rfl⟩
    | closed =>
      rw [hcase] at hrun
      cases hrun
      exact ⟨by simp [FdSink.toStdout], by simp [FdSink.toStderr], rfl, fun k => rfl⟩
    | process node graph =>
      rw [hcase] at hplain
      exact hplain.elim
    | file path append =>
      rw [hcase] at hrun
      have hwrite : (if append then host.appendFile path (utf8Bytes data) else host.writeFile path (utf8Bytes data)) s.host =
          (.ok (), s'.host) ∧ r = out := by
        dsimp only at hrun
        generalize (if append then host.appendFile path (utf8Bytes data) else host.writeFile path (utf8Bytes data)) = write at hrun ⊢
        rcases hw : write s.host with ⟨_ | e | _, h₁⟩
        · have hhost : onHost write s = (.ok (), { s with host := h₁ }) := by rw [onHost, zoom_apply, hw]
          rw [bind_ok (attempt_ok hhost)] at hrun
          cases hrun
          exact ⟨rfl, rfl⟩
        · have hhost : onHost write s = (.err e, { s with host := h₁ }) := by rw [onHost, zoom_apply, hw]
          rw [bind_ok (attempt_err hhost)] at hrun
          cases hrun
        · have hhost : onHost write s = (.abort, { s with host := h₁ }) := by rw [onHost, zoom_apply, hw]
          rw [bind_abort (attempt_abort hhost)] at hrun
          cases hrun
      obtain ⟨hwrite, rfl⟩ := hwrite
      have hspec : store.name s'.host = store.name s.host ∧
          store.contents s'.host (store.name s.host path) = flush (store.contents s.host (store.name s.host path)) (append, utf8Bytes data) ∧
          ∀ k, k ≠ store.name s.host path → store.contents s'.host k = store.contents s.host k := by
        cases append with
        | true => exact store.append_spec _ _ _ _ hwrite
        | false => exact store.write_spec _ _ _ _ hwrite
      obtain ⟨hname, hthere, helse⟩ := hspec
      refine ⟨by simp [FdSink.toStdout], by simp [FdSink.toStderr], hname, fun k => ?_⟩
      rw [FdSink.writes]
      by_cases hk : store.name s.host path = k
      · subst hk
        rw [if_pos ⟨hempty, rfl⟩, hthere]
        rfl
      · rw [if_neg (by simp [hk]), helse k (Ne.symm hk)]
        rfl

/-! ## Both sinks -/

/-- Where the redirections leave the two descriptors. -/
def finalSink (bindings : List RcFdBindingSpec) (fd : Nat) : FdSink := dupSink (bindSinks .default bindings) fd

/-- A binding that opens a file. -/
def Opens (h : H) (k : K) (binding : RcFdBindingSpec) : Prop :=
  binding.close = false ∧ binding.dupFrom = none ∧ store.name h binding.path = k

/-- A sink that is a file has been opened by one of the redirections, in the same way. -/
theorem finalSink_plain (bindings : List RcFdBindingSpec) (fd : Nat) : (finalSink bindings fd).Plain ∧
    ∀ path append, finalSink bindings fd = .file path append →
      ∃ b ∈ bindings, b.close = false ∧ b.dupFrom = none ∧ b.path = path ∧ b.append = append := by
  induction bindings using List.reverseRecOn generalizing fd with
  | nil =>
    have hdefault : finalSink [] fd = if 2 = fd then .stderr else if 1 = fd then .stdout else .closed := by
      rw [finalSink, bindSinks, List.foldl_nil, FdSinks.default, dupSink_insert, dupSink_insert]
      by_cases h2 : 2 = fd
      · rw [if_pos h2, if_pos h2]
      · by_cases h1 : 1 = fd
        · rw [if_neg h2, if_pos h1, if_neg h2, if_pos h1]
        · rw [if_neg h2, if_neg h1, if_neg h2, if_neg h1]
          simp [dupSink, Ne.symm h1, Ne.symm h2]
    rw [hdefault]
    split_ifs
    · exact ⟨trivial, fun _ _ h => by cases h⟩
    · exact ⟨trivial, fun _ _ h => by cases h⟩
    · exact ⟨trivial, fun _ _ h => by cases h⟩
  | append_singleton bindings b ih =>
    have hlast : finalSink (bindings ++ [b]) fd = if b.fd = fd then sinkOf (bindSinks .default bindings) b else finalSink bindings fd := by
      rw [finalSink, bindSinks, List.foldl_append, List.foldl_cons, List.foldl_nil, dupSink_insert]
      rfl
    have hbefore : ∀ fd, (finalSink bindings fd).Plain ∧ ∀ path append, finalSink bindings fd = .file path append →
        ∃ c ∈ bindings ++ [b], c.close = false ∧ c.dupFrom = none ∧ c.path = path ∧ c.append = append := by
      intro fd
      refine ⟨(ih fd).1, fun path append h => ?_⟩
      obtain ⟨c, hc, hopens⟩ := (ih fd).2 path append h
      exact ⟨c, List.mem_append_left _ hc, hopens⟩
    rw [hlast]
    by_cases hfd : b.fd = fd
    · rw [if_pos hfd, sinkOf]
      cases hclose : b.close with
      | true => exact ⟨trivial, fun _ _ h => by cases h⟩
      | false =>
        cases hdup : b.dupFrom with
        | some source => exact hbefore source
        | none =>
          refine ⟨trivial, fun path append h => ⟨b, by simp, hclose, hdup, ?_⟩⟩
          cases h
          exact ⟨rfl, rfl⟩
    · rw [if_neg hfd]
      exact hbefore fd

/-- The bytes that the redirections direct to a file. -/
def directedTo (bindings : List RcFdBindingSpec) (h : H) (k : K) (out : RcRun) : Bytes :=
  (finalSink bindings 1).directed store h k out.stdout ++ (finalSink bindings 2).directed store h k out.stderr

def writesTo (bindings : List RcFdBindingSpec) (h : H) (k : K) (out : RcRun) : List (Bool × Bytes) :=
  (finalSink bindings 1).writes store h k out.stdout ++ (finalSink bindings 2).writes store h k out.stderr

/-- The output has gone where the redirections say: a file opened with `>` holds what is directed to it,
one opened with `>>` alone holds that after what it held before. -/
structure Delivered (bindings : List RcFdBindingSpec) (h h' : H) (out r : RcRun) : Prop where
  stdout : r.stdout = (finalSink bindings 1).toStdout out.stdout ++ (finalSink bindings 2).toStdout out.stderr
  stderr : r.stderr = (finalSink bindings 1).toStderr out.stdout ++ (finalSink bindings 2).toStderr out.stderr
  truncated : ∀ k, (∃ b ∈ bindings, Opens store h k b ∧ b.append = false) → store.contents h' k = some (directedTo store bindings h k out)
  appended : ∀ k, (∃ b ∈ bindings, Opens store h k b) → (∀ b ∈ bindings, Opens store h k b → b.append = true) →
    (store.contents h' k).getD [] = (store.contents h k).getD [] ++ directedTo store bindings h k out
  untouched : ∀ k, (∀ b ∈ bindings, ¬ Opens store h k b) → store.contents h' k = store.contents h k

theorem applyOutputSinks_files {bindings : List RcFdBindingSpec} {out r : RcRun} {s s' : RcSession H}
    (hrun : applyOutputSinks parse host ev out (bindSinks .default bindings) s = (.ok (r, none), s')) :
    r.stdout = (finalSink bindings 1).toStdout out.stdout ++ (finalSink bindings 2).toStdout out.stderr ∧
      r.stderr = (finalSink bindings 1).toStderr out.stdout ++ (finalSink bindings 2).toStderr out.stderr ∧
      ∀ k, store.contents s'.host k = (writesTo store bindings s.host k out).foldl flush (store.contents s.host k) := by
  obtain ⟨⟨first, err⟩, s₁, hfirst, hrun⟩ := bind_eq_ok.mp hrun
  cases err with
  | some err => cases hrun
  | none =>
    obtain ⟨hout, herr, hname, hfiles⟩ := applyFdSink_plain store (Or.inl rfl) (finalSink_plain bindings 1).1 hfirst
    obtain ⟨hout₂, herr₂, -, hfiles₂⟩ := applyFdSink_plain store (Or.inr rfl) (finalSink_plain bindings 2).1 hrun
    refine ⟨?_, ?_, fun k => ?_⟩
    · rw [hout₂, hout, String.empty_append]
      rfl
    · rw [herr₂, herr, String.empty_append]
      rfl
    · have hsame : ∀ sink : FdSink, sink.writes store s₁.host k out.stderr = sink.writes store s.host k out.stderr := by
        intro sink
        cases sink with
        | file path append => rw [FdSink.writes, FdSink.writes, hname]
        | _ => rfl
      rw [hfiles₂, hsame, hfiles, writesTo, List.foldl_append]
      rfl

theorem delivered_iff {bindings : List RcFdBindingSpec} {out r : RcRun} {s s' : RcSession H}
    (hrun : applyOutputSinks parse host ev out (bindSinks .default bindings) s = (.ok (r, none), s')) :
    Delivered store bindings s.host s'.host out r ↔ ∀ k, (∃ b ∈ bindings, Opens store s.host k b ∧ b.append = false) →
      LeaveThemselves (store.contents s.host k) (writesTo store bindings s.host k out) := by
  obtain ⟨hout, herr, hfiles⟩ := applyOutputSinks_files store hrun
  have hdirected : ∀ k, (writesTo store bindings s.host k out).flatMap Prod.snd = directedTo store bindings s.host k out := by
    intro k
    rw [writesTo, List.flatMap_append, writes_flatMap, writes_flatMap, directedTo]
  have hopened : ∀ k, ∀ w ∈ writesTo store bindings s.host k out, w.2 ≠ [] ∧ ∃ b ∈ bindings, Opens store s.host k b ∧ b.append = w.1 := by
    intro k w hw
    have hsink : ∀ fd data, w ∈ (finalSink bindings fd).writes store s.host k data →
        w.2 ≠ [] ∧ ∃ b ∈ bindings, Opens store s.host k b ∧ b.append = w.1 := by
      intro fd data hmem
      obtain ⟨hne, path, hfile, hname⟩ := mem_writes store hmem
      obtain ⟨b, hb, hclose, hdup, hpath, happend⟩ := (finalSink_plain bindings fd).2 path w.1 hfile
      exact ⟨hne, b, hb, ⟨hclose, hdup, hpath ▸ hname⟩, happend⟩
    rcases List.mem_append.mp hw with hw | hw
    · exact hsink 1 _ hw
    · exact hsink 2 _ hw
  have hlen : ∀ k, (writesTo store bindings s.host k out).length ≤ 2 := by
    intro k
    rw [writesTo, List.length_append]
    exact Nat.add_le_add (writes_length store _ _ _ _) (writes_length store _ _ _ _)
  constructor
  · intro h k hnew
    have hleft := h.truncated k hnew
    rw [hfiles, ← hdirected] at hleft
    exact (flush_leaves_iff _ _ (hlen k) fun w hw => (hopened k w hw).1).mp hleft
  · intro h
    refine ⟨hout, herr, fun k hnew => ?_, fun k _ hall => ?_, fun k hnone => ?_⟩
    · rw [hfiles, ← hdirected]
      exact (flush_leaves_iff _ _ (hlen k) fun w hw => (hopened k w hw).1).mpr (h k hnew)
    · rw [hfiles, ← hdirected]
      refine flush_appending _ fun w hw => ?_
      obtain ⟨-, b, hb, hopens, happend⟩ := hopened k w hw
      rw [← happend]
      exact hall b hb hopens
    · have hnil : writesTo store bindings s.host k out = [] := by
        refine List.eq_nil_iff_forall_not_mem.mpr fun w hw => ?_
        obtain ⟨-, b, hb, hopens, -⟩ := hopened k w hw
        exact hnone b hb hopens
      rw [hfiles, hnil]
      rfl

/-! ## The redirections of a command -/

def fileBinding (fd : Nat) (mode : RedirectMode) (path : String) : RcFdBindingSpec :=
  if isNullPath path then .ofClose fd
  else if mode = .append then .ofAppendFile fd path else .ofFile fd path false true

/-- What a redirection of an output descriptor says once its word is expanded. -/
def redirectBinding (src : String → RcM H RcOutput) (redirect : Redirect) : RcM H RcFdBindingSpec :=
  match redirect.mode with
  | .dup (some source) => pure (.ofDup redirect.fd source)
  | .dup none => pure (.ofClose redirect.fd)
  | mode => do
    let path ← redirectPath src redirect
    pure (fileBinding redirect.fd mode path)

theorem prepareRedirect_binding {redirect : Redirect} (hredirect : OutputRedirect redirect) {st st' : RedirectState} {s s' : RcSession H}
    (hprepare : prepareRedirect parse host ev redirect st s = (.ok st', s')) :
    ∃ binding, redirectBinding (sourceOutput parse host ev) redirect s = (.ok binding, s') ∧
      st'.sinks = st.sinks.insert binding.fd (sinkOf st.sinks binding) := by
  obtain ⟨hfd, hkind⟩ := hredirect
  obtain ⟨fd, mode, target⟩ := redirect
  have hfile : ∀ append : Bool, ∀ word, mode = (if append then .append else .write) → target = some (.word word) →
      ∃ binding, redirectBinding (sourceOutput parse host ev) (.mk fd mode target) s = (.ok binding, s') ∧
        st'.sinks = st.sinks.insert binding.fd (sinkOf st.sinks binding) := by
    intro append word hmode htarget
    have hsink : (fileSink parse host ev (.mk fd mode target) >>= fun sink =>
        pure { st with sinks := st.sinks.insert fd sink }) s = (.ok st', s') := by
      cases append with
      | false =>
        obtain rfl : mode = .write := hmode
        subst htarget
        exact hprepare
      | true =>
        obtain rfl : mode = .append := hmode
        subst htarget
        exact hprepare
    have hbinding : ∀ (m : RedirectMode) (path : String), redirectPath (sourceOutput parse host ev) (.mk fd m (some (.word word))) s = (.ok path, s') →
        redirectBinding (sourceOutput parse host ev) (.mk fd m (some (.word word))) = (do
          let path ← redirectPath (sourceOutput parse host ev) (.mk fd m (some (.word word)))
          pure (fileBinding fd m path)) →
        redirectBinding (sourceOutput parse host ev) (.mk fd m (some (.word word))) s = (.ok (fileBinding fd m path), s') := by
      intro m path hpath hfile
      rw [hfile, bind_ok hpath]
      rfl
    obtain ⟨sink, s₁, hsink, hend⟩ := bind_eq_ok.mp hsink
    obtain ⟨path, s₂, hpath, hsink⟩ := bind_eq_ok.mp hsink
    cases hsink
    cases hend
    cases append with
    | false =>
      obtain rfl : mode = .write := hmode
      subst htarget
      refine ⟨fileBinding fd .write path, hbinding .write path hpath rfl, ?_⟩
      unfold fileBinding
      cases isNullPath path with
      | true => rfl
      | false => rfl
    | true =>
      obtain rfl : mode = .append := hmode
      subst htarget
      refine ⟨fileBinding fd .append path, hbinding .append path hpath rfl, ?_⟩
      unfold fileBinding
      cases isNullPath path with
      | true => rfl
      | false => rfl
  cases mode with
  | read => exact hkind.elim
  | here => exact hkind.elim
  | dup source =>
    cases source with
    | some source =>
      cases hprepare
      exact ⟨.ofDup fd source, rfl, rfl⟩
    | none =>
      cases hprepare
      exact ⟨.ofClose fd, rfl, rfl⟩
  | write =>
    match target, hkind with
    | some (.word word), _ => exact hfile false word rfl rfl
  | append =>
    match target, hkind with
    | some (.word word), _ => exact hfile true word rfl rfl

theorem prepareRedirects_bindings {redirects : List Redirect} (hredirects : ∀ r ∈ redirects, OutputRedirect r) {st st' : RedirectState}
    {s s' : RcSession H} (hprepare : prepareRedirects parse host ev redirects st s = (.ok (st', none), s')) :
    ∃ bindings, redirects.mapM (redirectBinding (sourceOutput parse host ev)) s = (.ok bindings, s') ∧ st'.sinks = bindSinks st.sinks bindings := by
  induction redirects generalizing st s with
  | nil =>
    cases hprepare
    exact ⟨[], rfl, rfl⟩
  | cons redirect redirects ih =>
    have htail : ∀ r ∈ redirects, OutputRedirect r := fun r hr => hredirects r (List.mem_cons_of_mem redirect hr)
    rw [prepareRedirects] at hprepare
    have hone : ∃ binding s₁ st₁, redirectBinding (sourceOutput parse host ev) redirect s = (.ok binding, s₁) ∧
        prepareRedirect parse host ev redirect st s = (.ok st₁, s₁) ∧ st₁.sinks = st.sinks.insert binding.fd (sinkOf st.sinks binding) := by
      rcases hfirst : prepareRedirect parse host ev redirect st s with ⟨st₁ | e | _, s₁⟩
      · obtain ⟨binding, hbinding, hsinks⟩ := prepareRedirect_binding (hredirects redirect List.mem_cons_self) hfirst
        exact ⟨binding, s₁, st₁, hbinding, rfl, hsinks⟩
      · rw [bind_ok (attempt_err hfirst)] at hprepare
        cases hprepare
      · rw [bind_abort (attempt_abort hfirst)] at hprepare
        cases hprepare
    obtain ⟨binding, s₁, st₁, hbinding, hfirst, hsinks⟩ := hone
    rw [bind_ok (attempt_ok hfirst)] at hprepare
    obtain ⟨bindings, hrest, hlast⟩ := ih htail hprepare
    refine ⟨binding :: bindings, ?_, ?_⟩
    · rw [List.mapM_cons, bind_ok hbinding, bind_ok hrest]
      rfl
    · rw [hlast, hsinks]
      rfl

/-- The output arrives if the writes of every file that is opened with `>` leave themselves there:
with one write at most, over an old file that a write replaces or that is empty. -/
theorem output_delivered_iff {redirects : List Redirect} (hredirects : ∀ r ∈ redirects, OutputRedirect r) {input : String} {reads : RcTrace}
    {st : RedirectState} {s₀ s₁ : RcSession H} (hprepare : prepareRedirects parse host ev redirects ⟨input, .default, reads⟩ s₀ = (.ok (st, none), s₁))
    {out r : RcRun} {s s' : RcSession H} (happly : applyOutputSinks parse host ev out st.sinks s = (.ok (r, none), s')) :
    ∃ bindings, redirects.mapM (redirectBinding (sourceOutput parse host ev)) s₀ = (.ok bindings, s₁) ∧
      (Delivered store bindings s.host s'.host out r ↔ ∀ k, (∃ b ∈ bindings, Opens store s.host k b ∧ b.append = false) →
        LeaveThemselves (store.contents s.host k) (writesTo store bindings s.host k out)) := by
  obtain ⟨bindings, hbindings, hsinks⟩ := prepareRedirects_bindings hredirects hprepare
  rw [hsinks] at happly
  exact ⟨bindings, hbindings, delivered_iff store happly⟩

end

/-! ## A host that keeps what is written -/

/-- The files of the host are a map from paths to contents. -/
def RcHost.filing : RcHost (String → Option Bytes) where
  currentDir _ := "."
  setCurrentDir _ := pure ()
  readFile path := do
    match (← get) path with
    | some data => pure data
    | none => throw (.new (path ++ ": not found"))
  writeFile path data := modify fun files => Function.update files path (some data)
  appendFile path data := modify fun files => Function.update files path (some ((files path).getD [] ++ data))
  readDir _ := pure []
  stat path := throw (.new (path ++ ": not found"))
  runCommand invocation := pure { status := .success, stdout := invocation.name ++ "\n", stderr := "" }
  loadEnvironment := pure none
  storeEnvironment _ := pure ()
  prepareProcessGraph _ := pure none
  finishProcessGraph _ _ := pure ()
  waitProcessJob _ := pure none
  sendNoteToProcesses _ := pure ()
  executeProcessGraph _ := pure none
  startProcessGraphJob _ := pure none
  rfork _ := pure { environment := .unchanged }

def filingStore : FileStore RcHost.filing String where
  name _ path := path
  contents files := files
  write_spec path data h h' hwrite := by
    cases hwrite
    exact ⟨rfl, Function.update_self path (some data) h, fun k hk => Function.update_of_ne hk (some data) h⟩
  append_spec path data h h' hwrite := by
    cases hwrite
    exact ⟨rfl, Function.update_self path _ h, fun k hk => Function.update_of_ne hk _ h⟩

/-- The redirections `> out >[2=1]`, and `> out` alone. -/
def toOut : List Redirect := [.mk 1 .write (some (.word ⟨"out"⟩))]

def wrote (stdout stderr : String) : RcRun := { status := .success, stdout, stderr, exited := false, trace := .nothing }

def noFiles : String → Option Bytes := fun _ => none

/-- Run the redirections and flush, from a host without files. -/
def redirectedOutput (redirects : List Redirect) (out : RcRun) : RcM (String → Option Bytes) (RcRun × Option RcError) := do
  let (st, err) ← prepareRedirects noParse RcHost.filing (fun _ _ => abort) redirects ⟨"", .default, .nothing⟩
  match err with
  | some err => pure (out, some err)
  | none => applyOutputSinks noParse RcHost.filing (fun _ _ => abort) out st.sinks

/-- A run that ends well has prepared the redirections and flushed the output. -/
theorem redirectedOutput_ok {redirects : List Redirect} {out : RcRun}
    (h : (redirectedOutput redirects out (.fresh noFiles)).1.toOption.map Prod.snd = some none) :
    ∃ st s₁ r s', prepareRedirects noParse RcHost.filing (fun _ _ => abort) redirects ⟨"", .default, .nothing⟩ (.fresh noFiles) =
        (.ok (st, none), s₁) ∧
      applyOutputSinks noParse RcHost.filing (fun _ _ => abort) out st.sinks s₁ = (.ok (r, none), s') ∧
      redirectedOutput redirects out (.fresh noFiles) = (.ok (r, none), s') := by
  rcases hrun : redirectedOutput redirects out (.fresh noFiles) with ⟨⟨r, err⟩ | _ | _, s'⟩
  · rw [hrun] at h
    obtain rfl : err = none := by simpa [Outcome.toOption] using h
    obtain ⟨⟨st, err⟩, s₁, hprepare, happly⟩ := bind_eq_ok.mp hrun
    cases err with
    | some err => cases happly
    | none => exact ⟨st, s₁, r, s', hprepare, happly, rfl⟩
  · rw [hrun] at h
    cases h
  · rw [hrun] at h
    cases h

/-- `> out` on a command that prints on its standard output alone. -/
theorem output_delivered_toOut : ∃ (bindings : List RcFdBindingSpec) (st : RedirectState) (s₁ : RcSession (String → Option Bytes)) (r : RcRun)
    (s' : RcSession (String → Option Bytes)),
    toOut.mapM (redirectBinding (sourceOutput noParse RcHost.filing (fun _ _ => abort))) (.fresh noFiles) = (.ok bindings, s₁) ∧
    applyOutputSinks noParse RcHost.filing (fun _ _ => abort) (wrote "out" "") st.sinks s₁ = (.ok (r, none), s') ∧
    Delivered filingStore bindings s₁.host s'.host (wrote "out" "") r := by
  have hends : (redirectedOutput toOut (wrote "out" "") (.fresh noFiles)).1.toOption.map Prod.snd = some none := by
    decide +kernel
  obtain ⟨st, s₁, r, s', hprepare, happly, -⟩ := redirectedOutput_ok hends
  have hredirects : ∀ r ∈ toOut, OutputRedirect r := by
    simp [toOut, OutputRedirect, Redirect.fd, Redirect.mode, Redirect.target]
  obtain ⟨bindings, hbindings, hiff⟩ := output_delivered_iff filingStore hredirects hprepare happly
  have hval : (toOut.mapM (redirectBinding (sourceOutput noParse RcHost.filing (fun _ _ => abort))) (.fresh noFiles)).1.toOption =
      some [.ofFile 1 "out" false true] := by
    decide +kernel
  have hbindings' := hbindings
  rw [hbindings] at hval
  cases hval
  refine ⟨_, st, s₁, r, s', hbindings', happly, hiff.mpr fun k hk => ?_⟩
  have hone : finalSink [.ofFile 1 "out" false true] 1 = .file "out" false := by
    simp [finalSink, bindSinks, dupSink_insert, sinkOf, RcFdBindingSpec.ofFile]
  have htwo : finalSink [.ofFile 1 "out" false true] 2 = .stderr := by
    simp [finalSink, bindSinks, dupSink_insert, FdSinks.default, RcFdBindingSpec.ofFile]
  have hfirst : (FdSink.file "out" false).writes filingStore s₁.host "out" "out" = [(false, utf8Bytes "out")] := by
    have hboth : "out" ≠ "" ∧ filingStore.name s₁.host "out" = "out" := ⟨by decide, rfl⟩
    rw [FdSink.writes, if_pos hboth]
  have hsecond : FdSink.stderr.writes filingStore s₁.host "out" "" = [] := rfl
  obtain ⟨b, hb, hopens, -⟩ := hk
  cases List.mem_singleton.mp hb
  obtain rfl : "out" = k := hopens.2.2
  rw [writesTo, hone, htwo]
  change LeaveThemselves _ ((FdSink.file "out" false).writes filingStore s₁.host "out" "out" ++ FdSink.stderr.writes filingStore s₁.host "out" "")
  rw [hfirst, hsecond]
  exact ⟨fun h => absurd h (by decide), fun w hw => absurd hw List.not_mem_nil⟩

/-- Both streams of a command in one file: `> out >[2=1]` leaves the second alone. -/
theorem output_lost :
    ¬∀ (H K : Type) (_ : DecidableEq K) (parse : String → Except RcError Script) (host : RcHost H) (ev : Node → String → RcM H RcRun)
      (store : FileStore host K) (redirects : List Redirect), (∀ r ∈ redirects, OutputRedirect r) →
      ∀ (input : String) (reads : RcTrace) (st : RedirectState) (s₀ s₁ : RcSession H),
      prepareRedirects parse host ev redirects ⟨input, .default, reads⟩ s₀ = (.ok (st, none), s₁) →
      ∀ (out r : RcRun) (s s' : RcSession H), applyOutputSinks parse host ev out st.sinks s = (.ok (r, none), s') →
      ∃ bindings, redirects.mapM (redirectBinding (sourceOutput parse host ev)) s₀ = (.ok bindings, s₁) ∧
        Delivered store bindings s.host s'.host out r := by
  intro h
  have hends : (redirectedOutput bothToFile (wrote "out" "err") (.fresh noFiles)).1.toOption.map Prod.snd = some none := by
    decide +kernel
  obtain ⟨st, s₁, r, s', hprepare, happly, hrun⟩ := redirectedOutput_ok hends
  have hredirects : ∀ r ∈ bothToFile, OutputRedirect r := by
    simp [bothToFile, OutputRedirect, Redirect.fd, Redirect.mode, Redirect.target]
  obtain ⟨bindings, hbindings, hdelivered⟩ := h _ _ _ _ _ _ filingStore _ hredirects _ _ _ _ _ hprepare _ _ _ _ happly
  have hval : (bothToFile.mapM (redirectBinding (sourceOutput noParse RcHost.filing (fun _ _ => abort))) (.fresh noFiles)).1.toOption =
      some [.ofFile 1 "out" false true, .ofDup 2 1] := by
    decide +kernel
  rw [hbindings] at hval
  cases hval
  have hleft := hdelivered.truncated "out" ⟨_, List.mem_cons_self, ⟨rfl, rfl, rfl⟩, rfl⟩
  have hfile : (redirectedOutput bothToFile (wrote "out" "err") (.fresh noFiles)).2.host "out" = some (utf8Bytes "err") := by
    decide +kernel
  rw [hrun] at hfile
  have hboth : directedTo filingStore [.ofFile 1 "out" false true, .ofDup 2 1] s₁.host "out" (wrote "out" "err") = utf8Bytes "outerr" := by
    have hone : finalSink [.ofFile 1 "out" false true, .ofDup 2 1] 1 = .file "out" false := by
      simp [finalSink, bindSinks, dupSink_insert, sinkOf, RcFdBindingSpec.ofFile, RcFdBindingSpec.ofDup]
    have htwo : finalSink [.ofFile 1 "out" false true, .ofDup 2 1] 2 = .file "out" false := by
      simp [finalSink, bindSinks, dupSink_insert, sinkOf, RcFdBindingSpec.ofFile, RcFdBindingSpec.ofDup]
    rw [directedTo, hone, htwo]
    change utf8Bytes "out" ++ utf8Bytes "err" = utf8Bytes "outerr"
    decide
  rw [hboth] at hleft
  exact absurd (hleft.symm.trans hfile) (by decide)

end Star9.Rc
