import Star9.Vfs.MemSpace

/-!
# Binding in the namespace of a task

A task binds and unbinds paths of its own namespace. Both calls put the namespace in an
object of its own, and a layer is told by the object that it keeps. Objects are numbered as
they are made.
-/
namespace Star9
open Base Prog

/-- The namespace of a task, and how many objects there are. -/
structure TaskNamespace where
  ns : Namespace Nat
  objects : Nat
  live : ∀ (dst : String) (targets : List (BindTarget Nat)), ns.bindings[dst]? = some targets → ∀ target ∈ targets, target.fs < objects

namespace Namespace
variable {R σ η : Type}

theorem bindings_setTargets (ns : Namespace R) {dst : String} (hdst : validPath dst = true) {targets : List (BindTarget R)}
    (hne : targets ≠ []) : (ns.setTargets dst hdst targets).bindings = ns.bindings.insert dst targets := by
  have hempty : ¬targets.isEmpty = true := by simpa using hne
  exact if_neg hempty

/-- Setting the layers that a path has changes nothing. -/
theorem bindings_setTargets_self (ns : Namespace R) {dst : String} (hdst : validPath dst = true) :
    (ns.setTargets dst hdst (ns.targetsAt dst)).bindings = ns.bindings := by
  cases h : ns.bindings[dst]? with
  | none =>
    have hempty : ns.targetsAt dst = [] := by rw [targetsAt, h]; rfl
    have herase : (ns.setTargets dst hdst (ns.targetsAt dst)).bindings = ns.bindings.erase dst := by
      rw [hempty]
      rfl
    rw [herase]
    apply Std.ExtTreeMap.ext_getElem?
    intro d
    rw [Std.ExtTreeMap.getElem?_erase]
    by_cases hd : dst = d
    · simp [← hd, h]
    · simp [hd]
  | some targets =>
    have htargets : ns.targetsAt dst = targets := by rw [targetsAt, h]; rfl
    rw [bindings_setTargets ns hdst (htargets ▸ (ns.valid dst targets h).2), htargets]
    apply Std.ExtTreeMap.ext_getElem?
    intro d
    rw [Std.ExtTreeMap.getElem?_insert]
    by_cases hd : dst = d
    · simp [← hd, h]
    · simp [hd]

/-- A successful bind puts one layer of the source in front. -/
theorem bind_eq_ok {fs : R → FileSystem σ η} {ns ns' : Namespace R} {src : R} {srcPath dstPath : String} {w w' : σ}
    (h : ns.bind fs src srcPath dstPath .after w = (.ok ns', w')) :
    ∃ target : BindTarget R, target.fs = src ∧ validPath srcPath = true ∧ validPath dstPath = true ∧
      ns'.bindings = ns.bindings.insert (cleanPath dstPath) (target :: ns.targetsAt (cleanPath dstPath)) := by
  rw [Namespace.bind] at h
  by_cases hsrc : validPath srcPath
  · by_cases hdst : validPath dstPath
    · simp only [hsrc, hdst, Bool.not_true, Bool.false_eq_true, if_false] at h
      obtain ⟨metadata, s, -, hpure⟩ := Prog.bind_eq_ok.mp h
      cases hpure
      exact ⟨⟨src, cleanPath srcPath, metadata, cleanPath_valid srcPath⟩, rfl, hsrc, hdst,
        bindings_setTargets ns (cleanPath_valid dstPath) (List.cons_ne_nil _ _)⟩
    · simp only [hsrc, hdst, Bool.not_true, Bool.not_false, Bool.false_eq_true, if_false, if_true] at h
      cases congrArg Prod.fst h
  · simp only [hsrc, Bool.not_false, if_true] at h
    cases congrArg Prod.fst h

theorem mem_targetsAt {ns : Namespace R} {dst : String} {target : BindTarget R} (h : target ∈ ns.targetsAt dst) :
    ∃ targets, ns.bindings[dst]? = some targets ∧ target ∈ targets := by
  cases hdst : ns.bindings[dst]? with
  | none => simp [targetsAt, hdst] at h
  | some targets => exact ⟨targets, rfl, by simpa [targetsAt, hdst] using h⟩

/-- Unbinding an object that no layer keeps changes nothing. -/
theorem unbind_of_unused [DecidableEq R] {ns ns' : Namespace R} {src : R} {srcPath dstPath : String}
    (h : ns.unbind src srcPath dstPath = .ok ns') (hsrc : ∀ target ∈ ns.targetsAt (cleanPath dstPath), target.fs ≠ src) :
    ns'.bindings = ns.bindings := by
  have hfilter : (ns.targetsAt (cleanPath dstPath)).filter (fun target => !(target.fs = src && target.path = cleanPath srcPath)) =
      ns.targetsAt (cleanPath dstPath) := by
    apply List.filter_eq_self.mpr
    intro target htarget
    simp [hsrc target htarget]
  rw [unbind] at h
  by_cases hvalid : validPath srcPath = true ∧ validPath dstPath = true
  · simp only [hvalid.1, hvalid.2, Bool.not_true, Bool.false_eq_true, if_false, hfilter] at h
    cases h
    exact bindings_setTargets_self ns (cleanPath_valid dstPath)
  · by_cases hsrcPath : validPath srcPath
    · have hdstPath : validPath dstPath = false := by simpa [hsrcPath] using hvalid
      simp [hsrcPath, hdstPath] at h
    · simp [hsrcPath] at h

end Namespace

namespace TaskNamespace
variable {σ η : Type} (fs : Nat → FileSystem σ η)

theorem live_bind {fs : Nat → FileSystem σ η} {t : TaskNamespace} {ns : Namespace Nat} {srcPath dstPath : String} {w w' : σ}
    (h : t.ns.bind fs t.objects srcPath dstPath .after w = (.ok ns, w')) :
    ∀ (dst : String) (targets : List (BindTarget Nat)), ns.bindings[dst]? = some targets →
      ∀ target ∈ targets, target.fs < t.objects + 1 := by
  intro dst targets htargets target hmem
  obtain ⟨new, hnew, -, -, hbindings⟩ := Namespace.bind_eq_ok h
  rw [hbindings, Std.ExtTreeMap.getElem?_insert] at htargets
  split at htargets
  · cases htargets
    cases List.mem_cons.mp hmem with
    | inl heq =>
      rw [heq, hnew]
      exact Nat.lt_succ_self _
    | inr hold =>
      obtain ⟨old, hdst, hmem⟩ := Namespace.mem_targetsAt hold
      exact Nat.lt_succ_of_lt (t.live _ old hdst target hmem)
  · exact Nat.lt_succ_of_lt (t.live dst targets htargets target hmem)

/-- The layer keeps a new object. -/
def bind (t : TaskNamespace) (srcPath dstPath : String) : Prog σ Error TaskNamespace := fun w =>
  match h : t.ns.bind fs t.objects srcPath dstPath .after w with
  | (.ok ns, w') => (.ok { ns, objects := t.objects + 1, live := live_bind h }, w')
  | (.err e, w') => (.err e, w')
  | (.abort, w') => (.abort, w')

/-- No layer keeps an object that is made now. -/
theorem unused_objects (t : TaskNamespace) (dst : String) : ∀ target ∈ t.ns.targetsAt dst, target.fs ≠ t.objects := by
  intro target htarget
  obtain ⟨targets, hdst, hmem⟩ := Namespace.mem_targetsAt htarget
  exact Nat.ne_of_lt (t.live dst targets hdst target hmem)

theorem live_unbind {t : TaskNamespace} {ns : Namespace Nat} {srcPath dstPath : String}
    (h : t.ns.unbind t.objects srcPath dstPath = .ok ns) :
    ∀ (dst : String) (targets : List (BindTarget Nat)), ns.bindings[dst]? = some targets →
      ∀ target ∈ targets, target.fs < t.objects + 1 := by
  intro dst targets htargets target hmem
  rw [Namespace.unbind_of_unused h (t.unused_objects _)] at htargets
  exact Nat.lt_succ_of_lt (t.live dst targets htargets target hmem)

/-- The layer to remove is one that keeps another new object. -/
def unbind (t : TaskNamespace) (srcPath dstPath : String) : Except Error TaskNamespace :=
  match h : t.ns.unbind t.objects srcPath dstPath with
  | .ok ns => .ok { ns, objects := t.objects + 1, live := live_unbind h }
  | .error e => .error e

/-! ## What unbinding leaves -/

variable {fs}

theorem bind_eq_ok {t t' : TaskNamespace} {srcPath dstPath : String} {w w' : σ} (h : t.bind fs srcPath dstPath w = (.ok t', w')) :
    t.ns.bind fs t.objects srcPath dstPath .after w = (.ok t'.ns, w') := by
  unfold bind at h
  split at h
  · rename_i ns s heq
    cases h
    exact heq
  · cases h
  · cases h

/-- Unbinding succeeds on valid paths and leaves the table as it is. -/
theorem unbind_bindings (t : TaskNamespace) {srcPath dstPath : String} (hsrc : validPath srcPath = true) (hdst : validPath dstPath = true) :
    ∃ t', t.unbind srcPath dstPath = .ok t' ∧ t'.ns.bindings = t.ns.bindings := by
  unfold unbind
  split
  · rename_i ns heq
    exact ⟨_, rfl, Namespace.unbind_of_unused heq (t.unused_objects _)⟩
  · rename_i e heq
    simp [Namespace.unbind, hsrc, hdst] at heq

/-- Unbinding succeeds after a bind, and the table and the layers of every path are as before the two. -/
def UnbindUndoes (fs : Nat → FileSystem σ η) (t : TaskNamespace) (srcPath dstPath : String) (w : σ) : Prop :=
  ∀ t' w', t.bind fs srcPath dstPath w = (.ok t', w') →
    ∃ t'', t'.unbind srcPath dstPath = .ok t'' ∧ t''.ns.bindings = t.ns.bindings ∧ ∀ name, t''.ns.layers name = t.ns.layers name

theorem not_unbindUndoes {t t' : TaskNamespace} {srcPath dstPath : String} {w w' : σ} (h : t.bind fs srcPath dstPath w = (.ok t', w')) :
    ¬UnbindUndoes fs t srcPath dstPath w := by
  intro hundo
  obtain ⟨target, -, hsrc, hdst, hbindings⟩ := Namespace.bind_eq_ok (bind_eq_ok h)
  obtain ⟨left, hleft, hsame⟩ := t'.unbind_bindings hsrc hdst
  obtain ⟨t'', hunbind, hbefore, -⟩ := hundo t' w' h
  cases hleft.symm.trans hunbind
  -- the layer that was bound is still in front
  have htargets : (t.ns.bindings[cleanPath dstPath]?).getD [] = target :: t.ns.targetsAt (cleanPath dstPath) := by
    rw [← hbefore, hsame, hbindings]
    simp
  exact absurd (congrArg List.length htargets) (Nat.ne_of_lt (Nat.lt_succ_self _))

/-- Unbinding never takes a layer out, so it undoes no bind that succeeds. -/
theorem unbindUndoes_iff (fs : Nat → FileSystem σ η) (t : TaskNamespace) (srcPath dstPath : String) (w : σ) :
    UnbindUndoes fs t srcPath dstPath w ↔ (t.bind fs srcPath dstPath w).1.isOk = false := by
  rcases h : t.bind fs srcPath dstPath w with ⟨t' | e | _, w'⟩
  · exact iff_of_false (not_unbindUndoes h) (by simp)
  · exact iff_of_true (fun t' w'' hok => absurd (congrArg Prod.fst (h.symm.trans hok)) Outcome.err_ne_ok) rfl
  · exact iff_of_true (fun t' w'' hok => absurd (congrArg Prod.fst (h.symm.trans hok)) Outcome.abort_ne_ok) rfl

/-- The namespace of a new task. -/
def empty : TaskNamespace := { ns := .new, objects := 0, live := fun _ _ h => by simp [Namespace.new] at h }

/-- The root is bound at `a` in an empty namespace, and unbinding it from there leaves the layer. -/
theorem bind_not_undone :
    "a" ∉ empty.ns.bindings ∧ ¬UnbindUndoes (fun _ => memSpace empty.ns) empty "." "a" fun _ => MemFs.new fun _ => 0 := by
  have hok : (empty.bind (fun _ => memSpace empty.ns) "." "a" fun _ => MemFs.new fun _ => 0).1.isOk = true := by decide +kernel
  constructor
  · decide +kernel
  · rcases h : empty.bind (fun _ => memSpace empty.ns) "." "a" (fun _ => MemFs.new fun _ => 0) with ⟨t' | e | _, w'⟩
    · exact not_unbindUndoes h
    · rw [h] at hok
      cases hok
    · rw [h] at hok
      cases hok

end TaskNamespace
end Star9
