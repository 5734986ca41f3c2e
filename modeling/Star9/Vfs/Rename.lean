import Star9.Base.Erase
import Star9.Fs.MemRename
import Star9.Vfs.ReadWrite

/-!
# Renaming in a namespace

The old name is resolved to a layer, and the file system of this layer is asked to
rename. The new name is resolved against a bind path that is searched again, by the
file system alone; when it lies outside that path, it stands for the root of the target.
-/
namespace Star9
open Base Prog

namespace MemFs

theorem rename_refused {old new : String} {fs : MemFs} (h : (rename old new fs).1.isOk = false) : (rename old new fs).2 = fs := by
  cases hp : fs.renameProceeds (cleanPath old) (cleanPath new) with
  | false => exact rename_of_not_proceeds hp
  | true =>
    obtain ⟨id, hid⟩ := exists_of_checks hp
    rw [rename_of_proceeds hp hid] at h
    cases h

theorem parentIsDir_ne_err (name : String) {fs : MemFs} (e : Error) : (parentIsDir name fs).1 ≠ .err e := by
  unfold parentIsDir
  split
  · exact nofun
  · rw [bind_apply]
    unfold attempt
    rcases FileSystem.isDirWith stat (parentPath name) fs with ⟨b | e' | _, fs'⟩ <;> exact nofun

theorem rename_errorKind {old new : String} {fs : MemFs} {e : Error} (h : (rename old new fs).1 = .err e) :
    e.errorKind = .notFound ∨ e.errorKind = .alreadyExists := by
  simp only [rename, cleanPath_valid, Bool.not_true, Bool.or_self, Bool.false_eq_true, if_false] at h
  split at h
  · cases h
  · rw [bind_of_state (parentIsDir_state _)] at h
    rcases hpar : (parentIsDir (cleanPath new) fs).1 with b | e' | _ <;> rw [hpar] at h
    · cases b with
      | false =>
        cases h
        exact Or.inl rfl
      | true =>
        simp only [Bool.not_true, Bool.false_eq_true, if_false, get_bind] at h
        cases hid : fs.nodes[cleanPath old]? with
        | none =>
          rw [hid] at h
          cases h
          exact Or.inl rfl
        | some id =>
          rw [hid, ofOption_some, bind_ok (pure_apply id fs)] at h
          cases hocc : fs.renameOccupied (cleanPath new) with
          | true =>
            rw [hocc] at h
            cases h
            exact Or.inr rfl
          | false =>
            rw [hocc, if_neg Bool.false_ne_true] at h
            by_cases hd : (fs.heap id).metadata.isDir = true <;> simp only [hd] at h <;> cases h
    · exact absurd hpar (parentIsDir_ne_err _ _)
    · cases h

end MemFs

/-- A call of `rename` on one of the file systems. -/
structure RenameCall where
  fs : Nat
  old : String
  new : String
  deriving DecidableEq, Repr

namespace RenameCall

def run (call : RenameCall) : Prog Mems Error Unit := onMem call.fs (MemFs.rename call.old call.new)

def accepted (s : Mems) (call : RenameCall) : Bool := (MemFs.rename call.old call.new (s call.fs)).1.isOk

/-- The write router goes on to the next layer. -/
def passedOver (s : Mems) (call : RenameCall) : Bool :=
  match (MemFs.rename call.old call.new (s call.fs)).1 with
  | .err err => err.errorKind = .notFound || err.errorKind = .notSupported || err.errorKind = .notDir
  | _ => false

/-- The call with a history of the calls that succeed. -/
def logged (call : RenameCall) : Prog (Mems × List RenameCall) Error Unit := fun x =>
  ((call.run x.1).1, (call.run x.1).2, if call.accepted x.1 then x.2 ++ [call] else x.2)

theorem run_refused {call : RenameCall} {s : Mems} (h : call.accepted s = false) : (call.run s).2 = s := by
  unfold run
  rw [onMem_apply, MemFs.rename_refused h, Function.update_eq_self]

theorem logged_erases (call : RenameCall) : Erases Prod.fst call.logged call.run := fun _ => rfl

theorem logged_refused {call : RenameCall} {x : Mems × List RenameCall} (h : call.accepted x.1 = false) :
    call.logged x = ((MemFs.rename call.old call.new (x.1 call.fs)).1, x) := by
  unfold logged
  rw [run_refused h, h]
  rfl

theorem logged_accepted {call : RenameCall} {x : Mems × List RenameCall} (h : call.accepted x.1 = true) :
    call.logged x = (.ok (), (call.run x.1).2, x.2 ++ [call]) := by
  have hok : (call.run x.1).1 = .ok () := by
    unfold accepted at h
    unfold run
    rw [onMem_apply]
    rcases hcall : (MemFs.rename call.old call.new (x.1 call.fs)).1 with a | e | _ <;> rw [hcall] at h <;> cases h
  unfold logged
  rw [hok, if_pos h]

/-- A call is accepted, passed over, or ends the search. -/
theorem cases (call : RenameCall) (s : Mems) :
    (call.accepted s = true ∧ call.passedOver s = false) ∨
    (∃ err, (MemFs.rename call.old call.new (s call.fs)).1 = .err err ∧ call.accepted s = false ∧
      call.passedOver s = (err.errorKind = .notFound || err.errorKind = .notSupported || err.errorKind = .notDir)) ∨
    ((MemFs.rename call.old call.new (s call.fs)).1 = .abort ∧ call.accepted s = false ∧ call.passedOver s = false) := by
  unfold accepted passedOver
  rcases (MemFs.rename call.old call.new (s call.fs)).1 with a | err | _
  · exact Or.inl ⟨rfl, rfl⟩
  · exact Or.inr (Or.inl ⟨err, rfl, rfl, rfl⟩)
  · exact Or.inr (Or.inr ⟨rfl, rfl, rfl⟩)

end RenameCall

namespace Namespace
variable (ns : Namespace Nat) (old new : String)

/-! ## Layers -/

/-- The bind paths of a name with their targets, in the order in which writing resolves it. -/
def writeOrder : List (String × BindTarget Nat) :=
  match ns.bindings[old]? with
  | some targets => targets.map fun target => (old, target)
  | none => (ns.matchingTargets old).flatMap fun entry => entry.2.map fun target => (entry.1, target)

/-- At a bind path the first target decides. -/
def triedLayers : List (String × BindTarget Nat) :=
  if (ns.bindings[old]?).isSome then (ns.writeOrder old).take 1 else ns.writeOrder old

def holds (s : Mems) (layer : String × BindTarget Nat) : Bool :=
  (s layer.2.fs).nodes[targetPath layer.1 layer.2.path old]?.isSome

/-- The first layer that has the old name. -/
def resolved (s : Mems) : Option (String × BindTarget Nat) := (ns.writeOrder old).find? (holds old s)

/-- The name lies below the bind path. -/
def liesBelow (bindPath name : String) : Bool := matchesName bindPath name && bindPath ≠ name

/-- The rename inside a layer. -/
def renameIn (layer : String × BindTarget Nat) : RenameCall :=
  { fs := layer.2.fs, old := targetPath layer.1 layer.2.path old, new := targetPath layer.1 layer.2.path new }

/-- The rename that a layer is asked for. -/
def renameAsked (layer : String × BindTarget Nat) : RenameCall :=
  { fs := layer.2.fs, old := targetPath layer.1 layer.2.path old, new := ns.renameTarget old new layer.2 }

/-! ## The log of a rename -/

def renameLogged : Prog (Mems × List RenameCall) Error Unit :=
  routeWrite (fun target full => RenameCall.logged ⟨target.fs, full, ns.renameTarget old new target⟩) ns "rename" old

section Erasure
variable {S T α : Type} {view : S → T} {f : BindTarget Nat → String → Prog S Error α} {g : BindTarget Nat → String → Prog T Error α}

theorem writeDirect_erases (h : ∀ target full, Erases view (f target full) (g target full)) (last : Error)
    (targets : List (BindTarget Nat)) : Erases view (writeDirect f last targets) (writeDirect g last targets) := by
  induction targets generalizing last with
  | nil => exact erases_throw last
  | cons target rest ih =>
    refine erases_bind (erases_attempt (h target target.path)) fun result => ?_
    cases result with
    | ok a => exact erases_pure a
    | error err =>
      dsimp only
      split
      · exact ih err
      · exact erases_throw err

theorem writeLayers_erases (h : ∀ target full, Erases view (f target full) (g target full)) (failed : Error)
    (layers : List (BindTarget Nat × String)) : Erases view (writeLayers f failed layers) (writeLayers g failed layers) := by
  induction layers with
  | nil => exact erases_throw failed
  | cons layer rest ih =>
    obtain ⟨target, full⟩ := layer
    refine erases_bind (erases_attempt (h target full)) fun result => ?_
    cases result with
    | ok a => exact erases_pure a
    | error err =>
      dsimp only
      split
      · exact ih
      · exact erases_throw err

end Erasure

/-- Without its log it is the rename of the namespace. -/
theorem renameLogged_erases : Erases Prod.fst (ns.renameLogged old new) ((memSpace ns).rename old new) := by
  unfold renameLogged routeWrite
  change Erases Prod.fst _ (routeWrite _ ns "rename" old)
  unfold routeWrite
  dsimp only
  split
  · exact writeDirect_erases (fun target full => RenameCall.logged_erases _) _ _
  · exact writeLayers_erases (fun target full => RenameCall.logged_erases _) _ _

/-! ## Where the call goes -/

section Routing
variable {ns old new} {s : Mems} {x : Mems × List RenameCall} {layers rest : List (String × BindTarget Nat)}
variable {layer : String × BindTarget Nat}

variable (ns old new s) in
/-- The first layer that does not pass its call over. -/
def firstAnswer (layers : List (String × BindTarget Nat)) : Option (String × BindTarget Nat) :=
  layers.find? fun layer => !(ns.renameAsked old new layer).passedOver s

variable (ns old new x) in
/-- How a rename comes out that asks these layers: the first one that answers has accepted the call, or nothing has changed. -/
def Routed (layers : List (String × BindTarget Nat)) (result : Outcome Error Unit × Mems × List RenameCall) : Prop :=
  (∃ layer, ns.firstAnswer old new x.1 layers = some layer ∧ (ns.renameAsked old new layer).accepted x.1 = true ∧
    result = (.ok (), ((ns.renameAsked old new layer).run x.1).2, x.2 ++ [ns.renameAsked old new layer])) ∨
  ((∀ layer, ns.firstAnswer old new x.1 layers = some layer → (ns.renameAsked old new layer).accepted x.1 = false) ∧
    result.1.isOk = false ∧ result.2 = x)

theorem firstAnswer_cons_of_passedOver (h : (ns.renameAsked old new layer).passedOver s = true) :
    ns.firstAnswer old new s (layer :: rest) = ns.firstAnswer old new s rest := by
  unfold firstAnswer
  rw [List.find?_cons, h]
  rfl

theorem firstAnswer_cons_of_not_passedOver (h : (ns.renameAsked old new layer).passedOver s = false) :
    ns.firstAnswer old new s (layer :: rest) = some layer := by
  unfold firstAnswer
  rw [List.find?_cons, h]
  rfl

theorem routed_stop {outcome : Outcome Error Unit} (hpassed : (ns.renameAsked old new layer).passedOver x.1 = false)
    (hrefused : (ns.renameAsked old new layer).accepted x.1 = false) (houtcome : outcome.isOk = false) :
    Routed ns old new x (layer :: rest) (outcome, x) := by
  refine Or.inr ⟨fun found hfound => ?_, houtcome, rfl⟩
  rw [firstAnswer_cons_of_not_passedOver hpassed, Option.some.injEq] at hfound
  exact hfound ▸ hrefused

theorem routed_accept (hpassed : (ns.renameAsked old new layer).passedOver x.1 = false)
    (haccepted : (ns.renameAsked old new layer).accepted x.1 = true) :
    Routed ns old new x (layer :: rest) (.ok (), ((ns.renameAsked old new layer).run x.1).2, x.2 ++ [ns.renameAsked old new layer]) :=
  Or.inl ⟨layer, firstAnswer_cons_of_not_passedOver hpassed, haccepted, rfl⟩

theorem routed_writeLayers (failed : Error) (layers : List (String × BindTarget Nat)) :
    Routed ns old new x layers
      (writeLayers (fun target full => RenameCall.logged ⟨target.fs, full, ns.renameTarget old new target⟩) failed
        (layers.map fun layer => (layer.2, targetPath layer.1 layer.2.path old)) x) := by
  induction layers with
  | nil => exact Or.inr ⟨nofun, rfl, rfl⟩
  | cons layer rest ih =>
    have hcall : (⟨layer.2.fs, targetPath layer.1 layer.2.path old, ns.renameTarget old new layer.2⟩ : RenameCall) =
        ns.renameAsked old new layer := rfl
    rw [List.map_cons]
    unfold writeLayers
    rw [hcall]
    rcases (ns.renameAsked old new layer).cases x.1 with ⟨haccepted, hpassed⟩ | ⟨err, herr, hrefused, hpassed⟩ | ⟨habort, hrefused, hpassed⟩
    · rw [bind_ok (attempt_ok (RenameCall.logged_accepted haccepted))]
      exact routed_accept hpassed haccepted
    · have hlogged := RenameCall.logged_refused hrefused
      rw [herr] at hlogged
      rw [bind_ok (attempt_err hlogged)]
      dsimp only
      rw [branch_apply]
      by_cases hskip : err.errorKind = .notFound ∨ err.errorKind = .notSupported ∨ err.errorKind = .notDir
      · rw [if_pos hskip]
        have hpass : (ns.renameAsked old new layer).passedOver x.1 = true := by
          rw [hpassed]
          simpa [or_assoc] using hskip
        unfold Routed
        rw [firstAnswer_cons_of_passedOver hpass]
        exact ih
      · rw [if_neg hskip]
        refine routed_stop ?_ hrefused rfl
        rw [hpassed]
        simpa [not_or, and_assoc] using hskip
    · have hlogged := RenameCall.logged_refused hrefused
      rw [habort] at hlogged
      rw [bind_abort (attempt_abort hlogged)]
      exact routed_stop hpassed hrefused rfl

/-- At a bind path no target of a memory file system is passed over. -/
theorem routed_writeDirect (target : BindTarget Nat) (targets : List (BindTarget Nat)) (last : Error) :
    Routed ns old new x [(old, target)]
      (writeDirect (fun target full => RenameCall.logged ⟨target.fs, full, ns.renameTarget old new target⟩) last (target :: targets) x) := by
  have hcall : (⟨target.fs, target.path, ns.renameTarget old new target⟩ : RenameCall) = ns.renameAsked old new (old, target) := by
    simp [renameAsked, targetPath, cleanPath_of_valid target.valid]
  unfold writeDirect
  rw [hcall]
  rcases (ns.renameAsked old new (old, target)).cases x.1 with ⟨haccepted, hpassed⟩ | ⟨err, herr, hrefused, hpassed⟩ | ⟨habort, hrefused, hpassed⟩
  · rw [bind_ok (attempt_ok (RenameCall.logged_accepted haccepted))]
    exact routed_accept hpassed haccepted
  · have hlogged := RenameCall.logged_refused hrefused
    rw [herr] at hlogged
    rw [bind_ok (attempt_err hlogged)]
    dsimp only
    have hkind : err.errorKind ≠ .notSupported := by
      rcases MemFs.rename_errorKind herr with h | h <;> rw [h] <;> decide
    rw [branch_apply, if_neg hkind]
    refine Or.inr ⟨fun found hfound => ?_, rfl, rfl⟩
    have hmem := List.mem_of_find?_eq_some hfound
    rw [List.mem_singleton] at hmem
    exact hmem ▸ hrefused
  · have hlogged := RenameCall.logged_refused hrefused
    rw [habort] at hlogged
    rw [bind_abort (attempt_abort hlogged)]
    exact routed_stop hpassed hrefused rfl

/-- A rename asks the layers of the old name. -/
theorem routed_renameLogged (hold : validPath old = true) :
    Routed ns old new x (ns.triedLayers old) (ns.renameLogged old new x) := by
  unfold renameLogged routeWrite triedLayers writeOrder
  rw [cleanPath_of_valid hold]
  cases hbind : ns.bindings[old]? with
  | some targets =>
    cases targets with
    | nil => exact absurd rfl (ns.valid old [] hbind).2
    | cons target targets => exact routed_writeDirect target targets _
  | none =>
    have hlayers : ns.layers old = ((ns.matchingTargets old).flatMap fun entry => entry.2.map fun target => (entry.1, target)).map
        fun layer => (layer.2, targetPath layer.1 layer.2.path old) := by
      unfold layers layersOf
      simp [List.map_flatMap, Function.comp_def]
    dsimp only
    rw [hlayers]
    exact routed_writeLayers _ _

end Routing

/-! ## Staying inside the target -/

/-- A rename that succeeds is one inside the first layer that has the old name, with the new name below its bind path;
one that fails changes nothing. -/
structure RenameStays (s : Mems) : Prop where
  refused : ((memSpace ns).rename old new s).1.isOk = false → ((memSpace ns).rename old new s).2 = s
  inside : ((memSpace ns).rename old new s).1.isOk = true →
    ∃ layer, ns.resolved old s = some layer ∧ liesBelow layer.1 new = true ∧
      (ns.renameLogged old new (s, [])).2.2 = [renameIn old new layer] ∧
      ((memSpace ns).rename old new s).2 = ((renameIn old new layer).run s).2

/-- The layer that accepts its call is asked for the rename inside the first layer that has the old name. -/
def AsksInside (s : Mems) : Prop :=
  ∀ layer, ns.firstAnswer old new s (ns.triedLayers old) = some layer → (ns.renameAsked old new layer).accepted s = true →
    ∃ holder, ns.resolved old s = some holder ∧ liesBelow holder.1 new = true ∧
      ns.renameAsked old new layer = renameIn old new holder

theorem rename_stays_iff (s : Mems) (hold : validPath old = true) : ns.RenameStays old new s ↔ ns.AsksInside old new s := by
  have herases := ns.renameLogged_erases old new (s, [])
  have hrouted : Routed ns old new (s, []) (ns.triedLayers old) (ns.renameLogged old new (s, [])) := routed_renameLogged hold
  constructor
  · intro hstays layer hfirst haccepted
    rcases hrouted with ⟨found, hfound, -, hresult⟩ | ⟨hnone, -⟩
    · obtain rfl : found = layer := Option.some.inj (hfound.symm.trans hfirst)
      rw [hresult] at herases
      obtain ⟨holder, hresolved, hbelow, hlog, -⟩ := hstays.inside (by rw [← herases]; rfl)
      refine ⟨holder, hresolved, hbelow, ?_⟩
      rw [hresult] at hlog
      exact List.singleton_inj.mp hlog
    · have hrefused := hnone layer hfirst
      rw [haccepted] at hrefused
      cases hrefused
  · intro hasks
    rcases hrouted with ⟨layer, hfirst, haccepted, hresult⟩ | ⟨-, hfail, hstate⟩
    · obtain ⟨holder, hresolved, hbelow, hcall⟩ := hasks layer hfirst haccepted
      rw [hresult] at herases
      refine ⟨fun hfail => ?_, fun _ => ⟨holder, hresolved, hbelow, ?_, ?_⟩⟩
      · rw [← herases] at hfail
        cases hfail
      · rw [hresult, hcall]
        rfl
      · rw [← herases, ← hcall]
    · refine ⟨fun _ => ?_, fun hok => ?_⟩
      · rw [← herases, hstate]
      · rw [← herases, hfail] at hok
        cases hok

/-- A file system that is bound at one path. -/
def oneMount : Namespace Nat :=
  Namespace.new.addTarget "mnt" rfl { fs := 0, path := ".", metadata := Metadata.dir "." 0o755, valid := validPath_dot } .replace

def smallMems : Mems := fun _ => MemFs.smallFs

def mountLayer : String × BindTarget Nat :=
  ("mnt", { fs := 0, path := ".", metadata := Metadata.dir "." 0o755, valid := validPath_dot })

theorem rename_stays_oneMount : validPath "mnt/c" = true ∧ oneMount.RenameStays "mnt/c" "mnt/d" smallMems := by
  refine ⟨by decide, (rename_stays_iff oneMount "mnt/c" "mnt/d" smallMems (by decide)).mpr ?_⟩
  intro layer hfirst haccepted
  have hlayers : oneMount.triedLayers "mnt/c" = [mountLayer] := by decide +kernel
  have hmem := List.mem_of_find?_eq_some hfirst
  rw [hlayers, List.mem_singleton] at hmem
  subst hmem
  exact ⟨mountLayer, by decide +kernel, by decide, by decide +kernel⟩

/-- The new name lies outside the only bind path, and the file takes the place of the root. -/
theorem rename_leaves_mount :
    ¬∀ (ns : Namespace Nat) (s : Mems) (old new : String), (∀ id, (s id).TreeInv) → validPath old = true → validPath new = true →
      ns.RenameStays old new s := by
  intro h
  have hstays := h oneMount smallMems "mnt/c" "d" (fun _ => MemFs.smallFs_treeInv) (by decide) (by decide)
  obtain ⟨layer, hresolved, hbelow, -⟩ := hstays.inside (by decide +kernel)
  have hpath : (oneMount.resolved "mnt/c" smallMems).map Prod.fst = some "mnt" := by decide +kernel
  rw [hresolved, Option.map_some, Option.some.injEq] at hpath
  rw [hpath] at hbelow
  revert hbelow
  decide

end Namespace
end Star9
