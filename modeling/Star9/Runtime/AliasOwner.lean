import Star9.Base.Map
import Star9.Base.Naming
import Star9.Base.Run
import Star9.Runtime.VmDevice
import Star9.Runtime.WorkerBinding

/-!
# Aliases and their owners

An alias is kept in the resource that has it and in the table that finds it.
Writing an alias takes the old one out of the table, whoever it belongs to now,
so the two agree as long as no alias is given up that another resource shares.
The tasks and the virtual machines keep their aliases in the same way.
-/
namespace Star9
open Base Prog

/-! ## Tasks -/

inductive TaskOp where
  | alloc (kind : String) (parent : Option Nat)
  | setAlias (id : Nat) (new : String)

namespace RuntimeProtocolHost
variable {F : Type} {h : RuntimeProtocolHost F}

/-- No task is allocated yet. -/
def bare : RuntimeProtocolHost F :=
  { root := 1, resources := ∅, aliases := ∅, nextId := 0, workers := ∅, ports := ∅, messages := ∅, acted := [] }

def taskStep (h : RuntimeProtocolHost F) : TaskOp → RuntimeProtocolHost F
  | .alloc kind parent => (alloc kind parent h).2
  | .setAlias id new => setAlias id new h

/-- The current alias of a task. -/
def aliasOf (h : RuntimeProtocolHost F) (id : Nat) : Option String :=
  (h.resources[toString id]?).map RuntimeTask.aliasName

structure AliasesOwned (h : RuntimeProtocolHost F) : Prop where
  listed : ∀ a : String, a ≠ "" → ((h.aliases[a]?).isSome = true ↔ ∃ id, h.aliasOf id = some a)
  owner : ∀ (a : String) (id : Nat), a ≠ "" → h.aliases[a]? = some id → h.aliasOf id = some a
  found : ∀ a : String, a ≠ "" → (∃ id, h.aliasOf id = some a) → h.resources[a]? = none →
    ∃ id, lookup? a h = some id ∧ h.aliasOf id = some a

theorem aliasesOwned_iff : h.AliasesOwned ↔ Owned "" h.aliasOf fun a => h.aliases[a]? := by
  constructor
  · intro hown
    exact ⟨fun a id ha hid => (hown.listed a ha).mpr ⟨id, hid⟩, hown.owner⟩
  · intro hown
    refine ⟨fun a ha => hown.isSome_iff ha, hown.owner, fun a ha hex hres => ?_⟩
    obtain ⟨id, hid⟩ := Option.isSome_iff_exists.mp ((hown.isSome_iff ha).mpr hex)
    refine ⟨id, ?_, hown.owner a id ha hid⟩
    rw [lookup?_eq, hres]
    exact hid

/-- The numbers of the tasks have been counted. -/
def Counted (h : RuntimeProtocolHost F) : Prop :=
  ∀ id : Nat, (h.resources[toString id]?).isSome = true → id ≤ h.nextId.toNat

/-- An alias that is given up belongs to no other task. -/
def GivesUpOwn (h : RuntimeProtocolHost F) : TaskOp → Prop
  | .alloc _ _ => True
  | .setAlias id new => ∀ old, h.aliasOf id = some old → old ≠ "" → old ≠ new → ∀ other, h.aliasOf other = some old → other = id

theorem setAlias_of_task {id : Nat} {task : RuntimeTask F} (htask : h.resources[toString id]? = some task) (new : String) :
    setAlias id new h = updateAlias id task.aliasName new
      { h with resources := h.resources.insert (toString id) { task with aliasName := new } } := by
  simp only [setAlias, modifyTask, htask]

theorem aliasOf_insert (id : Nat) (task : RuntimeTask F) :
    aliasOf { h with resources := h.resources.insert (toString id) task } =
      Function.update h.aliasOf id (some task.aliasName) := by
  funext other
  unfold aliasOf
  rw [getElem?_insert_eq, Function.update_apply]
  by_cases hother : other = id
  · rw [if_pos (congrArg toString hother), if_pos hother]
    rfl
  · have hkey : toString other ≠ toString id := fun heq => hother (Nat.repr_inj.mp heq)
    rw [if_neg hkey, if_neg hother]

theorem aliasOf_setAlias {id : Nat} {old : String} (hid : h.aliasOf id = some old) (new : String) :
    (setAlias id new h).aliasOf = Function.update h.aliasOf id (some new) := by
  obtain ⟨task, htask, -⟩ := Option.map_eq_some_iff.mp hid
  rw [setAlias_of_task htask]
  exact aliasOf_insert id { task with aliasName := new }

theorem aliases_setAlias {id : Nat} {old : String} (hid : h.aliasOf id = some old) (new : String) :
    (fun a => (setAlias id new h).aliases[a]?) = retable "" id old new fun a => h.aliases[a]? := by
  obtain ⟨task, htask, rfl⟩ := Option.map_eq_some_iff.mp hid
  funext a
  rw [setAlias_of_task htask]
  simp only [updateAlias, retable]
  split <;> split <;> simp [Function.update_apply, getElem?_insert_eq, getElem?_erase_eq]

theorem setAlias_of_none {id : Nat} (hid : h.aliasOf id = none) (new : String) : setAlias id new h = h := by
  simp only [setAlias, Option.map_eq_none_iff.mp hid]

theorem nextId_succ {n : UInt32} (hmax : n ≠ 0xffffffff) : (n + 1).toNat = n.toNat + 1 := by
  have hlt : n.toNat ≠ 2 ^ 32 - 1 := fun heq => hmax (UInt32.toNat_inj.mp heq)
  have := n.toNat_lt
  rw [UInt32.toNat_add]
  exact Nat.mod_eq_of_lt (by change n.toNat + 1 < 2 ^ 32; omega)

theorem Counted.taskStep (hc : Counted h) (op : TaskOp) : Counted (taskStep h op) := by
  cases op with
  | alloc kind parent =>
    simp only [RuntimeProtocolHost.taskStep]
    rcases alloc_cases kind parent h with ⟨hmax, halloc⟩ | halloc
    · rw [halloc]
      intro id hid
      simp only [allocated] at hid ⊢
      rw [nextId_succ hmax]
      rw [getElem?_insert_eq] at hid
      split at hid
      · rename_i heq
        exact (Nat.repr_inj.mp heq).le
      · exact (hc id hid).trans (Nat.le_succ _)
    · rw [halloc]
      exact hc
  | setAlias id new =>
    simp only [RuntimeProtocolHost.taskStep]
    cases hid : h.aliasOf id with
    | none =>
      rw [setAlias_of_none hid]
      exact hc
    | some old =>
      obtain ⟨task, htask, -⟩ := Option.map_eq_some_iff.mp hid
      rw [setAlias_of_task htask]
      intro other hother
      refine hc other ?_
      simp only [updateAlias, getElem?_insert_eq] at hother
      split at hother
      · rename_i heq
        rw [heq, htask]
        rfl
      · exact hother

/-- A step keeps the aliases with their owners exactly when it gives up no alias of another task. -/
theorem aliasesOwned_taskStep_iff (hc : Counted h) (hown : h.AliasesOwned) (op : TaskOp) :
    (taskStep h op).AliasesOwned ↔ GivesUpOwn h op := by
  have hown' := aliasesOwned_iff.mp hown
  cases op with
  | alloc kind parent =>
    refine iff_of_true ?_ trivial
    simp only [taskStep]
    rcases alloc_cases kind parent h with ⟨-, halloc⟩ | halloc
    · rw [halloc, aliasesOwned_iff]
      have hfresh : h.aliasOf (h.nextId.toNat + 1) = none := by
        by_contra hne
        have hsome := hc (h.nextId.toNat + 1) (by simpa [aliasOf, Option.isSome_iff_ne_none] using hne)
        omega
      have hname : (allocated kind parent h).aliasOf = Function.update h.aliasOf (h.nextId.toNat + 1) (some "") :=
        aliasOf_insert _ (newTask _ kind _)
      rw [hname]
      exact hown'.add hfresh
    · rw [halloc]
      exact hown
  | setAlias id new =>
    simp only [taskStep, GivesUpOwn]
    cases hid : h.aliasOf id with
    | none =>
      rw [setAlias_of_none hid]
      refine iff_of_true hown fun old hold => ?_
      cases hold
    | some old =>
      rw [aliasesOwned_iff, aliasOf_setAlias hid, aliases_setAlias hid, hown'.retable_iff hid]
      simp only [Option.some.injEq, forall_eq']

theorem counted_bare : Counted (bare : RuntimeProtocolHost F) := by
  intro id hid
  simp [bare] at hid

theorem aliasesOwned_bare : (bare : RuntimeProtocolHost F).AliasesOwned := by
  rw [aliasesOwned_iff]
  constructor
  · intro a id _ hid
    simp [bare, aliasOf] at hid
  · intro a id _ hid
    simp [bare] at hid

theorem run_aliasesOwned_iff (ops : List TaskOp) :
    (∀ k, (run taskStep (bare : RuntimeProtocolHost F) (ops.take k)).AliasesOwned) ↔
      StepsMeet taskStep GivesUpOwn (bare : RuntimeProtocolHost F) ops := by
  have hrun : (∀ k, Counted (run taskStep (bare : RuntimeProtocolHost F) (ops.take k)) ∧
      (run taskStep (bare : RuntimeProtocolHost F) (ops.take k)).AliasesOwned) ↔
      StepsMeet taskStep GivesUpOwn (bare : RuntimeProtocolHost F) ops := by
    refine forall_take_iff_stepsMeet (I := fun h => Counted h ∧ h.AliasesOwned) (fun h op hi => ?_)
      ⟨counted_bare, aliasesOwned_bare⟩ ops
    rw [aliasesOwned_taskStep_iff hi.1 hi.2, and_iff_right (hi.1.taskStep op)]
  rw [← hrun]
  refine forall_congr' fun k => (and_iff_right ?_).symm
  exact run_invariant_of_step (fun h op hc => hc.taskStep op) counted_bare _

end RuntimeProtocolHost

/-! ## Virtual machines -/

namespace VmDevice
variable {d : VmDevice}

def aliasOf (d : VmDevice) (id : String) : Option String := (d.resources[id]?).map VmResource.aliasName

structure AliasesOwned (d : VmDevice) : Prop where
  listed : ∀ a : String, a ≠ "" → ((d.aliases[a]?).isSome = true ↔ ∃ id, d.aliasOf id = some a)
  owner : ∀ a id : String, a ≠ "" → d.aliases[a]? = some id → d.aliasOf id = some a
  found : ∀ a : String, a ≠ "" → (∃ id, d.aliasOf id = some a) → d.resources[a]? = none →
    ∃ resource, (resolve a d).1 = .ok resource ∧ resource.aliasName = a

theorem aliasesOwned_iff : d.AliasesOwned ↔ Owned "" d.aliasOf fun a => d.aliases[a]? := by
  constructor
  · intro hown
    exact ⟨fun a id ha hid => (hown.listed a ha).mpr ⟨id, hid⟩, hown.owner⟩
  · intro hown
    refine ⟨fun a ha => hown.isSome_iff ha, hown.owner, fun a ha hex hres => ?_⟩
    obtain ⟨id, hid⟩ := Option.isSome_iff_exists.mp ((hown.isSome_iff ha).mpr hex)
    obtain ⟨resource, hresource, hname⟩ := Option.map_eq_some_iff.mp (hown.owner a id ha hid)
    refine ⟨resource, ?_, hname⟩
    rw [resolve, get_bind, hres]
    dsimp only
    rw [hid, ofOption_some, bind_ok (pure_apply id d), hresource]
    rfl

def Counted (d : VmDevice) : Prop :=
  ∀ n : Nat, (d.resources[toString n]?).isSome = true → n ≤ d.nextId.toNat

/-- An alias that is given up belongs to no other resource. -/
def GivesUpOwn (d : VmDevice) : VmOp → Prop
  | .alloc _ => True
  | .setAlias id value => ∀ old, d.aliasOf id = some old → old ≠ "" → old ≠ trim value →
      ∀ other, d.aliasOf other = some old → other = id

theorem setAlias_of_resource {id : String} {resource : VmResource} (hid : d.resources[id]? = some resource)
    (value : String) :
    setAlias id value d = updateAlias id resource.aliasName (trim value)
      { d with resources := d.resources.insert id { resource with aliasName := trim value } } := by
  simp only [setAlias, hid]

theorem setAlias_of_none {id : String} (hid : d.aliasOf id = none) (value : String) : setAlias id value d = d := by
  simp only [setAlias, Option.map_eq_none_iff.mp hid]

theorem aliasOf_insert (id : String) (resource : VmResource) :
    aliasOf { d with resources := d.resources.insert id resource } =
      Function.update d.aliasOf id (some resource.aliasName) := by
  funext other
  unfold aliasOf
  rw [getElem?_insert_eq, Function.update_apply]
  split <;> rfl

theorem aliasOf_setAlias {id old : String} (hid : d.aliasOf id = some old) (value : String) :
    (setAlias id value d).aliasOf = Function.update d.aliasOf id (some (trim value)) := by
  obtain ⟨resource, hresource, -⟩ := Option.map_eq_some_iff.mp hid
  rw [setAlias_of_resource hresource]
  exact aliasOf_insert id { resource with aliasName := trim value }

theorem aliases_setAlias {id old : String} (hid : d.aliasOf id = some old) (value : String) :
    (fun a => (setAlias id value d).aliases[a]?) = retable "" id old (trim value) fun a => d.aliases[a]? := by
  obtain ⟨resource, hresource, rfl⟩ := Option.map_eq_some_iff.mp hid
  funext a
  rw [setAlias_of_resource hresource]
  simp only [updateAlias, retable]
  split <;> split <;> simp [Function.update_apply, getElem?_insert_eq, getElem?_erase_eq]

/-- The device with one more resource. -/
def allocated (kind : String) (d : VmDevice) : VmDevice :=
  { d with
    nextId := d.nextId + 1
    resources := d.resources.insert (toString (d.nextId.toNat + 1))
      { id := toString (d.nextId.toNat + 1), kind := trim kind, aliasName := "" } }

theorem alloc_cases (kind : String) (d : VmDevice) :
    d.nextId ≠ 0xffffffff ∧ (alloc kind d).2 = allocated kind d ∨ (alloc kind d).2 = d := by
  unfold alloc
  dsimp only
  rw [branch_apply, get_bind, branch_apply]
  by_cases hkind : trim kind = ""
  · rw [if_pos hkind]
    exact Or.inr rfl
  · rw [if_neg hkind]
    by_cases hmax : d.nextId = 0xffffffff
    · rw [if_pos hmax]
      exact Or.inr rfl
    · rw [if_neg hmax]
      exact Or.inl ⟨hmax, rfl⟩

theorem Counted.step (hc : Counted d) (op : VmOp) : Counted (d.step op) := by
  cases op with
  | alloc kind =>
    simp only [VmDevice.step]
    rcases alloc_cases kind d with ⟨hmax, halloc⟩ | halloc
    · rw [halloc]
      intro n hn
      simp only [allocated] at hn ⊢
      rw [RuntimeProtocolHost.nextId_succ hmax]
      rw [getElem?_insert_eq] at hn
      split at hn
      · rename_i heq
        exact (Nat.repr_inj.mp heq).le
      · exact (hc n hn).trans (Nat.le_succ _)
    · rw [halloc]
      exact hc
  | setAlias id value =>
    simp only [VmDevice.step]
    cases hid : d.aliasOf id with
    | none =>
      rw [setAlias_of_none hid]
      exact hc
    | some old =>
      obtain ⟨resource, hresource, -⟩ := Option.map_eq_some_iff.mp hid
      rw [setAlias_of_resource hresource]
      intro n hn
      refine hc n ?_
      simp only [updateAlias, getElem?_insert_eq] at hn
      split at hn
      · rename_i heq
        rw [heq, hresource]
        rfl
      · exact hn

theorem aliasesOwned_step_iff (hc : Counted d) (hown : d.AliasesOwned) (op : VmOp) :
    (d.step op).AliasesOwned ↔ GivesUpOwn d op := by
  have hown' := aliasesOwned_iff.mp hown
  cases op with
  | alloc kind =>
    refine iff_of_true ?_ trivial
    simp only [step]
    rcases alloc_cases kind d with ⟨-, halloc⟩ | halloc
    · rw [halloc, aliasesOwned_iff]
      have hfresh : d.aliasOf (toString (d.nextId.toNat + 1)) = none := by
        by_contra hne
        have hsome := hc (d.nextId.toNat + 1) (by simpa [aliasOf, Option.isSome_iff_ne_none] using hne)
        omega
      have hname : (allocated kind d).aliasOf = Function.update d.aliasOf (toString (d.nextId.toNat + 1)) (some "") :=
        aliasOf_insert _ _
      rw [hname]
      exact hown'.add hfresh
    · rw [halloc]
      exact hown
  | setAlias id value =>
    simp only [step, GivesUpOwn]
    cases hid : d.aliasOf id with
    | none =>
      rw [setAlias_of_none hid]
      refine iff_of_true hown fun old hold => ?_
      cases hold
    | some old =>
      rw [aliasesOwned_iff, aliasOf_setAlias hid, aliases_setAlias hid, hown'.retable_iff hid]
      simp only [Option.some.injEq, forall_eq']

theorem counted_new : Counted new := by
  intro n hn
  simp [new] at hn

theorem aliasesOwned_new : new.AliasesOwned := by
  rw [aliasesOwned_iff]
  constructor
  · intro a id _ hid
    simp [new, aliasOf] at hid
  · intro a id _ hid
    simp [new] at hid

theorem run_aliasesOwned_iff (ops : List VmOp) :
    (∀ k, (run step new (ops.take k)).AliasesOwned) ↔ StepsMeet step GivesUpOwn new ops := by
  have hrun : (∀ k, Counted (run step new (ops.take k)) ∧ (run step new (ops.take k)).AliasesOwned) ↔
      StepsMeet step GivesUpOwn new ops := by
    refine forall_take_iff_stepsMeet (I := fun d => Counted d ∧ d.AliasesOwned) (fun d op hi => ?_)
      ⟨counted_new, aliasesOwned_new⟩ ops
    rw [aliasesOwned_step_iff hi.1 hi.2, and_iff_right (hi.1.step op)]
  rw [← hrun]
  refine forall_congr' fun k => (and_iff_right ?_).symm
  exact run_invariant_of_step (fun d op hc => hc.step op) counted_new _

end VmDevice

/-- In every state of a run the aliases of the tasks find their owners exactly when no
write gives up an alias that another task shares, and so do those of the virtual machines. -/
theorem aliases_resolve_to_owners_iff (F : Type) (ops : List TaskOp) (vmOps : List VmOp) :
    ((∀ k, (run RuntimeProtocolHost.taskStep (RuntimeProtocolHost.bare : RuntimeProtocolHost F) (ops.take k)).AliasesOwned) ↔
      StepsMeet RuntimeProtocolHost.taskStep RuntimeProtocolHost.GivesUpOwn
        (RuntimeProtocolHost.bare : RuntimeProtocolHost F) ops) ∧
    ((∀ k, (run VmDevice.step VmDevice.new (vmOps.take k)).AliasesOwned) ↔
      StepsMeet VmDevice.step VmDevice.GivesUpOwn VmDevice.new vmOps) :=
  ⟨RuntimeProtocolHost.run_aliasesOwned_iff ops, VmDevice.run_aliasesOwned_iff vmOps⟩

/-- Two resources share an alias, and the first takes another: the second can no longer be found. -/
theorem aliases_lose_owner :
    (¬ ∀ (ops : List TaskOp) (k : Nat), (run RuntimeProtocolHost.taskStep
      (RuntimeProtocolHost.bare : RuntimeProtocolHost Unit) (ops.take k)).AliasesOwned) ∧
    ¬ ∀ (ops : List VmOp) (k : Nat), (run VmDevice.step VmDevice.new (ops.take k)).AliasesOwned := by
  constructor
  · intro hall
    have hown := hall [.alloc "auto" none, .alloc "auto" none, .setAlias 1 "x", .setAlias 2 "x", .setAlias 1 "y"] 5
    have hlisted := (hown.listed "x" (by decide)).mpr ⟨2, by decide +kernel⟩
    revert hlisted
    decide +kernel
  · intro hall
    have hown := hall [.alloc "a", .alloc "a", .setAlias "1" "x", .setAlias "2" "x", .setAlias "1" "y"] 5
    have hlisted := (hown.listed "x" (by decide)).mpr ⟨"2", by decide +kernel⟩
    revert hlisted
    decide +kernel

end Star9
