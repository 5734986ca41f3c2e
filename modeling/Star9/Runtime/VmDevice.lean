import Star9.Base.Prog
import Star9.Base.Text
import Star9.Core.Basic

/-!
# The device of virtual machines

Resources are kept under their numbers, and an alias finds a resource through a
table of its own. Of a resource only what the aliases depend on is kept.
-/
namespace Star9
open Base Prog

structure VmResource where
  id : String
  kind : String
  aliasName : String
  deriving DecidableEq

structure VmDevice where
  nextId : UInt32
  resources : Std.ExtTreeMap String VmResource
  aliases : Std.ExtTreeMap String String

namespace VmDevice

def new : VmDevice := { nextId := 0, resources := ∅, aliases := ∅ }

/-- The counter does not go past its type. -/
def alloc (kind : String) : Prog VmDevice Error String :=
  let kind := trim kind
  if kind = "" then throw (.kind .invalid)
  else do
    let d ← get
    if d.nextId = 0xffffffff then abort
    else do
      let id := toString (d.nextId.toNat + 1)
      modify fun d =>
        { d with nextId := d.nextId + 1, resources := d.resources.insert id { id, kind, aliasName := "" } }
      pure id

/-- A number goes before an alias. -/
def resolve (name : String) : Prog VmDevice Error VmResource := do
  let d ← get
  match d.resources[name]? with
  | some resource => pure resource
  | none => do
    let id ← ofOption (.path "open" name .notFound) d.aliases[name]?
    ofOption (.path "open" name .notFound) d.resources[id]?

def updateAlias (id old new : String) (d : VmDevice) : VmDevice :=
  let aliases := if old = "" then d.aliases else d.aliases.erase old
  { d with aliases := if new = "" then aliases else aliases.insert new id }

def setAlias (id value : String) (d : VmDevice) : VmDevice :=
  let next := trim value
  match d.resources[id]? with
  | some resource => updateAlias id resource.aliasName next
      { d with resources := d.resources.insert id { resource with aliasName := next } }
  | none => d

end VmDevice

/-- The alias file and the control file of a resource write its alias. -/
inductive VmOp where
  | alloc (kind : String)
  | setAlias (id value : String)

def VmDevice.step (d : VmDevice) : VmOp → VmDevice
  | .alloc kind => (alloc kind d).2
  | .setAlias id value => setAlias id value d

end Star9
