import Star9.Base.Prog
import Star9.Base.Run
import Star9.Runtime.Worker

/-!
# The descriptors of a task

A task keeps its open files under a lock, by number, with a counter for the next number.
The files and the namespaces are outside: a handle is closed and a path is opened in a
world that answers with a result. An addition past the largest word panics or wraps around,
as the program is built; a panic under the lock poisons it, and no one can take it again.
-/
namespace Star9
open Base Prog

inductive Overflow where
  | panics
  | wraps
  deriving DecidableEq, Repr

namespace Task

structure FdTable (F : Type) where
  files : Std.ExtTreeMap UInt32 (OpenFile F)
  next : UInt32

/-- The table and the lock around it. -/
structure FdLock (F : Type) where
  table : FdTable F
  poisoned : Bool

/-- A task as its descriptors see it. -/
structure TaskFds (σ F : Type) where
  world : σ
  fds : FdLock F

/-- What closing a handle does to the world. -/
abbrev CloseFile (σ F : Type) := F → σ → Except Error Unit × σ

/-- What opening a path in the namespace of a task does to the world. -/
abbrev OpenPath (σ F : Type) := String → σ → Except Error F × σ

abbrev FdM (σ F : Type) := Prog (TaskFds σ F) Error

variable {σ F α : Type}

namespace TaskFds

def new (world : σ) : TaskFds σ F := { world, fds := { table := { files := ∅, next := 3 }, poisoned := false } }

def files (s : TaskFds σ F) : Std.ExtTreeMap UInt32 (OpenFile F) := s.fds.table.files

def next (s : TaskFds σ F) : UInt32 := s.fds.table.next

def setTable (table : FdTable F) (s : TaskFds σ F) : TaskFds σ F := { s with fds := { s.fds with table } }

def poison (s : TaskFds σ F) : TaskFds σ F := { s with fds := { s.fds with poisoned := true } }

end TaskFds

/-- A piece of work under the lock. -/
def locked (p : FdM σ F α) : FdM σ F α := fun s =>
  if s.fds.poisoned then (.abort, s)
  else
    match p s with
    | (.abort, s') => (.abort, s'.poison)
    | r => r

/-- A call of the world. -/
def outside (call : σ → Except Error α × σ) : FdM σ F α := fun s =>
  (.ofExcept (call s.world).1, { s with world := (call s.world).2 })

def succ (overflow : Overflow) (n : UInt32) : FdM σ F UInt32 :=
  if n = 0xffffffff ∧ overflow = .panics then abort else pure (n + 1)

def invalidFd (op : String) (fd : UInt32) : Error := .path op (toString fd.toNat) .invalid

section
variable (overflow : Overflow)

def openFd (file : F) (path : String) : FdM σ F UInt32 :=
  locked do
    let s ← get
    let fd := s.next
    let next ← succ overflow fd
    set (s.setTable { files := s.files.insert fd ⟨file, path⟩, next })
    pure fd

def setFd (fd : UInt32) (file : F) (path : String) : FdM σ F Unit :=
  locked do
    let s ← get
    let next ← if s.next ≤ fd then succ overflow fd else pure s.next
    set (s.setTable { files := s.files.insert fd ⟨file, path⟩, next })

def FdTable.entries (table : FdTable F) : List (UInt32 × String) := table.files.toList.map fun (fd, file) => (fd, file.path)

/-- The descriptors behind another lock, with their paths. -/
def fdEntries (source : FdLock F) : FdM σ F (List (UInt32 × String)) :=
  if source.poisoned then abort else pure source.table.entries

def closeFiles (close : CloseFile σ F) : List (UInt32 × OpenFile F) → FdM σ F Unit
  | [] => pure ()
  | (_, file) :: files => do
    outside (close file.file)
    closeFiles close files

/-- The files are closed after the lock is given back. -/
def clearFds (close : CloseFile σ F) : FdM σ F Unit := do
  let files ← locked do
    let s ← get
    set (s.setTable { s.fds.table with files := ∅ })
    pure s.files
  closeFiles close files.toList

def reopenFds (openPath : OpenPath σ F) : List (UInt32 × String) → FdM σ F Unit
  | [] => pure ()
  | (fd, path) :: entries => do
    let file ← outside (openPath path)
    setFd overflow fd file path
    reopenFds openPath entries

/-- The paths are opened in the namespace of the other task. -/
def reopenFdsFrom (openPath : OpenPath σ F) (source : FdLock F) : FdM σ F Unit := do
  let entries ← fdEntries source
  reopenFds overflow openPath entries

end

/-- The descriptor is free whatever closing its file answers. -/
def closeFd (close : CloseFile σ F) (fd : UInt32) : FdM σ F Unit :=
  locked do
    let s ← get
    match s.files[fd]? with
    | none => throw (invalidFd "closefd" fd)
    | some file => do
      set (s.setTable { s.fds.table with files := s.files.erase fd })
      outside (close file.file)

def moveFd (source target : UInt32) (file : OpenFile F) (s : TaskFds σ F) : TaskFds σ F :=
  s.setTable { s.fds.table with files := (s.files.erase source).insert target file }

def renumberFd (close : CloseFile σ F) (source target : UInt32) : FdM σ F Unit :=
  locked do
    let s ← get
    match s.files[source]? with
    | none => throw (invalidFd "renumberfd" source)
    | some file =>
      if source = target then pure ()
      else
        match s.files[target]? with
        | none => throw (invalidFd "renumberfd" target)
        | some replaced => do
          outside (close replaced.file)
          modify (moveFd source target file)

/-! ## Runs -/

inductive FdOp (σ F : Type) where
  | openFd (file : F) (path : String)
  | setFd (fd : UInt32) (file : F) (path : String)
  | closeFd (fd : UInt32)
  | renumberFd (source target : UInt32)
  | clearFds
  | reopenFdsFrom (openPath : OpenPath σ F) (source : FdLock F)

/-- The state an operation leaves, whatever it answers. -/
def step (overflow : Overflow) (close : CloseFile σ F) (s : TaskFds σ F) : FdOp σ F → TaskFds σ F
  | .openFd file path => (openFd overflow file path s).2
  | .setFd fd file path => (setFd overflow fd file path s).2
  | .closeFd fd => (closeFd close fd s).2
  | .renumberFd source target => (renumberFd close source target s).2
  | .clearFds => (clearFds close s).2
  | .reopenFdsFrom openPath source => (reopenFdsFrom overflow openPath source s).2

end Task
end Star9
