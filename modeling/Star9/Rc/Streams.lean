import Star9.Core.Path
import Star9.Rc.Eval

/-!
# The streams of an executable stage

The shell turns the descriptor bindings of a stage into the streams of a process.
A binding that duplicates another descriptor is followed when the stream is asked
for, over all the bindings of the stage.
-/
namespace Star9.Rc
open Base Prog

inductive FdKind where
  | file
  | pipe
  deriving DecidableEq, Repr

structure FdDescriptor where
  fd : Nat
  kind : FdKind
  path : Option String
  read : Bool
  write : Bool
  append : Bool
  deriving DecidableEq, Repr

inductive StreamDescriptor where
  | inherit
  | null
  | fd (descriptor : FdDescriptor)
  deriving DecidableEq, Repr

structure StdioSet where
  stdin : StreamDescriptor
  stdout : StreamDescriptor
  stderr : StreamDescriptor
  deriving DecidableEq, Repr

section
variable (graphRoot : String)

def resolveExecutableBindingPath (bindingPath : String) : String :=
  match stripPrefix "pipe:" bindingPath with
  | some rest =>
    let (pipe, path) := (splitOnceSlash rest).getD (rest, ".")
    graphRoot ++ "/pipe" ++ pipe ++ "/" ++ path
  | none => bindingPath

def fdDescriptorFromBinding (binding : RcFdBindingSpec) : FdDescriptor :=
  { fd := binding.fd, kind := if (stripPrefix "pipe:" binding.path).isSome then .pipe else .file,
    path := some (resolveExecutableBindingPath graphRoot binding.path), read := binding.readable,
    write := binding.writable, append := binding.append }

/-- The stream of a descriptor that is duplicated and not bound itself. -/
def unboundStream (source : Nat) : Option StreamDescriptor :=
  if source = 0 then some .null else if source = 1 ∨ source = 2 then some .inherit else none

/-- The source bounds the recursion by nothing; a search that uses up every `depth` does not come back. -/
def streamForFd (bindings : List RcFdBindingSpec) : Nat → Nat → Option (Option StreamDescriptor)
  | 0, _ => none
  | depth + 1, fd =>
    match bindings.reverse.find? fun binding => binding.fd = fd with
    | none => some none
    | some binding =>
      if binding.close then some (some .null)
      else
        match binding.dupFrom with
        | some source => (streamForFd bindings depth source).map fun stream => stream.or (unboundStream source)
        | none =>
          if binding.path = "" then some none else some (some (.fd (fdDescriptorFromBinding graphRoot binding)))

def fdDescriptorForBinding (bindings : List RcFdBindingSpec) (depth : Nat) (binding : RcFdBindingSpec) :
    Option (Option FdDescriptor) :=
  if binding.close then some none
  else
    match binding.dupFrom with
    | some source =>
      (streamForFd graphRoot bindings depth source).map fun stream =>
        match stream with
        | some (.fd descriptor) => some { descriptor with fd := binding.fd }
        | _ => none
    | none => some (if binding.path = "" then none else some (fdDescriptorFromBinding graphRoot binding))

/-- The descriptors that a stage has beside its standard streams. -/
def extraFds (bindings : List RcFdBindingSpec) (depth : Nat) : List RcFdBindingSpec → Option (List FdDescriptor)
  | [] => some []
  | binding :: rest => do
    let found ← fdDescriptorForBinding graphRoot bindings depth binding
    let fds ← extraFds bindings depth rest
    some (found.toList ++ fds)

/-- The streams of a process for a stage; nothing when one of the searches does not come back. -/
def buildExecutionSpec (index : Nat) (stage : RcExecutableStageSpec) (depth : Nat) : Option (StdioSet × List FdDescriptor) := do
  let stdinPath := if stage.stdin = "" then none else some (graphRoot ++ "/stage" ++ toString index ++ "-stdin")
  let fileStream := stdinPath.map fun path =>
    StreamDescriptor.fd { fd := 0, kind := .file, path := some path, read := true, write := false, append := false }
  let stdin ← streamForFd graphRoot stage.fdBindings depth 0
  let stdout ← streamForFd graphRoot stage.fdBindings depth 1
  let stderr ← streamForFd graphRoot stage.fdBindings depth 2
  let fds ← extraFds graphRoot stage.fdBindings depth (stage.fdBindings.filter fun binding => 2 < binding.fd)
  some ({ stdin := (stdin.or fileStream).getD .null, stdout := stdout.getD .inherit, stderr := stderr.getD .inherit }, fds)

end

/-! ## Where output goes -/

/-- Where the output of a process on one of its descriptors goes. -/
inductive Destination where
  /-- to the stream that a process has on this descriptor of itself -/
  | inherit (fd : Nat)
  | null
  | file (path : Option String) (append : Bool)
  deriving DecidableEq, Repr

def StreamDescriptor.destination (fd : Nat) : StreamDescriptor → Destination
  | .inherit => .inherit fd
  | .null => .null
  | .fd descriptor => .file descriptor.path descriptor.append

/-- Where a descriptor of a stage leads before its redirections. -/
def ownDestination (graphRoot : String) (base : List RcFdBindingSpec) (fd : Nat) : Destination :=
  match base.reverse.find? fun binding => binding.fd = fd with
  | some binding => (StreamDescriptor.fd (fdDescriptorFromBinding graphRoot binding)).destination fd
  | none => .inherit fd

/-- Where a sink of rc leads for a stage with these bindings; a process substitution is not a
destination. -/
def FdSink.destination (graphRoot : String) (base : List RcFdBindingSpec) : FdSink → Option Destination
  | .stdout => some (ownDestination graphRoot base 1)
  | .stderr => some (ownDestination graphRoot base 2)
  | .closed => some .null
  | .file path append => some (.file (some path) append)
  | .process _ _ => none

/-- The streams of the process lead where the sinks of rc do. -/
def SameDestinations (graphRoot : String) (index : Nat) (base : List RcFdBindingSpec) (stage : RcExecutableStageSpec)
    (sinks : FdSinks) : Prop :=
  ∃ depth stdio fds, buildExecutionSpec graphRoot index stage depth = some (stdio, fds) ∧
    some (stdio.stdout.destination 1) = (dupSink sinks 1).destination graphRoot base ∧
    some (stdio.stderr.destination 2) = (dupSink sinks 2).destination graphRoot base

end Star9.Rc
