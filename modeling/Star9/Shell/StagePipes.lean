import Star9.Base.Run
import Star9.Rc.Streams

/-!
# The stages of a process graph

Every stage of a graph runs in a thread of its own. The thread opens the descriptors of its
stage one after another, runs the handler and then closes the descriptors of the writable
bindings by their numbers. A pipe has two ends, and an end is closed by any of its handles.
The steps of the threads come in any order.
-/
namespace Star9.Shell
open Base Rc

/-! ## Pipes -/

inductive PipeEnd where
  | data
  | data1
  deriving DecidableEq, Repr

def PipeEnd.name : PipeEnd → String
  | .data => "data"
  | .data1 => "data1"

def PipeEnd.other : PipeEnd → PipeEnd
  | .data => .data1
  | .data1 => .data

/-- An end of a pipe of the graph. What is written to it is read from the other end. -/
structure Port where
  pipe : Nat
  side : PipeEnd
  deriving DecidableEq, Repr

def Port.reader (p : Port) : Port := { p with side := p.side.other }

/-- What has been written to an end and is not read yet. -/
structure PipeBuffer where
  data : Bytes
  closed : Bool
  deriving DecidableEq

inductive StageFile where
  | port (p : Port)
  | other (id : Nat)
  deriving DecidableEq, Repr

/-! ## Plans -/

/-- The name that a binding has for an end of a pipe. -/
def Port.binding (p : Port) : String := "pipe:" ++ toString p.pipe ++ "/" ++ p.side.name

def Port.path (graphRoot : String) (p : Port) : String := graphRoot ++ "/pipe" ++ toString p.pipe ++ "/" ++ p.side.name

/-- The pipe that a binding names. -/
def bindingPipe (binding : RcFdBindingSpec) : Option Nat := do
  let rest ← stripPrefix "pipe:" binding.path
  parseUnsigned 64 ((splitSlash rest).headD "")

/-- The pipes that are bound in the namespace. -/
def graphPipeIndices (stages : List RcExecutableStageSpec) : List Nat :=
  ((stages.flatMap fun stage => stage.fdBindings.filterMap bindingPipe).mergeSort).dedup

/-- What the namespace opens at a path: an end of a pipe of the graph, or some other file. -/
def resolvePort (graphRoot : String) (pipes : List Nat) (path : String) : Option Port :=
  (pipes.flatMap fun pipe => [{ pipe, side := .data }, { pipe, side := .data1 }]).find? fun p => p.path graphRoot = path

/-- A graph whose execution specifications have been built. -/
structure GraphPlan where
  root : String
  stages : List RcExecutableStageSpec
  depth : Nat
  spec : Nat → Rc.StdioSet × List Rc.FdDescriptor
  built : ∀ (i : Nat) (stage : RcExecutableStageSpec), stages[i]? = some stage → buildExecutionSpec root i stage depth = some (spec i)

/-- The descriptors of a stage in the order in which they are opened. -/
def setupOf (spec : Rc.StdioSet × List Rc.FdDescriptor) : List (Nat × Rc.StreamDescriptor) :=
  [(0, spec.1.stdin), (1, spec.1.stdout), (2, spec.1.stderr)] ++ spec.2.map fun descriptor => (descriptor.fd, .fd descriptor)

/-- The numbers that are closed at the end. -/
def writableFds (stage : RcExecutableStageSpec) : List Nat := (stage.fdBindings.filter RcFdBindingSpec.writable).map RcFdBindingSpec.fd

/-! ## States -/

inductive Phase where
  | setup (todo : List (Nat × Rc.StreamDescriptor))
  | running
  | closing (todo : List Nat)
  | panicked
  deriving DecidableEq

structure StageState where
  phase : Phase
  table : Nat → Option StageFile

structure GraphState where
  stages : Nat → StageState
  buffers : Port → PipeBuffer

namespace GraphPlan
variable (plan : GraphPlan)

def pipes : List Nat := graphPipeIndices plan.stages

def writable (i : Nat) : List Nat := ((plan.stages[i]?).map writableFds).getD []

/-- No descriptor is open, and no pipe has been used. -/
def start : GraphState where
  stages i := { phase := .setup (setupOf (plan.spec i)), table := fun _ => none }
  buffers _ := { data := [], closed := false }

/-- The end of a pipe that a descriptor opens. -/
def portOf (descriptor : Rc.StreamDescriptor) : Option Port :=
  match descriptor with
  | .fd descriptor => descriptor.path.bind (resolvePort plan.root plan.pipes)
  | _ => none

/-- A descriptor without a path opens a file of its own, which always succeeds. -/
def isVirtual (descriptor : Rc.StreamDescriptor) : Bool :=
  match descriptor with
  | .fd descriptor => descriptor.path.isNone
  | _ => true

end GraphPlan

/-! ## Steps -/

/-- What a handler does with a descriptor. Closing a file that is no pipe may fail. -/
inductive HandlerOp where
  | read (fd len : Nat)
  | write (fd : Nat) (data : Bytes)
  | close (fd : Nat)
  | renumber (source target : Nat) (closes : Bool)
  | set (fd : Nat) (file : StageFile)
  deriving DecidableEq

inductive StageAct where
  /-- The next descriptor is opened; the answer is that of the namespace. -/
  | open (found : Option Nat)
  /-- Every descriptor is open, and the handler is looked up. -/
  | start (found : Bool)
  | handler (op : HandlerOp)
  /-- The handler returns, with a status or an error. -/
  | finish
  | panic
  /-- The next writable descriptor is closed. -/
  | close
  deriving DecidableEq

namespace GraphState

def setStage (s : GraphState) (i : Nat) (stage : StageState) : GraphState := { s with stages := Function.update s.stages i stage }

def setPhase (s : GraphState) (i : Nat) (phase : Phase) : GraphState := s.setStage i { s.stages i with phase }

def setFile (s : GraphState) (i fd : Nat) (file : Option StageFile) : GraphState :=
  s.setStage i { s.stages i with table := Function.update (s.stages i).table fd file }

def closePort (s : GraphState) (p : Port) : GraphState :=
  { s with buffers := Function.update s.buffers p { s.buffers p with closed := true } }

def closeFile (s : GraphState) : Option StageFile → GraphState
  | some (.port p) => s.closePort p
  | _ => s

/-- Closing a number takes the file away, and an end of a pipe is closed. -/
def closeFd (s : GraphState) (i fd : Nat) : GraphState := (s.closeFile ((s.stages i).table fd)).setFile i fd none

def renumberFd (s : GraphState) (i source target : Nat) (closes : Bool) : GraphState :=
  if source = target then s
  else
    match (s.stages i).table source, (s.stages i).table target with
    | some file, some (.port p) => ((s.closePort p).setFile i source none).setFile i target (some file)
    | some file, some (.other _) => if closes then (s.setFile i source none).setFile i target (some file) else s
    | _, _ => s

/-- A closed end takes nothing more. -/
def writePort (s : GraphState) (p : Port) (data : Bytes) : GraphState :=
  if (s.buffers p).closed then s
  else { s with buffers := Function.update s.buffers p { s.buffers p with data := (s.buffers p).data ++ data } }

def readPort (s : GraphState) (p : Port) (len : Nat) : GraphState :=
  { s with buffers := Function.update s.buffers p.reader { s.buffers p.reader with data := (s.buffers p.reader).data.drop len } }

def handle (s : GraphState) (i : Nat) : HandlerOp → GraphState
  | .read fd len =>
    match (s.stages i).table fd with
    | some (.port p) => s.readPort p len
    | _ => s
  | .write fd data =>
    match (s.stages i).table fd with
    | some (.port p) => s.writePort p data
    | _ => s
  | .close fd => s.closeFd i fd
  | .renumber source target closes => s.renumberFd i source target closes
  | .set fd file => s.setFile i fd (some file)

end GraphState

namespace GraphPlan
variable (plan : GraphPlan)

/-- The file that opening a descriptor gives, or nothing when it fails. -/
def opened (descriptor : Rc.StreamDescriptor) (found : Option Nat) : Option StageFile :=
  if isVirtual descriptor then some (.other (found.getD 0))
  else found.map fun id => ((plan.portOf descriptor).map StageFile.port).getD (.other id)

/-- A step of the thread of a stage; what is not the turn of its phase changes nothing. -/
def step (s : GraphState) (act : Nat × StageAct) : GraphState :=
  let i := act.1
  match (s.stages i).phase, act.2 with
  | .setup ((fd, descriptor) :: todo), .open found =>
    match plan.opened descriptor found with
    | some file => (s.setFile i fd (some file)).setPhase i (.setup todo)
    | none => s.setPhase i (.closing (plan.writable i))
  | .setup [], .start found => s.setPhase i (if found then .running else .closing (plan.writable i))
  | .running, .handler op => s.handle i op
  | .running, .finish => s.setPhase i (.closing (plan.writable i))
  | .running, .panic => s.setPhase i .panicked
  | .closing (fd :: todo), .close => (s.closeFd i fd).setPhase i (.closing todo)
  | _, _ => s

/-- The thread of a stage has come to its end. -/
def Ended (s : GraphState) (i : Nat) : Prop := (s.stages i).phase = .closing [] ∨ (s.stages i).phase = .panicked

/-- A reader of the other end blocks: nothing is left, and the end is not closed. -/
def Blocks (s : GraphState) (p : Port) : Prop := (s.buffers p).data = [] ∧ (s.buffers p).closed = false

/-- A stage writes an end of a pipe of the graph. -/
structure BoundTo (i : Nat) (p : Port) (binding : RcFdBindingSpec) : Prop where
  stage : ∃ stage, plan.stages[i]? = some stage ∧ binding ∈ stage.fdBindings
  path : binding.path = p.binding
  writable : binding.writable = true
  pipe : p.pipe ∈ plan.pipes
  opened : binding.close = false ∧ binding.dupFrom = none

end GraphPlan
end Star9.Shell
