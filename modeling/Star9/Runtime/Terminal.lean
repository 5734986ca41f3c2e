import Star9.Base.Bytes
import Star9.Base.Run

/-!
# The queues of a terminal

A queue file is read from one queue and written to another, which are one for the files of a
terminal. Handles of a file share its queues. What programs write has a CR before each LF, and
the byte written last is shared as well. Beside the queues the state remembers, for each file,
what has been written and read since it was last cleared, and what each write reported; nothing
reads these histories.
-/
namespace Star9
open Base

def lf : UInt8 := 10

def cr : UInt8 := 13

/-- A file has the numbers of the queues and of the last byte that its handles share. -/
inductive QueueWriteBehavior where
  | raw
  | normalizeLf (prev : Nat)
  deriving DecidableEq, Repr

structure QueueFile where
  name : String
  reader : Nat
  writer : Nat
  behavior : QueueWriteBehavior
  deriving DecidableEq, Repr

structure QueueHeap where
  queues : Nat → Bytes
  prevs : Nat → Option UInt8

namespace QueueHeap

def setQueue (s : QueueHeap) (q : Nat) (data : Bytes) : QueueHeap := { s with queues := Function.update s.queues q data }

def setPrev (s : QueueHeap) (p : Nat) (prev : Option UInt8) : QueueHeap := { s with prevs := Function.update s.prevs p prev }

def readQueue (s : QueueHeap) (q len : Nat) : Bytes × QueueHeap := ((s.queues q).take len, s.setQueue q ((s.queues q).drop len))

def writeQueue (s : QueueHeap) (q : Nat) (data : Bytes) : Nat × QueueHeap := (data.length, s.setQueue q (s.queues q ++ data))

end QueueHeap

/-- What the normaliser has written so far, and the byte before the next. -/
structure LfScan where
  normalized : Bytes
  last : Option UInt8
  deriving DecidableEq, Repr

def normalizeByte (scan : LfScan) (byte : UInt8) : LfScan :=
  { normalized := scan.normalized ++ (if byte = lf ∧ scan.last ≠ some cr then [cr] else []) ++ [byte], last := some byte }

namespace QueueFile

def loopback (name : String) (fresh : Nat) : QueueFile := { name, reader := fresh, writer := fresh, behavior := .raw }

def program (name : String) (fresh : Nat) : QueueFile := { name, reader := fresh, writer := fresh, behavior := .normalizeLf fresh }

def clear (f : QueueFile) (s : QueueHeap) : QueueHeap :=
  let s := (s.setQueue f.reader []).setQueue f.writer []
  match f.behavior with
  | .raw => s
  | .normalizeLf prev => s.setPrev prev none

def read (f : QueueFile) (len : Nat) (s : QueueHeap) : Bytes × QueueHeap := s.readQueue f.reader len

/-- The number of bytes is that of the input. -/
def write (f : QueueFile) (data : Bytes) (s : QueueHeap) : Nat × QueueHeap :=
  match f.behavior with
  | .raw => s.writeQueue f.writer data
  | .normalizeLf prev =>
    if data = [] then (0, s)
    else
      let scan := data.foldl normalizeByte { normalized := [], last := s.prevs prev }
      (data.length, ((s.setPrev prev scan.last).writeQueue f.writer scan.normalized).2)

end QueueFile

/-! ## Runs -/

structure QueueDevice where
  heap : QueueHeap
  files : List QueueFile
  /-- An open handle has a copy of its file. -/
  handles : List (Nat × QueueFile)
  written : Nat → Bytes
  delivered : Nat → Bytes
  /-- How much each write was given, and what it reported. -/
  reported : List (Nat × Nat)

inductive QueueOp where
  | loopback (name : String)
  | program (name : String)
  | open (file : Nat)
  | write (handle : Nat) (data : Bytes)
  | read (handle len : Nat)
  | clear (file : Nat)
  deriving DecidableEq, Repr

namespace QueueDevice

def new : QueueDevice where
  heap := { queues := fun _ => [], prevs := fun _ => none }
  files := []
  handles := []
  written _ := []
  delivered _ := []
  reported := []

def writeTo (d : QueueDevice) (i : Nat) (f : QueueFile) (data : Bytes) : QueueDevice :=
  { d with
    heap := (f.write data d.heap).2
    written := Function.update d.written i (d.written i ++ data)
    reported := d.reported ++ [(data.length, (f.write data d.heap).1)] }

def readFrom (d : QueueDevice) (i : Nat) (f : QueueFile) (len : Nat) : QueueDevice :=
  { d with
    heap := (f.read len d.heap).2
    delivered := Function.update d.delivered i (d.delivered i ++ (f.read len d.heap).1) }

def clearFile (d : QueueDevice) (i : Nat) (f : QueueFile) : QueueDevice :=
  { d with heap := f.clear d.heap, written := Function.update d.written i [], delivered := Function.update d.delivered i [] }

/-- A number that is no file or handle is no call. -/
def step (d : QueueDevice) : QueueOp → QueueDevice
  | .loopback name => { d with files := d.files ++ [.loopback name d.files.length] }
  | .program name => { d with files := d.files ++ [.program name d.files.length] }
  | .open i => (d.files[i]?).elim d fun f => { d with handles := d.handles ++ [(i, f)] }
  | .write handle data => (d.handles[handle]?).elim d fun h => d.writeTo h.1 h.2 data
  | .read handle len => (d.handles[handle]?).elim d fun h => d.readFrom h.1 h.2 len
  | .clear i => (d.files[i]?).elim d fun f => d.clearFile i f

end QueueDevice
end Star9
