import Star9.Base.Bytes
import Star9.Base.Run
import Star9.Base.Text
import Star9.Core.Basic

/-!
# The network device

Connections of one device, and the links between them. A link is shared by its two
endpoints and has a queue of bytes for each. Beside what the device keeps, a link
remembers the bytes that went through it, and the device the order of dials and
accepts; nothing reads these histories. Running out of numbers is a panic.
-/
namespace Star9
open Base Prog

inductive NetPhase where
  | idle
  | bound
  | listening
  | connected
  | closed
  deriving DecidableEq, Repr

def NetPhase.name : NetPhase → String
  | .idle => "idle"
  | .bound => "bound"
  | .listening => "listening"
  | .connected => "connected"
  | .closed => "closed"

/-- One end of a link; the dialer has the left one. -/
structure NetEndpoint where
  link : Nat
  left : Bool
  deriving DecidableEq, Repr

def NetEndpoint.other (e : NetEndpoint) : NetEndpoint := { e with left := !e.left }

/-- `queue b` waits for the end `b`; `sent b` and `received b` are all the bytes
that were accepted for it and read by it. -/
structure NetLink where
  queue : Bool → Bytes
  closed : Bool
  sent : Bool → Bytes
  received : Bool → Bytes

def NetLink.new : NetLink := { queue := fun _ => [], closed := false, sent := fun _ => [], received := fun _ => [] }

structure PendingAccept where
  remote : String
  endpoint : NetEndpoint
  deriving DecidableEq, Repr

structure NetConn where
  phase : NetPhase
  localAddr : String
  remote : String
  lastError : Option String
  endpoint : Option NetEndpoint
  pendingAccepts : List PendingAccept
  deriving DecidableEq, Repr

def NetConn.new : NetConn :=
  { phase := .idle, localAddr := "", remote := "", lastError := none, endpoint := none, pendingAccepts := [] }

structure NetDevice where
  nextId : UInt32
  nextPort : UInt32
  resources : Std.ExtTreeMap Nat NetConn
  listeners : Std.ExtTreeMap String Nat
  links : Nat → NetLink
  nextLink : Nat
  dialed : List (Nat × Nat)
  accepted : List (Nat × Nat)

namespace NetDevice

def new : NetDevice :=
  { nextId := 0, nextPort := 0, resources := ∅, listeners := ∅, links := fun _ => .new, nextLink := 0, dialed := []
    accepted := [] }

def setConn (id : Nat) (c : NetConn) (d : NetDevice) : NetDevice := { d with resources := d.resources.insert id c }

def setLink (link : Nat) (l : NetLink) (d : NetDevice) : NetDevice := { d with links := Function.update d.links link l }

def alloc : Prog NetDevice Error Nat := do
  let d ← get
  if d.nextId = 0xffffffff then abort
  else do
    modify fun d => setConn (d.nextId.toNat + 1) NetConn.new { d with nextId := d.nextId + 1 }
    pure (d.nextId.toNat + 1)

def lookup (id : Nat) : Prog NetDevice Error NetConn := do
  match (← get).resources[id]? with
  | some c => pure c
  | none => throw (.path "open" (toString id) .notFound)

/-- Only a listening connection is found by its address. -/
def listener (addr : String) : Prog NetDevice Error (Option Nat) := do
  let d ← get
  match d.listeners[addr]? with
  | some id => pure (if (d.resources[id]?).isSome then some id else none)
  | none => pure none

def nextAutoLocal : Prog NetDevice Error String := do
  let d ← get
  if 0xffffffff < 10000 + (d.nextPort.toNat + 1) then abort
  else do
    modify fun d => { d with nextPort := d.nextPort + 1 }
    pure ("local:" ++ toString (10000 + (d.nextPort.toNat + 1)))

def registerListener (addr : String) (id : Nat) : Prog NetDevice Error Unit := do
  if ((← get).listeners[addr]?).isSome then throw (.message ("announce: address already in use: " ++ addr))
  else modify fun d => { d with listeners := d.listeners.insert addr id }

def unregisterListener (addr : String) (id : Nat) (d : NetDevice) : NetDevice :=
  if d.listeners[addr]? = some id then { d with listeners := d.listeners.erase addr } else d

/-- Both ends of a new link. -/
def pair : Prog NetDevice Error Nat := do
  let link := (← get).nextLink
  modify fun d => setLink d.nextLink NetLink.new { d with nextLink := d.nextLink + 1 }
  pure link

def closeLink (link : Nat) (d : NetDevice) : NetDevice := setLink link { d.links link with closed := true } d

/-- The command fails, and the connection remembers why. -/
def refuse {α : Type} (id : Nat) (c : NetConn) (message : String) : Prog NetDevice Error α := do
  modify (setConn id { c with lastError := some message })
  throw (.message message)

def invalidTransition {α : Type} (op : String) (id : Nat) (c : NetConn) : Prog NetDevice Error α :=
  refuse id c (op ++ ": invalid transition from " ++ c.phase.name)

/-! ## Commands -/

def bind (id : Nat) (addr : String) : Prog NetDevice Error Unit := do
  let c ← lookup id
  let addr := trim addr
  if addr = "" then refuse id c "bind: missing address"
  else
    match c.phase with
    | .idle | .closed =>
      modify (setConn id { c with phase := .bound, localAddr := addr, remote := "", lastError := none, endpoint := none })
    | .bound =>
      if c.localAddr = addr then modify (setConn id { c with lastError := none })
      else refuse id c ("bind: invalid transition from " ++ c.phase.name ++ " to " ++ addr)
    | _ => invalidTransition "bind" id c

/-- The address is kept before the listener is registered, also when that fails. -/
def announceAs (id : Nat) (c : NetConn) : Prog NetDevice Error Unit := do
  modify (setConn id c)
  registerListener c.localAddr id
  modify (setConn id { c with phase := .listening, remote := "", lastError := none, endpoint := none })

def announce (id : Nat) (addr : String) : Prog NetDevice Error Unit := do
  let c ← lookup id
  let addr := trim addr
  if addr = "" then refuse id c "announce: missing address"
  else
    match c.phase with
    | .idle | .closed => announceAs id { c with localAddr := addr }
    | .bound =>
      if c.localAddr = addr then announceAs id c
      else refuse id c ("announce: bound address mismatch: expected " ++ c.localAddr ++ ", got " ++ addr)
    | _ => invalidTransition "announce" id c

def enqueueAccept (id : Nat) (pending : PendingAccept) : Prog NetDevice Error Unit := do
  let c ← lookup id
  if c.phase = .listening then
    modify fun d =>
      { setConn id { c with pendingAccepts := c.pendingAccepts ++ [pending] } d with
        dialed := d.dialed ++ [(id, pending.endpoint.link)] }
  else throw (.message "listen: listener is not active")

def localOr (c : NetConn) : Prog NetDevice Error String := if c.localAddr = "" then nextAutoLocal else pure c.localAddr

def dialFrom (id : Nat) (c : NetConn) (addr : String) (target link : Nat) : Prog NetDevice Error Unit := do
  let localAddr ← localOr c
  modify (setConn id
    { c with phase := .connected, localAddr, remote := addr, lastError := none, endpoint := some ⟨link, true⟩ })
  enqueueAccept target { remote := localAddr, endpoint := ⟨link, false⟩ }

def dial (id : Nat) (addr : String) : Prog NetDevice Error Unit := do
  let c ← lookup id
  let addr := trim addr
  if addr = "" then refuse id c "dial: missing address"
  else do
    match ← listener addr with
    | none => throw (.message ("dial: no listener for " ++ addr))
    | some target => do
      let link ← pair
      match c.phase with
      | .idle | .bound | .closed => dialFrom id c addr target link
      | _ => invalidTransition "dial" id c

def allocConnected (localAddr remote : String) (endpoint : NetEndpoint) : Prog NetDevice Error Nat := do
  let id ← alloc
  let c ← lookup id
  modify (setConn id { c with phase := .connected, localAddr, remote, lastError := none, endpoint := some endpoint })
  pure id

def acceptOne (id : Nat) : Prog NetDevice Error (Option Nat) := do
  let c ← lookup id
  if c.phase ≠ .listening then invalidTransition "listen" id c
  else
    match c.pendingAccepts with
    | [] => pure none
    | pending :: rest => do
      modify (setConn id { c with pendingAccepts := rest })
      let new ← allocConnected c.localAddr pending.remote pending.endpoint
      modify fun d => { d with accepted := d.accepted ++ [(id, pending.endpoint.link)] }
      pure (some new)

/-- A connection lets go of what it holds. -/
def release (id : Nat) (c : NetConn) (listens : Bool) (d : NetDevice) : NetDevice :=
  let d := if listens && c.localAddr ≠ "" then unregisterListener c.localAddr id d else d
  match c.endpoint with
  | some e => closeLink e.link d
  | none => d

def hangup (id : Nat) : Prog NetDevice Error Unit := do
  let c ← lookup id
  match c.phase with
  | .connected | .listening => do
    modify (setConn id { c with phase := .closed, lastError := none, endpoint := none, pendingAccepts := [] })
    modify (release id c (c.phase = .listening))
  | _ => invalidTransition "hangup" id c

def reset (id : Nat) : Prog NetDevice Error Unit := do
  let c ← lookup id
  modify (setConn id NetConn.new)
  modify (release id c true)

def ctl (id : Nat) (cmd : String) : Prog NetDevice Error Unit :=
  match splitWhitespace cmd.toList with
  | [] => pure ()
  | "dial" :: parts => dial id (" ".intercalate parts)
  | "bind" :: parts => bind id (" ".intercalate parts)
  | "announce" :: parts => announce id (" ".intercalate parts)
  | "hangup" :: _ => hangup id
  | "reset" :: _ => reset id
  | "noop" :: _ => pure ()
  | other :: _ => throw (.message ("ctl: unsupported command " ++ other))

/-! ## Data -/

/-- A connected connection without an endpoint is a panic. -/
def connectedEndpoint (id : Nat) : Prog NetDevice Error NetEndpoint := do
  let c ← lookup id
  if c.phase ≠ .connected then throw (.message ("data: unavailable while " ++ c.phase.name))
  else
    match c.endpoint with
    | some e => pure e
    | none => abort

def takeBytes (e : NetEndpoint) (len : Nat) (l : NetLink) : NetLink :=
  { l with
    queue := Function.update l.queue e.left ((l.queue e.left).drop len)
    received := Function.update l.received e.left (l.received e.left ++ (l.queue e.left).take len) }

def giveBytes (e : NetEndpoint) (data : Bytes) (l : NetLink) : NetLink :=
  { l with
    queue := Function.update l.queue (!e.left) (l.queue (!e.left) ++ data)
    sent := Function.update l.sent (!e.left) (l.sent (!e.left) ++ data) }

def read (id len : Nat) : Prog NetDevice Error Bytes := do
  let e ← connectedEndpoint id
  let l := (← get).links e.link
  modify (setLink e.link (takeBytes e len l))
  pure ((l.queue e.left).take len)

def write (id : Nat) (data : Bytes) : Prog NetDevice Error Nat := do
  let e ← connectedEndpoint id
  let l := (← get).links e.link
  if l.closed then throw (.message "data: broken pipe")
  else do
    modify (setLink e.link (giveBytes e data l))
    pure data.length

end NetDevice

/-! ## Runs -/

inductive NetOp where
  | new
  | ctl (id : Nat) (cmd : String)
  | listen (id : Nat)
  | read (id len : Nat)
  | write (id : Nat) (data : Bytes)
  deriving DecidableEq, Repr

/-- A step goes on whatever the call returns. -/
def NetDevice.step (d : NetDevice) : NetOp → NetDevice
  | .new => (NetDevice.alloc d).2
  | .ctl id cmd => (NetDevice.ctl id cmd d).2
  | .listen id => (NetDevice.acceptOne id d).2
  | .read id len => (NetDevice.read id len d).2
  | .write id data => (NetDevice.write id data d).2

end Star9
