import Stripe.Error
import Stripe.Segment

/-!
# The writable end of a connection

An outlet takes bytes in the order in which they are offered and keeps
them on its wire. How many bytes one write call takes depends on the room
that the other side grants and on a limit per call; a fault may strike
once the wire has reached a given length.

`Outgoing` is what is still to be written of a segment: the header first,
then the payload, each by write calls of its own.
-/

namespace Stripe

/-- What happens to the write calls that a fault strikes. -/
inductive Outlet.Fault where
  /-- The call fails; if `once`, later calls do not. -/
  | error (cause : IoError) (once : Bool)
  /-- The call takes no byte. -/
  | zero
  /-- The call never returns to its worker, which is lost. -/
  | panic (message : String)
deriving DecidableEq

structure Outlet where
  /-- How many bytes the outlet takes before it blocks, if there is a
  limit. -/
  room : Option Nat
  /-- The most bytes that one call takes, if there is a limit. -/
  maxWrite : Option Nat
  /-- A fault, and the length of the wire at which it strikes. -/
  fault : Option (Nat × Outlet.Fault)
  flushError : Option IoError
  shutdownError : Option IoError
  /-- The bytes taken so far. -/
  log : Array UInt8
  flushes : Nat
  closed : Bool
deriving DecidableEq, Inhabited

namespace Outlet

/-- What one write call comes to. -/
inductive Outcome where
  | took (count : Nat)
  | failed (cause : IoError)
  | panicked (message : String)
  | blocked
deriving DecidableEq

/-- An outlet without limits or faults. -/
def unlimited : Outlet where
  room := none
  maxWrite := none
  fault := none
  flushError := none
  shutdownError := none
  log := #[]
  flushes := 0
  closed := false

/-- The bytes that the outlet has taken. -/
def wire (c : Outlet) : Bytes := c.log.toList

/-- The smaller of a number and a limit. -/
def atMost (n : Nat) : Option Nat → Nat
  | none => n
  | some limit => min n limit

/-- How many of `count` offered bytes a call takes that no fault
strikes. -/
def grant (c : Outlet) (count : Nat) : Nat :=
  atMost (atMost (atMost count (c.fault.map fun f => f.1 - c.log.size))
    c.maxWrite) c.room

/-- A write call that no fault strikes. -/
def take (bytes : Bytes) (c : Outlet) : Outcome × Outlet :=
  if c.room = some 0 then (.blocked, c)
  else
    let count := c.grant bytes.length
    (.took count, { c with
      log := c.log.appendList (bytes.take count)
      room := c.room.map (· - count) })

/-- The fault that strikes the next write call. -/
def due (c : Outlet) : Option Fault :=
  c.fault.bind fun f => if f.1 ≤ c.log.size then some f.2 else none

/-- A write call. A call that was interrupted is made again, so one that
is interrupted for ever does not return. -/
def offer (bytes : Bytes) (c : Outlet) : Outcome × Outlet :=
  match c.due with
  | none => c.take bytes
  | some .zero => (.took 0, c)
  | some (.panic message) => (.panicked message, c)
  | some (.error cause once) =>
    let c' := if once then { c with fault := none } else c
    if cause.kind = .interrupted then
      if once then c'.take bytes else (.blocked, c)
    else (.failed cause, c')

/-- A flush call. -/
def flush (c : Outlet) : Option IoError × Outlet :=
  (c.flushError, { c with flushes := c.flushes + 1 })

/-- Shuts the connection down. -/
def shutdown (c : Outlet) : Option IoError × Outlet :=
  (c.shutdownError, { c with closed := true })

/-- Grants `n` bytes more, or any number of them. The first grant to an
outlet without a limit sets one. -/
def grantRoom (n : Option Nat) (c : Outlet) : Outlet :=
  { c with room := n.map (c.room.getD 0 + ·) }

end Outlet

/-- The bytes of a segment that are still to be written. -/
structure Outgoing where
  header : Bytes
  payload : Bytes
deriving DecidableEq

namespace Outgoing

/-- Where writing stands after a write call. -/
inductive Progress where
  | more (rest : Outgoing)
  | done
  | failed (cause : IoError)
  | panicked (message : String)
deriving DecidableEq

def ofSegment (s : Segment) : Outgoing := ⟨s.header.encode, s.wirePayload⟩

def bytes (o : Outgoing) : Bytes := o.header ++ o.payload

/-- What the next write call offers. -/
def next (o : Outgoing) : Bytes :=
  if o.header.isEmpty then o.payload else o.header

/-- What is left after a call that took `count` bytes. -/
def drop (o : Outgoing) (count : Nat) : Outgoing :=
  if o.header.isEmpty then ⟨[], o.payload.drop count⟩
  else ⟨o.header.drop count, o.payload⟩

def isEmpty (o : Outgoing) : Bool := o.header.isEmpty && o.payload.isEmpty

/-- One write call; nothing if the call has to wait. -/
def write (o : Outgoing) (c : Outlet) : Option (Progress × Outlet) :=
  match c.offer o.next with
  | (.blocked, _) => none
  | (.took 0, c) => some (.failed (.ofKind .writeZero), c)
  | (.took count, c) =>
    let rest := o.drop count
    some (if rest.isEmpty then .done else .more rest, c)
  | (.failed cause, c) => some (.failed cause, c)
  | (.panicked message, c) => some (.panicked message, c)

/-- Write calls until all is written, a call fails, or a call has to wait;
at most `fuel` of them. -/
def run : (fuel : Nat) → Outgoing → Outlet → Progress × Outlet
  | 0, o, c => (.more o, c)
  | fuel + 1, o, c =>
    match o.write c with
    | none => (.more o, c)
    | some (.more rest, c) => run fuel rest c
    | some (p, c) => (p, c)

end Outgoing

/-- Writes one segment. -/
def writeSegment (s : Segment) (c : Outlet) : Outgoing.Progress × Outlet :=
  Outgoing.run s.encode.length (.ofSegment s) c

/-- Writes segments until one is not written completely. -/
def writeSegments : List Segment → Outlet → List Outgoing.Progress × Outlet
  | [], c => ([], c)
  | s :: rest, c =>
    match writeSegment s c with
    | (.done, c) =>
      let (results, c) := writeSegments rest c
      (.done :: results, c)
    | (p, c) => ([p], c)

end Stripe
