import Stripe.Transmission
import Stripe.Stats

/-!
# Filing segments at the receiver

The intake is what all connections of a receiver share: the state of the
transfer and the statistics. `accept` files one segment in it. A control
segment must announce the number of connections, and no payload; payloads
are queued or placed; a terminal segment ends its connection.
-/

namespace Stripe

/-- How payloads are filed. -/
inductive Mode where
  /-- They are queued and delivered in order. -/
  | stream
  /-- They are placed into one message. -/
  | collect
deriving DecidableEq

/-- What all connections of a receiver share. -/
structure Intake where
  transmission : Transmission
  stats : Stats
deriving DecidableEq, Inhabited

namespace Intake

/-- Announced numbers of connections are below this. -/
def countLimit : Nat := UInt32.size

/-- A connection has ended. -/
def endConnection (id : Nat) (b : Intake) : Intake where
  transmission := (b.transmission.ackEod id).2
  stats := b.stats.recordTerminal id

/-- Ends the connection if its last segment has come; tells whether more
segments are to come. -/
def conclude (id : Nat) (terminal : Bool) (b : Intake) :
    Except Error Bool × Intake :=
  if terminal then (.ok false, b.endConnection id) else (.ok true, b)

/-- Files a control segment. -/
def acceptControl (connections id : Nat) (h : Header) (b : Intake) :
    Except Error Bool × Intake :=
  let total := h.offsetCount.toNat
  if h.byteCount ≠ 0 then (.error (.unexpectedPayload h.byteCount.toNat), b)
  else if countLimit ≤ total then (.error (.invalidEodCount total), b)
  else
    match b.transmission.setEodTotal total with
    | (.error e, t) => (.error e, { b with transmission := t })
    | (.ok (), t) =>
      let b := { b with transmission := t }
      if total ≠ connections then
        (.error (.eodCountMismatch total connections), b)
      else
        conclude id h.isTerminal
          { b with stats := b.stats.recordControl id }

/-- Files a payload, by the way that the receiver goes. -/
def store (mode : Mode) (s : Segment) (t : Transmission) :
    Except Error Unit × Transmission :=
  match mode with
  | .stream => t.push s
  | .collect => t.place s.offset s.payload

/-- Files a segment that carries data, or nothing but its flags. -/
def acceptData (id : Nat) (mode : Mode) (s : Segment) (b : Intake) :
    Except Error Bool × Intake :=
  if s.isEmpty then conclude id s.isTerminal b
  else
    let (result, transmission) := store mode s b.transmission
    let b := ⟨transmission, b.stats.recordSegment id s.length⟩
    match result with
    | .error e => (.error e, b)
    | .ok () => conclude id s.isTerminal b

/-- Files a segment that came on connection `id`; tells whether more
segments are to come on it. -/
def accept (connections id : Nat) (mode : Mode) (s : Segment) (b : Intake) :
    Except Error Bool × Intake :=
  if s.isControl then b.acceptControl connections id s.header
  else b.acceptData id mode s

end Intake
end Stripe
