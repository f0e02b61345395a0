import Stripe.Config
import Stripe.Queue

/-!
# The state of a transfer at the receiver

Payloads are filed in one of two ways. In order: `push` queues a segment,
and `nextDelivery` hands out the bytes at the cursor. By place: `place`
copies a payload to its offset in a buffer, and `toMessage` returns the
buffer once it has no hole. Either way the transfer is complete when as
many connections have sent their terminal segment as were announced.
-/

namespace Stripe

/-- A range of the stream that holds placed bytes. -/
structure Span where
  start : Nat
  stop : Nat
deriving DecidableEq

structure Transmission where
  /-- The buffer of the collected message; bytes never placed are zero. -/
  buffer : Array UInt8
  /-- The largest end of a placed range. -/
  writtenLen : Nat
  /-- The placed ranges, by increasing start. -/
  placed : List Span
  /-- The announced number of connections. -/
  eodTotal : Option Nat
  /-- The connections that have sent a terminal segment. -/
  eodAcks : List Nat
  queue : Queue
  /-- How many bytes were delivered in order. -/
  cursor : Nat
deriving DecidableEq

/-- What can be delivered in order. -/
inductive Delivery where
  /-- The bytes at the cursor. -/
  | ready (bytes : Bytes)
  /-- The next segment has not arrived. -/
  | pending
  /-- The stream ends at the cursor. -/
  | finished
deriving DecidableEq

namespace Transmission

/-- The state before anything has arrived. -/
def withCapacity (capacity : Nat) : Transmission where
  buffer := Array.replicate (max capacity Config.minBufferCapacity) 0
  writtenLen := 0
  placed := []
  eodTotal := none
  eodAcks := []
  queue := .empty
  cursor := 0

def fresh : Transmission := withCapacity Config.minBufferCapacity

instance : Inhabited Transmission := ⟨fresh⟩

def capacity (t : Transmission) : Nat := t.buffer.size

/-- How many bytes wait in the queue. -/
def load (t : Transmission) : Nat :=
  (Segment.joined t.queue.segments).length

/-! ## Completion -/

/-- Notes the announced number of connections. It may be announced again,
but not changed. -/
def setEodTotal (total : Nat) (t : Transmission) :
    Except Error Unit × Transmission :=
  match t.eodTotal with
  | none => (.ok (), { t with eodTotal := some total })
  | some existing =>
    if existing = total then (.ok (), t)
    else (.error (.conflictingEodCount existing total), t)

/-- Notes a terminal segment of a connection; tells whether it is the first
one. -/
def ackEod (connection : Nat) (t : Transmission) : Bool × Transmission :=
  if t.eodAcks.contains connection then (false, t)
  else (true, { t with eodAcks := connection :: t.eodAcks })

/-- As many connections have ended as were announced. -/
def completed (t : Transmission) : Bool :=
  t.eodTotal == some t.eodAcks.length

/-! ## Collecting by place -/

/-- Makes room for `len` bytes at `offset`: the buffer at least doubles
when it grows, and never shrinks. -/
def ensureCapacity (offset len : Nat) (t : Transmission) :
    Except Error Unit × Transmission :=
  let required := offset + len
  if maxCount < required then (.error (.bufferOverflow maxCount), t)
  else if t.capacity < required then
    let grown := max required (min maxCount (2 * t.capacity))
    (.ok (), { t with
      buffer := t.buffer ++ Array.replicate (grown - t.capacity) 0 })
  else (.ok (), t)

/-- The last placed range that starts at or before `offset`. -/
def floor? (offset : Nat) (placed : List Span) : Option Span :=
  (placed.filter fun r => r.start ≤ offset).getLast?

/-- The first placed range that starts after `offset`. -/
def above? (offset : Nat) (placed : List Span) : Option Span :=
  placed.find? fun r => offset < r.start

/-- Why the range from `offset` to `stop` cannot be placed. -/
def conflict? (offset stop : Nat) (placed : List Span) : Option Error :=
  let before := (floor? offset placed).bind fun r =>
    if r.start = offset then some (.duplicateOffset offset)
    else if offset < r.stop then some (.overlappingSegment offset r.start)
    else none
  let after := (above? offset placed).bind fun r =>
    if r.start < stop then some (.overlappingSegment offset r.start)
    else none
  before.or after

/-- Puts a range before the first one of a greater start. -/
def insertSpan (r : Span) : List Span → List Span
  | [] => [r]
  | s :: rest =>
    if r.start < s.start then r :: s :: rest else s :: insertSpan r rest

/-- Overwrites a buffer from position `start` on. -/
def write (start : Nat) : Bytes → Array UInt8 → Array UInt8
  | [], buffer => buffer
  | b :: bs, buffer => write (start + 1) bs (buffer.setIfInBounds start b)

/-- Copies a payload to its place. Placed ranges do not meet. -/
def place (offset : Nat) (bytes : Bytes) (t : Transmission) :
    Except Error Unit × Transmission :=
  if bytes.isEmpty then (.ok (), t)
  else
    let stop := offset + bytes.length
    if maxCount < stop then (.error (.bufferOverflow maxCount), t)
    else match conflict? offset stop t.placed with
    | some e => (.error e, t)
    | none =>
      match t.ensureCapacity offset bytes.length with
      | (.error e, t) => (.error e, t)
      | (.ok (), t) =>
        (.ok (), { t with
          buffer := write offset bytes t.buffer
          writtenLen := max t.writtenLen stop
          placed := insertSpan ⟨offset, stop⟩ t.placed })

/-- The first hole that the placed ranges leave after `filled`, with the
start of the range behind it. -/
def hole? (filled : Nat) : List Span → Option (Nat × Nat)
  | [] => none
  | r :: rest =>
    if r.start = filled then hole? r.stop rest else some (filled, r.start)

/-- The collected message, if it has no hole. -/
def toMessage (t : Transmission) : Except Error Bytes :=
  match hole? 0 t.placed with
  | some (filled, start) => .error (.gap filled (some start))
  | none => .ok (t.buffer.take t.writtenLen).toList

/-! ## Delivery in order -/

/-- Queues a segment. Bytes that were delivered are not taken again. -/
def push (s : Segment) (t : Transmission) : Except Error Unit × Transmission :=
  if s.offset < t.cursor then
    (.error (.offsetBelowCursor s.offset t.cursor), t)
  else
    let (result, queue) := t.queue.push s
    (result, { t with queue })

/-- Hands out at most `max` bytes of the segment at the cursor, and queues
the rest of it again. -/
def deliver (max : Nat) (t : Transmission) :
    Except Error Delivery × Transmission :=
  match t.queue.pop with
  | (none, _) => (.ok .pending, t)
  | (some s, queue) =>
    let (front, rest) := s.splitFront max
    let (result, queue) :=
      if rest.isEmpty then (.ok (), queue) else queue.push rest
    match result with
    | .error e => (.error e, { t with queue })
    | .ok () =>
      (.ok (.ready front.payload),
        { t with queue, cursor := t.cursor + front.length })

/-- The next bytes of the stream, at most `max` of them. -/
def nextDelivery (max : Nat) (t : Transmission) :
    Except Error Delivery × Transmission :=
  match t.queue.min? with
  | none => (.ok (if t.completed then .finished else .pending), t)
  | some next =>
    if next < t.cursor then (.error (.offsetBelowCursor next t.cursor), t)
    else if t.cursor < next then
      (if t.completed then .error (.gap t.cursor (some next))
        else .ok .pending, t)
    else t.deliver max

/-! ## Commands -/

/-- What is done with the state of a transfer. -/
inductive Command where
  | place (offset : Nat) (bytes : Bytes)
  | ensureCapacity (offset len : Nat)
  | setEodTotal (total : Nat)
  | ackEod (connection : Nat)
  | push (s : Segment)
  | next (max : Nat)
deriving DecidableEq

/-- What a command comes to. -/
inductive Reply where
  | result (r : Except Error Unit)
  | first (b : Bool)
  | delivery (r : Except Error Delivery)

/-- Carries out a command. -/
def perform (t : Transmission) : Command → Reply × Transmission
  | .place offset bytes =>
    let (r, t) := t.place offset bytes
    (.result r, t)
  | .ensureCapacity offset len =>
    let (r, t) := t.ensureCapacity offset len
    (.result r, t)
  | .setEodTotal total =>
    let (r, t) := t.setEodTotal total
    (.result r, t)
  | .ackEod connection =>
    let (r, t) := t.ackEod connection
    (.first r, t)
  | .push s =>
    let (r, t) := t.push s
    (.result r, t)
  | .next max =>
    let (r, t) := t.nextDelivery max
    (.delivery r, t)

@[simp] theorem completed_fresh : fresh.completed = false := rfl

end Transmission
end Stripe
