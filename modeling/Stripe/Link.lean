import Stripe.Reader.Crew
import Stripe.Writer.Crew

/-!
# A writer and a reader joined by pipes

A link is a writer and a reader with a pipe between each pair of
connections. A pipe holds a limited number of bytes: those on the wire
that the worker at the other end has not read. Bytes are carried along
a pipe in parts of any length, and the room that a reader makes is granted
to the writer in parts of any length, so write calls and read calls may be
cut in every way.

`step` is any move of either side or of a pipe; `complete` goes on until
nobody can move.
-/

namespace Stripe

/-- What a pipe has done so far. -/
structure Pipe where
  /-- How many bytes of the wire have arrived at the other end. -/
  carried : Nat
  /-- For how many bytes that were read room was granted again. -/
  credited : Nat
deriving DecidableEq

structure Link where
  writer : Writer
  reader : Reader
  pipes : List Pipe
deriving DecidableEq

namespace Link

/-- A link over pipes of these capacities. -/
def make (sender receiver : Config) (capacities : List Nat) :
    Except Error Link := do
  let outlets := capacities.map fun room =>
    { Outlet.unlimited with room := some room }
  let writer ← Writer.make outlets sender
  let reader ← Reader.make capacities.length receiver
  return ⟨writer, reader, capacities.map fun _ => ⟨0, 0⟩⟩

def connections (l : Link) : Nat := l.pipes.length

def carried (l : Link) (i : Nat) : Nat :=
  match l.pipes[i]? with
  | some p => p.carried
  | none => 0

def credited (l : Link) (i : Nat) : Nat :=
  match l.pipes[i]? with
  | some p => p.credited
  | none => 0

/-- The bytes on wire `i` that have not arrived. -/
def inFlight (l : Link) (i : Nat) : Bytes := (l.writer.wire i).drop (l.carried i)

/-- How many bytes that have arrived on connection `i` were not read. -/
def unread (l : Link) (i : Nat) : Nat :=
  match l.reader.lanes[i]? with
  | some lane => lane.inlet.unread
  | none => 0

/-- How many bytes were read on connection `i` without room being granted
for them. -/
def freed (l : Link) (i : Nat) : Nat :=
  l.carried i - l.unread i - l.credited i

/-- The wire of connection `i` is complete and has arrived, but the other
end does not know. -/
def isDry (l : Link) (i : Nat) : Bool :=
  match l.writer.lanes[i]?, l.reader.lanes[i]? with
  | some out, some lane =>
    out.outlet.closed && (l.inFlight i).isEmpty && !lane.inlet.ended
  | _, _ => false

/-- The next `n` bytes of wire `i` arrive. -/
def carry (i n : Nat) (l : Link) : Link :=
  { l with
    reader := l.reader.arrive i (·.feed ((l.inFlight i).take n))
    pipes := l.pipes.modify i fun p => { p with carried := p.carried + n } }

/-- Connection `i` is granted room for `n` bytes that were read. -/
def credit (i n : Nat) (l : Link) : Link :=
  { l with
    writer := l.writer.grantRoom i (some n)
    pipes := l.pipes.modify i fun p => { p with credited := p.credited + n } }

/-- Connection `i` ends. -/
def dry (i : Nat) (l : Link) : Link :=
  { l with reader := l.reader.arrive i (·.finish) }

/-- What can happen on a link. -/
inductive Event where
  | send (e : Writer.Event)
  | receive (e : Reader.Event)
  | carry (i n : Nat)
  | credit (i n : Nat)
  | dry (i : Nat)
deriving DecidableEq

/-- Only the pipe grants room. -/
def sendable : Writer.Event → Bool
  | .room .. => false
  | _ => true

/-- Things arrive over the pipe only. -/
def receivable : Reader.Event → Bool
  | .feed .. | .fault .. | .close _ => false
  | _ => true

/-- What happens on the link, if it is possible. -/
def step (l : Link) : Event → Option Link
  | .send e =>
    if sendable e then (l.writer.step e).map ({ l with writer := · }) else none
  | .receive e =>
    if receivable e then (l.reader.step e).map ({ l with reader := · })
    else none
  | .carry i n =>
    if 0 < n && n ≤ (l.inFlight i).length then some (l.carry i n) else none
  | .credit i n =>
    if 0 < n && n ≤ l.freed i then some (l.credit i n) else none
  | .dry i => if l.isDry i then some (l.dry i) else none

/-! ## One order of events -/

/-- All bytes on wire `i` arrive, and the connection ends if it is
complete. -/
def carryRest (l : Link) (i : Nat) : Link :=
  let n := (l.inFlight i).length
  let l := if n = 0 then l else l.carry i n
  if l.isDry i then l.dry i else l

def carryAll (l : Link) : Link :=
  (List.range l.connections).foldl carryRest l

/-- Room is granted for all bytes that were read on connection `i`. -/
def creditRest (l : Link) (i : Nat) : Link :=
  if l.freed i = 0 then l else l.credit i (l.freed i)

def creditAll (l : Link) : Link :=
  (List.range l.connections).foldl creditRest l

/-- The writer goes on as far as it can. -/
def writerTurns (l : Link) : Link :=
  { l with writer := Writer.crew.finishTurns l.writer }

/-- The reader goes on as far as it can. -/
def readerTurns (l : Link) : Link :=
  { l with reader := Reader.crew.finishTurns l.reader }

/-- Each side goes on as far as it can, and what it has done reaches the
other side. -/
def round (l : Link) : Link :=
  l.writerTurns.carryAll.readerTurns.creditAll

/-- Neither side can move. -/
def isQuiet (l : Link) : Bool :=
  let idle (i : Nat) : Bool :=
    (l.writer.work i).isNone && (l.reader.work i).isNone &&
      (l.inFlight i).isEmpty
  l.writer.advance.isNone && l.reader.advance.isNone &&
    (List.range l.connections).all idle

/-- What is still to be done with the bytes of wire `i`: each of them is to
be carried and read, and room is to be granted for it again. -/
def transit (l : Link) (i : Nat) : Nat :=
  25 * ((l.writer.wire i).length - l.carried i) +
    ((l.writer.wire i).length - l.credited i)

/-- A bound on the number of moves. -/
def weight (l : Link) : Nat :=
  27 * l.writer.weight + total l.transit (List.range l.connections) +
    l.reader.unended + l.reader.weight

/-- At most `fuel` rounds, until there is nothing to do in one. -/
def completeWithin : (fuel : Nat) → Link → Link
  | 0, l => l
  | fuel + 1, l =>
    let next := l.round
    if next.weight = l.weight then next else completeWithin fuel next

/-- Goes on until neither side can move. -/
def complete (l : Link) : Link := completeWithin l.weight l

end Link
end Stripe
