import Stripe.Link

/-!
# A transfer from one user to another

At each end of a link a user makes one call after the other. The sending
user hands over its bytes, and then finishes; the receiving user reads
until the stream ends. A transfer runs both users and the link until
neither user has a call left that it can make.
-/

namespace Stripe

/-- The user at the sending end. -/
structure Sender where
  /-- Bytes to send by write calls of one segment each. -/
  pieces : Bytes
  /-- The calls to make after that. -/
  calls : List Writer.Job
  /-- How many bytes each write call has sent. -/
  lengths : List Nat
deriving DecidableEq

namespace Sender

/-- Sends all bytes by one call. -/
def whole (bytes : Bytes) : Sender := ⟨[], [.writeAll bytes, .finish none], []⟩

/-- Sends what a source yields, and finishes, by one call. -/
def fromSource (source : List Inlet.Item) : Sender :=
  ⟨[], [.copy source 0 false true], []⟩

/-- Sends the bytes by one call for each segment. -/
def piecewise (bytes : Bytes) : Sender := ⟨bytes, [.finish none], []⟩

/-- Takes note of what the last call came to. -/
def note (answer : Option Writer.Answer) (u : Sender) : Sender :=
  match answer with
  | some (.wrote n) =>
    { u with pieces := u.pieces.drop n, lengths := u.lengths ++ [n] }
  | some (.failed _) => { u with pieces := [], calls := [] }
  | _ => u

/-- Makes the next call, if the last one is over. -/
def next (u : Sender) (w : Writer) : Sender × Writer :=
  if w.call.isSome then (u, w)
  else
    let u := u.note w.answer
    match u.pieces, u.calls with
    | [], [] => (u, w)
    | [], job :: calls => ({ u with calls }, w.setCall (.opening job))
    | bytes, _ => (u, w.setCall (.opening (.write bytes)))

/-- What a call adds to the weight of a link with `n` connections. -/
def cost (n : Nat) (job : Writer.Job) : Nat :=
  27 * (2 * Header.size + 5 + job.effort n)

/-- What the user may still do over `n` connections: its calls, and what
they add to the weight of the link. -/
def weight (n : Nat) (u : Sender) : Nat :=
  u.pieces.length * (cost n (.write u.pieces) + 1) +
    total (fun job => cost n job + 1) u.calls

/-- What is left to do after the call in flight; a write call sends at
least a byte. -/
def rest (w : Writer) (u : Sender) : Sender :=
  if w.call.isSome then { u with pieces := u.pieces.tail }
  else u.note w.answer

end Sender

/-- What the user at the receiving end calls for. -/
inductive Receiver.Goal where
  /-- All bytes, by one call. -/
  | toEnd
  /-- The message, by one call. -/
  | message
  /-- At most so many bytes, by each call until the stream ends. -/
  | pieces (max : Nat)
deriving DecidableEq

/-- The user at the receiving end. -/
structure Receiver where
  goal : Receiver.Goal
  begun : Bool
  /-- What each read call has returned. -/
  chunks : List Bytes
deriving DecidableEq

namespace Receiver

def ofGoal (goal : Goal) : Receiver := ⟨goal, false, []⟩

/-- Makes the next call, if the last one is over and was not the last. -/
def next (u : Receiver) (r : Reader) : Receiver × Reader :=
  if r.call.isSome then (u, r)
  else
    match u.goal, u.begun, r.answer with
    | .toEnd, false, _ => ({ u with begun := true }, r.beginReadToEnd [])
    | .message, false, _ => ({ u with begun := true }, r.beginMessage)
    | .pieces max, false, _ => ({ u with begun := true }, r.beginRead max)
    | .pieces max, true, some (.bytes (b :: bs)) =>
      ({ u with chunks := u.chunks ++ [b :: bs] }, r.beginRead max)
    | _, _, _ => (u, r)

/-- What the user may still do: a call if it has made none, and another one
if the last one has returned something. -/
def weight (r : Reader) (u : Receiver) : Nat :=
  (if u.begun then 0 else 7) +
    match r.call, r.answer with
    | none, some (.bytes (_ :: _)) => 7
    | _, _ => 0

end Receiver

/-- Two users and the link between them. -/
structure Transfer where
  link : Link
  sender : Sender
  receiver : Receiver
deriving DecidableEq

namespace Transfer

/-- What the last call of the sending user came to. -/
def sent (t : Transfer) : Option Writer.Answer := t.link.writer.answer

/-- What the last call of the receiving user came to. -/
def received (t : Transfer) : Option Reader.Answer := t.link.reader.answer

/-- The sending user makes its next call, if the last one is over and there
is one to make. -/
def send (t : Transfer) : Transfer :=
  let (sender, writer) := t.sender.next t.link.writer
  if t.link.writer.call.isNone && writer.call.isSome then
    { t with link := { t.link with writer }, sender }
  else t

/-- The receiving user makes its next call, if the last one is over and
there is one to make. -/
def receive (t : Transfer) : Transfer :=
  let (receiver, reader) := t.receiver.next t.link.reader
  if t.link.reader.call.isNone && reader.call.isSome then
    { t with link := { t.link with reader }, receiver }
  else t

/-- The link goes on as far as it can. -/
def rest (t : Transfer) : Transfer := { t with link := t.link.complete }

/-- A bound on the number of calls and moves. -/
def weight (t : Transfer) : Nat :=
  t.link.weight + (t.sender.rest t.link.writer).weight t.link.connections +
    t.receiver.weight t.link.reader

/-- The link rests, and then the users make their next calls, at most
`fuel` times. -/
def runWithin : (fuel : Nat) → Transfer → Transfer
  | 0, t => t
  | fuel + 1, t =>
    let rested := t.rest
    let next := rested.send.receive
    if next.weight = rested.weight then rested else runWithin fuel next

/-- Runs until no user has a call left that it can make. -/
def run (t : Transfer) : Transfer := runWithin t.weight t

end Transfer
end Stripe
