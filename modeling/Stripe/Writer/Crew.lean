import Stripe.Schedule
import Stripe.Writer

/-!
# How much a writer may still do

A writer is a caller with its workers (`crew`). They make a limited number
of moves before something else has to happen, and `weight` is a bound on
it: each write call takes a byte of a segment that the worker has or was
handed, and the call takes some moves for each segment and for each worker
that leaves.
-/

namespace Stripe.Writer

/-- What a worker may still do before it is handed something, and to end
its connection. -/
def Phase.effort : Phase → Nat
  | .unstarted | .idle => 2 * Header.size + 4
  | .asking => 2 * Header.size + 3
  | .writing _ rest _ => 2 * rest.bytes.length + 2 * Header.size + 4
  | .ending rest => 2 * rest.bytes.length + 1
  | .flushing => 1
  | .gone | .lost _ => 0

/-- What a worker has to do with its slot. -/
def slotEffort : Handoff.Slot → Nat
  | .unposted => 1
  | .posted => 0
  | .filled s => 2 * s.encode.length + 3

/-- What is to be done of a job by a writer to `n` connections. A byte
takes the most if it has a segment of its own. -/
def Job.effort (n : Nat) : Job → Nat
  | .write bytes => 41 * bytes.length + 2
  | .wrote _ => 1
  | .writeAll rest => 41 * rest.length + 1
  | .copy source _ ended last =>
    41 * (Inlet.script source).unread + (if ended then 1 else 2) +
      if last then 2 * n + 2 * Header.size + 9 else 0
  | .finish _ => 2 * n + 4

/-- What the owner of a barrier for `n` workers has to do. -/
def ownerEffort (n : Nat) : Barrier.Owner → Nat
  | .begun => n + 1
  | .waiting received => n - received
  | _ => 0

def callEffort (w : Writer) : Nat :=
  match w.call with
  | none => 0
  | some (.opening job) => 2 * Header.size + 5 + job.effort w.connections
  | some (.offering s job) =>
    2 * s.encode.length + 4 + job.effort w.connections
  | some (.working job) => job.effort w.connections
  | some (.stopping ..) =>
    w.connections + 2 + ownerEffort w.connections w.barrier.owner
  | some (.shutting next ..) => w.connections - next + 1

/-- What worker `i` may still do. -/
def effortAt (w : Writer) (i : Nat) : Nat :=
  (match w.phases[i]? with
    | some phase => phase.effort
    | none => 0) + slotEffort (w.handoff.slot i)

/-- A bound on the number of moves. -/
def weight (w : Writer) : Nat :=
  total w.effortAt (List.range w.connections) + w.callEffort

/-- The call of a writer and its workers. -/
def crew : Crew Writer where
  workers := connections
  work := work
  call := advance
  bound := weight
  meets := meets

end Stripe.Writer
