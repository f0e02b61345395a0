import Stripe.Reader
import Stripe.Schedule

/-!
# How much a reader may still do

A reader is a caller with its workers (`crew`). They make a limited number
of moves before something else has to happen, and `weight` is a bound on
it: each read call but the last few uses up something that has arrived,
and each delivery but the last few uses up a part of the queue. The call
meets no worker, it looks at what they have filed.
-/

namespace Stripe.Reader

/-- What a worker may still do. Bytes count most on the connection, less in
a decoder, and no less in the queue. -/
def Lane.weight (lane : Lane) : Nat :=
  12 * lane.inlet.weight +
    match lane.phase with
    | .reading d => 6 * d.held.length + 18
    | .failing _ => 12
    | .leaving => 6
    | .gone => 0

/-- What a call may still do before it waits, or before it is over if the
reader was stopped. -/
def Stage.weight (stopped : Bool) : Stage → Nat
  | .looking => if stopped then 1 else 2
  | .taking _ => if stopped then 3 else 1
  | .waiting => if stopped then 2 else 0

def callWeight (r : Reader) : Nat :=
  match r.call with
  | none => 0
  | some ⟨_, stage⟩ =>
    1 + stage.weight r.cancelled + if r.wakeup then 3 else 0

/-- A bound on the number of moves. -/
def weight (r : Reader) : Nat :=
  total Lane.weight r.lanes + 6 * r.transmission.load + r.callWeight

/-- How many connections have not ended. -/
def unended (r : Reader) : Nat := r.lanes.countP (!·.inlet.ended)

/-- The call of a reader and its workers. -/
def crew : Crew Reader where
  workers := connections
  work := work
  call := advance
  bound := weight
  meets _ := false

end Stripe.Reader
