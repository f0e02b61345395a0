/-!
# Stopping all workers

The owner of a barrier tells every worker to stop and waits until all of
them have answered. Each worker holds a signal: it learns from it whether
it has been told to stop, and gives it back either with an acknowledgement
or, if the worker is lost, without one.

The tokens that tell the workers to stop are sent when the owner is first
polled. If the owner leaves before that, the workers learn that they will
never be told.
-/

namespace Stripe

/-- What a worker finds at its end of the barrier. -/
inductive Barrier.Token where
  | waiting
  | sent
  /-- No token will be sent. -/
  | lost
deriving DecidableEq

structure Barrier.Signal where
  token : Barrier.Token
  /-- What the worker has learned: whether it was told to stop. -/
  learned : Option Bool
  /-- The worker has not given the signal back. -/
  held : Bool
deriving DecidableEq

/-- The owner's side of a barrier. -/
inductive Barrier.Owner where
  | idle
  /-- The rendezvous was begun, but its owner was not polled yet. -/
  | begun
  /-- The tokens were sent, and this many acknowledgements came in. -/
  | waiting (received : Nat)
  | released
deriving DecidableEq

structure Barrier where
  /-- The most acknowledgements that may wait to be counted. -/
  capacity : Nat
  signals : List Barrier.Signal
  owner : Barrier.Owner
  /-- The acknowledgements that wait to be counted. -/
  inbox : List Nat
deriving DecidableEq

namespace Barrier

def make (workers : Nat) : Barrier where
  capacity := max 1 workers
  signals := List.replicate workers ⟨.waiting, none, true⟩
  owner := .idle
  inbox := []

def workers (b : Barrier) : Nat := b.signals.length

/-- Worker `i` has not given its signal back. -/
def held (b : Barrier) (i : Nat) : Bool :=
  match b.signals[i]? with
  | some s => s.held
  | none => false

/-- Some signal was not given back. -/
def attended (b : Barrier) : Bool := b.signals.any (·.held)

/-! ## The workers -/

/-- What asking whether to stop comes to. -/
inductive Verdict where
  | pending
  | stop (told : Bool)
  /-- The signal was given back. -/
  | gone
deriving DecidableEq

/-- Asks whether to stop. What was learned once is learned for good. -/
def shouldStop (i : Nat) (b : Barrier) : Verdict × Barrier :=
  match b.signals[i]? with
  | none => (.gone, b)
  | some s =>
    if !s.held then (.gone, b)
    else match s.learned, s.token with
      | some told, _ => (.stop told, b)
      | none, .waiting => (.pending, b)
      | none, .sent =>
        (.stop true,
          { b with signals := b.signals.set i { s with learned := some true } })
      | none, .lost =>
        (.stop false,
          { b with signals := b.signals.set i { s with learned := some false } })

def giveBack (i : Nat) (b : Barrier) : Barrier :=
  { b with signals := b.signals.modify i ({ · with held := false }) }

/-- Gives a signal back with an acknowledgement, which is lost if too many
wait to be counted. -/
def done (i : Nat) (b : Barrier) : Barrier :=
  { b.giveBack i with
    inbox := if b.inbox.length < b.capacity then b.inbox ++ [i] else b.inbox }

/-! ## The owner -/

/-- What waiting for the workers comes to. -/
inductive Rendezvous where
  | pending
  | acknowledged (count : Nat)
  | gone
deriving DecidableEq

/-- Decides the tokens that were not sent yet. -/
def settle (token : Token) (b : Barrier) : Barrier :=
  { b with signals := b.signals.map fun s =>
      if s.token = .waiting then { s with token } else s }

/-- Begins the rendezvous; nothing happens until the owner is polled. -/
def start (b : Barrier) : Barrier :=
  if b.owner = .idle then { b with owner := .begun } else b

/-- Sends the tokens of a rendezvous that was begun. -/
def announce (b : Barrier) : Barrier :=
  { b.settle .sent with owner := .waiting 0 }

/-- Counts one more acknowledgement, or finds that no more will come. Tells
how many were counted, once that is all of them; nothing if none has come
in yet. -/
def count (b : Barrier) : Option (Option Nat × Barrier) :=
  match b.owner, b.inbox with
  | .waiting received, _ :: inbox =>
    let received := received + 1
    if b.workers ≤ received then
      some (some received, { b with inbox, owner := .released })
    else some (none, { b with inbox, owner := .waiting received })
  | .waiting received, [] =>
    if b.attended then none
    else some (some received, { b with owner := .released })
  | _, _ => none

/-- Counts acknowledgements until it has to wait for one, at most `fuel` of
them. -/
def countAll : (fuel : Nat) → Barrier → Rendezvous × Barrier
  | 0, b => (.pending, b)
  | fuel + 1, b =>
    match b.count with
    | none => (.pending, b)
    | some (some received, b) => (.acknowledged received, b)
    | some (none, b) => countAll fuel b

/-- Polls the owner: sends the tokens the first time, then counts the
acknowledgements. Ready once all signals were given back. -/
def poll (b : Barrier) : Rendezvous × Barrier :=
  match b.owner with
  | .begun => countAll (b.inbox.length + 1) b.announce
  | .waiting _ => countAll (b.inbox.length + 1) b
  | _ => (.gone, b)

/-- The owner leaves; tells whether it was there. -/
def release (b : Barrier) : Bool × Barrier :=
  match b.owner with
  | .released => (false, b)
  | .waiting _ => (true, { b with owner := .released })
  | _ => (true, { b.settle .lost with owner := .released })

/-! ## Commands -/

/-- What the owner or a worker does. -/
inductive Command where
  | start
  | poll
  | release
  | shouldStop (i : Nat)
  | done (i : Nat)
  | drop (i : Nat)
deriving DecidableEq

/-- What a command comes to. -/
inductive Reply where
  | started
  | rendezvous (r : Rendezvous)
  | verdict (v : Verdict)
  | done
  /-- Whether what was dropped was there. -/
  | dropped (wasHeld : Bool)
  /-- The signal was given back. -/
  | gone
deriving DecidableEq

/-- Carries out a command. -/
def perform (b : Barrier) : Command → Reply × Barrier
  | .start => (.started, b.start)
  | .poll =>
    let (r, b) := b.poll
    (.rendezvous r, b)
  | .release =>
    let (r, b) := b.release
    (.dropped r, b)
  | .shouldStop i =>
    let (v, b) := b.shouldStop i
    (.verdict v, b)
  | .done i => if b.held i then (.done, b.done i) else (.gone, b)
  | .drop i =>
    if b.held i then (.dropped true, b.giveBack i) else (.dropped false, b)

end Barrier
end Stripe
