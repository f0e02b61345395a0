import Stripe.Writer.Crew

/-!
# A writer in use

A session is a writer in the hands of a user who gives one command after
the other. After each command the workers go on until none of them can
move. A call that has to wait stays in flight, and holds the writer, until
it is polled and can finish, or is let go. Before it is let go, it has one
more turn.
-/

namespace Stripe.Writer

structure Session where
  writer : Writer
  /-- The writer was not let go. -/
  present : Bool
deriving DecidableEq

namespace Session

/-- What a user, or a peer, does. -/
inductive Command where
  /-- Begins a call. -/
  | launch (job : Job)
  | room (i : Nat) (n : Option Nat)
  | poll
  | abandon
  | cancel
  | drop
  | stats
deriving DecidableEq

/-- What a command comes to. -/
inductive Reply where
  | ok
  | answer (a : Answer)
  /-- The call stays in flight. -/
  | pending
  /-- Another call is in flight. -/
  | busy
  /-- No call is in flight. -/
  | idle
  /-- The call was let go. -/
  | abandoned
  | dropped (wasAtHand : Bool)
  | stats (s : Stats)
  /-- The writer was let go. -/
  | gone
deriving DecidableEq

def ofWriter (w : Writer) : Session := ⟨w, true⟩

/-- The user has the writer, and no call holds it. -/
def atHand (s : Session) : Bool := s.present && s.writer.call.isNone

/-- The workers go on after a change. -/
def change (f : Writer → Writer) (s : Session) : Session :=
  { s with writer := crew.settle [] (f s.writer) }

/-- What the last call came to, unless it is in flight. -/
def result? (w : Writer) : Option Answer :=
  if w.call.isSome then none else w.answer

/-- The user and the workers go on from `w`. -/
def resume (w : Writer) (s : Session) : Reply × Session :=
  let writer := crew.finishTurns w
  let reply := match result? writer with
    | some a => .answer a
    | none => .pending
  (reply, { s with writer })

/-- The call in flight goes on. -/
def poll (s : Session) : Reply × Session :=
  if s.writer.call.isNone then (.idle, s) else s.resume s.writer

/-- The call in flight has one more turn, and is let go if that is not
enough. -/
def abandon (s : Session) : Reply × Session :=
  if s.writer.call.isNone then (.idle, s)
  else
    let (queue, w) := crew.callTurn s.writer
    match result? w with
    | some a => (.answer a, { s with writer := crew.settle queue w })
    | none => (.abandoned, { s with writer := crew.settle queue w.abandon })

/-- Carries out a command. -/
def perform (s : Session) : Command → Reply × Session
  | .launch job =>
    if !s.present then (.gone, s)
    else match s.writer.launch job with
      | none => (.busy, s)
      | some w => s.resume w
  | .room i n => (.ok, s.change (·.grantRoom i n))
  | .poll => s.poll
  | .abandon => s.abandon
  | .cancel => (.ok, s.change Writer.cancel)
  | .drop =>
    if s.present then
      (.dropped s.atHand, { s.change Writer.drop with present := false })
    else (.dropped false, s)
  | .stats => if s.atHand then (.stats s.writer.stats, s) else (.gone, s)

end Session
end Stripe.Writer
