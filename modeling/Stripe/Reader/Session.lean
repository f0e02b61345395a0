import Stripe.Reader.Crew

/-!
# A reader in use

A session is a reader in the hands of a user who gives one command after
the other. After each command the workers go on until none of them can
move. A call that has to wait stays in flight, and holds the reader, until
it is polled and can finish, or is let go. Before it is let go, it has one
more turn.
-/

namespace Stripe.Reader

structure Session where
  reader : Reader
  /-- The reader was neither used up nor let go. -/
  present : Bool
deriving DecidableEq

namespace Session

/-- What a user, or a peer, does. -/
inductive Command where
  | feed (i : Nat) (bytes : Bytes)
  | fault (i : Nat) (cause : IoError)
  | close (i : Nat)
  | read (max : Nat)
  | readToEnd (out : Bytes)
  | message
  | poll
  | abandon
  | cancel
  | drop
  | stats
deriving DecidableEq

/-- What a command comes to. -/
inductive Reply where
  | ok
  | answer (a : Answer)
  /-- The call stays in flight. -/
  | pending
  /-- Another call is in flight. -/
  | busy
  /-- No call is in flight. -/
  | idle
  /-- The call was let go, after what is now `out`. -/
  | abandoned (out : Option Bytes)
  | dropped (wasAtHand : Bool)
  | stats (s : Stats)
  /-- The reader was used up or let go. -/
  | gone
deriving DecidableEq

def ofReader (r : Reader) : Session := ⟨r, true⟩

/-- The user has the reader, and no call holds it. -/
def atHand (s : Session) : Bool := s.present && s.reader.call.isNone

/-- The workers go on after a change. -/
def change (f : Reader → Reader) (s : Session) : Session :=
  { s with reader := crew.settle [] (f s.reader) }

/-- What the last call came to, unless it is in flight. -/
def result? (r : Reader) : Option Answer :=
  if r.call.isSome then none else r.answer

/-- The user and the workers go on from `r`. A call that is over leaves the
reader, unless it has used it up. -/
def resume (usesUp : Bool) (r : Reader) (s : Session) : Reply × Session :=
  let reader := crew.finishTurns r
  match result? reader with
  | some a => (.answer a, ⟨reader, !usesUp⟩)
  | none => (.pending, { s with reader })

/-- The call in flight goes on. -/
def poll (s : Session) : Reply × Session :=
  match s.reader.call with
  | none => (.idle, s)
  | some call => s.resume call.task.usesUp s.reader

/-- Begins a call. -/
def launch (f : Reader → Reader) (s : Session) : Reply × Session :=
  if !s.present then (.gone, s)
  else if s.reader.call.isSome then (.busy, s)
  else
    let r := f s.reader
    s.resume (r.call.any (·.task.usesUp)) r

/-- What a call has added to the buffer of its user. -/
def output? (r : Reader) : Option Bytes :=
  match r.call with
  | some ⟨.stream (.toEnd out _), _⟩ => some out
  | _ => none

/-- The call in flight has one more turn, and is let go if that is not
enough; the reader goes with it if the call uses it up. -/
def abandon (s : Session) : Reply × Session :=
  match s.reader.call with
  | none => (.idle, s)
  | some call =>
    let (queue, r) := crew.callTurn s.reader
    let present := !call.task.usesUp
    match result? r with
    | some a => (.answer a, ⟨crew.settle queue r, present⟩)
    | none => (.abandoned (output? r), ⟨crew.settle queue r.abandon, present⟩)

/-- Carries out a command. -/
def perform (s : Session) : Command → Reply × Session
  | .feed i bytes => (.ok, s.change (·.arrive i (·.feed bytes)))
  | .fault i cause => (.ok, s.change (·.arrive i (·.fail cause)))
  | .close i => (.ok, s.change (·.arrive i (·.finish)))
  | .read max => s.launch (beginRead max)
  | .readToEnd out => s.launch (beginReadToEnd out)
  | .message => s.launch beginMessage
  | .poll => s.poll
  | .abandon => s.abandon
  | .cancel => (.ok, s.change Reader.cancel)
  | .drop =>
    if s.present then
      (.dropped s.atHand, { s.change Reader.drop with present := false })
    else (.dropped false, s)
  | .stats => if s.atHand then (.stats s.reader.stats, s) else (.gone, s)

end Session
end Stripe.Reader
