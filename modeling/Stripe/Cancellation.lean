/-!
# Cancelling a transfer

A cancellation is shared by its handles. Once any of them trips it, it
stays tripped, and whoever waits for it goes on. A waiter holds the
cancellation by itself, so it outlives the handle that it came from.
-/

namespace Stripe

structure Cancellation where
  tripped : Bool
  /-- The handles given out, and whether each is still held. -/
  handles : List Bool
  /-- The waiters, and whether each still waits. -/
  waiters : List Bool
deriving DecidableEq

namespace Cancellation

/-- A cancellation with one handle. -/
def fresh : Cancellation := ⟨false, [true], []⟩

/-- Handle `i` is held. -/
def held (c : Cancellation) (i : Nat) : Bool := c.handles.getD i false

def cancel (c : Cancellation) : Cancellation := { c with tripped := true }

/-- Gives out one more handle; also tells its number. -/
def clone (c : Cancellation) : Nat × Cancellation :=
  (c.handles.length, { c with handles := c.handles ++ [true] })

def drop (i : Nat) (c : Cancellation) : Cancellation :=
  { c with handles := c.handles.set i false }

/-- Adds a waiter; also tells its number. -/
def wait (c : Cancellation) : Nat × Cancellation :=
  (c.waiters.length, { c with waiters := c.waiters ++ [true] })

/-- Whether waiter `i` may go on; nothing if it has gone on before. -/
def poll (i : Nat) (c : Cancellation) : Option Bool × Cancellation :=
  if !c.waiters.getD i false then (none, c)
  else if c.tripped then (some true, { c with waiters := c.waiters.set i false })
  else (some false, c)

/-- What is done with a handle, or with a waiter. -/
inductive Command where
  | cancel (i : Nat)
  | isCancelled (i : Nat)
  | clone (i : Nat)
  | drop (i : Nat)
  | wait (i : Nat)
  | poll (waiter : Nat)
deriving DecidableEq

/-- What a command comes to. -/
inductive Reply where
  | ok
  | tripped (b : Bool)
  /-- The number of a handle that was given out. -/
  | handle (i : Nat)
  /-- The number of a waiter. -/
  | waiter (i : Nat)
  | pending
  | cancelled
  /-- The handle was dropped, or the waiter has gone on. -/
  | gone
deriving DecidableEq

/-- Carries out a command. -/
def perform (c : Cancellation) : Command → Reply × Cancellation
  | .cancel i => if c.held i then (.ok, c.cancel) else (.gone, c)
  | .isCancelled i => if c.held i then (.tripped c.tripped, c) else (.gone, c)
  | .clone i =>
    if c.held i then
      let (n, c) := c.clone
      (.handle n, c)
    else (.gone, c)
  | .drop i => if c.held i then (.ok, c.drop i) else (.gone, c)
  | .wait i =>
    if c.held i then
      let (n, c) := c.wait
      (.waiter n, c)
    else (.gone, c)
  | .poll i =>
    match c.poll i with
    | (some true, c) => (.cancelled, c)
    | (some false, c) => (.pending, c)
    | (none, c) => (.gone, c)

end Cancellation
end Stripe
