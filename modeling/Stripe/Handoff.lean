import Stripe.Error
import Stripe.Segment

/-!
# Handing segments to idle workers

A worker that has nothing to do posts a slot, and waits for a segment to
be put into it. The feeder hands each segment to the slot that was posted
first; nothing is stored in between, so a worker that is slow gets fewer
segments. A worker may close its slot again, or leave; the closed slot
keeps its place until the feeder comes upon it and throws it away.
-/

namespace Stripe

/-- The slot of a receiver. -/
inductive Handoff.Slot where
  | unposted
  | posted
  | filled (s : Segment)
deriving DecidableEq

structure Handoff.Receiver where
  /-- The receiver has not left. -/
  present : Bool
  slot : Handoff.Slot
deriving DecidableEq

structure Handoff where
  /-- The most slots that may be queued. -/
  capacity : Nat
  /-- The posted slots, oldest first: the receiver that posted the slot,
  or nothing if the slot was closed since. -/
  ready : List (Option Nat)
  receivers : List Handoff.Receiver
  /-- The feeder has not left. -/
  fed : Bool
deriving DecidableEq

namespace Handoff

/-- A hand-off for `workers` workers, with `receivers` receivers made. -/
def make (workers receivers : Nat) : Handoff where
  capacity := max 1 workers
  ready := []
  receivers := List.replicate receivers ⟨true, .unposted⟩
  fed := true

def present (h : Handoff) (i : Nat) : Bool :=
  match h.receivers[i]? with
  | some r => r.present
  | none => false

def slot (h : Handoff) (i : Nat) : Slot :=
  match h.receivers[i]? with
  | some r => r.slot
  | none => .unposted

def setSlot (i : Nat) (slot : Slot) (h : Handoff) : Handoff :=
  { h with receivers := h.receivers.modify i ({ · with slot }) }

/-- Some receiver has not left. -/
def attended (h : Handoff) : Bool := h.receivers.any (·.present)

/-! ## The feeder -/

/-- What offering a segment comes to. -/
inductive Sent where
  /-- The segment is in the slot of this receiver. -/
  | sent (receiver : Nat)
  /-- No worker is idle. -/
  | pending
  /-- Every receiver has left. -/
  | failed (e : Error)
  /-- The feeder has left. -/
  | gone
deriving DecidableEq

/-- The first open slot of a queue, and the queue behind it. -/
def firstOpen : List (Option Nat) → Option Nat × List (Option Nat)
  | [] => (none, [])
  | none :: rest => firstOpen rest
  | some i :: rest => (some i, rest)

/-- Hands a segment to the slot that was posted first. -/
def send (s : Segment) (h : Handoff) : Sent × Handoff :=
  if !h.fed then (.gone, h)
  else
    match firstOpen h.ready with
    | (some i, ready) => (.sent i, { h with ready }.setSlot i (.filled s))
    | (none, ready) =>
      (if h.attended then .pending else .failed .channelError,
        { h with ready })

/-- The feeder leaves. -/
def close (h : Handoff) : Handoff := { h with fed := false, ready := [] }

/-! ## The workers -/

/-- What asking for a segment comes to. -/
inductive Received where
  | segment (s : Segment)
  | pending
  /-- The feeder has left. -/
  | closed
  /-- The receiver has left. -/
  | gone
deriving DecidableEq

/-- Asks for a segment, and posts a slot if none is posted and there is
room for it. -/
def recv (i : Nat) (h : Handoff) : Received × Handoff :=
  if !h.present i then (.gone, h)
  else match h.slot i with
    | .filled s => (.segment s, h.setSlot i .unposted)
    | .posted =>
      if h.fed then (.pending, h) else (.closed, h.setSlot i .unposted)
    | .unposted =>
      if !h.fed then (.closed, h)
      else if h.ready.length < h.capacity then
        (.pending, { h with ready := h.ready ++ [some i] }.setSlot i .posted)
      else (.pending, h)

/-- Marks the slot of a receiver as closed. -/
def closeSlot (i : Nat) (h : Handoff) : Handoff :=
  { h with
    ready := h.ready.map fun posted => if posted = some i then none else posted }

/-- Closes the slot of a receiver, and takes the segment that is in it. -/
def takePending (i : Nat) (h : Handoff) : Option Segment × Handoff :=
  match h.slot i with
  | .filled s => (some s, h.setSlot i .unposted)
  | .posted => (none, (h.closeSlot i).setSlot i .unposted)
  | .unposted => (none, h)

/-- Makes one more receiver; also tells its number. -/
def clone (h : Handoff) : Nat × Handoff :=
  (h.receivers.length,
    { h with receivers := h.receivers ++ [⟨true, .unposted⟩] })

/-- A receiver leaves, with what is in its slot. -/
def leave (i : Nat) (h : Handoff) : Handoff :=
  { h.closeSlot i with
    receivers := h.receivers.set i ⟨false, .unposted⟩ }

/-! ## Commands -/

/-- What the feeder or a worker does. -/
inductive Command where
  | send (s : Segment)
  | recv (i : Nat)
  | takePending (i : Nat)
  | clone (i : Nat)
  | leave (i : Nat)
  | close
deriving DecidableEq

/-- What a command comes to. -/
inductive Reply where
  | sent (r : Sent)
  | received (r : Received)
  | taken (s : Option Segment)
  /-- The number of a receiver that was made. -/
  | made (i : Nat)
  /-- Whether who left had not left before. -/
  | dropped (wasPresent : Bool)
  /-- The receiver has left. -/
  | gone
deriving DecidableEq

/-- Carries out a command. -/
def perform (h : Handoff) : Command → Reply × Handoff
  | .send s =>
    let (r, h) := h.send s
    (.sent r, h)
  | .recv i =>
    let (r, h) := h.recv i
    (.received r, h)
  | .takePending i =>
    if !h.present i then (.gone, h)
    else
      let (s, h) := h.takePending i
      (.taken s, h)
  | .clone i =>
    if !h.present i then (.gone, h)
    else
      let (n, h) := h.clone
      (.made n, h)
  | .leave i =>
    if h.present i then (.dropped true, h.leave i) else (.dropped false, h)
  | .close => (.dropped h.fed, h.close)

end Handoff
end Stripe
