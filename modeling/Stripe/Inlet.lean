import Stripe.Error
import Stripe.Word

/-!
# The readable end of a connection

An inlet holds what has arrived and was not read yet: chunks of bytes, and
faults at the places where a read will fail. A read takes bytes from one
chunk only, so how the bytes were cut into chunks decides how much each
read returns; `content_read` says that it decides nothing else.
-/

namespace Stripe

/-- What arrives on a connection. -/
inductive Inlet.Item where
  | chunk (bytes : Bytes)
  /-- One read fails at this place. -/
  | fault (cause : IoError)
deriving DecidableEq

structure Inlet where
  items : List Inlet.Item
  /-- Nothing arrives any more. -/
  ended : Bool
deriving DecidableEq

namespace Inlet

/-- What one read call comes to. -/
inductive Outcome where
  | bytes (taken : Bytes)
  | failed (cause : IoError)
  | ended
  /-- Nothing is there yet. -/
  | blocked
deriving DecidableEq

/-- A connection on which nothing has arrived. -/
def empty : Inlet := ⟨[], false⟩

/-- A connection on which `items` arrive and nothing else. -/
def script (items : List Item) : Inlet := ⟨items, true⟩

/-- One read call with room for `max` bytes. Empty chunks are skipped. -/
def readItems (max : Nat) (ended : Bool) : List Item → Outcome × Inlet
  | [] => (if ended then .ended else .blocked, ⟨[], ended⟩)
  | .fault cause :: items => (.failed cause, ⟨items, ended⟩)
  | .chunk [] :: items => readItems max ended items
  | .chunk (b :: bs) :: items =>
    (.bytes ((b :: bs).take max), ⟨.chunk ((b :: bs).drop max) :: items, ended⟩)

def read (max : Nat) (c : Inlet) : Outcome × Inlet :=
  readItems max c.ended c.items

def feed (bytes : Bytes) (c : Inlet) : Inlet :=
  { c with items := c.items ++ [.chunk bytes] }

def fail (cause : IoError) (c : Inlet) : Inlet :=
  { c with items := c.items ++ [.fault cause] }

def finish (c : Inlet) : Inlet := { c with ended := true }

def Item.bytes : Item → Bytes
  | .chunk bs => bs
  | .fault _ => []

/-- The bytes that were not read yet. -/
def content (c : Inlet) : Bytes := c.items.flatMap Item.bytes

/-- How many bytes were not read yet. -/
def unread (c : Inlet) : Nat := c.content.length

/-- A bound on the number of reads that return something. -/
def weight (c : Inlet) : Nat := c.unread + c.items.length

/-- The bytes that a read call returns. -/
def Outcome.taken : Outcome → Bytes
  | .bytes bs => bs
  | _ => []

/-- A read returns the first bytes of the content and leaves the others. -/
theorem content_read (max : Nat) (c : Inlet) :
    (c.read max).1.taken ++ (c.read max).2.content = c.content := by
  obtain ⟨items, ended⟩ := c
  simp only [read]
  induction items with
  | nil => cases ended <;> rfl
  | cons item items ih =>
    match item with
    | .fault cause => rfl
    | .chunk [] => simpa [readItems, content, Item.bytes] using ih
    | .chunk (b :: bs) =>
      simp only [readItems, Outcome.taken, content, List.flatMap_cons,
        Item.bytes]
      rw [← List.append_assoc, List.take_append_drop]

/-- A read returns no more than it has room for. -/
theorem length_taken_le (max : Nat) (c : Inlet) :
    (c.read max).1.taken.length ≤ max := by
  obtain ⟨items, ended⟩ := c
  simp only [read]
  induction items with
  | nil => cases ended <;> exact Nat.zero_le max
  | cons item items ih =>
    match item with
    | .fault cause => exact Nat.zero_le max
    | .chunk [] => exact ih
    | .chunk (b :: bs) => exact List.length_take_le max (b :: bs)

end Inlet
end Stripe
