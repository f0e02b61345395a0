import Stripe.Error
import Stripe.Segment

/-!
# Segments that wait for their turn

Segments arrive on several connections in any order. The queue keeps those
whose turn has not come, in the order of their offsets, at most one for
each offset, together with the number of payload bytes that it holds.
-/

namespace Stripe

structure Queue where
  /-- The queued segments, by increasing offset. -/
  segments : List Segment
  /-- The number of payload bytes in the queue. -/
  queuedBytes : Nat
deriving DecidableEq

namespace Queue

def empty : Queue := ⟨[], 0⟩

/-- Puts a segment before the first one of a greater offset. -/
def insert (s : Segment) : List Segment → List Segment
  | [] => [s]
  | t :: ts => if s.offset < t.offset then s :: t :: ts else t :: insert s ts

/-- A segment of this offset is queued. -/
def holds (q : Queue) (offset : Nat) : Bool :=
  q.segments.any fun t => t.offset == offset

/-- Queues a segment, unless one of the same offset is queued. -/
def push (s : Segment) (q : Queue) : Except Error Unit × Queue :=
  if q.holds s.offset then (.error (.duplicateOffset s.offset), q)
  else (.ok (), ⟨insert s q.segments, q.queuedBytes + s.length⟩)

/-- The segment of the smallest offset. -/
def peek? (q : Queue) : Option Segment := q.segments.head?

/-- Takes the segment of the smallest offset out of the queue. -/
def pop (q : Queue) : Option Segment × Queue :=
  match q.segments with
  | [] => (none, q)
  | s :: rest => (some s, ⟨rest, q.queuedBytes - s.length⟩)

def size (q : Queue) : Nat := q.segments.length

def isEmpty (q : Queue) : Bool := q.segments.isEmpty

/-- The smallest queued offset. -/
def min? (q : Queue) : Option Nat := q.peek?.map Segment.offset

/-- What is done with a queue. -/
inductive Command where
  | push (s : Segment)
  | pop
  | peek
deriving DecidableEq

/-- What a command comes to. -/
inductive Reply where
  | pushed (r : Except Error Unit)
  | segment (s : Option Segment)

/-- Carries out a command. -/
def perform (q : Queue) : Command → Reply × Queue
  | .push s =>
    let (r, q) := q.push s
    (.pushed r, q)
  | .pop =>
    let (s, q) := q.pop
    (.segment s, q)
  | .peek => (.segment q.peek?, q)

@[simp] theorem segments_empty : empty.segments = [] := rfl

theorem mem_insert {s t : Segment} {l : List Segment} :
    t ∈ insert s l ↔ t = s ∨ t ∈ l := by
  induction l with
  | nil => simp [insert]
  | cons u l ih =>
    simp only [insert]
    split
    · simp
    · simp [ih, or_left_comm]

theorem push_of_holds {q : Queue} {s : Segment} (h : q.holds s.offset) :
    q.push s = (.error (.duplicateOffset s.offset), q) := by
  simp [push, h]

theorem push_of_free {q : Queue} {s : Segment}
    (h : q.holds s.offset = false) :
    q.push s =
      (.ok (), ⟨insert s q.segments, q.queuedBytes + s.length⟩) := by
  simp [push, h]

end Queue
end Stripe
