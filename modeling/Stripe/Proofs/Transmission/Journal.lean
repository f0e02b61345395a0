import Stripe.Proofs.Collection

/-!
# The journal of a transfer

Beside the state of a transfer at the receiver a journal is kept of what
its users have seen of it: which segments were queued, which bytes were
handed out, and which payloads were placed. A refused segment or payload is
not entered, and every command may come at any time.

What the commands do to delivery is told once: `Journal.turns` says how the
queue, the cursor and the journal move together, and what holds of delivery
after all commands is proved along it (`course_induction`).
-/

namespace Stripe

open Segment

/-- The queue knows how many payload bytes it holds. -/
def Queue.Weighed (q : Queue) : Prop :=
  q.queuedBytes = (joined q.segments).length

namespace Transmission

/-! ## What a command brings to the journal -/

/-- A payload that was placed. -/
structure Placement where
  offset : Nat
  bytes : Bytes

/-- The segment that a command has queued. -/
def Command.queues : Command → Reply → List Segment
  | .push s, .result (.ok ()) => [s]
  | _, _ => []

/-- The payload that a command has placed; an empty one leaves no trace. -/
def Command.places : Command → Reply → List Placement
  | .place offset bytes, .result (.ok ()) =>
    if bytes.isEmpty then [] else [⟨offset, bytes⟩]
  | _, _ => []

/-- The bytes that a reply hands out. -/
def Reply.brings : Reply → Bytes
  | .delivery r => handed r
  | _ => []

/-- A transfer at the receiver, and what its users have seen of it. -/
structure Journal where
  transmission : Transmission
  /-- The segments that were queued, in the order in which they came. -/
  pushed : List Segment
  /-- The bytes that were handed out. -/
  out : Bytes
  /-- The payloads that were placed, but for empty ones. -/
  placed : List Placement

namespace Journal

/-- Carries out a command, and enters what has come of it. -/
def next (j : Journal) (c : Command) : Journal where
  transmission := (j.transmission.perform c).2
  pushed := j.pushed ++ c.queues (j.transmission.perform c).1
  out := j.out ++ (j.transmission.perform c).1.brings
  placed := j.placed ++ c.places (j.transmission.perform c).1

/-- The journal of a new transfer after a row of commands. -/
def after (capacity : Nat) (cs : List Command) : Journal :=
  cs.foldl next ⟨withCapacity capacity, [], [], []⟩

/-- What holds of a new transfer, and is kept by every command, holds after
all commands. -/
theorem after_induction {P : Journal → Prop} {capacity : Nat}
    (first : P ⟨withCapacity capacity, [], [], []⟩)
    (step : ∀ j c, P j → P (j.next c)) (cs : List Command) :
    P (after capacity cs) :=
  List.foldlRecOn cs next first fun j hj c _ => step j c hj

end Journal

/-! ## The course of delivery -/

/-- How far delivery has come. -/
structure Course where
  /-- The segments that were queued, in the order in which they came. -/
  pushed : List Segment
  /-- The bytes that were handed out. -/
  out : Bytes
  queue : Queue
  cursor : Nat

/-- What a command does to delivery. -/
inductive Turns (d : Course) : Course → Prop where
  /-- The command fails, has to wait, or is about something else. -/
  | aside : Turns d d
  | queued {s : Segment} (ahead : d.cursor ≤ s.offset)
      (free : ∀ u ∈ d.queue.segments, u.offset ≠ s.offset) :
      Turns d { d with
        pushed := d.pushed ++ [s]
        queue := ⟨Queue.insert s d.queue.segments,
          d.queue.queuedBytes + s.length⟩ }
  | whole {s : Segment} {others : List Segment}
      (head : d.queue.segments = s :: others) (here : s.offset = d.cursor) :
      Turns d { d with
        out := d.out ++ s.payload
        queue := ⟨others, d.queue.queuedBytes - s.length⟩
        cursor := d.cursor + s.length }
  | part {s : Segment} {others : List Segment} {max : Nat}
      (head : d.queue.segments = s :: others) (here : s.offset = d.cursor)
      (more : max < s.length)
      (free : ∀ u ∈ others, u.offset ≠ (s.splitFront max).2.offset) :
      Turns d { d with
        out := d.out ++ s.payload.take max
        queue := ⟨Queue.insert (s.splitFront max).2 others,
          d.queue.queuedBytes - s.length + (s.length - max)⟩
        cursor := d.cursor + max }
  | lost {s u : Segment} {others : List Segment} {max : Nat}
      (head : d.queue.segments = s :: others) (here : s.offset = d.cursor)
      (more : max < s.length) (mem : u ∈ others)
      (same : u.offset = (s.splitFront max).2.offset) :
      Turns d { d with queue := ⟨others, d.queue.queuedBytes - s.length⟩ }

/-! ## Commands that have nothing to do with delivery -/

theorem frame_place (offset : Nat) (bytes : Bytes) (t : Transmission) :
    (t.place offset bytes).2 = { t with
      buffer := (t.place offset bytes).2.buffer
      writtenLen := (t.place offset bytes).2.writtenLen
      placed := (t.place offset bytes).2.placed } := by
  by_cases hbytes : bytes = []
  · rw [hbytes, place_nil]
  · rcases place_cases offset bytes t hbytes with ⟨e, he, _⟩ | ⟨b, he, _⟩
    · rw [he]
    · rw [he]

theorem frame_ensureCapacity (offset len : Nat) (t : Transmission) :
    (t.ensureCapacity offset len).2 =
      { t with buffer := (t.ensureCapacity offset len).2.buffer } := by
  rcases ensureCapacity_cases offset len t with ⟨_, he⟩ | ⟨_, b, he, _⟩
  · rw [he]
  · rw [he]

theorem frame_setEodTotal (total : Nat) (t : Transmission) :
    (t.setEodTotal total).2 =
      { t with eodTotal := (t.setEodTotal total).2.eodTotal } := by
  unfold setEodTotal
  split
  · rfl
  · split <;> rfl

theorem frame_ackEod (connection : Nat) (t : Transmission) :
    (t.ackEod connection).2 =
      { t with eodAcks := (t.ackEod connection).2.eodAcks } := by
  unfold ackEod
  split <;> rfl

namespace Journal

variable {j : Journal}

def course (j : Journal) : Course :=
  ⟨j.pushed, j.out, j.transmission.queue, j.transmission.cursor⟩

/-- A command that does not touch the queue. -/
theorem turns_aside {c : Command} {t' : Transmission}
    (hqueues : c.queues (j.transmission.perform c).1 = [])
    (hbrings : (j.transmission.perform c).1.brings = [])
    (hframe : (j.transmission.perform c).2 = t')
    (hqueue : t'.queue = j.transmission.queue)
    (hcursor : t'.cursor = j.transmission.cursor) :
    Turns j.course (j.next c).course := by
  have hcourse : (j.next c).course = j.course := by
    simp [course, next, hqueues, hbrings, hframe, hqueue, hcursor]
  rw [hcourse]
  exact .aside

/-- **What a command does to delivery.** -/
theorem turns (j : Journal) (c : Command) :
    Turns j.course (j.next c).course := by
  cases c with
  | place offset bytes =>
    exact turns_aside rfl rfl (frame_place offset bytes _) rfl rfl
  | ensureCapacity offset len =>
    exact turns_aside rfl rfl (frame_ensureCapacity offset len _) rfl rfl
  | setEodTotal total =>
    exact turns_aside rfl rfl (frame_setEodTotal total _) rfl rfl
  | ackEod connection =>
    exact turns_aside rfl rfl (frame_ackEod connection _) rfl rfl
  | push s =>
    rcases push_cases s j.transmission with ⟨e, he, _⟩ |
      ⟨hok, hahead, hfree⟩
    · have hframe : (j.transmission.push s).2 = j.transmission := by rw [he]
      refine turns_aside ?_ rfl hframe rfl rfl
      simp [perform, he, Command.queues]
    · have hcourse : (j.next (.push s)).course = { j.course with
          pushed := j.pushed ++ [s]
          queue := ⟨Queue.insert s j.transmission.queue.segments,
            j.transmission.queue.queuedBytes + s.length⟩ } := by
        simp [course, next, perform, hok, Command.queues, Reply.brings]
      rw [hcourse]
      exact .queued hahead hfree
  | next max =>
    have hlooks := looks max j.transmission
    have hcourse : (j.next (.next max)).course =
        ⟨j.pushed, j.out ++ handed (j.transmission.nextDelivery max).1,
          (j.transmission.nextDelivery max).2.queue,
          (j.transmission.nextDelivery max).2.cursor⟩ := by
      simp [course, next, perform, Command.queues, Reply.brings]
    rw [hcourse]
    generalize (j.transmission.nextDelivery max).1 = r,
      (j.transmission.nextDelivery max).2 = t' at hlooks
    cases hlooks with
    | finished | idle | below | gap | early =>
      simp only [handed, List.append_nil]
      exact .aside
    | whole head here all => exact .whole head here
    | part head here more free => exact .part head here more free
    | lost head here more mem same =>
      simp only [handed, List.append_nil]
      exact .lost head here more mem same

end Journal

/-- What was queued once stays in the journal. -/
theorem Turns.pushed_grows {d d' : Course} (h : Turns d d') :
    d.pushed <+: d'.pushed := by
  cases h with
  | aside | whole | part | lost => exact List.prefix_refl _
  | queued => exact List.prefix_append _ _

/-- What holds of delivery at first, and is kept by everything that can
happen as long as the queued segments are as `Q` says, holds after all
commands that have queued such segments. -/
theorem course_induction {Q : List Segment → Prop} {P : Course → Prop}
    (hQ : ∀ {l l'}, l <+: l' → Q l' → Q l) (first : P ⟨[], [], .empty, 0⟩)
    (step : ∀ {d d'}, Turns d d' → Q d'.pushed → P d → P d')
    (capacity : Nat) (cs : List Command)
    (hpushed : Q (Journal.after capacity cs).pushed) :
    P (Journal.after capacity cs).course := by
  refine Journal.after_induction (P := fun j => Q j.pushed → P j.course)
    (fun _ => first) ?_ cs hpushed
  intro j c ih hnext
  have hturn := j.turns c
  exact step hturn hnext (ih (hQ hturn.pushed_grows hnext))

/-- The queue stays in order. -/
theorem Turns.ordered {d d' : Course} (h : Turns d d')
    (hd : d.queue.Ordered) : d'.queue.Ordered := by
  cases h with
  | aside => exact hd
  | queued ahead free => exact Queue.pairwise_insert hd free
  | whole head here =>
    rw [Queue.Ordered, head] at hd
    exact hd.of_cons
  | part head here more free =>
    rw [Queue.Ordered, head] at hd
    exact Queue.pairwise_insert hd.of_cons free
  | lost head here more mem same =>
    rw [Queue.Ordered, head] at hd
    exact hd.of_cons

/-- The queue goes on to know how many bytes it holds. -/
theorem Turns.weighed {d d' : Course} (h : Turns d d')
    (hd : d.queue.Weighed) : d'.queue.Weighed := by
  unfold Queue.Weighed at hd ⊢
  cases h with
  | aside => exact hd
  | queued ahead free =>
    rw [Queue.length_joined_insert, hd, Nat.add_comm]
  | whole head here | lost head here more mem same =>
    rw [head, joined_cons, List.length_append] at hd
    rw [hd, length, Nat.add_sub_cancel_left]
  | part head here more free =>
    rw [head, joined_cons, List.length_append] at hd
    rw [Queue.length_joined_insert, length_rest, hd, length,
      Nat.add_sub_cancel_left, Nat.add_comm]

/-- **The queue of every transfer** is in order, and knows how many bytes
it holds. -/
theorem queue_after (capacity : Nat) (cs : List Command) :
    (Journal.after capacity cs).transmission.queue.Ordered ∧
      (Journal.after capacity cs).transmission.queue.Weighed :=
  course_induction (Q := fun _ => True)
    (P := fun d => d.queue.Ordered ∧ d.queue.Weighed) (fun _ _ => trivial)
    ⟨.nil, rfl⟩ (fun h _ hd => ⟨h.ordered hd.1, h.weighed hd.2⟩) capacity
    cs trivial

end Transmission
end Stripe
