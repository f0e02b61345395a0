import Stripe.Run
import Stripe.Proofs.Transmission.Journal

/-!
# Counters that fit

The offset of a segment is a number that the peer has chosen, up to the
largest one of 64 bits. Still no counter of delivery in order wraps
around: a segment is split only when it starts at the cursor, and the
cursor and what is queued behind it are bytes that have come.

`Transmission.perform?` carries out a command with every sum and difference
of its counters checked, and stops at one that does not fit. The main
statement is `counters_fit`: as long as the queued payloads have fewer
than 2⁶⁴ bytes, it never stops, and does the same as `Transmission.perform`.
-/

namespace Stripe

open Segment

/-! ## Checked arithmetic -/

/-- The sum of two counters, if it fits. -/
def plus? (a b : Nat) : Option Nat :=
  if a + b < UInt64.size then some (a + b) else none

/-- The difference of two counters, if there is one. -/
def minus? (a b : Nat) : Option Nat := if b ≤ a then some (a - b) else none

theorem plus?_of_lt {a b : Nat} (h : a + b < UInt64.size) :
    plus? a b = some (a + b) := if_pos h

theorem minus?_of_le {a b : Nat} (h : b ≤ a) :
    minus? a b = some (a - b) := if_pos h

namespace Queue

/-- Queues a segment, unless one of the same offset is queued. -/
def push? (s : Segment) (q : Queue) : Option (Except Error Unit × Queue) :=
  if q.holds s.offset then some (.error (.duplicateOffset s.offset), q)
  else do
    let total ← plus? q.queuedBytes s.length
    return (.ok (), ⟨insert s q.segments, total⟩)

/-- Takes the segment of the smallest offset out of the queue. -/
def pop? (q : Queue) : Option (Option Segment × Queue) :=
  match q.segments with
  | [] => some (none, q)
  | s :: rest => do
    let left ← minus? q.queuedBytes s.length
    return (some s, ⟨rest, left⟩)

theorem push?_eq {s : Segment} {q : Queue}
    (h : q.holds s.offset = false →
      q.queuedBytes + s.length < UInt64.size) :
    q.push? s = some (q.push s) := by
  unfold push?
  cases hholds : q.holds s.offset with
  | true => simp [push_of_holds hholds]
  | false => simp [push_of_free hholds, plus?_of_lt (h hholds)]

theorem pop?_eq {q : Queue} (h : q.Weighed) : q.pop? = some q.pop := by
  unfold pop? pop
  cases head : q.segments with
  | nil => rfl
  | cons s rest =>
    have hle : s.length ≤ q.queuedBytes := by
      rw [h, head, joined_cons, List.length_append]
      exact Nat.le_add_right _ _
    simp [minus?_of_le hle]

end Queue

namespace Segment

/-- The first `n` bytes as a segment of their own, and what is left. -/
def splitFront? (s : Segment) (n : Nat) : Option (Segment × Segment) := do
  let front := s.payload.take n
  let rest := s.payload.drop n
  let offset ← plus? s.offset front.length
  return (data front s.header.offsetCount .none,
    ⟨⟨s.header.flags, .ofNat rest.length, .ofNat offset⟩, rest⟩)

theorem splitFront?_eq {s : Segment} {n : Nat}
    (h : s.offset + (s.payload.take n).length < UInt64.size) :
    s.splitFront? n = some (s.splitFront n) := by
  have hoffset : UInt64.ofNat (s.offset + (s.payload.take n).length) =
      s.header.offsetCount + .ofNat (s.payload.take n).length := by
    rw [offset, UInt64.ofNat_add, UInt64.ofNat_toNat]
  unfold splitFront? splitFront
  dsimp only
  rw [plus?_of_lt h, ← hoffset]
  rfl

end Segment

namespace Transmission

/-- Queues a segment. -/
def push? (s : Segment) (t : Transmission) :
    Option (Except Error Unit × Transmission) :=
  if s.offset < t.cursor then
    some (.error (.offsetBelowCursor s.offset t.cursor), t)
  else do
    let (result, queue) ← t.queue.push? s
    return (result, { t with queue })

/-- Hands out at most `max` bytes of the segment at the cursor, and queues
the rest of it again. -/
def deliver? (max : Nat) (t : Transmission) :
    Option (Except Error Delivery × Transmission) := do
  match ← t.queue.pop? with
  | (none, _) => return (.ok .pending, t)
  | (some s, queue) =>
    let (front, rest) ← s.splitFront? max
    let (result, queue) ←
      if rest.isEmpty then some (.ok (), queue) else queue.push? rest
    match result with
    | .error e => return (.error e, { t with queue })
    | .ok () =>
      let cursor ← plus? t.cursor front.length
      return (.ok (.ready front.payload), { t with queue, cursor })

/-- The next bytes of the stream, at most `max` of them. -/
def nextDelivery? (max : Nat) (t : Transmission) :
    Option (Except Error Delivery × Transmission) :=
  match t.queue.min? with
  | none => some (.ok (if t.completed then .finished else .pending), t)
  | some next =>
    if next < t.cursor then
      some (.error (.offsetBelowCursor next t.cursor), t)
    else if t.cursor < next then
      some (if t.completed then .error (.gap t.cursor (some next))
        else .ok .pending, t)
    else t.deliver? max

/-- Carries out a command with the counters of delivery checked. Nothing if
one of them does not fit. -/
def perform? (t : Transmission) : Command → Option (Reply × Transmission)
  | .push s => do
    let (r, t) ← t.push? s
    return (.result r, t)
  | .next max => do
    let (r, t) ← t.nextDelivery? max
    return (.delivery r, t)
  | c => some (t.perform c)

/-! ## Cursor and queue -/

theorem length_joined_front {l l' : List Segment} (h : l <+: l') :
    (joined l).length ≤ (joined l').length := by
  obtain ⟨more, rfl⟩ := h
  rw [joined_append, List.length_append]
  exact Nat.le_add_right _ _

/-- What was delivered and what is queued were bytes that have come. -/
structure Within (d : Course) : Prop where
  weighed : d.queue.Weighed
  le : d.cursor + d.queue.queuedBytes ≤ (joined d.pushed).length

theorem Turns.within {d d' : Course} (h : Turns d d') (hd : Within d) :
    Within d' := by
  have hweighed := hd.weighed
  have hle := hd.le
  constructor
  case weighed => exact h.weighed hweighed
  case le =>
    cases h with
    | aside => exact hle
    | @queued s ahead free =>
      show d.cursor + (d.queue.queuedBytes + s.length) ≤
        (joined (d.pushed ++ [s])).length
      simp only [joined_append, joined_cons, joined_nil, List.append_nil,
        List.length_append]
      simp only [length]
      omega
    | @whole s others head here =>
      rw [Queue.Weighed, head, joined_cons, List.length_append] at hweighed
      show d.cursor + s.length + (d.queue.queuedBytes - s.length) ≤ _
      simp only [length]
      omega
    | @part s others max head here more free =>
      rw [Queue.Weighed, head, joined_cons, List.length_append] at hweighed
      show d.cursor + max +
        (d.queue.queuedBytes - s.length + (s.length - max)) ≤ _
      simp only [length] at more ⊢
      omega
    | @lost s u others max head here more mem same =>
      show d.cursor + (d.queue.queuedBytes - s.length) ≤
        (joined d.pushed).length
      omega

theorem within_after (capacity : Nat) (cs : List Command) :
    Within (Journal.after capacity cs).course :=
  course_induction (Q := fun _ => True) (P := Within) (fun _ _ => trivial)
    ⟨rfl, Nat.le_refl 0⟩ (fun h _ hd => h.within hd) capacity cs trivial

/-! ## The checks pass -/

variable {t : Transmission} {s : Segment} {max : Nat}

theorem push?_eq (h : (t.push s).1 = .ok () →
    t.queue.queuedBytes + s.length < UInt64.size) :
    t.push? s = some (t.push s) := by
  unfold push?
  by_cases hlt : s.offset < t.cursor
  · simp [push, hlt]
  · have hqueue : t.queue.push? s = some (t.queue.push s) := by
      apply Queue.push?_eq
      intro hfree
      apply h
      simp [push, hlt, Queue.push_of_free hfree]
    simp [push, hlt, hqueue]

/-- The segment at the cursor lies within the bytes that have come, and so
does the place where it is split. -/
theorem deliver?_eq {others : List Segment} (hweighed : t.queue.Weighed)
    (hfits : t.cursor + t.queue.queuedBytes < UInt64.size)
    (head : t.queue.segments = s :: others) (here : s.offset = t.cursor) :
    t.deliver? max = some (t.deliver max) := by
  have hpop := Queue.pop?_eq hweighed
  rw [Queue.Weighed, head, joined_cons, List.length_append] at hweighed
  have hfront : (s.payload.take max).length ≤ s.payload.length := by
    rw [List.length_take]
    exact Nat.min_le_right _ _
  have hsplit : s.splitFront? max = some (s.splitFront max) :=
    splitFront?_eq (by omega)
  have hcursor : plus? t.cursor (s.splitFront max).1.length =
      some (t.cursor + (s.splitFront max).1.length) := by
    apply plus?_of_lt
    rw [length, payload_splitFront_fst]
    omega
  have hrest : Queue.push? (s.splitFront max).2
      ⟨others, t.queue.queuedBytes - s.length⟩ =
      some (Queue.push (s.splitFront max).2
        ⟨others, t.queue.queuedBytes - s.length⟩) := by
    apply Queue.push?_eq
    intro _
    show t.queue.queuedBytes - s.length + _ < _
    rw [length_rest, length]
    omega
  unfold deliver? deliver
  rw [hpop]
  simp only [Queue.pop, head, Option.bind_eq_bind, Option.bind_some, hsplit]
  split
  · simp [hcursor]
  · rw [hrest]
    simp only [Option.bind_some]
    split
    · simp_all
    · simp_all

theorem nextDelivery?_eq (hweighed : t.queue.Weighed)
    (hfits : t.cursor + t.queue.queuedBytes < UInt64.size) :
    t.nextDelivery? max = some (t.nextDelivery max) := by
  unfold nextDelivery? nextDelivery
  cases hmin : t.queue.min? with
  | none => rfl
  | some next =>
    obtain ⟨s, others, head, rfl⟩ := Queue.min?_eq_some hmin
    dsimp only
    split
    · rfl
    · split
      · rfl
      · exact deliver?_eq hweighed hfits head (by omega)

/-- The checked command does not stop, if the counters fit before it and
after it. -/
theorem perform?_eq {c : Command} (hweighed : t.queue.Weighed)
    (hfits : t.cursor + t.queue.queuedBytes < UInt64.size)
    (hnext : (t.perform c).2.cursor + (t.perform c).2.queue.queuedBytes <
      UInt64.size) :
    t.perform? c = some (t.perform c) := by
  cases c with
  | push s =>
    have hpush : t.push? s = some (t.push s) := by
      apply push?_eq
      intro hok
      rcases push_cases s t with ⟨e, he, _⟩ | ⟨he, _⟩
      · simp [he] at hok
      · simp only [perform, he] at hnext
        omega
    simp [perform?, perform, hpush]
  | next max => simp [perform?, perform, nextDelivery?_eq hweighed hfits]
  | place | ensureCapacity | setEodTotal | ackEod => rfl

/-- The payload that a command brings, also one that is refused. -/
def Command.brings : Command → Bytes
  | .push s => s.payload
  | _ => []

namespace Journal

theorem length_pushed_next (j : Journal) (c : Command) :
    (joined (j.next c).pushed).length ≤
      (joined j.pushed).length + c.brings.length := by
  have hqueues (r : Reply) : (joined (c.queues r)).length ≤
      c.brings.length := by
    unfold Command.queues
    split
    · simp [Command.brings]
    · exact Nat.zero_le _
  simp only [next, joined_append, List.length_append]
  exact Nat.add_le_add_left (hqueues _) _

/-- What was queued was brought. -/
theorem length_pushed_foldl (cs : List Command) (j : Journal) :
    (joined (cs.foldl next j).pushed).length ≤
      (joined j.pushed).length + (cs.flatMap Command.brings).length := by
  induction cs generalizing j with
  | nil => exact Nat.le_add_right _ _
  | cons c cs ih =>
    have hfirst := length_pushed_next j c
    have hrest := ih (j.next c)
    simp only [List.foldl_cons, List.flatMap_cons, List.length_append]
    omega

theorem pushed_foldl (cs : List Command) (j : Journal) :
    j.pushed <+: (cs.foldl next j).pushed := by
  induction cs generalizing j with
  | nil => exact List.prefix_refl _
  | cons c cs ih => exact (j.turns c).pushed_grows.trans (ih (j.next c))

theorem perform?_next {j : Journal} {c : Command} (h : Within j.course)
    (hfits : (joined (j.next c).pushed).length < UInt64.size) :
    j.transmission.perform? c = some (j.transmission.perform c) := by
  have hnext := (j.turns c).within h
  have hpushed := length_joined_front (j.turns c).pushed_grows
  apply perform?_eq h.weighed
  · have hle := h.le
    simp only [course] at hle hpushed
    omega
  · exact Nat.lt_of_le_of_lt hnext.le hfits

/-- Commands that are carried out with the counters checked lead to the
same state. -/
theorem run_perform? {j : Journal} (cs : List Command) (h : Within j.course)
    (hfits : (joined (cs.foldl next j).pushed).length < UInt64.size) :
    run (fun t c => (t.perform? c).map Prod.snd) j.transmission cs =
      some (cs.foldl next j).transmission := by
  induction cs generalizing j with
  | nil => rfl
  | cons c cs ih =>
    have hrest := length_joined_front (pushed_foldl cs (j.next c))
    have hc := perform?_next (c := c) h (Nat.lt_of_le_of_lt hrest hfits)
    simp only [run, hc, Option.map_some, Option.bind_some]
    exact ih ((j.turns c).within h) hfits

end Journal

/-- **No counter wraps around.** After any commands, among them segments of
any offset that are queued or refused, the cursor and the queued bytes
together are at most as many bytes as were queued so far, and the queue
knows how many bytes it holds. As long as these are fewer than 2⁶⁴, every
sum and difference of the counters fits: carrying out the commands with
all of them checked leads to the same state, and so does any further one,
with the same reply. -/
theorem counters_fit (capacity : Nat) (cs : List Command) :
    let j := Journal.after capacity cs
    let t := j.transmission
    t.cursor + t.queue.queuedBytes ≤ (joined j.pushed).length ∧
    (joined j.pushed).length ≤ (cs.flatMap Command.brings).length ∧
    t.queue.queuedBytes = (joined t.queue.segments).length ∧
    ((joined j.pushed).length < UInt64.size →
      run (fun t c => (t.perform? c).map Prod.snd) (withCapacity capacity)
        cs = some t) ∧
    ∀ c, (joined (j.next c).pushed).length < UInt64.size →
      t.perform? c = some (t.perform c) := by
  intro j t
  have hwithin : Within j.course := within_after capacity cs
  refine ⟨hwithin.le, ?_, hwithin.weighed, ?_, ?_⟩
  · have hle := Journal.length_pushed_foldl cs
      ⟨withCapacity capacity, [], [], []⟩
    simp only [joined_nil, List.length_nil, Nat.zero_add] at hle
    exact hle
  · intro hfits
    exact Journal.run_perform? (j := ⟨withCapacity capacity, [], [], []⟩) cs
      (within_after capacity []) hfits
  · intro c hfits
    exact Journal.perform?_next hwithin hfits

/-- A segment at the largest offset is queued behind one that is split. -/
example :
    let t := (Journal.after 2 [.push (.data [1, 2, 3] 0 .none),
      .push (.data [4, 5] 18446744073709551615 .none),
      .next 2]).transmission
    (t.perform? (.next 5)).map (fun r => r.2.cursor) = some 3 := rfl

end Transmission
end Stripe
