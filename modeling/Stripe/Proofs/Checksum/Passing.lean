import Stripe.Proofs.Checksum.Remainder
import Stripe.Proofs.Reading

/-!
# A tap reckons what it passes on

A tap is polled with the buffers of its callers. `Record` keeps what the
polls have returned: the bytes that stand in a buffer afterwards, behind
those that stood in it before. `checksum_exact` says that the checksum is
at all times the code of just these bytes, whatever the source is; for a
connection they are the first bytes of what it carries, however these were
cut into chunks.
-/

namespace Stripe

open Checksum

/-! ## One poll -/

/-- What a buffer has got since it was `before`. -/
def Buffer.since (before after : Buffer) : Bytes :=
  after.filled.drop before.filled.length

@[simp] theorem Buffer.since_put (got : Bytes) (b : Buffer) :
    b.since (b.put got) = got :=
  List.drop_left

namespace Source

variable {σ : Type} [Source σ]

/-- The bytes that a poll returns. -/
def returned (b : Buffer) (s : σ) : Bytes := b.since (poll b s).1.2

/-- **What a poll leaves to its caller**, and how much of it is new. -/
theorem returned_spec (b : Buffer) (s : σ) :
    (poll b s).1.2 = b.put (returned b s) ∧
      (returned b s).length ≤ b.room ∧
      ((poll b s).1.1 ≠ .ready → returned b s = []) := by
  obtain ⟨got, hroom, hput, hnone⟩ := puts b s
  have hgot : returned b s = got := by
    rw [returned, hput, Buffer.since_put]
  rw [hgot]
  exact ⟨hput, hroom, hnone⟩

theorem returned_inlet (b : Buffer) (c : Inlet) :
    returned b c = (c.read b.room).1.taken :=
  Buffer.since_put _ b

/-- A connection returns the first bytes of its content, and leaves the
others. -/
theorem content_poll (b : Buffer) (c : Inlet) :
    returned b c ++ (poll b c).2.content = c.content := by
  rw [returned_inlet]
  exact c.content_read b.room

end Source

namespace Tap

open Source (returned)

variable {σ : Type} [Source σ]

/-- **What enters the checksum** is what the poll returns. -/
theorem poll_snd (b : Buffer) (t : Tap σ) : (t.poll b).2 =
    ⟨(Source.poll b t.inner).2, t.checksum.add (returned b t)⟩ := by
  have hnone := (Source.returned_spec b t.inner).2.2
  have hsum : (t.poll b).2.checksum = t.checksum.add (returned b t) := by
    cases hanswer : (Source.poll b t.inner).1.1 with
    | ready =>
      simp only [poll, hanswer]
      rfl
    | failed cause | pending =>
      have hgot : returned b t = [] := hnone (by simp [hanswer])
      rw [hgot, add_nil]
      simp only [poll, hanswer]
  rw [← hsum]
  rfl

/-- A poll of a connection is a read call. -/
theorem poll_inlet (b : Buffer) (c : Inlet) (k : Checksum) :
    let r := c.read b.room
    (Tap.mk c k).poll b =
      ((r.1.poll, b.put r.1.taken), ⟨r.2, k.add r.1.taken⟩) := by
  intro r
  apply Prod.ext
  · rfl
  · rw [poll_snd]
    show Tap.mk r.2 (k.add (returned b c)) = _
    rw [Source.returned_inlet]

/-! ## All polls -/

/-- A tap, and all bytes that it has returned. -/
structure Record (σ : Type) extends Tap σ where
  passed : Bytes

namespace Record

/-- Enters a poll. -/
def next (r : Record σ) (b : Buffer) : Record σ where
  toTap := (r.toTap.poll b).2
  passed := r.passed ++ returned b r.toTap

/-- A new tap after a row of polls. -/
def after (s : σ) (polls : List Buffer) : Record σ :=
  polls.foldl next ⟨⟨s, .start⟩, []⟩

/-- What holds of a new tap, and is kept by every poll, holds after all
polls. -/
theorem after_induction {P : Record σ → Prop} {s : σ}
    (first : P ⟨⟨s, .start⟩, []⟩) (step : ∀ r b, P r → P (r.next b))
    (polls : List Buffer) : P (after s polls) :=
  List.foldlRecOn polls next first fun r hr b _ => step r b hr

/-- The checksum is that of what was passed on. -/
theorem checksum_after (s : σ) (polls : List Buffer) :
    (after s polls).checksum = start.add (after s polls).passed := by
  apply after_induction (P := fun r => r.checksum = start.add r.passed)
  · rfl
  · intro r b h
    show (r.toTap.poll b).2.checksum = start.add (r.passed ++ _)
    rw [poll_snd, h, ← add_append]

/-- What was passed on, and what was not read yet, make up the content. -/
theorem content_after (c : Inlet) (polls : List Buffer) :
    (after c polls).passed ++ (after c polls).inner.content = c.content := by
  apply after_induction
    (P := fun r : Record Inlet => r.passed ++ r.inner.content = c.content)
  · rfl
  · intro r b h
    show (r.passed ++ returned b r.inner) ++
      (Source.poll b r.inner).2.content = c.content
    rw [List.append_assoc, Source.content_poll, h]

/-- What stands in the buffer before does not matter. -/
theorem next_empty (r : Record Inlet) (b : Buffer) :
    r.next (.empty b.room) = r.next b := by
  obtain ⟨⟨c, k⟩, passed⟩ := r
  have hgot : returned (.empty b.room) c = returned b c := by
    rw [Source.returned_inlet, Source.returned_inlet]
    rfl
  show Record.mk _ (passed ++ returned (.empty b.room) c) =
    Record.mk _ (passed ++ returned b c)
  rw [hgot, poll_inlet, poll_inlet]
  rfl

theorem after_empty (c : Inlet) (polls : List Buffer) :
    after c (polls.map fun b => .empty b.room) = after c polls := by
  unfold after
  rw [List.foldl_map]
  congr 1
  funext r b
  exact next_empty r b

/-- Of two connections with the same content, taps that have as much still
to read have the same checksum. -/
theorem checksum_congr {c d : Inlet} (hcontent : c.content = d.content)
    {polls others : List Buffer}
    (hunread : (after c polls).inner.unread =
      (after d others).inner.unread) :
    (after c polls).checksum = (after d others).checksum := by
  have hboth := (content_after c polls).trans
    (hcontent.trans (content_after d others).symm)
  rw [checksum_after, checksum_after,
    (List.append_inj' hboth hunread).1]

end Record

/-! ## Reading to the end -/

/-- A loop is a row of polls. -/
theorem exists_polls (max fuel : Nat) (r : Record σ) : ∃ n,
    (r.toTap.readWithin max fuel).2 =
      ((List.replicate n (.empty max)).foldl Record.next r).toTap := by
  induction fuel generalizing r with
  | zero => exact ⟨0, rfl⟩
  | succ fuel ih =>
    obtain ⟨n, hn⟩ := ih (r.next (.empty max))
    have hnext : (r.next (.empty max)).toTap =
        (r.toTap.poll (.empty max)).2 := rfl
    rw [hnext] at hn
    unfold readWithin
    generalize r.toTap.poll (.empty max) = p at hn hnext ⊢
    obtain ⟨⟨answer, b⟩, t⟩ := p
    cases answer with
    | failed cause => exact ⟨1, hnext.symm⟩
    | pending => exact ⟨1, hnext.symm⟩
    | ready =>
      by_cases hend : b.filled.length = 0
      · refine ⟨1, ?_⟩
        simp only [if_pos hend]
        exact hnext.symm
      · refine ⟨n + 1, ?_⟩
        simp only [if_neg hend]
        exact hn

/-- **A loop reads on** until there is a failure, or nothing is left. -/
theorem checksum_readWithin {max : Nat} (hm : 0 < max) {fuel : Nat}
    {t : Tap Inlet} (hfuel : t.inner.weight < fuel) {w : Bytes} {tail : Tape}
    (hstop : tail.Stops) (htape : t.inner.tape = Tape.clean w ++ tail) :
    (t.readWithin max fuel).2.checksum = t.checksum.add w := by
  induction fuel generalizing t w with
  | zero => omega
  | succ fuel ih =>
    obtain ⟨c, k⟩ := t
    have hread : Inlet.Reads max c (c.read (Buffer.empty max).room).1
        (c.read (Buffer.empty max).room).2 := Inlet.read_spec hm c
    unfold readWithin
    rw [poll_inlet]
    generalize c.read (Buffer.empty max).room = r at hread ⊢
    obtain ⟨outcome, c'⟩ := r
    cases hread with
    | @bytes bs _ pos le tape ended weight =>
      obtain ⟨v, rfl, hleft⟩ := hstop.front (htape.symm.trans tape)
      have hpos := List.length_pos_iff.2 pos
      have hless : c'.weight + bs.length ≤ c.weight := weight
      have hmore : c.weight < fuel + 1 := hfuel
      have hcount : ((Buffer.empty max).put bs).filled.length ≠ 0 := by
        show bs.length ≠ 0
        omega
      rw [add_append]
      simp only [Inlet.Outcome.poll, Inlet.Outcome.taken, if_neg hcount]
      exact ih (show c'.weight < fuel by omega) hleft
    | failed tape ended weight =>
      obtain ⟨rfl, _⟩ := (Tape.stops_error _ _).nil_front
        (htape.symm.trans tape)
      rfl
    | ended tape tape' ended ended' weight =>
      obtain ⟨rfl, _⟩ := Tape.stops_nil.nil_front (htape.symm.trans tape)
      rfl
    | blocked tape ended =>
      obtain ⟨rfl, _⟩ := Tape.stops_nil.nil_front (htape.symm.trans tape)
      rfl

/-- **The checksum is the code of what was passed on.** Whatever the source
is, and whatever buffers a tap is polled with, its checksum is that of all
bytes that it has returned, in this order: as it is defined bit by bit, and
as a remainder. A poll puts what it returns behind the bytes that the
buffer held; if it is not ready it returns nothing, and if it returns
nothing the checksum stays.

For a connection, what was returned are the first bytes of what it carries,
and what stood in the buffers does not matter. Taps of two connections that
carry the same bytes have the same checksum when as much is still to be
read, however the bytes were cut into chunks and whatever room the buffers
had. A loop is a row of such polls; if they have some room, it reads all
bytes before the first failure. -/
theorem checksum_exact (polls : List Buffer) :
    (∀ {σ : Type} [Source σ] (s : σ), let r := Record.after s polls
      r.checksum.value = serial r.passed ∧
      (∀ w, IsCode r.passed w ↔ w = r.checksum.value) ∧
      ∀ b, ∃ got, (r.poll b).1.2 = b.put got ∧ got.length ≤ b.room ∧
        (r.next b).passed = r.passed ++ got ∧
        ((r.poll b).1.1 ≠ .ready → got = []) ∧
        (got = [] → (r.poll b).2.checksum = r.checksum)) ∧
    ∀ c : Inlet, let r := Record.after c polls
      r.passed ++ r.inner.content = c.content ∧
      Record.after c (polls.map fun b => .empty b.room) = r ∧
      (∀ (d : Inlet) (others : List Buffer), c.content = d.content →
        r.inner.unread = (Record.after d others).inner.unread →
        r.checksum = (Record.after d others).checksum) ∧
      ∀ max, let last := ((ofInlet c).readAll max).2
        (∃ n, last = (Record.after c (.replicate n (.empty max))).toTap) ∧
        (0 < max → ∀ w tail, tail.Stops → c.tape = Tape.clean w ++ tail →
          last.checksum.value = serial w) := by
  constructor
  · intro σ _ s r
    have hsum : r.checksum = start.add r.passed :=
      Record.checksum_after s polls
    have hvalue : r.checksum.value = serial r.passed := by
      rw [hsum, value_start_add]
    refine ⟨hvalue, ?_, ?_⟩
    · intro w
      rw [isCode_iff, hvalue]
    · intro b
      obtain ⟨hput, hroom, hnone⟩ := Source.returned_spec b r.toTap
      refine ⟨_, hput, hroom, rfl, hnone, ?_⟩
      intro hgot
      rw [poll_snd, hgot, add_nil]
  · intro c r
    refine ⟨Record.content_after c polls, Record.after_empty c polls,
      fun d others hsame hleft => Record.checksum_congr hsame hleft, ?_⟩
    intro max last
    constructor
    · exact exists_polls max (c.weight + 1) ⟨ofInlet c, []⟩
    · intro hm w tail hstop htape
      have hlast : last.checksum = start.add w :=
        checksum_readWithin hm (Nat.lt_succ_self c.weight) hstop htape
      rw [hlast, value_start_add]

/-- Three bytes in two chunks, with a failure between two reads of them. -/
example : (Record.after (Inlet.script [.chunk [1, 2], .fault (.ofKind .other),
    .chunk [], .chunk [3]]) [⟨[9], 1⟩, ⟨[], 0⟩, ⟨[9, 9], 5⟩, ⟨[], 5⟩,
      ⟨[7], 5⟩]).checksum.value = serial [1, 2, 3] := by
  decide +kernel

end Tap
end Stripe
