import Stripe.Proofs.Transmission.Positions

/-!
# What a failure leaves behind

A command that fails leaves the state of a transfer as it was, with one
exception. The segment at the cursor is taken out of the queue before the
rest of it is queued again, and if another segment is queued where that
rest starts, the segment is not put back. `Torn` is this case, which needs
two segments that overlap.
-/

namespace Stripe.Transmission

open Segment

/-- The failure that a reply reports. -/
def Reply.error? : Reply → Option Error
  | .result (.error e) => some e
  | .delivery (.error e) => some e
  | _ => none

theorem Reply.error?_result {r : Except Error Unit} {e : Error} :
    (Reply.result r).error? = some e ↔ r = .error e := by
  cases r <;> simp [error?]

theorem Reply.error?_delivery {r : Except Error Delivery} {e : Error} :
    (Reply.delivery r).error? = some e ↔ r = .error e := by
  cases r <;> simp [error?]

/-- The segment `s` at the cursor has more than `max` bytes, and another
one is queued where the rest of it starts. -/
structure Torn (max : Nat) (t : Transmission) (s : Segment) : Prop where
  first : t.queue.peek? = some s
  here : s.offset = t.cursor
  more : max < s.length
  taken : t.queue.pop.2.holds (s.splitFront max).2.offset = true

/-- The first segment is taken out of the queue. -/
def withoutFirst (t : Transmission) : Transmission :=
  { t with queue := t.queue.pop.2 }

variable {t t' : Transmission} {s : Segment} {others : List Segment}
  {max : Nat}

theorem pop_of_head (head : t.queue.segments = s :: others) :
    t.queue.pop = (some s, ⟨others, t.queue.queuedBytes - s.length⟩) := by
  simp [Queue.pop, head]

theorem Torn.head (h : Torn max t s) :
    ∃ others, t.queue.segments = s :: others ∧
      ∃ u ∈ others, u.offset = (s.splitFront max).2.offset := by
  obtain ⟨others, head⟩ := List.head?_eq_some_iff.1 h.first
  have htaken := h.taken
  rw [pop_of_head head] at htaken
  exact ⟨others, head, by simpa [Queue.holds] using htaken⟩

/-! ## Failures of the commands -/

/-- Looking for bytes fails and leaves the state as it was, or it loses
the segment at the cursor. -/
theorem Looks.of_error {e : Error} (h : Looks max t (.error e) t') :
    t' = t ∨ ∃ s, Torn max t s := by
  cases h with
  | below | gap => exact .inl rfl
  | @lost s u others head here more mem same =>
    refine .inr ⟨s, ?_, here, more, ?_⟩
    · rw [Queue.peek?, head]
      rfl
    · rw [pop_of_head head]
      exact List.any_eq_true.2 ⟨u, mem, by simpa using same⟩

/-- **A torn segment is lost.** -/
theorem Torn.looks {r : Except Error Delivery} (h : Torn max t s)
    (hlooks : Looks max t r t') :
    r = .error (.duplicateOffset (s.splitFront max).2.offset) ∧
      t' = t.withoutFirst := by
  obtain ⟨others, head, u, hu, hsame⟩ := h.head
  have hhere := h.here
  have hmore := h.more
  cases hlooks with
  | finished empty | idle empty =>
    rw [head] at empty
    cases empty
  | below head' lt =>
    cases head.symm.trans head'
    omega
  | gap head' gt | early head' gt =>
    cases head.symm.trans head'
    omega
  | whole head' here all =>
    cases head.symm.trans head'
    omega
  | part head' here more free =>
    cases head.symm.trans head'
    exact absurd hsame (free u hu)
  | lost head' here more mem same =>
    cases head.symm.trans head'
    rw [same, withoutFirst, pop_of_head head]
    exact ⟨rfl, rfl⟩

theorem place_of_error {offset : Nat} {bytes : Bytes} {e : Error}
    (h : (t.place offset bytes).1 = .error e) :
    (t.place offset bytes).2 = t := by
  by_cases hbytes : bytes = []
  · rw [hbytes, place_nil]
  · rcases place_cases offset bytes t hbytes with ⟨e, he, _⟩ | ⟨b, he, _⟩
    · rw [he]
    · rw [he] at h
      cases h

theorem push_of_error {e : Error} (h : (t.push s).1 = .error e) :
    (t.push s).2 = t := by
  rcases push_cases s t with ⟨e, he, _⟩ | ⟨he, _⟩
  · rw [he]
  · rw [he] at h
    cases h

theorem ensureCapacity_of_error {offset len : Nat} {e : Error}
    (h : (t.ensureCapacity offset len).1 = .error e) :
    (t.ensureCapacity offset len).2 = t := by
  rcases ensureCapacity_cases offset len t with ⟨_, he⟩ | ⟨_, b, he, _⟩
  · rw [he]
  · rw [he] at h
    cases h

theorem setEodTotal_of_error {total : Nat} {e : Error}
    (h : (t.setEodTotal total).1 = .error e) :
    (t.setEodTotal total).2 = t := by
  unfold setEodTotal at h ⊢
  split at h
  · cases h
  · split at h
    · cases h
    · rename_i hne
      rw [if_neg hne]

/-- **A command that fails changes nothing**, unless it tears a segment. -/
theorem kept_of_error {c : Command} {e : Error}
    (he : (t.perform c).1.error? = some e)
    (hno : ∀ max s, c = .next max → ¬ Torn max t s) :
    (t.perform c).2 = t := by
  cases c with
  | place offset bytes =>
    exact place_of_error (Reply.error?_result.1 he)
  | ensureCapacity offset len =>
    exact ensureCapacity_of_error (Reply.error?_result.1 he)
  | setEodTotal total =>
    exact setEodTotal_of_error (Reply.error?_result.1 he)
  | ackEod connection => cases he
  | push s => exact push_of_error (Reply.error?_result.1 he)
  | next max =>
    have hfails : (t.nextDelivery max).1 = .error e :=
      Reply.error?_delivery.1 he
    rcases (hfails ▸ looks max t).of_error with hsame | ⟨s, htorn⟩
    · exact hsame
    · exact absurd htorn (hno max s rfl)

/-- Segments that do not overlap are not torn. -/
theorem not_torn_of_separate (capacity : Nat) (cs : List Command)
    (hcount : Counted (Journal.after capacity cs).pushed)
    (hsep : Separate (Journal.after capacity cs).pushed) (max : Nat)
    (s : Segment) :
    ¬ Torn max (Journal.after capacity cs).transmission s := by
  intro htorn
  obtain ⟨others, head, u, hu, hsame⟩ := htorn.head
  exact (clear_after capacity cs hcount hsep).rest_free
    (sourced_after capacity cs hcount) hcount head htorn.more hu hsame

/-- **What a failure leaves behind.** After any commands, one that fails
leaves all of the state as it was, unless it asks for a part of the
segment at the cursor while another segment is queued where the rest of it
starts. In that case the call fails with the offset of the rest, and the
whole segment is gone from the queue, with all its bytes; nothing else has
changed. This does not happen as long as the queued segments do not
overlap. -/
theorem failure_spec (capacity : Nat) (cs : List Command) :
    let j := Journal.after capacity cs
    let t := j.transmission
    (∀ c e, (t.perform c).1.error? = some e →
      (∀ max s, c = .next max → ¬ Torn max t s) → (t.perform c).2 = t) ∧
    (∀ max s, Torn max t s →
      t.nextDelivery max =
        (.error (.duplicateOffset (s.splitFront max).2.offset),
          t.withoutFirst) ∧
      t.withoutFirst.queue.queuedBytes + s.length =
        t.queue.queuedBytes ∧
      t.withoutFirst.queue.size + 1 = t.queue.size) ∧
    (Counted j.pushed → Separate j.pushed → ∀ max s, ¬ Torn max t s) := by
  intro j t
  have hweighed : t.queue.Weighed := (queue_after capacity cs).2
  refine ⟨fun c e he hno => kept_of_error he hno, fun max s htorn => ?_,
    fun hcount hsep => not_torn_of_separate capacity cs hcount hsep⟩
  obtain ⟨hresult, hstate⟩ := htorn.looks (looks max t)
  obtain ⟨others, head, _⟩ := htorn.head
  refine ⟨Prod.ext hresult hstate, ?_, ?_⟩
  · rw [Queue.Weighed, head, joined_cons, List.length_append] at hweighed
    rw [withoutFirst, pop_of_head head]
    simp only [length]
    omega
  · rw [withoutFirst, pop_of_head head]
    simp [Queue.size, head]

/-- The second segment starts within the first one. A call for the two
bytes before it fails, and takes four bytes out of the queue. -/
theorem next_loses_bytes :
    let t := (Journal.after Config.minBufferCapacity
      [.push (.data [97, 98, 99, 100] 0 .none),
        .push (.data [120, 121] 2 .none)]).transmission
    (t.perform (.next 2)).1.error? = some (.duplicateOffset 2) ∧
      (t.perform (.next 2)).2 ≠ t ∧ t.queue.queuedBytes = 6 ∧
      (t.perform (.next 2)).2.queue.queuedBytes = 2 := by
  intro t
  refine ⟨rfl, fun h => ?_, rfl, rfl⟩
  cases congrArg (fun t => t.queue.queuedBytes) h

end Stripe.Transmission
