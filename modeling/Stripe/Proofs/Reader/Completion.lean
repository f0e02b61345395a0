import Stripe.Proofs.Reader.Preservation

/-!
# When a reader is complete

`completed` compares the announced number of connections with the number
of those that have ended. The announced number is noted before it is
compared with the number of connections, and stays noted if it is wrong. So
a reader may be complete before all of its connections have ended
(`completed_early`), and `completed_exactly` says when: exactly if a wrong
number was noted, and as many connections have ended. Some worker has then
found that the number is wrong.
-/

namespace Stripe.Reader

open Segment Transmission

/-- A terminal segment was delivered on a connection: what was read of its
`input` are segments up to the first terminal one. -/
def Delivered (maxPayload : Nat) (input : Inlet) (lane : Lane) : Prop :=
  ∃ row, Carries maxPayload input row ∧
    input.tape = Tape.clean (encodeAll row) ++ lane.inlet.tape

/-- A connection that is noted as ended has delivered a terminal segment. -/
theorem Inv.delivered {n maxPayload : Nat} {input : Nat → Inlet}
    {rows : Nat → List Segment} {out : Bytes} {r : Reader}
    (h : Inv n maxPayload input rows out r) {i : Nat}
    (hi : i ∈ r.transmission.eodAcks) :
    ∃ lane, r.lanes[i]? = some lane ∧
      Delivered maxPayload (input i) lane := by
  obtain ⟨hlt, hend⟩ := h.acks i hi
  obtain ⟨lane, hlane⟩ := h.lane_of_lt hlt
  have hf := h.lanes i lane hlane
  refine ⟨lane, hlane, rows i, h.carries hlt hend, ?_⟩
  cases hf with
  | reading valid isOpen tape ended => exact absurd hend isOpen.not_ended
  | failing isOpen tape => exact absurd hend isOpen.not_ended
  | left past why =>
    rcases why with ⟨_, htape⟩ | ⟨isOpen, _⟩
    · exact htape
    · exact absurd hend isOpen.not_ended

/-- Of two connections the first one ends, and the second one announces
that there is one connection. -/
def earlyEvents : List Event :=
  [.feed 0 (Segment.terminal 0).encode, .feed 1 (Segment.control 1).encode,
   .read 1, .work 0, .work 1]

/-- **When a reader is complete**, in every reachable state, whatever
arrives and whatever is done.

Connections that are noted as ended have delivered a terminal segment; so a
reader that is complete by the right number has got one from each of them.
It is complete while a connection is not noted as ended exactly if it has
noted a wrong number of connections, and as many have ended. A worker that
has noted a wrong number has found that it is wrong. -/
theorem completed_exactly {n : Nat} {config : Config} {r₀ r : Reader}
    {es : List Event} (hmake : make n config = .ok r₀)
    (hrun : run step r₀ es = some r) :
    (∀ i ∈ r.transmission.eodAcks, ∃ lane, r.lanes[i]? = some lane ∧
      Delivered config.maxPayloadLen (arrived es i) lane) ∧
    (r.completed = true → r.transmission.eodTotal = some n →
      ∀ i < n, ∃ lane, r.lanes[i]? = some lane ∧
        Delivered config.maxPayloadLen (arrived es i) lane) ∧
    (r.completed = true ∧ (∃ i < n, i ∉ r.transmission.eodAcks) ↔
      ∃ total, total ≠ n ∧ r.transmission.eodTotal = some total ∧
        r.transmission.eodAcks.length = total) ∧
    (∀ total, r.transmission.eodTotal = some total → total ≠ n →
      r.failure.isSome = true ∨
        .failing (.eodCountMismatch total n) ∈ r.phases) := by
  obtain ⟨rows, out, h⟩ := inv_run hmake hrun
  have hlen := length_eq_iff h.nodup fun i hi => (h.acks i hi).1
  have hdel : ∀ i ∈ r.transmission.eodAcks, ∃ lane,
      r.lanes[i]? = some lane ∧
        Delivered config.maxPayloadLen (arrived es i) lane :=
    fun i hi => h.delivered hi
  refine ⟨hdel, fun hcomp htotal i hi => ?_, ⟨?_, ?_⟩, h.mismatch⟩
  · have heq := Option.some.inj (htotal.symm.trans (completed_eq.1 hcomp))
    exact hdel i (hlen.1 heq.symm i hi)
  · rintro ⟨hcomp, i, hi, hno⟩
    refine ⟨_, fun heq => ?_, completed_eq.1 hcomp, rfl⟩
    exact hno (hlen.1 heq i hi)
  · rintro ⟨total, hne, htotal, rfl⟩
    refine ⟨completed_eq.2 htotal, ?_⟩
    by_cases hall : ∀ i < n, i ∈ r.transmission.eodAcks
    · exact absurd (hlen.2 hall) hne
    · simpa using hall

/-- At that point the reader is complete by a wrong number, and a worker is
about to say so. -/
theorem completed_exactly_early : ∃ r₀ r, make 2 .standard = .ok r₀ ∧
    run step r₀ earlyEvents = some r ∧
    (r.completed = true ∧ ∃ i < 2, i ∉ r.transmission.eodAcks) ∧
    (r.failure.isSome = true ∨
      .failing (.eodCountMismatch 1 2) ∈ r.phases) := by
  refine ⟨_, _, rfl, rfl, ?_⟩
  obtain ⟨_, _, hexact, hfound⟩ :=
    @completed_exactly 2 .standard _ _ earlyEvents rfl rfl
  exact ⟨hexact.2 ⟨1, by decide, rfl, rfl⟩, hfound 1 rfl (by decide)⟩

/-- A connection that has carried a control segment only has not delivered
a terminal one. -/
theorem control_not_delivered {maxPayload : Nat} {input : Inlet}
    {lane : Lane} (count : UInt64)
    (ht : input.tape = Tape.clean (Segment.control count).encode) :
    ¬ Delivered maxPayload input lane := by
  rintro ⟨row, hc, _⟩
  obtain ⟨rest, hrest⟩ := hc.tape
  obtain ⟨init, s, rfl, _, hs⟩ := hc.ended
  rw [ht] at hrest
  -- the row would be longer than what has arrived
  have hlen := congrArg List.length hrest
  cases init with
  | nil =>
    obtain ⟨rfl, _⟩ := encode_append_inj (wellFormed_control count)
      (hc.wf s (by simp)) (x := []) (by simpa [-encode_control] using hrest)
    simp at hs
  | cons u init =>
    have hu := size_le_length_encode u
    have hs := size_le_length_encode s
    simp only [Tape.length_clean, List.length_append, encodeAll_append,
      encodeAll_cons, encodeAll_nil, List.cons_append,
      List.length_nil] at hlen
    rw [encode_control, Header.length_encode] at hlen
    simp only [Header.size] at *
    omega

/-- **A reader can be complete before all of its connections have
ended.** The worker that has found the wrong number has yet to record the
failure. At this finer step a call may look at what was filed before it
does, and then a read takes such a transfer for a finished one. -/
theorem completed_early : ∃ r₀ r, make 2 .standard = .ok r₀ ∧
    run step r₀ earlyEvents = some r ∧ r.completed = true ∧
    ∀ lane, ¬ Delivered Config.standard.maxPayloadLen
      (arrived earlyEvents 1) lane := by
  refine ⟨_, _, rfl, rfl, rfl, fun lane => ?_⟩
  refine control_not_delivered 1 ?_
  simp [earlyEvents, arrived, Event.brings]

end Stripe.Reader
