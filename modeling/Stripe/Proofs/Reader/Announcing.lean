import Stripe.Proofs.Reader.Preservation
import Stripe.Proofs.Runs

/-!
# Where an announced number comes from

A reader notes how many connections were announced before it compares that
with the number of its own. Right or wrong, the number stands in a control
segment at the front of what has arrived on one of its connections
(`Noted`), and every event keeps that (`Noted.step`).
-/

namespace Stripe

namespace Intake

variable {n i : Nat} {mode : Mode} {s : Segment} {b : Intake}

theorem total_conclude (i : Nat) (terminal : Bool) (b : Intake) :
    (conclude i terminal b).2.transmission.eodTotal =
      b.transmission.eodTotal := by
  unfold conclude
  cases terminal with
  | false => rfl
  | true =>
    rw [if_pos rfl]
    simp only [endConnection]
    rw [ackEod_eq]

/-- **The number that filing a segment notes** is the one that the segment
announces. -/
theorem total_accept (n i : Nat) (mode : Mode) (s : Segment) (b : Intake) :
    (b.accept n i mode s).2.transmission.eodTotal =
        b.transmission.eodTotal ∨
      s.isControl = true ∧
        (b.accept n i mode s).2.transmission.eodTotal = some s.offset := by
  unfold accept
  cases hc : s.isControl with
  | true =>
    rw [if_pos rfl]
    unfold acceptControl
    dsimp only
    split
    · exact .inl rfl
    split
    · exact .inl rfl
    rcases setEodTotal_cases s.header.offsetCount.toNat b.transmission with
      ⟨e, hset, _⟩ | ⟨_, hset⟩
    · rw [hset]
      exact .inl rfl
    · rw [hset]
      dsimp only
      split
      · exact .inr ⟨rfl, rfl⟩
      · exact .inr ⟨rfl, total_conclude _ _ _⟩
  | false =>
    rw [if_neg (by simp)]
    refine .inl ?_
    unfold acceptData
    cases he : s.isEmpty with
    | true => exact total_conclude _ _ _
    | false =>
      rw [if_neg (by simp)]
      have hs : s.payload ≠ [] := by simpa [Segment.isEmpty] using he
      rcases Transmission.store_cases mode hs b.transmission with
        ⟨e, hst⟩ | ⟨t', hst, htotal, _⟩
      · rw [hst]
      · rw [hst]
        exact (total_conclude _ _ _).trans htotal

end Intake

namespace Reader

open Segment Transmission

/-- A control segment at the front of what has arrived announces
`total`. -/
def Announces (input : Inlet) (total : Nat) : Prop :=
  ∃ row s, (∀ u ∈ row ++ [s], u.WellFormed) ∧
    Tape.clean (encodeAll (row ++ [s])) <+: input.tape ∧
    s.isControl = true ∧ s.offset = total

/-- The number that is noted was announced on one of `n` connections. -/
def Noted (n : Nat) (input : Nat → Inlet) (r : Reader) : Prop :=
  ∀ total, r.transmission.eodTotal = some total →
    ∃ i < n, Announces (input i) total

section Announcing

variable {n maxPayload : Nat} {input : Nat → Inlet}
  {rows : Nat → List Segment} {out : Bytes} {r r' : Reader}

theorem Announces.later {c c' : Inlet} {total : Nat}
    (h : Announces c total) (hfront : c.tape <+: c'.tape) :
    Announces c' total := by
  obtain ⟨row, s, hwf, htape, hs⟩ := h
  exact ⟨row, s, hwf, htape.trans hfront, hs⟩

/-- **A worker** notes what it has read. -/
theorem Noted.work (hn : r.Noted n input)
    (h : Inv n maxPayload input rows out r) {i : Nat}
    (hw : r.work i = some r') : r'.Noted n input := by
  obtain ⟨mode, _, hcase⟩ := work_cases hw
  -- it has decoded a segment, and files it
  have hfile {c c' : Inlet} {d : Decoder} {s : Segment}
      (lane : r.lanes[i]? = some ⟨c, .reading d⟩)
      (advance : d.advance i r.config.maxPayloadLen c = some (.done s, c'))
      {total : Nat} (ht : (r.intake.accept r.connections i mode
        s).2.transmission.eodTotal = some total) :
      ∃ j < n, Announces (input j) total := by
    rcases Intake.total_accept r.connections i mode s r.intake with
      hsame | ⟨hc, hnew⟩
    · exact hn total (hsame ▸ ht)
    · rw [h.limit] at advance
      cases (h.lanes i _ lane).read advance with
      | done isOpen wf le tape ended =>
        refine ⟨i, h.lt lane, rows i, s, ?_, ⟨_, tape.symm⟩, hc,
          Option.some.inj (hnew.symm.trans ht)⟩
        intro u hu
        rcases List.mem_append.1 hu with hmem | hmem
        · exact (h.segments i u hmem).1
        · exact List.mem_singleton.1 hmem ▸ wf
  intro total ht
  cases hcase with
  | stop lane stopped => exact hn total ht
  | more lane going advance => exact hn total ht
  | broken lane going advance => exact hn total ht
  | refused lane going advance result => exact hfile lane advance ht
  | filed lane going advance result => exact hfile lane advance ht
  | record lane => exact hn total ht
  | leave lane => exact hn total ht

/-- A call keeps the number, or forgets it with the message. -/
theorem total_advance (ha : r.advance = some r') :
    r'.transmission.eodTotal = r.transmission.eodTotal ∨
      r'.transmission.eodTotal = none := by
  have hnext {extent : Extent} {result : Except Error Delivery}
      {t : Transmission}
      (hn : r.transmission.nextDelivery extent.max = (result, t)) :
      t.eodTotal = r.transmission.eodTotal := by
    have hframe := (delivers_nextDelivery extent.max r.transmission).frame
    rw [hn] at hframe
    show (result, t).2.eodTotal = _
    rw [hframe]
  cases advance_cases ha with
  | stop call stopped => exact .inl rfl
  | look call going => exact .inl rfl
  | message call completed =>
    rcases takeMessage_cases r with ⟨e, _, he⟩ | ⟨m, _, he⟩
    · exact .inr (by rw [he]; rfl)
    · exact .inr (by rw [he]; rfl)
  | hole call completed nobody => exact .inl rfl
  | collecting call completed somebody => exact .inl rfl
  | broken call next => exact .inl (hnext next)
  | @ready extent live bs t call next =>
    cases extent <;> exact .inl (hnext next)
  | @finished extent live t call next =>
    cases extent <;> exact .inl (hnext next)
  | gap call next nobody => exact .inl (hnext next)
  | pending call next somebody => exact .inl (hnext next)
  | wake call woken => exact .inl rfl
  | stir call stopped => exact .inl rfl

theorem total_start (mode : Mode) (r : Reader) :
    (r.start mode).transmission.eodTotal = r.transmission.eodTotal ∨
      (r.start mode).transmission.eodTotal = none := by
  unfold start
  split
  · exact .inl rfl
  · cases mode with
    | stream => exact .inl rfl
    | collect => exact .inr rfl

/-- **Whatever happens**, the number that is noted was announced. -/
theorem Noted.step (hn : r.Noted n input)
    (h : Inv n maxPayload input rows out r) {e : Event}
    (hs : r.step e = some r') :
    r'.Noted n (fun i => e.brings i (input i)) := by
  have hlater (hn : r'.Noted n input) :
      r'.Noted n (fun i => e.brings i (input i)) := by
    intro total ht
    obtain ⟨i, hi, ha⟩ := hn total ht
    exact ⟨i, hi, ha.later (front_brings e i _)⟩
  refine hlater ?_
  have hkept (ht : r'.transmission.eodTotal = r.transmission.eodTotal ∨
      r'.transmission.eodTotal = none) : r'.Noted n input := by
    intro total htotal
    rcases ht with hsame | hnone
    · exact hn total (hsame ▸ htotal)
    · rw [hnone] at htotal
      cases htotal
  cases step_cases hs with
  | work work => exact hn.work h work
  | advance advance => exact hkept (total_advance advance)
  | begin idle asks => exact hkept (total_start _ r)
  | _ => exact hn

end Announcing

/-- **The number that is noted was announced**, in every reachable
state. -/
theorem noted_run {n : Nat} {config : Config} {r₀ r : Reader}
    {es : List Event} (hmake : make n config = .ok r₀)
    (hrun : run step r₀ es = some r) : r.Noted n (arrived es) := by
  have hfirst : r₀.Noted n (arrived []) := by
    obtain ⟨_, _, rfl⟩ := make_eq_ok hmake
    intro total ht
    cases ht
  refine (follow (g := fun _ _ => []) (P := fun past _ r =>
    (∃ rows out, Inv n config.maxPayloadLen (arrived past) rows out r) ∧
      r.Noted n (arrived past)) ⟨⟨_, _, inv_make hmake⟩, hfirst⟩ ?_ hrun).2
  rintro past e _ r r' _ ⟨⟨rows, out, h⟩, hn⟩ hs
  obtain ⟨rows', _, h'⟩ := h.step hs
  have hinput : arrived (past ++ [e]) =
      fun i => e.brings i (arrived past i) :=
    funext (arrived_append past e)
  rw [hinput]
  exact ⟨⟨rows', _, h'⟩, hn.step h hs⟩

end Reader
end Stripe
