import Stripe.Proofs.Link.Success
import Stripe.Proofs.Link.Weight

/-!
# A link comes to rest

What moves by itself keeps a link faring well (`Fares.moved`), and does not
do so for ever (`Fares.lighter`). When nothing can move any more, and the
pipes hold anything at all, no call waits (`Fares.quiet`).
-/

namespace Stripe

namespace Link

open Segment

section Rest

variable {n maxPayload : Nat} {capacity : Nat → Nat} {sent : Bytes}
  {finished asked : Prop} {log : Bytes} {past : History} {l l' : Link}

/-! ## Moves -/

theorem Fares.coupled (h : Fares n maxPayload capacity sent finished asked
    log past l) : Coupled n l where
  size := h.passes.size
  writer := ⟨_, _, _, _, h.writer.inv⟩
  reader := by
    obtain ⟨_, hinv, _⟩ := h.reader.serves
    exact ⟨_, _, _, _, hinv⟩
  carried := h.passes.carried

/-- **Every move of a link** makes the weight smaller. -/
theorem Fares.lighter (h : Fares n maxPayload capacity sent finished asked
    log past l) {e : Event} (he : e.isMove = true)
    (hs : l.move e = some l') : l'.weight < l.weight :=
  h.coupled.lighter he hs

/-- **What moves by itself** keeps a link faring well, and begins no
call. -/
theorem Fares.moved (h : Fares n maxPayload capacity sent finished asked
    log past l) {e : Event} (he : e.isMove = true)
    (hs : l.move e = some l') : ∃ log' past',
      Fares n maxPayload capacity sent finished asked log' past' l' := by
  obtain ⟨hplain, hsend, hreceive, hnil, hfinish, hmessage⟩ :
      e.isPlain = true ∧ e.isSending = false ∧ e.isReceiving = false ∧
        e.sends = [] ∧ e ≠ .send .finish ∧ e ≠ .receive .message := by
    cases e with
    | send e =>
      cases e <;> first | exact ⟨rfl, rfl, rfl, rfl, nofun, nofun⟩ | cases he
    | receive e =>
      cases e <;> first | exact ⟨rfl, rfl, rfl, rfl, nofun, nofun⟩ | cases he
    | carry | credit | dry => exact ⟨rfl, rfl, rfl, rfl, nofun, nofun⟩
  obtain ⟨past', h'⟩ := h.move hplain (by simp [hsend]) (by simp [hreceive])
    (by simpa [hnil] using h.size) hs
  simp only [hnil, List.append_nil, hfinish, hmessage, or_false] at h'
  exact ⟨_, past', h'⟩

/-! ## At rest -/

/-- Nothing moves by itself any more. -/
def Quiet (l : Link) : Prop := ∀ e, e.isMove = true → l.move e = none

theorem Quiet.writer (h : l.Quiet) : l.writer.Quiet := by
  constructor
  · intro i
    have hmove := h (.send (.work i)) rfl
    exact Option.map_eq_none_iff.1 hmove
  · have hmove := h (.send .advance) rfl
    exact Option.map_eq_none_iff.1 hmove

theorem Quiet.reader (h : l.Quiet) : l.reader.Quiet := by
  constructor
  · intro i
    have hmove := h (.receive (.work i)) rfl
    exact Option.map_eq_none_iff.1 hmove
  · have hmove := h (.receive .advance) rfl
    exact Option.map_eq_none_iff.1 hmove

/-- Nothing is on its way, and room was granted for all that was read. -/
theorem Quiet.pipes (h : l.Quiet) (i : Nat) :
    l.inFlight i = [] ∧ l.freed i = 0 := by
  constructor
  · have hmove := h (.carry i (l.inFlight i).length) rfl
    have hno : ¬ 0 < (l.inFlight i).length := by
      intro hpos
      simp [move, step, hpos] at hmove
    exact List.eq_nil_of_length_eq_zero (by omega)
  · have hmove := h (.credit i (l.freed i)) rfl
    have hno : ¬ 0 < l.freed i := by
      intro hpos
      simp [move, step, hpos] at hmove
    omega

/-- Everything on the wires has arrived. -/
theorem Fares.all_arrived (h : Fares n maxPayload capacity sent finished
    asked log past l) (hq : l.Quiet) {i : Nat} (hi : i < n) :
    l.carried i = (l.writer.wire i).length ∧
      (past.input i).tape = Tape.clean (l.writer.wire i) := by
  have hflight := congrArg List.length (hq.pipes i).1
  simp only [inFlight, List.length_drop, List.length_nil] at hflight
  have hcarried := h.passes.carried i hi
  have hall : l.carried i = (l.writer.wire i).length := by omega
  refine ⟨hall, ?_⟩
  rw [h.passes.arrived i hi, hall, List.take_length]

/-- **A reader that has started makes room** on every pipe that holds
anything at all. -/
theorem Fares.roomy (h : Fares n maxPayload capacity sent finished asked
    log past l) (hq : l.Quiet) (hcap : ∀ i < n, 0 < capacity i)
    (hm : l.reader.mode ≠ none) : l.writer.Roomy := by
  intro lane hmem
  obtain ⟨i, hl⟩ := List.getElem?_of_mem hmem
  have hi := h.writer.inv.lt hl
  obtain ⟨hcarried, htape⟩ := h.all_arrived hq hi
  -- all that has arrived was read
  obtain ⟨_, hinv, _⟩ := h.reader.serves
  obtain ⟨⟨c, phase⟩, hlane⟩ := hinv.lane_of_lt hi
  have hfront : (past.input i).tape <+:
      Tape.clean (encodeAll (past.plan i)) := by
    obtain ⟨more, hmore⟩ := h.front i hi
    rw [htape, ← hmore, encodeAll_append, Tape.clean_append]
    exact ((h.writer.inv.front hi).map _).trans
      (List.prefix_append _ _)
  have hread : c.tape = [] :=
    h.reader.emptied h.promises hq.reader hm hlane hfront
  have hunread : l.unread i = 0 := by
    have hle := c.unread_le
    rw [hread, List.length_nil] at hle
    simp only [unread, hlane]
    omega
  -- so there is room for as many bytes as the pipe holds
  have hfreed : l.carried i - l.unread i - l.credited i = 0 :=
    (hq.pipes i).2
  obtain ⟨quota, hquota, hroom⟩ := h.passes.room i hi
  have hpos := hcap i hi
  intro hzero
  rw [Writer.quota, hl] at hquota
  simp only [Outlet.quota, hzero, Option.map_some, Option.some.injEq]
    at hquota
  rw [Writer.wire_eq_of_lane hl] at hcarried
  omega

/-- **A link at rest**: no call of the user who sends waits. Once the
writer was finished, everything has arrived, and no call of the other user
waits; if the reader has started, both sides have counted the same. -/
theorem Fares.quiet (h : Fares n maxPayload capacity sent finished asked
    log past l) (hq : l.Quiet) (hroom : l.writer.Roomy ∨
      (∀ i < n, 0 < capacity i) ∧ l.reader.mode ≠ none) :
    l.writer.call = none ∧ (finished →
      l.writer.answer = some (.finished l.writer.stats) ∧
      l.reader.call = none ∧
      (l.reader.mode ≠ none → l.reader.stats = l.writer.stats)) := by
  have hroomy : l.writer.Roomy := by
    rcases hroom with hroomy | ⟨hcap, hm⟩
    · exact hroomy
    · exact h.roomy hq hcap hm
  have hover := h.writer.hale.quiet h.writer.inv hq.writer hroomy
  refine ⟨hover, ?_⟩
  intro hfin
  obtain ⟨hans, hstats, hrows, _⟩ := h.writer.finished hfin hover
  have hplan (i : Nat) (hi : i < n) : past.rows i = past.plan i :=
    (hrows i hi).1.eq_of_front (.inr (h.yields.carries i hi).ended)
      (h.front i hi)
  have hcarries (i : Nat) (hi : i < n) :
      Carries maxPayload (past.input i) (past.plan i) := by
    have hwhole := h.yields.carries i hi
    refine ⟨hwhole.wf, hwhole.le, hwhole.ended, [], ?_⟩
    rw [(h.all_arrived hq hi).2, (hrows i hi).2, hplan i hi,
      List.append_nil]
  obtain ⟨hcall, hmode⟩ := h.reader.quiet h.promises hcarries hq.reader
  refine ⟨hans, hcall, ?_⟩
  intro hm
  rw [(hmode hm).2.2, hstats]
  exact (Stats.tally_congr hplan).symm

end Rest

end Link

end Stripe
