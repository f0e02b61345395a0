import Stripe.Proofs.Writer.Fed
import Stripe.Proofs.Writer.Success

/-!
# A writer over sound connections at rest

When nothing can move any more and every connection has room, no call
waits (`Hale.quiet`): neither for a worker to take a segment
(`Hale.not_offering`), nor for one to leave (`Hale.not_stopping`). A writer
that was finished has everything on its wires (`Fares.finished`).
-/

namespace Stripe.Writer

open Segment Handoff Barrier

section Rest

variable {n : Nat} {sent : Bytes} {asked : Prop}
  {rows done : Nat → List Segment} {fed : List Segment} {w : Writer}

/-- Nothing moves by itself any more. -/
def Quiet (w : Writer) : Prop :=
  (∀ i, w.work i = none) ∧ w.advance = none

theorem Ruled.quiet_finishTurns (h : Ruled n w) :
    (crew.finishTurns w).Quiet := by
  obtain ⟨_, _, hstop⟩ := crew_drives.finished h
  exact ⟨fun i => hstop (.work i), hstop .call⟩

/-- Every connection takes a byte more. -/
def Roomy (w : Writer) : Prop :=
  ∀ lane ∈ w.lanes, lane.outlet.room ≠ some 0

/-- An idle worker that cannot move has posted its slot, or finds no room
to post it. -/
theorem Inv.idle_waits {loose : Prop} (h : Inv n loose rows done fed w)
    {i : Nat} {c : Outlet} (hl : w.lanes[i]? = some ⟨c, .idle⟩)
    (hw : w.work i = none) :
    w.disturbed i = false ∧ (w.handoff.slot i = .posted ∨
      w.handoff.capacity ≤ w.handoff.ready.length) := by
  have hr := recv_spec (h.seat_of_here hl rfl).1
  unfold Writer.work at hw
  rw [hl] at hw
  simp only [lookForSegment] at hw
  generalize w.handoff.recv i = r at hw hr
  obtain ⟨received, h'⟩ := r
  cases hr with
  | segment slot => cases hw
  | closed empty fed same => cases hw
  | waits slot fed =>
    simp only [bne_self_eq_false, Bool.false_eq_true, if_false] at hw
    exact ⟨by simpa using hw, .inl slot⟩
  | full slot fed full =>
    simp only [bne_self_eq_false, Bool.false_eq_true, if_false] at hw
    exact ⟨by simpa using hw, .inr full⟩
  | posts slot fed room after =>
    have hlen : i < w.handoff.receivers.length := by
      rw [h.handoff.size]
      exact h.lt hl
    have hposted := slot_setSlot
      (h := { w.handoff with ready := w.handoff.ready ++ [some i] })
      hlen .posted i
    rw [if_pos rfl, ← after] at hposted
    rw [slot, hposted] at hw
    cases hw

/-- A call that waits for the workers waits for one that holds its
signal. -/
theorem Inv.awaited {loose : Prop} (h : Inv n loose rows done fed w)
    {started copied : Option Error}
    (hc : w.call = some (.stopping started copied))
    (ha : w.advance = none) :
    ∃ i k, i < n ∧ w.barrier.owner = .waiting k ∧
      w.barrier.held i = true := by
  obtain ⟨_, howner⟩ := h.calling.stopping started copied hc
  cases awaits_of_rest hc ha with
  | stopping announced count =>
    obtain ⟨k, hk⟩ := howner.resolve_left announced
    have hcounts := count_spec hk
    rw [count] at hcounts
    cases hcounts with
    | waits empty attended =>
      obtain ⟨s, hs, hheld⟩ := List.any_eq_true.1 attended
      obtain ⟨i, hi⟩ := List.getElem?_of_mem hs
      have hlt : i < n := by
        rw [← h.barrier.size]
        exact (List.getElem?_eq_some_iff.1 hi).1
      exact ⟨i, k, hlt, hk, by simp [held, hi, hheld]⟩

/-- A worker that holds its signal has not left. -/
theorem Inv.not_over_of_held {loose : Prop}
    (h : Inv n loose rows done fed w) {i : Nat} {lane : Lane}
    (hl : w.lanes[i]? = some lane) (hheld : w.barrier.held i = true) :
    lane.phase.isOver = false := by
  cases h.lanes i lane hl with
  | still _ still _ _ _ _ => rcases still with rfl | rfl | rfl <;> rfl
  | @busy c phase s rest part _ _ _ _ _ _ _ =>
    cases phase with
    | writing u r last => rfl
    | ending r => rfl
    | _ => cases part
  | flushing _ _ _ _ _ => rfl
  | gone seated _ _ _ _ =>
    have hoff : w.barrier.held i = false := congrArg Seat.held seated
    rw [hheld] at hoff
    cases hoff
  | lost seated _ _ _ _ =>
    have hoff : w.barrier.held i = false := congrArg Seat.held seated
    rw [hheld] at hoff
    cases hoff

/-- A worker that cannot move, though its connection has room, has nothing
to write. -/
theorem Hale.resting (h : Hale n w) (hroom : w.Roomy) {i : Nat}
    {c : Outlet} {phase : Phase} (hl : w.lanes[i]? = some ⟨c, phase⟩)
    (hw : w.work i = none) :
    phase = .unstarted ∨ phase = .gone ∨ phase = .idle := by
  have hmem := List.mem_of_getElem? hl
  have hsound := (h.lanes _ hmem).outlet
  have hgo := h.unharmed.2
  have hfull {rest : Outgoing} (hwrite : rest.write c = none) : False :=
    hroom _ hmem (Outgoing.write_eq_none hsound hwrite)
  unfold Writer.work at hw
  rw [hl] at hw
  cases phase with
  | unstarted => exact .inl rfl
  | gone => exact .inr (.inl rfl)
  | idle => exact .inr (.inr rfl)
  | lost message => exact absurd rfl ((h.lanes _ hmem).kept message)
  | asking => cases hw
  | flushing => cases hw
  | writing s rest last =>
    simp only [writeOn, hgo, Bool.false_eq_true, if_false] at hw
    cases hwrite : rest.write c with
    | none => exact (hfull hwrite).elim
    | some r =>
      obtain ⟨p, c'⟩ := r
      rw [hwrite] at hw
      cases p <;> cases hw
  | ending rest =>
    simp only [writeEnd, hgo, Bool.false_eq_true, if_false] at hw
    cases hwrite : rest.write c with
    | none => exact (hfull hwrite).elim
    | some r =>
      obtain ⟨p, c'⟩ := r
      rw [hwrite] at hw
      cases p <;> cases hw

/-- **A segment does not wait for ever**: a worker that has nothing to do
finds room to post its slot. -/
theorem Hale.not_offering (h : Hale n w)
    (hinv : Inv n False rows done fed w) (hq : w.Quiet) (hroom : w.Roomy)
    {s : Segment} {job : Job} :
    w.call ≠ some (.offering s job) := by
  intro hc
  have hrunning := (hinv.calling.offering s job hc).1
  have hopen : w.stage ≠ .closed := by simp [hrunning]
  -- no slot is posted, so the queue is empty
  have hnone (j : Nat) : w.handoff.slot j ≠ .posted := by
    cases awaits_of_rest hc hq.2 with
    | offering going pending =>
      have hands := hands_spec s hinv.handoff
      rw [pending] at hands
      cases hands with
      | pending idle => exact idle j
      | refused _ waits _ _ _ _ => exact absurd rfl waits
  have hempty : w.handoff.ready = [] := by
    rw [List.eq_nil_iff_forall_not_mem]
    intro posted hmem
    cases posted with
    | none => exact h.posted hopen hmem
    | some j =>
      have hcount := hinv.handoff.posted (hinv.idle hopen).2 j
      rw [if_neg (hnone j), List.count_eq_zero] at hcount
      exact hcount hmem
  obtain ⟨⟨c, phase⟩, hl⟩ := hinv.lane_of_lt hinv.pos
  have hover := h.not_over hinv hopen hl
  rcases h.resting hroom hl (hq.1 0) with rfl | rfl | rfl
  · have hstarted := hinv.started (by simp [hrunning])
    exact hstarted.resolve_left id (List.mem_of_getElem? (phases_eq_some hl))
  · cases hover
  · rcases (hinv.idle_waits hl (hq.1 0)).2 with hposted | hfull
    · exact hnone 0 hposted
    · have hpos := hinv.handoff.capacity
      rw [hempty, List.length_nil] at hfull
      omega

/-- **No worker is waited for in vain**: one that has not left finds that
it is to stop. -/
theorem Hale.not_stopping (h : Hale n w)
    (hinv : Inv n False rows done fed w) (hq : w.Quiet) (hroom : w.Roomy)
    {started copied : Option Error} :
    w.call ≠ some (.stopping started copied) := by
  intro hc
  have hclosed := (hinv.calling.stopping started copied hc).1
  obtain ⟨i, k, hi, hk, hheld⟩ := hinv.awaited hc hq.2
  obtain ⟨⟨c, phase⟩, hl⟩ := hinv.lane_of_lt hi
  have hover := hinv.not_over_of_held hl hheld
  rcases h.resting hroom hl (hq.1 i) with rfl | rfl | rfl
  · have hstarted := hinv.started (by simp [hclosed])
    exact hstarted.resolve_left id
      (List.mem_of_getElem? (phases_eq_some hl))
  · cases hover
  · -- the token was sent, so the worker has a reason to look for it
    have hdisturbed := (hinv.idle_waits hl (hq.1 i)).1
    simp only [disturbed, Bool.or_eq_false_iff, bne_eq_false_iff_eq]
      at hdisturbed
    have htoken := (shouldStop_eq_pending_iff hinv.barrier hheld).1
      hdisturbed.2
    obtain ⟨s, hs, _⟩ := exists_of_held hheld
    have hwait : s.token = .waiting := by simpa [token, hs] using htoken
    have hfits := (hinv.barrier.signals s
      (List.mem_of_getElem? hs)).waiting.1 hwait
    rw [hk] at hfits
    rcases hfits with he | he <;> cases he

/-- **A writer at rest**: no call waits, if every connection has room. -/
theorem Hale.quiet (h : Hale n w) (hinv : Inv n False rows done fed w)
    (hq : w.Quiet) (hroom : w.Roomy) : w.call = none := by
  cases hc : w.call with
  | none => rfl
  | some call =>
    cases awaits_of_rest hc hq.2 with
    | offering going pending =>
      exact absurd hc (h.not_offering hinv hq hroom)
    | stopping announced count =>
      exact absurd hc (h.not_stopping hinv hq hroom)

/-- **A worker that has left** has written all that it was handed, and its
terminal segment. -/
theorem Fares.gone (h : Fares n sent asked rows done fed w) {i : Nat}
    {c : Outlet} (hl : w.lanes[i]? = some ⟨c, .gone⟩) :
    rows i = done i ∧ Ended (rows i) ∧ c.wire = encodeAll (rows i) := by
  obtain ⟨heq, hwire, init, hrow, hinit⟩ :=
    h.inv.whole_of_gone hl (by simp [h.unharmed.2])
  exact ⟨heq, ⟨init, _, hrow, hinit, isTerminal_terminal _⟩, hwire⟩

/-- **`finish` is over**: all segments are on the wires, and were
counted. -/
theorem Fares.finished (h : Fares n sent asked rows done fed w)
    (ha : asked) (hc : w.call = none) :
    w.answer = some (.finished w.stats) ∧ w.stats = Stats.tally n rows ∧
      (∀ i < n, Ended (rows i) ∧ w.wire i = encodeAll (rows i)) ∧
      joined fed = sent := by
  have howes : joined fed = sent := by
    have := h.owes
    simpa [owed, hc] using this
  obtain ⟨hfed, hans⟩ : w.handoff.fed = false ∧
      w.answer = some (.finished w.stats) := by
    cases h.course with
    | resting _ unasked _ => exact absurd ha unasked
    | sending hcall _ _ _ => rw [hc] at hcall; cases hcall
    | stopping hcall _ => rw [hc] at hcall; cases hcall
    | shutting hcall _ _ => rw [hc] at hcall; cases hcall
    | finished _ _ fed _ ans => exact ⟨fed, ans⟩
  have hall := (h.inv.closing hfed).resolve_left id
  have hgone (i : Nat) (hi : i < n) : rows i = done i ∧
      Ended (rows i) ∧ w.wire i = encodeAll (rows i) := by
    obtain ⟨⟨c, phase⟩, hl⟩ := h.inv.lane_of_lt hi
    obtain rfl : phase = .gone :=
      h.hale.all_gone hall phase (List.mem_of_getElem? (phases_eq_some hl))
    rw [wire_eq_of_lane hl]
    exact h.gone hl
  refine ⟨hans, ?_, fun i hi => (hgone i hi).2, howes⟩
  rw [h.inv.stats]
  exact Stats.tally_congr fun i hi => (hgone i hi).1.symm

end Rest

end Stripe.Writer
