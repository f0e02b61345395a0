import Stripe.Proofs.Writer.Ruin

/-!
# What a call waits for

A call that offers a segment waits until a worker takes it. Slots in the
queue are closed only once the writer was stopped or closed (`Tight`), so
before that an idle worker always finds room to post its slot. When nothing
moves by itself any more, the call waits for workers that all write, and
each of them waits for its connection to take a byte
(`Reached.blocked`).
-/

namespace Stripe.Writer

open Segment Handoff Barrier

/-- No slot is closed while segments are handed over. -/
def Tight (w : Writer) : Prop :=
  w.stage ≠ .closed → w.cancelled = false → none ∉ w.handoff.ready

/-- A worker waits for its connection to take a byte. -/
def Blocked (w : Writer) : Prop :=
  ∃ (i : Nat) (c : Outlet) (s : Segment) (rest : Outgoing) (last : Bool),
    w.lanes[i]? = some ⟨c, .writing s rest last⟩ ∧ rest.write c = none

section Waiting

variable {n : Nat} {es : List Event} {k : Record} {loose : Prop}
  {rows done : Nat → List Segment} {fed : List Segment} {w w' : Writer}
  {e : Event}

/-- A receiver without a posted slot closes none when it leaves. -/
theorem none_ready_leave {h : Handoff} (hs : h.Sane n) (hf : h.fed = true)
    {i : Nat} (hslot : h.slot i ≠ .posted) (hn : none ∈ (h.leave i).ready) :
    none ∈ h.ready := by
  obtain ⟨posted, hmem, hp⟩ := List.mem_map.1 hn
  by_cases hi : posted = some i
  · subst hi
    have hcount := hs.posted hf i
    rw [if_neg hslot, List.count_eq_zero] at hcount
    exact absurd hmem hcount
  · rw [if_neg hi] at hp
    exact hp ▸ hmem

/-- **A worker** that goes on, in a writer that runs, closes no slot. -/
theorem Inv.tight_work (h : Inv n loose rows done fed w) (hl : ¬ loose)
    {i : Nat} (hw : Worked i w w') (hopen : w.stage ≠ .closed)
    (hgo : w'.cancelled = false) (hn : none ∈ w'.handoff.ready) :
    none ∈ w.handoff.ready := by
  have hstop (hc : w.cancelled = true) : False := by
    rw [hw.frame.2.2.2.2.2 hc] at hgo
    cases hgo
  cases hw with
  | begin lane slot => exact hn
  | post lane slot receives slot' queue => simpa [queue] using hn
  | ask lane empty disturbed => exact hn
  | quit lane receives =>
    cases receives with
    | closed _ fed _ =>
      rw [(h.idle hopen).2] at fed
      cases fed
  | last lane judges taken =>
    exact absurd (h.closed_of_stop lane rfl judges) hopen
  | obey lane judges taken =>
    exact absurd (h.closed_of_stop lane rfl judges) hopen
  | dismiss lane judges why =>
    rcases why with rfl | hc
    · exact absurd (h.loose_of_stop lane rfl judges) hl
    · exact (hstop hc).elim
  | back lane judges why going => exact hn
  | halt lane part stopped => exact (hstop stopped).elim
  | more lane part going write => exact hn
  | @written c c' phase s rest lane part going write =>
    cases phase with
    | writing u r last => cases last <;> exact hn
    | _ => exact hn
  | failed lane part going write => cases hgo
  | panicked lane part going write =>
    obtain ⟨_, hseat, _⟩ := h.busy lane part
    have hslot : w.handoff.slot i = .unposted := congrArg Seat.slot hseat
    exact none_ready_leave h.handoff (h.idle hopen).2 (by simp [hslot]) hn
  | flushed lane flush =>
    exact absurd (List.mem_of_getElem? (phases_eq_some lane)) (h.calm hopen)
  | unflushed lane flush => cases hgo

/-- **A call** closes no slot before it has told the workers to stop. -/
theorem Inv.tight_advance (h : Inv n loose rows done fed w)
    (ha : w.advance = some w') (hopen : w'.stage ≠ .closed)
    (hgo : w'.cancelled = false) (hn : none ∈ w'.handoff.ready) :
    none ∈ w.handoff.ready := by
  have hreject {v : Writer} {e : Error} {job : Job}
      (hn : none ∈ (v.reject e job).handoff.ready) :
      none ∈ v.handoff.ready := by
    generalize hr : v.reject e job = v' at hn
    cases reject_cases hr with
    | turn => exact hn
    | close stage => exact hn
    | fails e' => exact hn
  cases advance_cases h.maxLen ha with
  | start call stage => exact hn
  | resume call stage => exact hn
  | late call stage => exact hreject hn
  | abort call stopped => exact hreject hn
  | @hand s job i h' call going send =>
    have hands := hands_spec s h.handoff
    rw [send] at hands
    cases hands with
    | refused fails _ _ _ _ _ => exact absurd rfl (fails i)
    | sent _ _ _ _ queue => exact queue hn
  | @alone s job r h' call going send fails waits =>
    have hold : none ∈ h'.ready := hreject hn
    have sends := send_spec s w.handoff
    rw [send] at sends
    cases sends with
    | gone fed => exact hold
    | sent fed first le => exact absurd rfl (fails _)
    | waits fed nobody attended => cases hold
    | deserted fed nobody attended => cases hold
  | proceed call proceeds =>
    cases proceeds with
    | broken fill => exact hreject hn
    | _ => exact hn
  | announce call owner => exact hn
  | tally call owner count => exact hn
  | settle call owner count =>
    exact absurd (h.calling.stopping _ _ call).1 hopen
  | @shut next _ _ _ call lt =>
    exact absurd (((h.onward_advance ha).closed
      (h.calling.shutting _ _ _ _ call).1).1) hopen
  | conclude call le => exact hn

/-- **Whatever happens**, no slot is closed before that. -/
theorem Tight.step (ht : w.Tight) (h : Inv n loose rows done fed w)
    (hl : loose → w.Spent) (hs : w.step e = some w') : w'.Tight := by
  intro hopen hgo hn
  have honward := h.onward hs
  have hopen₀ (hc : w.stage = .closed) : False :=
    hopen (honward.closed hc).1
  have hgo₀ : w.cancelled = false := by
    cases hc : w.cancelled with
    | false => rfl
    | true =>
      rw [honward.cancelled hc] at hgo
      cases hgo
  refine ht hopen₀ hgo₀ ?_
  cases step_cases hs with
  | work work =>
    exact h.tight_work (fun hloose => hopen₀ (hl hloose).1)
      (h.worked work) hopen₀ hgo hn
  | advance advance => exact h.tight_advance advance hopen hgo hn
  | begin idle begins => exact hn
  | abandon busy =>
    unfold Writer.abandon at hn
    split at hn
    · rename_i started copied hc
      exact (hopen₀ (h.closed_of_last hc rfl)).elim
    · rename_i next k started copied hc
      exact (hopen₀ (h.closed_of_last hc rfl)).elim
    · exact hn
  | cancel => cases hgo
  | drop => exact absurd (stage_drop w) hopen
  | room i m => exact hn

theorem tight_run {outlets : List Outlet} {config : Config} {w₀ : Writer}
    (hmake : make outlets config = .ok w₀)
    (hblank : ∀ c ∈ outlets, c.log = #[])
    (hrun : run Writer.step w₀ es = some w) : w.Tight := by
  have hfirst : w₀.Tight := by
    obtain ⟨_, _, rfl⟩ := make_eq_ok hmake
    intro _ _ hn
    cases hn
  exact ((reached_make hmake hblank).always (P := Tight) hfirst
    (fun _ _ hv ht hs => ht.step hv.inv hv.spent hs) hrun).1

/-- Of a queue without closed slots nothing is left when nobody waits. -/
theorem ready_eq_nil {h : Handoff} (hn : none ∉ h.ready)
    (hw : h.waiting = []) : h.ready = [] := by
  rw [List.eq_nil_iff_forall_not_mem]
  intro posted hmem
  cases posted with
  | none => exact hn hmem
  | some i =>
    have hi : i ∈ h.waiting := List.mem_filterMap.2 ⟨some i, hmem, rfl⟩
    rw [hw] at hi
    cases hi

/-- A call that waits with a segment waits for receivers that are there, but
have not posted their slots. -/
theorem nobody_of_offering {s : Segment} {job : Job}
    (hc : w.call = some (.offering s job)) (ha : w.advance = none) :
    w.cancelled = false ∧ w.handoff.fed = true ∧ w.handoff.waiting = [] ∧
      ∃ i, w.handoff.present i = true := by
  cases awaits_of_rest hc ha with
  | offering going pending =>
    have sends := send_spec s w.handoff
    rw [pending] at sends
    generalize (w.handoff.send s).2 = h' at sends
    cases sends with
    | waits fed nobody attended =>
      refine ⟨going, fed, nobody, ?_⟩
      by_cases hany : ∃ i, w.handoff.present i = true
      · exact hany
      · have := attended_eq_false.2 fun i => by
          simpa using fun hp => hany ⟨i, hp⟩
        rw [attended] at this
        cases this

/-- **A segment waits for a connection**, if nothing moves by itself. -/
theorem Reached.blocked (h : Reached n es k loose rows done w)
    (ht : w.Tight) (hq : w.Quiet) {s : Segment} {job : Job}
    (hc : w.call = some (.offering s job)) : w.Blocked := by
  have hrunning := (h.inv.calling.offering s job hc).1
  have hopen : w.stage ≠ .closed := by simp [hrunning]
  have hloose : ¬ loose := fun hl => hopen (h.spent hl).1
  obtain ⟨hgo, hfed, hnobody, i, hpresent⟩ := nobody_of_offering hc hq.2
  have hi : i < n := by
    have := present_of_lt hpresent
    rwa [h.inv.handoff.size] at this
  obtain ⟨⟨c, phase⟩, hl⟩ := h.inv.lane_of_lt hi
  have hw := hq.1 i
  cases h.inv.lanes i _ hl with
  | still slot still seated made wire isOpen =>
    rcases still with rfl | rfl | rfl
    · have hstarted := h.inv.started (by simp [hrunning])
      exact absurd (List.mem_of_getElem? (phases_eq_some hl))
        (hstarted.resolve_left hloose)
    · -- it has not posted its slot, and finds room for it
      rcases (h.inv.idle_waits hl hw).2 with hposted | hfull
      · have := (h.inv.handoff.mem_waiting hfed).2 hposted
        rw [hnobody] at this
        cases this
      · have hpos := h.inv.handoff.capacity
        rw [ready_eq_nil (ht hopen hgo) hnobody, List.length_nil] at hfull
        omega
    · simp [Writer.work, hl] at hw
  | @busy _ _ s' rest part seated made wire left isOpen plain told =>
    cases phase with
    | writing u r last =>
      refine ⟨i, c, u, r, last, hl, ?_⟩
      simp only [Writer.work, hl, writeOn, hgo, Bool.false_eq_true,
        if_false] at hw
      cases hwrite : r.write c with
      | none => rfl
      | some p =>
        obtain ⟨p, c'⟩ := p
        rw [hwrite] at hw
        cases p <;> cases hw
    | ending r =>
      rcases told with htold | ⟨u, r', hp⟩
      · exact absurd (h.inv.closed_of_told htold) hopen
      · cases hp
    | _ => cases part
  | flushing seated made wire isOpen told =>
    exact absurd (h.inv.closed_of_told told) hopen
  | gone seated front counted shaped why =>
    have := congrArg Seat.present seated
    rw [show (w.seat i).present = true from hpresent] at this
    cases this
  | lost seated front counted shaped begun =>
    have := congrArg Seat.present seated
    rw [show (w.seat i).present = true from hpresent] at this
    cases this

end Waiting

end Stripe.Writer
