import Stripe.Proofs.Ledger
import Stripe.Proofs.Writer.Halt

/-!
# A writer that sends nothing more

There are two ways for a writer to come to an end before it is finished: it
is stopped, or it loses every worker, which stops nothing (`Ruined`).
Nothing is handed over then, no connection can fail, and no worker is lost
any more (`Ruined.step`). `finish` is left. It fails with the failure that
was recorded first; if there is none, with the loss of the first worker
that was lost, which nobody has recorded so far; if there is none either,
it says that the writer was stopped (`Closes.step`).
-/

namespace Stripe.Writer

open Segment Handoff Barrier

/-- How the loss of worker `i` is reported, if it was lost. -/
def lossAt (w : Writer) (i : Nat) : Option Error :=
  match w.phases[i]? with
  | some (.lost message) => some (.transport i ⟨.other, lossText message⟩)
  | _ => none

/-- The first loss among the first `k` workers. -/
def lossBelow (w : Writer) (k : Nat) : Option Error :=
  (List.range k).findSome? w.lossAt

/-- The first loss. -/
def loss (w : Writer) : Option Error := w.lossBelow w.connections

/-- The writer was stopped, or every worker was lost; and no worker is about
to flush its connection. -/
structure Ruined (w : Writer) : Prop where
  begun : w.stage ≠ .fresh
  why : w.cancelled = true ∨
    ∀ i < w.connections, (w.lossAt i).isSome = true
  calm : Phase.flushing ∉ w.phases

/-- A call is finishing the writer, or has done so; `recorded` is what had
failed before. -/
inductive Closes (recorded : Option Error) (w : Writer) : Prop where
  | opening {copied : Option Error}
      (call : w.call = some (.opening (.finish copied)))
      (stage : w.stage = .running) (failure : w.failure = recorded) :
      Closes recorded w
  | working {copied : Option Error}
      (call : w.call = some (.working (.finish copied)))
      (failure : w.failure = recorded) : Closes recorded w
  | stopping {started copied : Option Error}
      (call : w.call = some (.stopping started copied))
      (failure : w.failure = recorded) : Closes recorded w
  | shutting {next k : Nat} {started copied : Option Error}
      (call : w.call = some (.shutting next k started copied))
      (le : next ≤ w.connections)
      (failure : w.failure = recorded.or (w.lossBelow next)) :
      Closes recorded w
  | ended (call : w.call = none)
      (answer : w.answer =
        some (.failed ((recorded.or w.loss).getD .cancelled))) :
      Closes recorded w

/-! ## Losses -/

section Losses

variable {w w' : Writer}

theorem connections_eq (w : Writer) : w.connections = w.phases.length :=
  (length_phases w).symm

theorem connections_congr (h : w'.phases = w.phases) :
    w'.connections = w.connections := by
  rw [connections_eq, connections_eq, h]

theorem lossAt_congr (h : w'.phases = w.phases) : w'.lossAt = w.lossAt := by
  funext i
  unfold lossAt
  rw [h]

theorem lossBelow_congr (h : w'.lossAt = w.lossAt) (k : Nat) :
    w'.lossBelow k = w.lossBelow k := by
  unfold lossBelow
  rw [h]

theorem lossBelow_succ (w : Writer) (k : Nat) :
    w.lossBelow (k + 1) = (w.lossBelow k).or (w.lossAt k) := by
  have hone : [k].findSome? w.lossAt = w.lossAt k := by
    cases hk : w.lossAt k <;> simp [hk]
  unfold lossBelow
  rw [List.range_succ, List.findSome?_append, hone]

theorem lossAt_of_lost {i : Nat} {c : Outlet} {message : String}
    (hl : w.lanes[i]? = some ⟨c, .lost message⟩) :
    w.lossAt i = some (.transport i ⟨.other, lossText message⟩) := by
  simp [lossAt, phases_eq_some hl]

theorem lossAt_eq_none {i : Nat} {lane : Lane}
    (hl : w.lanes[i]? = some lane) (hn : ∀ m, lane.phase ≠ .lost m) :
    w.lossAt i = none := by
  simp only [lossAt, phases_eq_some hl]
  cases hp : lane.phase with
  | lost message => exact absurd hp (hn message)
  | _ => rfl

/-- A worker that is there has not been lost. -/
theorem lossAt_of_here {i : Nat} {lane : Lane}
    (hl : w.lanes[i]? = some lane) (here : lane.phase.isHere = true) :
    w.lossAt i = none := by
  refine lossAt_eq_none hl fun m hm => ?_
  rw [hm] at here
  cases here

/-- A worker has moved, and was not lost. -/
theorem lossAt_set {i : Nat} {lane : Lane} {phase : Phase}
    (hl : w.lanes[i]? = some lane) (here : lane.phase.isHere = true)
    (hset : w'.phases = w.phases.set i phase)
    (hn : ∀ m, phase ≠ .lost m) : w'.lossAt = w.lossAt := by
  funext j
  obtain ⟨hi, _⟩ := List.getElem?_eq_some_iff.1 (phases_eq_some hl)
  by_cases hj : i = j
  · subst hj
    rw [lossAt_of_here hl here]
    unfold lossAt
    rw [hset, List.getElem?_set_self hi]
    cases phase with
    | lost message => exact absurd rfl (hn message)
    | _ => rfl
  · unfold lossAt
    rw [hset, List.getElem?_set_ne hj]

end Losses

section Ruin

variable {n : Nat} {es : List Event} {k : Record} {loose : Prop}
  {rows done : Nat → List Segment} {fed : List Segment} {w w' : Writer}
  {e : Event} {recorded : Option Error}

/-! ## What goes on -/

/-- A worker that moves is there. -/
theorem Worked.here {i : Nat} (h : Worked i w w') :
    ∃ lane, w.lanes[i]? = some lane ∧ lane.phase.isHere = true := by
  have hbusy {c : Outlet} {phase : Phase} {s : Segment} {rest : Outgoing}
      (hl : w.lanes[i]? = some ⟨c, phase⟩)
      (hp : phase.part w.cursor = some (s, rest)) :
      ∃ lane, w.lanes[i]? = some lane ∧ lane.phase.isHere = true := by
    refine ⟨_, hl, ?_⟩
    cases phase <;> first | rfl | cases hp
  cases h with
  | begin lane slot => exact ⟨_, lane, rfl⟩
  | post lane slot receives slot' queue => exact ⟨_, lane, rfl⟩
  | ask lane empty disturbed => exact ⟨_, lane, rfl⟩
  | quit lane receives => exact ⟨_, lane, rfl⟩
  | last lane judges taken => exact ⟨_, lane, rfl⟩
  | obey lane judges taken => exact ⟨_, lane, rfl⟩
  | dismiss lane judges why => exact ⟨_, lane, rfl⟩
  | back lane judges why going => exact ⟨_, lane, rfl⟩
  | halt lane part stopped => exact hbusy lane part
  | more lane part going write => exact hbusy lane part
  | written lane part going write => exact hbusy lane part
  | failed lane part going write => exact hbusy lane part
  | panicked lane part going write => exact hbusy lane part
  | flushed lane flush => exact ⟨_, lane, rfl⟩
  | unflushed lane flush => exact ⟨_, lane, rfl⟩

/-- Who is there has not been lost, so the writer was stopped. -/
theorem Ruined.stopped (hr : w.Ruined) {i : Nat} {lane : Lane}
    (hl : w.lanes[i]? = some lane) (here : lane.phase.isHere = true) :
    w.cancelled = true := by
  refine hr.why.resolve_right fun hall => ?_
  have hlost := hall i (List.getElem?_eq_some_iff.1 hl).1
  rw [lossAt_of_here hl here] at hlost
  cases hlost

/-- The workers are where they were. -/
theorem Ruined.of_phases (hr : w.Ruined) (hp : w'.phases = w.phases)
    (hs : w'.stage ≠ .fresh)
    (hc : w.cancelled = true → w'.cancelled = true) :
    w'.Ruined ∧ w'.lossAt = w.lossAt := by
  have hloss := lossAt_congr hp
  refine ⟨⟨hs, ?_, hp ▸ hr.calm⟩, hloss⟩
  rw [hloss, connections_congr hp]
  exact hr.why.imp_left hc

/-- **A worker** can do no more than leave. -/
theorem Ruined.work {i : Nat} (hr : w.Ruined) (h : Worked i w w') :
    w'.Ruined ∧ w'.lossAt = w.lossAt ∧ w'.failure = w.failure := by
  obtain ⟨lane, hl, here⟩ := h.here
  have hstop := hr.stopped hl here
  obtain ⟨_, hstage, _, _, _, hstop'⟩ := h.frame
  have hgoes (going : w.cancelled = false) : False := by
    rw [hstop] at going
    cases going
  have hset {phase : Phase} (hphases : w'.phases = w.phases.set i phase)
      (hf : w'.failure = w.failure) (hn : ∀ m, phase ≠ .lost m)
      (hcalm : phase ≠ .flushing) :
      w'.Ruined ∧ w'.lossAt = w.lossAt ∧ w'.failure = w.failure := by
    refine ⟨⟨hstage ▸ hr.begun, .inl (hstop' hstop), ?_⟩,
      lossAt_set hl here hphases hn, hf⟩
    rw [hphases]
    intro hmem
    rcases List.mem_or_eq_of_mem_set hmem with hold | hnew
    · exact hr.calm hold
    · exact hcalm hnew.symm
  cases h with
  | begin lane slot => exact hset (phases_setLane ..) rfl (by simp) (by simp)
  | @post _ h' lane slot receives slot' queue =>
    have hsame : { w with handoff := h' }.phases = w.phases := rfl
    obtain ⟨hr', hloss⟩ := hr.of_phases hsame hr.begun id
    exact ⟨hr', hloss, rfl⟩
  | ask lane empty disturbed =>
    exact hset (phases_setLane ..) rfl (by simp) (by simp)
  | quit lane receives => exact hset (phases_setLane ..) rfl (by simp) (by simp)
  | last lane judges taken =>
    exact hset (phases_setLane ..) rfl (by simp) (by simp)
  | obey lane judges taken =>
    exact hset (phases_setLane ..) rfl (by simp) (by simp)
  | dismiss lane judges why =>
    exact hset (phases_setLane ..) rfl (by simp) (by simp)
  | back lane judges why going => exact (hgoes going).elim
  | halt lane part stopped =>
    exact hset (phases_setLane ..) rfl (by simp) (by simp)
  | more lane part going write => exact (hgoes going).elim
  | written lane part going write => exact (hgoes going).elim
  | failed lane part going write => exact (hgoes going).elim
  | panicked lane part going write => exact (hgoes going).elim
  | flushed lane flush =>
    exact absurd (List.mem_of_getElem? (phases_eq_some lane)) hr.calm
  | unflushed lane flush =>
    exact absurd (List.mem_of_getElem? (phases_eq_some lane)) hr.calm

/-- A call leaves the workers where they are, once they have started. -/
theorem phases_advance (hm : 0 < w.config.maxSegmentLen)
    (hs : w.stage ≠ .fresh) (ha : w.advance = some w') :
    w'.phases = w.phases ∧ w'.stage ≠ .fresh := by
  have hlanes {v : Writer} (h : v.lanes = w.lanes) :
      v.phases = w.phases := by
    simp only [phases, h]
  have hreject (v : Writer) (e : Error) (job : Job)
      (hl : v.lanes = w.lanes) (hv : v.stage ≠ .fresh) :
      (v.reject e job).phases = w.phases ∧
        (v.reject e job).stage ≠ .fresh := by
    refine ⟨hlanes ((idles_reject e job v).lanes.trans hl), ?_⟩
    generalize hr : v.reject e job = v'
    cases reject_cases hr with
    | turn => exact hv
    | close stage => simp [setCall]
    | fails e' => exact hv
  cases advance_cases hm ha with
  | start call stage => exact absurd stage hs
  | resume call stage => exact ⟨rfl, hs⟩
  | late call stage => exact hreject _ _ _ rfl hs
  | abort call stopped => exact hreject _ _ _ rfl hs
  | hand call going send => exact ⟨rfl, hs⟩
  | alone call going send fails waits => exact hreject _ _ _ rfl hs
  | proceed call proceeds =>
    refine ⟨hlanes (idles_proceeds proceeds).lanes, ?_⟩
    cases proceeds with
    | broken fill => exact (hreject _ _ _ rfl hs).2
    | close => simp [setCall]
    | _ => exact hs
  | announce call owner => exact ⟨rfl, hs⟩
  | tally call owner count => exact ⟨rfl, hs⟩
  | settle call owner count => exact ⟨rfl, hs⟩
  | @shut next _ _ _ call lt =>
    obtain ⟨keeps, _, ⟨hstage, _, _⟩, _⟩ := shutLane_spec w next
    exact ⟨keeps.phases, by simpa [setCall, hstage] using hs⟩
  | conclude call le => exact ⟨rfl, hs⟩

/-- **Whatever happens**, nobody is lost any more. -/
theorem Ruined.step (hr : w.Ruined) (h : Inv n loose rows done fed w)
    (hs : w.step e = some w') : w'.Ruined ∧ w'.lossAt = w.lossAt := by
  have hstop := (h.onward hs).cancelled
  have hlanes (hl : w'.lanes = w.lanes) (hf : w'.stage ≠ .fresh) :
      w'.Ruined ∧ w'.lossAt = w.lossAt :=
    hr.of_phases (by simp only [phases, hl]) hf hstop
  cases step_cases hs with
  | work work =>
    obtain ⟨hr', hloss, _⟩ := hr.work (h.worked work)
    exact ⟨hr', hloss⟩
  | advance advance =>
    obtain ⟨hp, hf⟩ := phases_advance h.maxLen hr.begun advance
    exact hr.of_phases hp hf hstop
  | begin idle begins => exact hlanes rfl hr.begun
  | abandon busy => exact hlanes (by simp) (by simpa using hr.begun)
  | cancel => exact hlanes rfl hr.begun
  | drop => exact hlanes (by simp) (by simp)
  | room i m =>
    exact hr.of_phases (phases_grantRoom i m w) hr.begun hstop

/-- Unless the writer was stopped, every worker was lost. -/
theorem Ruined.lost (hr : w.Ruined) (h : Inv n loose rows done fed w)
    (hgo : w.cancelled = false) {i : Nat} {lane : Lane}
    (hl : w.lanes[i]? = some lane) : ∃ m, lane.phase = .lost m := by
  have hall := hr.why.resolve_left (by simp [hgo])
  have hlost := hall i (by rw [connections, h.size]; exact h.lt hl)
  by_cases hn : ∃ m, lane.phase = .lost m
  · exact hn
  · rw [lossAt_eq_none hl fun m hm => hn ⟨m, hm⟩] at hlost
    cases hlost

theorem Ruined.seat (hr : w.Ruined) (h : Inv n loose rows done fed w)
    (hgo : w.cancelled = false) {i : Nat} (hi : i < n) :
    w.seat i = ⟨false, .unposted, false⟩ := by
  obtain ⟨⟨c, phase⟩, hl⟩ := h.lane_of_lt hi
  obtain ⟨m, rfl⟩ := hr.lost h hgo hl
  cases h.lanes i _ hl with
  | still _ still _ _ _ _ => rcases still with he | he | he <;> cases he
  | busy part _ _ _ _ _ _ _ => cases part
  | lost seated _ _ _ _ => exact seated

/-- No worker takes a segment any more. -/
theorem Ruined.send (hr : w.Ruined) (h : Inv n loose rows done fed w)
    (hgo : w.cancelled = false) (s : Segment) :
    (∀ i, (w.handoff.send s).1 ≠ .sent i) ∧
      (w.handoff.send s).1 ≠ .pending := by
  have hseat (i : Nat) (hi : i < n) := hr.seat h hgo hi
  have hslot (i : Nat) : w.handoff.slot i ≠ .posted := by
    intro hp
    have hi := h.handoff.lt (i := i) (by simp [hp])
    have hun : w.handoff.slot i = .unposted := congrArg Seat.slot (hseat i hi)
    rw [hp] at hun
    cases hun
  have habsent (i : Nat) : w.handoff.present i = false := by
    by_cases hp : w.handoff.present i = true
    · have hi := present_of_lt hp
      rw [h.handoff.size] at hi
      exact congrArg Seat.present (hseat i hi)
    · simpa using hp
  have sends := send_spec s w.handoff
  generalize (w.handoff.send s).1 = r, (w.handoff.send s).2 = h' at sends
  cases sends with
  | gone fed => exact ⟨nofun, nofun⟩
  | deserted fed nobody attended => exact ⟨nofun, nofun⟩
  | @sent i rest fed first le =>
    have hmem := (h.handoff.mem_waiting fed).1 (first ▸ List.mem_cons_self)
    exact absurd hmem (hslot i)
  | waits fed nobody attended =>
    rw [attended_eq_false.2 habsent] at attended
    cases attended

/-- **A writer at rest** has no call in flight. -/
theorem Ruined.at_rest (hr : w.Ruined) (h : Reached n es k loose rows done w)
    (hq : w.Quiet) : w.call = none := by
  by_cases hstop : w.cancelled = true
  · exact h.at_rest hstop hq
  have hgo : w.cancelled = false := by simpa using hstop
  cases hc : w.call with
  | none => rfl
  | some call =>
    cases awaits_of_rest hc hq.2 with
    | @offering s job going pending =>
      exact absurd pending (hr.send h.inv hgo s).2
    | stopping announced count =>
      obtain ⟨i, _, hi, _, hheld⟩ := h.inv.awaited hc hq.2
      have hoff : w.barrier.held i = false :=
        congrArg Seat.held (hr.seat h.inv hgo hi)
      rw [hheld] at hoff
      cases hoff

/-! ## Before the writer is finished -/

/-- Before the writer is finished, nobody flushes. -/
theorem Inv.calm (h : Inv n loose rows done fed w)
    (hs : w.stage ≠ .closed) : Phase.flushing ∉ w.phases := by
  intro hmem
  obtain ⟨⟨c, phase⟩, hlane, heq⟩ := List.mem_map.1 hmem
  obtain rfl : phase = .flushing := heq
  obtain ⟨i, hl⟩ := List.getElem?_of_mem hlane
  obtain ⟨_, _, _, told⟩ := (h.lanes i _ hl).of_flushing
  exact hs (h.closed_of_told told)

/-- A worker that has left, though nobody has told it to, was lost. -/
theorem Inv.lost_of_over (h : Inv n loose rows done fed w)
    (hs : w.stage ≠ .closed) (hl : ¬ loose) (hgo : w.cancelled = false)
    {i : Nat} {lane : Lane} (hlane : w.lanes[i]? = some lane)
    (hover : lane.phase.isOver = true) : (w.lossAt i).isSome = true := by
  cases h.lanes i lane hlane with
  | still _ still _ _ _ _ => rcases still with rfl | rfl | rfl <;> cases hover
  | @busy c phase s rest part _ _ _ _ _ _ _ =>
    cases phase with
    | writing u r last => cases hover
    | ending r => cases hover
    | _ => cases part
  | flushing _ _ _ _ _ => cases hover
  | gone seated front counted shaped why =>
    rcases why with ⟨_, _, hended⟩ | hstop | hloose
    · rcases shaped with hopen | ⟨htold, _⟩
      · exact absurd hopen hended
      · exact absurd (h.closed_of_told htold) hs
    · rw [hgo] at hstop
      cases hstop
    · exact absurd hloose hl
  | lost _ _ _ _ _ =>
    rw [lossAt_of_lost hlane]
    rfl

/-! ## Finishing -/

/-- **Shutting a connection down** reports the loss of its worker. -/
theorem Ruined.shutLane (hr : w.Ruined) {i : Nat} (hi : i < w.connections) :
    (w.shutLane i).failure = w.failure.or (w.lossAt i) := by
  have hlen : i < w.lanes.length := hi
  have hl : w.lanes[i]? = some w.lanes[i] := List.getElem?_eq_getElem hlen
  generalize w.lanes[i] = lane at hl
  obtain ⟨c, phase⟩ := lane
  by_cases hlost : ∃ m, phase = .lost m
  · obtain ⟨m, rfl⟩ := hlost
    rw [lossAt_of_lost hl]
    unfold Writer.shutLane
    rw [hl]
    cases hf : w.failure <;> simp [Writer.fail, hf]
  · have hn (m : String) : phase ≠ .lost m := fun hm => hlost ⟨m, hm⟩
    have hnone := lossAt_eq_none hl hn
    have hstop : w.cancelled = true := by
      refine hr.why.resolve_right fun hall => ?_
      have := hall i hi
      rw [hnone] at this
      cases this
    rw [hnone, Option.or_none]
    unfold Writer.shutLane
    rw [hl]
    cases phase with
    | lost m => exact absurd rfl (hn m)
    | _ =>
      simp only
      cases c.shutdown.1 with
      | none => rfl
      | some cause => simp [setLane, hstop]

/-- Of a writer that was not stopped, the loss of a worker is found. -/
theorem Ruined.lossBelow_isSome (hr : w.Ruined)
    (h : Inv n loose rows done fed w)
    (hgo : w.cancelled = false) {k : Nat} (hk : w.connections ≤ k) :
    (w.lossBelow k).isSome = true := by
  have hall := hr.why.resolve_left (by simp [hgo])
  have hpos : 0 < w.connections := by
    rw [connections, h.size]
    exact h.pos
  have hfirst := hall 0 hpos
  cases hnone : w.lossBelow k with
  | some e => rfl
  | none =>
    have hmem : 0 ∈ List.range k := List.mem_range.2 (by omega)
    rw [List.findSome?_eq_none_iff.1 hnone 0 hmem] at hfirst
    cases hfirst

/-- The call that finishes the writer makes a move. -/
theorem Closes.advance (hc : w.Closes recorded) (hr : w.Ruined)
    (h : Inv n loose rows done fed w) (ha : w.advance = some w') :
    w'.Closes recorded := by
  cases hc with
  | opening call stage failure =>
    simp only [Writer.advance, call, openWith, stage, Option.some.injEq] at ha
    exact ha ▸ .working rfl failure
  | working call failure =>
    simp only [Writer.advance, call, proceed, Option.some.injEq] at ha
    exact ha ▸ .stopping rfl failure
  | stopping call failure =>
    simp only [Writer.advance, call, awaitWorkers] at ha
    split at ha
    · exact Option.some.inj ha ▸ .stopping rfl failure
    · split at ha
      · cases ha
      · exact Option.some.inj ha ▸ .stopping rfl failure
      · refine Option.some.inj ha ▸ .shutting rfl (Nat.zero_le _) ?_
        exact failure.trans Option.or_none.symm
  | @shutting next k started copied call le failure =>
    simp only [Writer.advance, call, shutNext] at ha
    split at ha
    · rename_i hlt
      obtain ⟨keeps, _, _, _, _⟩ := shutLane_spec w next
      refine Option.some.inj ha ▸ .shutting rfl ?_ ?_
      · show next + 1 ≤ (w.shutLane next).connections
        rw [connections_congr keeps.phases]
        exact hlt
      · show (w.shutLane next).failure =
          recorded.or ((w.shutLane next).lossBelow (next + 1))
        rw [hr.shutLane hlt, failure, Option.or_assoc, ← lossBelow_succ,
          lossBelow_congr (lossAt_congr keeps.phases)]
    · rename_i hge
      obtain rfl : next = w.connections := by omega
      -- had nobody stopped the writer, it would have lost a worker
      have hstop : w.cancelled = true := by
        by_cases hgo : w.cancelled = true
        · exact hgo
        · refine h.halted ?_
          rw [failure, Option.isSome_or,
            hr.lossBelow_isSome h (by simpa using hgo) (Nat.le_refl _),
            Bool.or_true]
      refine Option.some.inj ha ▸ .ended rfl ?_
      have hout : w.outcome k started copied = .failed w.reason := by
        unfold outcome
        rw [if_pos hstop]
      show some (w.outcome k started copied) =
        some (.failed ((recorded.or w.loss).getD .cancelled))
      rw [hout, reason, failure]
      rfl
  | ended call answer => simp [Writer.advance, call] at ha

/-- **The call that finishes the writer goes on to do so**: what it comes
to was settled when it began. -/
theorem Closes.step (hc : w.Closes recorded) (hr : w.Ruined)
    (h : Inv n loose rows done fed w) (he : e.isPatient = true)
    (hs : w.step e = some w') : w'.Closes recorded := by
  obtain ⟨_, hloss⟩ := hr.step h hs
  have hsame (hcall : w'.call = w.call) (hans : w'.answer = w.answer)
      (hstage : w'.stage = w.stage) (hfail : w'.failure = w.failure)
      (hcount : w'.connections = w.connections) : w'.Closes recorded := by
    have hbelow := lossBelow_congr hloss
    cases hc with
    | opening call stage failure =>
      exact .opening (hcall.trans call) (hstage.trans stage)
        (hfail.trans failure)
    | working call failure =>
      exact .working (hcall.trans call) (hfail.trans failure)
    | stopping call failure =>
      exact .stopping (hcall.trans call) (hfail.trans failure)
    | shutting call le failure =>
      refine .shutting (hcall.trans call) (hcount ▸ le) ?_
      rw [hbelow, hfail, failure]
    | ended call answer =>
      refine .ended (hcall.trans call) ?_
      rw [hans, answer, loss, loss, hcount, hbelow]
  cases step_cases hs with
  | work work =>
    have hworked := h.worked work
    obtain ⟨_, hstage, _, hcall, hans, _⟩ := hworked.frame
    obtain ⟨_, _, hfail⟩ := hr.work hworked
    obtain ⟨_, _, _, h'⟩ := h.step hs
    exact hsame hcall hans hstage hfail (h'.size.trans h.size.symm)
  | advance advance => exact hc.advance hr h advance
  | begin idle begins => cases begins <;> cases he
  | cancel => exact hsame rfl rfl rfl rfl rfl
  | room i m =>
    exact hsame rfl rfl rfl rfl
      (connections_congr (phases_grantRoom i m w))
  | _ => cases he

/-- When it is over, it has told what was recorded, or the first loss. -/
theorem Closes.told (hc : w.Closes recorded) (hover : w.call = none) :
    w.answer =
      some (.failed ((recorded.or w.loss).getD .cancelled)) := by
  cases hc with
  | opening call | working call | stopping call | shutting call =>
    rw [hover] at call
    cases call
  | ended call answer => exact answer

end Ruin

end Stripe.Writer
