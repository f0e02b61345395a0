import Stripe.Proofs.Writer.Progress

/-!
# Sound connections

Over connections that do not fail, and as long as nobody stops a writer or
lets go of anything, nothing is recorded as a failure and no worker leaves
before it has written its terminal segment. What makes a single call fail,
such as its source or that the writer was finished before, does not change
that. `Hale` says so of a state, and every gentle event keeps it
(`Hale.step`).
-/

namespace Stripe.Writer

open Segment Handoff Barrier

/-- A connection that does not fail. It is shut down when its worker has
left. -/
structure Lane.Sound (lane : Lane) : Prop where
  outlet : lane.outlet.Sound
  kept : ∀ message, lane.phase ≠ .lost message
  closed : lane.outlet.closed = true → lane.phase = .gone

/-- The job has no failure to report, and is not to finish the writer once
something else was done. -/
def Job.Plain : Job → Prop
  | .copy _ _ _ last => last = false
  | .finish copied => copied = none
  | _ => True

/-- The same of a call. All `n` workers have said that they leave. -/
def Call.Plain (n : Nat) : Call → Prop
  | .opening job | .offering _ job | .working job => job.Plain
  | .stopping started copied => started = none ∧ copied = none
  | .shutting _ k started copied =>
    k = n ∧ started = none ∧ copied = none

/-- No connection has failed, and nobody has stopped the writer. -/
structure Hale (n : Nat) (w : Writer) : Prop where
  unharmed : w.failure = none ∧ w.cancelled = false
  lanes : ∀ lane ∈ w.lanes, lane.Sound
  /-- No slot is closed while segments are handed over. -/
  posted : w.stage ≠ .closed → none ∉ w.handoff.ready
  plain : ∀ c, w.call = some c → c.Plain n

/-- Nobody stops the writer or lets go of anything, and what yields bytes
is not to finish it. -/
def Event.isGentle : Event → Bool
  | .sendFrom _ | .abandon | .cancel | .drop => false
  | _ => true

section Sound

variable {n : Nat} {rows done : Nat → List Segment} {fed : List Segment}
  {w w' : Writer}

/-! ## Workers -/

/-- The feeder stays as long as a worker does. -/
theorem Inv.fed_of_here (h : Inv n False rows done fed w) {i : Nat}
    {lane : Lane} (hl : w.lanes[i]? = some lane)
    (here : lane.phase.isHere = true) : w.handoff.fed = true := by
  cases hfed : w.handoff.fed with
  | true => rfl
  | false =>
    have hall := (h.closing hfed).resolve_left id
    have hover := hall _ (List.mem_of_getElem? (phases_eq_some hl))
    cases hp : lane.phase <;> rw [hp] at here hover <;> cases here <;>
      cases hover

/-- A worker has left only after `finish` was called. -/
theorem Hale.not_over (h : Hale n w)
    (hinv : Inv n False rows done fed w) (hs : w.stage ≠ .closed)
    {i : Nat} {lane : Lane} (hl : w.lanes[i]? = some lane) :
    lane.phase.isOver = false := by
  obtain ⟨c, phase⟩ := lane
  have hkept := (h.lanes _ (List.mem_of_getElem? hl)).kept
  cases hp : phase with
  | lost message => exact absurd hp (hkept message)
  | gone =>
    subst hp
    have hno : ¬ (w.cancelled = true ∨ False) := by simp [h.unharmed.2]
    obtain ⟨htold, _⟩ := (hinv.lanes i _ hl).of_gone hno
    exact absurd (hinv.closed_of_told htold) hs
  | _ => rfl

/-- What a move of worker `i` does that does not fail. -/
structure Smooth (i : Nat) (w w' : Writer) : Prop where
  same : w'.stage = w.stage ∧ w'.call = w.call ∧ w'.answer = w.answer ∧
    w'.failure = w.failure ∧ w'.cancelled = w.cancelled ∧
    w'.config = w.config
  lane : ∃ lane lane' : Lane, w.lanes[i]? = some lane ∧
    lane.phase.isHere = true ∧ w'.lanes = w.lanes.set i lane' ∧
    lane'.outlet.Sound ∧ lane'.outlet.closed = lane.outlet.closed ∧
    lane'.outlet.quota = lane.outlet.quota ∧
    lane.outlet.wire <+: lane'.outlet.wire ∧
    ∀ message, lane'.phase ≠ .lost message
  queue : w.stage ≠ .closed → none ∈ w'.handoff.ready →
    none ∈ w.handoff.ready

/-- A worker turns to something else, and leaves its connection alone. -/
theorem Smooth.turn {i : Nat} {c : Outlet} {phase phase' : Phase}
    (hl : w.lanes[i]? = some ⟨c, phase⟩) (here : phase.isHere = true)
    (hlanes : w'.lanes = w.lanes.set i ⟨c, phase'⟩) (hc : c.Sound)
    (hkept : ∀ message, phase' ≠ .lost message)
    (same : w'.stage = w.stage ∧ w'.call = w.call ∧ w'.answer = w.answer ∧
      w'.failure = w.failure ∧ w'.cancelled = w.cancelled ∧
      w'.config = w.config)
    (queue : w.stage ≠ .closed → none ∈ w'.handoff.ready →
      none ∈ w.handoff.ready) : Smooth i w w' :=
  ⟨same, ⟨_, _, hl, here, hlanes, hc, rfl, rfl, List.prefix_rfl, hkept⟩,
    queue⟩

/-- A worker has written something. -/
theorem Smooth.wrote {i : Nat} {c c' : Outlet} {phase phase' : Phase}
    {bs : Bytes}
    (hl : w.lanes[i]? = some ⟨c, phase⟩) (here : phase.isHere = true)
    (hlanes : w'.lanes = w.lanes.set i ⟨c', phase'⟩) (hc' : c'.Sound)
    (hclosed : c'.closed = c.closed) (hquota : c'.quota = c.quota)
    (hwire : c'.wire = c.wire ++ bs)
    (hkept : ∀ message, phase' ≠ .lost message)
    (same : w'.stage = w.stage ∧ w'.call = w.call ∧ w'.answer = w.answer ∧
      w'.failure = w.failure ∧ w'.cancelled = w.cancelled ∧
      w'.config = w.config)
    (handoff : w'.handoff = w.handoff) : Smooth i w w' :=
  ⟨same, ⟨_, _, hl, here, hlanes, hc', hclosed, hquota, ⟨bs, hwire.symm⟩,
    hkept⟩, fun _ => handoff ▸ id⟩

/-- **A worker on a sound connection does not fail.** -/
theorem Hale.smooth (h : Hale n w) (hinv : Inv n False rows done fed w)
    {i : Nat} (hw : w.work i = some w') : Smooth i w w' := by
  have hgo := h.unharmed.2
  have hstop (hc : w.cancelled = true) : False := by
    rw [hgo] at hc
    cases hc
  have hsound {c : Outlet} {phase : Phase}
      (hl : w.lanes[i]? = some ⟨c, phase⟩) : c.Sound :=
    (h.lanes _ (List.mem_of_getElem? hl)).outlet
  cases hinv.worked hw with
  | begin lane slot =>
    exact .turn lane rfl rfl (hsound lane) (by simp)
      ⟨rfl, rfl, rfl, rfl, rfl, rfl⟩ fun _ => id
  | post lane slot receives slot' queue =>
    refine .turn lane rfl (set_self lane).symm (hsound lane) (by simp)
      ⟨rfl, rfl, rfl, rfl, rfl, rfl⟩ fun _ hn => ?_
    simpa [queue] using hn
  | ask lane empty disturbed =>
    exact .turn lane rfl rfl (hsound lane) (by simp)
      ⟨rfl, rfl, rfl, rfl, rfl, rfl⟩ fun _ => id
  | quit lane receives =>
    cases receives with
    | closed _ fed _ =>
      rw [hinv.fed_of_here lane rfl] at fed
      cases fed
  | last lane judges taken =>
    exact .turn lane rfl rfl (hsound lane) (by simp)
      ⟨rfl, rfl, rfl, rfl, rfl, rfl⟩
      fun hs => absurd (hinv.closed_of_stop lane rfl judges) hs
  | obey lane judges taken =>
    exact .turn lane rfl rfl (hsound lane) (by simp)
      ⟨rfl, rfl, rfl, rfl, rfl, rfl⟩
      fun hs => absurd (hinv.closed_of_stop lane rfl judges) hs
  | dismiss lane judges why =>
    rcases why with rfl | hc
    · exact (hinv.loose_of_stop lane rfl judges).elim
    · exact (hstop hc).elim
  | back lane judges why going =>
    exact .turn lane rfl rfl (hsound lane) (by simp)
      ⟨rfl, rfl, rfl, rfl, rfl, rfl⟩ fun _ => id
  | halt lane part stopped => exact (hstop stopped).elim
  | @more c c' phase s rest rest' lane part going write =>
    obtain ⟨here, _, _, _, hne, _⟩ := hinv.busy lane part
    cases Outgoing.write_spec hne write with
    | more pos left bytes wire closed sound quota =>
      refine .wrote lane here rfl (sound (hsound lane)) closed quota wire ?_
        ⟨rfl, rfl, rfl, rfl, rfl, rfl⟩ rfl
      cases phase <;> cases part <;> simp [Phase.goOn]
  | @written c c' phase s rest lane part going write =>
    obtain ⟨here, _, _, _, hne, _⟩ := hinv.busy lane part
    cases Outgoing.write_spec hne write with
    | done wire closed sound quota =>
      have hnew := sound (hsound lane)
      cases phase with
      | writing u r last =>
        cases last with
        | false =>
          exact .wrote lane here rfl hnew closed quota wire (by simp)
            ⟨rfl, rfl, rfl, rfl, rfl, rfl⟩ rfl
        | true =>
          exact .wrote lane here rfl hnew closed quota wire (by simp)
            ⟨rfl, rfl, rfl, rfl, rfl, rfl⟩ rfl
      | ending r =>
        exact .wrote lane here rfl hnew closed quota wire (by simp)
          ⟨rfl, rfl, rfl, rfl, rfl, rfl⟩ rfl
      | _ => cases part
  | failed lane part going write =>
    have hne := (hinv.busy lane part).2.2.2.2.1
    cases Outgoing.write_spec hne write with
    | failed wire unsound => exact absurd (hsound lane) unsound
  | panicked lane part going write =>
    have hne := (hinv.busy lane part).2.2.2.2.1
    cases Outgoing.write_spec hne write with
    | panicked wire unsound => exact absurd (hsound lane) unsound
  | @flushed c lane flush =>
    have hold := hsound lane
    refine ⟨⟨rfl, rfl, rfl, rfl, rfl, rfl⟩, ⟨_, _, lane, rfl, rfl,
      ⟨hold.fault, hold.flush, hold.shutdown, hold.maxWrite⟩, rfl, rfl,
      List.prefix_rfl, by simp⟩, ?_⟩
    intro hs
    obtain ⟨_, _, _, told⟩ := (hinv.lanes i _ lane).of_flushing
    exact absurd (hinv.closed_of_told told) hs
  | unflushed lane flush =>
    rw [(hsound lane).flush] at flush
    cases flush

/-- No worker was lost, so all of those that are over have left. -/
theorem Hale.all_gone (h : Hale n w)
    (hall : ∀ phase ∈ w.phases, phase.isOver = true) :
    ∀ phase ∈ w.phases, phase = .gone := by
  intro phase hp
  have hover := hall phase hp
  obtain ⟨lane, hmem, rfl⟩ := List.mem_map.1 hp
  have hkept := (h.lanes lane hmem).kept
  cases hl : lane.phase with
  | gone => rfl
  | lost message => exact absurd hl (hkept message)
  | _ =>
    rw [hl] at hover
    cases hover

theorem leavers_eq (hsize : w.lanes.length = n)
    (hall : ∀ phase ∈ w.phases, phase = .gone) : w.leavers = n := by
  rw [← hsize, ← length_phases, leavers, List.countP_eq_length]
  intro phase hp
  simp [hall phase hp]

/-- Some worker is there as long as the writer runs, so a segment is handed
over or waits. -/
theorem Hale.not_refused (h : Hale n w)
    (hinv : Inv n False rows done fed w) (hs : w.stage = .running)
    {s : Segment} {r : Sent} {h' : Handoff}
    (hsend : w.handoff.send s = (r, h')) (fails : ∀ i, r ≠ .sent i)
    (waits : r ≠ .pending) : False := by
  obtain ⟨lane, hl⟩ := hinv.lane_of_lt hinv.pos
  have hover := hinv.over_of_refused id hs hsend fails waits lane.phase
    (List.mem_of_getElem? (phases_eq_some hl))
  rw [h.not_over hinv (by simp [hs]) hl] at hover
  cases hover

/-- **A worker goes on**, and nothing has failed. -/
theorem Hale.work (h : Hale n w) (hinv : Inv n False rows done fed w)
    {i : Nat} (hw : w.work i = some w') : Hale n w' := by
  obtain ⟨⟨hstage, hcall, _, hfail, hcancel, _⟩,
    ⟨lane, lane', hl, here, hset, hsound, hclosed, _, _, hkept⟩, hqueue⟩ :=
    h.smooth hinv hw
  refine ⟨⟨hfail.trans h.unharmed.1, hcancel.trans h.unharmed.2⟩, ?_, ?_,
    ?_⟩
  · intro l hmem
    rw [hset] at hmem
    rcases List.mem_or_eq_of_mem_set hmem with hold | rfl
    · exact h.lanes l hold
    · refine ⟨hsound, hkept, fun hc => ?_⟩
      -- the worker has not left, so the connection is not shut down
      have hgone := (h.lanes lane (List.mem_of_getElem? hl)).closed
        (hclosed ▸ hc)
      rw [hgone] at here
      cases here
  · rw [hstage]
    exact fun hs hn => h.posted hs (hqueue hs hn)
  · rw [hcall]
    exact h.plain

/-! ## Calls -/

/-- Something else has changed. -/
theorem Hale.of_same (h : Hale n w) (failure : w'.failure = w.failure)
    (cancelled : w'.cancelled = w.cancelled) (lanes : w'.lanes = w.lanes)
    (posted : w'.stage ≠ .closed →
      w.stage ≠ .closed ∧ (none ∈ w'.handoff.ready → none ∈ w.handoff.ready))
    (plain : ∀ c, w'.call = some c → c.Plain n) : Hale n w' := by
  refine ⟨⟨failure.trans h.unharmed.1, cancelled.trans h.unharmed.2⟩,
    lanes ▸ h.lanes, fun hs hn => ?_, plain⟩
  obtain ⟨hopen, hqueue⟩ := posted hs
  exact h.posted hopen (hqueue hn)

/-- The writer is as before, but for its call. -/
theorem Hale.conclude (h : Hale n w) (a : Answer) : Hale n (w.conclude a) :=
  h.of_same rfl rfl rfl (fun hs => ⟨hs, id⟩) (by simp [Writer.conclude])

theorem Hale.setCall (h : Hale n w) {c : Call} (hc : c.Plain n) :
    Hale n (w.setCall c) := by
  refine h.of_same rfl rfl rfl (fun hs => ⟨hs, id⟩) ?_
  rintro c' ⟨⟩
  exact hc

/-- **What makes one call fail** does not make the writer fail. -/
theorem Hale.reject (h : Hale n w) {job : Job} (hj : job.Plain)
    (hs : w.stage = .running → ∀ copied, job ≠ .finish copied) (e : Error) :
    Hale n (w.reject e job) := by
  generalize hr : w.reject e job = w'
  cases reject_cases hr with
  | turn => cases hj
  | close stage => exact absurd rfl (hs stage _)
  | fails e' => exact h.conclude _

theorem Hale.proceed (h : Hale n w) {job : Job} (hj : job.Plain)
    (hp : Proceeds w job w') : Hale n w' := by
  cases hp with
  | nothing => exact h.conclude _
  | wrote => exact h.conclude _
  | sent => exact h.conclude _
  | copied => exact h.conclude _
  | piece pos => exact h.setCall trivial
  | chunk pos => exact h.setCall trivial
  | @broken _ rest _ _ count last fill =>
    have hrest : (Job.copy rest count false last).Plain := hj
    exact h.reject hrest (by simp) _
  | drained fill => exact h.setCall hj
  | cut pos fill => exact h.setCall hj
  | turn => cases hj
  | close =>
    refine h.of_same rfl rfl rfl (fun hs => absurd rfl hs) ?_
    rintro c ⟨⟩
    exact ⟨rfl, hj⟩

/-- The workers of sound connections start. -/
theorem Hale.start (h : Hale n w) (hinv : Inv n False rows done fed w)
    {job : Job} (hj : job.Plain) (hs : w.stage = .fresh) :
    Hale n (w.start.setCall
      (.offering (.control (.ofNat w.connections)) job)) := by
  refine ⟨h.unharmed, ?_, fun _ => h.posted (by simp [hs]), ?_⟩
  · intro lane' hmem
    simp only [Writer.setCall, Writer.start, List.mem_map] at hmem
    obtain ⟨lane, hl, rfl⟩ := hmem
    have hsound := h.lanes lane hl
    refine ⟨hsound.outlet, by simp, fun hclosed => ?_⟩
    have hgone := hsound.closed hclosed
    have hun := (hinv.fresh hs).2 lane.phase (List.mem_map.2 ⟨lane, hl, rfl⟩)
    rw [hun] at hgone
    cases hgone
  · rintro c ⟨⟩
    exact hj

/-- A sound connection is shut down without a failure. -/
theorem Hale.shut (h : Hale n w) (hinv : Inv n False rows done fed w)
    {next k : Nat} {started copied : Option Error}
    (hc : w.call = some (.shutting next k started copied))
    (hlt : next < w.connections) :
    Hale n ((w.shutLane next).setCall
      (.shutting (next + 1) k started copied)) := by
  obtain ⟨hclosed, _, hover, _⟩ := hinv.calling.shutting _ _ _ _ hc
  obtain ⟨⟨c, phase⟩, hl⟩ := hinv.lane_of_lt (i := next) (by
    rw [← hinv.size]
    exact hlt)
  obtain rfl : phase = .gone :=
    h.all_gone hover phase (List.mem_of_getElem? (phases_eq_some hl))
  have hlane := h.lanes _ (List.mem_of_getElem? hl)
  have hshut : w.shutLane next = w.setLane next ⟨c.shutdown.2, .gone⟩ := by
    have hsound : c.shutdown.1 = none := hlane.outlet.shutdown
    unfold shutLane
    rw [hl]
    simp only [hsound]
  rw [hshut]
  refine ⟨h.unharmed, ?_, fun hs => absurd hclosed hs, ?_⟩
  · intro l hm
    rcases List.mem_or_eq_of_mem_set hm with hold | rfl
    · exact h.lanes l hold
    · have hold := hlane.outlet
      exact ⟨⟨hold.fault, hold.flush, hold.shutdown, hold.maxWrite⟩,
        hlane.kept, fun _ => rfl⟩
  · have hplain : k = n ∧ started = none ∧ copied = none := h.plain _ hc
    rintro c' ⟨⟩
    exact hplain

/-- Finishing comes to a success. -/
theorem Hale.outcome_eq (h : Hale n w) (hsize : w.lanes.length = n) :
    w.outcome n none none = .finished w.stats := by
  have hsize : w.connections = n := hsize
  unfold outcome
  rw [if_neg (by simp [h.unharmed.2])]
  simp [hsize]

/-- **A call goes on**, and nothing has failed. -/
theorem Hale.advance (h : Hale n w) (hinv : Inv n False rows done fed w)
    (ha : w.advance = some w') : Hale n w' := by
  cases advance_cases hinv.maxLen ha with
  | start call stage => exact h.start hinv (h.plain _ call) stage
  | @resume job call stage =>
    have hj : job.Plain := h.plain _ call
    exact h.setCall hj
  | late call stage =>
    exact h.reject (h.plain _ call) (by simp [stage]) _
  | abort call stopped =>
    rw [h.unharmed.2] at stopped
    cases stopped
  | @hand s job i h' call going send =>
    have hands := hands_spec s hinv.handoff
    rw [send] at hands
    cases hands with
    | refused fails _ _ _ _ _ => exact absurd rfl (fails i)
    | sent _ _ _ _ queue =>
      have hj : job.Plain := h.plain _ call
      refine h.of_same rfl rfl rfl (fun hs => ⟨hs, fun hn => queue hn⟩) ?_
      rintro c ⟨⟩
      exact hj
  | alone call going send fails waits =>
    have hrunning := (hinv.calling.offering _ _ call).1
    exact (h.not_refused hinv hrunning send fails waits).elim
  | proceed call proceeds => exact h.proceed (h.plain _ call) proceeds
  | announce call owner =>
    exact h.of_same rfl rfl rfl (fun hs => ⟨hs, id⟩) h.plain
  | tally call owner count =>
    exact h.of_same rfl rfl rfl (fun hs => ⟨hs, id⟩) h.plain
  | settle call owner count =>
    obtain ⟨_, _, hover, hk⟩ :=
      (hinv.settle call owner count).calling.shutting _ _ _ _ rfl
    have hclosed := (hinv.calling.stopping _ _ call).1
    refine h.of_same rfl rfl rfl (fun hs => absurd hclosed hs) ?_
    rintro c ⟨⟩
    exact ⟨hk.trans (leavers_eq hinv.size (h.all_gone hover)),
      h.plain _ call⟩
  | shut call lt => exact h.shut hinv call lt
  | conclude call le => exact h.conclude _

/-! ## Every event -/

theorem Hale.grantRoom (h : Hale n w) (i : Nat) (m : Option Nat) :
    Hale n (w.grantRoom i m) := by
  refine ⟨h.unharmed, ?_, h.posted, h.plain⟩
  intro lane' hmem
  obtain ⟨j, hj⟩ := List.getElem?_of_mem hmem
  simp only [Writer.grantRoom, List.getElem?_modify, Option.map_eq_map,
    Option.map_eq_some_iff] at hj
  obtain ⟨lane, hl, rfl⟩ := hj
  have hlane := h.lanes lane (List.mem_of_getElem? hl)
  have hold := hlane.outlet
  by_cases hij : i = j
  · rw [if_pos hij]
    exact ⟨⟨hold.fault, hold.flush, hold.shutdown, hold.maxWrite⟩,
      hlane.kept, hlane.closed⟩
  · rw [if_neg hij]
    exact hlane

/-- **Every gentle event** leaves nothing failed. -/
theorem Hale.step (h : Hale n w) (hinv : Inv n False rows done fed w)
    {e : Event} (he : e.isGentle = true) (hs : w.step e = some w') :
    Hale n w' := by
  cases step_cases hs with
  | work work => exact h.work hinv work
  | advance advance => exact h.advance hinv advance
  | begin idle begins =>
    cases begins with
    | write => exact h.setCall trivial
    | writeAll => exact h.setCall trivial
    | copyFrom => exact h.setCall (c := .opening _) rfl
    | sendFrom => cases he
    | finish => exact h.setCall (c := .opening _) rfl
  | room i m => exact h.grantRoom i m
  | _ => cases he

theorem hale_make {outlets : List Outlet} {config : Config}
    (hmake : make outlets config = .ok w)
    (hsound : ∀ c ∈ outlets, c.Sound ∧ c.closed = false) :
    Hale outlets.length w := by
  obtain ⟨_, _, rfl⟩ := make_eq_ok hmake
  refine ⟨⟨rfl, rfl⟩, ?_, fun _ => by simp [Handoff.make], by simp⟩
  intro lane hl
  obtain ⟨c, hc, rfl⟩ := List.mem_map.1 hl
  obtain ⟨hsound, hopen⟩ := hsound c hc
  exact ⟨hsound, by simp, by simp [hopen]⟩

end Sound

end Stripe.Writer
