import Stripe.Proofs.Members
import Stripe.Proofs.Writer.Invariant

/-!
# The moves of workers keep the invariant

A move of a worker changes one lane and one seat (`Inv.relane`). What the
worker has begun, counted or left tells where it stands afterwards. The
main statement is `Inv.work`.
-/

namespace Stripe

namespace Handoff

theorem Touches.trans {n i : Nat} {h h' h'' : Handoff}
    (t : Touches n i h h') (t' : Touches n i h' h'') :
    Touches n i h h'' :=
  ⟨t'.sane, t'.fed.trans t.fed,
    fun j hj => (t'.present j hj).trans (t.present j hj),
    fun j hj => (t'.slot j hj).trans (t.slot j hj)⟩

end Handoff

namespace Barrier

theorem Touches.trans {n i : Nat} {loose : Prop} {b b' b'' : Barrier}
    (t : Touches n i loose b b') (t' : Touches n i loose b' b'') :
    Touches n i loose b b'' :=
  ⟨t'.sane, t'.owner.trans t.owner,
    fun j hj => (t'.held j hj).trans (t.held j hj),
    fun j => (t'.token j).trans (t.token j)⟩

end Barrier

namespace Writer

open Segment Handoff Barrier

section Workers

variable {n : Nat} {loose : Prop} {rows done rows' done' : Nat → List Segment}
  {fed : List Segment} {w w' : Writer} {i : Nat} {lane lane' : Lane}

theorem set_self {α : Type} {l : List α} {i : Nat} {a : α}
    (h : l[i]? = some a) : l.set i a = l := by
  obtain ⟨hi, rfl⟩ := List.getElem?_eq_some_iff.1 h
  exact List.set_getElem_self hi

/-- **One lane has changed**, and the seat of its worker with it. -/
theorem Inv.relane (h : Inv n loose rows done fed w)
    (hl : w.lanes[i]? = some lane) (here : lane.phase.isHere = true)
    (lanes : w'.lanes = w.lanes.set i lane')
    (same : w'.config = w.config ∧ w'.stage = w.stage ∧
      w'.cursor = w.cursor ∧ w'.call = w.call)
    (handoff : Handoff.Touches n i w.handoff w'.handoff)
    (barrier : Barrier.Touches n i loose w.barrier w'.barrier)
    (stopped : w.cancelled = true → w'.cancelled = true)
    (halted : w'.failure.isSome = true → w'.cancelled = true)
    (others : ∀ j, j ≠ i → rows' j = rows j ∧ done' j = done j)
    (stands : Stands w.cursor w.Told (w'.cancelled = true ∨ loose)
      (rows' i) (done' i) (w'.seat i) lane')
    (asking : lane'.phase = .asking →
      w'.cancelled = true ∨ w.barrier.token i ≠ .waiting)
    (begun : lane'.phase ≠ .unstarted)
    (given : Dealt n rows' fed)
    (stats : w'.stats = Stats.tally n done')
    (acks : ∀ k, w.barrier.owner.received? = some k →
      w'.barrier.inbox.length + k = w'.leavers) :
    Inv n loose rows' done' fed w' := by
  obtain ⟨hconfig, hstage, hcursor, hcall⟩ := same
  have hi : i < w.lanes.length := (List.getElem?_eq_some_iff.1 hl).1
  have hlane (j : Nat) (l : Lane) (hj : w'.lanes[j]? = some l) :
      j = i ∧ l = lane' ∨ j ≠ i ∧ w.lanes[j]? = some l := by
    rw [lanes] at hj
    by_cases hji : j = i
    · subst hji
      rw [List.getElem?_set_self hi] at hj
      exact .inl ⟨rfl, (Option.some.inj hj).symm⟩
    · rw [List.getElem?_set_ne (Ne.symm hji)] at hj
      exact .inr ⟨hji, hj⟩
  have hphases : w'.phases = w.phases.set i lane'.phase := by
    simp [phases, lanes, List.map_set]
  have htold : w'.Told = w.Told := by
    simp only [Told, barrier.token]
  -- some worker has started, and has not left yet
  have hmem := List.mem_of_getElem? (phases_eq_some hl)
  have hsome : ¬ ∀ phase ∈ w.phases, phase.isOver = true := by
    intro hall
    have hover := hall _ hmem
    cases hp : lane.phase <;> rw [hp] at here hover <;> cases here <;>
      cases hover
  exact
    { size := by rw [lanes, List.length_set, h.size]
      pos := h.pos
      maxLen := hconfig ▸ h.maxLen
      handoff := handoff.sane
      barrier := barrier.sane
      lanes := by
        intro j l hj
        rw [hcursor, htold]
        rcases hlane j l hj with ⟨rfl, rfl⟩ | ⟨hne, hj⟩
        · exact stands
        · have hseat : w'.seat j = w.seat j := by
            simp only [seat, handoff.present j hne, handoff.slot j hne,
              barrier.held j hne]
          rw [(others j hne).1, (others j hne).2, hseat]
          exact (h.lanes j l hj).excuse (Or.imp_left stopped)
      asking := by
        intro j c hj
        rw [barrier.token j]
        rcases hlane j _ hj with ⟨rfl, he⟩ | ⟨hne, hj⟩
        · exact asking (he ▸ rfl)
        · exact (h.asking j c hj).imp_left stopped
      given := given
      feeds := by rw [hconfig, hcursor]; exact h.feeds
      stats := stats
      halted := halted
      fresh := by
        rw [hstage]
        intro hs
        have hun := (h.fresh hs).2 _ hmem
        rw [hun] at here
        cases here
      started := by
        rw [hstage, hphases]
        intro hs
        refine (h.started hs).imp_right fun hno hmem => ?_
        rcases List.mem_or_eq_of_mem_set hmem with hm | he
        · exact hno hm
        · exact begun he.symm
      idle := by rw [hstage, barrier.owner, handoff.fed]; exact h.idle
      acks := by rw [barrier.owner]; exact acks
      closing := by
        rw [handoff.fed]
        intro hf
        exact .inl ((h.closing hf).resolve_right hsome)
      calling := by
        refine ⟨?_, ?_, ?_, ?_⟩
        · intro s job hc
          have ho := h.calling.offering s job (hcall ▸ hc)
          refine ⟨hstage.trans ho.1, ?_⟩
          simpa only [Offered, nextSegment, hconfig, hcursor] using ho.2
        · intro job hc
          exact hstage.trans (h.calling.working job (hcall ▸ hc))
        · intro started copied hc
          rw [hstage, barrier.owner]
          exact h.calling.stopping started copied (hcall ▸ hc)
        · intro next k started copied hc
          have hs := h.calling.shutting next k started copied (hcall ▸ hc)
          exact absurd hs.2.2.1 hsome }

theorem leavers_set (hl : w.lanes[i]? = some lane)
    (lanes : w'.lanes = w.lanes.set i lane') :
    w'.leavers + (if lane.phase = .gone then 1 else 0) =
      w.leavers + (if lane'.phase = .gone then 1 else 0) := by
  have hcount := countP_set_eq (a := lane'.phase)
    (fun phase => decide (phase = .gone)) (phases_eq_some hl)
  have hphases : w'.phases = w.phases.set i lane'.phase := by
    simp [phases, lanes, List.map_set]
  unfold leavers
  rw [hphases]
  simpa using hcount

/-- No acknowledgement comes from a worker that stays or is lost. -/
theorem Inv.acks_of_stay (h : Inv n loose rows done fed w)
    (hl : w.lanes[i]? = some lane) (here : lane.phase.isHere = true)
    (lanes : w'.lanes = w.lanes.set i lane')
    (inbox : w'.barrier.inbox = w.barrier.inbox)
    (stays : lane'.phase ≠ .gone) (k : Nat)
    (hk : w.barrier.owner.received? = some k) :
    w'.barrier.inbox.length + k = w'.leavers := by
  have hcount := leavers_set hl lanes
  have hne : lane.phase ≠ .gone := by
    intro he
    rw [he] at here
    cases here
  rw [if_neg hne, if_neg stays] at hcount
  rw [inbox, h.acks k hk]
  omega

/-- **A worker goes on** to something else. -/
theorem Inv.stay (h : Inv n loose rows done fed w)
    (hl : w.lanes[i]? = some lane) (here : lane.phase.isHere = true)
    {v : Writer}
    (same : v.config = w.config ∧ v.stage = w.stage ∧
      v.cursor = w.cursor ∧ v.call = w.call ∧ v.lanes = w.lanes ∧
      v.failure = w.failure ∧ v.cancelled = w.cancelled)
    (handoff : Handoff.Touches n i w.handoff v.handoff)
    (barrier : Barrier.Touches n i loose w.barrier v.barrier)
    (inbox : v.barrier.inbox = w.barrier.inbox)
    (others : ∀ j, j ≠ i → rows' j = rows j ∧ done' j = done j)
    (stands : Stands w.cursor w.Told (w.cancelled = true ∨ loose)
      (rows' i) (done' i) (v.seat i) lane')
    (asking : lane'.phase = .asking →
      w.cancelled = true ∨ w.barrier.token i ≠ .waiting)
    (stays : lane'.phase ≠ .unstarted ∧ lane'.phase ≠ .gone)
    (given : Dealt n rows' fed)
    (stats : v.stats = Stats.tally n done') :
    Inv n loose rows' done' fed (v.setLane i lane') := by
  obtain ⟨hconfig, hstage, hcursor, hcall, hlanes, hfail, hcancel⟩ := same
  have hset : (v.setLane i lane').lanes = w.lanes.set i lane' := by
    rw [lanes_setLane, hlanes]
  have hback : w.cancelled = true → v.cancelled = true :=
    fun hc => hcancel.trans hc
  refine h.relane hl here hset ⟨hconfig, hstage, hcursor, hcall⟩ handoff
    barrier hback ?_ others ?_ ?_ stays.1 given stats
    (h.acks_of_stay hl here hset inbox stays.2)
  · intro hf
    exact hback (h.halted (hfail ▸ hf))
  · exact stands.excuse (Or.imp_left hback)
  · exact fun ha => (asking ha).imp_left hback

/-- **A worker leaves** with an acknowledgement. -/
theorem Inv.depart (h : Inv n loose rows done fed w)
    (hl : w.lanes[i]? = some lane) (here : lane.phase.isHere = true)
    {v : Writer} {c : Outlet}
    (same : v.config = w.config ∧ v.stage = w.stage ∧
      v.cursor = w.cursor ∧ v.call = w.call ∧ v.lanes = w.lanes)
    (handoff : Handoff.Touches n i w.handoff v.handoff)
    (barrier : Barrier.Touches n i loose w.barrier v.barrier)
    (held : v.barrier.held i = true)
    (inbox : v.barrier.inbox = w.barrier.inbox)
    (stopped : w.cancelled = true → v.cancelled = true)
    (halted : v.failure.isSome = true → v.cancelled = true)
    (others : ∀ j, j ≠ i → done' j = done j)
    (front : c.wire <+: encodeAll (rows i)) (counted : done' i <+: rows i)
    (why : rows i = done' i ∧ c.wire = encodeAll (rows i) ∧
      ¬ Open (rows i) ∨ v.cancelled = true ∨ loose)
    (stats : v.stats = Stats.tally n done') :
    Inv n loose rows done' fed (v.leave i c) := by
  obtain ⟨hconfig, hstage, hcursor, hcall, hlanes⟩ := same
  have hi := h.lt hl
  obtain ⟨htouch, hslot, hpresent⟩ := leave_spec handoff.sane hi
  obtain ⟨htouch', hheld, hinbox⟩ := done_spec barrier.sane held
  have hset : (v.leave i c).lanes = w.lanes.set i ⟨c, .gone⟩ := by
    rw [leave, lanes_setLane]
    exact congrArg (List.set · i _) hlanes
  refine h.relane hl here hset ⟨hconfig, hstage, hcursor, hcall⟩
    (handoff.trans htouch) (barrier.trans htouch') stopped halted
    (fun j hj => ⟨rfl, others j hj⟩) ?_ (by simp) (by simp) h.given stats ?_
  · refine .gone ?_ front counted (h.lanes i lane hl).shaped why
    show Seat.mk ((v.handoff.leave i).present i)
      ((v.handoff.leave i).slot i) ((v.barrier.done i).held i) = _
    rw [hslot, hpresent, hheld]
  · intro k hk
    have hcount := leavers_set hl hset
    have hne : lane.phase ≠ .gone := by
      intro he
      rw [he] at here
      cases here
    rw [if_neg hne, if_pos rfl] at hcount
    have hold := h.acks k hk
    -- one more than have left before
    have hle : (v.leave i c).leavers ≤ n := by
      have := List.countP_le_length
        (p := fun phase => decide (phase = Phase.gone))
        (l := (v.leave i c).phases)
      rw [length_phases, hset, List.length_set, h.size] at this
      exact this
    have := hinbox (by rw [inbox]; omega)
    rw [inbox] at this
    show (v.barrier.done i).inbox.length + k = _
    omega

/-- The seat of a worker that has not left. -/
theorem Inv.seat_of_here (h : Inv n loose rows done fed w)
    (hl : w.lanes[i]? = some lane) (here : lane.phase.isHere = true) :
    w.handoff.present i = true ∧ w.barrier.held i = true :=
  (h.lanes i lane hl).seated here

theorem Inv.worked (h : Inv n loose rows done fed w)
    (hw : w.work i = some w') : Worked i w w' :=
  work_cases (fun _ hl => (h.seat_of_here hl rfl).1) hw

/-- **A worker deserts**: it leaves where it stands, since the writer was
stopped or the feeder was let go. -/
theorem Inv.desert (h : Inv n loose rows done fed w) {c c' : Outlet}
    {phase : Phase} (hl : w.lanes[i]? = some ⟨c, phase⟩)
    (here : phase.isHere = true) {v : Writer}
    (same : v.config = w.config ∧ v.stage = w.stage ∧
      v.cursor = w.cursor ∧ v.call = w.call ∧ v.lanes = w.lanes ∧
      v.stats = w.stats)
    (handoff : Handoff.Touches n i w.handoff v.handoff)
    (barrier : Barrier.Touches n i loose w.barrier v.barrier)
    (held : v.barrier.held i = true)
    (inbox : v.barrier.inbox = w.barrier.inbox)
    (stopped : w.cancelled = true → v.cancelled = true)
    (halted : v.failure.isSome = true → v.cancelled = true)
    (wire : c'.wire = c.wire) (why : v.cancelled = true ∨ loose) :
    Inv n loose rows done fed (v.leave i c') := by
  obtain ⟨hconfig, hstage, hcursor, hcall, hlanes, hstats⟩ := same
  have hstand := h.lanes i _ hl
  exact h.depart hl here ⟨hconfig, hstage, hcursor, hcall, hlanes⟩ handoff
    barrier held inbox stopped halted (fun _ _ => rfl)
    (wire ▸ hstand.front) hstand.counted (.inr why) (hstats.trans h.stats)

/-- A worker whose connection has failed records that, and leaves. -/
theorem Inv.failLane (h : Inv n loose rows done fed w) {c d : Outlet}
    {phase : Phase} (hl : w.lanes[i]? = some ⟨c, phase⟩)
    (here : phase.isHere = true) (wire : d.wire = c.wire)
    (cause : IoError) :
    Inv n loose rows done fed (w.failLane i d cause) :=
  h.desert (v := w.fail (.transport i cause)) hl here
    ⟨rfl, rfl, rfl, rfl, rfl, rfl⟩ (h.handoff.refl i) (h.barrier.refl i)
    (h.seat_of_here hl here).2 rfl (fun _ => rfl) (fun _ => rfl) wire
    (.inl rfl)

/-- Who finds that it is to stop was told so by `finish`. -/
theorem Inv.closed_of_stop (h : Inv n loose rows done fed w)
    (hl : w.lanes[i]? = some lane) (here : lane.phase.isHere = true)
    {b' : Barrier} (hj : w.barrier.shouldStop i = (.stop true, b')) :
    w.stage = .closed := by
  obtain ⟨hjudge, _⟩ := shouldStop_spec h.barrier (h.seat_of_here hl here).2
  rw [hj] at hjudge
  cases hjudge with
  | told token => exact h.closed_of_sent token

/-- Who finds that it will not be told to stop has lost its owner. -/
theorem Inv.loose_of_stop (h : Inv n loose rows done fed w)
    (hl : w.lanes[i]? = some lane) (here : lane.phase.isHere = true)
    {b' : Barrier} (hj : w.barrier.shouldStop i = (.stop false, b')) :
    loose := by
  obtain ⟨hjudge, _⟩ := shouldStop_spec h.barrier (h.seat_of_here hl here).2
  rw [hj] at hjudge
  cases hjudge with
  | lost token => exact h.loose_of_lost token

/-- An idle worker has written all that it was handed, but for what is in
its slot. -/
theorem Inv.still (h : Inv n loose rows done fed w) {c : Outlet}
    {phase : Phase} (hl : w.lanes[i]? = some ⟨c, phase⟩)
    (hp : phase = .idle ∨ phase = .asking) :
    rows i = done i ++ (w.handoff.slot i).content ∧
      c.wire = encodeAll (done i) ∧ Open (rows i) := by
  cases h.lanes i _ hl with
  | still slot still seated made wire isOpen =>
    have hslot : w.handoff.slot i = _ := congrArg Seat.slot seated
    exact ⟨hslot ▸ made, wire, isOpen⟩
  | busy part _ _ _ _ _ _ _ => rcases hp with rfl | rfl <;> cases part
  | flushing _ _ _ _ _ => rcases hp with hp | hp <;> cases hp
  | gone _ _ _ _ _ => rcases hp with hp | hp <;> cases hp
  | lost _ _ _ _ _ => rcases hp with hp | hp <;> cases hp

/-- What a worker that writes has on its wire, and what is missing. -/
theorem Inv.busy (h : Inv n loose rows done fed w) {c : Outlet}
    {phase : Phase} {s : Segment} {rest : Outgoing}
    (hl : w.lanes[i]? = some ⟨c, phase⟩)
    (hp : phase.part w.cursor = some (s, rest)) :
    phase.isHere = true ∧ w.seat i = ⟨true, .unposted, true⟩ ∧
      rows i = done i ++ [s] ∧
      c.wire ++ rest.bytes = encodeAll (rows i) ∧ rest.bytes ≠ [] ∧
      Open (done i) ∧
      (∀ u r last, phase = .writing u r last → u.isTerminal = false) ∧
      (w.Told ∨ ∃ u r, phase = .writing u r false) := by
  have here : phase.isHere = true := by
    cases phase <;> first | rfl | cases hp
  cases h.lanes i _ hl with
  | still slot still _ _ _ _ => rcases still with rfl | rfl | rfl <;> cases hp
  | busy part seated made wire left isOpen plain told =>
    rw [part] at hp
    cases hp
    exact ⟨here, seated, made, wire, left, isOpen, plain, told⟩
  | flushing _ _ _ _ _ => cases hp
  | gone _ _ _ _ _ => cases hp
  | lost _ _ _ _ _ => cases hp

/-- **The statistics of a segment that was written.** -/
theorem Inv.recorded (h : Inv n loose rows done fed w) (hi : i < n)
    {s : Segment} (hs : s ∈ fed) :
    (w.record i s).stats = Stats.tally n (addTo i s done) := by
  have hkind : s.isTerminal = false ∧
      (s.isControl = true → s.isEmpty = true) ∧
      (s.isControl = false → s.isEmpty = false) := by
    rcases h.feeds.proper hs with rfl | ⟨hne, _, offset, he⟩
    · simp
    · rw [he]
      simpa using hne
  obtain ⟨hterminal, hempty, hfull⟩ := hkind
  rw [Stats.tally_addTo hi hempty, ← h.stats]
  unfold Writer.record Stats.record
  cases hc : s.isControl with
  | true => simp [hterminal]
  | false => simp [hterminal, hfull hc]

/-- The worker tells its terminal segment by its flag. -/
theorem Inv.recorded_terminal (h : Inv n loose rows done fed w)
    (hi : i < n) (cursor : UInt64) :
    w.stats.recordTerminal i =
      Stats.tally n (addTo i (.terminal cursor) done) := by
  rw [Stats.tally_addTo hi (by simp), ← h.stats]
  simp [Stats.record]

/-- A worker begins its terminal segment. -/
theorem Inv.beginEnd (h : Inv n loose rows done fed w)
    (hl : w.lanes[i]? = some lane) (here : lane.phase.isHere = true)
    {v : Writer} {c : Outlet}
    (same : v.config = w.config ∧ v.stage = w.stage ∧
      v.cursor = w.cursor ∧ v.call = w.call ∧ v.lanes = w.lanes ∧
      v.failure = w.failure ∧ v.cancelled = w.cancelled)
    (handoff : Handoff.Touches n i w.handoff v.handoff)
    (barrier : Barrier.Touches n i loose w.barrier v.barrier)
    (inbox : v.barrier.inbox = w.barrier.inbox)
    (others : ∀ j, j ≠ i → done' j = done j)
    (seated : v.seat i = ⟨true, .unposted, true⟩)
    (told : w.Told) (hrow : rows i = done' i)
    (wire : c.wire = encodeAll (rows i)) (isOpen : Open (rows i))
    (stats : v.stats = Stats.tally n done') :
    ∃ rows', (∀ j, rows j <+: rows' j) ∧
      Inv n loose rows' done' fed (v.beginEnd i c) := by
  have hi := h.lt hl
  have hgiven := h.given.finish hi (isTerminal_terminal (.ofNat w.cursor))
  refine ⟨addTo i (.terminal (.ofNat w.cursor)) rows, front_addTo i _ rows,
    h.stay hl here same handoff barrier inbox ?_ ?_ (by simp)
      ⟨by simp, by simp⟩ hgiven stats⟩
  · intro j hj
    exact ⟨addTo_of_ne hj _ _, others j hj⟩
  · rw [same.2.2.1, addTo_self]
    refine .busy (s := .terminal (.ofNat w.cursor)) rfl seated
      (hrow ▸ rfl) ?_ (Outgoing.bytes_ofSegment_ne_nil _)
      (hrow ▸ isOpen) (by simp) (.inl told)
    simp [wire]

/-- A worker begins a segment that was handed to it. -/
theorem Inv.beginSegment (h : Inv n loose rows done fed w)
    (hl : w.lanes[i]? = some lane) (here : lane.phase.isHere = true)
    {v : Writer} {c : Outlet} {s : Segment} {last : Bool}
    (same : v.config = w.config ∧ v.stage = w.stage ∧
      v.cursor = w.cursor ∧ v.call = w.call ∧ v.lanes = w.lanes ∧
      v.failure = w.failure ∧ v.cancelled = w.cancelled ∧
      v.stats = w.stats)
    (handoff : Handoff.Touches n i w.handoff v.handoff)
    (barrier : Barrier.Touches n i loose w.barrier v.barrier)
    (inbox : v.barrier.inbox = w.barrier.inbox)
    (seated : v.seat i = ⟨true, .unposted, true⟩)
    (hrow : rows i = done i ++ [s]) (wire : c.wire = encodeAll (done i))
    (isOpen : Open (rows i)) (told : last = true → w.Told) :
    Inv n loose rows done fed (v.beginSegment i c s last) := by
  obtain ⟨hconfig, hstage, hcursor, hcall, hlanes, hfail, hcancel, hstats⟩ :=
    same
  refine h.stay hl here ⟨hconfig, hstage, hcursor, hcall, hlanes, hfail,
    hcancel⟩ handoff barrier inbox (fun _ _ => ⟨rfl, rfl⟩) ?_ (by simp)
    ⟨by simp, by simp⟩ h.given (hstats.trans h.stats)
  have hparts : Open (done i) ∧ s.isTerminal = false := by
    rw [hrow] at isOpen
    simpa using isOpen
  refine .busy rfl seated hrow ?_ (Outgoing.bytes_ofSegment_ne_nil s)
    hparts.1 ?_ ?_
  · rw [wire, hrow]
    simp
  · intro u r l he
    cases he
    exact hparts.2
  · cases last with
    | true => exact .inl (told rfl)
    | false => exact .inr ⟨s, _, rfl⟩

/-- A worker that was told to stop has closed its slot, and has been handed
what was in it. -/
theorem Inv.obeying (h : Inv n loose rows done fed w) {c : Outlet}
    (hl : w.lanes[i]? = some ⟨c, .asking⟩) {b' : Barrier}
    {pending : Option Segment} {h' : Handoff}
    (judges : w.barrier.shouldStop i = (.stop true, b'))
    (taken : w.handoff.takePending i = (pending, h')) :
    Handoff.Touches n i w.handoff h' ∧
      Barrier.Touches n i loose w.barrier b' ∧
      b'.inbox = w.barrier.inbox ∧
      seat { w with barrier := b', handoff := h' } i =
        ⟨true, .unposted, true⟩ ∧
      w.Told ∧ rows i = done i ++ pending.toList := by
  obtain ⟨hrow, _, _⟩ := h.still hl (.inr rfl)
  obtain ⟨hpresent, hheld⟩ := h.seat_of_here hl rfl
  obtain ⟨hjudge, hbarrier, hheld', hinbox⟩ := shouldStop_spec h.barrier hheld
  obtain ⟨hhandoff, hslot, hpresent', hcontent⟩ :=
    takePending_spec h.handoff (h.lt hl)
  rw [judges] at hjudge hbarrier hheld' hinbox
  rw [taken] at hhandoff hslot hpresent' hcontent
  refine ⟨hhandoff, hbarrier, hinbox, ?_, ?_, hcontent ▸ hrow⟩
  · show Seat.mk (h'.present i) (h'.slot i) (b'.held i) = _
    rw [hpresent', hpresent, hslot, hheld']
  · cases hjudge with
    | told token => exact ⟨i, token⟩

/-- A worker that has nothing to write turns to its slot, or asks whether
it is to stop. -/
theorem Inv.turn (h : Inv n loose rows done fed w) {c : Outlet}
    {phase phase' : Phase} (hl : w.lanes[i]? = some ⟨c, phase⟩)
    (hp : phase = .idle ∨ phase = .asking)
    (hp' : phase' = .idle ∨ phase' = .asking) {b' : Barrier}
    (barrier : Barrier.Touches n i loose w.barrier b')
    (held : b'.held i = true) (inbox : b'.inbox = w.barrier.inbox)
    (asking : phase' = .asking →
      w.cancelled = true ∨ w.barrier.token i ≠ .waiting) :
    Inv n loose rows done fed
      ({ w with barrier := b' }.setLane i ⟨c, phase'⟩) := by
  have here : phase.isHere = true := by rcases hp with rfl | rfl <;> rfl
  have hstays : phase' ≠ .unstarted ∧ phase' ≠ .gone := by
    rcases hp' with rfl | rfl <;> simp
  obtain ⟨hrow, hwire, hopen⟩ := h.still hl hp
  have hpresent := (h.seat_of_here hl here).1
  refine h.stay (v := { w with barrier := b' }) hl here
    ⟨rfl, rfl, rfl, rfl, rfl, rfl, rfl⟩ (h.handoff.refl i) barrier inbox
    (fun _ _ => ⟨rfl, rfl⟩) ?_ asking hstays h.given h.stats
  refine .still (w.handoff.slot i) (.inr hp') ?_ hrow hwire hopen
  show Seat.mk (w.handoff.present i) _ (b'.held i) = _
  rw [hpresent, held]

/-- A worker posts a slot. -/
theorem Inv.post (h : Inv n loose rows done fed w) {c : Outlet}
    (hl : w.lanes[i]? = some ⟨c, .idle⟩) {h' : Handoff}
    (slot : w.handoff.slot i = .unposted)
    (receives : Receives i w.handoff .pending h')
    (slot' : h'.slot i = .posted) :
    Inv n loose rows done fed { w with handoff := h' } := by
  obtain ⟨hrow, hwire, hopen⟩ := h.still hl (.inl rfl)
  obtain ⟨hpresent, hheld⟩ := h.seat_of_here hl rfl
  have hset : w.lanes = w.lanes.set i ⟨c, .idle⟩ := (set_self hl).symm
  refine h.relane hl rfl hset ⟨rfl, rfl, rfl, rfl⟩
    (h.handoff.receives (h.lt hl) receives) (h.barrier.refl i) id h.halted
    (fun _ _ => ⟨rfl, rfl⟩) ?_ (by simp) (by simp) h.given h.stats
    (h.acks_of_stay hl rfl hset rfl (by simp))
  refine .still .posted (.inr (.inl rfl)) ?_ ?_ hwire hopen
  · show Seat.mk (h'.present i) (h'.slot i) (w.barrier.held i) = _
    have hp : h'.present i = true := by
      cases receives with
      | waits _ _ => exact hpresent
      | full _ _ _ => exact hpresent
      | posts _ _ _ after => rw [after, present_setSlot]; exact hpresent
    rw [hp, slot', hheld]
  · rw [hrow, slot]
    rfl

/-- A worker has written what it had to: it goes on to something else, or
its terminal segment comes next. -/
theorem Inv.written (h : Inv n loose rows done fed w) {c c' : Outlet}
    {phase : Phase} {s : Segment} {rest : Outgoing}
    (hl : w.lanes[i]? = some ⟨c, phase⟩)
    (hp : phase.part w.cursor = some (s, rest))
    (hwire : c'.wire = c.wire ++ rest.bytes) :
    ∃ rows' done', (∀ j, rows j <+: rows' j) ∧
      Inv n loose rows' done' fed ((w.account i phase).after i c' phase) := by
  obtain ⟨here, hseat, hrow, hwhole, _, hopen, hplain, htold⟩ := h.busy hl hp
  have hi := h.lt hl
  have hall : c'.wire = encodeAll (rows i) := hwire.trans hwhole
  cases phase with
  | writing u r last =>
    cases hp
    have hs := hplain s rest last rfl
    have hrowOpen : Open (rows i) := by
      rw [hrow]
      exact open_append.2 ⟨hopen, open_singleton.2 hs⟩
    have hfed : s ∈ fed := h.mem_fed hi (by simp [hrow]) hs
    have hrec := h.recorded hi hfed
    have hdone : rows i = addTo i s done i := by rw [hrow, addTo_self]
    have hother (j : Nat) (hj : j ≠ i) : addTo i s done j = done j :=
      addTo_of_ne hj s done
    cases last with
    | true =>
      have htold : w.Told := by
        rcases htold with ht | ⟨u, r, he⟩
        · exact ht
        · cases he
      obtain ⟨rows', hle, hinv⟩ := h.beginEnd (v := w.record i s) hl here
        ⟨rfl, rfl, rfl, rfl, rfl, rfl, rfl⟩ (h.handoff.refl i)
        (h.barrier.refl i) rfl hother hseat htold hdone hall hrowOpen hrec
      exact ⟨rows', _, hle, hinv⟩
    | false =>
      refine ⟨rows, addTo i s done, fun _ => List.prefix_rfl, ?_⟩
      refine h.stay (v := w.record i s) hl here
        ⟨rfl, rfl, rfl, rfl, rfl, rfl, rfl⟩ (h.handoff.refl i)
        (h.barrier.refl i) rfl (fun j hj => ⟨rfl, hother j hj⟩) ?_ (by simp)
        ⟨by simp, by simp⟩ h.given hrec
      refine .still .unposted (.inr (.inl rfl)) hseat ?_ ?_
        hrowOpen
      · rw [hdone]
        exact (List.append_nil _).symm
      · rw [hall, hdone]
  | ending r =>
    cases hp
    have htold : w.Told := by
      rcases htold with ht | ⟨u, r, he⟩
      · exact ht
      · cases he
    refine ⟨rows, done, fun _ => List.prefix_rfl, ?_⟩
    refine h.stay hl here ⟨rfl, rfl, rfl, rfl, rfl, rfl, rfl⟩
      (h.handoff.refl i) (h.barrier.refl i) rfl (fun _ _ => ⟨rfl, rfl⟩) ?_
      (by simp) ⟨by simp, by simp⟩ h.given h.stats
    exact .flushing hseat hrow hall hopen htold
  | _ => cases hp

/-- A worker goes on writing, with less of its segment left. -/
theorem Inv.goOn (h : Inv n loose rows done fed w) {c c' : Outlet}
    {phase : Phase} {s : Segment} {rest rest' : Outgoing}
    (hl : w.lanes[i]? = some ⟨c, phase⟩)
    (hp : phase.part w.cursor = some (s, rest))
    (left : rest'.bytes ≠ [])
    (hwire : c'.wire ++ rest'.bytes = c.wire ++ rest.bytes) :
    Inv n loose rows done fed (w.setLane i ⟨c', phase.goOn rest'⟩) := by
  obtain ⟨here, hseat, hrow, hwhole, _, hopen, hplain, htold⟩ := h.busy hl hp
  obtain ⟨hpart, hasking, hstays⟩ :
      (phase.goOn rest').part w.cursor = some (s, rest') ∧
        phase.goOn rest' ≠ .asking ∧
        (phase.goOn rest' ≠ .unstarted ∧ phase.goOn rest' ≠ .gone) := by
    cases phase <;> cases hp <;> simp [Phase.goOn, Phase.part]
  refine h.stay hl here ⟨rfl, rfl, rfl, rfl, rfl, rfl, rfl⟩
    (h.handoff.refl i) (h.barrier.refl i) rfl (fun _ _ => ⟨rfl, rfl⟩) ?_
    (fun ha => absurd ha hasking) hstays h.given h.stats
  refine .busy hpart hseat hrow (hwire.trans hwhole) left hopen ?_ ?_
  · intro u r last he
    cases phase <;> cases he
    exact hplain u _ last rfl
  · refine htold.imp_right ?_
    rintro ⟨u, r, rfl⟩
    exact ⟨u, rest', rfl⟩

/-- A worker has flushed its connection, and leaves: its terminal segment
is counted. -/
theorem Inv.flushed (h : Inv n loose rows done fed w) {c c' : Outlet}
    (hl : w.lanes[i]? = some ⟨c, .flushing⟩) (hwire : c'.wire = c.wire) :
    Inv n loose rows (addTo i (.terminal (.ofNat w.cursor)) done) fed
      ({ w with stats := w.stats.recordTerminal i }.leave i c') := by
  obtain ⟨made, wire, _, _⟩ := (h.lanes i _ hl).of_flushing
  have hdone : rows i = addTo i (.terminal (.ofNat w.cursor)) done i := by
    rw [made, addTo_self]
  have hall : c'.wire = encodeAll (rows i) := hwire.trans wire
  refine h.depart (v := { w with stats := w.stats.recordTerminal i }) hl
    rfl ⟨rfl, rfl, rfl, rfl, rfl⟩ (h.handoff.refl i) (h.barrier.refl i)
    (h.seat_of_here hl rfl).2 rfl id h.halted
    (fun j hj => addTo_of_ne hj _ _) ⟨[], by simpa using hall⟩
    (hdone ▸ List.prefix_rfl) (.inl ⟨hdone, hall, ?_⟩)
    (h.recorded_terminal (h.lt hl) _)
  rw [made]
  simp

/-- A worker is lost. -/
theorem Inv.lose (h : Inv n loose rows done fed w) {c : Outlet}
    (hl : w.lanes[i]? = some lane) (here : lane.phase.isHere = true)
    (front : c.wire <+: encodeAll (rows i)) (begun : rows i ≠ [])
    (message : String) :
    Inv n loose rows done fed (w.lose i c message) := by
  have hi := h.lt hl
  obtain ⟨hpresent, hheld⟩ := h.seat_of_here hl here
  obtain ⟨htouch, hslot, hleft⟩ := leave_spec h.handoff hi
  obtain ⟨htouch', hback⟩ := giveBack_spec h.barrier hheld
  have hset : (w.lose i c message).lanes =
      w.lanes.set i ⟨c, .lost message⟩ := rfl
  have hstand := h.lanes i lane hl
  refine h.relane hl here hset ⟨rfl, rfl, rfl, rfl⟩ htouch htouch' id
    h.halted (fun _ _ => ⟨rfl, rfl⟩) ?_ (by simp) (by simp) h.given h.stats
    (h.acks_of_stay hl here hset rfl (by simp))
  refine .lost ?_ front hstand.counted hstand.shaped begun
  show Seat.mk ((w.handoff.leave i).present i) ((w.handoff.leave i).slot i)
    ((w.barrier.giveBack i).held i) = _
  rw [hslot, hleft, hback]

/-- A move that leaves what was handed over as it is. -/
theorem Inv.same (h : Inv n loose rows done fed w) :
    ∃ rows' done', (∀ j, rows j <+: rows' j) ∧
      Inv n loose rows' done' fed w :=
  ⟨rows, done, fun _ => List.prefix_rfl, h⟩

/-- **Every move of a worker** keeps the invariant. -/
theorem Inv.work (h : Inv n loose rows done fed w)
    (hw : w.work i = some w') :
    ∃ rows' done', (∀ j, rows j <+: rows' j) ∧
      Inv n loose rows' done' fed w' := by
  cases h.worked hw with
  | @begin c s lane slot =>
    obtain ⟨hrow, hwire, hopen⟩ := h.still lane (.inl rfl)
    obtain ⟨hpresent, hheld⟩ := h.seat_of_here lane rfl
    have hi := h.lt lane
    have htouch := h.handoff.taken hi (by simp [slot])
    rw [slot] at hrow
    refine (h.beginSegment (v := { w with
      handoff := w.handoff.setSlot i .unposted }) lane rfl
      ⟨rfl, rfl, rfl, rfl, rfl, rfl, rfl, rfl⟩ htouch (h.barrier.refl i) rfl
      ?_ hrow hwire hopen (by simp)).same
    show Seat.mk ((w.handoff.setSlot i .unposted).present i)
      ((w.handoff.setSlot i .unposted).slot i) (w.barrier.held i) = _
    rw [present_setSlot, slot_setSlot (by rw [h.handoff.size]; exact hi),
      if_pos rfl, hpresent, hheld]
  | post lane slot receives slot' queue =>
    exact (h.post lane slot receives slot').same
  | @ask c lane empty disturbed =>
    have hheld := (h.seat_of_here lane rfl).2
    refine (h.turn lane (.inl rfl) (.inr rfl) (h.barrier.refl i) hheld rfl
      fun _ => ?_).same
    simp only [Writer.disturbed, Bool.or_eq_true, bne_iff_ne] at disturbed
    exact disturbed.imp_right fun hv ht =>
      hv ((shouldStop_eq_pending_iff h.barrier hheld).2 ht)
  | @quit c h' lane receives =>
    have hfed : w.handoff.fed = false := by
      cases receives with
      | closed _ fed _ => exact fed
    -- while somebody is left, the feeder goes only if it is let go
    have hloose : loose := (h.closing hfed).resolve_right fun hall => by
      have := hall _ (List.mem_of_getElem? (phases_eq_some lane))
      cases this
    exact (h.desert (v := { w with handoff := h' }) lane rfl
      ⟨rfl, rfl, rfl, rfl, rfl, rfl⟩
      (h.handoff.receives (h.lt lane) receives) (h.barrier.refl i)
      (h.seat_of_here lane rfl).2 rfl id h.halted rfl (.inr hloose)).same
  | @last c b' s h' lane judges taken =>
    obtain ⟨_, hwire, hopen⟩ := h.still lane (.inr rfl)
    obtain ⟨hhandoff, hbarrier, hinbox, hseat, htold, hrow⟩ :=
      h.obeying lane judges taken
    exact (h.beginSegment (v := { w with barrier := b', handoff := h' })
      lane rfl ⟨rfl, rfl, rfl, rfl, rfl, rfl, rfl, rfl⟩ hhandoff hbarrier
      hinbox hseat hrow hwire hopen fun _ => htold).same
  | @obey c b' h' lane judges taken =>
    obtain ⟨_, hwire, hopen⟩ := h.still lane (.inr rfl)
    obtain ⟨hhandoff, hbarrier, hinbox, hseat, htold, hrow⟩ :=
      h.obeying lane judges taken
    have hrow : rows i = done i := hrow.trans (List.append_nil _)
    obtain ⟨rows', hle, hinv⟩ := h.beginEnd (v := { w with
      barrier := b', handoff := h' }) lane rfl
      ⟨rfl, rfl, rfl, rfl, rfl, rfl, rfl⟩ hhandoff hbarrier hinbox
      (fun _ _ => rfl) hseat htold hrow (hrow ▸ hwire) hopen h.stats
    exact ⟨rows', done, hle, hinv⟩
  | @dismiss c v b' lane judges why =>
    obtain ⟨hjudge, hbarrier, hheld, hinbox⟩ :=
      shouldStop_spec h.barrier (h.seat_of_here lane rfl).2
    rw [judges] at hjudge hbarrier hheld hinbox
    refine (h.desert (v := { w with barrier := b' }) lane rfl
      ⟨rfl, rfl, rfl, rfl, rfl, rfl⟩ (h.handoff.refl i) hbarrier hheld
      hinbox id h.halted rfl ?_).same
    rcases why with rfl | hc
    · cases hjudge with
      | lost token => exact .inr (h.loose_of_lost token)
    · exact .inl hc
  | back lane judges why going =>
    obtain ⟨_, hbarrier, hheld, hinbox⟩ :=
      shouldStop_spec h.barrier (h.seat_of_here lane rfl).2
    rw [judges] at hbarrier hheld hinbox
    exact (h.turn lane (.inr rfl) (.inl rfl) hbarrier hheld hinbox
      nofun).same
  | halt lane part stopped =>
    have here := (h.busy lane part).1
    exact (h.desert lane here ⟨rfl, rfl, rfl, rfl, rfl, rfl⟩
      (h.handoff.refl i) (h.barrier.refl i) (h.seat_of_here lane here).2 rfl
      id h.halted rfl (.inl stopped)).same
  | more lane part going write =>
    have hne := (h.busy lane part).2.2.2.2.1
    cases Outgoing.write_spec hne write with
    | more pos left bytes wire closed sound =>
      refine (h.goOn lane part left ?_).same
      rw [wire, List.append_assoc, ← bytes]
  | written lane part going write =>
    have hne := (h.busy lane part).2.2.2.2.1
    cases Outgoing.write_spec hne write with
    | done wire closed sound => exact h.written lane part wire
  | @failed c c' phase s rest cause lane part going write =>
    obtain ⟨here, _, _, _, hne, _⟩ := h.busy lane part
    cases Outgoing.write_spec hne write with
    | failed wire unsound => exact (h.failLane lane here wire cause).same
  | @panicked c c' phase s rest message lane part going write =>
    obtain ⟨here, _, hrow, _, hne, _⟩ := h.busy lane part
    have hfront := (h.lanes i _ lane).front
    cases Outgoing.write_spec hne write with
    | panicked wire unsound =>
      exact (h.lose lane here (wire ▸ hfront) (by simp [hrow]) message).same
  | flushed lane flush =>
    exact ⟨rows, _, fun _ => List.prefix_rfl, h.flushed lane rfl⟩
  | @unflushed c cause lane flush =>
    exact (h.failLane (d := c.flush.2) lane rfl rfl cause).same

end Workers
end Writer
end Stripe
