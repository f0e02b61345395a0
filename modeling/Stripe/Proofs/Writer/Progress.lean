import Stripe.Writer.Crew
import Stripe.Proofs.Schedule
import Stripe.Proofs.Writer.Preservation

/-!
# A writer comes to rest

The workers and the call make a limited number of moves before something
else has to happen. Each move takes some effort (`weight`), and more of it
than it puts bytes on a wire (`Inv.lighter`); so the moves of a writer
also pay for what the other side does with these bytes.

So the turns of the workers and the call come to an end
(`crew_drives`).
-/

namespace Stripe.Writer

open Segment Handoff Barrier

/-! ## The weight of a state -/

/-- How many bytes are on the wires. -/
def written (w : Writer) : Nat :=
  total (fun i => (w.wire i).length) (List.range w.connections)

/-- The weight has become smaller by more than the bytes that were put on a
wire. -/
structure Lighter (w w' : Writer) : Prop where
  lt : w'.weight + w'.written < w.weight + w.written
  le : w.written ≤ w'.written

/-- A move of a worker or of the call. -/
def Event.isMove : Event → Bool
  | .work _ | .advance => true
  | _ => false

/-! ## Workers -/

section Weight

variable {n : Nat} {loose : Prop} {rows done : Nat → List Segment}
  {fed : List Segment} {w w' : Writer}

theorem callEffort_congr (hcall : w'.call = w.call)
    (hlanes : w'.connections = w.connections)
    (howner : w'.barrier.owner = w.barrier.owner) :
    w'.callEffort = w.callEffort := by
  unfold callEffort
  rw [hcall, hlanes, howner]

theorem wire_eq_of_lane {i : Nat} {lane : Lane}
    (h : w.lanes[i]? = some lane) : w.wire i = lane.outlet.wire := by
  simp [wire, h]

/-- One lane has moved. -/
theorem lighter_of_lane {i : Nat} {lane lane' : Lane}
    (hl : w.lanes[i]? = some lane) (lanes : w'.lanes = w.lanes.set i lane')
    (slots : ∀ j, j ≠ i → w'.handoff.slot j = w.handoff.slot j)
    (call : w'.call = w.call)
    (owner : w'.barrier.owner = w.barrier.owner)
    (grows : lane.outlet.wire.length ≤ lane'.outlet.wire.length)
    (cost : lane'.phase.effort + slotEffort (w'.handoff.slot i) +
        lane'.outlet.wire.length <
      lane.phase.effort + slotEffort (w.handoff.slot i) +
        lane.outlet.wire.length) : Lighter w w' := by
  have hi : i < w.lanes.length := (List.getElem?_eq_some_iff.1 hl).1
  have hsize : w'.lanes.length = w.lanes.length := by simp [lanes]
  have hself : w'.lanes[i]? = some lane' := by
    rw [lanes, List.getElem?_set_self hi]
  have hother (j : Nat) (hj : j ≠ i) : w'.lanes[j]? = w.lanes[j]? := by
    rw [lanes, List.getElem?_set_ne (Ne.symm hj)]
  have heffort := total_range_update (f := w.effortAt) (g := w'.effortAt)
    hi fun j hj => by
      simp only [effortAt, phases, List.getElem?_map, hother j hj,
        slots j hj]
  have hwire := total_range_update (f := fun j => (w.wire j).length)
    (g := fun j => (w'.wire j).length) hi fun j hj => by
      simp only [wire, hother j hj]
  have hnew : w'.effortAt i =
      lane'.phase.effort + slotEffort (w'.handoff.slot i) := by
    simp [effortAt, phases_eq_some hself]
  have hold : w.effortAt i =
      lane.phase.effort + slotEffort (w.handoff.slot i) := by
    simp [effortAt, phases_eq_some hl]
  simp only [wire_eq_of_lane hl, wire_eq_of_lane hself] at hwire
  rw [hnew, hold] at heffort
  have hcall := callEffort_congr call hsize owner
  constructor
  · simp only [weight, written, connections, hsize, hcall]
    omega
  · simp only [written, connections, hsize]
    omega

/-- A worker that has not left can still leave. -/
theorem Inv.effort_here (h : Inv n loose rows done fed w) {i : Nat}
    {lane : Lane} (hl : w.lanes[i]? = some lane)
    (here : lane.phase.isHere = true) :
    1 < lane.phase.effort + slotEffort (w.handoff.slot i) := by
  cases h.lanes i lane hl with
  | still slot still seated made wire isOpen =>
    rcases still with rfl | rfl | rfl
    · cases here
    · simp only [Phase.effort]
      omega
    · simp only [Phase.effort]
      omega
  | @busy c phase s rest part seated made wire left isOpen plain told =>
    have hpos := List.length_pos_iff.2 left
    cases phase with
    | writing u r last =>
      simp only [Phase.effort]
      omega
    | ending r =>
      cases part
      simp only [Phase.effort]
      omega
    | _ => cases part
  | flushing seated made wire isOpen told =>
    rw [show w.handoff.slot i = .unposted from congrArg Seat.slot seated]
    simp [Phase.effort, slotEffort]
  | gone seated front counted shaped why => cases here
  | lost seated front counted shaped => cases here

/-- A worker leaves, or is lost. -/
theorem Inv.lighter_leave (h : Inv n loose rows done fed w) {i : Nat}
    {lane : Lane} (hl : w.lanes[i]? = some lane)
    (here : lane.phase.isHere = true) {h' : Handoff} {c : Outlet}
    {phase : Phase} (lanes : w'.lanes = w.lanes.set i ⟨c, phase⟩)
    (idles : phase.effort = 0)
    (touches : Handoff.Touches n i w.handoff h')
    (left : w'.handoff = h'.leave i) (call : w'.call = w.call)
    (owner : w'.barrier.owner = w.barrier.owner)
    (wire : c.wire = lane.outlet.wire) : Lighter w w' := by
  obtain ⟨touches', hslot, _⟩ := leave_spec touches.sane (h.lt hl)
  refine lighter_of_lane hl lanes ?_ call owner ?_ ?_
  · intro j hj
    rw [left, touches'.slot j hj, touches.slot j hj]
  · exact Nat.le_of_eq (congrArg List.length wire.symm)
  · have hpos := h.effort_here hl here
    have hfree : slotEffort .unposted = 1 := rfl
    rw [left, hslot, idles, wire, hfree]
    omega

/-- A worker goes on, and leaves its slot as it is. -/
theorem lighter_of_setLane {i : Nat} {c c' : Outlet} {phase phase' : Phase}
    (hl : w.lanes[i]? = some ⟨c, phase⟩) {v : Writer}
    (same : v.lanes = w.lanes ∧ v.handoff = w.handoff ∧ v.call = w.call ∧
      v.barrier = w.barrier) {bs : Bytes} (wire : c'.wire = c.wire ++ bs)
    (cost : phase'.effort + bs.length < phase.effort) :
    Lighter w (v.setLane i ⟨c', phase'⟩) := by
  obtain ⟨hlanes, hhandoff, hcall, hbarrier⟩ := same
  have hlen : c'.wire.length = c.wire.length + bs.length := by
    rw [wire, List.length_append]
  have hslot (j : Nat) :
      (v.setLane i ⟨c', phase'⟩).handoff.slot j = w.handoff.slot j :=
    congrArg (fun h : Handoff => h.slot j) hhandoff
  have hset : (v.setLane i ⟨c', phase'⟩).lanes =
      w.lanes.set i ⟨c', phase'⟩ := by
    rw [lanes_setLane, hlanes]
  refine lighter_of_lane hl hset (fun j _ => hslot j) hcall
    (congrArg Barrier.owner hbarrier) ?_ ?_
  · rw [hlen]
    exact Nat.le_add_right _ _
  · show phase'.effort + slotEffort _ + c'.wire.length <
      phase.effort + slotEffort _ + c.wire.length
    rw [hslot, hlen]
    omega

/-- A worker begins a segment that it takes out of its slot. -/
theorem lighter_begin {i : Nat} {c : Outlet} {phase : Phase} {s : Segment}
    {last : Bool} (hl : w.lanes[i]? = some ⟨c, phase⟩)
    (hp : phase = .idle ∨ phase = .asking)
    (lanes : w'.lanes =
      w.lanes.set i ⟨c, .writing s (.ofSegment s) last⟩)
    (touches : Handoff.Touches n i w.handoff w'.handoff)
    (slot : w.handoff.slot i = .filled s)
    (slot' : w'.handoff.slot i = .unposted) (call : w'.call = w.call)
    (owner : w'.barrier.owner = w.barrier.owner) : Lighter w w' := by
  refine lighter_of_lane hl lanes touches.slot call owner (Nat.le_refl _) ?_
  have hbytes : (Outgoing.ofSegment s).bytes.length = s.encode.length := rfl
  rw [slot, slot']
  rcases hp with rfl | rfl <;>
    simp only [Phase.effort, slotEffort, hbytes] <;> omega

/-- A byte that is written takes two of the effort. -/
theorem Phase.effort_goOn {phase : Phase} {cursor : Nat} {s : Segment}
    {rest rest' : Outgoing} (hp : phase.part cursor = some (s, rest))
    {bs : Bytes} (hb : rest.bytes = bs ++ rest'.bytes) :
    (phase.goOn rest').effort + 2 * bs.length = phase.effort := by
  have hlen : rest.bytes.length = bs.length + rest'.bytes.length := by
    rw [hb, List.length_append]
  cases phase <;> cases hp <;> simp only [Phase.goOn, Phase.effort] <;> omega

/-- A worker has written what it had to. -/
theorem Inv.lighter_written (h : Inv n loose rows done fed w) {i : Nat}
    {c c' : Outlet} {phase : Phase} {s : Segment} {rest : Outgoing}
    (hl : w.lanes[i]? = some ⟨c, phase⟩)
    (hp : phase.part w.cursor = some (s, rest))
    (wire : c'.wire = c.wire ++ rest.bytes) :
    Lighter w ((w.account i phase).after i c' phase) := by
  have hpos := List.length_pos_iff.2 (h.busy hl hp).2.2.2.2.1
  have hend : (Outgoing.ofSegment
      (.terminal (.ofNat w.cursor))).bytes.length = Header.size := by simp
  cases phase with
  | writing u r last =>
    cases hp
    cases last with
    | false =>
      refine lighter_of_setLane hl ⟨rfl, rfl, rfl, rfl⟩ wire ?_
      simp only [Phase.effort]
      omega
    | true =>
      show Lighter w ((w.record i s).setLane i
        ⟨c', .ending (.ofSegment (.terminal (.ofNat w.cursor)))⟩)
      refine lighter_of_setLane hl ⟨rfl, rfl, rfl, rfl⟩ wire ?_
      simp only [Phase.effort, hend]
      omega
  | ending r =>
    cases hp
    refine lighter_of_setLane hl ⟨rfl, rfl, rfl, rfl⟩ wire ?_
    simp only [Phase.effort]
    omega
  | _ => cases hp

/-- **Every move of a worker** takes effort. -/
theorem Inv.lighter_work (h : Inv n loose rows done fed w) {i : Nat}
    (hw : w.work i = some w') : Lighter w w' := by
  cases h.worked hw with
  | @begin c s lane slot =>
    have hi : i < w.handoff.receivers.length := by
      rw [h.handoff.size]
      exact h.lt lane
    have hslot : (w.handoff.setSlot i .unposted).slot i = .unposted := by
      rw [slot_setSlot hi, if_pos rfl]
    exact lighter_begin lane (.inl rfl) rfl
      (h.handoff.taken (h.lt lane) (by simp [slot])) slot hslot rfl rfl
  | @post c h' lane slot receives slot' queue =>
    have touches := h.handoff.receives (h.lt lane) receives
    refine lighter_of_lane lane (set_self lane).symm touches.slot rfl rfl
      (Nat.le_refl _) ?_
    show _ + slotEffort (h'.slot i) + _ < _
    rw [slot, slot']
    simp [slotEffort]
  | ask lane empty disturbed =>
    refine lighter_of_setLane lane ⟨rfl, rfl, rfl, rfl⟩
      (List.append_nil _).symm ?_
    simp only [Phase.effort, List.length_nil]
    omega
  | quit lane receives =>
    exact h.lighter_leave lane rfl rfl rfl
      (h.handoff.receives (h.lt lane) receives) rfl rfl rfl rfl
  | @last c b' s h' lane judges taken =>
    obtain ⟨hhandoff, hbarrier, _, hseat, _, hrow⟩ :=
      h.obeying lane judges taken
    have hslot : w.handoff.slot i = .filled s := by
      obtain ⟨hstill, _, _⟩ := h.still lane (.inr rfl)
      have hcontent := List.append_cancel_left (hrow.symm.trans hstill)
      cases hs : w.handoff.slot i <;> rw [hs] at hcontent <;> cases hcontent
      rfl
    exact lighter_begin lane (.inr rfl) rfl hhandoff hslot
      (congrArg Seat.slot hseat) rfl hbarrier.owner
  | @obey c b' h' lane judges taken =>
    obtain ⟨hhandoff, hbarrier, _, hseat, _, _⟩ :=
      h.obeying lane judges taken
    have hslot : h'.slot i = .unposted := congrArg Seat.slot hseat
    have hend : (Outgoing.ofSegment
        (.terminal (.ofNat w.cursor))).bytes.length = Header.size := by simp
    refine lighter_of_lane lane rfl hhandoff.slot rfl hbarrier.owner
      (Nat.le_refl _) ?_
    show Phase.effort (.ending (.ofSegment (.terminal (.ofNat w.cursor)))) +
      slotEffort (h'.slot i) + _ < _
    simp only [hslot, Phase.effort, slotEffort, hend]
    omega
  | dismiss lane judges why =>
    obtain ⟨_, hbarrier, _⟩ := shouldStop_spec h.barrier
      (h.seat_of_here lane rfl).2
    rw [judges] at hbarrier
    exact h.lighter_leave lane rfl rfl rfl (h.handoff.refl i) rfl rfl
      hbarrier.owner rfl
  | @back c v b' lane judges why going =>
    -- a worker that looks has a reason, and finds it
    have hheld := (h.seat_of_here lane rfl).2
    obtain ⟨hjudge, _⟩ := shouldStop_spec h.barrier hheld
    rw [judges] at hjudge
    rcases h.asking i c lane with hstop | htoken
    · rw [going] at hstop
      cases hstop
    · cases hjudge with
      | waits token => exact absurd token htoken
      | told token => exact absurd rfl (why true)
      | lost token => exact absurd rfl (why false)
  | halt lane part stopped =>
    exact h.lighter_leave lane (h.busy lane part).1 rfl rfl
      (h.handoff.refl i) rfl rfl rfl rfl
  | @more c c' phase s rest rest' lane part going write =>
    have hne := (h.busy lane part).2.2.2.2.1
    cases Outgoing.write_spec hne write with
    | @more rest' bs c' pos left bytes wire closed sound =>
      have heffort := Phase.effort_goOn part bytes
      have hpos := List.length_pos_iff.2 pos
      exact lighter_of_setLane lane ⟨rfl, rfl, rfl, rfl⟩ wire (by omega)
  | written lane part going write =>
    have hne := (h.busy lane part).2.2.2.2.1
    cases Outgoing.write_spec hne write with
    | done wire closed sound => exact h.lighter_written lane part wire
  | failed lane part going write =>
    obtain ⟨here, _, _, _, hne, _⟩ := h.busy lane part
    cases Outgoing.write_spec hne write with
    | failed wire unsound =>
      exact h.lighter_leave lane here rfl rfl (h.handoff.refl i) rfl rfl rfl
        wire
  | panicked lane part going write =>
    obtain ⟨here, _, _, _, hne, _⟩ := h.busy lane part
    cases Outgoing.write_spec hne write with
    | panicked wire unsound =>
      exact h.lighter_leave lane here rfl rfl (h.handoff.refl i) rfl rfl rfl
        wire
  | flushed lane flush =>
    exact h.lighter_leave lane rfl rfl rfl (h.handoff.refl i) rfl rfl rfl
      rfl
  | unflushed lane flush =>
    exact h.lighter_leave lane rfl rfl rfl (h.handoff.refl i) rfl rfl rfl
      rfl

/-! ## Calls -/

theorem wire_of_keeps (h : Keeps w w') (i : Nat) : w'.wire i = w.wire i := by
  have hlen : w'.lanes.length = w.lanes.length := by
    rw [← length_phases, h.phases, length_phases]
  cases hl : w'.lanes[i]? with
  | some lane' =>
    obtain ⟨c, hold, hw⟩ := h.lanes i lane' hl
    rw [wire_eq_of_lane hl, wire_eq_of_lane hold]
    exact hw
  | none =>
    have hold : w.lanes[i]? = none := by
      rw [List.getElem?_eq_none_iff] at hl ⊢
      omega
    simp [wire, hl, hold]

/-- The call has moved, and every worker has as much to do as before. -/
theorem lighter_of_same (size : w'.connections = w.connections)
    (efforts : ∀ j, w'.effortAt j = w.effortAt j)
    (wires : ∀ j, w'.wire j = w.wire j)
    (cost : w'.callEffort < w.callEffort) : Lighter w w' := by
  have hwritten : w'.written = w.written := by
    simp only [written, size, wires]
  refine ⟨?_, Nat.le_of_eq hwritten.symm⟩
  rw [hwritten]
  simp only [weight, size, funext efforts]
  omega

theorem lighter_of_call (keeps : Keeps w w')
    (slots : ∀ j, slotEffort (w'.handoff.slot j) =
      slotEffort (w.handoff.slot j))
    (cost : w'.callEffort < w.callEffort) : Lighter w w' := by
  refine lighter_of_same ?_ ?_ (wire_of_keeps keeps) cost
  · rw [connections, ← length_phases, keeps.phases, length_phases,
      connections]
  · intro j
    simp only [effortAt, keeps.phases, slots j]

theorem Job.effort_pos (n : Nat) (job : Job) : 0 < job.effort n := by
  cases job with
  | copy source count ended last =>
    cases ended <;> simp only [Job.effort, Bool.false_eq_true, if_false,
      if_true] <;> omega
  | _ => simp [Job.effort]

theorem ownerEffort_le (n : Nat) (owner : Barrier.Owner) :
    ownerEffort n owner ≤ n + 1 := by
  cases owner <;> simp only [ownerEffort] <;> omega

/-- A writer that begins to close has less to do than a call that is to
finish it. -/
theorem callEffort_stopping {started copied copied' : Option Error}
    (hc : w.call = some (.stopping started copied)) :
    w.callEffort < (Job.finish copied').effort w.connections := by
  have hle := ownerEffort_le w.connections w.barrier.owner
  simp only [callEffort, hc, Job.effort]
  omega

theorem callEffort_over (h : w.call = none) : w.callEffort = 0 := by
  simp [callEffort, h]

/-- What the owner's side leaves alone when only its call changes. -/
structure Idles (w w' : Writer) : Prop where
  config : w'.config = w.config
  lanes : w'.lanes = w.lanes
  handoff : w'.handoff = w.handoff

theorem idles_reject (e : Error) (job : Job) (w : Writer) :
    Idles w (w.reject e job) := by
  generalize hr : w.reject e job = w'
  cases reject_cases hr <;> exact ⟨rfl, rfl, rfl⟩

theorem idles_proceeds {job : Job} (hp : Proceeds w job w') :
    Idles w w' := by
  cases hp with
  | broken fill => exact idles_reject _ _ w
  | _ => exact ⟨rfl, rfl, rfl⟩

/-- A call that cannot go on does not go back. -/
theorem reject_effort (e : Error) (job : Job) (w : Writer) :
    (w.reject e job).callEffort < job.effort w.connections := by
  have hover (a : Answer) :
      (w.conclude a).callEffort < job.effort w.connections := by
    rw [callEffort_over rfl]
    exact job.effort_pos _
  generalize hr : w.reject e job = w'
  cases reject_cases hr with
  | @turn source count ended =>
    show 2 * Header.size + 5 + (Job.finish (some e)).effort w.connections < _
    simp only [Job.effort, if_true]
    split <;> omega
  | close stage => exact callEffort_stopping rfl
  | fails e' => exact hover _

/-- A source has yielded what is cut off, and has no more than the rest
left. -/
theorem unread_fill {max : Nat} {source rest : List Inlet.Item}
    {bytes : Bytes} {failed : Option IoError}
    (h : fill max source = (bytes, rest, failed)) :
    bytes.length + (Inlet.script rest).unread =
      (Inlet.script source).unread := by
  simp only [Inlet.unread, content_fill h, List.length_append]

/-- **A call that goes on with its job** comes nearer to its end. -/
theorem proceeds_effort {job : Job} (hm : 0 < w.config.maxSegmentLen)
    (hp : Proceeds w job w') :
    w'.callEffort < job.effort w.connections := by
  have hover {a : Answer} : (w.conclude a).callEffort = 0 :=
    callEffort_over rfl
  have hoffer (bytes : Bytes) (job : Job) :
      (w.setCall (.offering (w.nextSegment bytes) job)).callEffort ≤
        2 * (Header.size + bytes.length) + 4 + job.effort w.connections := by
    have hle := length_encode_le (w.nextSegment bytes)
    simp only [nextSegment, length_data] at hle
    simp only [callEffort, setCall, connections, nextSegment]
    omega
  have htake {bytes : Bytes} (hne : bytes ≠ []) :
      0 < (bytes.take w.config.maxSegmentLen).length :=
    List.length_pos_iff.2 fun ht => hne (take_eq_nil hm ht)
  have hsize : Header.size = 17 := rfl
  cases hp with
  | nothing => rw [hover]; exact Job.effort_pos _ _
  | wrote => rw [hover]; exact Job.effort_pos _ _
  | sent => rw [hover]; exact Job.effort_pos _ _
  | copied => rw [hover]; exact Job.effort_pos _ _
  | @piece bytes pos =>
    refine Nat.lt_of_le_of_lt (hoffer _ _) ?_
    have hpos := htake pos
    simp only [Job.effort, List.length_take] at hpos ⊢
    omega
  | @chunk bytes pos =>
    refine Nat.lt_of_le_of_lt (hoffer _ _) ?_
    have hpos := htake pos
    simp only [Job.effort, List.length_take, List.length_drop] at hpos ⊢
    omega
  | @broken source rest bytes cause count last fill =>
    have hlt := reject_effort (.source cause) (.copy rest count false last) w
    refine Nat.lt_of_lt_of_le hlt ?_
    have hle := unread_fill fill
    simp only [Job.effort]
    omega
  | @drained source rest count last fill =>
    have hle := unread_fill fill
    simp only [callEffort, setCall, connections, Job.effort, if_true,
      List.length_nil] at hle ⊢
    simp only [Bool.false_eq_true, if_false]
    omega
  | @cut source rest bytes count last pos fill =>
    have hle := unread_fill fill
    have hpos := List.length_pos_iff.2 pos
    refine Nat.lt_of_le_of_lt (hoffer _ _) ?_
    have htwo (b : Bool) : (if b then 1 else 2) ≤ 2 := by
      cases b <;> simp
    have := htwo (bytes.length < w.config.maxSegmentLen)
    simp only [Job.effort, Bool.false_eq_true, if_false]
    omega
  | turn =>
    simp only [callEffort, setCall, connections, Job.effort, if_true]
    omega
  | close => exact callEffort_stopping rfl

/-- A segment is handed over: the call hands its effort to the worker. -/
theorem Inv.lighter_hand (h : Inv n loose rows done fed w) {s : Segment}
    {job : Job} (hc : w.call = some (.offering s job)) {i : Nat}
    {h' : Handoff} (hsend : w.handoff.send s = (.sent i, h')) :
    Lighter w ({ w with
      handoff := h', cursor := w.cursor + s.length }.setCall
        (.working job)) := by
  have hands := hands_spec s h.handoff
  rw [hsend] at hands
  cases hands with
  | refused fails _ _ _ _ _ => exact absurd rfl (fails i)
  | sent slot touches slot' present queue =>
  have hi : i < w.connections := by
    rw [connections, h.size]
    exact h.handoff.lt (by simp [slot])
  generalize hw : { w with
    handoff := h', cursor := w.cursor + s.length }.setCall
      (.working job) = w'
  have hlanes : w'.lanes = w.lanes := by rw [← hw]; rfl
  have hhandoff : w'.handoff = h' := by rw [← hw]; rfl
  have hcall : w'.callEffort = job.effort w.connections := by
    rw [← hw]
    rfl
  have hold : w.callEffort =
      2 * s.encode.length + 4 + job.effort w.connections := by
    simp only [callEffort, hc]
  have heffort := total_range_update (f := w.effortAt) (g := w'.effortAt)
    hi fun j hj => by
      have hs : h'.slot j = w.handoff.slot j := touches.slot j hj
      simp only [effortAt, phases, hlanes, hhandoff, hs]
  have hs : h'.slot i = .filled s := slot'
  have hmore : w'.effortAt i = w.effortAt i + (2 * s.encode.length + 3) := by
    simp only [effortAt, phases, hlanes, hhandoff, hs, slot, slotEffort,
      Nat.add_zero]
  have hwritten : w'.written = w.written := by
    simp only [Writer.written, connections, wire, hlanes]
  have hsize : w'.connections = w.connections := by
    rw [connections, hlanes, connections]
  constructor
  · simp only [weight, hwritten, hcall, hold, hsize]
    omega
  · exact Nat.le_of_eq hwritten.symm

/-- The workers start, and have as much to do as before. -/
theorem Inv.lighter_start (h : Inv n loose rows done fed w) {job : Job}
    (hc : w.call = some (.opening job)) (hs : w.stage = .fresh) :
    Lighter w (w.start.setCall
      (.offering (.control (.ofNat w.connections)) job)) := by
  have hun := (h.fresh hs).2
  have hsize : w.start.connections = w.connections := by
    simp [connections, Writer.start]
  refine lighter_of_same hsize ?_ ?_ ?_
  · intro j
    show w.start.effortAt j = w.effortAt j
    have hslot : w.start.handoff = w.handoff := rfl
    simp only [effortAt, phases, Writer.start, List.map_map,
      List.getElem?_map]
    cases hl : w.lanes[j]? with
    | none => rfl
    | some lane =>
      have hp := hun lane.phase (List.mem_of_getElem? (phases_eq_some hl))
      show Phase.effort .idle + _ = lane.phase.effort + _
      rw [hp]
      rfl
  · intro j
    show w.start.wire j = w.wire j
    simp only [wire, Writer.start, List.getElem?_map]
    cases w.lanes[j]? <;> rfl
  · have henc : (control (.ofNat w.connections)).encode.length =
        Header.size := by simp
    have hnew : callEffort (w.start.setCall
        (.offering (.control (.ofNat w.connections)) job)) =
          2 * (control (.ofNat w.connections)).encode.length + 4 +
            job.effort w.start.connections := rfl
    rw [hnew, henc, hsize]
    simp only [callEffort, hc]
    omega

/-- A call cannot go on with its job. -/
theorem lighter_reject {v : Writer} (e : Error) {job : Job}
    (lanes : v.lanes = w.lanes)
    (slots : ∀ j, v.handoff.slot j = w.handoff.slot j)
    (cost : job.effort w.connections ≤ w.callEffort) :
    Lighter w (v.reject e job) := by
  have hidle := idles_reject e job v
  have hlt := reject_effort e job v
  refine lighter_of_call (.of_eq (hidle.lanes.trans lanes)) ?_ ?_
  · intro j
    rw [hidle.handoff, slots]
  · rw [connections, lanes] at hlt
    exact Nat.lt_of_lt_of_le hlt cost

/-- A connection is shut down. -/
theorem lighter_shut {next k : Nat} {started copied : Option Error}
    (hc : w.call = some (.shutting next k started copied))
    (hlt : next < w.connections) :
    Lighter w ((w.shutLane next).setCall
      (.shutting (next + 1) k started copied)) := by
  obtain ⟨keeps, _, ⟨_, hhandoff, _⟩, _⟩ := shutLane_spec w next
  refine lighter_of_call ⟨keeps.lanes, keeps.phases⟩ ?_ ?_
  · intro j
    simp only [setCall, hhandoff]
  · have hsize : (w.shutLane next).connections = w.connections := by
      rw [connections, ← length_phases, keeps.phases, length_phases,
        connections]
    have hnew : ((w.shutLane next).setCall (.shutting (next + 1) k
        started copied)).callEffort =
          (w.shutLane next).connections - (next + 1) + 1 := rfl
    rw [hnew, hsize]
    simp only [callEffort, hc]
    omega

/-- **Every move of the call** takes effort. -/
theorem Inv.lighter_advance (h : Inv n loose rows done fed w)
    (ha : w.advance = some w') : Lighter w w' := by
  have hopening {job : Job} (hc : w.call = some (.opening job)) :
      w.callEffort = 2 * Header.size + 5 + job.effort w.connections := by
    simp only [callEffort, hc]
  have hoffering {s : Segment} {job : Job}
      (hc : w.call = some (.offering s job)) : w.callEffort =
        2 * s.encode.length + 4 + job.effort w.connections := by
    simp only [callEffort, hc]
  have hstopping {started copied : Option Error}
      (hc : w.call = some (.stopping started copied)) : w.callEffort =
        n + 2 + ownerEffort n w.barrier.owner := by
    simp only [callEffort, hc, connections, h.size]
  have hslot (j : Nat) : slotEffort (w.handoff.slot j) =
      slotEffort (w.handoff.slot j) := rfl
  cases advance_cases h.maxLen ha with
  | start call stage => exact h.lighter_start call stage
  | @resume job call stage =>
    refine lighter_of_call (.of_eq rfl) hslot ?_
    show job.effort w.connections < _
    rw [hopening call]
    omega
  | late call stage =>
    refine lighter_reject _ rfl (fun _ => rfl) ?_
    rw [hopening call]
    omega
  | abort call stopped =>
    refine lighter_reject _ rfl (fun _ => rfl) ?_
    rw [hoffering call]
    omega
  | hand call going send => exact h.lighter_hand call send
  | @alone s job r h' call going send fails waits =>
    have hands := hands_spec s h.handoff
    rw [send] at hands
    cases hands with
    | sent _ _ _ _ _ => exact absurd rfl (fails _)
    | pending _ => exact absurd rfl waits
    | refused _ _ same sane seats _ =>
      refine lighter_reject (v := { w with handoff := h' }) _ rfl
        (fun j => (seats j).2) ?_
      rw [hoffering call]
      omega
  | @proceed job w' call proceeds =>
    have hidle := idles_proceeds proceeds
    have hlt := proceeds_effort h.maxLen proceeds
    refine lighter_of_call (.of_eq hidle.lanes) ?_ ?_
    · intro j
      rw [hidle.handoff]
    · simpa only [callEffort, call] using hlt
  | announce call owner =>
    refine lighter_of_call (.of_eq rfl) hslot ?_
    have howner : w.barrier.announce.owner = .waiting 0 := rfl
    rw [hstopping call, owner]
    simp only [callEffort, call, connections, h.size, howner, ownerEffort]
    omega
  | @tally started copied b' call owner count =>
    obtain ⟨k, hk, hspec, _⟩ := h.count call owner count
    have hsize := h.barrier.size
    cases hspec with
    | more taken lt =>
      rw [workers, hsize] at lt
      refine lighter_of_call (.of_eq rfl) hslot ?_
      rw [hstopping call, hk]
      simp only [callEffort, call, connections, h.size, ownerEffort]
      omega
  | @settle started copied acknowledged b' call owner count =>
    refine lighter_of_call (.of_eq rfl) hslot ?_
    rw [hstopping call]
    simp only [callEffort, setCall, connections, h.size]
    omega
  | shut call lt => exact lighter_shut call lt
  | conclude call le =>
    refine lighter_of_call (.of_eq rfl) hslot ?_
    rw [callEffort_over (w := Writer.conclude _ w) rfl]
    simp only [callEffort, call]
    omega

/-- Room is not work. -/
theorem weight_grantRoom (w : Writer) (i : Nat) (m : Option Nat) :
    (w.grantRoom i m).weight = w.weight := by
  have hphases := (keeps_grantRoom w i m).phases
  have hsize : (w.grantRoom i m).connections = w.connections := by
    simp [connections, grantRoom]
  have heffort : (w.grantRoom i m).effortAt = w.effortAt := by
    funext j
    simp only [effortAt, hphases]
    rfl
  have hcall : (w.grantRoom i m).callEffort = w.callEffort :=
    callEffort_congr rfl hsize rfl
  simp only [weight, hsize, heffort, hcall]

/-- **Every move of a writer** takes effort, and more than it puts bytes on
a wire. -/
theorem Inv.lighter (h : Inv n loose rows done fed w) {e : Event}
    (he : e.isMove = true) (hs : w.step e = some w') : Lighter w w' := by
  cases e with
  | work i => exact h.lighter_work hs
  | advance => exact h.lighter_advance hs
  | _ => cases he

end Weight

/-! ## Turns -/

/-- A writer that was made for `n` connections, after some run. -/
def Ruled (n : Nat) (w : Writer) : Prop :=
  ∃ loose rows done fed, Inv n loose rows done fed w

section Turns

variable {n : Nat} {w w' : Writer}

theorem ruled_make {outlets : List Outlet} {config : Config}
    (h : make outlets config = .ok w)
    (hblank : ∀ c ∈ outlets, c.log = #[]) : Ruled outlets.length w :=
  ⟨_, _, _, _, inv_make h hblank⟩

theorem Ruled.step (h : Ruled n w) {e : Event} (hs : w.step e = some w') :
    Ruled n w' := by
  obtain ⟨loose, rows, done, fed, hinv⟩ := h
  obtain ⟨rows', done', _, hinv'⟩ := hinv.step hs
  exact ⟨_, rows', done', _, hinv'⟩

/-- **The turns of a writer** are moves, and end when it is quiet: each
move takes effort. -/
theorem crew_drives : crew.Drives Writer.step Event.isMove (Ruled n) where
  event := by
    intro w m w' hm
    cases m with
    | work i => exact ⟨.work i, rfl, hm⟩
    | call => exact ⟨.advance, rfl, hm⟩
  keeps := fun hw hs => hw.step hs
  lowers := by
    rintro w e w' ⟨loose, rows, done, fed, hinv⟩ hmove hs
    obtain ⟨hlt, hle⟩ := hinv.lighter hmove hs
    show w'.weight < w.weight
    omega
  known := by
    intro w i w' _ hw
    show i < w.lanes.length
    cases hl : w.lanes[i]? with
    | some lane => exact (List.getElem?_eq_some_iff.1 hl).1
    | none =>
      have hnone : w.work i = none := by simp [work, hl]
      cases hnone.symm.trans hw

end Turns

end Stripe.Writer
