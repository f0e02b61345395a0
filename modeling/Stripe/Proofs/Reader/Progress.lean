import Stripe.Reader.Crew
import Stripe.Proofs.Reader.Log
import Stripe.Proofs.Schedule

/-!
# A reader comes to rest

The workers and the call make a limited number of moves before something
else has to happen. Each move makes `weight` smaller (`Inv.weight_lt`): it
takes bytes from a connection, or from the queue, or brings a worker or the
call nearer to its end.

When nothing can move any more, no call waits for connections that have
all ended (`Inv.over_of_ended`).

So the turns of the workers and the call come to an end
(`crew_drives`).
-/

namespace Stripe.Reader

open Segment Transmission

/-- Nothing moves by itself any more. -/
def Quiet (r : Reader) : Prop :=
  (∀ i, r.work i = none) ∧ r.advance = none

/-- A move of a worker or of the call. -/
def Event.isMove : Event → Bool
  | .work _ | .advance => true
  | _ => false

/-! ## The weight of a state -/

/-- One lane has moved. -/
theorem weight_lanes {r : Reader} {i : Nat} {lane : Lane}
    (h : r.lanes[i]? = some lane) (lane' : Lane) :
    total Lane.weight (r.lanes.set i lane') + lane.weight =
      total Lane.weight r.lanes + lane'.weight :=
  total_set h lane'

/-- A call that is woken, or learns that the reader was stopped, has a
little more to do. -/
theorem callWeight_le {r r' : Reader} (hc : r'.call = r.call) :
    r'.callWeight ≤ r.callWeight + 5 := by
  unfold callWeight
  rw [hc]
  cases r.call with
  | none => simp
  | some call =>
    obtain ⟨task, stage⟩ := call
    cases stage <;> cases r.cancelled <;> cases r'.cancelled <;>
      cases r.wakeup <;> cases r'.wakeup <;> simp [Stage.weight]

theorem callWeight_over {r : Reader} (h : r.call = none) :
    r.callWeight = 0 := by
  simp [callWeight, h]

theorem callWeight_pos {r : Reader} {call : Call} (h : r.call = some call) :
    0 < r.callWeight := by
  obtain ⟨task, stage⟩ := call
  simp only [callWeight, h]
  omega

section Weight

variable {n maxPayload : Nat} {input : Nat → Inlet}
  {rows : Nat → List Segment} {out : Bytes} {r r' : Reader}

/-- A worker that moves comes nearer to its end than it sets the queue and
the call back. -/
theorem weight_lt_of_lane {i : Nat} {lane lane' : Lane} (added : Nat)
    (hl : r.lanes[i]? = some lane)
    (hlanes : r'.lanes = r.lanes.set i lane')
    (hload : r'.transmission.load ≤ r.transmission.load + added)
    (hcall : r'.call = r.call)
    (hlt : lane'.weight + 6 * added + 5 < lane.weight) :
    r'.weight < r.weight := by
  have hsum := weight_lanes hl lane'
  have hle := callWeight_le hcall
  simp only [weight, hlanes]
  omega

/-- **A move of a worker makes the weight smaller.** -/
theorem Inv.weight_lt_work (h : Inv n maxPayload input rows out r) {i : Nat}
    (hw : r.work i = some r') : r'.weight < r.weight := by
  obtain ⟨mode, hmode, hcase⟩ := work_cases hw
  cases hcase with
  | stop lane stopped =>
    refine weight_lt_of_lane 0 lane rfl (Nat.le_refl _) rfl ?_
    simp only [Lane.weight]
    omega
  | more lane going advance =>
    refine weight_lt_of_lane 0 lane rfl (Nat.le_refl _) rfl ?_
    cases h.advances lane advance with
    | @took bs p c' pos makes tape ended weight =>
      have hpos := List.length_pos_iff.2 pos
      cases makes with
      | more valid held =>
        simp only [Lane.weight, held, List.length_append]
        omega
  | broken lane going advance =>
    refine weight_lt_of_lane 0 lane rfl (Nat.le_refl _) rfl ?_
    cases h.advances lane advance with
    | took pos makes tape ended weight =>
      simp only [Lane.weight]
      omega
    | fault tape ended weight =>
      simp only [Lane.weight]
      omega
    | cut tape ended tape' ended' weight =>
      simp only [Lane.weight]
      omega
  | @refused c c' d s e lane going advance result =>
    cases h.advances lane advance with
    | took pos makes tape ended weight =>
    cases makes with
    | done wf le held =>
      have hacc : Intake.Accepts r.connections i mode s r.intake _ _ :=
        Intake.accept_spec (isEmpty_of_control wf)
      rw [result] at hacc
      have hload : (r.intake.accept r.connections i mode s).2.transmission.load
          = r.transmission.load := by
        cases hacc with
        | refused kept => rw [kept]; rfl
        | mismatch ne free noted => rw [noted]; rfl
      refine weight_lt_of_lane 0 lane rfl (Nat.le_of_eq hload) rfl ?_
      simp only [Lane.weight]
      omega
  | @filed c c' d s more lane going advance result =>
    cases h.advances lane advance with
    | @took bs p c' pos makes tape ended weight =>
    have hpos := List.length_pos_iff.2 pos
    cases makes with
    | done wf le held =>
      have hacc : Intake.Accepts r.connections i mode s r.intake _ _ :=
        Intake.accept_spec (isEmpty_of_control wf)
      rw [result] at hacc
      -- the payload has been on the wire
      have hlen := congrArg List.length held
      rw [encode_eq wf, List.length_append, List.length_append] at hlen
      cases hacc with
      | filed files =>
        refine weight_lt_of_lane _ lane rfl files.load rfl ?_
        have hle : Lane.weight ⟨c', if !s.isTerminal then .reading .start
            else .leaving⟩ ≤ 12 * c'.weight + 18 := by
          cases s.isTerminal <;> simp [Lane.weight]
        simp only [Lane.weight, Segment.length] at hle ⊢
        omega
  | record lane =>
    refine weight_lt_of_lane 0 lane rfl (Nat.le_refl _) rfl ?_
    simp only [Lane.weight]
    omega
  | leave lane =>
    refine weight_lt_of_lane 0 lane rfl (Nat.le_refl _) rfl ?_
    simp only [Lane.weight]
    omega

/-- The call is over, and the queue is no longer than it was. -/
theorem weight_lt_of_over {call : Call} (hlanes : r'.lanes = r.lanes)
    (hload : r'.transmission.load ≤ r.transmission.load)
    (hc : r.call = some call) (hc' : r'.call = none) :
    r'.weight < r.weight := by
  have hpos := callWeight_pos hc
  have hnone := callWeight_over hc'
  simp only [weight, hlanes]
  omega

/-- The call has come to a stage that is nearer to its end. -/
theorem weight_lt_of_stage {task task' : Task} {stage stage' : Stage}
    (hlanes : r'.lanes = r.lanes)
    (hload : r'.transmission.load ≤ r.transmission.load)
    (hc : r.call = some ⟨task, stage⟩)
    (hc' : r'.call = some ⟨task', stage'⟩)
    (hcost : stage'.weight r'.cancelled + (if r'.wakeup then 3 else 0) <
      stage.weight r.cancelled + if r.wakeup then 3 else 0) :
    r'.weight < r.weight := by
  simp only [weight, callWeight, hlanes, hc, hc']
  omega

/-- The call goes back to looking, but some bytes have left the queue. -/
theorem weight_lt_of_taken {task task' : Task} {live : Nat}
    (hlanes : r'.lanes = r.lanes)
    (hload : r'.transmission.load < r.transmission.load)
    (hc : r.call = some ⟨task, .taking live⟩)
    (hc' : r'.call = some ⟨task', .looking⟩)
    (hs : r'.cancelled = r.cancelled) (hw : r'.wakeup = r.wakeup) :
    r'.weight < r.weight := by
  have hcost : r'.callWeight ≤ r.callWeight + 1 := by
    simp only [callWeight, hc, hc', hs, hw]
    cases r.cancelled <;> simp [Stage.weight] <;> omega
  simp only [weight, hlanes]
  omega

/-- A look into the stream makes the queue no longer, and shorter if it
brings bytes. -/
theorem Inv.load_next (h : Inv n maxPayload input rows out r)
    {extent : Extent} {stage : Stage}
    {result : Except Error Delivery} {t : Transmission}
    (hc : r.call = some ⟨.stream extent, stage⟩)
    (hn : r.transmission.nextDelivery extent.max = (result, t)) :
    t.load ≤ r.transmission.load ∧
      ∀ bs, result = .ok (.ready bs) → t.load < r.transmission.load := by
  have hd := delivers_nextDelivery extent.max r.transmission
  rw [hn] at hd
  have hmax : 0 < extent.max := by
    cases extent with
    | upTo max => exact h.calling.max_pos max _ hc
    | toEnd out' count => show 0 < maxCount; decide
    | remainder out' => show 0 < maxCount; decide
  have hload : t.load + (Transmission.handed result).length ≤
    r.transmission.load := hd.load
  refine ⟨by omega, fun bs hready => ?_⟩
  have hbs := List.length_pos_iff.2 (hd.pos h.queued hmax bs hready)
  rw [hready] at hload
  simp only [Transmission.handed] at hload
  omega

/-- **A move of the call makes the weight smaller.** -/
theorem Inv.weight_lt_advance (h : Inv n maxPayload input rows out r)
    (ha : r.advance = some r') : r'.weight < r.weight := by
  have hlanes := (kept_of_advance ha).1
  cases advance_cases ha with
  | stop call stopped =>
    exact weight_lt_of_over hlanes (Nat.le_refl _) call rfl
  | look call going =>
    refine weight_lt_of_stage hlanes (Nat.le_refl _) call rfl ?_
    simp [setStage, going, Stage.weight]
  | message call completed =>
    rcases takeMessage_cases r with ⟨e, _, he⟩ | ⟨m, _, he⟩
    · rw [he] at hlanes ⊢
      exact weight_lt_of_over hlanes (Nat.zero_le _) call rfl
    · rw [he] at hlanes ⊢
      exact weight_lt_of_over hlanes (Nat.zero_le _) call rfl
  | hole call completed nobody =>
    exact weight_lt_of_over hlanes (Nat.le_refl _) call rfl
  | collecting call completed somebody =>
    refine weight_lt_of_stage hlanes (Nat.le_refl _) call rfl ?_
    cases hc : r.cancelled <;> simp [setStage, hc, Stage.weight]
  | broken call next =>
    exact weight_lt_of_over hlanes (h.load_next call next).1 call rfl
  | @ready extent live bs t call next =>
    have hless := (h.load_next call next).2 bs rfl
    cases extent with
    | upTo max =>
      exact weight_lt_of_over hlanes (Nat.le_of_lt hless) call rfl
    | toEnd out' count =>
      exact weight_lt_of_taken hlanes hless call rfl rfl rfl
    | remainder out' =>
      exact weight_lt_of_taken hlanes hless call rfl rfl rfl
  | @finished extent live t call next =>
    have hload := (h.load_next call next).1
    cases extent with
    | upTo max => exact weight_lt_of_over hlanes hload call rfl
    | toEnd out' count => exact weight_lt_of_over hlanes hload call rfl
    | remainder out' => exact weight_lt_of_over hlanes hload call rfl
  | gap call next nobody =>
    exact weight_lt_of_over hlanes (h.load_next call next).1 call rfl
  | pending call next somebody =>
    refine weight_lt_of_stage hlanes (h.load_next call next).1 call rfl ?_
    cases hc : r.cancelled <;> simp [setStage, keep, hc, Stage.weight]
  | wake call woken =>
    refine weight_lt_of_stage hlanes (Nat.le_refl _) call rfl ?_
    cases r.cancelled <;> simp [setStage, woken, Stage.weight]
  | stir call stopped =>
    refine weight_lt_of_stage hlanes (Nat.le_refl _) call rfl ?_
    simp [setStage, stopped, Stage.weight]

theorem Inv.weight_lt (h : Inv n maxPayload input rows out r) {e : Event}
    (he : e.isMove = true) (hs : r.step e = some r') :
    r'.weight < r.weight := by
  cases e with
  | work i => exact h.weight_lt_work hs
  | advance => exact h.weight_lt_advance hs
  | _ => cases he

/-! ## At rest -/

/-- A worker at rest has let its connection go, or waits for it. -/
theorem Inv.resting (h : Inv n maxPayload input rows out r) (hq : r.Quiet)
    (hm : r.mode ≠ none) {i : Nat} {c : Inlet} {phase : Phase}
    (hl : r.lanes[i]? = some ⟨c, phase⟩) :
    phase = .gone ∨ r.cancelled = false ∧ (∃ d, phase = .reading d) ∧
      c.tape = [] ∧ c.ended = false := by
  obtain ⟨mode, hmode⟩ := Option.ne_none_iff_exists'.1 hm
  refine (work_eq_none_iff hmode hl fun d hd => ?_).1 (hq.1 i)
  subst hd
  rw [h.limit]
  exact (h.lanes i _ hl).of_reading.1

/-- No call waits when all workers have left. -/
theorem Inv.over_of_gone (h : Inv n maxPayload input rows out r)
    (hq : r.Quiet) (hgone : ∀ phase ∈ r.phases, phase = .gone) :
    r.call = none := by
  rcases advance_eq_none_iff.1 hq.2 with hc | ⟨task, hc, hw, hgo⟩
  · exact hc
  · have hlive := h.calling.waiting hgo task hc hw
    have hzero : r.phases.countP (· != .gone) = 0 := by
      rw [List.countP_eq_zero]
      intro phase hp
      simp [hgone phase hp]
    rw [h.live hgo (h.started hc), hzero] at hlive
    cases hlive

/-- **No call waits for connections that have all ended.** -/
theorem Inv.over_of_ended (h : Inv n maxPayload input rows out r)
    (hq : r.Quiet) (hend : ∀ i < n, (input i).ended = true) :
    r.call = none := by
  cases hc : r.call with
  | none => rfl
  | some call =>
    rw [← hc]
    refine h.over_of_gone hq fun phase hp => ?_
    obtain ⟨⟨c, phase⟩, hl, rfl⟩ := List.mem_map.1 hp
    obtain ⟨i, hi⟩ := List.getElem?_of_mem hl
    rcases h.resting hq (h.started hc) hi with hgone | ⟨_, ⟨d, rfl⟩, _, hmore⟩
    · exact hgone
    · obtain ⟨_, _, _, ended⟩ := (h.lanes i _ hi).of_reading
      rw [hend i (h.lt hi), hmore] at ended
      cases ended

end Weight

/-! ## Turns -/

/-- A reader that was made for `n` connections, after some run. -/
def Ruled (n : Nat) (r : Reader) : Prop :=
  ∃ maxPayload input rows out, Inv n maxPayload input rows out r

section Turns

variable {n : Nat} {r r' : Reader}

theorem ruled_make {config : Config} (h : make n config = .ok r) :
    Ruled n r :=
  ⟨_, _, _, _, inv_make h⟩

theorem Ruled.step (h : Ruled n r) {e : Event} (hs : r.step e = some r') :
    Ruled n r' := by
  obtain ⟨maxPayload, input, rows, out, hinv⟩ := h
  obtain ⟨rows', _, hinv'⟩ := hinv.step hs
  exact ⟨maxPayload, _, rows', _, hinv'⟩

/-- **The turns of a reader** are moves, and end when it is quiet: each
move lowers the weight. -/
theorem crew_drives : crew.Drives Reader.step Event.isMove (Ruled n) where
  event := by
    intro r m r' hm
    cases m with
    | work i => exact ⟨.work i, rfl, hm⟩
    | call => exact ⟨.advance, rfl, hm⟩
  keeps := fun hr hs => hr.step hs
  lowers := by
    rintro r e r' ⟨maxPayload, input, rows, out, hinv⟩ hmove hs
    exact hinv.weight_lt hmove hs
  known := by
    intro r i r' _ hw
    show i < r.lanes.length
    cases hl : r.lanes[i]? with
    | some lane => exact (List.getElem?_eq_some_iff.1 hl).1
    | none =>
      have hnone : r.work i = none := by simp [work, hl]
      cases hnone.symm.trans hw

theorem Ruled.quiet_finishTurns (h : Ruled n r) :
    (crew.finishTurns r).Quiet := by
  obtain ⟨_, _, hstop⟩ := crew_drives.finished h
  exact ⟨fun i => hstop (.work i), hstop .call⟩

end Turns

end Stripe.Reader
