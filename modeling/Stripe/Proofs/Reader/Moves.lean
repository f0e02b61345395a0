import Stripe.Reader
import Stripe.Proofs.Wire
import Stripe.Proofs.Delivery

/-!
# The moves of a reader

What one move of a worker, one move of a call and any event can do, listed
once (`work_cases`, `advance_cases`, `step_cases`), so that nothing later
has to open their definitions. Beside that, what the events of a run bring
to each connection (`arrived`) and what an event hands out (`handed`).
-/

namespace Stripe.Reader

/-- What the workers are about to do. -/
def phases (r : Reader) : List Phase := r.lanes.map (·.phase)

@[simp] theorem length_phases (r : Reader) :
    r.phases.length = r.lanes.length := by
  simp [phases]

@[simp] theorem lanes_setLane (i : Nat) (lane : Lane) (r : Reader) :
    (r.setLane i lane).lanes = r.lanes.set i lane := rfl

@[simp] theorem phases_setLane (i : Nat) (lane : Lane) (r : Reader) :
    (r.setLane i lane).phases = r.phases.set i lane.phase := by
  simp [phases, List.map_set]

@[simp] theorem phases_arrive (i : Nat) (f : Inlet → Inlet) (r : Reader) :
    (r.arrive i f).phases = r.phases := by
  apply List.ext_getElem (by simp [phases, arrive])
  intro j _ _
  simp only [phases, arrive, List.getElem_map, List.getElem_modify]
  split <;> rfl

theorem phases_start (mode : Mode) (r : Reader) :
    (r.start mode).phases = r.phases ∧
      (r.start mode).failure = r.failure ∧
      (r.start mode).answer = r.answer := by
  unfold start
  split <;> exact ⟨rfl, rfl, rfl⟩

theorem phases_eq_some {r : Reader} {i : Nat} {lane : Lane}
    (h : r.lanes[i]? = some lane) : r.phases[i]? = some lane.phase := by
  simp [phases, h]

/-- Nothing has failed so far, whether it was recorded or not. -/
def Unharmed (r : Reader) : Prop :=
  r.failure = none ∧ ∀ e, Phase.failing e ∉ r.phases

/-! ## Workers -/

/-- What a move of worker `i` can do, in a reader that goes `mode`. -/
inductive Worked (i : Nat) (mode : Mode) (r : Reader) : Reader → Prop where
  /-- The reader was stopped. -/
  | stop {c : Inlet} {d : Decoder}
      (lane : r.lanes[i]? = some ⟨c, .reading d⟩)
      (stopped : r.cancelled = true) :
      Worked i mode r (r.setLane i ⟨c, .leaving⟩)
  | more {c c' : Inlet} {d d' : Decoder}
      (lane : r.lanes[i]? = some ⟨c, .reading d⟩)
      (going : r.cancelled = false)
      (advance : d.advance i r.config.maxPayloadLen c =
        some (.more d', c')) :
      Worked i mode r (r.setLane i ⟨c', .reading d'⟩)
  /-- The connection has failed, or does not carry segments. -/
  | broken {c c' : Inlet} {d : Decoder} {e : Error}
      (lane : r.lanes[i]? = some ⟨c, .reading d⟩)
      (going : r.cancelled = false)
      (advance : d.advance i r.config.maxPayloadLen c =
        some (.failed e, c')) :
      Worked i mode r (r.setLane i ⟨c', .failing e⟩)
  | refused {c c' : Inlet} {d : Decoder} {s : Segment} {e : Error}
      (lane : r.lanes[i]? = some ⟨c, .reading d⟩)
      (going : r.cancelled = false)
      (advance : d.advance i r.config.maxPayloadLen c =
        some (.done s, c'))
      (result : (r.intake.accept r.connections i mode s).1 = .error e) :
      Worked i mode r ({ r with
        intake := (r.intake.accept r.connections i mode s).2 }.setLane i
          ⟨c', .failing e⟩)
  | filed {c c' : Inlet} {d : Decoder} {s : Segment} {more : Bool}
      (lane : r.lanes[i]? = some ⟨c, .reading d⟩)
      (going : r.cancelled = false)
      (advance : d.advance i r.config.maxPayloadLen c =
        some (.done s, c'))
      (result : (r.intake.accept r.connections i mode s).1 = .ok more) :
      Worked i mode r ({ r with
        intake := (r.intake.accept r.connections i mode s).2
        wakeup := true }.setLane i
          ⟨c', if more then .reading .start else .leaving⟩)
  | record {c : Inlet} {e : Error}
      (lane : r.lanes[i]? = some ⟨c, .failing e⟩) :
      Worked i mode r ((r.fail e).setLane i ⟨c, .leaving⟩)
  | leave {c : Inlet} (lane : r.lanes[i]? = some ⟨c, .leaving⟩) :
      Worked i mode r ({ r with
        live := r.live - 1, wakeup := true }.setLane i ⟨c, .gone⟩)

theorem work_cases {i : Nat} {r r' : Reader} (h : r.work i = some r') :
    ∃ mode, r.mode = some mode ∧ Worked i mode r r' := by
  unfold work at h
  split at h
  case h_2 => cases h
  rename_i mode c phase hmode hlane
  refine ⟨mode, hmode, ?_⟩
  cases phase with
  | reading d =>
    simp only [readOn] at h
    cases hc : r.cancelled with
    | true =>
      simp only [hc, if_true, Option.some.injEq] at h
      exact h ▸ .stop hlane hc
    | false =>
      simp only [hc, Bool.false_eq_true, if_false] at h
      split at h
      · cases h
      · rename_i d' c' hadv
        cases h
        exact .more hlane hc hadv
      · rename_i e c' hadv
        cases h
        exact .broken hlane hc hadv
      · rename_i s c' hadv
        cases h
        simp only [file]
        split
        · rename_i e b hacc
          have hrefused : Worked i mode r _ :=
            .refused hlane hc hadv (congrArg Prod.fst hacc)
          rwa [hacc] at hrefused
        · rename_i b hacc
          have hfiled : Worked i mode r _ :=
            .filed hlane hc hadv (congrArg Prod.fst hacc)
          rwa [hacc] at hfiled
        · rename_i b hacc
          have hfiled : Worked i mode r _ :=
            .filed hlane hc hadv (congrArg Prod.fst hacc)
          rwa [hacc] at hfiled
  | failing e => cases h; exact .record hlane
  | leaving => cases h; exact .leave hlane
  | gone => cases h

/-- A worker does not touch the mode of the reader. -/
theorem mode_of_work {i : Nat} {r r' : Reader} (h : r.work i = some r') :
    r'.mode = r.mode := by
  obtain ⟨mode, _, hcase⟩ := work_cases h
  cases hcase <;> rfl

/-- When a worker cannot move: its connection is gone, or nothing has
arrived on it. -/
theorem work_eq_none_iff {i : Nat} {mode : Mode} {r : Reader}
    (hmode : r.mode = some mode) {c : Inlet} {phase : Phase}
    (hlane : r.lanes[i]? = some ⟨c, phase⟩)
    (hv : ∀ d, phase = .reading d → d.Valid r.config.maxPayloadLen) :
    r.work i = none ↔ phase = .gone ∨
      r.cancelled = false ∧ (∃ d, phase = .reading d) ∧
        c.tape = [] ∧ c.ended = false := by
  unfold work
  simp only [hmode, hlane]
  cases phase with
  | reading d =>
    have hadv : d.advance i r.config.maxPayloadLen c = none ↔ _ :=
      Decoder.advance_eq_none_iff (hv d rfl)
    simp only [readOn]
    cases hc : r.cancelled with
    | true => simp
    | false =>
      simp only [Bool.false_eq_true, if_false, reduceCtorEq, false_or,
        true_and, Phase.reading.injEq, exists_eq', ← hadv]
      split <;> simp_all
  | failing e => simp
  | leaving => simp
  | gone => simp

/-! ## Calls -/

/-- How payloads are filed for a call. -/
def Task.mode : Task → Mode
  | .stream _ => .stream
  | .collect => .collect

/-- The state of the transfer has changed. -/
def keep (t : Transmission) (r : Reader) : Reader :=
  { r with intake := { r.intake with transmission := t } }

/-- What a move of the call can do. -/
inductive Advanced (r : Reader) : Reader → Prop where
  /-- The reader was stopped. -/
  | stop {task : Task} (call : r.call = some ⟨task, .looking⟩)
      (stopped : r.cancelled = true) : Advanced r (r.giveUp task)
  | look {task : Task} (call : r.call = some ⟨task, .looking⟩)
      (going : r.cancelled = false) :
      Advanced r (r.setStage task (.taking r.live))
  | message {live : Nat} (call : r.call = some ⟨.collect, .taking live⟩)
      (completed : r.completed = true) : Advanced r r.takeMessage
  /-- The message is not complete, and no worker is left. -/
  | hole {live : Nat} (call : r.call = some ⟨.collect, .taking live⟩)
      (completed : r.completed = false) (nobody : live = 0) :
      Advanced r ((r.fail (.gap r.transmission.writtenLen none)).giveUp
        .collect)
  | collecting {live : Nat} (call : r.call = some ⟨.collect, .taking live⟩)
      (completed : r.completed = false) (somebody : live ≠ 0) :
      Advanced r (r.setStage .collect .waiting)
  | broken {extent : Extent} {live : Nat} {e : Error} {t : Transmission}
      (call : r.call = some ⟨.stream extent, .taking live⟩)
      (next : r.transmission.nextDelivery extent.max = (.error e, t)) :
      Advanced r (((r.keep t).fail e).giveUp (.stream extent))
  | ready {extent : Extent} {live : Nat} {bs : Bytes} {t : Transmission}
      (call : r.call = some ⟨.stream extent, .taking live⟩)
      (next : r.transmission.nextDelivery extent.max =
        (.ok (.ready bs), t)) :
      Advanced r ((r.keep t).handOut extent bs)
  | finished {extent : Extent} {live : Nat} {t : Transmission}
      (call : r.call = some ⟨.stream extent, .taking live⟩)
      (next : r.transmission.nextDelivery extent.max = (.ok .finished, t)) :
      Advanced r ((r.keep t).concludeStream extent)
  /-- The next bytes have not arrived, and no worker is left. -/
  | gap {extent : Extent} {live : Nat} {t : Transmission}
      (call : r.call = some ⟨.stream extent, .taking live⟩)
      (next : r.transmission.nextDelivery extent.max = (.ok .pending, t))
      (nobody : live = 0) :
      Advanced r (((r.keep t).fail
        (.gap t.cursor t.queue.min?)).giveUp (.stream extent))
  | pending {extent : Extent} {live : Nat} {t : Transmission}
      (call : r.call = some ⟨.stream extent, .taking live⟩)
      (next : r.transmission.nextDelivery extent.max = (.ok .pending, t))
      (somebody : live ≠ 0) :
      Advanced r ((r.keep t).setStage (.stream extent) .waiting)
  | wake {task : Task} (call : r.call = some ⟨task, .waiting⟩)
      (woken : r.wakeup = true) :
      Advanced r ({ r with wakeup := false }.setStage task .looking)
  /-- The reader was stopped while the call was waiting. -/
  | stir {task : Task} (call : r.call = some ⟨task, .waiting⟩)
      (stopped : r.cancelled = true) :
      Advanced r (r.setStage task .looking)

/-- What taking the message comes to. -/
theorem takeMessage_cases (r : Reader) :
    (∃ e, r.transmission.toMessage = .error e ∧ r.takeMessage =
      { r with
        intake := { r.intake with transmission := .fresh }
        cancelled := true, call := none, answer := some (.failed e) }) ∨
    (∃ m, r.transmission.toMessage = .ok m ∧ r.takeMessage =
      { r with
        intake := { r.intake with transmission := .fresh }
        cancelled := true, call := none, answer := some (.message m)
        delivered := m.length }) := by
  unfold takeMessage
  cases h : r.transmission.toMessage with
  | error e => exact .inl ⟨e, rfl, rfl⟩
  | ok m => exact .inr ⟨m, rfl, rfl⟩

theorem takeCollected_cases {live : Nat} {r : Reader}
    (hcall : r.call = some ⟨.collect, .taking live⟩) :
    Advanced r (r.takeCollected live) := by
  unfold takeCollected
  cases hc : r.completed with
  | true => exact .message hcall hc
  | false =>
    by_cases hl : live = 0
    · rw [if_neg (by simp), if_pos hl]
      exact .hole hcall hc hl
    · rw [if_neg (by simp), if_neg hl]
      exact .collecting hcall hc hl

theorem takeNext_cases {extent : Extent} {live : Nat} {r : Reader}
    (hcall : r.call = some ⟨.stream extent, .taking live⟩) :
    Advanced r (r.takeNext extent live) := by
  unfold takeNext
  rcases hnext : r.transmission.nextDelivery extent.max with ⟨result, t⟩
  match result with
  | .error e => exact .broken hcall hnext
  | .ok (.ready bs) => exact .ready hcall hnext
  | .ok .finished => exact .finished hcall hnext
  | .ok .pending =>
    dsimp only
    by_cases hl : live = 0
    · rw [if_pos hl]
      exact .gap hcall hnext hl
    · rw [if_neg hl]
      exact .pending hcall hnext hl

theorem advance_cases {r r' : Reader} (h : r.advance = some r') :
    Advanced r r' := by
  unfold advance at h
  split at h
  · cases h
  · rename_i task hcall
    split at h
    · rename_i hc
      cases h
      exact .stop hcall hc
    · rename_i hc
      cases h
      exact .look hcall (by simpa using hc)
  · rename_i live hcall
    cases h
    exact takeCollected_cases hcall
  · rename_i extent live hcall
    cases h
    exact takeNext_cases hcall
  · rename_i task hcall
    split at h
    · rename_i hw
      cases h
      exact .wake hcall hw
    · split at h
      · rename_i hc
        cases h
        exact .stir hcall hc
      · cases h

/-- When a call cannot move: there is none, or it waits and nothing has
happened. -/
theorem advance_eq_none_iff {r : Reader} :
    r.advance = none ↔ r.call = none ∨
      ∃ task, r.call = some ⟨task, .waiting⟩ ∧ r.wakeup = false ∧
        r.cancelled = false := by
  unfold advance
  split
  · rename_i hcall
    simp [hcall]
  · rename_i task hcall
    simp only [hcall]
    split <;> simp
  · rename_i live hcall
    simp [hcall]
  · rename_i extent live hcall
    simp [hcall]
  · rename_i task hcall
    simp only [hcall]
    cases r.wakeup <;> cases r.cancelled <;> simp

/-- A call does not touch the connections, and goes on in its mode. -/
theorem kept_of_advance {r r' : Reader} (h : r.advance = some r') :
    r'.lanes = r.lanes ∧ r'.mode = r.mode := by
  cases advance_cases h with
  | stop call stopped => exact ⟨rfl, rfl⟩
  | look call going => exact ⟨rfl, rfl⟩
  | message call completed =>
    rcases takeMessage_cases r with ⟨e, _, he⟩ | ⟨m, _, he⟩
    · rw [he]
      exact ⟨rfl, rfl⟩
    · rw [he]
      exact ⟨rfl, rfl⟩
  | hole call completed nobody => exact ⟨rfl, rfl⟩
  | collecting call completed somebody => exact ⟨rfl, rfl⟩
  | broken call next => exact ⟨rfl, rfl⟩
  | @ready extent live bs t call next => cases extent <;> exact ⟨rfl, rfl⟩
  | @finished extent live t call next => cases extent <;> exact ⟨rfl, rfl⟩
  | gap call next nobody => exact ⟨rfl, rfl⟩
  | pending call next somebody => exact ⟨rfl, rfl⟩
  | wake call woken => exact ⟨rfl, rfl⟩
  | stir call stopped => exact ⟨rfl, rfl⟩

/-- What an event brings to connection `i`. -/
def Event.brings (i : Nat) : Event → Inlet → Inlet
  | .feed j bs, c => if i = j then c.feed bs else c
  | .fault j cause, c => if i = j then c.fail cause else c
  | .close j, c => if i = j then c.finish else c
  | _, c => c

/-! ## All events -/

/-- The call that an event begins. The message is what is left of the
stream if the reader streams. -/
inductive Asks (r : Reader) : Event → Task → Prop where
  | read {max : Nat} (pos : 0 < max) :
      Asks r (.read max) (.stream (.upTo max))
  | readToEnd {out : Bytes} : Asks r (.readToEnd out) (.stream (.toEnd out 0))
  | rest (streams : r.mode = some .stream) :
      Asks r .message (.stream (.remainder []))
  | message (free : r.mode ≠ some .stream) : Asks r .message .collect

/-- The event makes `f` of what has arrived on connection `i`. -/
inductive Event.Arrives : Event → Nat → (Inlet → Inlet) → Prop where
  | feed {i : Nat} {bs : Bytes} : Arrives (.feed i bs) i (·.feed bs)
  | fault {i : Nat} {cause : IoError} :
      Arrives (.fault i cause) i (·.fail cause)
  | close {i : Nat} : Arrives (.close i) i (·.finish)

/-- What an event can do. -/
inductive Stepped (r : Reader) : Event → Reader → Prop where
  | work {i : Nat} {r' : Reader} (work : r.work i = some r') :
      Stepped r (.work i) r'
  | advance {r' : Reader} (advance : r.advance = some r') :
      Stepped r .advance r'
  /-- A call for no bytes is over at once. -/
  | nothing (idle : r.call = none) :
      Stepped r (.read 0) (r.conclude (.bytes []))
  | begin {e : Event} {task : Task} (idle : r.call = none)
      (asks : r.Asks e task) :
      Stepped r e ((r.start task.mode).setStage task .looking)
  | abandon {call : Call} (busy : r.call = some call)
      (keeps : call.task.usesUp = false) :
      Stepped r .abandon { r with call := none }
  /-- The reader is let go with a call that uses it up. -/
  | forsake {call : Call} (busy : r.call = some call)
      (uses : call.task.usesUp = true) : Stepped r .abandon r.drop
  | cancel : Stepped r .cancel r.cancel
  | drop : Stepped r .drop r.drop
  | arrive {e : Event} {i : Nat} {f : Inlet → Inlet}
      (arrives : e.Arrives i f) : Stepped r e (r.arrive i f)

theorem step_cases {r r' : Reader} {e : Event} (h : r.step e = some r') :
    Stepped r e r' := by
  cases e with
  | work i => exact .work h
  | advance => exact .advance h
  | read max =>
    obtain ⟨hidle, he⟩ := Option.ite_none_right_eq_some.1 h
    cases he
    have hidle := Option.isNone_iff_eq_none.1 hidle
    unfold beginRead
    split
    · rename_i hmax
      subst hmax
      exact .nothing hidle
    · exact .begin hidle (.read (by omega))
  | readToEnd out =>
    obtain ⟨hidle, he⟩ := Option.ite_none_right_eq_some.1 h
    cases he
    exact .begin (Option.isNone_iff_eq_none.1 hidle) .readToEnd
  | message =>
    obtain ⟨hidle, he⟩ := Option.ite_none_right_eq_some.1 h
    cases he
    have hidle := Option.isNone_iff_eq_none.1 hidle
    unfold beginMessage
    split
    · rename_i hm
      have hstart : r.start .stream = r := by simp only [start, hm]
      have hbegin := Stepped.begin hidle (.rest hm)
      rwa [Task.mode, hstart] at hbegin
    · rename_i hm
      exact .begin hidle (.message hm)
  | abandon =>
    obtain ⟨hbusy, he⟩ := Option.ite_none_right_eq_some.1 h
    cases he
    obtain ⟨call, hcall⟩ := Option.isSome_iff_exists.1 hbusy
    unfold Reader.abandon
    rw [hcall]
    cases huse : call.task.usesUp with
    | true => simpa [huse] using Stepped.forsake hcall huse
    | false => simpa [huse] using Stepped.abandon hcall huse
  | cancel => cases h; exact .cancel
  | drop => cases h; exact .drop
  | feed i bs => cases h; exact .arrive .feed
  | fault i cause => cases h; exact .arrive .fault
  | close i => cases h; exact .arrive .close

theorem Event.Arrives.brings {e : Event} {i : Nat} {f : Inlet → Inlet}
    (h : e.Arrives i f) (j : Nat) (c : Inlet) :
    e.brings j c = if j = i then f c else c := by
  cases h <;> rfl

/-- What begins a call brings nothing. -/
theorem Asks.brings {r : Reader} {e : Event} {task : Task}
    (h : r.Asks e task) (j : Nat) (c : Inlet) : e.brings j c = c := by
  cases h <;> rfl

/-! ## Runs -/

/-- What has arrived on connection `i` in the course of some events. -/
def arrived (es : List Event) (i : Nat) : Inlet :=
  es.foldl (fun c e => e.brings i c) .empty

@[simp] theorem arrived_nil (i : Nat) : arrived [] i = .empty := rfl

@[simp] theorem arrived_append (es : List Event) (e : Event) (i : Nat) :
    arrived (es ++ [e]) i = e.brings i (arrived es i) := by
  simp [arrived]

/-- What arrives is added at the end. -/
theorem front_brings (e : Event) (i : Nat) (c : Inlet) :
    c.tape <+: (e.brings i c).tape := by
  cases e with
  | feed j bs =>
    simp only [Event.brings]
    split
    · rw [Inlet.tape_feed]
      exact List.prefix_append _ _
    · exact List.prefix_rfl
  | fault j cause =>
    simp only [Event.brings]
    split
    · rw [Inlet.tape_fail]
      exact List.prefix_append _ _
    · exact List.prefix_rfl
  | close j =>
    simp only [Event.brings]
    split <;> exact List.prefix_rfl
  | _ => exact List.prefix_rfl

/-- What has arrived stays what arrived first. -/
theorem arrived_front {past es : List Event} (h : past <+: es) (i : Nat) :
    (arrived past i).tape <+: (arrived es i).tape := by
  obtain ⟨more, rfl⟩ := h
  induction more generalizing past with
  | nil => simp
  | cons e more ih =>
    rw [show past ++ e :: more = (past ++ [e]) ++ more by simp]
    refine .trans ?_ ih
    rw [arrived_append]
    exact front_brings e i _

/-- A connection ends when it is closed. -/
theorem close_mem {es : List Event} {i : Nat}
    (h : (arrived es i).ended = true) : .close i ∈ es := by
  have hall : ∀ (es : List Event) (c : Inlet),
      (es.foldl (fun c e => e.brings i c) c).ended = true →
        c.ended = true ∨ .close i ∈ es := by
    intro es
    induction es with
    | nil => exact fun c h => .inl h
    | cons e es ih =>
      intro c h
      rcases ih _ h with hc | hmem
      · cases e with
        | close j =>
          by_cases hij : i = j
          · subst hij
            exact .inr (by simp)
          · exact .inl (by simpa [Event.brings, hij] using hc)
        | feed j bs =>
          refine .inl ?_
          simp only [Event.brings] at hc
          split at hc <;> exact hc
        | fault j cause =>
          refine .inl ?_
          simp only [Event.brings] at hc
          split at hc <;> exact hc
        | _ => exact .inl hc
      · exact .inr (by simp [hmem])
  rcases hall es .empty h with hno | hmem
  · cases hno
  · exact hmem

/-- The bytes that an event takes out of the stream for a call. -/
def handed (r : Reader) : Event → Bytes
  | .advance =>
    match r.call with
    | some ⟨.stream extent, .taking _⟩ =>
      Transmission.handed (r.transmission.nextDelivery extent.max).1
    | _ => []
  | _ => []

theorem handed_of_ne (r : Reader) {e : Event} (h : e ≠ .advance) :
    r.handed e = [] := by
  cases e <;> first | rfl | exact absurd rfl h

end Stripe.Reader
