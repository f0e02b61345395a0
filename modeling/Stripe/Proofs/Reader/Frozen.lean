import Stripe.Proofs.Reader.Ending

/-!
# A reader that was stopped

Once a failure was recorded or a user has stopped the reader, nothing that
was received changes any more: a worker asks for that before each read
call, and a call before it looks at what was filed (`Stays`). Bytes that
are queued at the cursor stay there, and every call fails for the same
reason (`frozen_for_good`).

A worker that was stopped in the middle of its loop must not have a failure
in its hands that is not recorded yet, nor a call have looked already; so
the moves are strides here, and each poll is a row of them.
-/

namespace Stripe.Reader

open Segment Transmission

/-- What a call of a stopped reader comes to. -/
def Task.refusal (reason : Error) : Task → Answer
  | .stream (.toEnd out _) => .interrupted reason out
  | _ => .failed reason

/-- The call in flight is not let go, and no call begins. -/
def Event.isPatient : Event → Bool
  | .work _ | .advance | .cancel | .feed .. | .fault .. | .close _ => true
  | _ => false

/-- The reader was stopped at `r`, and what it had received then it has at
`r'`. Of the transmission only the buffer may be made anew, when nothing
was received. -/
structure Stays (r r' : Reader) : Prop where
  cancelled : r'.cancelled = true
  failure : r'.failure = r.failure
  transmission :
    { r'.transmission with buffer := r.transmission.buffer } = r.transmission
  stats : r'.stats = r.stats
  delivered : r'.delivered = r.delivered
  /-- No answer has brought a byte since. -/
  answer : r'.answer = r.answer ∨
    ∃ a, r'.answer = some a ∧ a.yield = []

theorem Stays.refl {r : Reader} (hstop : r.cancelled = true) : Stays r r :=
  ⟨hstop, rfl, rfl, rfl, rfl, .inl rfl⟩

theorem Stays.trans {r r' r'' : Reader} (h : Stays r r')
    (h' : Stays r' r'') : Stays r r'' := by
  refine ⟨h'.cancelled, h'.failure.trans h.failure, ?_,
    h'.stats.trans h.stats, h'.delivered.trans h.delivered, ?_⟩
  · have h₁ := h.transmission
    rw [← h'.transmission] at h₁
    exact h₁
  · rcases h'.answer with heq | hnew
    · rw [heq]
      exact h.answer
    · exact .inr hnew

/-- Only lanes, calls and flags have changed. -/
theorem Stays.of_eq {r r' : Reader} (hstop : r'.cancelled = true)
    (hfailure : r'.failure = r.failure) (hintake : r'.intake = r.intake)
    (hdelivered : r'.delivered = r.delivered)
    (hanswer : r'.answer = r.answer ∨
      ∃ a, r'.answer = some a ∧ a.yield = []) : Stays r r' := by
  refine ⟨hstop, hfailure, ?_, congrArg Intake.stats hintake, hdelivered,
    hanswer⟩
  rw [Reader.transmission, hintake]
  rfl

theorem refusal_eq (task : Task) (r : Reader) :
    (r.giveUp task).answer = some (task.refusal r.reason) := by
  unfold giveUp Task.refusal
  cases task with
  | collect => rfl
  | stream extent => cases extent <;> rfl

theorem yield_refusal (e : Error) (task : Task) :
    (task.refusal e).yield = [] := by
  cases task with
  | collect => rfl
  | stream extent => cases extent <;> rfl

section Stopped

variable {n maxPayload : Nat} {input : Nat → Inlet}
  {rows : Nat → List Segment} {out : Bytes} {r r' : Reader}

/-! ## One move -/

/-- The phase of a worker that has no failure in its hands. -/
theorem Settled.not_failing (h : r.Settled) {i : Nat} {c : Inlet} {e : Error}
    (hl : r.lanes[i]? = some ⟨c, .failing e⟩) : False := by
  have := h.recorded i
  simp [isFailing, phases_eq_some hl] at this

theorem Settled.not_taking (h : r.Settled) {task : Task} {live : Nat}
    (hc : r.call = some ⟨task, .taking live⟩) : False := by
  have := h.looked
  simp [isTaking, hc] at this

/-- A worker of a stopped reader lets go of its connection. -/
theorem Settled.work (h : r.Settled) (hstop : r.cancelled = true) {i : Nat}
    (hw : r.work i = some r') : Stays r r' ∧ r'.isFailing i = false := by
  have hgoes (going : r.cancelled = false) : False := by
    rw [hstop] at going
    cases going
  have hleft {v : Reader} {c c' : Inlet} {phase phase' : Phase}
      (hl : v.lanes[i]? = some ⟨c, phase⟩)
      (hp : ∀ e, phase' ≠ .failing e) :
      (v.setLane i ⟨c', phase'⟩).isFailing i = false := by
    rw [← Bool.not_eq_true, isFailing_setLane hl]
    rintro ⟨e, he⟩
    exact hp e he
  obtain ⟨mode, _, hcase⟩ := work_cases hw
  cases hcase with
  | stop lane stopped =>
    exact ⟨.of_eq hstop rfl rfl rfl (.inl rfl), hleft lane (by simp)⟩
  | more lane going advance => exact (hgoes going).elim
  | broken lane going advance => exact (hgoes going).elim
  | refused lane going advance result => exact (hgoes going).elim
  | filed lane going advance result => exact (hgoes going).elim
  | record lane => exact (h.not_failing lane).elim
  | leave lane =>
    exact ⟨.of_eq hstop rfl rfl rfl (.inl rfl),
      hleft (v := { r with live := r.live - 1, wakeup := true }) lane
        (by simp)⟩

/-- A call of a stopped reader looks once more, and gives up. -/
inductive GivesUp (r : Reader) : Reader → Prop where
  | refused {task : Task} (call : r.call = some ⟨task, .looking⟩) :
      GivesUp r (r.giveUp task)
  | stirred {task : Task} {r' : Reader}
      (call : r.call = some ⟨task, .waiting⟩)
      (after : ∃ wakeup, r' =
        { r with wakeup, call := some ⟨task, .looking⟩ }) : GivesUp r r'

theorem Settled.advance (h : r.Settled) (hstop : r.cancelled = true)
    (ha : r.advance = some r') : GivesUp r r' := by
  cases advance_cases ha with
  | stop call stopped => exact .refused call
  | look call going =>
    rw [hstop] at going
    cases going
  | wake call woken => exact .stirred call ⟨false, rfl⟩
  | stir call stopped => exact .stirred call ⟨r.wakeup, rfl⟩
  | message call completed => exact (h.not_taking call).elim
  | hole call completed nobody => exact (h.not_taking call).elim
  | collecting call completed somebody => exact (h.not_taking call).elim
  | broken call next => exact (h.not_taking call).elim
  | ready call next => exact (h.not_taking call).elim
  | finished call next => exact (h.not_taking call).elim
  | gap call next nobody => exact (h.not_taking call).elim
  | pending call next somebody => exact (h.not_taking call).elim

theorem GivesUp.stays (h : GivesUp r r') (hstop : r.cancelled = true) :
    Stays r r' ∧ r'.isTaking = false := by
  cases h with
  | @refused task call =>
    refine ⟨.of_eq (by simp [giveUp, conclude, hstop]) rfl rfl rfl ?_, rfl⟩
    exact .inr ⟨_, refusal_eq task r, yield_refusal _ task⟩
  | stirred call after =>
    obtain ⟨wakeup, rfl⟩ := after
    exact ⟨.of_eq hstop rfl rfl rfl (.inl rfl), rfl⟩

/-- **Nothing is left half done** by a move of a stopped reader. -/
theorem Settled.stride_eq (h : r.Settled) (hstop : r.cancelled = true)
    (e : Event) : r.stride e = r.step e := by
  unfold Reader.stride
  cases hs : r.step e with
  | none => rfl
  | some r' =>
    cases e with
    | work i =>
      have hw := (h.work hstop hs).2
      simp [hw]
    | advance =>
      have ha := ((h.advance hstop hs).stays hstop).2
      simp [ha]
    | _ => rfl

/-- Workers that are started when the reader was stopped have received
nothing. -/
theorem Inv.stays_start (h : Inv n maxPayload input rows out r)
    (hstop : r.cancelled = true) (mode : Mode) :
    Stays r (r.start mode) := by
  cases hm : r.mode with
  | some mode' =>
    have hsame : r.start mode = r := by simp only [start, hm]
    rw [hsame]
    exact .refl hstop
  | none =>
    have hfresh : r.transmission = .fresh :=
      congrArg Intake.transmission (h.unstarted hm).1
    obtain ⟨capacity, he⟩ := start_eq hm hfresh mode
    rw [he]
    refine ⟨hstop, rfl, ?_, rfl, rfl, .inl rfl⟩
    rw [hfresh]
    rfl

/-- **One move** of a stopped reader changes nothing that it has
received. -/
theorem Inv.stays (h : Inv n maxPayload input rows out r)
    (hset : r.Settled) (hstop : r.cancelled = true) {e : Event}
    (hs : r.step e = some r') : Stays r r' := by
  have hbegin (mode : Mode) (task : Task) :
      Stays r ((r.start mode).setStage task .looking) :=
    (h.stays_start hstop mode).trans
      (.of_eq (h.stays_start hstop mode).cancelled rfl rfl rfl (.inl rfl))
  have hdrop : Stays r r.drop := .of_eq rfl rfl rfl rfl (.inl rfl)
  cases step_cases hs with
  | work work => exact (hset.work hstop work).1
  | advance advance => exact ((hset.advance hstop advance).stays hstop).1
  | nothing idle => exact .of_eq hstop rfl rfl rfl (.inr ⟨_, rfl, rfl⟩)
  | begin idle asks => exact hbegin _ _
  | abandon busy keeps => exact .of_eq hstop rfl rfl rfl (.inl rfl)
  | forsake busy uses => exact hdrop
  | cancel => exact .of_eq rfl rfl rfl rfl (.inl rfl)
  | drop => exact hdrop
  | arrive arrives => exact .of_eq hstop rfl rfl rfl (.inl rfl)

end Stopped

/-! ## Runs -/

/-- The states that a run in strides comes to. -/
structure Comes (n maxPayload : Nat) (r : Reader) : Prop where
  settled : r.Settled
  inv : ∃ input rows out, Inv n maxPayload input rows out r

section Runs

variable {n maxPayload : Nat} {r r' : Reader} {e : Event}

theorem Comes.stride (h : Comes n maxPayload r) (hs : r.stride e = some r') :
    Comes n maxPayload r' := by
  refine ⟨h.settled.stride hs, ?_⟩
  obtain ⟨input, rows, out, hinv⟩ := h.inv
  rcases stride_cases hs with ⟨hstep, _⟩ | ⟨r₁, h₁, h₂, _⟩
  · obtain ⟨_, _, hinv'⟩ := hinv.step hstep
    exact ⟨_, _, _, hinv'⟩
  · obtain ⟨_, _, hinv₁⟩ := hinv.step h₁
    obtain ⟨_, _, hinv₂⟩ := hinv₁.step h₂
    exact ⟨_, _, _, hinv₂⟩

theorem Comes.run (h : Comes n maxPayload r) {es : List Event}
    (hrun : run Reader.stride r es = some r') : Comes n maxPayload r' :=
  follow (g := gained) (P := fun _ _ v => Comes n maxPayload v) h
    (fun _ _ _ _ _ _ h hs => h.stride hs) hrun

theorem comes_make {config : Config} (h : make n config = .ok r) :
    Comes n config.maxPayloadLen r :=
  ⟨settled_make h, _, _, _, inv_make h⟩

/-- **A stopped reader is frozen.** -/
theorem Comes.stays (h : Comes n maxPayload r) (hstop : r.cancelled = true)
    {es : List Event} (hrun : Stripe.run Reader.stride r es = some r') :
    Stays r r' := by
  refine (follow (g := gained)
    (P := fun _ _ v => Comes n maxPayload v ∧ Stays r v)
    ⟨h, .refl hstop⟩ ?_ hrun).2
  rintro past e log v v' - ⟨hv, hstays⟩ hs
  refine ⟨hv.stride hs, hstays.trans ?_⟩
  rw [hv.settled.stride_eq hstays.cancelled] at hs
  obtain ⟨_, _, _, hinv⟩ := hv.inv
  exact hinv.stays hv.settled hstays.cancelled hs

/-! ## Calls -/

/-- How many moves the call in flight has left, and what it comes to. -/
inductive Refuses (task : Task) (reason : Error) (r : Reader) : Nat → Prop
    where
  | waiting (call : r.call = some ⟨task, .waiting⟩) : Refuses task reason r 2
  | looking (call : r.call = some ⟨task, .looking⟩) : Refuses task reason r 1
  | ended (call : r.call = none)
      (answer : r.answer = some (task.refusal reason)) :
      Refuses task reason r 0

theorem Refuses.of_same {task : Task} {reason : Error} {k : Nat}
    (h : Refuses task reason r k) (hc : r'.call = r.call)
    (ha : r'.answer = r.answer) : Refuses task reason r' k := by
  cases h with
  | waiting call => exact .waiting (hc.trans call)
  | looking call => exact .looking (hc.trans call)
  | ended call answer => exact .ended (hc.trans call) (ha.trans answer)

/-- A call that has not moved for good fails in one of its next moves. -/
theorem Settled.refuses (h : r.Settled) (hstop : r.cancelled = true)
    {task : Task} {k : Nat} (hr : Refuses task r.reason r k)
    (he : e.isPatient = true) (hs : r.step e = some r') :
    ∃ k', Refuses task r.reason r' k' ∧
      k' + (if e = .advance then 1 else 0) ≤ k := by
  have hsame (hne : e ≠ .advance) (hc : r'.call = r.call)
      (ha : r'.answer = r.answer) : ∃ k', Refuses task r.reason r' k' ∧
        k' + (if e = .advance then 1 else 0) ≤ k :=
    ⟨k, hr.of_same hc ha, by simp [hne]⟩
  cases e with
  | work i =>
    obtain ⟨hc, ha, _⟩ := call_of_work hs
    exact hsame (by simp) hc ha
  | advance =>
    cases h.advance hstop hs with
    | @refused task' call =>
      cases hr with
      | waiting call' => rw [call'] at call; cases call
      | ended call' answer => rw [call'] at call; cases call
      | looking call' =>
        cases call'.symm.trans call
        exact ⟨0, .ended rfl (refusal_eq task r), Nat.le_refl _⟩
    | @stirred task' _ call after =>
      obtain ⟨wakeup, rfl⟩ := after
      cases hr with
      | looking call' => rw [call'] at call; cases call
      | ended call' answer => rw [call'] at call; cases call
      | waiting call' =>
        cases call'.symm.trans call
        exact ⟨1, .looking rfl, Nat.le_refl _⟩
  | cancel => cases hs; exact hsame (by simp) rfl rfl
  | feed i bs => cases hs; exact hsame (by simp) rfl rfl
  | fault i cause => cases hs; exact hsame (by simp) rfl rfl
  | close i => cases hs; exact hsame (by simp) rfl rfl
  | read max => cases he
  | readToEnd out => cases he
  | message => cases he
  | abandon => cases he
  | drop => cases he

/-- **The call in flight fails**, after two moves of its own at most. -/
theorem Comes.refuses (h : Comes n maxPayload r)
    (hstop : r.cancelled = true) {task : Task} {k : Nat}
    (hr : Refuses task r.reason r k) {es : List Event}
    (hes : ∀ e ∈ es, e.isPatient = true)
    (hrun : Stripe.run Reader.stride r es = some r') :
    ∃ k', Refuses task r.reason r' k' ∧ k' + es.count .advance ≤ k := by
  refine (follow (g := gained) (P := fun past _ v =>
    (Comes n maxPayload v ∧ Stays r v) ∧
      ∃ k', Refuses task r.reason v k' ∧ k' + past.count .advance ≤ k)
    ⟨⟨h, .refl hstop⟩, k, hr, Nat.le_refl _⟩ ?_ hrun).2
  rintro past e log v v' hfront ⟨⟨hv, hstays⟩, k₁, hr₁, hle₁⟩ hs
  have hstep := hs
  rw [hv.settled.stride_eq hstays.cancelled] at hstep
  obtain ⟨_, _, _, hinv⟩ := hv.inv
  have hreason : v.reason = r.reason := by
    simp only [Reader.reason, hstays.failure]
  rw [← hreason] at hr₁ ⊢
  obtain ⟨k₂, hr₂, hle₂⟩ := hv.settled.refuses hstays.cancelled hr₁
    (hes e (hfront.subset (by simp))) hstep
  refine ⟨⟨hv.stride hs, hstays.trans
    (hinv.stays hv.settled hstays.cancelled hstep)⟩, k₂, hr₂, ?_⟩
  rw [List.count_append, List.count_singleton]
  simp only [beq_iff_eq]
  omega

/-- A call begins by looking, but for one that reads no bytes. -/
theorem looking_of_begun (he : e.isCall = true) (hne : e ≠ .read 0)
    (hs : r.step e = some r') : ∃ task, r'.call = some ⟨task, .looking⟩ := by
  cases step_cases hs with
  | nothing idle => exact absurd rfl hne
  | begin idle asks => exact ⟨_, rfl⟩
  | arrive arrives => cases arrives <;> cases he
  | _ => cases he

end Runs

/-- **A reader that has failed or was cancelled is frozen.** Take any run
in strides, from its first state on in which a failure is recorded or the
reader is cancelled. Whatever happens then, what was received stays as it
is, and no byte is delivered. Every call but an empty read is in flight
once it has begun; and a call in flight can move until it is over, is over
after two moves at most, and fails with the recorded failure, or as
cancelled if there is none. -/
theorem frozen_for_good {n : Nat} {config : Config} {r₀ r r' : Reader}
    {es more : List Event} (hmake : make n config = .ok r₀)
    (hrun : run stride r₀ es = some r)
    (hstop : r.failure.isSome = true ∨ r.cancelled = true)
    (hmore : run stride r more = some r') :
    Stays r r' ∧
    (∀ e v, e.isCall = true → e ≠ .read 0 → r'.stride e = some v →
      ∃ task, v.call = some ⟨task, .looking⟩) ∧
    (∀ task stage later v, r'.call = some ⟨task, stage⟩ →
      (∀ e ∈ later, e.isPatient = true) → run stride r' later = some v →
        later.count .advance ≤ 2 ∧ (v.advance = none → v.call = none) ∧
        (v.call = none →
          v.answer = some (task.refusal (r.failure.getD .cancelled)))) := by
  have hcomes := (comes_make hmake).run hrun
  have hcancelled : r.cancelled = true := by
    obtain ⟨_, _, _, hinv⟩ := hcomes.inv
    exact hstop.elim hinv.halted id
  have hstays := hcomes.stays hcancelled hmore
  have hcomes' := hcomes.run hmore
  refine ⟨hstays, fun e v he hne hs => ?_,
    fun task stage later v hc hes hv => ?_⟩
  · rw [hcomes'.settled.stride_eq hstays.cancelled] at hs
    exact looking_of_begun he hne hs
  · -- the call has not looked before the reader was stopped
    obtain ⟨k, hk, hr⟩ : ∃ k ≤ 2, Refuses task r'.reason r' k := by
      cases stage with
      | looking => exact ⟨1, by decide, .looking hc⟩
      | waiting => exact ⟨2, by decide, .waiting hc⟩
      | taking live => exact (hcomes'.settled.not_taking hc).elim
    obtain ⟨k', hr', hle⟩ := hcomes'.refuses hstays.cancelled hr hes hv
    have hlate := hcomes'.stays hstays.cancelled hv
    have hreason : r'.reason = r.failure.getD .cancelled :=
      congrArg (·.getD .cancelled) hstays.failure
    refine ⟨by omega, fun hrest => ?_, fun hover => ?_⟩
    · rcases advance_eq_none_iff.1 hrest with hnone | ⟨_, _, _, hgoing⟩
      · exact hnone
      · rw [hlate.cancelled] at hgoing
        cases hgoing
    · rw [← hreason]
      cases hr' with
      | waiting call => rw [hover] at call; cases call
      | looking call => rw [hover] at call; cases call
      | ended call answer => exact answer

/-- Two bytes are queued at the cursor when a reader is cancelled. -/
def cancelledEvents : List Event :=
  [.read 4, .feed 0 (Segment.data [1, 2] 0 .none).encode,
    .work 0, .work 0, .cancel]

/-- The read in flight does not get them, and neither does the next one. -/
theorem frozen_for_good_queued : ∃ r₀ r r' v,
    make 1 .standard = .ok r₀ ∧ run stride r₀ cancelledEvents = some r ∧
    (r.failure.isSome = true ∨ r.cancelled = true) ∧
    run stride r [.advance, .read 1] = some r' ∧ Stays r r' ∧
    r'.transmission.queue.segments = [Segment.data [1, 2] 0 .none] ∧
    run stride r' [.advance] = some v ∧ v.call = none ∧
    v.answer = some (.failed .cancelled) := by
  refine ⟨_, _, _, _, rfl, rfl, .inr rfl, rfl, ?_, rfl, rfl, rfl, ?_⟩
  · exact (@frozen_for_good 1 .standard _ _ _ cancelledEvents
      [.advance, .read 1] rfl rfl (.inr rfl) rfl).1
  · obtain ⟨_, _, hrefused⟩ := @frozen_for_good 1 .standard _ _ _
      cancelledEvents [.advance, .read 1] rfl rfl (.inr rfl) rfl
    obtain ⟨_, _, hanswer⟩ := hrefused (.stream (.upTo 1)) .looking [.advance]
      _ rfl (by decide) rfl
    exact hanswer rfl

end Stripe.Reader
