import Stripe.Proofs.Reader.Log

/-!
# The end of the stream

A call that comes to the end of the stream finds it only if everything is
there (`Inv.ends`), provided that no failure was found that was not
recorded yet. So the moves are taken in larger strides here: a worker
records a failure as soon as it has found it, and a call looks at what was
filed as soon as it has looked whether the reader was stopped. In strides,
a call that succeeds has got the message of good inputs
(`Serves.stride_ends`).
-/

namespace Stripe.Reader

open Segment Transmission

/-- The answer says that the stream has ended, if the call was for more
than no bytes. -/
def Answer.isEnd : Answer → Bool
  | .bytes bs => bs.isEmpty
  | .appended .. | .message _ => true
  | _ => false

/-- A call has come to the end of the stream. -/
def Ends (r r' : Reader) : Prop :=
  r.call.isSome = true ∧ r'.call = none ∧
    ∃ a, r'.answer = some a ∧ a.isEnd = true

/-- Worker `i` is to record a failure. -/
def isFailing (r : Reader) (i : Nat) : Bool :=
  match r.phases[i]? with
  | some (.failing _) => true
  | _ => false

/-- The call in flight is to look at what was filed. -/
def isTaking (r : Reader) : Bool :=
  match r.call with
  | some ⟨_, .taking _⟩ => true
  | _ => false

/-- What happens to the reader in one poll of a worker or of a call. A
worker that has found a failure records it in the same poll. A call that
has looked whether the reader was stopped looks at what was filed in the
same poll: it waits for nothing in between, so nobody else moves there. -/
def stride (r : Reader) (e : Event) : Option Reader :=
  (r.step e).bind fun r' =>
    match e with
    | .work i => if r'.isFailing i then r'.step e else some r'
    | .advance => if r'.isTaking then r'.step e else some r'
    | _ => some r'

/-- Nothing is left half done. -/
structure Settled (r : Reader) : Prop where
  recorded : ∀ i, r.isFailing i = false
  looked : r.isTaking = false

/-! ## Success needs good inputs -/

/-- A call of a stopped reader fails. -/
theorem giveUp_answer {task : Task} {r : Reader} {a : Answer}
    (h : (r.giveUp task).answer = some a) :
    a.isEnd = false ∧ a.isFailure = true := by
  unfold giveUp at h
  cases task with
  | collect => cases h; exact ⟨rfl, rfl⟩
  | stream extent =>
    cases extent with
    | upTo max => cases h; exact ⟨rfl, rfl⟩
    | toEnd out count => cases h; exact ⟨rfl, rfl⟩
    | remainder out => cases h; exact ⟨rfl, rfl⟩

section Ending

variable {n maxPayload : Nat} {input : Nat → Inlet}
  {rows : Nat → List Segment} {out log : Bytes} {r r' : Reader}

/-- **A call that comes to the end of the stream** has got the message of
good inputs, if no failure was found before. -/
theorem Inv.ends (h : Inv n maxPayload input rows out r)
    (hlog : out = log ++ r.pending) (hu : r.Unharmed)
    (hgo : r.cancelled = false) (ha : r.advance = some r')
    (he : Ends r r') :
    Yields n maxPayload input rows (log ++ gained r r') := by
  obtain ⟨_, hover, a, hans, hend⟩ := he
  have hstored {task : Task} {stage : Stage}
      (call : r.call = some ⟨task, stage⟩) :
      Stored task.mode (pieces n rows) out r.transmission :=
    h.stored hgo _ ((h.fits call).2 hgo)
  cases advance_cases ha with
  | stop call stopped =>
    rw [hgo] at stopped
    cases stopped
  | look call going => cases hover
  | message call completed =>
    obtain ⟨hst, hout⟩ := hstored call
    have hlog' : log = [] := by
      rw [hout] at hlog
      exact (List.append_eq_nil_iff.1 hlog.symm).1
    rcases takeMessage_cases r with ⟨e, _, he⟩ | ⟨m, hm, he⟩
    · rw [he] at hans
      cases hans
      cases hend
    · rw [he]
      have hg : log ++ gained r { r with
          intake := { r.intake with transmission := .fresh }
          cancelled := true, call := none, answer := some (.message m)
          delivered := m.length } = m := by
        simp [hlog', gained, call, Answer.yield]
      rw [hg]
      exact h.yields hu completed (hst.toMessage_spec hm)
  | hole call completed nobody =>
    obtain ⟨hno, _⟩ := giveUp_answer hans
    rw [hno] at hend
    cases hend
  | collecting call completed somebody => cases hover
  | broken call next =>
    obtain ⟨hno, _⟩ := giveUp_answer hans
    rw [hno] at hend
    cases hend
  | @ready extent live bs t call next =>
    have hst : Streams (pieces n rows) out r.transmission := hstored call
    cases extent with
    | upTo max =>
      have hpos := (h.fits call).1 max rfl
      have hspec := next_spec hst max
      rw [show r.transmission.nextDelivery max = _ from next] at hspec
      cases hans
      cases hspec with
      | ready pos le streams =>
        exact absurd (by simpa [Answer.isEnd] using hend) (pos hpos)
    | toEnd out' count => cases hover
    | remainder out' => cases hover
  | @finished extent live t call next =>
    have hst : Streams (pieces n rows) out r.transmission := hstored call
    have hspec := next_spec hst extent.max
    rw [next] at hspec
    -- the answer brings what the call has taken so far
    have hg : log ++ gained r ((r.keep t).concludeStream extent) = out := by
      rw [hlog, pending_of_busy call]
      cases extent <;>
        simp [gained, call, concludeStream, conclude, Answer.yield,
          Task.taken, Extent.taken]
    rw [hg]
    cases hspec with
    | finished completed empty tiles => exact h.yields hu completed tiles
  | gap call next nobody =>
    obtain ⟨hno, _⟩ := giveUp_answer hans
    rw [hno] at hend
    cases hend
  | pending call next somebody => cases hover
  | wake call woken => cases hover
  | stir call stopped => cases hover

end Ending

/-! ## Strides -/

/-- A call that is to look at what was filed does so in one move. -/
theorem not_taking_of_advance {r r' : Reader} (h : r.advance = some r')
    (ht : r.isTaking = true) : r'.isTaking = false := by
  cases advance_cases h with
  | stop call stopped => rfl
  | look call going => simp [isTaking, call] at ht
  | message call completed =>
    rcases takeMessage_cases r with ⟨e, _, he⟩ | ⟨m, _, he⟩
    · rw [he]
      rfl
    · rw [he]
      rfl
  | hole call completed nobody => rfl
  | collecting call completed somebody => rfl
  | broken call next => rfl
  | @ready extent live bs t call next => cases extent <;> rfl
  | @finished extent live t call next => cases extent <;> rfl
  | gap call next nobody => rfl
  | pending call next somebody => rfl
  | wake call woken => rfl
  | stir call stopped => rfl

/-- A stride is one move, or two where the first one leaves something half
done. -/
theorem stride_cases {r r' : Reader} {e : Event}
    (h : r.stride e = some r') :
    (r.step e = some r' ∧ (∀ i, e = .work i → r'.isFailing i = false) ∧
      (e = .advance → r'.isTaking = false)) ∨
    ∃ r₁, r.step e = some r₁ ∧ r₁.step e = some r' ∧
      ((∃ i, e = .work i ∧ r₁.isFailing i = true) ∨
        e = .advance ∧ r₁.isTaking = true) := by
  obtain ⟨r₁, h₁, h₂⟩ := Option.bind_eq_some_iff.1 h
  cases e with
  | work i =>
    by_cases hf : r₁.isFailing i = true
    · simp only [hf, if_true] at h₂
      exact .inr ⟨r₁, h₁, h₂, .inl ⟨i, rfl, hf⟩⟩
    · simp only [hf, Bool.false_eq_true, if_false,
        Option.some.injEq] at h₂
      subst h₂
      refine .inl ⟨h₁, fun j hj => ?_, by simp⟩
      cases hj
      simpa using hf
  | advance =>
    by_cases ht : r₁.isTaking = true
    · simp only [ht, if_true] at h₂
      exact .inr ⟨r₁, h₁, h₂, .inr ⟨rfl, ht⟩⟩
    · simp only [ht, Bool.false_eq_true, if_false,
        Option.some.injEq] at h₂
      subst h₂
      exact .inl ⟨h₁, by simp, fun _ => by simpa using ht⟩
  | _ =>
    simp only [Option.some.injEq] at h₂
    subst h₂
    exact .inl ⟨h₁, by simp, by simp⟩

theorem isFailing_congr {r r' : Reader} {i : Nat}
    (h : r'.phases[i]? = r.phases[i]?) : r'.isFailing i = r.isFailing i := by
  unfold isFailing
  rw [h]

theorem isFailing_setLane {r : Reader} {i : Nat} {lane lane' : Lane}
    (h : r.lanes[i]? = some lane) :
    (r.setLane i lane').isFailing i = true ↔
      ∃ e, lane'.phase = .failing e := by
  have hlt := (List.getElem?_eq_some_iff.1 (phases_eq_some h)).1
  have hnew : (r.setLane i lane').phases[i]? = some lane'.phase := by
    rw [phases_setLane, List.getElem?_set_self hlt]
  simp only [isFailing, hnew]
  cases lane'.phase <;> simp

/-- A worker that moves does not touch the others. -/
theorem isFailing_of_work {i j : Nat} {r r' : Reader}
    (h : r.work i = some r') (hj : j ≠ i) :
    r'.isFailing j = r.isFailing j := by
  have hset (lane : Lane) :
      (r.phases.set i lane.phase)[j]? = r.phases[j]? :=
    List.getElem?_set_ne (Ne.symm hj)
  obtain ⟨mode, _, hcase⟩ := work_cases h
  refine isFailing_congr ?_
  cases hcase with
  | stop lane stopped => rw [phases_setLane]; exact hset _
  | more lane going advance => rw [phases_setLane]; exact hset _
  | broken lane going advance => rw [phases_setLane]; exact hset _
  | refused lane going advance result => rw [phases_setLane]; exact hset _
  | filed lane going advance result => rw [phases_setLane]; exact hset _
  | record lane => rw [phases_setLane]; exact hset _
  | leave lane => rw [phases_setLane]; exact hset _

/-- A worker records a failure in one move. -/
theorem not_failing_of_work {i : Nat} {r r' : Reader}
    (h : r.work i = some r') (hf : r.isFailing i = true) :
    r'.isFailing i = false := by
  have hphase {c : Inlet} {phase : Phase}
      (hl : r.lanes[i]? = some ⟨c, phase⟩) : ∃ e, phase = .failing e := by
    simp only [isFailing, phases_eq_some hl] at hf
    cases phase <;> simp at hf ⊢
  obtain ⟨mode, _, hcase⟩ := work_cases h
  cases hcase with
  | stop lane stopped => obtain ⟨_, he⟩ := hphase lane; cases he
  | more lane going advance => obtain ⟨_, he⟩ := hphase lane; cases he
  | broken lane going advance => obtain ⟨_, he⟩ := hphase lane; cases he
  | refused lane going advance result =>
    obtain ⟨_, he⟩ := hphase lane
    cases he
  | filed lane going advance result =>
    obtain ⟨_, he⟩ := hphase lane
    cases he
  | @record c e lane =>
    have hiff : ((r.fail e).setLane i ⟨c, .leaving⟩).isFailing i = true ↔
        ∃ e, Phase.leaving = .failing e := isFailing_setLane lane
    simpa using hiff
  | leave lane => obtain ⟨_, he⟩ := hphase lane; cases he

theorem Settled.unharmed {r : Reader} (h : r.Settled)
    (hf : r.failure = none) : r.Unharmed := by
  refine ⟨hf, fun e he => ?_⟩
  obtain ⟨i, hi⟩ := List.getElem?_of_mem he
  have hno := h.recorded i
  simp [isFailing, hi] at hno

/-- A reader that is let go lets its connections go, or leaves them to its
workers. -/
theorem Settled.drop {r : Reader} (h : r.Settled) : r.drop.Settled := by
  refine ⟨fun i => ?_, rfl⟩
  unfold Reader.drop
  cases hm : r.mode with
  | some mode => exact h.recorded i
  | none =>
    simp only [isFailing, phases, List.getElem?_map]
    cases r.lanes[i]? <;> rfl

theorem Settled.of_phases {r r' : Reader} (h : r.Settled)
    (hp : r'.phases = r.phases) (hc : r'.isTaking = false) : r'.Settled :=
  ⟨fun i => (isFailing_congr (by rw [hp])).trans (h.recorded i), hc⟩

theorem isTaking_congr {r r' : Reader} (hc : r'.call = r.call) :
    r'.isTaking = r.isTaking := by
  unfold isTaking
  rw [hc]

/-- An event leaves nothing half done, but for what its own worker or the
call is to do. -/
theorem Settled.step {r r' : Reader} (h : r.Settled) {e : Event}
    (hs : r.step e = some r')
    (hrec : ∀ i, e = .work i → r'.isFailing i = false)
    (hlook : e = .advance → r'.isTaking = false) : r'.Settled := by
  cases step_cases hs with
  | @work i r' work =>
    refine ⟨fun j => ?_,
      (isTaking_congr (call_of_work work).1).trans h.looked⟩
    by_cases hj : j = i
    · subst hj
      exact hrec j rfl
    · rw [isFailing_of_work work hj]
      exact h.recorded j
  | advance advance =>
    refine h.of_phases ?_ (hlook rfl)
    rw [phases, (kept_of_advance advance).1]
    rfl
  | nothing idle => exact ⟨h.recorded, rfl⟩
  | begin idle asks => exact h.of_phases (phases_start _ r).1 rfl
  | abandon busy keeps => exact ⟨h.recorded, rfl⟩
  | forsake busy uses => exact h.drop
  | cancel => exact ⟨h.recorded, h.looked⟩
  | drop => exact h.drop
  | @arrive e i f arrives => exact h.of_phases (phases_arrive i f r) h.looked

/-- **A stride leaves nothing half done.** -/
theorem Settled.stride {r r' : Reader} (h : r.Settled) {e : Event}
    (hs : r.stride e = some r') : r'.Settled := by
  rcases stride_cases hs with ⟨hstep, hrec, hlook⟩ |
    ⟨r₁, h₁, h₂, ⟨i, rfl, hf⟩ | ⟨rfl, ht⟩⟩
  · exact h.step hstep hrec hlook
  · -- the worker has failed, and has recorded that
    refine ⟨fun j => ?_, ?_⟩
    · by_cases hj : j = i
      · subst hj
        exact not_failing_of_work h₂ hf
      · rw [isFailing_of_work h₂ hj, isFailing_of_work h₁ hj]
        exact h.recorded j
    · rw [isTaking_congr (call_of_work h₂).1,
        isTaking_congr (call_of_work h₁).1]
      exact h.looked
  · -- the call has looked, and has taken what was there
    refine h.of_phases ?_ (not_taking_of_advance h₂ ht)
    rw [phases, (kept_of_advance h₂).1, (kept_of_advance h₁).1]
    rfl

theorem settled_make {n : Nat} {config : Config} {r : Reader}
    (h : make n config = .ok r) : r.Settled := by
  obtain ⟨_, _, rfl⟩ := make_eq_ok h
  refine ⟨fun i => ?_, rfl⟩
  simp only [isFailing, phases, List.map_replicate]
  by_cases hi : i < n
  · simp [hi]
  · simp [hi]

/-- A stride brings to the user what its last move does. -/
theorem gained_stride {r r₁ r' : Reader} {e : Event}
    (h₁ : r.step e = some r₁)
    (he : (∃ i, e = .work i ∧ r₁.isFailing i = true) ∨
      e = .advance ∧ r₁.isTaking = true)
    (h₂ : r₁.step e = some r') :
    gained r r₁ = [] ∧ gained r₁ r' = gained r r' := by
  rcases he with ⟨i, rfl, _⟩ | ⟨rfl, ht⟩
  · obtain ⟨hc₁, _⟩ := call_of_work h₁
    obtain ⟨hc₂, _⟩ := call_of_work h₂
    exact ⟨gained_of_call_eq hc₁, by
      rw [gained_of_call_eq hc₂, gained_of_call_eq (hc₂.trans hc₁)]⟩
  · -- a call is in flight before and after the first move
    have hbusy : ∃ call, r₁.call = some call := by
      unfold isTaking at ht
      split at ht
      · exact ⟨_, ‹_›⟩
      · cases ht
    obtain ⟨call₁, hc₁⟩ := hbusy
    have hcall : ∃ call, r.call = some call := by
      cases hc : r.call with
      | none =>
        have hno : r.advance = none := advance_eq_none_iff.2 (.inl hc)
        rw [show r.step .advance = r.advance from rfl, hno] at h₁
        cases h₁
      | some call => exact ⟨call, rfl⟩
    obtain ⟨call, hc⟩ := hcall
    refine ⟨gained_of_busy hc₁, ?_⟩
    unfold gained
    rw [hc, hc₁]
    cases r'.call <;> cases r'.answer <;> rfl

section Stride

variable {n maxPayload : Nat} {input : Nat → Inlet}
  {rows : Nat → List Segment} {log : Bytes} {r r' : Reader}

/-- **What the user gets**, at every stride. -/
theorem Serves.stride (h : Serves n maxPayload input rows log r)
    {e : Event} (he : e.isPlain = true) (hs : r.stride e = some r') :
    ∃ rows', (∀ j, rows j <+: rows' j) ∧
      Serves n maxPayload (fun i => e.brings i (input i)) rows'
        (log ++ gained r r') r' := by
  rcases stride_cases hs with ⟨hstep, _⟩ | ⟨r₁, h₁, h₂, hwhich⟩
  · exact h.step he hstep
  · obtain ⟨rows₁, hle₁, hserves₁⟩ := h.step he h₁
    obtain ⟨rows₂, hle₂, hserves₂⟩ := hserves₁.step he h₂
    obtain ⟨hnil, hgain⟩ := gained_stride h₁ hwhich h₂
    refine ⟨rows₂, fun j => (hle₁ j).trans (hle₂ j), ?_⟩
    rw [hnil, List.append_nil, hgain] at hserves₂
    rcases hwhich with ⟨i, rfl, _⟩ | ⟨rfl, _⟩
    · exact hserves₂
    · exact hserves₂

/-- A call is over by a move of its own. -/
theorem eq_advance_of_ends {e : Event} (he : e.isPlain = true)
    (hs : r.step e = some r') (hbusy : r.call.isSome = true)
    (hover : r'.call = none) : e = .advance := by
  have hsame (hc : r'.call = r.call) : False := by
    rw [← hc, hover] at hbusy
    cases hbusy
  cases step_cases hs with
  | work work => exact absurd (call_of_work work).1 hsame
  | advance advance => rfl
  | nothing idle =>
    rw [idle] at hbusy
    cases hbusy
  | begin idle asks => cases hover
  | arrive arrives => exact absurd rfl hsame
  | _ => cases he

/-- **Success needs good inputs**: in strides, a call that comes to the end
of the stream, or has the message, has got the message of good inputs. -/
theorem Serves.stride_ends (h : Serves n maxPayload input rows log r)
    (hset : r.Settled) {e : Event} (he : e.isPlain = true)
    (hs : r.stride e = some r') (hend : Ends r r') :
    e = .advance ∧ Yields n maxPayload input rows (log ++ gained r r') := by
  obtain ⟨hbusy, hover, a, hans, hsucc⟩ := hend
  rcases stride_cases hs with ⟨hstep, _, hlook⟩ |
    ⟨r₁, h₁, h₂, ⟨i, rfl, _⟩ | ⟨rfl, ht⟩⟩
  · -- one move is not enough for a call that has not looked yet
    obtain rfl := eq_advance_of_ends he hstep hbusy hover
    have hnot {task : Task} {live : Nat}
        (hc : r.call = some ⟨task, .taking live⟩) : False := by
      have := hset.looked
      simp [isTaking, hc] at this
    cases advance_cases hstep with
    | stop call stopped =>
      obtain ⟨hno, _⟩ := giveUp_answer hans
      rw [hno] at hsucc
      cases hsucc
    | look call going => cases hover
    | message call completed => exact absurd call hnot
    | hole call completed nobody => exact absurd call hnot
    | collecting call completed somebody => exact absurd call hnot
    | broken call next => exact absurd call hnot
    | ready call next => exact absurd call hnot
    | finished call next => exact absurd call hnot
    | gap call next nobody => exact absurd call hnot
    | pending call next somebody => exact absurd call hnot
    | wake call woken => cases hover
    | stir call stopped => cases hover
  · rw [(call_of_work h₂).1, (call_of_work h₁).1] at hover
    rw [hover] at hbusy
    cases hbusy
  · refine ⟨rfl, ?_⟩
    obtain ⟨out, hinv, hlog⟩ := h
    have hgain := gained_stride h₁ (.inr ⟨rfl, ht⟩) h₂
    have hinv₁ := hinv.advance h₁
    cases advance_cases h₁ with
    | @look task call going =>
      -- nothing has failed, since nothing was recorded and nothing is left
      have hfail : r.failure = none := by
        cases hf : r.failure with
        | none => rfl
        | some err => rw [hinv.halted (by simp [hf])] at going; cases going
      have hu : (r.setStage task (.taking r.live)).Unharmed :=
        hset.unharmed hfail
      have hlog₁ : out ++ r.handed .advance =
          log ++ (r.setStage task (.taking r.live)).pending := by
        rw [hlog going, pending_of_busy call, pending_of_busy rfl]
        simp [handed, call]
      rw [← hgain.2]
      exact hinv₁.ends hlog₁ hu going h₂ ⟨rfl, hover, a, hans, hsucc⟩
    | stop call stopped => cases ht
    | message call completed =>
      have := hset.looked
      simp [isTaking, call] at this
    | hole call completed nobody => cases ht
    | collecting call completed somebody => cases ht
    | broken call next => cases ht
    | @ready extent live bs t call next => cases extent <;> cases ht
    | @finished extent live t call next => cases extent <;> cases ht
    | gap call next nobody => cases ht
    | pending call next somebody => cases ht
    | wake call woken => cases ht
    | stir call stopped => cases ht

end Stride

/-- **What the user gets**, along a run in strides. -/
theorem serves_run {n : Nat} {config : Config} {r₀ r : Reader}
    {es : List Event} (hmake : make n config = .ok r₀)
    (hes : ∀ e ∈ es, e.isPlain = true) (hrun : run stride r₀ es = some r) :
    ∃ rows, Serves n config.maxPayloadLen (arrived es) rows
      (obtained stride r₀ es) r ∧ r.Settled := by
  refine follow (P := fun past log r => ∃ rows, Serves n
    config.maxPayloadLen (arrived past) rows log r ∧ r.Settled)
    ⟨_, serves_make hmake, settled_make hmake⟩ ?_ hrun
  rintro past e log r r' hfront ⟨rows, hserves, hset⟩ hmove
  have he := hes e (hfront.subset (by simp))
  obtain ⟨rows', _, hserves'⟩ := hserves.stride he hmove
  rw [arrived_concat]
  exact ⟨rows', hserves', hset.stride hmove⟩

end Stripe.Reader
