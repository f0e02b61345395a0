import Stripe.Proofs.Reader.Streaming

/-!
# The two ways to receive

A user gets the message by one call that collects it by place, or by calls
that read the stream. The two find out by different means that something is
wrong, but they agree (`paths_agree`): each of them succeeds exactly on
good inputs, and inputs make one message only. `Concludes.outcome` says
what the last call of a user comes to, once the reader is at rest.
-/

namespace Stripe.Reader

open Segment Transmission

/-! ## What a call comes to -/

/-- The answer of a call that has succeeded and has brought `bs`. -/
def Task.answer : Task → Bytes → Answer
  | .stream (.upTo _), bs => .bytes bs
  | .stream (.toEnd out count), bs =>
    .appended bs.length (out.take (out.length - count) ++ bs)
  | .stream (.remainder _), bs => .message bs
  | .collect, bs => .message bs

/-- A call has not counted more than it has added. -/
def Task.Counts : Task → Prop
  | .stream (.toEnd out count) => count ≤ out.length
  | _ => True

/-- Where a call stands that answers by `answer` if it succeeds, after it
has brought `got`: it is in flight, or it is over. -/
inductive Engaged (answer : Bytes → Answer) (r : Reader) : Bytes → Prop where
  | busy {task : Task} {stage : Stage} (call : r.call = some ⟨task, stage⟩)
      (counts : task.Counts) (answers : task.answer = answer) :
      Engaged answer r []
  | failed {a : Answer} (call : r.call = none) (ans : r.answer = some a)
      (fails : a.isFailure = true) : Engaged answer r []
  | returned {got : Bytes} (call : r.call = none)
      (ans : r.answer = some (answer got)) : Engaged answer r got

section Engaged

variable {answer : Bytes → Answer} {r r' : Reader} {got : Bytes}

/-- Bytes that a call adds to its buffer do not change how it answers. -/
theorem answer_toEnd_append (out bs : Bytes) (count : Nat) :
    (Task.stream (.toEnd (out ++ bs) (count + bs.length))).answer =
      (Task.stream (.toEnd out count)).answer := by
  funext more
  have h : (out ++ bs).length - (count + bs.length) = out.length - count := by
    rw [List.length_append]
    omega
  simp only [Task.answer, h]
  rw [List.take_append_of_le_length (by omega)]

/-- The call is over, and answers by what it has brought. -/
theorem Engaged.of_answer {call : Call} {a : Answer}
    (hc : r.call = some call) (hc' : r'.call = none)
    (hans : r'.answer = some a) (ha : a = answer a.yield) :
    Engaged answer r' (gained r r') := by
  rw [gained_of_over hc hc' hans]
  exact .returned hc' (ha ▸ hans)

/-- The call is over, and has failed. -/
theorem Engaged.of_failure {call : Call} {a : Answer}
    (hc : r.call = some call) (hc' : r'.call = none)
    (hans : r'.answer = some a) (hf : a.isFailure = true) :
    Engaged answer r' (gained r r') := by
  have hnil : a.yield = [] := by
    cases a <;> first | rfl | cases hf
  rw [gained_of_over hc hc' hans, hnil]
  exact .failed hc' hans hf

/-- **A move of the call** brings it nearer to its answer. -/
theorem Engaged.advance (h : Engaged answer r got)
    (ha : r.advance = some r') : Engaged answer r' (got ++ gained r r') := by
  have hidle (hc : r.call = none) : False := by
    simp [advance_eq_none_iff.2 (.inl hc)] at ha
  cases h with
  | failed call ans fails => exact absurd call hidle
  | returned call ans => exact absurd call hidle
  | @busy task stage call counts answers =>
  rw [List.nil_append]
  -- the call goes on with the same task
  have hon {stage' : Stage} (hc' : r'.call = some ⟨task, stage'⟩) :
      Engaged answer r' (gained r r') := by
    rw [gained_of_busy hc']
    exact .busy hc' counts answers
  cases advance_cases ha with
  | stop call' stopped =>
    exact .of_failure call rfl rfl (giveUp_answer rfl).2
  | look call' going => cases call.symm.trans call'; exact hon rfl
  | message call' completed =>
    cases call.symm.trans call'
    rcases takeMessage_cases r with ⟨e, _, he⟩ | ⟨m, _, he⟩
    · rw [he]
      exact .of_failure call rfl rfl rfl
    · rw [he]
      exact .of_answer call rfl rfl (answers ▸ rfl)
  | hole call' completed nobody => exact .of_failure call rfl rfl rfl
  | collecting call' completed somebody =>
    cases call.symm.trans call'
    exact hon rfl
  | broken call' next => exact .of_failure call rfl rfl (giveUp_answer rfl).2
  | @ready extent live bs t call' next =>
    cases call.symm.trans call'
    cases extent with
    | upTo max => exact .of_answer call rfl rfl (answers ▸ rfl)
    | toEnd out count =>
      rw [gained_of_busy rfl]
      refine .busy rfl ?_ ((answer_toEnd_append out bs count).trans answers)
      simp only [Task.Counts, List.length_append] at counts ⊢
      omega
    | remainder out =>
      rw [gained_of_busy rfl]
      exact .busy rfl trivial answers
  | @finished extent live t call' next =>
    cases call.symm.trans call'
    cases extent with
    | upTo max => exact .of_answer call rfl rfl (answers ▸ rfl)
    | toEnd out count =>
      -- the buffer holds what was there before, and what was counted
      have hcount : (out.drop (out.length - count)).length = count := by
        simp only [Task.Counts] at counts
        rw [List.length_drop]
        omega
      refine .of_answer call rfl rfl ?_
      rw [← answers]
      simp only [Task.answer, Answer.yield, hcount, List.take_append_drop]
    | remainder out => exact .of_answer call rfl rfl (answers ▸ rfl)
  | gap call' next nobody =>
    exact .of_failure call rfl rfl (giveUp_answer rfl).2
  | pending call' next somebody =>
    cases call.symm.trans call'
    exact hon rfl
  | wake call' woken => cases call.symm.trans call'; exact hon rfl
  | stir call' stopped => cases call.symm.trans call'; exact hon rfl

theorem Engaged.congr (h : Engaged answer r got)
    (hc : r'.call = r.call) (hans : r'.answer = r.answer) :
    Engaged answer r' got := by
  cases h with
  | busy call counts answers => exact .busy (hc.trans call) counts answers
  | failed call ans fails =>
    exact .failed (hc.trans call) (hans.trans ans) fails
  | returned call ans => exact .returned (hc.trans call) (hans.trans ans)

theorem Engaged.step (h : Engaged answer r got) {e : Event}
    (he : e.isPlain = true) (hcall : e.isCall = false)
    (hs : r.step e = some r') : Engaged answer r' (got ++ gained r r') := by
  have hsame (hc : r'.call = r.call) (hans : r'.answer = r.answer) :
      Engaged answer r' (got ++ gained r r') := by
    rw [gained_of_call_eq hc, List.append_nil]
    exact h.congr hc hans
  cases step_cases hs with
  | work work => exact hsame (call_of_work work).1 (call_of_work work).2.1
  | advance advance => exact h.advance advance
  | nothing idle => cases hcall
  | begin idle asks => cases asks <;> cases hcall
  | arrive arrives => exact hsame rfl rfl
  | _ => cases he

theorem Engaged.stride (h : Engaged answer r got) {e : Event}
    (he : e.isPlain = true) (hcall : e.isCall = false)
    (hs : r.stride e = some r') :
    Engaged answer r' (got ++ gained r r') := by
  rcases stride_cases hs with ⟨hstep, _⟩ | ⟨r₁, h₁, h₂, hwhich⟩
  · exact h.step he hcall hstep
  · have h' := (h.step he hcall h₁).step he hcall h₂
    obtain ⟨hnil, hgain⟩ := gained_stride h₁ hwhich h₂
    rwa [hnil, List.append_nil, hgain] at h'

theorem engaged_run {es : List Event}
    (hes : ∀ e ∈ es, e.isPlain = true ∧ e.isCall = false)
    (h : Engaged answer r []) (hrun : run Reader.stride r es = some r') :
    Engaged answer r' (obtained Reader.stride r es) :=
  follow (P := fun _ log r => Engaged answer r log) h
    (fun _ e _ _ _ hfront h hs =>
      have he := hes e (hfront.subset (by simp))
      h.stride he.1 he.2 hs) hrun

end Engaged

/-! ## What was returned as a whole -/

/-- The answer says that everything was returned. -/
def Answer.isWhole : Answer → Bool
  | .appended .. | .message _ => true
  | _ => false

/-- A call begins only when the one before is over. -/
theorem idle_of_isCall {r r' : Reader} {e : Event} (he : e.isCall = true)
    (hs : r.step e = some r') : r.call = none := by
  cases step_cases hs with
  | nothing idle => exact idle
  | begin idle asks => exact idle
  | arrive arrives => cases arrives <;> cases he
  | _ => cases he

/-- Without a call, the answer stays what it was unless a call begins. -/
theorem answer_of_idle {r r' : Reader} {e : Event} (he : e.isPlain = true)
    (hs : r.stride e = some r') (hidle : r.call = none)
    (hover : r'.call = none) {a : Answer} (hans : r'.answer = some a)
    (hwhole : a.isWhole = true) : r.answer = some a := by
  have hwork {i : Nat} {r r' : Reader} (h : r.work i = some r') :=
    (call_of_work h).2.1
  have hadvance : r.advance = none := advance_eq_none_iff.2 (.inl hidle)
  rcases stride_cases hs with ⟨hstep, _⟩ |
    ⟨r₁, h₁, h₂, ⟨i, rfl, _⟩ | ⟨rfl, _⟩⟩
  · cases step_cases hstep with
    | work work => exact hwork work ▸ hans
    | advance advance =>
      rw [hadvance] at advance
      cases advance
    | nothing idle =>
      cases hans
      cases hwhole
    | begin idle asks => cases hover
    | arrive arrives => exact hans
    | _ => cases he
  · exact hwork h₁ ▸ hwork h₂ ▸ hans
  · rw [show r.step .advance = r.advance from rfl, hadvance] at h₁
    cases h₁

/-- **Who has got everything, has got it from good inputs.** -/
theorem good_of_run {n : Nat} {config : Config} {r₀ r : Reader}
    {es : List Event} (hmake : make n config = .ok r₀)
    (hes : ∀ e ∈ es, e.isPlain = true) (hrun : run stride r₀ es = some r)
    (hover : r.call = none) {a : Answer} (hans : r.answer = some a)
    (hwhole : a.isWhole = true) :
    Good n config.maxPayloadLen (arrived es) (obtained stride r₀ es) ∧
      n < Intake.countLimit := by
  have hall := follow (g := gained) (P := fun past log r => (∃ rows, Serves n
      config.maxPayloadLen (arrived past) rows log r ∧ r.Settled) ∧
      (r.call = none → ∀ a, r.answer = some a → a.isWhole = true →
        Good n config.maxPayloadLen (arrived past) log ∧
          n < Intake.countLimit)) ?_ ?_ hrun
  · exact hall.2 hover a hans hwhole
  · refine ⟨⟨_, serves_make hmake, settled_make hmake⟩, ?_⟩
    obtain ⟨_, _, rfl⟩ := make_eq_ok hmake
    intro _ a hans
    cases hans
  · rintro past e log r r' hfront ⟨⟨rows, hserves, hset⟩, hgood⟩ hmove
    have he := hes e (hfront.subset (by simp))
    obtain ⟨rows', _, hserves'⟩ := hserves.stride he hmove
    rw [arrived_concat]
    refine ⟨⟨rows', hserves', hset.stride hmove⟩,
      fun hover a hans hwhole => ?_⟩
    cases hbusy : r.call with
    | none =>
      obtain ⟨h, hn⟩ := hgood hbusy a
        (answer_of_idle he hmove hbusy hover hans hwhole) hwhole
      rw [gained_of_idle hbusy, List.append_nil, ← arrived_concat]
      exact ⟨h.later fun i _ => arrived_front ⟨[e], rfl⟩ i, hn⟩
    | some call =>
      have hend : a.isEnd = true := by cases a <;> first | rfl | cases hwhole
      obtain ⟨rfl, hy⟩ := hserves.stride_ends hset he hmove
        ⟨by simp [hbusy], hover, a, hans, hend⟩
      obtain ⟨out, hinv, _⟩ := hserves
      exact ⟨⟨rows, hy⟩, hinv.lt_countLimit hy⟩

/-! ## The last call of a user -/

/-- The answer that a call is for, as far as it is known before. -/
def Event.answer : Event → Bytes → Answer
  | .readToEnd out, bs => .appended bs.length (out ++ bs)
  | _, bs => .message bs

/-- A run that ends at rest in `r`. `call` is the last call of the user,
for the message or for all that is left of the stream. All of the inputs
have arrived, and they have ended. -/
structure Concludes (n : Nat) (inputs : Nat → Inlet) (r₀ : Reader)
    (before : List Event) (call : Event) (after : List Event)
    (r : Reader) : Prop where
  run : run stride r₀ (before ++ call :: after) = some r
  kind : call = .message ∨ ∃ out, call = .readToEnd out
  plain : ∀ e ∈ before ++ after, e.isPlain = true
  first : .message ∉ before
  last : ∀ e ∈ after, e.isCall = false
  brings : Brings n inputs (before ++ call :: after)
  whole : ∀ i < n, (arrived (before ++ call :: after) i).tape =
      (inputs i).tape ∧
    (arrived (before ++ call :: after) i).ended = true
  quiet : r.Quiet

section Concludes

variable {n : Nat} {config : Config} {inputs : Nat → Inlet}
  {r₀ r : Reader} {before after : List Event} {call : Event}

theorem Concludes.plain_all (h : Concludes n inputs r₀ before call after r) :
    ∀ e ∈ before ++ call :: after, e.isPlain = true := by
  intro e he
  rcases List.mem_append.1 he with hb | ha
  · exact h.plain e (List.mem_append_left _ hb)
  · rcases List.mem_cons.1 ha with rfl | ha
    · rcases h.kind with rfl | ⟨out, rfl⟩ <;> rfl
    · exact h.plain e (List.mem_append_right _ ha)

theorem Concludes.orderly (h : Concludes n inputs r₀ before call after r) :
    Orderly (before ++ call :: after) := by
  intro past e hfront hcall hmem
  have hpast : past <+: before ++ call :: after :=
    (List.prefix_append past [e]).trans hfront
  rcases List.prefix_or_prefix_of_prefix hpast
    (List.prefix_append before _) with hle | ⟨past', rfl⟩
  · exact h.first (hle.subset hmem)
  · rw [List.append_assoc, List.prefix_append_right_inj] at hfront
    cases past' with
    | nil =>
      rw [List.append_nil] at hmem
      exact h.first hmem
    | cons c past' =>
      -- the event comes after the last call
      rw [List.cons_append, List.cons_prefix_cons] at hfront
      have hno := h.last e (hfront.2.subset (by simp))
      rw [hcall] at hno
      cases hno

/-- A call for the message, or for all that is left, is in flight once it
has begun. -/
theorem engaged_begin {r r' : Reader}
    (hk : call = .message ∨ ∃ out, call = .readToEnd out)
    (hs : r.step call = some r') : Engaged call.answer r' [] := by
  rcases hk with rfl | ⟨out, rfl⟩
  · cases step_cases hs with
    | begin idle asks => cases asks <;> exact .busy rfl trivial rfl
    | arrive arrives => cases arrives
  · cases step_cases hs with
    | begin idle asks =>
      cases asks
      refine .busy rfl (Nat.zero_le _) ?_
      funext bs
      simp [Task.answer, Event.answer]
    | arrive arrives => cases arrives

/-- **What the last call comes to**, apart from whether the inputs are
good. -/
theorem Concludes.engaged (h : Concludes n inputs r₀ before call after r) :
    ∃ got, Engaged call.answer r got ∧
      obtained stride r₀ (before ++ call :: after) =
        obtained stride r₀ before ++ got := by
  have hrun := h.run
  rw [run_append] at hrun
  obtain ⟨r₁, hbefore, hrest⟩ := Option.bind_eq_some_iff.1 hrun
  obtain ⟨r₂, hcall, hafter⟩ := Option.bind_eq_some_iff.1 hrest
  have hcalls : call.isCall = true := by
    rcases h.kind with rfl | ⟨out, rfl⟩ <;> rfl
  have hstep : r₁.step call = some r₂ := by
    rcases stride_cases hcall with ⟨hstep, _⟩ |
      ⟨_, _, _, ⟨i, rfl, _⟩ | ⟨rfl, _⟩⟩
    · exact hstep
    · cases hcalls
    · cases hcalls
  have hengaged := engaged_run (fun e he =>
    ⟨h.plain e (List.mem_append_right _ he), h.last e he⟩)
    (engaged_begin h.kind hstep) hafter
  refine ⟨_, hengaged, ?_⟩
  have hall : obtained stride r₀ (before ++ call :: after) =
      obtained stride r₀ before ++ obtained stride r₁ (call :: after) :=
    logged_append _ hbefore
  rw [hall]
  simp [obtained, logged, hcall,
    gained_of_idle (idle_of_isCall hcalls hstep)]

/-- **What the last call comes to.** It is over. It has returned all that
was not read before, and the inputs are good; or it has failed, and they
are not, or are those of too many connections. -/
theorem Concludes.outcome (h : Concludes n inputs r₀ before call after r)
    (hmake : make n config = .ok r₀)
    (hsize : ∀ m, Good n config.maxPayloadLen inputs m →
      m.length ≤ maxCount) :
    r.call = none ∧
      ((∃ rest, r.answer = some (call.answer rest) ∧
          n < Intake.countLimit ∧ Good n config.maxPayloadLen inputs
            (obtained stride r₀ before ++ rest)) ∨
        (∃ a, r.answer = some a ∧ a.isFailure = true) ∧
          ∀ m, ¬ (n < Intake.countLimit ∧
            Good n config.maxPayloadLen inputs m)) := by
  have hplain := h.plain_all
  obtain ⟨rows, ⟨out, hinv, _⟩, _⟩ := serves_run hmake hplain h.run
  have hover := hinv.over_of_ended h.quiet fun i hi => (h.whole i hi).2
  refine ⟨hover, ?_⟩
  obtain ⟨got, hengaged, hall⟩ := h.engaged
  cases hengaged with
  | busy hcall _ _ =>
    rw [hover] at hcall
    cases hcall
  | failed _ ans fails =>
    refine .inr ⟨⟨_, ans, fails⟩, fun m ⟨hn, hgood⟩ => ?_⟩
    -- with good inputs nothing would have failed
    have hm := hsize m hgood
    obtain ⟨plan, hy⟩ := hgood
    obtain ⟨_, hfares⟩ := fares_run hmake hplain h.orderly
      (fun past hpast => Promises.of_brings h.brings hn hm hy hpast) h.run
    rw [hfares.success _ ans] at fails
    cases fails
  | returned _ ans =>
    have hwhole : (call.answer got).isWhole = true := by
      rcases h.kind with rfl | ⟨out, rfl⟩ <;> rfl
    obtain ⟨hgood, hn⟩ := good_of_run hmake hplain h.run hover ans hwhole
    rw [hall] at hgood
    exact .inl ⟨got, ans, hn, hgood.later fun i hi =>
      (h.whole i hi).1 ▸ List.prefix_rfl⟩

/-- What was read before the last call is the beginning of the message. -/
theorem Concludes.front (h : Concludes n inputs r₀ before call after r)
    (hmake : make n config = .ok r₀)
    (hsize : ∀ m, Good n config.maxPayloadLen inputs m →
      m.length ≤ maxCount) {m : Bytes} (hn : n < Intake.countLimit)
    (hgood : Good n config.maxPayloadLen inputs m) :
    obtained stride r₀ before <+: m := by
  obtain ⟨_, ⟨rest, _, _, hgood'⟩ | ⟨_, hno⟩⟩ := h.outcome hmake hsize
  · exact ⟨rest, hgood'.unique hgood⟩
  · exact absurd ⟨hn, hgood⟩ (hno m)

/-- A call that is the only one was not preceded by anything that was
returned. -/
theorem Concludes.nothing (h : Concludes n inputs r₀ before call after r)
    (hmake : make n config = .ok r₀)
    (honly : ∀ e ∈ before, e.isCall = false) :
    obtained stride r₀ before = [] := by
  have hrun := h.run
  rw [run_append] at hrun
  obtain ⟨r₁, hbefore, _⟩ := Option.bind_eq_some_iff.1 hrun
  have hidle : r₀.call = none := by
    obtain ⟨_, _, rfl⟩ := make_eq_ok hmake
    rfl
  have hstep {r r' : Reader} {e : Event} (he : e ∈ before)
      (hidle : r.call = none) (hs : r.step e = some r') : r'.call = none := by
    have hplain := h.plain e (List.mem_append_left _ he)
    have hcall := honly e he
    cases e with
    | work i => exact (call_of_work hs).1.trans hidle
    | advance =>
      simp [Reader.step, advance_eq_none_iff.2 (.inl hidle)] at hs
    | feed i bs => cases hs; exact hidle
    | fault i cause => cases hs; exact hidle
    | close i => cases hs; exact hidle
    | read max => cases hcall
    | readToEnd out => cases hcall
    | message => cases hcall
    | abandon => cases hplain
    | cancel => cases hplain
    | drop => cases hplain
  refine (follow (P := fun _ log r => r.call = none ∧ log = [])
    ⟨hidle, rfl⟩ ?_ hbefore).2
  rintro past e log r r' hfront ⟨hidle, rfl⟩ hs
  have he : e ∈ before := hfront.subset (by simp)
  rw [gained_of_idle hidle]
  refine ⟨?_, rfl⟩
  rcases stride_cases hs with ⟨h₁, _⟩ | ⟨r₁, h₁, h₂, _⟩
  · exact hstep he hidle h₁
  · exact hstep he (hstep he hidle h₁) h₂

end Concludes

end Stripe.Reader
