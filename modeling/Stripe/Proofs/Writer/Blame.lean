import Stripe.Proofs.Writer.Ruin

/-!
# Which failure a user is told

A call that cannot hand a segment over tells what was recorded first. If
nothing was, it tells that the writer was stopped, or that no worker is
there any more (`blame`). The next calls tell the same (`Declines.step`),
unless a user stops the writer in between. Then the writer is finished,
and that may tell something else: it looks at what has become of the
workers, and so comes to the losses that nobody has recorded before
(`first_error`).
-/

namespace Stripe.Writer

open Segment Handoff Barrier

/-- What a call tells that could not hand a segment over. -/
def blame (failure : Option Error) (stopped : Bool) : Error :=
  failure.getD (if stopped then .cancelled else .channelError)

/-- The job is not to finish the writer, and hands a byte over next, in a
segment of at most `max` bytes. -/
def Job.Offers (max : Nat) : Job → Prop
  | .write bytes | .writeAll bytes => bytes ≠ []
  | .copy source _ ended last => ended = false ∧ last = false ∧
      (fill max source).1 ≠ [] ∧ (fill max source).2.2 = none
  | _ => False

/-- A call begins that has a byte to hand over, in a segment of at most
`max` bytes. -/
def Event.Offers (max : Nat) : Event → Prop
  | .write bytes | .writeAll bytes => bytes ≠ []
  | .copyFrom source =>
    (fill max source).1 ≠ [] ∧ (fill max source).2.2 = none
  | _ => False

/-- The writer sends nothing more, and is not being finished; `failure` was
recorded. -/
structure Reports (failure : Option Error) (w : Writer) : Prop where
  ruined : w.Ruined
  running : w.stage = .running
  same : w.failure = failure
  plain : ∀ c, w.call = some c → c.finishes = false

/-- A call is about to fail, or has failed, after `failure` was recorded.
`stopped` says whether the writer had been stopped when it began. -/
inductive Declines (failure : Option Error) (stopped : Bool)
    (w : Writer) : Prop where
  | opening {job : Job} (call : w.call = some (.opening job))
      (offers : job.Offers w.config.maxSegmentLen) :
      Declines failure stopped w
  | working {job : Job} (call : w.call = some (.working job))
      (offers : job.Offers w.config.maxSegmentLen) :
      Declines failure stopped w
  | offering {s : Segment} {job : Job}
      (call : w.call = some (.offering s job)) :
      Declines failure stopped w
  | ended {now : Bool} (call : w.call = none)
      (since : stopped = true → now = true)
      (halted : now = true → w.cancelled = true)
      (answer : w.answer = some (.failed (blame failure now))) :
      Declines failure stopped w

section Blame

variable {n : Nat} {es : List Event} {k : Record} {loose : Prop}
  {rows done : Nat → List Segment} {fed : List Segment} {w w' : Writer}
  {e : Event} {failure : Option Error} {stopped : Bool}

/-! ## Calls that do not finish the writer -/

theorem Event.Offers.plain {max : Nat} (he : e.Offers max) :
    e.finishes = false ∧ e ≠ .drop := by
  cases e with
  | write bytes | writeAll bytes | copyFrom source => exact ⟨rfl, nofun⟩
  | _ => exact he.elim

theorem Event.plain_of_patient (he : e.isPatient = true) :
    e.finishes = false ∧ e ≠ .drop := by
  cases e with
  | sendFrom source | finish | drop => cases he
  | _ => exact ⟨rfl, nofun⟩

/-- A call that is not to finish the writer is over when it cannot go
on. -/
theorem reject_plain {job : Job} (hj : job.finishes = false) (e : Error)
    (w : Writer) : w.reject e job = w.conclude (.failed e) := by
  cases job with
  | copy source count ended last =>
    cases last with
    | true => cases hj
    | false => rfl
  | finish copied => cases hj
  | _ => rfl

theorem plain_advance (hm : 0 < w.config.maxSegmentLen)
    (hrun : w.stage = .running)
    (hplain : ∀ c, w.call = some c → c.finishes = false)
    (ha : w.advance = some w') :
    w'.stage = .running ∧ w'.failure = w.failure := by
  have hreject {v : Writer} {e : Error} {job : Job}
      (hj : job.finishes = false) (hs : v.stage = .running)
      (hf : v.failure = w.failure) :
      (v.reject e job).stage = .running ∧
        (v.reject e job).failure = w.failure := by
    rw [reject_plain hj]
    exact ⟨hs, hf⟩
  cases advance_cases hm ha with
  | start call stage =>
    rw [hrun] at stage
    cases stage
  | resume call stage => exact ⟨hrun, rfl⟩
  | late call stage => exact hreject (hplain _ call) hrun rfl
  | abort call stopped => exact hreject (hplain _ call) hrun rfl
  | hand call going send => exact ⟨hrun, rfl⟩
  | alone call going send fails waits =>
    exact hreject (hplain _ call) hrun rfl
  | proceed call proceeds =>
    have hj := hplain _ call
    cases proceeds with
    | broken fill => exact hreject hj hrun rfl
    | turn => cases hj
    | close => cases hj
    | _ => exact ⟨hrun, rfl⟩
  | announce call owner => cases hplain _ call
  | tally call owner count => cases hplain _ call
  | settle call owner count => cases hplain _ call
  | shut call lt => cases hplain _ call
  | conclude call le => cases hplain _ call

/-- **Nothing is recorded any more** until the writer is finished. -/
theorem Reports.step (hr : w.Reports failure)
    (h : Inv n loose rows done fed w) (hf : e.finishes = false)
    (hd : e ≠ .drop) (hs : w.step e = some w') : w'.Reports failure := by
  suffices hsame : w'.stage = .running ∧ w'.failure = w.failure by
    refine ⟨(hr.ruined.step h hs).1, hsame.1, hsame.2.trans hr.same, ?_⟩
    intro c' hc'
    cases hfin : c'.finishes with
    | false => rfl
    | true =>
      rcases (h.onward hs).finishes c' hc' hfin with he | ⟨c, hc, hfin⟩
      · rw [hf] at he
        cases he
      · rw [hr.plain c hc] at hfin
        cases hfin
  cases step_cases hs with
  | work work =>
    have hworked := h.worked work
    obtain ⟨_, hstage, _⟩ := hworked.frame
    obtain ⟨_, _, hfail⟩ := hr.ruined.work hworked
    exact ⟨hstage.trans hr.running, hfail⟩
  | advance advance => exact plain_advance h.maxLen hr.running hr.plain advance
  | begin idle begins => exact ⟨hr.running, rfl⟩
  | abandon busy =>
    exact ⟨(stage_abandon w).trans hr.running, failure_abandon w⟩
  | cancel => exact ⟨hr.running, rfl⟩
  | drop => exact absurd rfl hd
  | room i m => exact ⟨hr.running, rfl⟩

/-! ## The first failure -/

/-- **A call that fails**, and not because of its source, has found that
the writer was stopped or that every worker was lost. -/
theorem Reached.refused (h : Reached n es k loose rows done w) {c : Call}
    (hc : w.call = some c) (hplain : c.finishes = false)
    (ha : w.advance = some w') (hover : w'.call = none) {err : Error}
    (hans : w'.answer = some (.failed err))
    (hsource : ∀ cause, err ≠ .source cause) (hopen : err ≠ .writerClosed) :
    err = blame w'.failure w'.cancelled ∧ w'.Reports w'.failure := by
  have hj {c' : Call} (call : w.call = some c') : c'.finishes = false := by
    rw [hc] at call
    exact Option.some.inj call ▸ hplain
  -- a call that offers a segment has ended, with `w` otherwise as it was
  have hreports {s : Segment} {job : Job} {v : Writer} {e : Error}
      (call : w.call = some (.offering s job)) (hv : v.Ruined)
      (hstage : v.stage = w.stage) (he : e = blame v.failure v.cancelled)
      (hw' : v.reject e job = w') :
      err = blame w'.failure w'.cancelled ∧ w'.Reports w'.failure := by
    have hjob : job.finishes = false := hj call
    rw [reject_plain hjob] at hw'
    subst hw'
    obtain rfl : e = err := by simpa [conclude] using hans
    have hrunning := hstage.trans (h.inv.calling.offering _ _ call).1
    refine ⟨he, ⟨hv.begun, hv.why, hv.calm⟩, hrunning, rfl, ?_⟩
    rintro c' ⟨⟩
  cases advance_cases h.inv.maxLen ha with
  | start call stage => cases hover
  | resume call stage => cases hover
  | @late job call stage =>
    have hjob : job.finishes = false := hj call
    rw [reject_plain hjob] at hans
    exact absurd (by simpa [conclude] using hans.symm) hopen
  | abort call stopped =>
    have hrunning := (h.inv.calling.offering _ _ call).1
    refine hreports call ⟨by simp [hrunning], .inl stopped,
      h.inv.calm (by simp [hrunning])⟩ rfl ?_ rfl
    simp [blame, reason, stopped]
  | @alone s job r h' call going send fails waits =>
    have hrunning := (h.inv.calling.offering _ _ call).1
    have hloose : ¬ loose := by
      intro hl
      have := (h.spent hl).1
      rw [hrunning] at this
      cases this
    refine hreports (v := { w with handoff := h' }) call
      ⟨by simp [hrunning], .inr ?_, h.inv.calm (by simp [hrunning])⟩ rfl ?_
      rfl
    · intro i hi
      obtain ⟨lane, hl⟩ := h.inv.lane_of_lt (i := i) (by
        rw [← h.inv.size]
        exact hi)
      exact h.inv.lost_of_over (by simp [hrunning]) hloose going hl
        (h.inv.over_of_refused hloose hrunning send fails waits _
          (List.mem_of_getElem? (phases_eq_some hl)))
    · simp [blame, going]
  | hand call going send => cases hover
  | proceed call proceeds =>
    cases proceeds with
    | @broken source rest bytes cause count last fill =>
      have hlast : (Job.copy source count false last).finishes = false :=
        hj call
      have hrest : (Job.copy rest count false last).finishes = false :=
        hlast
      rw [reject_plain hrest] at hans
      exact absurd (by simpa [conclude] using hans.symm) (hsource cause)
    | nothing => cases hans
    | wrote => cases hans
    | sent => cases hans
    | copied => cases hans
    | _ => cases hover
  | announce call owner => cases hj call
  | tally call owner count => cases hj call
  | settle call owner count => cases hj call
  | shut call lt => cases hj call
  | conclude call le => cases hj call

/-! ## The next ones -/

theorem declines_launch {max : Nat} (he : e.Offers max)
    (hmax : max = w.config.maxSegmentLen) (hs : w.step e = some w') :
    w'.Declines failure stopped := by
  subst hmax
  cases step_cases hs with
  | begin idle begins =>
    refine .opening rfl ?_
    cases begins with
    | write => exact he
    | writeAll => exact he
    | copyFrom => exact ⟨rfl, rfl, he⟩
    | _ => exact he.elim
  | _ => exact he.elim

theorem Declines.advance (hd : w.Declines failure stopped)
    (hr : w.Reports failure) (h : Inv n loose rows done fed w)
    (hstop : stopped = true → w.cancelled = true)
    (ha : w.advance = some w') : w'.Declines failure stopped := by
  cases hd with
  | opening call offers =>
    simp only [Writer.advance, call, openWith, hr.running,
      Option.some.injEq] at ha
    exact ha ▸ .working rfl offers
  | @working job call offers =>
    simp only [Writer.advance, call, Option.some.injEq] at ha
    subst ha
    have hp := proceed_cases w h.maxLen job
    generalize w.proceed job = v at hp
    cases hp with
    | nothing => exact absurd rfl offers
    | sent => exact absurd rfl offers
    | wrote => exact offers.elim
    | close => exact offers.elim
    | copied => cases offers.1
    | turn => cases offers.1
    | broken fill =>
      have hfine := offers.2.2.2
      rw [fill] at hfine
      cases hfine
    | drained fill => exact absurd (by rw [fill]) offers.2.2.1
    | piece pos => exact .offering rfl
    | chunk pos => exact .offering rfl
    | cut pos fill => exact .offering rfl
  | @offering s job call =>
    have hj : job.finishes = false := hr.plain _ call
    have hover {v : Writer} (hv : v.cancelled = w.cancelled) :
        ((v.reject (blame failure w.cancelled) job).Declines
          failure stopped) := by
      rw [reject_plain hj]
      exact .ended rfl hstop hv.trans rfl
    cases advance_cases h.maxLen ha with
    | abort call' stopped =>
      rw [call] at call'
      cases call'
      have : w.reason = blame failure w.cancelled := by
        simp [blame, reason, stopped, hr.same]
      rw [this]
      exact hover rfl
    | alone call' going send fails waits =>
      rw [call] at call'
      cases call'
      have : w.failure.getD .channelError = blame failure w.cancelled := by
        simp [blame, going, hr.same]
      rw [this]
      exact hover rfl
    | @hand _ _ i _ call' going send =>
      rw [call] at call'
      cases call'
      have hno := (hr.ruined.send h going s).1 i
      rw [send] at hno
      exact absurd rfl hno
    | proceed call' proceeds =>
      rw [call] at call'
      cases call'
    | _ call' =>
      rw [call] at call'
      cases call'
  | ended call since halted answer => simp [Writer.advance, call] at ha

/-- **A call that has a byte to hand over** goes on to fail. -/
theorem Declines.step (hd : w.Declines failure stopped)
    (hr : w.Reports failure) (h : Inv n loose rows done fed w)
    (hstop : stopped = true → w.cancelled = true)
    (he : e.isPatient = true) (hs : w.step e = some w') :
    w'.Declines failure stopped := by
  by_cases hadv : e = .advance
  · subst hadv
    exact hd.advance hr h hstop hs
  obtain ⟨hcall, hans, _⟩ := h.aside he hadv hs
  have honward := h.onward hs
  cases hd with
  | opening call offers =>
    exact .opening (hcall.trans call) (honward.config ▸ offers)
  | working call offers =>
    exact .working (hcall.trans call) (honward.config ▸ offers)
  | offering call => exact .offering (hcall.trans call)
  | ended call since halted answer =>
    exact .ended (hcall.trans call) since
      (fun hnow => honward.cancelled (halted hnow)) (hans.trans answer)

/-! ## Finishing after that -/

theorem transport_of_loss {err : Error} (h : w.loss = some err) :
    ∃ i cause, err = .transport i cause := by
  obtain ⟨i, _, hi⟩ := List.exists_of_findSome?_eq_some h
  unfold lossAt at hi
  split at hi
  · exact ⟨_, _, (Option.some.inj hi).symm⟩
  · cases hi

theorem loss_congr (hl : w'.lossAt = w.lossAt)
    (hc : w'.connections = w.connections) : w'.loss = w.loss := by
  rw [loss, loss, hc, lossBelow_congr hl]

/-- `finish` tells the same as the call that has failed if that had been
recorded, or if no worker was lost. -/
theorem Reports.same_iff (hr : w.Reports failure)
    (h : Inv n loose rows done fed w) :
    (failure.or w.loss).getD .cancelled = blame failure w.cancelled ↔
      failure.isSome = true ∨ w.loss = none := by
  cases failure with
  | some f => simp [blame]
  | none =>
    cases hl : w.loss with
    | none =>
      have hstop : w.cancelled = true := by
        by_cases hgo : w.cancelled = true
        · exact hgo
        · have hsome := hr.ruined.lossBelow_isSome h (by simpa using hgo)
            (Nat.le_refl _)
          rw [show w.lossBelow w.connections = none from hl] at hsome
          cases hsome
      simp [blame, hstop]
    | some err =>
      obtain ⟨i, cause, rfl⟩ := transport_of_loss hl
      cases hc : w.cancelled <;> simp [blame]

theorem Reports.along (hr : w.Reports failure)
    (h : Reached n es k loose rows done w) {more : List Event}
    (hmore : ∀ e ∈ more, e.finishes = false ∧ e ≠ .drop)
    (hrun : run Writer.step w more = some w') :
    (w'.Reports failure ∧ w'.lossAt = w.lossAt ∧
      w'.config = w.config ∧ (w.cancelled = true → w'.cancelled = true)) ∧
    ∃ es k loose rows done, Reached n es k loose rows done w' := by
  refine h.always (P := fun v => v.Reports failure ∧
    v.lossAt = w.lossAt ∧ v.config = w.config ∧
    (w.cancelled = true → v.cancelled = true))
    ⟨hr, rfl, rfl, id⟩ ?_ hrun
  intro _ _ _ _ _ v v' e he hv ⟨hrep, hloss, hconfig, hstop⟩ hs
  have honward := hv.inv.onward hs
  obtain ⟨hfin, hdrop⟩ := hmore e he
  exact ⟨hrep.step hv.inv hfin hdrop hs,
    (hrep.ruined.step hv.inv hs).2.trans hloss,
    honward.config.trans hconfig, fun hs => honward.cancelled (hstop hs)⟩

/-- **A later call** fails, and tells what the first one did. -/
theorem Reports.later (hr : w.Reports failure)
    (h : Reached n es k loose rows done w)
    (he : e.Offers w.config.maxSegmentLen) {w₁ : Writer}
    (hs : w.step e = some w₁) {later : List Event}
    (hlater : ∀ e' ∈ later, e'.isPatient = true)
    (hrun : run Writer.step w₁ later = some w')
    (hstop : stopped = true → w.cancelled = true) :
    later.countP (·.isMove) ≤ w₁.weight ∧ (w'.Quiet → w'.call = none) ∧
    (w'.call = none → ∃ now, (stopped = true → now = true) ∧
      (now = true → w'.cancelled = true) ∧
      w'.answer = some (.failed (blame failure now))) := by
  obtain ⟨_, _, _, h₁⟩ := h.step hs
  have hr₁ := hr.step h.inv he.plain.1 he.plain.2 hs
  have hstop₁ (hst : stopped = true) : w₁.cancelled = true :=
    (h.inv.onward hs).cancelled (hstop hst)
  obtain ⟨⟨hr', _, hd⟩, _, _, _, _, _, h'⟩ := h₁.always
    (P := fun v => v.Reports failure ∧
      (stopped = true → v.cancelled = true) ∧ v.Declines failure stopped)
    ⟨hr₁, hstop₁, declines_launch he rfl hs⟩
    (by
      intro _ _ _ _ _ v v' e' he' hv ⟨hrep, hst, hd⟩ hs'
      have hpatient := hlater e' he'
      obtain ⟨hfin, hdrop⟩ := e'.plain_of_patient hpatient
      exact ⟨hrep.step hv.inv hfin hdrop hs',
        fun hs => (hv.inv.onward hs').cancelled (hst hs),
        hd.step hrep hv.inv hst hpatient hs'⟩) hrun
  obtain ⟨hgrows, hmoves⟩ := h₁.inv.moves_le hlater hrun
  refine ⟨by omega, hr'.ruined.at_rest h', fun hover => ?_⟩
  cases hd with
  | opening call | working call | offering call =>
    rw [hover] at call
    cases call
  | ended call since halted answer => exact ⟨_, since, halted, answer⟩

/-- **`finish`** fails, and tells what was recorded, or else the first
loss. -/
theorem Reports.finish (hr : w.Reports failure)
    (h : Reached n es k loose rows done w) {w₁ : Writer}
    (hs : w.step .finish = some w₁) {later : List Event}
    (hlater : ∀ e' ∈ later, e'.isPatient = true)
    (hrun : run Writer.step w₁ later = some w') :
    later.countP (·.isMove) ≤ w₁.weight ∧ (w'.Quiet → w'.call = none) ∧
    (w'.call = none → w'.answer =
      some (.failed ((failure.or w.loss).getD .cancelled))) := by
  obtain ⟨_, _, _, h₁⟩ := h.step hs
  have hcloses : w₁.Closes failure := by
    obtain ⟨_, rfl⟩ := launch_eq_some hs
    exact .opening rfl hr.running hr.same
  obtain ⟨⟨hr', hloss, hc⟩, _, _, _, _, _, h'⟩ := h₁.always
    (P := fun v => v.Ruined ∧ v.lossAt = w.lossAt ∧ v.Closes failure)
    ⟨(hr.ruined.step h.inv hs).1, (hr.ruined.step h.inv hs).2, hcloses⟩
    (by
      intro _ _ _ _ _ v v' e' he' hv ⟨hruin, hl, hc⟩ hs'
      obtain ⟨hruin', hl'⟩ := hruin.step hv.inv hs'
      exact ⟨hruin', hl'.trans hl,
        hc.step hruin hv.inv (hlater e' he') hs'⟩) hrun
  obtain ⟨hgrows, hmoves⟩ := h₁.inv.moves_le hlater hrun
  refine ⟨by omega, hr'.at_rest h', fun hover => ?_⟩
  rw [hc.told hover, loss_congr hloss (h'.inv.size.trans h.inv.size.symm)]

end Blame

/-- **What a user is told once the writer has failed.** A call that was not
to finish the writer has failed, and not because of its source. What it
tells was recorded first; if nothing was, the writer was stopped, or every
worker was lost.

Until the writer is finished, all calls that have a byte to hand over fail
with the same; only if nothing was recorded and a user stops the writer in
between, they tell that instead. `finish` fails too, with what was recorded
first. If nothing was, it does not tell what the calls have told: it finds
the workers that were lost, and tells the first of these losses. So it
tells the same exactly if something was recorded or nobody was lost. All
these calls are over after a limited number of moves. -/
theorem first_error {outlets : List Outlet} {config : Config}
    {es : List Event} {w₀ w w₁ : Writer} {c : Call} {err : Error}
    (hmake : make outlets config = .ok w₀)
    (hblank : ∀ c ∈ outlets, c.log = #[])
    (hrun : run step w₀ es = some w)
    (hc : w.call = some c) (hplain : c.finishes = false)
    (ha : w.advance = some w₁) (hover : w₁.call = none)
    (hans : w₁.answer = some (.failed err))
    (hsource : ∀ cause, err ≠ .source cause) (hopen : err ≠ .writerClosed) :
    err = blame w₁.failure w₁.cancelled ∧
    (w₁.cancelled = false →
      ∀ i < outlets.length, (w₁.lossAt i).isSome = true) ∧
    ((w₁.failure.or w₁.loss).getD .cancelled = err ↔
      w₁.failure.isSome = true ∨ w₁.loss = none) ∧
    ∀ more v, (∀ e ∈ more, e.finishes = false ∧ e ≠ .drop) →
      run step w₁ more = some v →
      (∀ e v₁, e.Offers config.maxSegmentLen → v.step e = some v₁ →
        ∀ later v', (∀ e' ∈ later, e'.isPatient = true) →
          run step v₁ later = some v' →
          later.countP (·.isMove) ≤ v₁.weight ∧
          (v'.Quiet → v'.call = none) ∧
          (v'.call = none → v'.answer = some (.failed err) ∨
            w₁.failure = none ∧ w₁.cancelled = false ∧
            v'.cancelled = true ∧
            v'.answer = some (.failed .cancelled))) ∧
      (∀ v₁, v.step .finish = some v₁ →
        ∀ later v', (∀ e' ∈ later, e'.isPatient = true) →
          run step v₁ later = some v' →
          later.countP (·.isMove) ≤ v₁.weight ∧
          (v'.Quiet → v'.call = none) ∧
          (v'.call = none → v'.answer = some
            (.failed ((w₁.failure.or w₁.loss).getD .cancelled)))) := by
  obtain ⟨hconfig, _, _, _, h⟩ := reached_run hmake hblank hrun
  obtain ⟨herr, hr⟩ := h.refused hc hplain ha hover hans hsource hopen
  obtain ⟨_, _, _, h₁⟩ := h.step (e := .advance) ha
  have hsize : w₁.connections = outlets.length := h₁.inv.size
  have hconfig₁ : w₁.config = config :=
    (h.inv.onward (e := .advance) ha).config.trans hconfig
  refine ⟨herr, fun hgo => ?_, herr ▸ hr.same_iff h₁.inv, ?_⟩
  · rw [← hsize]
    exact hr.ruined.why.resolve_left (by simp [hgo])
  intro more v hmore hrun₁
  obtain ⟨⟨hrv, hloss, hsame, hstop⟩, _, _, _, _, _, hv⟩ :=
    hr.along h₁ hmore hrun₁
  have hmax : v.config = config := hsame.trans hconfig₁
  refine ⟨fun e v₁ he hs later v' hlater hrun₂ => ?_,
    fun v₁ hs later v' hlater hrun₂ => ?_⟩
  · obtain ⟨hmoves, hrest, htells⟩ :=
      hrv.later hv (by rw [hmax]; exact he) hs hlater hrun₂ hstop
    refine ⟨hmoves, hrest, fun hover₂ => ?_⟩
    obtain ⟨now, hsince, hhalted, hanswer⟩ := htells hover₂
    by_cases heq : blame w₁.failure now = err
    · exact .inl (heq ▸ hanswer)
    · -- a user has stopped the writer since
      have hdiff : w₁.failure = none ∧ w₁.cancelled = false ∧
          now = true := by
        rw [herr] at heq
        cases hf : w₁.failure with
        | some f => simp [blame, hf] at heq
        | none =>
          cases hcan : w₁.cancelled with
          | true => simp [blame, hf, hcan, hsince hcan] at heq
          | false =>
            cases now with
            | true => exact ⟨rfl, rfl, rfl⟩
            | false => simp [blame, hf, hcan] at heq
      obtain ⟨hf, hcan, rfl⟩ := hdiff
      refine .inr ⟨hf, hcan, hhalted rfl, ?_⟩
      rw [hanswer, hf]
      rfl
  · obtain ⟨hmoves, hrest, htells⟩ := hrv.finish hv hs hlater hrun₂
    have hsum : v.loss = w₁.loss :=
      loss_congr hloss (hv.inv.size.trans h₁.inv.size.symm)
    exact ⟨hmoves, hrest, hsum ▸ htells⟩

/-- A connection whose worker is lost after the control segment. -/
def panicking : List Outlet :=
  [{ Outlet.unlimited with fault := some (17, .panic "boom") }]

/-- Four bytes are handed over, the worker is lost with them, and a call
offers four more. -/
def panicEvents : List Event :=
  [.write [1, 2, 3, 4], .advance, .work 0, .advance, .work 0, .work 0,
   .advance, .work 0, .advance, .advance, .work 0, .work 0,
   .write [5, 6, 7, 8], .advance, .advance]

/-- The moves of `finish`, when no worker is there. -/
def lonelyMoves : List Event :=
  [.advance, .advance, .advance, .advance, .advance, .advance]

/-- The call tells that no worker is there. So does the next one, but
`finish` tells that the worker was lost. -/
theorem first_error_panic : ∃ w₀ w w₁ v₁ v' u₁ u',
    make panicking { Config.standard with maxSegmentLen := 4 } = .ok w₀ ∧
    run step w₀ panicEvents = some w ∧ w.advance = some w₁ ∧
    w₁.answer = some (.failed .channelError) ∧
    w₁.step (.write [9]) = some v₁ ∧
    run step v₁ [.advance, .advance, .advance] = some v' ∧
    v'.answer = some (.failed .channelError) ∧
    w₁.step .finish = some u₁ ∧ run step u₁ lonelyMoves = some u' ∧
    u'.answer = some (.failed ((w₁.failure.or w₁.loss).getD .cancelled)) ∧
    w₁.failure = none ∧ w₁.loss.isSome = true := by
  obtain ⟨w₀, w, w₁, v₁, v', u₁, u', hmake, hrun, hc, ha, hover, hans, hv,
      hvrun, hvover, hgo, hu, hurun, huover, hfail, hloss⟩ :
      ∃ w₀ w w₁ v₁ v' u₁ u',
      make panicking { Config.standard with maxSegmentLen := 4 } = .ok w₀ ∧
      run step w₀ panicEvents = some w ∧
      (w.call = some (.offering (w.nextSegment [5, 6, 7, 8]) (.wrote 4))) ∧
      w.advance = some w₁ ∧ w₁.call = none ∧
      w₁.answer = some (.failed .channelError) ∧
      w₁.step (.write [9]) = some v₁ ∧
      run step v₁ [.advance, .advance, .advance] = some v' ∧
      v'.call = none ∧ v'.cancelled = false ∧
      w₁.step .finish = some u₁ ∧ run step u₁ lonelyMoves = some u' ∧
      u'.call = none ∧ w₁.failure = none ∧ w₁.loss.isSome = true :=
    ⟨_, _, _, _, _, _, _, rfl, rfl, rfl, rfl, rfl, rfl, rfl, rfl, rfl, rfl,
      rfl, rfl, rfl, rfl, rfl⟩
  obtain ⟨_, _, _, hcalls⟩ := first_error hmake (by decide) hrun hc rfl ha
    hover hans nofun nofun
  obtain ⟨hnext, hfinish⟩ := hcalls [] w₁ (by decide) rfl
  obtain ⟨_, _, htells⟩ :=
    hnext (.write [9]) v₁ (by simp [Event.Offers]) hv _ v' (by decide) hvrun
  obtain ⟨_, _, hends⟩ := hfinish u₁ hu lonelyMoves u' (by decide) hurun
  refine ⟨w₀, w, w₁, v₁, v', u₁, u', hmake, hrun, ha, hans, hv, hvrun, ?_,
    hu, hurun, hends huover, hfail, hloss⟩
  rcases htells hvover with hsame | ⟨_, _, hstop, _⟩
  · exact hsame
  · rw [hgo] at hstop
    cases hstop

/-- The user is told that no worker is there, and then that a worker was
lost. -/
theorem finish_blames_another : ∃ w₀ w w₁ u₁ u',
    make panicking { Config.standard with maxSegmentLen := 4 } = .ok w₀ ∧
    run step w₀ panicEvents = some w ∧
    w.call = some (.offering (w.nextSegment [5, 6, 7, 8]) (.wrote 4)) ∧
    w.advance = some w₁ ∧ w₁.call = none ∧
    w₁.answer = some (.failed .channelError) ∧
    w₁.step .finish = some u₁ ∧ run step u₁ lonelyMoves = some u' ∧
    u'.call = none ∧ u'.answer = some (.failed (.transport 0 ⟨.other,
      "워커 비정상 종료: task # panicked with message \"boom\""⟩)) :=
  ⟨_, _, _, _, _, rfl, rfl, rfl, rfl, rfl, rfl, rfl, rfl, rfl, rfl⟩

end Stripe.Writer
