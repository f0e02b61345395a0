import Stripe.Proofs.Writer.Flow
import Stripe.Proofs.Writer.Rest
import Stripe.Proofs.Writer.Wires

/-!
# A writer that was stopped

Once a writer was stopped, by a user or by the first failure, no byte comes
onto a wire any more (`Inv.frozen`): every worker asks for that before each
write call. A call that has a byte to hand over, or is to finish the
writer, fails (`Fails.step`), and it does not wait for long
(`Reached.at_rest`). `stopped_for_good` puts this together.
-/

namespace Stripe.Writer

open Segment Handoff Barrier

/-- A job that a stopped writer does not carry out. -/
def Job.Doomed : Job → Prop
  | .write bytes | .writeAll bytes => bytes ≠ []
  | .wrote _ => False
  | .copy source _ ended last =>
    last = true ∨ ended = false ∧ (Inlet.script source).content ≠ []
  | .finish _ => True

def Call.Doomed : Call → Prop
  | .opening job | .working job => job.Doomed
  | .offering .. | .stopping .. | .shutting .. => True

/-- The call in flight will fail, or has failed. -/
def Fails (w : Writer) : Prop :=
  (∃ c, w.call = some c ∧ c.Doomed) ∨
    w.call = none ∧ ∃ e, w.answer = some (.failed e)

/-- A call with a byte to hand over, or to finish the writer, begins. -/
def Event.asks (e : Event) : Prop :=
  e.isCall = true ∧ (e.content ≠ [] ∨ e.finishes = true)

/-- The call in flight is not given up. -/
def Event.isPatient : Event → Bool
  | .work _ | .advance | .cancel | .room .. => true
  | _ => false

section Halt

variable {n : Nat} {es : List Event} {k : Record} {loose : Prop}
  {rows done : Nat → List Segment} {fed : List Segment} {w w' : Writer}
  {e : Event}

/-! ## The wires -/

/-- A worker that finds the writer stopped writes nothing. -/
theorem Worked.spares {i : Nat} (h : Worked i w w')
    (hstop : w.cancelled = true) : Spares w w' := by
  have hgoes (going : w.cancelled = false) : Spares w w' := by
    rw [hstop] at going
    cases going
  cases h with
  | begin lane slot => exact .of_set lane rfl rfl rfl rfl
  | post lane slot receives slot' queue => exact .of_lanes rfl rfl
  | ask lane empty disturbed => exact .of_set lane rfl rfl rfl rfl
  | quit lane receives => exact .of_set lane rfl rfl rfl rfl
  | last lane judges taken => exact .of_set lane rfl rfl rfl rfl
  | obey lane judges taken => exact .of_set lane rfl rfl rfl rfl
  | dismiss lane judges why => exact .of_set lane rfl rfl rfl rfl
  | back lane judges why going => exact hgoes going
  | halt lane part stopped => exact .of_set lane rfl rfl rfl rfl
  | more lane part going write => exact hgoes going
  | written lane part going write => exact hgoes going
  | failed lane part going write => exact hgoes going
  | panicked lane part going write => exact hgoes going
  | flushed lane flush => exact .of_set lane rfl rfl rfl rfl
  | unflushed lane flush => exact .of_set lane rfl rfl rfl rfl

/-- **No byte comes onto a wire** of a writer that was stopped. -/
theorem Inv.frozen (h : Inv n loose rows done fed w)
    (hstop : w.cancelled = true) (hs : w.step e = some w') (i : Nat) :
    w'.wire i = w.wire i := by
  cases step_cases hs with
  | work work => exact ((h.worked work).spares hstop).wire i
  | advance advance => exact (spares_advance h.maxLen advance).wire i
  | begin idle begins => exact (spares_begin w _).wire i
  | abandon busy => exact (Spares.of_lanes (by simp) (by simp)).wire i
  | cancel => rfl
  | drop => exact (Spares.of_lanes (by simp) (by simp)).wire i
  | room j m => exact wire_grantRoom w j m i

/-- So it is in every run. -/
theorem Reached.frozen (h : Reached n es k loose rows done w)
    (hstop : w.cancelled = true) {more : List Event}
    (hrun : run Writer.step w more = some w') :
    (w'.cancelled = true ∧ ∀ i, w'.wire i = w.wire i) ∧
      ∃ es k loose rows done, Reached n es k loose rows done w' := by
  refine h.always (P := fun v =>
    v.cancelled = true ∧ ∀ i, v.wire i = w.wire i)
    ⟨hstop, fun _ => rfl⟩ ?_ hrun
  intro _ _ _ _ _ v v' e _ hv hkept hs
  exact ⟨(hv.inv.onward hs).cancelled hkept.1, fun i =>
    (hv.inv.frozen hkept.1 hs i).trans (hkept.2 i)⟩

/-! ## The calls -/

theorem fails_reject (v : Writer) (e : Error) (job : Job) :
    (v.reject e job).Fails := by
  generalize hr : v.reject e job = v'
  cases reject_cases hr with
  | turn => exact .inl ⟨_, rfl, trivial⟩
  | close stage => exact .inl ⟨_, rfl, trivial⟩
  | fails e' => exact .inr ⟨rfl, e', rfl⟩

/-- A call goes on with a job that will fail. -/
theorem fails_proceed {job : Job} (hm : 0 < w.config.maxSegmentLen)
    (hd : job.Doomed) (hp : Proceeds w job w') : w'.Fails := by
  cases hp with
  | nothing => exact absurd rfl hd
  | wrote => exact hd.elim
  | sent => exact absurd rfl hd
  | piece pos => exact .inl ⟨_, rfl, trivial⟩
  | chunk pos => exact .inl ⟨_, rfl, trivial⟩
  | cut pos fill => exact .inl ⟨_, rfl, trivial⟩
  | broken fill => exact fails_reject _ _ _
  | @drained source rest count last fill =>
    refine .inl ⟨_, rfl, .inl ?_⟩
    rcases hd with hlast | ⟨_, hne⟩
    · exact hlast
    · -- the source had a byte, and was asked for one
      rw [content_fill fill, fill_short fill hm] at hne
      exact absurd rfl hne
  | copied =>
    rcases hd with hlast | ⟨hended, _⟩
    · cases hlast
    · cases hended
  | turn => exact .inl ⟨_, rfl, trivial⟩
  | close => exact .inl ⟨_, rfl, trivial⟩

/-- **A call that will fail goes on to do so.** -/
theorem Fails.advance (hf : w.Fails) (hm : 0 < w.config.maxSegmentLen)
    (hstop : w.cancelled = true) (ha : w.advance = some w') : w'.Fails := by
  have hdoomed {c : Call} (hc : w.call = some c) : c.Doomed := by
    rcases hf with ⟨c', hc', hd⟩ | ⟨hnone, _⟩
    · rw [hc] at hc'
      cases hc'
      exact hd
    · rw [hc] at hnone
      cases hnone
  cases advance_cases hm ha with
  | start call stage => exact .inl ⟨_, rfl, trivial⟩
  | @resume job call stage =>
    exact .inl ⟨_, rfl, show job.Doomed from hdoomed call⟩
  | late call stage => exact fails_reject _ _ _
  | abort call stopped => exact fails_reject _ _ _
  | alone call going send fails waits => exact fails_reject _ _ _
  | hand call going send =>
    rw [hstop] at going
    cases going
  | proceed call proceeds => exact fails_proceed hm (hdoomed call) proceeds
  | announce call owner => exact .inl ⟨_, call, trivial⟩
  | tally call owner count => exact .inl ⟨_, call, trivial⟩
  | settle call owner count => exact .inl ⟨_, rfl, trivial⟩
  | shut call lt => exact .inl ⟨_, rfl, trivial⟩
  | conclude call le =>
    refine .inr ⟨rfl, w.reason, ?_⟩
    simp [Writer.conclude, outcome, hstop]

/-- A call that does not move, and is not given up, is where it was. -/
theorem Inv.aside (h : Inv n loose rows done fed w)
    (he : e.isPatient = true) (hadv : e ≠ .advance)
    (hs : w.step e = some w') :
    w'.call = w.call ∧ w'.answer = w.answer ∧ w'.stage = w.stage := by
  cases step_cases hs with
  | work work =>
    obtain ⟨_, hstage, _, hcall, hans, _⟩ := (h.worked work).frame
    exact ⟨hcall, hans, hstage⟩
  | advance advance => exact absurd rfl hadv
  | begin idle begins => cases begins <;> cases he
  | cancel => exact ⟨rfl, rfl, rfl⟩
  | room i m => exact ⟨rfl, rfl, rfl⟩
  | _ => cases he

theorem Fails.step (hf : w.Fails) (h : Inv n loose rows done fed w)
    (hstop : w.cancelled = true) (he : e.isPatient = true)
    (hs : w.step e = some w') : w'.Fails := by
  by_cases hadv : e = .advance
  · subst hadv
    exact hf.advance h.maxLen hstop hs
  · obtain ⟨hcall, hans, _⟩ := h.aside he hadv hs
    unfold Fails
    rw [hcall, hans]
    exact hf

theorem fails_launch (he : e.asks) (hs : w.step e = some w') :
    w'.Fails := by
  obtain ⟨hcall, hwhy⟩ := he
  cases step_cases hs with
  | begin idle begins =>
    refine .inl ⟨_, rfl, ?_⟩
    cases begins with
    | write => exact hwhy.resolve_right nofun
    | writeAll => exact hwhy.resolve_right nofun
    | copyFrom => exact .inr ⟨rfl, hwhy.resolve_right nofun⟩
    | sendFrom => exact .inl rfl
    | finish => trivial
  | _ => cases hcall

/-! ## Coming to rest -/

/-- A worker that has not left finds that the writer was stopped. -/
theorem Inv.work_of_stopped (h : Inv n loose rows done fed w)
    (hstop : w.cancelled = true) {i : Nat} {lane : Lane}
    (hl : w.lanes[i]? = some lane) (here : lane.phase.isHere = true) :
    w.work i ≠ none := by
  intro hw
  obtain ⟨c, phase⟩ := lane
  cases phase with
  | unstarted => cases here
  | gone => cases here
  | lost message => cases here
  | idle =>
    have hdisturbed := (h.idle_waits hl hw).1
    simp [disturbed, hstop] at hdisturbed
  | asking => simp [Writer.work, hl] at hw
  | writing s rest last => simp [Writer.work, hl, writeOn, hstop] at hw
  | ending rest => simp [Writer.work, hl, writeEnd, hstop] at hw
  | flushing => simp [Writer.work, hl] at hw

/-- **A stopped writer at rest** has no call in flight. -/
theorem Reached.at_rest (h : Reached n es k loose rows done w)
    (hstop : w.cancelled = true) (hq : w.Quiet) : w.call = none := by
  cases hc : w.call with
  | none => rfl
  | some call =>
    cases awaits_of_rest hc hq.2 with
    | offering going pending =>
      rw [hstop] at going
      cases going
    | @stopping started copied announced count =>
      -- the worker that is waited for can move
      obtain ⟨i, _, hi, _, hheld⟩ := h.inv.awaited hc hq.2
      obtain ⟨lane, hl⟩ := h.inv.lane_of_lt hi
      have hover := h.inv.not_over_of_held hl hheld
      have hclosed := (h.inv.calling.stopping started copied hc).1
      have hun : lane.phase ≠ .unstarted := by
        intro he
        rcases h.inv.started (by simp [hclosed]) with hloose | hno
        · have := (h.spent hloose).2 _ hc
          cases this
        · exact hno (he ▸ List.mem_of_getElem? (phases_eq_some hl))
      have here : lane.phase.isHere = true := by
        cases hp : lane.phase <;> rw [hp] at hover hun <;>
          first | exact absurd rfl hun | rfl | cases hover
      exact absurd (hq.1 i) (h.inv.work_of_stopped hstop hl here)

/-- **The moves that can follow one another are limited.** -/
theorem Inv.moves_le {later : List Event} (h : Inv n loose rows done fed w)
    (hlater : ∀ e ∈ later, e.isPatient = true)
    (hrun : run Writer.step w later = some w') :
    w.written ≤ w'.written ∧ later.countP (·.isMove) + w'.weight +
      w'.written ≤ w.weight + w.written := by
  induction later generalizing loose rows done fed w with
  | nil =>
    cases hrun
    simp
  | cons e later ih =>
    obtain ⟨w₁, hs, hrest⟩ := Option.bind_eq_some_iff.1 hrun
    obtain ⟨_, _, _, h₁⟩ := h.step hs
    obtain ⟨hgrows, hle⟩ :=
      ih h₁ (fun e' h' => hlater e' (by simp [h'])) hrest
    rw [List.countP_cons]
    cases hm : e.isMove with
    | true =>
      obtain ⟨hlt, hmore⟩ := h.lighter hm hs
      simp only [if_true]
      omega
    | false =>
      have hsame : w₁.weight = w.weight ∧ w₁.written = w.written := by
        have hpatient := hlater e (by simp)
        cases step_cases hs with
        | cancel => exact ⟨rfl, rfl⟩
        | room i m =>
          exact ⟨weight_grantRoom w i m, written_grantRoom w i m⟩
        | work work => cases hm
        | advance advance => cases hm
        | begin idle begins => cases begins <;> cases hpatient
        | _ => cases hpatient
      simp only [Bool.false_eq_true, if_false]
      omega

end Halt

/-- **A writer that was stopped stays so.** Nothing is written any more,
whatever is done, so a connection without a whole terminal segment will not
get one. A call that has a byte to hand over fails, and so does one that is
to finish the writer. That takes a limited number of moves of the call and
the workers, and when none of them can move, the call is over. -/
theorem stopped_for_good {outlets : List Outlet} {config : Config}
    {es : List Event} {w₀ w : Writer}
    (hmake : make outlets config = .ok w₀)
    (hblank : ∀ c ∈ outlets, c.log = #[])
    (hrun : run step w₀ es = some w)
    (hstop : w.cancelled = true ∨ w.failure.isSome = true) :
    ∀ more w', run step w more = some w' →
      w'.cancelled = true ∧ (∀ i, w'.wire i = w.wire i) ∧
      ∀ e w₁, e.asks → w'.step e = some w₁ →
      ∀ later w₂, (∀ e' ∈ later, e'.isPatient = true) →
        run step w₁ later = some w₂ →
        (w₂.call = none → ∃ err, w₂.answer = some (.failed err)) ∧
        later.countP (·.isMove) ≤ w₁.weight ∧
        (w₂.Quiet → w₂.call = none) := by
  obtain ⟨_, loose, rows, done, h⟩ := reached_run hmake hblank hrun
  have hstop : w.cancelled = true := hstop.elim id h.inv.halted
  intro more w' hmore
  obtain ⟨⟨hstop', hwire⟩, _, _, _, _, _, h'⟩ := h.frozen hstop hmore
  refine ⟨hstop', hwire, ?_⟩
  intro e w₁ he hs later w₂ hlater hrun₂
  obtain ⟨_, _, _, h₁⟩ := h'.step hs
  have hstop₁ := (h'.inv.onward hs).cancelled hstop'
  obtain ⟨⟨hstop₂, hfails⟩, _, _, _, _, _, h₂⟩ := h₁.always
    (P := fun v => v.cancelled = true ∧ v.Fails)
    ⟨hstop₁, fails_launch he hs⟩
    (fun e' he' hv ⟨hc, hf⟩ hs => ⟨(hv.inv.onward hs).cancelled hc,
      hf.step hv.inv hc (hlater e' he') hs⟩) hrun₂
  obtain ⟨hgrows, hmoves⟩ := h₁.inv.moves_le hlater hrun₂
  refine ⟨fun hover => ?_, by omega, h₂.at_rest hstop₂⟩
  rcases hfails with ⟨c, hc, _⟩ | ⟨_, hans⟩
  · rw [hover] at hc
    cases hc
  · exact hans

/-- The call in flight ends, and then one that is to finish the writer is
over after these moves. -/
def lateMoves : List Event :=
  [.work 0, .work 0, .advance, .advance, .advance, .advance, .advance,
   .advance, .advance, .advance]

/-- After a connection has broken, `finish` fails, and the wires stay as
they are. -/
theorem stopped_for_good_broken : ∃ w₀ w w' w₁ w₂ err,
    make brokenPair { Config.standard with maxSegmentLen := 2 } = .ok w₀ ∧
    run step w₀ (brokenEvents.take 14) = some w ∧
    w.failure.isSome = true ∧
    run step w [.advance, .advance] = some w' ∧
    w'.step .finish = some w₁ ∧ run step w₁ lateMoves = some w₂ ∧
    (∀ i, w'.wire i = w.wire i) ∧ w₂.answer = some (.failed err) := by
  obtain ⟨w₀, w, w', w₁, w₂, hmake, hrun, hfail, hmore, hs, hlate, hover⟩ :
      ∃ w₀ w w' w₁ w₂,
      make brokenPair { Config.standard with maxSegmentLen := 2 } = .ok w₀ ∧
      run step w₀ (brokenEvents.take 14) = some w ∧
      w.failure.isSome = true ∧
      run step w [.advance, .advance] = some w' ∧
      w'.step .finish = some w₁ ∧ run step w₁ lateMoves = some w₂ ∧
      w₂.call = none :=
    ⟨_, _, _, _, _, rfl, rfl, rfl, rfl, rfl, rfl, rfl⟩
  obtain ⟨_, hwires, hcalls⟩ := stopped_for_good hmake (by decide) hrun
    (.inr hfail) _ _ hmore
  obtain ⟨hfails, _, _⟩ := hcalls .finish w₁ ⟨rfl, .inr rfl⟩ hs lateMoves w₂
    (by decide) hlate
  obtain ⟨err, hans⟩ := hfails hover
  exact ⟨w₀, w, w', w₁, w₂, err, hmake, hrun, hfail, hmore, hs, hlate,
    hwires, hans⟩

end Stripe.Writer
