import Stripe.Proofs.Writer.Finished
import Stripe.Proofs.Writer.Halt

/-!
# A source that fails

A call that copies from a source hands over, segment by segment, what the
source yields. If the source fails, the call says so to its user, and that
is all (`Hale.source_failed`). A writer that is finished afterwards knows
nothing of it. Over sound connections `finish` succeeds, and every wire
ends with a terminal segment that tells how far the copy has come
(`truncation_unnoticed`): a peer takes what it got for the whole stream.

A call that sends a source and then finishes the writer does better. It
records the failure, which stops the writer (`send_broken`).
-/

namespace Stripe.Writer

open Segment

/-- The call has nothing to send, and is to finish the writer. -/
def Call.Ends : Call → Prop
  | .opening job | .working job => job = .finish none
  | .offering .. => False
  | .stopping .. | .shutting .. => True

/-- A writer that ran is being finished with nothing left to send, or was
finished so. -/
structure Finishing (w : Writer) : Prop where
  call : ∀ c, w.call = some c → c.Ends
  opening : ∀ job, w.call = some (.opening job) → w.stage = .running
  ended : w.call = none → (∀ phase ∈ w.phases, phase = .gone) ∧
    w.answer = some (.finished w.stats)

section Truncation

variable {n : Nat} {rows done : Nat → List Segment}
  {fed : List Segment} {w w' : Writer} {e : Event}

/-! ## Finishing -/

theorem Finishing.of_going {c : Call} (hc : w.call = some c) (hends : c.Ends)
    (hopening : ∀ job, c ≠ .opening job) : w.Finishing := by
  refine ⟨?_, ?_, ?_⟩
  · intro c' hc'
    rw [hc] at hc'
    cases hc'
    exact hends
  · intro job hc'
    rw [hc] at hc'
    exact absurd (Option.some.inj hc') (hopening job)
  · intro hn
    rw [hc] at hn
    cases hn

/-- **A call that finishes a writer goes on to do so**, and the cursor stays
where it is. -/
theorem Finishing.advance (hf : w.Finishing) (h : Hale n w)
    (hinv : Inv n False rows done fed w) (ha : w.advance = some w') :
    w'.Finishing ∧ w'.cursor = w.cursor := by
  cases advance_cases hinv.maxLen ha with
  | start call stage =>
    have hrunning := hf.opening _ call
    rw [stage] at hrunning
    cases hrunning
  | @resume job call stage =>
    have hjob : job = .finish none := hf.call _ call
    exact ⟨.of_going rfl hjob (by simp), rfl⟩
  | late call stage =>
    have hrunning := hf.opening _ call
    rw [stage] at hrunning
    cases hrunning
  | abort call stopped => exact (hf.call _ call).elim
  | hand call going send => exact (hf.call _ call).elim
  | alone call going send fails waits => exact (hf.call _ call).elim
  | proceed call proceeds =>
    obtain rfl := hf.call _ call
    cases proceeds with
    | close => exact ⟨.of_going rfl trivial (by simp), rfl⟩
  | announce call owner =>
    exact ⟨.of_going call trivial (by simp), rfl⟩
  | tally call owner count =>
    exact ⟨.of_going call trivial (by simp), rfl⟩
  | settle call owner count =>
    exact ⟨.of_going rfl trivial (by simp), rfl⟩
  | @shut next _ _ _ call lt =>
    exact ⟨.of_going rfl trivial (by simp), (shutLane_spec w next).2.1.2.1⟩
  | conclude call le =>
    obtain ⟨_, _, hover, _⟩ := hinv.calling.shutting _ _ _ _ call
    obtain ⟨rfl, rfl, rfl⟩ := h.plain _ call
    rw [h.outcome_eq hinv.size]
    refine ⟨⟨?_, ?_, fun _ => ⟨h.all_gone hover, rfl⟩⟩, rfl⟩
    · simp [conclude]
    · simp [conclude]

theorem Finishing.handed_eq (hf : w.Finishing) : handed w w' = [] :=
  handed_of_not_offering fun _ _ hc => hf.call _ hc

theorem Finishing.step (hf : w.Finishing) (h : Hale n w)
    (hinv : Inv n False rows done fed w) (he : e.isGentle = true)
    (hcall : e.isCall = false) (hs : w.step e = some w') :
    w'.Finishing ∧ w'.cursor = w.cursor := by
  cases step_cases hs with
  | work work =>
    obtain ⟨_, hstage, hcursor, hsame, _⟩ := (hinv.worked work).frame
    obtain ⟨lane, _, hl, here, _⟩ := (h.smooth hinv work).lane
    refine ⟨⟨hsame ▸ hf.call, hsame ▸ hstage ▸ hf.opening, ?_⟩, hcursor⟩
    intro hover
    have hgone := (hf.ended (hsame ▸ hover)).1 lane.phase
      (List.mem_of_getElem? (phases_eq_some hl))
    rw [hgone] at here
    cases here
  | advance advance => exact hf.advance h hinv advance
  | begin idle begins => cases begins <;> cases hcall
  | room i m =>
    exact ⟨⟨hf.call, hf.opening, by
      rw [phases_grantRoom]
      exact hf.ended⟩, rfl⟩
  | _ => cases he

/-- Moves, and what peers do, while a writer is being finished. -/
theorem Finishing.run (hf : w.Finishing) (h : Hale n w)
    (hinv : Inv n False rows done fed w) {later : List Event}
    (hlater : ∀ e ∈ later, e.isGentle = true ∧ e.isCall = false)
    (hrun : run Writer.step w later = some w') :
    w'.Finishing ∧ w'.cursor = w.cursor ∧ Hale n w' ∧
      ∃ rows done, Inv n False rows done fed w' := by
  induction later generalizing rows done w with
  | nil =>
    cases hrun
    exact ⟨hf, rfl, h, _, _, hinv⟩
  | cons e later ih =>
    obtain ⟨v, hs, hrest⟩ := Option.bind_eq_some_iff.1 hrun
    obtain ⟨he, hcall⟩ := hlater e (by simp)
    obtain ⟨hf', hcursor⟩ := hf.step h hinv he hcall hs
    obtain ⟨rows', done', _, hinv'⟩ := hinv.step hs
    have hkept : ¬ w.LetsGo e := by
      rintro (rfl | ⟨rfl, _⟩) <;> cases he
    rw [hf.handed_eq, List.append_nil] at hinv'
    obtain ⟨hf'', hcursor', hrest'⟩ := ih hf' (h.step hinv he hs)
      (hinv'.loosen (by simp [hkept])) (fun e' h' => hlater e' (by simp [h']))
      hrest
    exact ⟨hf'', hcursor'.trans hcursor, hrest'⟩

theorem patient_of_gentle (he : e.isGentle = true)
    (hcall : e.isCall = false) : e.isPatient = true := by
  cases e with
  | work i => rfl
  | advance => rfl
  | room i m => rfl
  | abandon | cancel | drop => cases he
  | _ => cases hcall

/-! ## The source -/

/-- **A source that fails** is reported to the user who has called, and
nothing else comes of it. -/
theorem Hale.source_failed (h : Hale n w)
    (hinv : Inv n False rows done fed w) (hopen : w.stage ≠ .closed)
    (ha : w.advance = some w') (hover : w'.call = none) {cause : IoError}
    (hans : w'.answer = some (.failed (.source cause))) :
    (∃ job, w.call = some (.working job)) ∧
      w' = w.conclude (.failed (.source cause)) := by
  have hbusy {c : Call} (hc : w.call = some c) (hn : w.call = none) :
      False := by
    rw [hc] at hn
    cases hn
  cases advance_cases hinv.maxLen ha with
  | start call stage => cases hover
  | resume call stage => cases hover
  | late call stage => exact absurd stage hopen
  | abort call stopped =>
    rw [h.unharmed.2] at stopped
    cases stopped
  | hand call going send => cases hover
  | alone call going send fails waits =>
    have hrunning := (hinv.calling.offering _ _ call).1
    exact (h.not_refused hinv hrunning send fails waits).elim
  | @proceed job _ call proceeds =>
    refine ⟨⟨job, call⟩, ?_⟩
    cases proceeds with
    | @broken _ rest _ _ count last fill =>
      obtain rfl : last = false := h.plain _ call
      cases hans
      rfl
    | nothing => cases hans
    | wrote => cases hans
    | sent => cases hans
    | copied => cases hans
    | _ => cases hover
  | announce call owner => exact (hbusy call hover).elim
  | tally call owner count => exact (hbusy call hover).elim
  | settle call owner count => cases hover
  | shut call lt => cases hover
  | conclude call le =>
    exact absurd (hinv.calling.shutting _ _ _ _ call).1 hopen

end Truncation

/-- **Nothing has failed** in an open writer over sound connections, if
nobody has stopped it. -/
theorem hale_run {outlets : List Outlet} {config : Config}
    {es : List Event} {w₀ w : Writer} (hmake : make outlets config = .ok w₀)
    (hsound : ∀ c ∈ outlets, c.log = #[] ∧ c.Sound ∧ c.closed = false)
    (hes : ∀ e ∈ es, e.isGentle = true) (hrun : run step w₀ es = some w)
    (hopen : w.stage ≠ .closed) : Hale outlets.length w := by
  have hfirst := hale_make hmake fun c hc => (hsound c hc).2
  have hreached := reached_make hmake fun c hc => (hsound c hc).1
  refine (hreached.always (P := fun v => v.stage ≠ .closed →
    Hale outlets.length v) (fun _ => hfirst) ?_ hrun).1 hopen
  rintro _ _ loose _ _ v v' e he h hv hs hopen'
  have hstage : v.stage ≠ .closed := by
    intro hclosed
    exact hopen' ((h.inv.onward hs).closed hclosed).1
  have hkept (hl : loose) : False := hstage (h.spent hl).1
  exact (hv hstage).step (h.inv.loosen hkept) (hes e he) hs

/-- **A source that fails leaves no trace.** Over sound connections, and if
nobody has stopped the writer, a call that copies from a source may fail
because of it. Nothing is recorded of that. If the writer is finished next,
that succeeds, and the transfer is complete as far as a peer can tell: all
that was handed over before the source failed, and nothing else, is on the
wires, and each of them ends with a terminal segment. -/
theorem truncation_unnoticed {outlets : List Outlet} {config : Config}
    {es : List Event} {w₀ w w₁ : Writer} {cause : IoError}
    (hmake : make outlets config = .ok w₀)
    (hsound : ∀ c ∈ outlets, c.log = #[] ∧ c.Sound ∧ c.closed = false)
    (hes : ∀ e ∈ es, e.isGentle = true) (hrun : run step w₀ es = some w)
    (hopen : w.stage ≠ .closed) (ha : w.advance = some w₁)
    (hover : w₁.call = none)
    (hans : w₁.answer = some (.failed (.source cause))) :
    w₁ = w.conclude (.failed (.source cause)) ∧
    w₁.failure = none ∧ w₁.cancelled = false ∧
    joined (recordOf w₀ es).fed = (recordOf w₀ es).stream ∧
    ∃ w₂, w₁.step .finish = some w₂ ∧
      ∀ later w₃, (∀ e ∈ later, e.isGentle = true ∧ e.isCall = false) →
        run step w₂ later = some w₃ →
        later.countP (·.isMove) ≤ w₂.weight ∧
        (w₃.Quiet → w₃.Roomy → w₃.call = none) ∧
        (w₃.call = none → w₃.answer = some (.finished w₃.stats) ∧
          w₃.cursor = w.cursor ∧
          ∃ rows, Complete outlets.length rows (recordOf w₀ es).fed w₃) := by
  have hhale := hale_run hmake hsound hes hrun hopen
  obtain ⟨_, loose, rows, done, h⟩ :=
    reached_run hmake (fun c hc => (hsound c hc).1) hrun
  have hkept (hl : loose) : False := hopen (h.spent hl).1
  have hinv : Inv outlets.length False rows done _ w := h.inv.loosen hkept
  obtain ⟨⟨job, hcall⟩, rfl⟩ :=
    hhale.source_failed hinv hopen ha hover hans
  have hrunning := hinv.calling.working job hcall
  have hno : .abandon ∉ es := by
    intro hmem
    cases hes _ hmem
  have hcontrol := h.control_mem hno hhale.unharmed.2
    (fun hs => hopen hs.1) (by simp [hrunning]) (by simp [hcall])
  refine ⟨rfl, hhale.unharmed.1, hhale.unharmed.2, h.fits.carried,
    _, rfl, ?_⟩
  intro later w₃ hlater hrun₃
  -- the writer is finished as if all had been sent
  have hhale₂ : Hale outlets.length
      ((w.conclude (.failed (.source cause))).setCall
        (.opening (.finish none))) :=
    (hhale.conclude _).setCall rfl
  have hinv₂ := (hinv.conclude (.failed (.source cause))).begin
    (.finish none)
  have hfin : ((w.conclude (.failed (.source cause))).setCall
      (.opening (.finish none))).Finishing :=
    ⟨by rintro c ⟨⟩; rfl, fun _ _ => hrunning, nofun⟩
  obtain ⟨hfin₃, hcursor, hhale₃, rows₃, done₃, hinv₃⟩ :=
    hfin.run hhale₂ hinv₂ hlater hrun₃
  refine ⟨?_, hhale₃.quiet hinv₃, fun hover₃ => ?_⟩
  · have := hinv₂.moves_le
      (fun e he => patient_of_gentle (hlater e he).1 (hlater e he).2) hrun₃
    omega
  · obtain ⟨hgone, hans₃⟩ := hfin₃.ended hover₃
    refine ⟨hans₃, hcursor, rows₃, hinv₃.complete hgone ?_ hcontrol⟩
    simp [hhale₃.unharmed.2]

/-- **A call that sends a source and then finishes** the writer records that
the source has failed. So nothing more is written, whatever is done. -/
theorem send_broken {outlets : List Outlet} {config : Config}
    {es : List Event} {w₀ w w₁ : Writer} {source rest : List Inlet.Item}
    {count : Nat} {bytes : Bytes} {cause : IoError}
    (hmake : make outlets config = .ok w₀)
    (hblank : ∀ c ∈ outlets, c.log = #[]) (hrun : run step w₀ es = some w)
    (hc : w.call = some (.working (.copy source count false true)))
    (hf : fill w.config.maxSegmentLen source = (bytes, rest, some cause))
    (ha : w.advance = some w₁) :
    w₁.failure = some (w.failure.getD (.source cause)) ∧
    w₁.cancelled = true ∧
    ∀ more w', run step w₁ more = some w' →
      ∀ i, w'.wire i = w₁.wire i := by
  have hbroken : w₁ = (w.fail (.source cause)).setCall
      (.opening (.finish (some (.source cause)))) := by
    simp only [advance, hc, proceed, cut, hf, reject] at ha
    exact (Option.some.inj ha).symm
  have hstop : w₁.cancelled = true := by
    rw [hbroken]
    rfl
  refine ⟨by rw [hbroken]; rfl, hstop, fun more w' hmore => ?_⟩
  obtain ⟨_, _, _, _, h⟩ := reached_run hmake hblank hrun
  obtain ⟨_, _, _, h₁⟩ := h.step (e := .advance) ha
  exact (h₁.frozen hstop hmore).1.2

/-- A source that fails after four bytes, and would yield two more. -/
def badSource : List Inlet.Item :=
  [.chunk [1, 2, 3, 4], .fault ⟨.other, "disk failed"⟩, .chunk [5, 6]]

/-- The four bytes are handed over, and the source is asked for more. -/
def copyEvents : List Event :=
  [.copyFrom badSource, .advance, .work 0, .advance, .advance, .work 0,
   .work 0, .work 0, .advance]

/-- The segments are written, and the writer is finished. -/
def endMoves : List Event :=
  [.work 0, .work 0, .work 0, .work 0, .advance, .advance, .advance, .work 0,
   .work 0, .work 0, .work 0, .advance, .advance, .advance]

/-- The four bytes pass for the whole stream. -/
theorem truncation_unnoticed_four : ∃ w₀ w w₁ w₂ w₃ cause,
    make [.unlimited] { Config.standard with maxSegmentLen := 4 } = .ok w₀ ∧
    run step w₀ copyEvents = some w ∧ w.advance = some w₁ ∧
    w₁.answer = some (.failed (.source cause)) ∧ w₁.failure = none ∧
    w₁.step .finish = some w₂ ∧ run step w₂ endMoves = some w₃ ∧
    w₃.answer = some (.finished w₃.stats) ∧ w₃.stats.totalBytes = 4 := by
  obtain ⟨w₀, w, w₁, w₂, w₃, cause, hmake, hrun, hopen, ha, hover, hans, hs,
      hlate, hover₃, hcursor⟩ : ∃ w₀ w w₁ w₂ w₃ cause,
      make [.unlimited] { Config.standard with maxSegmentLen := 4 } =
        .ok w₀ ∧
      run step w₀ copyEvents = some w ∧ w.stage = .running ∧
      w.advance = some w₁ ∧ w₁.call = none ∧
      w₁.answer = some (.failed (.source cause)) ∧
      w₁.step .finish = some w₂ ∧ run step w₂ endMoves = some w₃ ∧
      w₃.call = none ∧ w.cursor = 4 :=
    ⟨_, _, _, _, _, _, rfl, rfl, rfl, rfl, rfl, rfl, rfl, rfl, rfl, rfl⟩
  have hsound : ∀ c ∈ [Outlet.unlimited],
      c.log = #[] ∧ c.Sound ∧ c.closed = false := by
    intro c hc
    obtain rfl := List.mem_singleton.1 hc
    exact ⟨rfl, ⟨rfl, rfl, rfl, nofun⟩, rfl⟩
  obtain ⟨_, hfail, _, _, v, hv, hlater⟩ :=
    truncation_unnoticed hmake hsound (by decide) hrun (by simp [hopen]) ha
      hover hans
  obtain rfl : v = w₂ := Option.some.inj (hv.symm.trans hs)
  obtain ⟨_, _, hdone⟩ := hlater endMoves w₃ (by decide) hlate
  obtain ⟨hans₃, hsame, _, hcomplete⟩ := hdone hover₃
  exact ⟨w₀, w, w₁, v, w₃, cause, hmake, hrun, ha, hans, hfail, hs, hlate,
    hans₃, hcomplete.totals.1.trans (hsame.trans hcursor)⟩

/-- The user was told that the copy has failed; `finish` succeeds all the
same, and the wire ends with a terminal segment. -/
theorem finish_after_truncation : ∃ w₀ w₁ w₂ w₃ cause stats,
    make [.unlimited] { Config.standard with maxSegmentLen := 4 } = .ok w₀ ∧
    run step w₀ (copyEvents ++ [.advance]) = some w₁ ∧
    w₁.stage = .running ∧ w₁.call = none ∧
    w₁.answer = some (.failed (.source cause)) ∧
    w₁.step .finish = some w₂ ∧ run step w₂ endMoves = some w₃ ∧
    w₃.answer = some (.finished stats) ∧
    w₃.wire 0 = encodeAll
      [.control 1, .data [1, 2, 3, 4] 0 .none, .terminal 4] :=
  ⟨_, _, _, _, _, _, rfl, rfl, rfl, rfl, rfl, rfl, rfl, rfl, rfl⟩

end Stripe.Writer
