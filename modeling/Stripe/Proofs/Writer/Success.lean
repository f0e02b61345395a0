import Stripe.Proofs.Writer.Sound

/-!
# A writer over sound connections

A user sends bytes by some calls and then finishes the writer, and none of
the connections fails. Then no call fails either, whatever comes first:
what was handed over and what the call in flight still owes make up what
the user has sent, and `finish` counts the workers that have left. `Fares`
is `Hale` together with this, and every event keeps it (`Fares.step`).
-/

namespace Stripe.Writer

open Segment Handoff Barrier

/-- The bytes that a job has yet to send. -/
def Job.owed : Job → Bytes
  | .writeAll rest => rest
  | _ => []

def Call.owed : Call → Bytes
  | .opening job | .working job => job.owed
  | .offering s job => s.payload ++ job.owed
  | _ => []

/-- The bytes that the call in flight has yet to hand over. -/
def owed (w : Writer) : Bytes :=
  match w.call with
  | some call => call.owed
  | none => []

/-- The job of a call. -/
def Call.job? : Call → Option Job
  | .opening job | .offering _ job | .working job => some job
  | .stopping .. | .shutting .. => none

/-- The job of a user who sends bytes and then finishes the writer. -/
def Job.Fits (asked : Prop) : Job → Prop
  | .writeAll _ => ¬ asked
  | .finish none => asked
  | _ => False

/-- How far the user has come; `asked` says that `finish` was called. -/
inductive Course (n : Nat) (asked : Prop) (w : Writer) : Prop where
  | resting (call : w.call = none) (unasked : ¬ asked)
      (stage : w.stage ≠ .closed)
  | sending {c : Call} {job : Job} (call : w.call = some c)
      (part : c.job? = some job) (fits : job.Fits asked)
      (stage : w.stage ≠ .closed)
  | stopping (call : w.call = some (.stopping none none)) (asked : asked)
  | shutting {next : Nat}
      (call : w.call = some (.shutting next n none none)) (asked : asked)
      (fed : w.handoff.fed = false)
  | finished (call : w.call = none) (asked : asked)
      (fed : w.handoff.fed = false) (stage : w.stage = .closed)
      (ans : w.answer = some (.finished w.stats))

/-- How a writer fares over sound connections, after a user has sent
`sent`: nothing has failed. -/
structure Fares (n : Nat) (sent : Bytes) (asked : Prop)
    (rows done : Nat → List Segment) (fed : List Segment) (w : Writer) :
    Prop where
  inv : Inv n False rows done fed w
  unharmed : w.failure = none ∧ w.cancelled = false
  lanes : ∀ lane ∈ w.lanes, lane.Sound
  /-- The control segment comes first. -/
  announced : .control (.ofNat n) ∈ fed ∨ fed = [] ∧
    (w.stage = .fresh ∨
      ∃ job, w.call = some (.offering (.control (.ofNat n)) job))
  owes : joined fed ++ w.owed = sent
  course : Course n asked w
  /-- No slot is closed while segments are handed over. -/
  posted : w.stage ≠ .closed → none ∉ w.handoff.ready
  success : ∀ e, w.answer ≠ some (.failed e)

section Success

variable {n : Nat} {sent : Bytes} {asked : Prop}
  {rows done : Nat → List Segment} {fed : List Segment} {w w' : Writer}

/-! ## Workers -/

theorem Fares.of_hale (hinv : Inv n False rows done fed w) (hhale : Hale n w)
    (announced : .control (.ofNat n) ∈ fed ∨ fed = [] ∧
      (w.stage = .fresh ∨
        ∃ job, w.call = some (.offering (.control (.ofNat n)) job)))
    (owes : joined fed ++ w.owed = sent) (course : Course n asked w)
    (success : ∀ e, w.answer ≠ some (.failed e)) :
    Fares n sent asked rows done fed w :=
  { inv := hinv
    unharmed := hhale.unharmed
    lanes := hhale.lanes
    announced
    owes
    course
    posted := hhale.posted
    success }

theorem Job.Fits.plain {job : Job} (h : job.Fits asked) : job.Plain := by
  cases job with
  | writeAll rest => trivial
  | finish copied =>
    cases copied with
    | none => rfl
    | some e => exact h.elim
  | _ => exact h.elim

/-- **Nothing has failed** as long as a writer fares well. -/
theorem Fares.hale (h : Fares n sent asked rows done fed w) : Hale n w := by
  refine ⟨h.unharmed, h.lanes, h.posted, fun c hc => ?_⟩
  have hsame {c' : Call} (hc' : w.call = some c') : c' = c :=
    Option.some.inj (hc'.symm.trans hc)
  cases h.course with
  | resting call unasked stage =>
    rw [call] at hc
    cases hc
  | sending call part fits stage =>
    cases hsame call
    cases c with
    | opening job =>
      cases part
      exact fits.plain
    | offering s job =>
      cases part
      exact fits.plain
    | working job =>
      cases part
      exact fits.plain
    | _ => cases part
  | stopping call asked =>
    cases hsame call
    exact ⟨rfl, rfl⟩
  | shutting call asked fed =>
    cases hsame call
    exact ⟨rfl, rfl, rfl⟩
  | finished call asked fed stage ans =>
    rw [call] at hc
    cases hc

theorem Fares.work (h : Fares n sent asked rows done fed w) {i : Nat}
    (hw : w.work i = some w') :
    ∃ rows' done', (∀ j, rows j <+: rows' j) ∧
      Fares n sent asked rows' done' fed w' := by
  obtain ⟨rows', done', hle, hinv⟩ := h.inv.work hw
  obtain ⟨⟨hstage, hcall, hans, _⟩, ⟨lane, _, hl, here, _⟩, _⟩ :=
    h.hale.smooth h.inv hw
  refine ⟨rows', done', hle, .of_hale hinv (h.hale.work h.inv hw) ?_ ?_ ?_
    (hans ▸ h.success)⟩
  · rw [hstage, hcall]
    exact h.announced
  · unfold owed
    rw [hcall]
    exact h.owes
  · cases h.course with
    | resting call unasked stage =>
      exact .resting (hcall.trans call) unasked (hstage ▸ stage)
    | sending call part fits stage =>
      exact .sending (hcall.trans call) part fits (hstage ▸ stage)
    | stopping call asked => exact .stopping (hcall.trans call) asked
    | shutting call asked fed =>
      rw [h.inv.fed_of_here hl here] at fed
      cases fed
    | finished call asked fed stage ans =>
      rw [h.inv.fed_of_here hl here] at fed
      cases fed

/-! ## Calls -/

/-- A call that sends has not begun to finish the writer. -/
theorem Fares.sending (h : Fares n sent asked rows done fed w)
    {call : Call} {job : Job} (hc : w.call = some call)
    (hj : call.job? = some job) : job.Fits asked ∧ w.stage ≠ .closed := by
  have hno {c : Call} (hc' : w.call = some c) (hn : c.job? = none) :
      False := by
    rw [hc'] at hc
    cases hc
    rw [hn] at hj
    cases hj
  cases h.course with
  | resting hcall _ _ =>
    rw [hcall] at hc
    cases hc
  | sending hcall part fits stage =>
    rw [hcall] at hc
    cases hc
    rw [part] at hj
    cases hj
    exact ⟨fits, stage⟩
  | stopping hcall _ => exact (hno hcall rfl).elim
  | shutting hcall _ _ => exact (hno hcall rfl).elim
  | finished hcall _ _ _ _ =>
    rw [hcall] at hc
    cases hc

/-- The control segment was handed over before anything else is done. -/
theorem Fares.control_mem (h : Fares n sent asked rows done fed w)
    (hs : w.stage ≠ .fresh)
    (hc : ∀ s job, w.call ≠ some (.offering s job)) :
    .control (.ofNat n) ∈ fed := by
  rcases h.announced with hmem | ⟨_, hfresh | ⟨job, hoffer⟩⟩
  · exact hmem
  · exact absurd hfresh hs
  · exact absurd hoffer (hc _ _)

theorem Fares.owed_of (h : Fares n sent asked rows done fed w)
    {call : Call} (hc : w.call = some call) :
    joined fed ++ call.owed = sent := by
  have howes := h.owes
  unfold owed at howes
  rwa [hc] at howes

/-- A segment is handed over. -/
theorem Fares.hand (h : Fares n sent asked rows done fed w) {s : Segment}
    {job : Job} (hc : w.call = some (.offering s job)) {i : Nat}
    {h' : Handoff} (hsend : w.handoff.send s = (.sent i, h'))
    (hhale : Hale n ({ w with
      handoff := h', cursor := w.cursor + s.length }.setCall
        (.working job))) :
    Fares n sent asked (addTo i s rows) done (fed ++ [s]) ({ w with
      handoff := h', cursor := w.cursor + s.length }.setCall
        (.working job)) := by
  obtain ⟨hfits, hstage⟩ := h.sending hc rfl
  have hrunning := (h.inv.calling.offering s job hc).1
  refine .of_hale (h.inv.hand hc hsend) hhale (.inl ?_) ?_
    (.sending rfl rfl hfits hstage) h.success
  · rcases h.announced with hmem | ⟨_, hfresh | ⟨_, hoffer⟩⟩
    · exact List.mem_append_left _ hmem
    · rw [hrunning] at hfresh
      cases hfresh
    · rw [hc] at hoffer
      cases hoffer
      simp
  · rw [← h.owed_of hc, joined_append]
    simp [owed, setCall, Call.owed]

/-- A call of a user who sends and finishes goes on with its job. -/
theorem Fares.proceed (h : Fares n sent asked rows done fed w) {job : Job}
    (hc : w.call = some (.working job)) (hp : Proceeds w job w') :
    Fares n sent asked rows done fed w' := by
  obtain ⟨hfits, hstage⟩ := h.sending hc rfl
  have hrunning := h.inv.calling.working job hc
  have hinv := h.inv.proceed hrunning hp
  have hhale := h.hale.proceed hfits.plain hp
  have hcontrol := h.control_mem (by simp [hrunning]) (by simp [hc])
  have howed := h.owed_of hc
  cases hp with
  | sent =>
    exact .of_hale hinv hhale (.inl hcontrol) howed
      (.resting rfl hfits hstage) (by simp [conclude])
  | @chunk bytes pos =>
    refine .of_hale hinv hhale (.inl hcontrol) ?_
      (.sending rfl rfl hfits hstage) h.success
    rw [← howed]
    show joined fed ++ (bytes.take _ ++ bytes.drop _) = joined fed ++ bytes
    rw [List.take_append_drop]
  | @close copied =>
    obtain rfl : copied = none := hfits.plain
    exact .of_hale hinv hhale (.inl hcontrol) howed (.stopping rfl hfits)
      h.success
  | _ => exact hfits.elim

/-- A call to finish the writer has nothing else to report. -/
theorem Fares.stopping (h : Fares n sent asked rows done fed w)
    {started copied : Option Error}
    (hc : w.call = some (.stopping started copied)) :
    asked ∧ started = none ∧ copied = none := by
  cases h.course with
  | stopping hcall ha =>
    rw [hcall] at hc
    cases hc
    exact ⟨ha, rfl, rfl⟩
  | resting hcall _ _ =>
    rw [hcall] at hc
    cases hc
  | sending hcall part _ _ =>
    rw [hcall] at hc
    cases hc
    cases part
  | shutting hcall _ _ =>
    rw [hcall] at hc
    cases hc
  | finished hcall _ _ _ _ =>
    rw [hcall] at hc
    cases hc

theorem Fares.shutting (h : Fares n sent asked rows done fed w)
    {next k : Nat} {started copied : Option Error}
    (hc : w.call = some (.shutting next k started copied)) :
    asked ∧ w.handoff.fed = false ∧ k = n ∧ started = none ∧
      copied = none := by
  cases h.course with
  | shutting hcall ha hfed =>
    rw [hcall] at hc
    cases hc
    exact ⟨ha, hfed, rfl, rfl, rfl⟩
  | resting hcall _ _ =>
    rw [hcall] at hc
    cases hc
  | sending hcall part _ _ =>
    rw [hcall] at hc
    cases hc
    cases part
  | stopping hcall _ =>
    rw [hcall] at hc
    cases hc
  | finished hcall _ _ _ _ =>
    rw [hcall] at hc
    cases hc

/-- **A call on sound connections does not fail.** -/
theorem Fares.advance (h : Fares n sent asked rows done fed w)
    (ha : w.advance = some w') :
    ∃ rows' fed', (∀ j, rows j <+: rows' j) ∧
      Fares n sent asked rows' done fed' w' := by
  have hsame (h' : Fares n sent asked rows done fed w') :
      ∃ rows' fed', (∀ j, rows j <+: rows' j) ∧
        Fares n sent asked rows' done fed' w' :=
    ⟨rows, fed, fun _ => List.prefix_rfl, h'⟩
  have hhale := h.hale.advance h.inv ha
  cases advance_cases h.inv.maxLen ha with
  | @start job call stage =>
    obtain ⟨hfits, _⟩ := h.sending call rfl
    refine hsame (.of_hale (h.inv.start stage job) hhale
      (.inr ⟨(h.inv.fresh stage).1, .inr ⟨job, ?_⟩⟩) (h.owed_of call)
      (.sending rfl rfl hfits (by simp [setCall, Writer.start])) h.success)
    rw [connections, h.inv.size]
    rfl
  | @resume job call stage =>
    obtain ⟨hfits, hstage⟩ := h.sending call rfl
    have hmem := h.control_mem (by simp [stage]) (by simp [call])
    exact hsame (.of_hale
      (h.inv.recall ⟨rfl, rfl, rfl, rfl, rfl, rfl, rfl⟩ id
        h.inv.halted (calling_of_working n fed rfl stage))
      hhale (.inl hmem) (h.owed_of call) (.sending rfl rfl hfits hstage)
      h.success)
  | late call stage => exact absurd stage (h.sending call rfl).2
  | abort call stopped =>
    rw [h.unharmed.2] at stopped
    cases stopped
  | @hand s job i h' call going send =>
    exact ⟨addTo i s rows, fed ++ [s], front_addTo i s rows,
      h.hand call send hhale⟩
  | alone call going send fails waits =>
    have hrunning := (h.inv.calling.offering _ _ call).1
    exact (h.hale.not_refused h.inv hrunning send fails waits).elim
  | proceed call proceeds => exact hsame (h.proceed call proceeds)
  | announce call owner =>
    obtain ⟨hasked, rfl, rfl⟩ := h.stopping call
    exact hsame (.of_hale (h.inv.announce call owner) hhale h.announced
      h.owes (.stopping call hasked) h.success)
  | tally call owner count =>
    obtain ⟨hasked, rfl, rfl⟩ := h.stopping call
    exact hsame (.of_hale (h.inv.tally call owner count) hhale h.announced
      h.owes (.stopping call hasked) h.success)
  | settle call owner count =>
    obtain ⟨hasked, rfl, rfl⟩ := h.stopping call
    obtain ⟨hclosed, _⟩ := h.inv.calling.stopping _ _ call
    obtain ⟨rfl, _⟩ := hhale.plain _ rfl
    have hmem := h.control_mem (by simp [hclosed]) (by simp [call])
    exact hsame (.of_hale (h.inv.settle call owner count) hhale (.inl hmem)
      (h.owed_of call) (.shutting rfl hasked rfl) h.success)
  | @shut next _ _ _ call lt =>
    obtain ⟨hasked, hfed, rfl, rfl, rfl⟩ := h.shutting call
    obtain ⟨hclosed, _⟩ := h.inv.calling.shutting _ _ _ _ call
    obtain ⟨_, _, ⟨_, hhandoff, _⟩, _⟩ := shutLane_spec w next
    have hmem := h.control_mem (by simp [hclosed]) (by simp [call])
    refine hsame (.of_hale (h.inv.shut call) hhale (.inl hmem)
      (h.owed_of call) (.shutting rfl hasked (hhandoff ▸ hfed)) ?_)
    exact (answer_shutLane w next).symm ▸ h.success
  | conclude call le =>
    obtain ⟨hasked, hfed, rfl, rfl, rfl⟩ := h.shutting call
    obtain ⟨hclosed, _⟩ := h.inv.calling.shutting _ _ _ _ call
    have hmem := h.control_mem (by simp [hclosed]) (by simp [call])
    have hout := h.hale.outcome_eq h.inv.size
    refine hsame (.of_hale (h.inv.conclude _) hhale (.inl hmem)
      (h.owed_of call) (.finished rfl hasked hfed hclosed ?_) ?_)
    · rw [hout]
      rfl
    · rw [hout]
      simp [conclude]

/-! ## Every event -/

/-- Nobody stops the writer or lets go of a call. Bytes come from calls to
send them. -/
def Event.isPlain : Event → Bool
  | .work _ | .advance | .writeAll _ | .finish | .room .. => true
  | _ => false

/-- The bytes that a user begins to send. -/
def Event.sends : Event → Bytes
  | .writeAll bytes => bytes
  | _ => []

/-- A call to send bytes, or to finish the writer, begins. -/
theorem Fares.begin (h : Fares n sent asked rows done fed w)
    (hcall : w.call = none) (job : Job) {asked' : Prop} (hno : ¬ asked)
    (hfits : job.Fits asked') :
    Fares n (sent ++ job.owed) asked' rows done fed
      (w.setCall (.opening job)) := by
  have hstage : w.stage ≠ .closed := by
    cases h.course with
    | resting _ _ stage => exact stage
    | sending _ _ _ stage => exact stage
    | stopping _ ha => exact absurd ha hno
    | shutting _ ha _ => exact absurd ha hno
    | finished _ ha _ _ _ => exact absurd ha hno
  have howes : joined fed = sent := by
    have := h.owes
    simpa [owed, hcall] using this
  have hhale : Hale n (w.setCall (.opening job)) := h.hale.setCall hfits.plain
  refine .of_hale (h.inv.begin job) hhale ?_ (by rw [howes]; rfl)
    (.sending rfl rfl hfits hstage) h.success
  refine h.announced.imp_right fun ⟨hfed, hwhy⟩ => ⟨hfed, ?_⟩
  rcases hwhy with hfresh | ⟨_, hoffer⟩
  · exact .inl hfresh
  · rw [hcall] at hoffer
    cases hoffer

theorem Fares.grantRoom (h : Fares n sent asked rows done fed w) (i : Nat)
    (m : Option Nat) :
    Fares n sent asked rows done fed (w.grantRoom i m) := by
  refine .of_hale (h.inv.grantRoom i m) (h.hale.grantRoom i m) h.announced
    h.owes ?_ h.success
  cases h.course with
  | resting call unasked stage => exact .resting call unasked stage
  | sending call part fits stage => exact .sending call part fits stage
  | stopping call ha => exact .stopping call ha
  | shutting call ha fed => exact .shutting call ha fed
  | finished call ha fed stage ans =>
    exact .finished call ha fed stage ans

/-- **Every event**: a writer over sound connections goes on to fare well,
unless it is called again after `finish`. -/
theorem Fares.step (h : Fares n sent asked rows done fed w) {e : Event}
    (he : e.isPlain = true) (hcall : e.isCall = true → ¬ asked)
    (hs : w.step e = some w') :
    ∃ rows' done' fed', (∀ j, rows j <+: rows' j) ∧
      Fares n (sent ++ e.sends) (asked ∨ e = .finish) rows' done' fed'
        w' := by
  have hgo {rows' done' : Nat → List Segment} {fed' : List Segment}
      (hle : ∀ j, rows j <+: rows' j) (hne : e ≠ .finish)
      (hnil : e.sends = [])
      (h' : Fares n sent asked rows' done' fed' w') :
      ∃ rows' done' fed', (∀ j, rows j <+: rows' j) ∧
        Fares n (sent ++ e.sends) (asked ∨ e = .finish) rows' done' fed'
          w' := by
    refine ⟨rows', done', fed', hle, ?_⟩
    have hasked : (asked ∨ e = .finish) = asked := by simp [hne]
    rw [hasked, hnil, List.append_nil]
    exact h'
  cases step_cases hs with
  | work work =>
    obtain ⟨rows', done', hle, h'⟩ := h.work work
    exact hgo hle (by simp) rfl h'
  | advance advance =>
    obtain ⟨rows', fed', hle, h'⟩ := h.advance advance
    exact hgo hle (by simp) rfl h'
  | room i m =>
    exact hgo (fun _ => List.prefix_rfl) (by simp) rfl (h.grantRoom i m)
  | begin idle begins =>
    refine ⟨rows, done, fed, fun _ => List.prefix_rfl, ?_⟩
    cases begins with
    | writeAll =>
      have hno := hcall rfl
      exact h.begin idle (.writeAll _) hno (by simp [Job.Fits, hno])
    | finish => exact h.begin idle (.finish none) (hcall rfl) (.inr rfl)
    | _ => cases he
  | _ => cases he

theorem fares_make {outlets : List Outlet} {config : Config} {w : Writer}
    (h : make outlets config = .ok w)
    (hblank : ∀ c ∈ outlets, c.log = #[] ∧ c.Sound ∧ c.closed = false) :
    Fares outlets.length [] False (fun _ => []) (fun _ => []) [] w := by
  have hinv := inv_make h fun c hc => (hblank c hc).1
  have hhale := hale_make h fun c hc => (hblank c hc).2
  obtain ⟨_, _, rfl⟩ := make_eq_ok h
  exact .of_hale hinv hhale (.inr ⟨rfl, .inl rfl⟩) rfl
    (.resting rfl id (by simp)) (by simp)

end Success

end Stripe.Writer
