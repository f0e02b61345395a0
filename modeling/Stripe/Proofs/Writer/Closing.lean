import Stripe.Proofs.Writer.Fed
import Stripe.Proofs.Writer.Record

/-!
# How a writer ends

A writer is closed once, by a call that is to finish it or by whoever lets
it go, and what was closed or stopped stays so (`Onward`). Three things
follow for every run. A writer of which something was let go will not
finish any more (`Spent`); so one that finishes was never let go. A worker
is told to stop only if a user has asked for that (`Asked`). And the
control segment comes first, unless the call that offers it is given up
(`Announced`). `Reached` collects what every run leads to.
-/

namespace Stripe.Writer

open Segment Barrier

/-- The job is to finish the writer in the end. -/
def Job.finishes : Job → Bool
  | .copy _ _ _ last => last
  | .finish _ => true
  | _ => false

def Call.finishes : Call → Bool
  | .opening job | .offering _ job | .working job => job.finishes
  | .stopping .. | .shutting .. => true

/-- A user begins a call that is to finish the writer. -/
def Event.finishes : Event → Bool
  | .sendFrom _ | .finish => true
  | _ => false

/-- The writer is closed, and no call is there to finish it. -/
def Spent (w : Writer) : Prop :=
  w.stage = .closed ∧ ∀ c, w.call = some c → c.isLast = false

/-- No worker is told to stop, and no call is to finish the writer, unless
a user has asked for that. -/
structure Asked (asked : Prop) (w : Writer) : Prop where
  call : ∀ c, w.call = some c → c.finishes = true → asked
  told : w.Told → asked

/-- The control segment comes first: it was handed over, or it is offered
before anything else is, or the writer is done for. -/
def Announced (n : Nat) (fed : List Segment) (w : Writer) : Prop :=
  .control (.ofNat n) ∈ fed ∨ w.cancelled = true ∨ w.Spent ∨
    fed = [] ∧ (w.stage = .fresh ∨
      ∃ job, w.call = some (.offering (.control (.ofNat n)) job))

/-- What goes one way only, whatever happens. -/
structure Onward (e : Event) (w w' : Writer) : Prop where
  config : w'.config = w.config
  closed : w.stage = .closed → w'.stage = .closed ∧ w'.cursor = w.cursor
  cancelled : w.cancelled = true → w'.cancelled = true
  told : w'.Told → w.Told ∨ ∃ c, w.call = some c ∧ c.finishes = true
  last : ∀ c', w'.call = some c' → c'.isLast = true →
    w.stage ≠ .closed ∨ ∃ c, w.call = some c ∧ c.isLast = true
  finishes : ∀ c', w'.call = some c' → c'.finishes = true →
    e.finishes = true ∨ ∃ c, w.call = some c ∧ c.finishes = true

section Onward

variable {n : Nat} {loose asked : Prop} {rows done : Nat → List Segment}
  {fed : List Segment} {k : Record} {w w' : Writer} {e : Event}

/-- The writer was not closed, and no worker is told to stop. -/
theorem Onward.of_same (config : w'.config = w.config)
    (stage : w'.stage = w.stage)
    (cursor : w'.cursor = w.cursor)
    (cancelled : w.cancelled = true → w'.cancelled = true)
    (tokens : ∀ j, w'.barrier.token j = .sent → w.barrier.token j = .sent)
    (call : ∀ c', w'.call = some c' →
      (c'.isLast = true → ∃ c, w.call = some c ∧ c.isLast = true) ∧
      (c'.finishes = true →
        e.finishes = true ∨ ∃ c, w.call = some c ∧ c.finishes = true)) :
    Onward e w w' where
  config := config
  closed hs := ⟨stage.trans hs, cursor⟩
  cancelled := cancelled
  told := fun ⟨j, hj⟩ => .inl ⟨j, tokens j hj⟩
  last c' hc hl := .inr ((call c' hc).1 hl)
  finishes c' hc hf := (call c' hc).2 hf

/-- A call begins to finish a writer that was not closed. -/
theorem Onward.of_open (config : w'.config = w.config)
    (stage : w.stage ≠ .closed)
    (cancelled : w.cancelled = true → w'.cancelled = true)
    (tokens : ∀ j, w'.barrier.token j = .sent → w.barrier.token j = .sent)
    (call : ∀ c', w'.call = some c' → c'.finishes = true →
      ∃ c, w.call = some c ∧ c.finishes = true) : Onward e w w' where
  config := config
  closed hs := absurd hs stage
  cancelled := cancelled
  told := fun ⟨j, hj⟩ => .inl ⟨j, tokens j hj⟩
  last _ _ _ := .inl stage
  finishes c' hc hf := .inr (call c' hc hf)

/-- No call is in flight any more. -/
theorem Onward.of_over (config : w'.config = w.config)
    (call : w'.call = none)
    (cursor : w'.cursor = w.cursor)
    (stage : w.stage = .closed → w'.stage = .closed)
    (cancelled : w.cancelled = true → w'.cancelled = true)
    (tokens : ∀ j, w'.barrier.token j = .sent → w.barrier.token j = .sent) :
    Onward e w w' where
  config := config
  closed hs := ⟨stage hs, cursor⟩
  cancelled := cancelled
  told := fun ⟨j, hj⟩ => .inl ⟨j, tokens j hj⟩
  last _ hc := by simp [call] at hc
  finishes _ hc := by simp [call] at hc

/-- A call cannot go on. -/
theorem Onward.reject {v : Writer} {call : Call} {job : Job} (err : Error)
    (hv : v.config = w.config ∧ v.stage = w.stage ∧ v.cursor = w.cursor ∧
      v.cancelled = w.cancelled ∧ v.barrier = w.barrier)
    (hc : w.call = some call) (hf : call.finishes = job.finishes) :
    Onward e w (v.reject err job) := by
  obtain ⟨hconfig, hstage, hcursor, hcancelled, hbarrier⟩ := hv
  generalize hr : v.reject err job = v'
  cases reject_cases hr with
  | turn =>
    refine .of_same hconfig hstage hcursor (fun _ => rfl) (fun j => ?_) ?_
    · show v.barrier.token j = _ → _
      rw [hbarrier]
      exact id
    · rintro c' ⟨⟩
      exact ⟨nofun, fun _ => .inr ⟨call, hc, hf⟩⟩
  | close stage =>
    refine .of_open hconfig (by simp [← hstage, stage]) (hcancelled.trans ·)
      (fun j => ?_) ?_
    · show v.barrier.start.token j = _ → _
      rw [token_start, hbarrier]
      exact id
    · rintro c' ⟨⟩ _
      exact ⟨call, hc, hf⟩
  | fails e' =>
    refine .of_over hconfig rfl hcursor (hstage.trans ·) (hcancelled.trans ·)
      (fun j => ?_)
    show v.barrier.token j = _ → _
    rw [hbarrier]
    exact id

/-- The call goes on with its job. -/
theorem Onward.recall {c c' : Call} (hc : w.call = some c)
    (hlast : c'.isLast = c.isLast) (hf : c'.finishes = c.finishes) :
    Onward e w (w.setCall c') := by
  refine .of_same rfl rfl rfl id (fun _ => id) ?_
  rintro c₁ ⟨⟩
  exact ⟨fun hl => ⟨c, hc, hlast ▸ hl⟩, fun hf' => .inr ⟨c, hc, hf ▸ hf'⟩⟩

theorem Onward.conclude (a : Answer) : Onward e w (w.conclude a) :=
  .of_over rfl rfl rfl id id fun _ => id

/-- The call goes on. -/
theorem Inv.onward_advance (h : Inv n loose rows done fed w)
    (ha : w.advance = some w') : Onward .advance w w' := by
  cases advance_cases h.maxLen ha with
  | @start job call stage =>
    refine .of_open rfl (by simp [stage]) id (fun _ => id) ?_
    rintro c' ⟨⟩ hf
    exact ⟨_, call, hf⟩
  | resume call stage => exact .recall call rfl rfl
  | late call stage => exact .reject _ ⟨rfl, rfl, rfl, rfl, rfl⟩ call rfl
  | abort call stopped => exact .reject _ ⟨rfl, rfl, rfl, rfl, rfl⟩ call rfl
  | alone call going send fails waits =>
    exact .reject _ ⟨rfl, rfl, rfl, rfl, rfl⟩ call rfl
  | hand call going send =>
    have hrunning := (h.calling.offering _ _ call).1
    refine .of_open rfl (by simp [hrunning]) id (fun _ => id) ?_
    rintro c' ⟨⟩ hf
    exact ⟨_, call, hf⟩
  | proceed call proceeds =>
    have hrunning := h.calling.working _ call
    cases proceeds with
    | nothing => exact .conclude _
    | wrote => exact .conclude _
    | sent => exact .conclude _
    | copied => exact .conclude _
    | piece pos => exact .recall call rfl rfl
    | chunk pos => exact .recall call rfl rfl
    | broken fill => exact .reject _ ⟨rfl, rfl, rfl, rfl, rfl⟩ call rfl
    | drained fill => exact .recall call rfl rfl
    | cut pos fill => exact .recall call rfl rfl
    | turn => exact .recall call rfl rfl
    | close =>
      refine .of_open rfl (by simp [hrunning]) id (fun j => ?_) ?_
      · show w.barrier.start.token j = _ → _
        rw [token_start]
        exact id
      · rintro c' ⟨⟩ _
        exact ⟨_, call, rfl⟩
  | announce call owner =>
    exact
      { config := rfl
        closed := fun hs => ⟨hs, rfl⟩
        cancelled := id
        told := fun _ => .inr ⟨_, call, rfl⟩
        last := fun _ _ _ => .inr ⟨_, call, rfl⟩
        finishes := fun _ _ _ => .inr ⟨_, call, rfl⟩ }
  | tally call owner count =>
    obtain ⟨_, _, hspec, _⟩ := h.count call owner count
    cases hspec with
    | more taken lt =>
      exact .of_same rfl rfl rfl id (fun _ => id) fun c' hc' =>
        ⟨fun hl => ⟨c', hc', hl⟩, fun hf => .inr ⟨c', hc', hf⟩⟩
  | settle call owner count =>
    obtain ⟨_, _, hspec, _⟩ := h.count call owner count
    have hsame (inbox : List Nat) (next : Nat) (started copied : Option Error) :
        Onward .advance w ({ w with
          barrier := { w.barrier with inbox, owner := .released }
          handoff := w.handoff.close }.setCall
            (.shutting 0 next started copied)) :=
      .of_same rfl rfl rfl id (fun _ => id) fun _ _ =>
        ⟨fun _ => ⟨_, call, rfl⟩, fun _ => .inr ⟨_, call, rfl⟩⟩
    cases hspec with
    | all taken le => exact hsame _ _ _ _
    | nobody empty deserted => exact hsame _ _ _ _
  | @shut next _ started copied call lt =>
    obtain ⟨_, ⟨hconfig, hcursor, _⟩, ⟨hstage, _, hbarrier⟩, hstop, _⟩ :=
      shutLane_spec w next
    refine .of_same hconfig hstage hcursor hstop (fun j => ?_) fun _ _ =>
      ⟨fun _ => ⟨_, call, rfl⟩, fun _ => .inr ⟨_, call, rfl⟩⟩
    show (w.shutLane next).barrier.token j = _ → _
    rw [hbarrier]
    exact id
  | conclude call le => exact .conclude _

theorem Event.Begins.finishes {job : Job} (h : e.Begins job) :
    job.finishes = e.finishes := by
  cases h <;> rfl

theorem token_abandon {j : Nat}
    (h : w.abandon.barrier.token j = .sent) : w.barrier.token j = .sent := by
  unfold Writer.abandon at h
  split at h
  · exact token_release h
  · exact token_release h
  · exact h

/-- **What was closed, stopped or asked for stays so**, whatever happens. -/
theorem Inv.onward (h : Inv n loose rows done fed w)
    (hs : w.step e = some w') : Onward e w w' := by
  cases step_cases hs with
  | work work =>
    have hworked := h.worked work
    obtain ⟨hconfig, hstage, hcursor, hcall, _, hcancelled⟩ := hworked.frame
    refine .of_same hconfig hstage hcursor hcancelled
      (fun j => (hworked.token j) ▸ id) fun c' hc' => ?_
    rw [hcall] at hc'
    exact ⟨fun hl => ⟨c', hc', hl⟩, fun hf => .inr ⟨c', hc', hf⟩⟩
  | advance advance => exact h.onward_advance advance
  | begin idle begins =>
    refine .of_same rfl rfl rfl id (fun _ => id) ?_
    rintro c' ⟨⟩
    exact ⟨nofun, fun hj => .inl (begins.finishes ▸ hj)⟩
  | abandon busy =>
    exact .of_over (by simp) (by simp) (by simp) (by simp) (by simp)
      fun _ => token_abandon
  | cancel =>
    exact .of_same rfl rfl rfl (fun _ => rfl) (fun _ => id) fun c' hc' =>
      ⟨fun hl => ⟨c', hc', hl⟩, fun hf => .inr ⟨c', hc', hf⟩⟩
  | drop =>
    refine .of_over (by simp) (by simp) (by simp) (by simp) ?_ ?_
    · unfold Writer.drop
      split
      · exact id
      · exact fun _ => rfl
      · exact (cancelled_abandon w).trans
    · intro j
      unfold Writer.drop
      split
      · exact id
      · exact token_release
      · exact token_abandon
  | room i m =>
    exact .of_same rfl rfl rfl id (fun _ => id) fun c' hc' =>
      ⟨fun hl => ⟨c', hc', hl⟩, fun hf => .inr ⟨c', hc', hf⟩⟩

theorem Onward.spent (h : Onward e w w') (hs : w.Spent) : w'.Spent := by
  obtain ⟨hclosed, hcall⟩ := hs
  refine ⟨(h.closed hclosed).1, fun c' hc' => ?_⟩
  cases hlast : c'.isLast with
  | false => rfl
  | true =>
    rcases h.last c' hc' hlast with hopen | ⟨c, hc, hl⟩
    · exact absurd hclosed hopen
    · rw [hcall c hc] at hl
      cases hl

theorem Asked.onward (ha : Asked asked w) (h : Onward e w w') :
    Asked (e.finishes = true ∨ asked) w' := by
  refine ⟨fun c' hc' hf => ?_, fun ht => ?_⟩
  · exact (h.finishes c' hc' hf).imp_right fun ⟨c, hc, hf⟩ =>
      ha.call c hc hf
  · rcases h.told ht with htold | ⟨c, hc, hf⟩
    · exact .inr (ha.told htold)
    · exact .inr (ha.call c hc hf)

/-! ## The first call -/

/-- A call that has begun to stop the workers has closed the writer. -/
theorem Inv.closed_of_last (h : Inv n loose rows done fed w) {c : Call}
    (hc : w.call = some c) (hl : c.isLast = true) : w.stage = .closed := by
  cases c with
  | stopping started copied => exact (h.calling.stopping _ _ hc).1
  | shutting next k started copied => exact (h.calling.shutting _ _ _ _ hc).1
  | _ => cases hl

/-- A writer of which something was let go is done for. -/
theorem Inv.spent_of_letsGo (h : Inv n loose rows done fed w)
    (hs : w.step e = some w') (hl : w.LetsGo e) : w'.Spent := by
  rcases hl with rfl | ⟨rfl, c, hc, hlast⟩
  · cases hs
    exact ⟨stage_drop w, by simp⟩
  · obtain ⟨_, he⟩ := Option.ite_none_right_eq_some.1 hs
    cases he
    exact ⟨(stage_abandon w).trans (h.closed_of_last hc hlast), by simp⟩

/-- The call moves, and nothing was handed over before. -/
theorem Inv.announced_advance (h : Inv n loose rows done [] w)
    (hl : ¬ loose) (hw : w.stage = .fresh ∨
      ∃ job, w.call = some (.offering (.control (.ofNat n)) job))
    (ha : w.advance = some w') : Announced n (handed w w') w' := by
  have hno {c : Call} (hc : w.call = some c)
      (hother : ∀ s job, c ≠ .offering s job) (hs : w.stage ≠ .fresh) :
      False := by
    rcases hw with hfresh | ⟨job, hoffer⟩
    · exact hs hfresh
    · rw [hc] at hoffer
      exact hother _ _ (Option.some.inj hoffer)
  have hlast {c : Call} (hc : w.call = some c) (hlast : c.isLast = true) :
      False := by
    refine hno hc ?_ (by simp [h.closed_of_last hc hlast])
    rintro s job rfl
    cases hlast
  cases advance_cases h.maxLen ha with
  | @start job call stage =>
    refine .inr (.inr (.inr ⟨handed_of_not_offering (by simp [call]), ?_⟩))
    refine .inr ⟨job, ?_⟩
    rw [connections, h.size]
    rfl
  | resume call stage => exact (hno call (by simp) (by simp [stage])).elim
  | late call stage => exact (hno call (by simp) (by simp [stage])).elim
  | abort call stopped =>
    exact .inr (.inl ((h.onward_advance ha).cancelled stopped))
  | hand call going send =>
    have hrunning := (h.calling.offering _ _ call).1
    rcases hw with hfresh | ⟨job, hoffer⟩
    · rw [hrunning] at hfresh
      cases hfresh
    · rw [call] at hoffer
      cases hoffer
      exact .inl (by simp [handed, call, setCall])
  | alone call going send fails waits =>
    -- all workers have left, though they were handed nothing
    have hrunning := (h.calling.offering _ _ call).1
    have hopen : ¬ w.Told := by
      intro ht
      rw [h.closed_of_told ht] at hrunning
      cases hrunning
    obtain ⟨lane, hlane⟩ := h.lane_of_lt h.pos
    have hover := h.over_of_refused hl hrunning send fails waits lane.phase
      (List.mem_of_getElem? (phases_eq_some hlane))
    rcases h.excused_of_over hlane hover (h.rows_nil hopen rfl h.pos) with
      hstop | hloose
    · rw [going] at hstop
      cases hstop
    · exact absurd hloose hl
  | proceed call proceeds =>
    exact (hno call (by simp) (by simp [h.calling.working _ call])).elim
  | announce call owner => exact (hlast call rfl).elim
  | tally call owner count => exact (hlast call rfl).elim
  | settle call owner count => exact (hlast call rfl).elim
  | shut call lt => exact (hlast call rfl).elim
  | conclude call le => exact (hlast call rfl).elim

/-- **The control segment comes first**, unless a call is given up. -/
theorem Announced.step (ha : Announced n fed w)
    (h : Inv n loose rows done fed w) (hl : loose → w.Spent)
    (he : e ≠ .abandon) (hs : w.step e = some w') :
    Announced n (fed ++ handed w w') w' := by
  have honward := h.onward hs
  rcases ha with hmem | hstop | hspent | ⟨rfl, hw⟩
  · exact .inl (List.mem_append_left _ hmem)
  · exact .inr (.inl (honward.cancelled hstop))
  · exact .inr (.inr (.inl (honward.spent hspent)))
  -- nothing was handed over, and nothing is now
  have hstay (hstage : w'.stage = w.stage)
      (hcall : w'.call = w.call ∨ w.call = none) :
      Announced n ([] ++ handed w w') w' := by
    refine .inr (.inr (.inr ⟨?_, ?_⟩))
    · rcases hcall with hc | hc
      · exact handed_of_call_eq hc
      · exact handed_of_not_offering (by simp [hc])
    · rw [hstage]
      refine hw.imp_right fun ⟨job, hoffer⟩ => ?_
      rcases hcall with hc | hc
      · exact ⟨job, hc.trans hoffer⟩
      · rw [hc] at hoffer
        cases hoffer
  cases step_cases hs with
  | work work =>
    obtain ⟨_, hstage, _, hcall, _⟩ := (h.worked work).frame
    exact hstay hstage (.inl hcall)
  | advance advance =>
    refine h.announced_advance (fun hloose => ?_) hw advance
    -- a writer that is done for offers nothing any more
    obtain ⟨hclosed, _⟩ := hl hloose
    rcases hw with hfresh | ⟨job, hoffer⟩
    · rw [hclosed] at hfresh
      cases hfresh
    · rw [(h.calling.offering _ _ hoffer).1] at hclosed
      cases hclosed
  | begin idle begins => exact hstay rfl (.inr idle)
  | abandon busy => exact absurd rfl he
  | cancel => exact .inr (.inl rfl)
  | drop => exact .inr (.inr (.inl (h.spent_of_letsGo hs (.inl rfl))))
  | room i m => exact hstay rfl (.inl rfl)

/-! ## Every run -/

/-- What the events `es` have led to, of which `k` is the record. -/
structure Reached (n : Nat) (es : List Event) (k : Record)
    (loose : Prop) (rows done : Nat → List Segment) (w : Writer) : Prop where
  inv : Inv n loose rows done k.fed w
  spent : loose → w.Spent
  fits : k.Fits w
  asked : Asked (∃ e ∈ es, e.finishes = true) w
  announced : .abandon ∉ es → Announced n k.fed w

theorem Record.fed_next (k : Record) (hs : w.step e = some w') :
    (k.next w w' e).fed = k.fed ++ handed w w' := by
  cases step_cases hs with
  | begin idle begins =>
    rw [handed_of_not_offering (by simp [idle]), List.append_nil,
      Record.next, if_pos begins.isCall]
  | _ => rfl

/-- **Every event** leads to a state like that again. -/
theorem Reached.step {es : List Event} (h : Reached n es k loose rows done w)
    (hs : w.step e = some w') : ∃ rows' done',
      (∀ j, rows j <+: rows' j) ∧
      Reached n (es ++ [e]) (k.next w w' e) (loose ∨ w.LetsGo e) rows' done'
        w' := by
  obtain ⟨rows', done', hle, hinv⟩ := h.inv.step hs
  have honward := h.inv.onward hs
  refine ⟨rows', done', hle, ?_⟩
  exact
    { inv := by
        rw [k.fed_next hs]
        exact hinv
      spent := by
        rintro (hloose | hlets)
        · exact honward.spent (h.spent hloose)
        · exact h.inv.spent_of_letsGo hs hlets
      fits := h.fits.step h.inv hs
      asked := by
        have hasked := h.asked.onward honward
        simpa [or_comm] using hasked
      announced := by
        intro hno
        rw [k.fed_next hs]
        refine (h.announced fun hmem => hno ?_).step h.inv h.spent ?_ hs
        · exact List.mem_append_left _ hmem
        · rintro rfl
          exact hno (by simp) }

/-- The control segment was handed over, if the writer runs on. -/
theorem Reached.control_mem {es : List Event}
    (h : Reached n es k loose rows done w) (hno : .abandon ∉ es)
    (hgo : w.cancelled = false) (hspent : ¬ w.Spent) (hs : w.stage ≠ .fresh)
    (hc : ∀ s job, w.call ≠ some (.offering s job)) :
    .control (.ofNat n) ∈ k.fed := by
  rcases h.announced hno with hmem | hstop | hdone | ⟨_, hfresh | ⟨_, hcall⟩⟩
  · exact hmem
  · rw [hgo] at hstop
    cases hstop
  · exact absurd hdone hspent
  · exact absurd hfresh hs
  · exact absurd hcall (hc _ _)

theorem reached_make {outlets : List Outlet} {config : Config}
    (hmake : make outlets config = .ok w)
    (hblank : ∀ c ∈ outlets, c.log = #[]) :
    Reached outlets.length [] .blank False (fun _ => []) (fun _ => [])
      w := by
  have hinv := inv_make hmake hblank
  obtain ⟨_, _, hw⟩ := make_eq_ok hmake
  have hcall : w.call = none := by rw [hw]
  have hstage : w.stage = .fresh := by rw [hw]
  exact
    { inv := hinv
      spent := False.elim
      fits := fits_blank hcall
      asked := by
        refine ⟨by simp [hcall], fun htold => ?_⟩
        have hclosed := hinv.closed_of_told htold
        rw [hstage] at hclosed
        cases hclosed
      announced := fun _ => .inr (.inr (.inr ⟨rfl, .inl hstage⟩)) }

/-- **What every run leads to.** -/
theorem reached_run {outlets : List Outlet} {config : Config}
    {es : List Event} {w₀ : Writer} (hmake : make outlets config = .ok w₀)
    (hblank : ∀ c ∈ outlets, c.log = #[]) (hrun : run step w₀ es = some w) :
    w.config = config ∧ ∃ loose rows done,
      Reached outlets.length es (recordOf w₀ es) loose rows done w := by
  refine accompany (P := fun es k w => w.config = config ∧
    ∃ loose rows done, Reached outlets.length es k loose rows done w)
    ?_ ?_ hrun
  · obtain ⟨_, _, hw⟩ := make_eq_ok hmake
    exact ⟨by rw [hw], _, _, _, reached_make hmake hblank⟩
  · rintro past e k w w' _ ⟨hconfig, loose, rows, done, h⟩ hs
    obtain ⟨rows', done', _, h'⟩ := h.step hs
    exact ⟨(h.inv.onward hs).config.trans hconfig, _, rows', done', h'⟩

end Onward

end Stripe.Writer
