import Stripe.Proofs.Writer.Record
import Stripe.Proofs.Writer.Slices

/-!
# All ways of feeding a writer cut the stream alike

A stream is fed to a fresh writer by `write`, called again and again on
what is left of it, by one `writeAll`, or by one `copyFrom` from a source
that yields it in any chunks. As long as no hand-off fails, the segments
that are handed over are the same.

What a call has in mind tells what it will hand over, what it will answer,
and how many moves it will take (`Plans`, `Ahead`). A move hands over the
first of these segments, or none, and what is ahead of the call afterwards
is the rest (`Ahead.advance`). So at every moment what was handed over and
what is ahead make up the same row (`Ahead.served`).
-/

namespace Stripe.Writer

open Segment

/-! ## What is ahead of a call -/

/-- What a job will hand over from `cursor` on, what the call will answer,
and how many moves it takes at most, if no hand-off fails. -/
inductive Plans (config : Config) (cursor : Nat) :
    Job → List Segment → Answer → Nat → Prop where
  | nothing : Plans config cursor (.write []) [] (.wrote 0) 1
  | piece {bytes : Bytes} (pos : bytes ≠ []) :
      Plans config cursor (.write bytes)
        [.data (bytes.take config.maxSegmentLen) (.ofNat cursor) .none]
        (.wrote (bytes.take config.maxSegmentLen).length) 3
  | wrote {count : Nat} :
      Plans config cursor (.wrote count) [] (.wrote count) 1
  | all {bytes : Bytes} {segs : List Segment}
      (made : segs = config.slices cursor bytes) :
      Plans config cursor (.writeAll bytes) segs .done
        (2 * segs.length + 1)
  | copied {source : List Inlet.Item} {count : Nat} :
      Plans config cursor (.copy source count true false) []
        (.copied count) 1
  /-- The source yields `bytes`. -/
  | copy {source : List Inlet.Item} {count total : Nat} {bytes : Bytes}
      {segs : List Segment}
      (tape : (Inlet.script source).tape = Tape.clean bytes)
      (made : segs = config.slices cursor bytes)
      (all : total = count + bytes.length) :
      Plans config cursor (.copy source count false false) segs
        (.copied total) (2 * segs.length + 2)
  /-- The source yields `bytes`, and then fails. -/
  | broken {source : List Inlet.Item} {count : Nat} {bytes : Bytes}
      {cause : IoError} {later : Tape} {segs : List Segment}
      (tape : (Inlet.script source).tape =
        Tape.clean bytes ++ .error cause :: later)
      (made : segs = (config.slices cursor bytes).take
        (bytes.length / config.maxSegmentLen)) :
      Plans config cursor (.copy source count false false) segs
        (.failed (.source cause)) (2 * segs.length + 1)

/-- What is handed over before anything else. -/
def due (w : Writer) : List Segment :=
  if w.stage = .fresh then [.control (.ofNat w.connections)] else []

@[simp] theorem joined_due (w : Writer) : joined w.due = [] := by
  unfold due
  split <;> rfl

@[simp] theorem dataOf_due (w : Writer) : dataOf w.due = [] := by
  unfold due
  split <;> rfl

/-- What the call in flight will hand over, what it will answer, and how
many moves it takes at most. -/
inductive Ahead (w : Writer) : List Segment → Answer → Nat → Prop where
  | ended {a : Answer} {m : Nat} (call : w.call = none)
      (answer : w.answer = some a) (stage : w.stage = .running) :
      Ahead w [] a m
  | opening {job : Job} {segs : List Segment} {a : Answer} {m : Nat}
      (call : w.call = some (.opening job)) (stage : w.stage ≠ .closed)
      (plans : Plans w.config w.cursor job segs a m) :
      Ahead w (w.due ++ segs) a (m + 2)
  | working {job : Job} {segs : List Segment} {a : Answer} {m : Nat}
      (call : w.call = some (.working job)) (stage : w.stage = .running)
      (plans : Plans w.config w.cursor job segs a m) : Ahead w segs a m
  | offering {s : Segment} {job : Job} {segs : List Segment} {a : Answer}
      {m : Nat} (call : w.call = some (.offering s job))
      (stage : w.stage = .running)
      (plans : Plans w.config (w.cursor + s.length) job segs a m) :
      Ahead w (s :: segs) a (m + 1)

section Ahead

variable {w w' v : Writer} {segs : List Segment} {a : Answer} {m : Nat}
  {job : Job}

/-- A job has gone on: what it will hand over and answer is the same, and it
takes fewer moves. -/
structure Nearer (w : Writer) (segs : List Segment) (a : Answer) (m : Nat)
    (w' : Writer) : Prop where
  config : w'.config = w.config
  cursor : w'.cursor = w.cursor
  ahead : ∃ m', m' < m ∧ Ahead w' segs a m'

/-- Copying goes on as planned, if the source does not fail. -/
theorem Proceeds.copy {source : List Inlet.Item} {count : Nat}
    {bytes : Bytes} (h : Proceeds w (.copy source count false false) w')
    (hm : 0 < w.config.maxSegmentLen) (hs : w.stage = .running)
    (tape : (Inlet.script source).tape = Tape.clean bytes) :
    Nearer w (w.config.slices w.cursor bytes)
      (.copied (count + bytes.length))
      (2 * (w.config.slices w.cursor bytes).length + 2) w' := by
  rw [← List.append_nil (Tape.clean bytes)] at tape
  cases h with
  | broken fill =>
    cases fill_spec Tape.stops_nil tape fill with
    | failed lt fails => cases fails
  | drained fill =>
    cases fill_spec Tape.stops_nil tape fill with
    | full len front tape =>
      rw [List.length_nil] at len
      omega
    | short lt ends =>
      rw [Config.slices_nil]
      exact ⟨rfl, rfl, 1, by simp, .working rfl hs .copied⟩
  | @cut _ rest piece _ _ pos fill =>
    cases fill_spec Tape.stops_nil tape fill with
    | @full _ later _ len front htape =>
      subst front
      rw [Config.slices_append pos len, List.length_append, ← Nat.add_assoc]
      rw [List.append_nil] at htape
      rw [decide_eq_false (by omega)]
      refine ⟨rfl, rfl, _, ?_, .offering rfl hs (.copy htape rfl rfl)⟩
      rw [List.length_cons]
      exact Nat.lt_succ_self _
    | short lt ends =>
      rw [Config.slices_of_short pos lt]
      refine ⟨rfl, rfl, 2, by simp, .offering rfl hs ?_⟩
      rw [decide_eq_true lt]
      exact .copied

/-- Copying goes on as planned, if the source yields `bytes` and fails. -/
theorem Proceeds.copy_broken {source : List Inlet.Item} {count : Nat}
    {bytes : Bytes} {cause : IoError} {later : Tape}
    (h : Proceeds w (.copy source count false false) w')
    (hm : 0 < w.config.maxSegmentLen) (hs : w.stage = .running)
    (tape : (Inlet.script source).tape =
      Tape.clean bytes ++ .error cause :: later) :
    Nearer w ((w.config.slices w.cursor bytes).take
        (bytes.length / w.config.maxSegmentLen))
      (.failed (.source cause))
      (2 * ((w.config.slices w.cursor bytes).take
        (bytes.length / w.config.maxSegmentLen)).length + 1) w' := by
  have hstops := Tape.stops_error cause later
  cases h with
  | broken fill =>
    cases fill_spec hstops tape fill with
    | failed lt fails =>
      cases fails
      rw [Nat.div_eq_of_lt lt, List.take_zero]
      exact ⟨rfl, rfl, 0, by simp, .ended rfl rfl hs⟩
  | drained fill =>
    cases fill_spec hstops tape fill with
    | full len front tape =>
      rw [List.length_nil] at len
      omega
    | short lt ends => cases ends
  | @cut _ rest piece _ _ pos fill =>
    cases fill_spec hstops tape fill with
    | @full _ more _ len front htape =>
      subst front
      have hdiv : (piece ++ more).length / w.config.maxSegmentLen =
          more.length / w.config.maxSegmentLen + 1 := by
        rw [List.length_append, len, Nat.add_div_left _ hm]
      rw [Config.slices_append pos len, hdiv, List.take_succ_cons]
      rw [decide_eq_false (by omega)]
      refine ⟨rfl, rfl, _, ?_, .offering rfl hs (.broken htape rfl)⟩
      rw [List.length_cons]
      exact Nat.lt_succ_self _
    | short lt ends => cases ends

/-- **A job goes on as planned.** -/
theorem Plans.proceed (hp : Plans w.config w.cursor job segs a m)
    (hm : 0 < w.config.maxSegmentLen) (hs : w.stage = .running)
    (h : Proceeds w job w') :
    Nearer w segs a m w' := by
  cases hp with
  | nothing =>
    cases h with
    | nothing => exact ⟨rfl, rfl, 0, by omega, .ended rfl rfl hs⟩
    | piece pos => exact absurd rfl pos
  | @piece bytes pos =>
    cases h with
    | nothing => exact absurd rfl pos
    | piece pos' => exact ⟨rfl, rfl, 2, by omega, .offering rfl hs .wrote⟩
  | wrote =>
    cases h with
    | wrote => exact ⟨rfl, rfl, 0, by omega, .ended rfl rfl hs⟩
  | @all bytes segs made =>
    cases h with
    | sent =>
      rw [Config.slices_nil] at made
      subst made
      exact ⟨rfl, rfl, 0, by simp, .ended rfl rfl hs⟩
    | chunk pos =>
      rw [Config.slices_of_ne_nil hm pos] at made
      subst made
      refine ⟨rfl, rfl, _, ?_, .offering rfl hs (.all rfl)⟩
      rw [List.length_cons]
      exact Nat.lt_succ_self _
  | copied =>
    cases h with
    | copied => exact ⟨rfl, rfl, 0, by omega, .ended rfl rfl hs⟩
  | copy tape made all =>
    subst made all
    exact h.copy hm hs tape
  | broken tape made =>
    subst made
    exact h.copy_broken hm hs tape

/-- The writer has not changed for the call. -/
structure Aside (w w' : Writer) : Prop where
  config : w'.config = w.config
  stage : w'.stage = w.stage
  cursor : w'.cursor = w.cursor
  call : w'.call = w.call
  answer : w'.answer = w.answer
  connections : w'.connections = w.connections

/-- One lane has changed. -/
theorem aside_of_set {i : Nat} {lane : Lane} (config : w'.config = w.config)
    (stage : w'.stage = w.stage) (cursor : w'.cursor = w.cursor)
    (call : w'.call = w.call) (answer : w'.answer = w.answer)
    (lanes : w'.lanes = w.lanes.set i lane) : Aside w w' :=
  ⟨config, stage, cursor, call, answer,
    (congrArg List.length lanes).trans (List.length_set ..)⟩

theorem Worked.aside {i : Nat} (h : Worked i w w') : Aside w w' := by
  cases h with
  | post lane slot receives slot' queue => exact ⟨rfl, rfl, rfl, rfl, rfl, rfl⟩
  | @written c c' phase s rest lane part going write =>
    cases phase with
    | writing u r last =>
      cases last <;> exact aside_of_set rfl rfl rfl rfl rfl rfl
    | _ => exact aside_of_set rfl rfl rfl rfl rfl rfl
  | _ => exact aside_of_set rfl rfl rfl rfl rfl rfl

/-- What a worker does is nothing to the call. -/
theorem aside_work {i : Nat} (h : w.work i = some w') : Aside w w' := by
  by_cases hidle : ∃ c, w.lanes[i]? = some ⟨c, .idle⟩
  · obtain ⟨c, hl⟩ := hidle
    simp only [work, hl, lookForSegment] at h
    split at h
    · cases h
      exact aside_of_set rfl rfl rfl rfl rfl rfl
    · split at h
      · cases h
        exact ⟨rfl, rfl, rfl, rfl, rfl, rfl⟩
      · split at h
        · cases h
          exact aside_of_set rfl rfl rfl rfl rfl rfl
        · cases h
    · cases h
      exact aside_of_set rfl rfl rfl rfl rfl rfl
  · exact (work_cases (fun c hl => absurd ⟨c, hl⟩ hidle) h).aside

theorem Ahead.aside (h : Ahead w segs a m) (same : Aside w w') :
    Ahead w' segs a m := by
  obtain ⟨hconfig, hstage, hcursor, hcall, hanswer, hcount⟩ := same
  cases h with
  | ended call answer stage =>
    exact .ended (hcall.trans call) (hanswer.trans answer)
      (hstage.trans stage)
  | opening call stage plans =>
    have hdue : w'.due = w.due := by
      simp only [due, hstage, hcount]
    rw [← hdue]
    exact .opening (hcall.trans call) (hstage ▸ stage)
      (hconfig ▸ hcursor ▸ plans)
  | working call stage plans =>
    exact .working (hcall.trans call) (hstage.trans stage)
      (hconfig ▸ hcursor ▸ plans)
  | offering call stage plans =>
    exact .offering (hcall.trans call) (hstage.trans stage)
      (hconfig ▸ hcursor ▸ plans)

/-- The move of a call is not a hand-off that fails. -/
def handsOver (w w' : Writer) : Bool :=
  match w.call with
  | some (.offering _ job) => w'.call = some (.working job)
  | _ => true

/-- **A move of the call** hands over the first of the segments that are
ahead of it, or none. -/
theorem Ahead.advance (h : Ahead w segs a m)
    (hm : 0 < w.config.maxSegmentLen) (ha : w.advance = some w')
    (hands : w.handsOver w' = true) : ∃ segs' m', m' < m ∧
      Ahead w' segs' a m' ∧ segs = handed w w' ++ segs' ∧
      w'.config = w.config ∧
      w'.cursor = w.cursor + (joined (handed w w')).length := by
  have hquiet (hno : ∀ s job, w.call ≠ some (.offering s job))
      (hcursor : w'.cursor = w.cursor) (hconfig : w'.config = w.config)
      (h' : ∃ m', m' < m ∧ Ahead w' segs a m') : ∃ segs' m', m' < m ∧
        Ahead w' segs' a m' ∧ segs = handed w w' ++ segs' ∧
        w'.config = w.config ∧
        w'.cursor = w.cursor + (joined (handed w w')).length := by
    obtain ⟨m', hlt, hahead⟩ := h'
    rw [handed_of_not_offering hno]
    exact ⟨segs, m', hlt, hahead, rfl, hconfig, hcursor⟩
  cases h with
  | ended call answer stage => simp [Writer.advance, call] at ha
  | @opening job segs a m call stage plans =>
    simp only [Writer.advance, call, openWith, Option.some.injEq] at ha
    cases hs : w.stage with
    | closed => exact absurd hs stage
    | fresh =>
      simp only [hs] at ha
      subst ha
      refine hquiet (by simp [call]) rfl rfl ⟨m + 1, by omega, ?_⟩
      rw [due, if_pos hs]
      exact .offering rfl rfl plans
    | running =>
      simp only [hs] at ha
      subst ha
      refine hquiet (by simp [call]) rfl rfl ⟨m, by omega, ?_⟩
      rw [due, if_neg (by simp [hs])]
      exact .working rfl hs plans
  | @working job segs a m call stage plans =>
    simp only [Writer.advance, call, Option.some.injEq] at ha
    have hp := proceed_cases w hm job
    rw [ha] at hp
    obtain ⟨hconfig, hcursor, hahead⟩ := plans.proceed hm stage hp
    exact hquiet (by simp [call]) hcursor hconfig hahead
  | @offering s job segs a m call stage plans =>
    have hnext : w'.call = some (.working job) := by
      simpa [handsOver, call] using hands
    have hrejected (v : Writer) (e : Error) (hv : v.reject e job = w') :
        False := by
      cases reject_cases hv <;> cases hnext
    have hone : handed w w' = [s] := by
      simp only [handed, call, hnext]
    rw [hone]
    simp only [Writer.advance, call, handOver] at ha
    by_cases hc : w.cancelled = true
    · rw [if_pos hc] at ha
      exact (hrejected _ _ (Option.some.inj ha)).elim
    · rw [if_neg hc] at ha
      split at ha
      · cases ha
        refine ⟨segs, m, by omega, .working rfl stage plans, rfl, rfl, ?_⟩
        simp [Segment.length, setCall]
      · cases ha
      · exact (hrejected _ _ (Option.some.inj ha)).elim

/-! ## Runs without a hand-off that fails -/

/-- A move of the call, a worker or a peer, or that the writer is stopped;
no hand-off fails. -/
def serve (w : Writer) : Event → Option Writer
  | .advance => w.advance.filter w.handsOver
  | .work i => w.work i
  | .room i m => some (w.grantRoom i m)
  | .cancel => some w.cancel
  | _ => none

theorem serve_step {e : Event} (h : w.serve e = some w') :
    w.step e = some w' ∧ (e = .advance ∧ w.handsOver w' = true ∨
      e ≠ .advance ∧ Aside w w') := by
  cases e with
  | advance =>
    obtain ⟨hs, hands⟩ := Option.filter_eq_some_iff.1 h
    exact ⟨hs, .inl ⟨rfl, hands⟩⟩
  | work i => exact ⟨h, .inr ⟨by simp, aside_work h⟩⟩
  | room i m =>
    cases h
    exact ⟨rfl, .inr ⟨by simp, rfl, rfl, rfl, rfl, rfl,
      List.length_modify ..⟩⟩
  | cancel =>
    cases h
    exact ⟨rfl, .inr ⟨by simp, rfl, rfl, rfl, rfl, rfl, rfl⟩⟩
  | _ => cases h

/-- **What was handed over and what is ahead** make up the same row at
every moment. -/
theorem Ahead.served {moves : List Event} (k : Record)
    (h : Ahead v segs a m) (hm : 0 < v.config.maxSegmentLen)
    (hrun : run serve v moves = some w) : ∃ segs' m', Ahead w segs' a m' ∧
      run Writer.step v moves = some w ∧ w.config = v.config ∧
      (kept Record.next Writer.step k v moves).fed ++ segs' =
        k.fed ++ segs ∧
      w.cursor + (joined segs').length = v.cursor + (joined segs).length ∧
      moves.count .advance + m' ≤ m := by
  induction moves generalizing v segs m k with
  | nil =>
    cases hrun
    exact ⟨segs, m, h, rfl, rfl, rfl, rfl, by simp⟩
  | cons e moves ih =>
    obtain ⟨u, hserve, hrest⟩ := Option.bind_eq_some_iff.1 hrun
    obtain ⟨hs, hwhat⟩ := serve_step hserve
    have hrec : kept Record.next Writer.step k v (e :: moves) =
        kept Record.next Writer.step (k.next v u e) u moves := by
      simp [kept, hs]
    have hnocall : e.isCall = false := by
      cases e <;> first | rfl | cases hserve
    have hfed : (k.next v u e).fed = k.fed ++ handed v u := by
      simp [Record.next, hnocall]
    have hstep (w : Writer) (hw : run Writer.step u moves = some w) :
        run Writer.step v (e :: moves) = some w :=
      Option.bind_eq_some_iff.2 ⟨u, hs, hw⟩
    rw [hrec]
    rcases hwhat with ⟨rfl, hands⟩ | ⟨hne, haside⟩
    · obtain ⟨segs₁, m₁, hlt, hahead, hsegs, hconfig, hcursor⟩ :=
        h.advance hm hs hands
      obtain ⟨segs', m', hlast, hsteps, hconfig', hall, hcount, hmoves⟩ :=
        ih (k.next v u .advance) hahead (hconfig ▸ hm) hrest
      refine ⟨segs', m', hlast, hstep w hsteps, hconfig'.trans hconfig,
        ?_, ?_, ?_⟩
      · rw [hall, hfed, hsegs, List.append_assoc]
      · rw [hcount, hcursor, hsegs, joined_append, List.length_append,
          Nat.add_assoc]
      · rw [List.count_cons_self]
        omega
    · obtain ⟨segs', m', hlast, hsteps, hconfig', hall, hcount, hmoves⟩ :=
        ih (k.next v u e) (h.aside haside) (haside.config ▸ hm) hrest
      refine ⟨segs', m', hlast, hstep w hsteps,
        hconfig'.trans haside.config, ?_, ?_, ?_⟩
      · rw [hall, hfed, handed_of_call_eq haside.call, List.append_nil]
      · rw [hcount, haside.cursor]
      · rw [List.count_cons_of_ne hne]
        exact hmoves

/-- What a call comes to that hands over the rest of `whole`: it answers
`a` once everything was handed over, and `cursor` is where the stream goes
on. Until then it can move, or waits for a worker to take a segment. It
moves at most `bound` times. -/
structure Completes (whole : List Segment) (a : Answer) (cursor bound : Nat)
    (fed : List Segment) (moves : List Event) (w : Writer) : Prop where
  ends : w.call = none →
    fed = whole ∧ w.answer = some a ∧ w.cursor = cursor
  front : fed <+: whole
  goes : ∀ c, w.call = some c → (∃ w', w.advance = some w') ∨
    ∃ s job, c = .offering s job ∧ (w.handoff.send s).1 = .pending
  moves : moves.count .advance ≤ bound

theorem Ahead.completes {moves : List Event} (k : Record)
    (h : Ahead v segs a m) (hm : 0 < v.config.maxSegmentLen)
    (hrun : run serve v moves = some w) :
    Completes (k.fed ++ segs) a (v.cursor + (joined segs).length) m
      (kept Record.next Writer.step k v moves).fed moves w := by
  obtain ⟨segs', m', hahead, _, _, hall, hcursor, hmoves⟩ :=
    h.served k hm hrun
  refine ⟨fun hover => ?_, ⟨segs', hall⟩, fun c hc => ?_, by omega⟩
  · cases hahead with
    | ended call answer stage =>
      rw [List.append_nil] at hall
      exact ⟨hall, answer, hcursor⟩
    | opening call stage plans => simp [call] at hover
    | working call stage plans => simp [call] at hover
    | offering call stage plans => simp [call] at hover
  · cases hmove : w.advance with
    | some w' => exact .inl ⟨w', rfl⟩
    | none =>
      cases awaits_of_rest hc hmove with
      | @offering s job going pending => exact .inr ⟨s, job, rfl, pending⟩
      | stopping announced count =>
        -- nothing is planned for a call that stops the workers
        cases hahead with
        | ended call answer stage => simp [call] at hc
        | opening call stage plans => simp [call] at hc
        | working call stage plans => simp [call] at hc
        | offering call stage plans => simp [call] at hc

/-- **A call is served.** -/
theorem Plans.call {e : Event} (he : e.isCall = true)
    (hstep : w.step e = w.launch job) (hcall : w.call = none)
    (hstage : w.stage ≠ .closed)
    (plans : Plans w.config w.cursor job segs a m) :
    ∃ v, w.step e = some v ∧ Ahead v (w.due ++ segs) a (m + 2) ∧
      v.config = w.config ∧ v.cursor = w.cursor ∧
      ∀ (k : Record) (moves : List Event),
        kept Record.next Writer.step k w (e :: moves) =
          kept Record.next Writer.step (k.next w v e) v moves ∧
        (k.next w v e).fed = k.fed := by
  have hs : w.step e = some (w.setCall (.opening job)) := by
    simp [hstep, launch, hcall]
  refine ⟨_, hs, .opening rfl hstage plans, rfl, rfl, fun k moves => ⟨?_, ?_⟩⟩
  · simp [kept, hs]
  · simp [Record.next, he]

theorem Plans.completes {e : Event} (he : e.isCall = true)
    (hstep : w.step e = w.launch job) (hcall : w.call = none)
    (hstage : w.stage ≠ .closed) (hm : 0 < w.config.maxSegmentLen)
    (plans : Plans w.config w.cursor job segs a m) :
    ∃ v, w.step e = some v ∧ ∀ (k : Record) moves w',
      run serve v moves = some w' →
        Completes (k.fed ++ (w.due ++ segs)) a
          (w.cursor + (joined segs).length) (m + 2)
          (kept Record.next Writer.step k w (e :: moves)).fed moves w' := by
  obtain ⟨v, hs, hahead, hconfig, hcursor, hrec⟩ :=
    plans.call he hstep hcall hstage
  refine ⟨v, hs, fun k moves w' hrun => ?_⟩
  obtain ⟨hkept, hfed⟩ := hrec k moves
  have hall := hahead.completes (k.next w v e) (hconfig ▸ hm) hrun
  rwa [hfed, hcursor, joined_append, joined_due, List.nil_append, ← hkept]
    at hall

end Ahead

/-! ## The ways of feeding -/

/-- The record of a run that goes on. -/
theorem recordOf_append {w₀ w : Writer} {es more : List Event}
    (hrun : run step w₀ es = some w) :
    recordOf w₀ (es ++ more) =
      kept Record.next step (recordOf w₀ es) w more :=
  kept_append _ hrun

/-- `write` was called on what was left of `bytes`, again and again, by the
events so far; each time it has returned how much of that was sent. Now
`rest` is left. -/
inductive Writing (w₀ : Writer) (bytes : Bytes) :
    List Event → Writer → Bytes → Prop where
  | start : Writing w₀ bytes [] w₀ bytes
  | call {es moves : List Event} {w v w' : Writer} {rest : Bytes}
      {count : Nat} (before : Writing w₀ bytes es w rest) (left : rest ≠ [])
      (begins : w.step (.write rest) = some v)
      (serves : run serve v moves = some w') (returns : w'.call = none)
      (answer : w'.answer = some (.wrote count)) :
      Writing w₀ bytes (es ++ .write rest :: moves) w' (rest.drop count)

/-- Where the calls to `write` have left off. -/
structure Left (w₀ : Writer) (bytes : Bytes) (es : List Event) (w : Writer)
    (rest : Bytes) : Prop where
  steps : run step w₀ es = some w
  config : w.config = w₀.config
  call : w.call = none
  stage : w.stage ≠ .closed
  count : w.cursor + rest.length = w₀.cursor + bytes.length
  fed : (recordOf w₀ es).fed ++ (w.due ++ w.config.slices w.cursor rest) =
    w₀.due ++ w₀.config.slices w₀.cursor bytes

theorem Writing.left {w₀ w : Writer} {bytes rest : Bytes} {es : List Event}
    (h : Writing w₀ bytes es w rest) (hm : 0 < w₀.config.maxSegmentLen)
    (hcall : w₀.call = none) (hstage : w₀.stage ≠ .closed) :
    Left w₀ bytes es w rest := by
  induction h with
  | start => exact ⟨rfl, rfl, hcall, hstage, rfl, rfl⟩
  | @call es moves w v w' rest count before left begins serves returns
      answer ih =>
    have hm : 0 < w.config.maxSegmentLen := ih.config ▸ hm
    obtain ⟨v', hs, hahead, hconfig, hcursor, hrec⟩ :=
      Plans.call (e := .write rest) rfl rfl ih.call ih.stage (.piece left)
    rw [hs] at begins
    cases begins
    obtain ⟨hkept, hfed⟩ := hrec (recordOf w₀ es) moves
    obtain ⟨segs', m', hlast, hsteps, hconfig', hall, hcount, _⟩ :=
      hahead.served ((recordOf w₀ es).next w v (.write rest))
        (hconfig ▸ hm) serves
    rw [← hkept, ← recordOf_append ih.steps, hfed] at hall
    cases hlast with
    | ended call answer' stage =>
      rw [answer] at answer'
      cases answer'
      have hcut : w.config.slices w.cursor rest = _ :=
        Config.slices_of_ne_nil hm left
      have hdrop : rest.drop (rest.take w.config.maxSegmentLen).length =
          rest.drop w.config.maxSegmentLen := by simp
      have hcursor' : w'.cursor =
          w.cursor + (rest.take w.config.maxSegmentLen).length := by
        rw [joined_append, joined_due, List.nil_append, hcursor] at hcount
        simpa [Segment.data] using hcount
      refine
        { steps := ?_
          config := hconfig'.trans (hconfig.trans ih.config)
          call := call
          stage := by simp [stage]
          count := ?_
          fed := ?_ }
      · rw [run_append, ih.steps]
        exact Option.bind_eq_some_iff.2 ⟨w, rfl,
          Option.bind_eq_some_iff.2 ⟨v, hs, hsteps⟩⟩
      · have hle := List.length_take_le' w.config.maxSegmentLen rest
        have hold := ih.count
        rw [hcursor', List.length_drop]
        omega
      · have hdue : w'.due = [] := if_neg (by simp [stage])
        rw [List.append_nil] at hall
        rw [hall, hdue, List.nil_append, hconfig'.trans hconfig, hcursor',
          hdrop, ← ih.fed, hcut]
        simp
    | opening call stage plans => simp [call] at returns
    | working call stage plans => simp [call] at returns
    | offering call stage plans => simp [call] at returns

/-- When nothing is left, the whole stream was handed over. -/
theorem Left.whole {w₀ w : Writer} {bytes : Bytes} {es : List Event}
    (h : Left w₀ bytes es w []) (hm : 0 < w₀.config.maxSegmentLen) :
    dataOf (recordOf w₀ es).fed = w₀.config.slices w₀.cursor bytes ∧
      w.cursor = w₀.cursor + bytes.length := by
  have hfed := congrArg dataOf h.fed
  rw [Config.slices_nil, dataOf_append, dataOf_append, dataOf_append,
    dataOf_due, dataOf_due, Config.dataOf_slices hm, List.nil_append] at hfed
  exact ⟨by simpa [dataOf] using hfed, h.count⟩

/-- What is left goes to the next call, which sends the front of it. -/
theorem Left.next {w₀ w : Writer} {bytes rest : Bytes} {es : List Event}
    (h : Left w₀ bytes es w rest) (hm : 0 < w₀.config.maxSegmentLen)
    (hne : rest ≠ []) :
    ∃ v, w.step (.write rest) = some v ∧
      ∀ moves w', run serve v moves = some w' →
        Completes ((recordOf w₀ es).fed ++ (w.due ++
            [w.nextSegment (rest.take w₀.config.maxSegmentLen)]))
          (.wrote (rest.take w₀.config.maxSegmentLen).length)
          (w.cursor + (rest.take w₀.config.maxSegmentLen).length) 5
          (recordOf w₀ (es ++ .write rest :: moves)).fed moves w' := by
  obtain ⟨v, hs, hall⟩ := Plans.completes (e := .write rest) rfl rfl
    h.call h.stage (h.config ▸ hm) (.piece hne)
  refine ⟨v, hs, fun moves w' hrun => ?_⟩
  have hdone := hall (recordOf w₀ es) moves w' hrun
  rw [← recordOf_append h.steps, h.config] at hdone
  simpa [Segment.data, nextSegment] using hdone

/-- A call to a new writer hands the control segment over, and then what is
planned for it. -/
theorem Plans.first {outlets : List Outlet} {config : Config} {w₀ : Writer}
    (hmake : make outlets config = .ok w₀) {e : Event} {job : Job}
    {segs : List Segment} {a : Answer} {m : Nat} (he : e.isCall = true)
    (hstep : w₀.step e = w₀.launch job)
    (plans : Plans config 0 job segs a m) :
    ∃ v, w₀.step e = some v ∧
      ∀ moves w, run serve v moves = some w →
        Completes (.control (.ofNat outlets.length) :: segs) a
          (joined segs).length (m + 2) (recordOf w₀ (e :: moves)).fed
          moves w := by
  obtain ⟨hv, _, hw₀⟩ := make_eq_ok hmake
  have hconfig : w₀.config = config := by rw [hw₀]
  have hcursor : w₀.cursor = 0 := by rw [hw₀]
  have hdue : w₀.due = [.control (.ofNat outlets.length)] := by
    simp [hw₀, due, connections]
  rw [← hconfig, ← hcursor] at plans
  obtain ⟨v, hs, hall⟩ := plans.completes he hstep (by rw [hw₀])
    (by simp [hw₀]) (hconfig ▸ (Config.validate_eq_ok_iff.1 hv).1)
  refine ⟨v, hs, fun moves w hrun => ?_⟩
  have hdone := hall .blank moves w hrun
  rwa [hdue, hcursor, Nat.zero_add] at hdone

/-- **All ways of feeding cut a stream alike.** The stream is cut into as
many data segments as `segmentsFor` says, at the multiples of the greatest
length that a segment may have. All of them have that length but for the
last one, which is not empty, and together they carry the stream. As long
as no hand-off fails, these segments and nothing else are handed over,
after the control segment:

* by `write`, called again and again on what is left; each call comes to
  an end, and returns how much of it was sent;
* by `writeAll`;
* by `copyFrom` from a source that yields the stream in any chunks; it
  returns the length of the stream.

If a source fails after `r` bytes, the segments that end within these
bytes are handed over, and the call fails with the error of the source.
A call takes a bounded number of moves, and waits only for a worker that
takes a segment. -/
theorem streams_cut_alike {outlets : List Outlet} {config : Config}
    {w₀ : Writer} (hmake : make outlets config = .ok w₀) (bytes : Bytes) :
    ((config.slices 0 bytes).length = config.segmentsFor bytes.length ∧
      joined (config.slices 0 bytes) = bytes ∧
      ∀ (k : Nat) (s : Segment), (config.slices 0 bytes)[k]? = some s →
        s = .data s.payload (.ofNat (k * config.maxSegmentLen)) .none ∧
        s.payload ≠ [] ∧ s.length ≤ config.maxSegmentLen ∧
        (k + 1 < config.segmentsFor bytes.length →
          s.length = config.maxSegmentLen)) ∧
    (∀ es w rest, Writing w₀ bytes es w rest →
      (rest = [] → dataOf (recordOf w₀ es).fed = config.slices 0 bytes ∧
        w.cursor = bytes.length) ∧
      (rest ≠ [] → ∃ v, w.step (.write rest) = some v ∧
        ∀ moves w', run serve v moves = some w' →
          Completes ((recordOf w₀ es).fed ++ (w.due ++
              [w.nextSegment (rest.take config.maxSegmentLen)]))
            (.wrote (rest.take config.maxSegmentLen).length)
            (w.cursor + (rest.take config.maxSegmentLen).length) 5
            (recordOf w₀ (es ++ .write rest :: moves)).fed moves w')) ∧
    (∃ v, w₀.step (.writeAll bytes) = some v ∧
      ∀ moves w, run serve v moves = some w →
        Completes (.control (.ofNat outlets.length) ::
            config.slices 0 bytes) .done bytes.length
          (2 * config.segmentsFor bytes.length + 3)
          (recordOf w₀ (.writeAll bytes :: moves)).fed moves w) ∧
    (∀ source, (Inlet.script source).tape = Tape.clean bytes →
      ∃ v, w₀.step (.copyFrom source) = some v ∧
        ∀ moves w, run serve v moves = some w →
          Completes (.control (.ofNat outlets.length) ::
              config.slices 0 bytes) (.copied bytes.length) bytes.length
            (2 * config.segmentsFor bytes.length + 4)
            (recordOf w₀ (.copyFrom source :: moves)).fed moves w) ∧
    (∀ source r cause later, r ≤ bytes.length →
      (Inlet.script source).tape =
        Tape.clean (bytes.take r) ++ .error cause :: later →
      ∃ v, w₀.step (.copyFrom source) = some v ∧
        ∀ moves w, run serve v moves = some w →
          Completes (.control (.ofNat outlets.length) ::
              (config.slices 0 bytes).take (r / config.maxSegmentLen))
            (.failed (.source cause))
            (r / config.maxSegmentLen * config.maxSegmentLen)
            (2 * (r / config.maxSegmentLen) + 3)
            (recordOf w₀ (.copyFrom source :: moves)).fed moves w) := by
  obtain ⟨hv, _, hw₀⟩ := make_eq_ok hmake
  have hm : 0 < config.maxSegmentLen := (Config.validate_eq_ok_iff.1 hv).1
  have hconfig : w₀.config = config := by rw [hw₀]
  have hcursor : w₀.cursor = 0 := by rw [hw₀]
  refine ⟨⟨Config.length_slices .., Config.joined_slices hm,
    fun k s hk => ?_⟩, ?_, ?_, ?_, ?_⟩
  · simpa using Config.slices_eq_some hm hk
  · intro es w rest h
    have hleft := h.left (hconfig ▸ hm) (by rw [hw₀]) (by simp [hw₀])
    constructor
    · rintro rfl
      simpa [hconfig, hcursor] using hleft.whole (hconfig ▸ hm)
    · intro hne
      simpa [hconfig] using hleft.next (hconfig ▸ hm) hne
  · obtain ⟨v, hs, hall⟩ :=
      Plans.first hmake (e := .writeAll bytes) rfl rfl (.all rfl)
    refine ⟨v, hs, fun moves w hrun => ?_⟩
    have hdone := hall moves w hrun
    rwa [Config.joined_slices hm, Config.length_slices] at hdone
  · intro source htape
    obtain ⟨v, hs, hall⟩ := Plans.first hmake (e := .copyFrom source) rfl rfl
      (.copy htape rfl (Nat.zero_add _).symm)
    refine ⟨v, hs, fun moves w hrun => ?_⟩
    have hdone := hall moves w hrun
    rwa [Config.joined_slices hm, Config.length_slices] at hdone
  · intro source r cause later hr htape
    have hlen : (bytes.take r).length = r := by
      rw [List.length_take, Nat.min_eq_left hr]
    obtain ⟨v, hs, hall⟩ := Plans.first hmake (e := .copyFrom source) rfl rfl
      (.broken htape rfl)
    refine ⟨v, hs, fun moves w hrun => ?_⟩
    have hdone := hall moves w hrun
    rw [hlen, Config.take_slices_take hm hr, Config.joined_take_slices hm]
      at hdone
    have hcount : ((config.slices 0 bytes).take
        (r / config.maxSegmentLen)).length = r / config.maxSegmentLen := by
      rw [List.length_take, Config.length_slices,
        Nat.min_eq_left (Config.div_le_segmentsFor config hr)]
    have hends : (bytes.take
        (r / config.maxSegmentLen * config.maxSegmentLen)).length =
          r / config.maxSegmentLen * config.maxSegmentLen := by
      rw [List.length_take, Nat.min_eq_left]
      exact Nat.le_trans (Nat.div_mul_le_self _ _) hr
    rwa [hcount, hends] at hdone

/-- A worker takes the control segment and the first data segment, and
writes the one of them. -/
def firstMoves : List Event :=
  [.advance, .work 0, .advance, .advance, .work 0, .work 0, .work 0,
   .advance, .advance]

/-- It writes the other one, and takes another data segment. -/
def moreMoves : List Event :=
  [.work 0, .work 0, .work 0, .work 0, .advance, .advance]

/-- Three bytes, in chunks of one byte, of none and of two. -/
def threeBytes : List Inlet.Item := [.chunk [7], .chunk [], .chunk [8, 9]]

/-- A source that fails after three bytes. -/
def brokenBytes : List Inlet.Item :=
  [.chunk [7, 8, 9], .fault ⟨.other, "gone"⟩]

/-- Three bytes are written by two calls, sent by one, and copied from a
source. If the source fails after them, the last one is lost. -/
theorem streams_cut_alike_three : ∃ w₀ w₁ v₂ w₂ v₃ w₃ v₄ w₄ es,
    make [.unlimited] { Config.standard with maxSegmentLen := 2 } = .ok w₀ ∧
    Writing w₀ [7, 8, 9] es w₁ [] ∧
    dataOf (recordOf w₀ es).fed =
      [.data [7, 8] 0 .none, .data [9] 2 .none] ∧
    w₀.step (.writeAll [7, 8, 9]) = some v₂ ∧
    run serve v₂ (firstMoves ++ moreMoves) = some w₂ ∧ w₂.cursor = 3 ∧
    (recordOf w₀ (.writeAll [7, 8, 9] :: (firstMoves ++ moreMoves))).fed =
      [.control 1, .data [7, 8] 0 .none, .data [9] 2 .none] ∧
    w₀.step (.copyFrom threeBytes) = some v₃ ∧
    run serve v₃ (firstMoves ++ moreMoves) = some w₃ ∧
    w₃.answer = some (.copied 3) ∧
    (recordOf w₀ (.copyFrom threeBytes ::
      (firstMoves ++ moreMoves))).fed =
      [.control 1, .data [7, 8] 0 .none, .data [9] 2 .none] ∧
    w₀.step (.copyFrom brokenBytes) = some v₄ ∧
    run serve v₄ firstMoves = some w₄ ∧
    w₄.answer = some (.failed (.source ⟨.other, "gone"⟩)) ∧
    (recordOf w₀ (.copyFrom brokenBytes :: firstMoves)).fed =
      [.control 1, .data [7, 8] 0 .none] := by
  obtain ⟨w₀, v, w, v₁, w₁, v₂, w₂, v₃, w₃, v₄, w₄, hmake,
      ⟨hv, hw, hover, hans⟩, ⟨hv₁, hw₁, hover₁, hans₁⟩,
      ⟨hv₂, hw₂, hover₂⟩, ⟨hv₃, hw₃, hover₃⟩, hv₄, hw₄, hover₄⟩ :
      ∃ w₀ v w v₁ w₁ v₂ w₂ v₃ w₃ v₄ w₄,
      make [.unlimited] { Config.standard with maxSegmentLen := 2 } =
        .ok w₀ ∧
      (w₀.step (.write [7, 8, 9]) = some v ∧
        run serve v firstMoves = some w ∧ w.call = none ∧
        w.answer = some (.wrote 2)) ∧
      (w.step (.write [9]) = some v₁ ∧
        run serve v₁ (.advance :: .advance :: moreMoves) = some w₁ ∧
        w₁.call = none ∧ w₁.answer = some (.wrote 1)) ∧
      (w₀.step (.writeAll [7, 8, 9]) = some v₂ ∧
        run serve v₂ (firstMoves ++ moreMoves) = some w₂ ∧
        w₂.call = none) ∧
      (w₀.step (.copyFrom threeBytes) = some v₃ ∧
        run serve v₃ (firstMoves ++ moreMoves) = some w₃ ∧
        w₃.call = none) ∧
      w₀.step (.copyFrom brokenBytes) = some v₄ ∧
        run serve v₄ firstMoves = some w₄ ∧ w₄.call = none :=
    ⟨_, _, _, _, _, _, _, _, _, _, _, rfl, ⟨rfl, rfl, rfl, rfl⟩,
      ⟨rfl, rfl, rfl, rfl⟩, ⟨rfl, rfl, rfl⟩, ⟨rfl, rfl, rfl⟩, rfl, rfl, rfl⟩
  have hwriting := (Writing.start.call (by decide) hv hw hover hans).call
    (by decide) hv₁ hw₁ hover₁ hans₁
  obtain ⟨_, hwrite, ⟨_, hs₂, hall⟩, hcopy, hbroken⟩ :=
    streams_cut_alike hmake [7, 8, 9]
  obtain ⟨_, hs₃, hcopied⟩ := hcopy threeBytes rfl
  obtain ⟨_, hs₄, hfailed⟩ := hbroken brokenBytes 3 _ [] (by decide) rfl
  rw [hv₂] at hs₂
  rw [hv₃] at hs₃
  rw [hv₄] at hs₄
  cases hs₂
  cases hs₃
  cases hs₄
  obtain ⟨hfed₂, _, hcursor⟩ := (hall _ _ hw₂).ends hover₂
  obtain ⟨hfed₃, hans₃, _⟩ := (hcopied _ _ hw₃).ends hover₃
  obtain ⟨hfed₄, hans₄, _⟩ := (hfailed _ _ hw₄).ends hover₄
  exact ⟨w₀, w₁, v₂, w₂, v₃, w₃, v₄, w₄, _, hmake, hwriting,
    ((hwrite _ _ _ hwriting).1 rfl).1, hv₂, hw₂, hcursor, hfed₂, hv₃, hw₃,
    hans₃, hfed₃, hv₄, hw₄, hans₄, hfed₄⟩

end Stripe.Writer
