import Stripe.Writer.Session
import Stripe.Proofs.Writer.Cutting
import Stripe.Proofs.Writer.Rest

/-!
# A session of a writer is a run of it

A session fixes the order of the moves, and nothing else: each command
comes to what it asks of the writer, and to moves. The moves end because
the workers cannot go on, and after a command for a call because the call
cannot either (`Resting.perform`). So what holds after every run of a
writer is what the user of a session finds (`session_reached`).
-/

namespace Stripe.Writer

/-! ## The turns of a session -/

section Turns

variable {n : Nat} {loose : Prop} {rows done : Nat → List Segment}
  {fed : List Segment} {w w' : Writer} {Allowed : Crew.Move → Prop}

/-- A call that is over has come to something. -/
def Answered (w : Writer) : Prop := w.call = none → ∃ a, w.answer = some a

theorem Inv.answered (h : Inv n loose rows done fed w)
    (ha : w.advance = some w') : Answered w' := by
  have hreject {e : Error} {job : Job} {v : Writer} :
      Answered (v.reject e job) := by
    intro hover
    obtain ⟨e', he⟩ := answer_reject hover
    exact ⟨_, he⟩
  cases advance_cases h.maxLen ha with
  | late call stage => exact hreject
  | abort call stopped => exact hreject
  | alone call going send fails waits => exact hreject
  | proceed call proceeds =>
    cases proceeds with
    | nothing => exact fun _ => ⟨_, rfl⟩
    | wrote => exact fun _ => ⟨_, rfl⟩
    | sent => exact fun _ => ⟨_, rfl⟩
    | copied => exact fun _ => ⟨_, rfl⟩
    | broken fill => exact hreject
    | _ => nofun
  | announce call owner =>
    intro hover
    cases hover.symm.trans call
  | tally call owner count =>
    intro hover
    cases hover.symm.trans call
  | conclude call le => exact fun _ => ⟨_, rfl⟩
  | _ => nofun

theorem Answered.crew (h : Answered w) (hw : Ruled n w)
    (hreach : Reaches crew.step Allowed w w') : Answered w' := by
  refine (hreach.keeps (P := fun v => Ruled n v ∧ Answered v) ?_
    ⟨hw, h⟩).2
  intro v m v' _ ⟨hruled, hv⟩ hstep
  refine ⟨crew_drives.bounded.moves.keeps trivial hruled hstep, ?_⟩
  cases m with
  | work i =>
    have haside := aside_work hstep
    intro hover
    rw [haside.answer]
    exact hv (haside.call.symm.trans hover)
  | call =>
    obtain ⟨_, _, _, _, hinv⟩ := hruled
    exact hinv.answered hstep

/-- What a call has come to stays while the workers go on. -/
theorem call_settle (queue : List Nat) (w : Writer) :
    (crew.settle queue w).call = w.call ∧
      (crew.settle queue w).answer = w.answer := by
  refine (Crew.reaches_settle queue w).keeps
    (P := fun v => v.call = w.call ∧ v.answer = w.answer) ?_ ⟨rfl, rfl⟩
  intro v m v' hwork ⟨hcall, hans⟩ hstep
  cases m with
  | work i =>
    have haside := aside_work hstep
    exact ⟨haside.call.trans hcall, haside.answer.trans hans⟩
  | call => exact absurd rfl hwork

end Turns

/-! ## Commands -/

namespace Session

/-- What a command asks of the writer. -/
inductive Command.Asks : Command → Event → Prop where
  | launch {job : Job} {e : Event} (begins : e.Begins job) :
      Asks (.launch job) e
  | room {i : Nat} {n : Option Nat} : Asks (.room i n) (.room i n)
  | abandon : Asks .abandon .abandon
  | cancel : Asks .cancel .cancel
  | drop : Asks .drop .drop

/-- A call is one that users make. -/
def Command.IsUsual (c : Command) : Prop :=
  ∀ job, c = .launch job → ∃ e : Event, e.Begins job

/-- What may happen in a command: a move, or what it asks for. -/
def Command.Allows (c : Command) (e : Event) : Prop :=
  e.isMove = true ∨ c.Asks e

/-- Between two commands, no worker can move. -/
structure Resting (n : Nat) (s : Session) : Prop where
  ruled : Ruled n s.writer
  still : ∀ i, s.writer.work i = none

/-- What a reply tells of the writer. -/
structure Tells (reply : Reply) (w : Writer) : Prop where
  answer : ∀ a, reply = .answer a → w.call = none ∧ w.answer = some a
  /-- A call that stays in flight waits for something else to happen. -/
  pending : reply = .pending → w.call ≠ none ∧ w.Quiet
  abandoned : reply = .abandoned → w.call = none

/-- What a command comes to: a run of the writer, until the workers can no
longer move. -/
structure Comes (n : Nat) (c : Command) (s : Session)
    (p : Reply × Session) : Prop where
  reaches : Reaches Writer.step c.Allows s.writer p.2.writer
  resting : p.2.Resting n
  tells : Tells p.1 p.2.writer
  /-- A call that is let go has had its turn before. -/
  polled : p.1 = .abandoned → ∃ w,
    Reaches Writer.step (·.isMove = true) s.writer w ∧ w.call ≠ none ∧
      (w.advance = none ∨ w.meets = true)

section Perform

variable {n : Nat} {s : Session} {c : Command} {w w' : Writer}
  {f : Writer → Writer} {e : Event}

theorem allows_of_moves (h : Reaches Writer.step (·.isMove = true) w w') :
    Reaches Writer.step c.Allows w w' :=
  h.mono fun _ he => .inl he

theorem result_eq_some {a : Answer} :
    result? w = some a ↔ w.call = none ∧ w.answer = some a := by
  unfold result?
  cases w.call <;> simp

theorem busy_of_result (h : Answered w) (hresult : result? w = none) :
    w.call ≠ none := by
  intro hover
  obtain ⟨a, ha⟩ := h hover
  cases hresult.symm.trans (result_eq_some.2 ⟨hover, ha⟩)

/-- Whatever call was in flight is let go. -/
theorem reaches_abandon (hc : c.Asks .abandon) (w : Writer) :
    Reaches Writer.step c.Allows w w.abandon := by
  cases hcall : w.call with
  | some call => exact .step (.inr hc) (by simp [Writer.step, hcall])
  | none =>
    have hsame : w.abandon = w := by
      simp only [Writer.abandon, hcall]
      rw [← hcall]
    rw [hsame]
    exact .refl

/-- Nothing has changed, and the reply does not tell of a call. -/
theorem Resting.stays (h : s.Resting n) {reply : Reply}
    (hreply : ∀ w, Tells reply w) (hkept : reply ≠ .abandoned) :
    Comes n c s (reply, s) :=
  ⟨.refl, h, hreply _, fun hlet => absurd hlet hkept⟩

/-- The writer has changed in some way, and the workers have gone on. -/
theorem Resting.settled (h : s.Resting n)
    (hreach : Reaches Writer.step c.Allows s.writer w) (queue : List Nat)
    {reply : Reply} (present : Bool)
    (hreply : Tells reply (crew.settle queue w))
    (hpolled : reply = .abandoned → ∃ w,
      Reaches Writer.step (·.isMove = true) s.writer w ∧ w.call ≠ none ∧
        (w.advance = none ∨ w.meets = true)) :
    Comes n c s (reply, ⟨crew.settle queue w, present⟩) := by
  obtain ⟨hsettle, hgood, hstop⟩ :=
    crew_drives.settled (crew_drives.good h.ruled hreach) queue
  exact ⟨hreach.trans (allows_of_moves hsettle), ⟨hgood, hstop⟩, hreply,
    hpolled⟩

theorem Resting.change (h : s.Resting n)
    (hs : s.writer.step e = some (f s.writer)) (hc : c.Asks e) :
    Comes n c s (.ok, s.change f) :=
  h.settled (.step (.inr hc) hs) [] s.present ⟨nofun, nofun, nofun⟩ nofun

/-- A call goes on until it is over or has to wait. -/
theorem Resting.resume (h : s.Resting n)
    (hreach : Reaches Writer.step c.Allows s.writer w) (hw : w.call ≠ none) :
    Comes n c s (s.resume w) := by
  have hruled := crew_drives.good h.ruled hreach
  obtain ⟨hturns, hgood, _⟩ := crew_drives.finished hruled
  have hquiet := hruled.quiet_finishTurns
  have hbegun : Answered w := fun hover => absurd hover hw
  have hans := hbegun.crew hruled (Crew.reaches_finishTurns w)
  have hall (reply : Reply) (hreply : Tells reply (crew.finishTurns w))
      (hkept : reply ≠ .abandoned) :
      Comes n c s (reply, ⟨crew.finishTurns w, s.present⟩) :=
    ⟨hreach.trans (allows_of_moves hturns), ⟨hgood, hquiet.1⟩, hreply,
      fun hlet => absurd hlet hkept⟩
  unfold Session.resume
  generalize crew.finishTurns w = w' at *
  dsimp only
  cases hresult : result? w' with
  | some a =>
    have hover := result_eq_some.1 hresult
    apply hall
    · refine ⟨?_, nofun, nofun⟩
      rintro _ ⟨⟩
      exact hover
    · nofun
  | none =>
    have hbusy := busy_of_result hans hresult
    apply hall
    · exact ⟨nofun, fun _ => ⟨hbusy, hquiet⟩, nofun⟩
    · nofun

theorem Resting.poll (h : s.Resting n) : Comes n c s s.poll := by
  unfold Session.poll
  cases hcall : s.writer.call with
  | none => exact h.stays (fun _ => ⟨nofun, nofun, nofun⟩) nofun
  | some call => exact h.resume .refl (by simp [hcall])

/-- The call has a turn, and is let go if it is not over after that. -/
theorem Resting.abandon (h : s.Resting n) (hc : c.Asks .abandon) :
    Comes n c s s.abandon := by
  unfold Session.abandon
  cases hcall : s.writer.call with
  | none => exact h.stays (fun _ => ⟨nofun, nofun, nofun⟩) nofun
  | some call =>
    obtain ⟨hturn, hstop⟩ := crew_drives.called h.ruled
    have hbegun : Answered s.writer := by
      intro hover
      cases hover.symm.trans hcall
    have hans := hbegun.crew h.ruled (Crew.reaches_callTurn s.writer)
    generalize crew.callTurn s.writer = turn at *
    obtain ⟨queue, w⟩ := turn
    dsimp only [Option.isNone_some] at hturn hstop hans ⊢
    rw [if_neg (by simp)]
    cases hresult : result? w with
    | some a =>
      apply h.settled (allows_of_moves hturn)
      · refine ⟨?_, nofun, nofun⟩
        rintro _ ⟨⟩
        rw [(call_settle queue w).1, (call_settle queue w).2]
        exact result_eq_some.1 hresult
      · nofun
    | none =>
      have hlet := (allows_of_moves hturn).trans (reaches_abandon hc w)
      apply h.settled hlet
      · refine ⟨nofun, nofun, fun _ => ?_⟩
        exact (call_settle queue _).1.trans (call_abandon w)
      · exact fun _ => ⟨w, hturn, busy_of_result hans hresult, hstop⟩

/-- A user begins a call. -/
theorem Resting.launch (h : s.Resting n) {job : Job}
    (hb : e.Begins job) :
    Comes n (.launch job) s (s.perform (.launch job)) := by
  simp only [Session.perform]
  by_cases hp : s.present = true
  · rw [if_neg (by simpa using hp)]
    cases hlaunch : s.writer.launch job with
    | none => exact h.stays (fun _ => ⟨nofun, nofun, nofun⟩) nofun
    | some w =>
      obtain ⟨_, rfl⟩ := launch_eq_some hlaunch
      have hs : s.writer.step e = s.writer.launch job := by
        cases hb <;> rfl
      exact h.resume (.step (.inr (.launch hb)) (hs.trans hlaunch)) nofun
  · rw [if_pos (by simpa using hp)]
    exact h.stays (fun _ => ⟨nofun, nofun, nofun⟩) nofun

/-- **What every command comes to.** -/
theorem Resting.perform (h : s.Resting n) (hc : c.IsUsual) :
    Comes n c s (s.perform c) := by
  cases c with
  | launch job =>
    obtain ⟨e, hb⟩ := hc job rfl
    exact h.launch hb
  | room i m => exact h.change rfl .room
  | poll => exact h.poll
  | abandon => exact h.abandon .abandon
  | cancel => exact h.change rfl .cancel
  | drop =>
    simp only [Session.perform]
    split
    · exact h.settled (.step (.inr .drop) rfl) [] false
        ⟨nofun, nofun, nofun⟩ nofun
    · exact h.stays (fun _ => ⟨nofun, nofun, nofun⟩) nofun
  | stats =>
    simp only [Session.perform]
    split <;> exact h.stays (fun _ => ⟨nofun, nofun, nofun⟩) nofun

/-- One command after the other. -/
theorem Resting.all (h : s.Resting n) {cs : List Command}
    (hcs : ∀ c ∈ cs, c.IsUsual) :
    (cs.foldl (fun s c => (s.perform c).2) s).Resting n ∧
      Reaches Writer.step (fun e => ∃ c ∈ cs, c.Allows e) s.writer
        (cs.foldl (fun s c => (s.perform c).2) s).writer := by
  induction cs generalizing s with
  | nil => exact ⟨h, .refl⟩
  | cons c cs ih =>
    have hfirst := h.perform (hcs c (by simp))
    obtain ⟨hrest, hreach⟩ := ih hfirst.resting
      fun d hd => hcs d (by simp [hd])
    refine ⟨hrest, .trans (hfirst.reaches.mono ?_) (hreach.mono ?_)⟩
    · intro e he
      exact ⟨c, by simp, he⟩
    · rintro e ⟨d, hd, he⟩
      exact ⟨d, by simp [hd], he⟩

end Perform

theorem resting_ofWriter {outlets : List Outlet} {config : Config}
    {w : Writer} (h : make outlets config = .ok w)
    (hblank : ∀ c ∈ outlets, c.log = #[]) :
    (ofWriter w).Resting outlets.length := by
  refine ⟨ruled_make h hblank, fun i => ?_⟩
  obtain ⟨_, _, rfl⟩ := make_eq_ok h
  cases hl : outlets[i]? <;> simp [ofWriter, work, hl]

/-- **A session is a run.** After each command of a user, and of the peers,
the writer is where a run has led it: events that the commands ask for, and
moves. Nobody has stopped too early: no worker can move, and a call that is
reported to be in flight cannot either. What is replied is what the call
has come to. -/
theorem session_reached {outlets : List Outlet} {config : Config}
    {w₀ : Writer} (hmake : make outlets config = .ok w₀)
    (hblank : ∀ c ∈ outlets, c.log = #[]) {cs : List Command}
    (hcs : ∀ c ∈ cs, c.IsUsual) {reply : Reply} {s : Session}
    (h : (reply, s) ∈ history perform (ofWriter w₀) cs) :
    (∃ es, run Writer.step w₀ es = some s.writer ∧ ∀ e ∈ es,
      e.isMove = true ∨ ∃ c ∈ cs, c.Asks e) ∧
    (∀ i, s.writer.work i = none) ∧ Tells reply s.writer := by
  obtain ⟨past, c, hfront, hp⟩ := mem_history h
  have hfirst := resting_ofWriter hmake hblank
  have hall (d : Command) (hd : d ∈ past ++ [c]) : d.IsUsual :=
    hcs d (hfront.subset hd)
  have hpast (d : Command) (hd : d ∈ past) : d.IsUsual :=
    hall d (by simp [hd])
  have hcomes := (hfirst.all hpast).1.perform (hall c (by simp))
  obtain ⟨hrest, es, hrun, hevents⟩ := hfirst.all hall
  rw [List.foldl_append] at hrest hrun
  simp only [List.foldl_cons, List.foldl_nil, ← hp] at hcomes hrest hrun
  refine ⟨⟨es, hrun, ?_⟩, hrest.still, hcomes.tells⟩
  intro e he
  obtain ⟨d, hd, hmove | hasks⟩ := hevents e he
  · exact .inl hmove
  · exact .inr ⟨d, hfront.subset hd, hasks⟩

end Session

end Stripe.Writer
