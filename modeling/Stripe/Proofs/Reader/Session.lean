import Stripe.Reader.Session
import Stripe.Proofs.Reader.Streaming

/-!
# A session of a reader is a run of it

A session fixes the order of the moves, and nothing else: each command
comes to what it asks of the reader, and to moves. The moves end because
the workers cannot go on, and after a command for a call because the call
cannot either (`Resting.perform`). So what holds after every run of a
reader is what the user of a session finds (`session_reached`).
-/

namespace Stripe.Reader

/-! ## The turns of a session -/

section Turns

variable {r r' : Reader} {Allowed : Crew.Move → Prop}

/-- A call that is over has come to something. -/
def Answered (r : Reader) : Prop := r.call = none → ∃ a, r.answer = some a

theorem Answered.crew (h : Answered r)
    (hreach : Reaches crew.step Allowed r r') : Answered r' := by
  refine hreach.keeps ?_ h
  intro s m s' _ hs hstep
  cases m with
  | work i =>
    obtain ⟨hcall, hans, _⟩ := call_of_work hstep
    intro hover
    rw [hans]
    exact hs (hcall.symm.trans hover)
  | call => exact answer_of_over hstep

/-- What a call has come to stays while the workers go on. -/
theorem call_settle (queue : List Nat) (r : Reader) :
    (crew.settle queue r).call = r.call ∧
      (crew.settle queue r).answer = r.answer := by
  refine (Crew.reaches_settle queue r).keeps
    (P := fun s => s.call = r.call ∧ s.answer = r.answer) ?_ ⟨rfl, rfl⟩
  intro s m s' hwork ⟨hcall, hans⟩ hstep
  cases m with
  | work i =>
    obtain ⟨hcall', hans', _⟩ := call_of_work hstep
    exact ⟨hcall'.trans hcall, hans'.trans hans⟩
  | call => exact absurd rfl hwork

theorem call_abandon (r : Reader) : r.abandon.call = none := by
  unfold abandon
  split
  · assumption
  · split <;> rfl

end Turns

/-! ## Commands -/

namespace Session

/-- What a command asks of the reader. -/
def Command.event? : Command → Option Event
  | .feed i bytes => some (.feed i bytes)
  | .fault i cause => some (.fault i cause)
  | .close i => some (.close i)
  | .read max => some (.read max)
  | .readToEnd out => some (.readToEnd out)
  | .message => some .message
  | .abandon => some .abandon
  | .cancel => some .cancel
  | .drop => some .drop
  | .poll | .stats => none

/-- What may happen in a command: a move, or what it asks for. -/
def Command.Allows (c : Command) (e : Event) : Prop :=
  e.isMove = true ∨ c.event? = some e

/-- Between two commands, no worker can move. -/
structure Resting (n : Nat) (s : Session) : Prop where
  ruled : Ruled n s.reader
  still : ∀ i, s.reader.work i = none

/-- What a reply tells of the reader. -/
structure Tells (reply : Reply) (r : Reader) : Prop where
  answer : ∀ a, reply = .answer a → r.call = none ∧ r.answer = some a
  /-- A call that stays in flight waits for something else to happen. -/
  pending : reply = .pending → r.call ≠ none ∧ r.Quiet
  abandoned : ∀ out, reply = .abandoned out → r.call = none

/-- What a command comes to: a run of the reader, until the workers can no
longer move. -/
structure Comes (n : Nat) (c : Command) (s : Session)
    (p : Reply × Session) : Prop where
  reaches : Reaches Reader.step c.Allows s.reader p.2.reader
  resting : p.2.Resting n
  tells : Tells p.1 p.2.reader
  /-- A call that is let go has had its turn before. -/
  polled : ∀ out, p.1 = .abandoned out → ∃ r,
    Reaches Reader.step (·.isMove = true) s.reader r ∧ r.call ≠ none ∧
      r.advance = none

section Perform

variable {n : Nat} {s : Session} {c : Command} {r r' : Reader}
  {f : Reader → Reader} {e : Event}

theorem allows_of_moves (h : Reaches Reader.step (·.isMove = true) r r') :
    Reaches Reader.step c.Allows r r' :=
  h.mono fun _ he => .inl he

/-- Nothing has changed, and the reply does not tell of a call. -/
theorem Resting.stays (h : s.Resting n) {reply : Reply}
    (hreply : ∀ r, Tells reply r) (hkept : ∀ out, reply ≠ .abandoned out) :
    Comes n c s (reply, s) :=
  ⟨.refl, h, hreply _, fun out hlet => absurd hlet (hkept out)⟩

theorem result_eq_some {a : Answer} :
    result? r = some a ↔ r.call = none ∧ r.answer = some a := by
  unfold result?
  cases r.call <;> simp

theorem busy_of_result (h : Answered r) (hresult : result? r = none) :
    r.call ≠ none := by
  intro hover
  obtain ⟨a, ha⟩ := h hover
  cases hresult.symm.trans (result_eq_some.2 ⟨hover, ha⟩)

/-- Whatever call was in flight is let go. -/
theorem reaches_abandon (hc : c.event? = some .abandon) (r : Reader) :
    Reaches Reader.step c.Allows r r.abandon := by
  cases hcall : r.call with
  | some call => exact .step (.inr hc) (by simp [Reader.step, hcall])
  | none =>
    have hsame : r.abandon = r := by simp [Reader.abandon, hcall]
    rw [hsame]
    exact .refl

/-- The reader has changed in some way, and the workers have gone on. -/
theorem Resting.settled (h : s.Resting n)
    (hreach : Reaches Reader.step c.Allows s.reader r) (queue : List Nat)
    {reply : Reply} (present : Bool)
    (hreply : Tells reply (crew.settle queue r))
    (hpolled : ∀ out, reply = .abandoned out → ∃ r,
      Reaches Reader.step (·.isMove = true) s.reader r ∧ r.call ≠ none ∧
        r.advance = none) :
    Comes n c s (reply, ⟨crew.settle queue r, present⟩) := by
  obtain ⟨hsettle, hgood, hstop⟩ :=
    crew_drives.settled (crew_drives.good h.ruled hreach) queue
  exact ⟨hreach.trans (allows_of_moves hsettle), ⟨hgood, hstop⟩, hreply,
    hpolled⟩

theorem Resting.change (h : s.Resting n)
    (hs : s.reader.step e = some (f s.reader)) (hc : c.event? = some e) :
    Comes n c s (.ok, s.change f) :=
  h.settled (.step (.inr hc) hs) [] s.present ⟨nofun, nofun, nofun⟩ nofun

/-- A call goes on until it is over or has to wait. -/
theorem Resting.resume (h : s.Resting n)
    (hreach : Reaches Reader.step c.Allows s.reader r) (hr : Answered r)
    (usesUp : Bool) : Comes n c s (s.resume usesUp r) := by
  have hruled := crew_drives.good h.ruled hreach
  obtain ⟨hturns, hgood, _⟩ := crew_drives.finished hruled
  have hquiet := hruled.quiet_finishTurns
  have hans := hr.crew (Crew.reaches_finishTurns r)
  have hall (reply : Reply) (present : Bool)
      (hreply : Tells reply (crew.finishTurns r))
      (hkept : ∀ out, reply ≠ .abandoned out) :
      Comes n c s (reply, ⟨crew.finishTurns r, present⟩) :=
    ⟨hreach.trans (allows_of_moves hturns), ⟨hgood, hquiet.1⟩, hreply,
      fun out hlet => absurd hlet (hkept out)⟩
  unfold Session.resume
  generalize crew.finishTurns r = r' at *
  dsimp only
  cases hresult : result? r' with
  | some a =>
    have hover := result_eq_some.1 hresult
    apply hall
    · refine ⟨?_, nofun, nofun⟩
      rintro _ ⟨⟩
      exact hover
    · nofun
  | none =>
    have hbusy := busy_of_result hans hresult
    apply hall
    · exact ⟨nofun, fun _ => ⟨hbusy, hquiet⟩, nofun⟩
    · nofun

theorem Resting.launch (h : s.Resting n)
    (hs : s.reader.step e =
      if s.reader.call.isNone then some (f s.reader) else none)
    (hc : c.event? = some e) (hf : Answered (f s.reader)) :
    Comes n c s (s.launch f) := by
  unfold Session.launch
  by_cases hp : s.present = true
  · rw [if_neg (by simpa using hp)]
    cases hcall : s.reader.call with
    | some call => exact h.stays (fun _ => ⟨nofun, nofun, nofun⟩) nofun
    | none =>
      have hbegin : s.reader.step e = some (f s.reader) := by
        simpa [hcall] using hs
      exact h.resume (.step (.inr hc) hbegin) hf _
  · rw [if_pos (by simpa using hp)]
    exact h.stays (fun _ => ⟨nofun, nofun, nofun⟩) nofun

theorem Resting.poll (h : s.Resting n) : Comes n c s s.poll := by
  unfold Session.poll
  cases hcall : s.reader.call with
  | none => exact h.stays (fun _ => ⟨nofun, nofun, nofun⟩) nofun
  | some call =>
    have hans : Answered s.reader := by
      intro hover
      cases hover.symm.trans hcall
    exact h.resume .refl hans _

/-- The call has a turn, and is let go if it is not over after that. -/
theorem Resting.abandon (h : s.Resting n) (hc : c.event? = some .abandon) :
    Comes n c s s.abandon := by
  unfold Session.abandon
  cases hcall : s.reader.call with
  | none => exact h.stays (fun _ => ⟨nofun, nofun, nofun⟩) nofun
  | some call =>
    obtain ⟨hturn, hstop⟩ := crew_drives.called h.ruled
    have hbegun : Answered s.reader := by
      intro hover
      cases hover.symm.trans hcall
    have hans := hbegun.crew (Crew.reaches_callTurn s.reader)
    generalize crew.callTurn s.reader = turn at *
    obtain ⟨queue, r⟩ := turn
    dsimp only at hturn hstop hans ⊢
    -- the call of a reader meets no worker
    have hwaits : r.advance = none := hstop.resolve_right nofun
    cases hresult : result? r with
    | some a =>
      apply h.settled (allows_of_moves hturn)
      · refine ⟨?_, nofun, nofun⟩
        rintro _ ⟨⟩
        rw [(call_settle queue r).1, (call_settle queue r).2]
        exact result_eq_some.1 hresult
      · nofun
    | none =>
      have hlet := (allows_of_moves hturn).trans (reaches_abandon hc r)
      apply h.settled hlet
      · refine ⟨nofun, nofun, fun _ _ => ?_⟩
        exact (call_settle queue _).1.trans (call_abandon r)
      · exact fun _ _ => ⟨r, hturn, busy_of_result hans hresult, hwaits⟩

/-- **What every command comes to.** -/
theorem Resting.perform (h : s.Resting n) (c : Command) :
    Comes n c s (s.perform c) := by
  cases c with
  | feed i bytes => exact h.change rfl rfl
  | fault i cause => exact h.change rfl rfl
  | close i => exact h.change rfl rfl
  | read max =>
    refine h.launch rfl rfl ?_
    unfold beginRead
    split
    · exact fun _ => ⟨_, rfl⟩
    · nofun
  | readToEnd out => exact h.launch rfl rfl nofun
  | message =>
    refine h.launch rfl rfl ?_
    unfold beginMessage
    split <;> nofun
  | poll => exact h.poll
  | abandon => exact h.abandon rfl
  | cancel => exact h.change rfl rfl
  | drop =>
    simp only [Session.perform]
    split
    · exact h.settled (.step (.inr rfl) rfl) [] false
        ⟨nofun, nofun, nofun⟩ nofun
    · exact h.stays (fun _ => ⟨nofun, nofun, nofun⟩) nofun
  | stats =>
    simp only [Session.perform]
    split <;> exact h.stays (fun _ => ⟨nofun, nofun, nofun⟩) nofun

/-- One command after the other. -/
theorem Resting.all (h : s.Resting n) (cs : List Command) :
    (cs.foldl (fun s c => (s.perform c).2) s).Resting n ∧
      Reaches Reader.step (fun e => ∃ c ∈ cs, c.Allows e) s.reader
        (cs.foldl (fun s c => (s.perform c).2) s).reader := by
  induction cs generalizing s with
  | nil => exact ⟨h, .refl⟩
  | cons c cs ih =>
    have hfirst := h.perform c
    obtain ⟨hrest, hreach⟩ := ih hfirst.resting
    refine ⟨hrest, .trans (hfirst.reaches.mono ?_) (hreach.mono ?_)⟩
    · intro e he
      exact ⟨c, by simp, he⟩
    · rintro e ⟨d, hd, he⟩
      exact ⟨d, by simp [hd], he⟩

end Perform

theorem resting_ofReader {n : Nat} {config : Config} {r : Reader}
    (h : make n config = .ok r) : (ofReader r).Resting n := by
  refine ⟨ruled_make h, fun i => ?_⟩
  obtain ⟨_, _, rfl⟩ := make_eq_ok h
  rfl

/-- **A session is a run.** After each command of a user, and of the peers,
the reader is where a run has led it: events that the commands ask for, and
moves. Nobody has stopped too early: no worker can move, and a call that is
reported to be in flight cannot either. What is replied is what the call
has come to. -/
theorem session_reached {n : Nat} {config : Config} {r₀ : Reader}
    (hmake : make n config = .ok r₀) {cs : List Command} {reply : Reply}
    {s : Session} (h : (reply, s) ∈ history perform (ofReader r₀) cs) :
    (∃ es, run Reader.step r₀ es = some s.reader ∧ ∀ e ∈ es,
      e.isMove = true ∨ ∃ c ∈ cs, c.event? = some e) ∧
    (∀ i, s.reader.work i = none) ∧ Tells reply s.reader := by
  obtain ⟨past, c, hfront, hp⟩ := mem_history h
  have hfirst := resting_ofReader hmake
  have hcomes := (hfirst.all past).1.perform c
  obtain ⟨hrest, es, hrun, hall⟩ := hfirst.all (past ++ [c])
  rw [List.foldl_append] at hrest hrun
  simp only [List.foldl_cons, List.foldl_nil, ← hp] at hcomes hrest hrun
  refine ⟨⟨es, hrun, ?_⟩, hrest.still, hcomes.tells⟩
  intro e he
  obtain ⟨d, hd, hmove | hasks⟩ := hall e he
  · exact .inl hmove
  · exact .inr ⟨d, hfront.subset hd, hasks⟩

end Session

end Stripe.Reader
