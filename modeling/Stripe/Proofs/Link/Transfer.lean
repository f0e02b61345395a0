import Stripe.Proofs.Link.Deadlock
import Stripe.Proofs.Link.Schedule
import Stripe.Proofs.Link.Users

/-!
# A transfer that goes on by itself

`run` lets the users and the link go on in one of the orders that their
steps leave open (`reaches_run`), until nothing can happen any more
(`run_ends`). For each step makes `Transfer.weight` smaller
(`Proper.step`): the calls of the users are paid for in advance.

So where there is no deadlock, both users return from a run
(`run_returned`).
-/

namespace Stripe

namespace Transfer

variable {n : Nat} {t t' : Transfer}

/-! ## Steps -/

theorem send_cases (hs : t.step .send = some t') :
    t.link.writer.call = none ∧ ∃ sender job,
      (t.sender.note t.link.writer.answer).Nexts sender job ∧
      t' = { t with
        link := { t.link with
          writer := t.link.writer.setCall (.opening job) }
        sender } := by
  obtain ⟨hover, hcall⟩ := calls_of_send hs
  obtain ⟨job, hnext, hwriter⟩ := Sender.next_cases hover hcall
  refine ⟨hover, _, job, hnext, ?_⟩
  rw [← hwriter]
  exact (Option.some.inj (Option.ite_none_right_eq_some.1 hs).2).symm

theorem receive_cases (hs : t.step .receive = some t') :
    ∃ receiver reader, t.receiver.Nexts t.link.reader receiver reader ∧
      reader.call ≠ none ∧
      t' = { t with link := { t.link with reader }, receiver } := by
  obtain ⟨hover, hcall⟩ := calls_of_receive hs
  refine ⟨_, _, Receiver.next_spec hover hcall, ?_, ?_⟩
  · intro hnone
    rw [hnone] at hcall
    cases hcall
  · exact (Option.some.inj (Option.ite_none_right_eq_some.1 hs).2).symm

/-- A transfer by users who ask for what there is, after any steps. -/
structure Proper (n : Nat) (t : Transfer) : Prop where
  link : Link.Coupled n t.link
  usual : t.sender.Usual
  /-- Pieces are left only while they are sent. -/
  sending : t.sender.pieces ≠ [] → t.link.writer.Sending

/-- The users and the link have less to do together. -/
theorem Proper.weight_lt (h : Proper n t) {l : Link}
    (hlink : Link.Coupled n l) {s : Sender} {r : Receiver}
    (hlt : l.weight + (s.rest l.writer).weight n + r.weight l.reader <
      t.link.weight + (t.sender.rest t.link.writer).weight n +
        t.receiver.weight t.link.reader) : weight ⟨l, s, r⟩ < t.weight := by
  have hsize : l.connections = n := hlink.size
  have hsize' : t.link.connections = n := h.link.size
  simp only [weight, hsize, hsize']
  exact hlt

theorem Proper.send (h : Proper n t) (hs : t.step .send = some t') :
    Proper n t' ∧ t'.weight < t.weight := by
  obtain ⟨hover, sender, job, hnext, rfl⟩ := send_cases hs
  obtain ⟨husual, e, hbegins⟩ := hnext.usual (h.usual.note _)
  have hlink : Link.Coupled n { t.link with
      writer := t.link.writer.setCall (.opening job) } := by
    refine h.link.move (e := .send e) ?_
    cases hbegins <;>
      simp [Link.move, Link.step, Link.sendable, Writer.step,
        Writer.launch, hover]
  refine ⟨⟨hlink, husual, ?_⟩, h.weight_lt hlink ?_⟩
  · intro hne
    cases hnext with
    | job none calls => exact absurd none hne
    | piece some => exact Writer.sending_of_call rfl rfl some
  · have hadds := h.link.weight_opening job hover
    have hpays := hnext.weight (n := n)
    rw [hadds, Sender.rest_setCall, Sender.rest_of_over hover]
    dsimp only
    omega

theorem Proper.receive (h : Proper n t) (hs : t.step .receive = some t') :
    Proper n t' ∧ t'.weight < t.weight := by
  obtain ⟨receiver, reader, ⟨⟨e, he, hstep⟩, hpays⟩, hcall, rfl⟩ :=
    receive_cases hs
  obtain ⟨hlanes, hadds⟩ := Reader.weight_begin he hstep hcall
  have hlink : Link.Coupled n { t.link with reader := reader } := by
    have hreceives : Link.receivable e = true := by
      cases e <;> first | rfl | cases he
    refine h.link.move (e := .receive e) ?_
    simp [Link.move, Link.step, hreceives, hstep]
  refine ⟨⟨hlink, h.usual, h.sending⟩, h.weight_lt hlink ?_⟩
  have hsum := Link.weight_reader (l := t.link) (r := reader)
    (by simp only [Reader.unended, hlanes])
  dsimp only
  omega

/-- The link has moved, and has paid for what the users can do now. -/
theorem Proper.moved (h : Proper n t) {l : Link} (hlink : Link.Coupled n l)
    (hwriter : (t.sender.pieces ≠ [] → l.writer.Sending) ∧
      (t.sender.rest l.writer).weight n ≤
        (t.sender.rest t.link.writer).weight n)
    (hlt : l.weight + t.receiver.weight l.reader <
      t.link.weight + t.receiver.weight t.link.reader) :
    Proper n { t with link := l } ∧
      weight { t with link := l } < t.weight := by
  obtain ⟨hsending, hrest⟩ := hwriter
  refine ⟨⟨hlink, h.usual, hsending⟩, h.weight_lt hlink ?_⟩
  omega

/-- **A move of the link** leaves the users no more to do, or pays for
that. -/
theorem Proper.move (h : Proper n t) {e : Link.Event}
    (hs : t.step (.move e) = some t') :
    Proper n t' ∧ t'.weight < t.weight := by
  obtain ⟨he, hs⟩ := Option.ite_none_right_eq_some.1 hs
  obtain ⟨l, hstep, rfl⟩ := Option.map_eq_some_iff.1 hs
  have hmove := Link.move_of_step hstep
  have hlink := h.link.move hmove
  have hlt := h.link.lighter he hmove
  have hsame {w : Writer} (hcall : w.call = t.link.writer.call)
      (hans : w.answer = t.link.writer.answer) :
      (t.sender.pieces ≠ [] → w.Sending) ∧
        (t.sender.rest w).weight n ≤
          (t.sender.rest t.link.writer).weight n := by
    refine ⟨fun hne call hc => h.sending hne call (hcall ▸ hc), ?_⟩
    exact Nat.le_of_eq (by rw [Sender.rest_congr hcall hans])
  cases Link.move_cases hmove with
  | @send e w step plain =>
    refine h.moved hlink ?_ (Nat.add_lt_add_right hlt _)
    cases e with
    | work i =>
      have haside := Writer.aside_work step
      exact hsame haside.call haside.answer
    | advance =>
      obtain ⟨_, _, _, _, hinv⟩ := h.link.writer
      refine ⟨fun hne => ((h.sending hne).advance hinv.maxLen step).sending,
        Sender.weight_rest_advance hinv.maxLen step h.sending⟩
    | _ => cases he
  | room i m => cases he
  | @receive e r step stays =>
    obtain ⟨_, _, _, _, hinv⟩ := h.link.reader
    have hread := Receiver.weight_move (u := t.receiver) hinv he step
    have hsum := Link.weight_reader (l := t.link)
      (hinv.unended_move he step)
    refine h.moved hlink (hsame rfl rfl) ?_
    dsimp only
    omega
  | carry pos le =>
    exact h.moved hlink (hsame rfl rfl) (Nat.add_lt_add_right hlt _)
  | credit pos le =>
    exact h.moved hlink (hsame rfl rfl) (Nat.add_lt_add_right hlt _)
  | dry dry =>
    exact h.moved hlink (hsame rfl rfl) (Nat.add_lt_add_right hlt _)

/-- **Every step of a transfer** takes weight. -/
theorem Proper.step (h : Proper n t) {e : Event}
    (hs : t.step e = some t') : Proper n t' ∧ t'.weight < t.weight := by
  cases e with
  | send => exact h.send hs
  | receive => exact h.receive hs
  | move e => exact h.move hs

theorem proper_lowers :
    Lowers Transfer.step (fun _ => True) (Proper n) weight where
  keeps _ h hs := (h.step hs).1
  lowers _ h hs := (h.step hs).2

/-- **No run goes on for ever**, in whatever order its steps come. -/
theorem Proper.run_bounded (h : Proper n t) {es : List Event}
    (hrun : Stripe.run Transfer.step t es = some t') :
    es.length + t'.weight ≤ t.weight :=
  proper_lowers.run_bounded h (fun _ _ => trivial) hrun

/-! ## One order of steps -/

theorem send_eq (t : Transfer) : t.send = (t.step .send).getD t := by
  simp only [send, step]
  split <;> rfl

theorem receive_eq (t : Transfer) :
    t.receive = (t.step .receive).getD t := by
  simp only [receive, step]
  split <;> rfl

/-- A step is taken if it is possible. -/
theorem reaches_getD (t : Transfer) (e : Event) :
    Reaches Transfer.step (fun _ => True) t ((t.step e).getD t) := by
  cases hs : t.step e with
  | none => exact .refl
  | some t' => exact .step trivial hs

theorem reaches_rest (t : Transfer) :
    Reaches Transfer.step (fun _ => True) t t.rest := by
  refine (Link.reaches_complete t.link).lift
    (f := fun l => { t with link := l }) ?_
  intro l e l' he hs
  exact .step (e := .move e) trivial (by simp [step, he, hs])

theorem reaches_calls (t : Transfer) :
    Reaches Transfer.step (fun _ => True) t t.send.receive := by
  rw [receive_eq, send_eq]
  exact (reaches_getD t .send).trans (reaches_getD _ .receive)

theorem reaches_runWithin (fuel : Nat) (t : Transfer) :
    Reaches Transfer.step (fun _ => True) t (runWithin fuel t) := by
  induction fuel generalizing t with
  | zero => exact .refl
  | succ fuel ih =>
    simp only [runWithin]
    split
    · exact reaches_rest t
    · exact (reaches_rest t).trans ((reaches_calls _).trans (ih _))

/-- **A run is a run of steps.** -/
theorem reaches_run (t : Transfer) :
    Reaches Transfer.step (fun _ => True) t t.run :=
  reaches_runWithin _ t

/-! ## The end of a run -/

/-- A step that changes nothing is not possible. -/
theorem Proper.step_eq_none (h : Proper n t) {e : Event}
    (hsame : (t.step e).getD t = t) : t.step e = none := by
  cases hs : t.step e with
  | none => rfl
  | some t' =>
    have hlt := (h.step hs).2
    rw [hs, Option.getD_some] at hsame
    rw [hsame] at hlt
    omega

/-- **A transfer at rest** stands still if no user has made a call. -/
theorem Proper.still (h : Proper n t) (hquiet : t.link.Quiet)
    (hsame : t.send.receive.weight = t.weight) (e : Event) :
    t.step e = none := by
  have hfirst : Reaches Transfer.step (fun _ => True) t t.send := by
    rw [send_eq]
    exact reaches_getD t .send
  have hrest : Reaches Transfer.step (fun _ => True) t.send
      t.send.receive := by
    rw [receive_eq]
    exact reaches_getD _ .receive
  have hsend : t.send = t :=
    proper_lowers.still h hfirst hrest (Nat.le_of_eq hsame.symm)
  have hreceive : t.receive = t := by
    rw [hsend] at hrest hsame
    exact proper_lowers.eq_of_le h hrest (Nat.le_of_eq hsame.symm)
  cases e with
  | send => exact h.step_eq_none (send_eq t ▸ hsend)
  | receive => exact h.step_eq_none (receive_eq t ▸ hreceive)
  | move e =>
    by_cases he : e.isMove = true
    · have hnone := hquiet e he
      rw [← Link.step_eq_move he] at hnone
      simp [Transfer.step, he, hnone]
    · simp [Transfer.step, he]

theorem Proper.stops_runWithin (h : Proper n t) {fuel : Nat}
    (hle : t.weight ≤ fuel) (e : Event) :
    (runWithin fuel t).step e = none := by
  induction fuel generalizing t with
  | zero => exact proper_lowers.stuck h hle trivial
  | succ fuel ih =>
    have hrested := proper_lowers.good h (reaches_rest t)
    simp only [runWithin]
    split
    · rename_i hsame
      exact hrested.still h.link.quiet_complete hsame e
    · rename_i hless
      have hdown := proper_lowers.le h (reaches_rest t)
      have hcalls := proper_lowers.le hrested (reaches_calls t.rest)
      exact ih (proper_lowers.good hrested (reaches_calls _)) (by omega)

/-- **A run goes on until nothing can happen.** -/
theorem Proper.run_stops (h : Proper n t) (e : Event) :
    t.run.step e = none :=
  h.stops_runWithin (Nat.le_refl _) e

/-! ## Transfers over a new link -/

section Make

variable {sender receiver : Config} {capacities : List Nat} {l : Link}

theorem proper_make (h : Link.make sender receiver capacities = .ok l)
    {user : Sender} (hfresh : user.Fresh) (goal : Receiver.Goal) :
    Proper capacities.length ⟨l, user, .ofGoal goal⟩ := by
  refine ⟨Link.coupled_make h, hfresh.usual, fun _ => ?_⟩
  obtain ⟨w, r, hw, _, rfl⟩ := Link.make_eq_ok h
  refine Writer.sending_of_over ?_
  obtain ⟨_, _, rfl⟩ := Writer.make_eq_ok hw
  rfl

/-- **A run of any two users** goes on until nothing can happen. -/
theorem run_ends (h : Link.make sender receiver capacities = .ok l)
    {user : Sender} (hfresh : user.Fresh) (goal : Receiver.Goal)
    (e : Event) : (run ⟨l, user, .ofGoal goal⟩).step e = none :=
  (proper_make h hfresh goal).run_stops e

/-- **Where there is no deadlock, both users return** from a run: the one
has sent its bytes and finished the writer, and the other one has not
failed. -/
theorem run_returned {config : Config} {bytes : Bytes}
    {goal : Receiver.Goal}
    (hmake : Link.make config config capacities = .ok l)
    (hn : capacities.length < Intake.countLimit)
    (hcap : ∀ c ∈ capacities, 0 < c) (hsize : bytes.length ≤ maxCount)
    (hgoal : ∀ max, goal ≠ .pieces max) :
    let t := (begin l bytes goal).run
    t.Returned ∧ t.sent = some (.finished t.link.writer.stats) ∧
      ∀ a, t.received = some a → a.isFailure = false := by
  intro t
  have hend : ∀ e, t.step e = none := run_ends hmake .whole goal
  obtain ⟨w, r, hw, hr, rfl⟩ := Link.make_eq_ok hmake
  obtain ⟨hvalid, _, _⟩ := Writer.make_eq_ok hw
  have hidle : r.call = none := by
    obtain ⟨_, _, rfl⟩ := Reader.make_eq_ok hr
    rfl
  obtain ⟨es, hrun, _⟩ := reaches_run (begin ⟨w, r, _⟩ bytes goal)
  obtain ⟨_, _, _, h⟩ := thrives_run (thrives_begin hmake hidle
    (Config.validate_eq_ok_iff.1 hvalid).2 hn hgoal) hsize hrun
  have hroom : ∀ i < capacities.length, 0 < capacities.getD i 0 := by
    intro i hi
    have hget : capacities.getD i 0 = capacities[i] := by simp [hi]
    exact hget ▸ hcap _ (List.getElem_mem hi)
  have hreturned : t.Returned := by
    rcases h.goes_on hroom with hreturned | ⟨e, t', hs⟩
    · exact hreturned
    · cases (hend e).symm.trans hs
  exact ⟨hreturned, h.succeeds hreturned⟩

end Make

end Transfer

end Stripe
