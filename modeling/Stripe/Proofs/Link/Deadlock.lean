import Stripe.Transfer
import Stripe.Proofs.Link.Progress

/-!
# No deadlock

One user sends bytes by one call and then finishes the writer, the other
one reads to the end, or asks for the message. The two calls of the one
and the call of the other begin at any time, and in between the sides and
the pipes of the link move in any order (`step`). `Thrives` follows such a
run: the link fares well, and each user stands at one of its calls. As long
as one of the users has not returned, there is something that can happen
(`no_deadlock`): what fills the pipes is read, since a call of the reader
keeps its workers going even after it has returned, and what a worker or a
call waits for is then on its way.
-/

namespace Stripe.Transfer

/-! ## Runs -/

/-- What can happen in a transfer. -/
inductive Event where
  /-- The sending user makes its next call. -/
  | send
  /-- The receiving user makes its call. -/
  | receive
  /-- A side of the link or a pipe moves. -/
  | move (e : Link.Event)
deriving DecidableEq

/-- What happens in a transfer, if it is possible. A user begins a call if
the last one is over and there is one more to make. -/
def step (t : Transfer) : Event → Option Transfer
  | .send =>
    let (sender, writer) := t.sender.next t.link.writer
    if t.link.writer.call.isNone && writer.call.isSome then
      some { t with link := { t.link with writer }, sender }
    else none
  | .receive =>
    let (receiver, reader) := t.receiver.next t.link.reader
    if t.link.reader.call.isNone && reader.call.isSome then
      some { t with link := { t.link with reader }, receiver }
    else none
  | .move e =>
    if e.isMove then (t.link.step e).map ({ t with link := · }) else none

/-- A user calls when the last call is over. -/
theorem calls_of_send {t t' : Transfer} (hs : t.step .send = some t') :
    t.link.writer.call = none ∧
      (t.sender.next t.link.writer).2.call.isSome = true := by
  simp only [step, Option.ite_none_right_eq_some, Bool.and_eq_true,
    Option.isNone_iff_eq_none] at hs
  exact hs.1

theorem calls_of_receive {t t' : Transfer}
    (hs : t.step .receive = some t') :
    t.link.reader.call = none ∧
      (t.receiver.next t.link.reader).2.call.isSome = true := by
  simp only [step, Option.ite_none_right_eq_some, Bool.and_eq_true,
    Option.isNone_iff_eq_none] at hs
  exact hs.1

/-- Both users have made all their calls, and all have returned. -/
structure Returned (t : Transfer) : Prop where
  calls : t.sender.calls = []
  writer : t.link.writer.call = none
  begun : t.receiver.begun = true
  reader : t.link.reader.call = none

/-- The two users before their first calls. -/
def begin (l : Link) (bytes : Bytes) (goal : Receiver.Goal) : Transfer :=
  ⟨l, .whole bytes, .ofGoal goal⟩

/-! ## Calls -/

/-- The sending user makes the call that comes next, unless one has
failed. -/
theorem next_sender {u : Sender} {w : Writer} {job : Writer.Job}
    {calls : List Writer.Job} (hover : w.call = none)
    (hsuccess : ∀ e, w.answer ≠ some (.failed e)) (hpieces : u.pieces = [])
    (hcalls : u.calls = job :: calls) :
    ∃ u', u.next w = (u', w.setCall (.opening job)) ∧ u'.pieces = [] ∧
      u'.calls = calls := by
  have hnote : (u.note w.answer).pieces = [] ∧
      (u.note w.answer).calls = job :: calls := by
    unfold Sender.note
    split
    · exact ⟨by simp [hpieces], hcalls⟩
    · rename_i e ha
      exact absurd ha (hsuccess e)
    · exact ⟨hpieces, hcalls⟩
  unfold Sender.next
  rw [hover]
  simp only [Option.isSome_none, Bool.false_eq_true, if_false, hnote]
  exact ⟨_, rfl, rfl, rfl⟩

/-- The call that a user makes to obtain all bytes at once. -/
def asks : Receiver.Goal → Reader.Event
  | .message => .message
  | _ => .readToEnd []

/-- The receiving user makes its only call. -/
theorem next_receiver {u : Receiver} {r : Reader} (hover : r.call = none)
    (hgoal : ∀ max, u.goal ≠ .pieces max) (hbegun : u.begun = false) :
    ∃ r', u.next r = ({ u with begun := true }, r') ∧
      r.step (asks u.goal) = some r' ∧ r'.call.isSome = true := by
  unfold Receiver.next
  rw [hover]
  simp only [Option.isSome_none, Bool.false_eq_true, if_false]
  cases hg : u.goal with
  | toEnd =>
    rw [hbegun]
    exact ⟨_, rfl, by simp [asks, Reader.step, hover], rfl⟩
  | message =>
    rw [hbegun]
    refine ⟨_, rfl, by simp [asks, Reader.step, hover], ?_⟩
    unfold Reader.beginMessage
    split <;> rfl
  | pieces max => exact absurd hg (hgoal max)

/-! ## What every step keeps -/

/-- Which calls the sending user has yet to make, after it has sent `sent`
of `bytes`; `finished` says that the writer was finished. -/
inductive Owes (bytes sent : Bytes) (finished : Prop) :
    List Writer.Job → Prop where
  | both (unsent : sent = []) (unfinished : ¬ finished) :
      Owes bytes sent finished [.writeAll bytes, .finish none]
  | finish (all : sent = bytes) (unfinished : ¬ finished) :
      Owes bytes sent finished [.finish none]
  | nothing (done : finished) : Owes bytes sent finished []

/-- How a transfer of `bytes` goes on: the link fares well, after the users
have made some of their calls. -/
structure Thrives (n maxPayload : Nat) (capacity : Nat → Nat)
    (bytes sent : Bytes) (finished asked : Prop) (t : Transfer) : Prop where
  fares : ∃ log past, Link.Fares n maxPayload capacity sent finished asked
    log past t.link
  pieces : t.sender.pieces = []
  owes : Owes bytes sent finished t.sender.calls
  goal : ∀ max, t.receiver.goal ≠ .pieces max
  unbegun : t.receiver.begun = false → ¬ asked ∧ t.link.reader.call = none
  /-- The workers of the reader go on after its call has returned. -/
  begun : t.receiver.begun = true → t.link.reader.mode ≠ none

section Thrives

variable {n maxPayload : Nat} {capacity : Nat → Nat} {bytes sent : Bytes}
  {finished asked : Prop} {t t' : Transfer}

/-- The sending user can make its next call. -/
theorem Thrives.calls (h : Thrives n maxPayload capacity bytes sent finished
    asked t) {job : Writer.Job} {calls : List Writer.Job}
    (hover : t.link.writer.call = none)
    (hcalls : t.sender.calls = job :: calls) :
    ∃ sender, sender.pieces = [] ∧ sender.calls = calls ∧
      t.step .send = some { t with
        link := { t.link with
          writer := t.link.writer.setCall (.opening job) }
        sender } := by
  obtain ⟨_, _, fares⟩ := h.fares
  obtain ⟨sender, hnext, hpieces, hrest⟩ :=
    next_sender hover fares.writer.success h.pieces hcalls
  refine ⟨sender, hpieces, hrest, ?_⟩
  simp [step, hnext, hover, Writer.setCall]

/-- A sending user that makes a call had one to make. -/
theorem Thrives.had_calls (h : Thrives n maxPayload capacity bytes sent
    finished asked t) (hs : t.step .send = some t') :
    t.link.writer.call = none ∧ t.sender.calls ≠ [] := by
  obtain ⟨hover, hcall⟩ := calls_of_send hs
  refine ⟨hover, fun hcalls => ?_⟩
  have hnote : (t.sender.note t.link.writer.answer).pieces = [] ∧
      (t.sender.note t.link.writer.answer).calls = [] := by
    unfold Sender.note
    split <;> simp [h.pieces, hcalls]
  simp [Sender.next, hover, hnote] at hcall

/-- The sending user has made its next call, which is `e` for the link. -/
theorem Thrives.launch (h : Thrives n maxPayload capacity bytes sent
    finished asked t) {e : Writer.Event} {job : Writer.Job}
    {calls : List Writer.Job} (hover : t.link.writer.call = none)
    (hcalls : t.sender.calls = job :: calls)
    (hs : t.step .send = some t') (hplain : e.isPlain = true)
    (hmove : t.link.move (.send e) = some { t.link with
      writer := t.link.writer.setCall (.opening job) })
    (unfinished : ¬ finished) (hsize : (sent ++ e.sends).length ≤ maxCount)
    (howes : Owes bytes (sent ++ e.sends)
      (finished ∨ Link.Event.send e = .send .finish) calls) :
    ∃ sent' finished' asked',
      Thrives n maxPayload capacity bytes sent' finished' asked' t' := by
  obtain ⟨sender, hpieces, hrest, hstep⟩ := h.calls hover hcalls
  obtain rfl := Option.some.inj (hs.symm.trans hstep)
  obtain ⟨log, past, fares⟩ := h.fares
  obtain ⟨past', fares'⟩ := fares.move (e := .send e) hplain
    (fun _ => unfinished) (by simp [Link.Event.isReceiving]) hsize hmove
  exact ⟨_, _, _, ⟨_, _, fares'⟩, hpieces, hrest ▸ howes, h.goal,
    fun hb => by simpa using h.unbegun hb, h.begun⟩

theorem Thrives.send (h : Thrives n maxPayload capacity bytes sent finished
    asked t) (hsize : bytes.length ≤ maxCount)
    (hs : t.step .send = some t') : ∃ sent' finished' asked',
      Thrives n maxPayload capacity bytes sent' finished' asked' t' := by
  obtain ⟨hover, hsome⟩ := h.had_calls hs
  have howes := h.owes
  generalize hcalls : t.sender.calls = calls at howes hsome
  cases howes with
  | both unsent unfinished =>
    subst unsent
    refine h.launch (e := .writeAll bytes) hover hcalls hs rfl ?_
      unfinished hsize (.finish rfl (by simpa))
    simp [Link.move, Link.step, Link.sendable, Writer.step, Writer.launch,
      hover]
  | finish all unfinished =>
    have hsent : sent ++ Writer.Event.finish.sends = bytes := by
      simpa [Writer.Event.sends] using all
    refine h.launch (e := .finish) hover hcalls hs rfl ?_ unfinished
      (by rwa [hsent]) (.nothing (.inr rfl))
    simp [Link.move, Link.step, Link.sendable, Writer.step, Writer.launch,
      hover]
  | nothing => exact absurd rfl hsome

/-- The receiving user can make its call. -/
theorem Thrives.asks (h : Thrives n maxPayload capacity bytes sent finished
    asked t) (hbegun : t.receiver.begun = false) :
    ∃ reader, t.link.move (.receive (Transfer.asks t.receiver.goal)) =
        some { t.link with reader } ∧ reader.call.isSome = true ∧
      t.step .receive = some { t with
        link := { t.link with reader }
        receiver := { t.receiver with begun := true } } := by
  obtain ⟨_, hover⟩ := h.unbegun hbegun
  obtain ⟨reader, hnext, hstep, hcall⟩ :=
    next_receiver hover h.goal hbegun
  refine ⟨reader, ?_, hcall, by simp [step, hnext, hover, hcall]⟩
  have hreceivable : Link.receivable (Transfer.asks t.receiver.goal) =
      true := by cases t.receiver.goal <;> rfl
  simp [Link.move, Link.step, hreceivable, hstep]

/-- A receiving user that makes a call has made none before. -/
theorem Thrives.had_not_begun (h : Thrives n maxPayload capacity bytes sent
    finished asked t) (hs : t.step .receive = some t') :
    t.receiver.begun = false := by
  cases hb : t.receiver.begun with
  | false => rfl
  | true =>
    obtain ⟨hover, hcall⟩ := calls_of_receive hs
    have hsame : (t.receiver.next t.link.reader).2 = t.link.reader := by
      unfold Receiver.next
      cases hg : t.receiver.goal with
      | toEnd => simp [hover, hb]
      | message => simp [hover, hb]
      | pieces max => exact absurd hg (h.goal max)
    rw [hsame, hover] at hcall
    cases hcall

theorem Thrives.receive (h : Thrives n maxPayload capacity bytes sent
    finished asked t) (hs : t.step .receive = some t') :
    ∃ sent' finished' asked',
      Thrives n maxPayload capacity bytes sent' finished' asked' t' := by
  obtain ⟨log, past, fares⟩ := h.fares
  have hbegun := h.had_not_begun hs
  obtain ⟨unasked, _⟩ := h.unbegun hbegun
  obtain ⟨reader, hmove, hcall, hstep⟩ := h.asks hbegun
  obtain rfl := Option.some.inj (hs.symm.trans hstep)
  have hplain : Reader.Event.isPlain (Transfer.asks t.receiver.goal) =
      true := by cases t.receiver.goal <;> rfl
  obtain ⟨past', fares'⟩ := fares.move (e := .receive _) hplain
    (by simp [Link.Event.isSending]) (fun _ => unasked)
    (by simpa [Link.Event.sends] using fares.size) hmove
  refine ⟨_, _, _, ⟨_, _, fares'⟩, h.pieces, ?_, h.goal, ?_, fun _ => ?_⟩
  · simpa [Link.Event.sends] using h.owes
  · intro hb
    cases hb
  · obtain ⟨call, hcall⟩ := Option.isSome_iff_exists.1 hcall
    obtain ⟨_, hinv, _⟩ := fares'.reader.serves
    exact hinv.started hcall

/-- What moves by itself begins no call of the reader, and does not change
its mode. -/
theorem reader_of_move {l l' : Link} {e : Link.Event} (he : e.isMove = true)
    (hs : l.step e = some l') :
    (l.reader.call = none → l'.reader.call = none) ∧
      l'.reader.mode = l.reader.mode := by
  cases Link.move_cases (Link.move_of_step hs) with
  | send step plain => exact ⟨id, rfl⟩
  | room i m => exact ⟨id, rfl⟩
  | @receive e r step stays =>
    cases e with
    | work i =>
      have hcall := (Reader.call_of_work step).1
      exact ⟨fun h => hcall.trans h, Reader.mode_of_work step⟩
    | advance =>
      refine ⟨fun h => ?_, (Reader.kept_of_advance step).2⟩
      have hnone := Reader.advance_eq_none_iff.2 (.inl h)
      rw [show l.reader.step .advance = l.reader.advance from rfl, hnone]
        at step
      cases step
    | _ => cases he
  | carry pos le => exact ⟨id, rfl⟩
  | credit pos le => exact ⟨id, rfl⟩
  | dry dry => exact ⟨id, rfl⟩

/-- **What moves by itself** makes the link lighter. -/
theorem Thrives.move (h : Thrives n maxPayload capacity bytes sent finished
    asked t) {e : Link.Event} (hs : t.step (.move e) = some t') :
    Thrives n maxPayload capacity bytes sent finished asked t' ∧
      t'.link.weight < t.link.weight := by
  obtain ⟨he, hs⟩ := Option.ite_none_right_eq_some.1 hs
  obtain ⟨l, hstep, rfl⟩ := Option.map_eq_some_iff.1 hs
  obtain ⟨log, past, fares⟩ := h.fares
  have hmove := Link.move_of_step hstep
  obtain ⟨hcall, hmode⟩ := reader_of_move he hstep
  exact ⟨{ h with
    fares := fares.moved he hmove
    unbegun := fun hb => (h.unbegun hb).imp_right hcall
    begun := fun hb => hmode ▸ h.begun hb }, fares.lighter he hmove⟩

theorem Thrives.step (h : Thrives n maxPayload capacity bytes sent finished
    asked t) (hsize : bytes.length ≤ maxCount) {e : Event}
    (hs : t.step e = some t') : ∃ sent' finished' asked',
      Thrives n maxPayload capacity bytes sent' finished' asked' t' := by
  cases e with
  | send => exact h.send hsize hs
  | receive => exact h.receive hs
  | move e => exact ⟨_, _, _, (h.move hs).1⟩

/-- **Something can happen** as long as a call has to be made or has not
returned. -/
theorem Thrives.goes_on (h : Thrives n maxPayload capacity bytes sent
    finished asked t) (hcap : ∀ i < n, 0 < capacity i) :
    t.Returned ∨ ∃ e t', t.step e = some t' := by
  by_cases hquiet : t.link.Quiet
  · obtain ⟨_, _, fares⟩ := h.fares
    cases hb : t.receiver.begun with
    | false =>
      obtain ⟨_, _, _, hstep⟩ := h.asks hb
      exact .inr ⟨.receive, _, hstep⟩
    | true =>
      obtain ⟨hover, hdone⟩ := fares.quiet hquiet (.inr ⟨hcap, h.begun hb⟩)
      have howes := h.owes
      cases hcalls : t.sender.calls with
      | cons job calls =>
        obtain ⟨_, _, _, hstep⟩ := h.calls hover hcalls
        exact .inr ⟨.send, _, hstep⟩
      | nil =>
        rw [hcalls] at howes
        cases howes with
        | nothing hfin =>
          obtain ⟨_, hreader, _⟩ := hdone hfin
          exact .inl ⟨hcalls, hover, hb, hreader⟩
  · obtain ⟨e, he, hne⟩ : ∃ e : Link.Event, e.isMove = true ∧
        t.link.move e ≠ none := by simpa [Link.Quiet] using hquiet
    obtain ⟨l, hmove⟩ := Option.ne_none_iff_exists'.1 hne
    have hstep : t.link.step e = some l := by
      rwa [Link.step_eq_move he]
    exact .inr ⟨.move e, { t with link := l },
      by simp [Transfer.step, he, hstep]⟩

/-- Once both users have returned, neither has failed. -/
theorem Thrives.succeeds (h : Thrives n maxPayload capacity bytes sent
    finished asked t) (hr : t.Returned) :
    t.sent = some (.finished t.link.writer.stats) ∧
      ∀ a, t.received = some a → a.isFailure = false := by
  obtain ⟨_, _, fares⟩ := h.fares
  refine ⟨?_, fares.reader.success⟩
  have howes := h.owes
  rw [hr.calls] at howes
  cases howes with
  | nothing hfin =>
    obtain ⟨hans, _⟩ := fares.writer.finished hfin hr.writer
    exact hans

end Thrives

/-! ## Whole runs -/

section Runs

variable {config : Config} {capacities : List Nat}

/-- Every link whose settings are valid can be made. -/
theorem make_valid (hvalid : config.validate = .ok ())
    (hne : capacities ≠ []) :
    ∃ l, Link.make config config capacities = .ok l ∧
      l.reader.call = none := by
  obtain ⟨w, hw⟩ : ∃ w,
      Writer.make (capacities.map Link.outlet) config = .ok w := by
    simp [Writer.make, hvalid, hne]
  obtain ⟨r, hr⟩ : ∃ r, Reader.make capacities.length config = .ok r := by
    simp [Reader.make, hvalid, hne]
  have hidle : r.call = none := by
    obtain ⟨_, _, rfl⟩ := Reader.make_eq_ok hr
    rfl
  refine ⟨⟨w, r, capacities.map fun _ => ⟨0, 0⟩⟩, ?_, hidle⟩
  show (Writer.make (capacities.map Link.outlet) config).bind _ = _
  rw [hw]
  show (Reader.make capacities.length config).bind _ = _
  rw [hr]
  rfl

theorem thrives_begin {l : Link} {bytes : Bytes} {goal : Receiver.Goal}
    (hmake : Link.make config config capacities = .ok l)
    (hidle : l.reader.call = none)
    (hfits : config.maxSegmentLen ≤ config.maxPayloadLen)
    (hn : capacities.length < Intake.countLimit)
    (hgoal : ∀ max, goal ≠ .pieces max) :
    Thrives capacities.length config.maxPayloadLen
      (fun i => capacities.getD i 0) bytes [] False False
      (.begin l bytes goal) := by
  obtain ⟨past, fares⟩ := Link.fares_make hmake hn hfits
  exact ⟨⟨_, past, fares⟩, rfl, .both rfl id, hgoal, fun _ => ⟨id, hidle⟩,
    nofun⟩

theorem thrives_run {n maxPayload : Nat} {capacity : Nat → Nat}
    {bytes sent : Bytes} {finished asked : Prop} {t t' : Transfer}
    {es : List Event} (h : Thrives n maxPayload capacity bytes sent finished
      asked t) (hsize : bytes.length ≤ maxCount)
    (hrun : Stripe.run Transfer.step t es = some t') :
    ∃ sent' finished' asked',
      Thrives n maxPayload capacity bytes sent' finished' asked' t' := by
  induction es generalizing t sent finished asked with
  | nil =>
    cases hrun
    exact ⟨_, _, _, h⟩
  | cons e es ih =>
    obtain ⟨t₁, hstep, hrest⟩ := Option.bind_eq_some_iff.1 hrun
    obtain ⟨_, _, _, h₁⟩ := h.step hsize hstep
    exact ih h₁ hrest

/-- **A transfer cannot deadlock.** Over any number of pipes that hold
anything at all, under settings that are valid, one user sends bytes by one
call and finishes the writer, and the other one asks for all bytes or for
the message. Wherever they have got to, both have returned, or something
can happen: a user makes its next call, or a call, a worker or a pipe
moves. Nor do these move for ever, since each move leaves less to do; and
once both users have returned, neither has failed. -/
theorem no_deadlock {bytes : Bytes} {goal : Receiver.Goal}
    (hvalid : config.validate = .ok ()) (hne : capacities ≠ [])
    (hn : capacities.length < Intake.countLimit)
    (hcap : ∀ c ∈ capacities, 0 < c) (hsize : bytes.length ≤ maxCount)
    (hgoal : ∀ max, goal ≠ .pieces max) :
    ∃ l, Link.make config config capacities = .ok l ∧
      ∀ es t, Stripe.run step (.begin l bytes goal) es = some t →
        (t.Returned ∨ ∃ e t', t.step e = some t') ∧
        (t.Returned → t.sent = some (.finished t.link.writer.stats) ∧
          ∀ a, t.received = some a → a.isFailure = false) ∧
        ∀ e t', t.step (.move e) = some t' →
          t'.link.weight < t.link.weight := by
  obtain ⟨l, hmake, hidle⟩ := make_valid hvalid hne
  refine ⟨l, hmake, fun es t hrun => ?_⟩
  obtain ⟨_, _, _, h⟩ := thrives_run (thrives_begin hmake hidle
    (Config.validate_eq_ok_iff.1 hvalid).2 hn hgoal) hsize hrun
  refine ⟨h.goes_on fun i hi => ?_, h.succeeds,
    fun e t' hs => (h.move hs).2⟩
  have hget : capacities.getD i 0 = capacities[i] := by simp [hi]
  exact hget ▸ hcap _ (List.getElem_mem hi)

/-- The sender has filled a pipe of one byte, and waits. -/
def fullEvents : List Event :=
  [.send, .move (.send .advance), .move (.send (.work 0)),
   .move (.send .advance), .move (.send .advance), .move (.send (.work 0)),
   .move (.send (.work 0)), .move (.carry 0 1)]

/-- Neither side can move, and the receiver has a call to make. -/
theorem no_deadlock_full : ∃ l t,
    Link.make .standard .standard [1] = .ok l ∧
    Stripe.run step (.begin l [104] .toEnd) fullEvents = some t ∧
    t.link.isQuiet = true ∧ ¬ t.Returned ∧ ∃ e t', t.step e = some t' := by
  obtain ⟨l, t, hmake, hrun, hquiet, hcall⟩ : ∃ l t,
      Link.make .standard .standard [1] = .ok l ∧
      Stripe.run step (.begin l [104] .toEnd) fullEvents = some t ∧
      t.link.isQuiet = true ∧ t.link.writer.call.isSome = true :=
    ⟨_, _, rfl, rfl, rfl, rfl⟩
  have hvalid : Config.standard.validate = .ok () := rfl
  have hsize : ([104] : Bytes).length ≤ maxCount := by decide
  have hgoal : ∀ max, Receiver.Goal.toEnd ≠ .pieces max := by simp
  have hcap : ∀ c ∈ [1], 0 < c := by simp
  obtain ⟨l', hmake', hruns⟩ :=
    no_deadlock hvalid (by simp) (by decide) hcap hsize hgoal
  obtain rfl := Except.ok.inj (hmake.symm.trans hmake')
  have hwaits : ¬ t.Returned := by
    intro hreturned
    rw [hreturned.writer] at hcall
    cases hcall
  exact ⟨l, t, hmake, hrun, hquiet, hwaits,
    (hruns _ t hrun).1.resolve_left hwaits⟩

end Runs

end Stripe.Transfer
