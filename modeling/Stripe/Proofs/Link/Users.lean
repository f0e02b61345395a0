import Stripe.Transfer
import Stripe.Proofs.Link.Weight
import Stripe.Proofs.Writer.Cutting

/-!
# What two users may still do

A user that makes a call adds to what the link has to do. The sending user
has a number of calls to make, and those for single segments become fewer
by a byte at least, since each of them sends something or fails
(`Sending.advance`); so what they add is known before (`Sender.weight`).
The receiving user calls once more whenever a call has returned some bytes;
they have left the queue, and that pays for the next call
(`Inv.weight_bytes`).
-/

namespace Stripe

/-! ## Read calls -/

namespace Reader

section Weight

variable {n maxPayload : Nat} {input : Nat → Inlet}
  {rows : Nat → List Segment} {out : Bytes} {r r' : Reader}

theorem start_spec (mode : Mode) (r : Reader) :
    (r.start mode).lanes = r.lanes ∧
      (r.start mode).transmission.load ≤ r.transmission.load := by
  unfold start
  cases r.mode with
  | some _ => exact ⟨rfl, Nat.le_refl _⟩
  | none =>
    cases mode with
    | stream => exact ⟨rfl, Nat.le_refl _⟩
    | collect => exact ⟨rfl, Nat.zero_le _⟩

/-- A call that looks has little to do before it waits. -/
theorem callWeight_looking {task : Task}
    (h : r.call = some ⟨task, .looking⟩) : r.callWeight ≤ 6 := by
  unfold callWeight
  rw [h]
  cases r.cancelled <;> cases r.wakeup <;> simp [Stage.weight]

theorem weight_begin {e : Event} (he : e.isCall = true)
    (hs : r.step e = some r') (hcall : r'.call ≠ none) :
    r'.lanes = r.lanes ∧ r'.weight ≤ r.weight + 6 := by
  cases step_cases hs with
  | @begin _ task idle asks =>
    obtain ⟨hlanes, hload⟩ := start_spec task.mode r
    refine ⟨hlanes, ?_⟩
    have hlooks := callWeight_looking
      (r := (r.start task.mode).setStage task .looking) rfl
    show total Lane.weight (r.start task.mode).lanes +
      6 * (r.start task.mode).transmission.load + _ ≤ _
    simp only [weight, hlanes]
    omega
  | nothing idle => exact absurd rfl hcall
  | arrive arrives => cases arrives <;> cases he
  | _ => cases he

/-- **A call that returns some bytes** has taken them out of the queue, and
that pays for another call. -/
theorem Inv.weight_bytes (h : Inv n maxPayload input rows out r)
    (ha : r.advance = some r') (hover : r'.call = none) {b : UInt8}
    {bs : Bytes} (hans : r'.answer = some (.bytes (b :: bs))) :
    r'.weight + 8 ≤ r.weight := by
  have hlanes := (kept_of_advance ha).1
  have hstop {r : Reader} {task : Task}
      (hgive : (r.giveUp task).answer = some (.bytes (b :: bs))) :
      False := by
    cases (giveUp_answer hgive).2
  cases advance_cases ha with
  | stop call stopped => exact (hstop hans).elim
  | look call going => cases hover
  | message call completed =>
    rcases takeMessage_cases r with ⟨e, _, he⟩ | ⟨m, _, he⟩
    · rw [he] at hans
      cases hans
    · rw [he] at hans
      cases hans
  | hole call completed nobody => exact (hstop hans).elim
  | collecting call completed somebody => cases hover
  | broken call next => exact (hstop hans).elim
  | @ready extent live bytes t call next =>
    have hless := (h.load_next call next).2 bytes rfl
    cases extent with
    | upTo max =>
      have hload : ((r.keep t).handOut (.upTo max) bytes).transmission.load
          < r.transmission.load := hless
      have hcall : 2 ≤ r.callWeight := by
        unfold callWeight
        rw [call]
        cases r.cancelled <;> cases r.wakeup <;> simp [Stage.weight]
      have hnone := callWeight_over hover
      simp only [weight, hlanes]
      omega
    | toEnd out' count => cases hover
    | remainder out' => cases hover
  | @finished extent live t call next =>
    cases extent with
    | upTo max => cases hans
    | toEnd out' count => cases hans
    | remainder out' => cases hans
  | gap call next nobody => exact (hstop hans).elim
  | pending call next somebody => cases hover
  | wake call woken => cases hover
  | stir call stopped => cases hover

end Weight

end Reader

/-! ## Write calls -/

namespace Writer

/-- A job to send a byte at least, or one that has done so. -/
def Job.SendsPiece : Job → Prop
  | .write bytes => bytes ≠ []
  | .wrote count => 0 < count
  | _ => False

/-- The call in flight has such a job. -/
def Sending (w : Writer) : Prop :=
  ∀ call, w.call = some call →
    ∃ job, call.job? = some job ∧ job.SendsPiece

section Sending

variable {w w' : Writer}

theorem sending_of_call {call : Call} {job : Job}
    (hc : w.call = some call) (hj : call.job? = some job)
    (hp : job.SendsPiece) : Sending w := by
  intro c hcall
  cases hc.symm.trans hcall
  exact ⟨job, hj, hp⟩

theorem sending_of_over (h : w.call = none) : Sending w := by
  intro c hcall
  cases h.symm.trans hcall

/-- What a write call comes to that sends a byte at least. -/
def Sent (w : Writer) : Prop :=
  (∃ k, 0 < k ∧ w.answer = some (.wrote k)) ∨
    ∃ e, w.answer = some (.failed e)

/-- The write call goes on, or it has come to something. -/
structure Sends (w : Writer) : Prop where
  sending : Sending w
  sent : w.call = none → Sent w

theorem sends_of_call {call : Call} {job : Job} (hp : job.SendsPiece)
    (hc : w.call = some call) (hj : call.job? = some job) : Sends w := by
  refine ⟨sending_of_call hc hj hp, ?_⟩
  intro hover
  cases hc.symm.trans hover

theorem sends_of_sent (hover : w.call = none) (hsent : Sent w) : Sends w :=
  ⟨sending_of_over hover, fun _ => hsent⟩

/-- A write call that cannot go on has failed. -/
theorem sends_reject {job : Job} (hp : job.SendsPiece) (e : Error)
    (w : Writer) : Sends (w.reject e job) := by
  have heq : w.reject e job = w.conclude (.failed e) := by
    cases job with
    | write | wrote => rfl
    | writeAll | copy | finish => cases hp
  rw [heq]
  exact sends_of_sent rfl (.inr ⟨e, rfl⟩)

theorem sends_proceed {job : Job} (hp : job.SendsPiece)
    (hm : 0 < w.config.maxSegmentLen) (h : Proceeds w job w') :
    Sends w' := by
  cases h with
  | nothing => exact absurd rfl hp
  | @piece bytes pos =>
    have hsends : Job.SendsPiece
        (.wrote (bytes.take w.config.maxSegmentLen).length) := by
      apply List.length_pos_iff.2
      intro hnil
      exact pos (take_eq_nil hm hnil)
    exact sends_of_call hsends rfl rfl
  | @wrote count => exact sends_of_sent rfl (.inl ⟨count, hp, rfl⟩)
  | _ => cases hp

/-- **A write call** goes on until it has sent something, or has failed. -/
theorem Sending.advance (h : Sending w) (hm : 0 < w.config.maxSegmentLen)
    (ha : w.advance = some w') : Sends w' := by
  have hjob {call : Call} {job : Job} (hc : w.call = some call)
      (hj : call.job? = some job) : job.SendsPiece := by
    obtain ⟨job', hj', hp⟩ := h call hc
    cases hj.symm.trans hj'
    exact hp
  -- no such call has come as far as to wait for the workers to leave
  have hnot {call : Call} (hc : w.call = some call)
      (hnone : call.job? = none) : False := by
    obtain ⟨_, hj, _⟩ := h call hc
    cases hnone.symm.trans hj
  cases advance_cases hm ha with
  | start call stage => exact sends_of_call (hjob call rfl) rfl rfl
  | resume call stage => exact sends_of_call (hjob call rfl) rfl rfl
  | late call stage => exact sends_reject (hjob call rfl) _ _
  | abort call stopped => exact sends_reject (hjob call rfl) _ _
  | hand call going send => exact sends_of_call (hjob call rfl) rfl rfl
  | alone call going send fails waits =>
    exact sends_reject (hjob call rfl) _ _
  | proceed call proceeds =>
    exact sends_proceed (hjob call rfl) hm proceeds
  | announce call owner => exact (hnot call rfl).elim
  | tally call owner count => exact (hnot call rfl).elim
  | settle call owner count => exact (hnot call rfl).elim
  | shut call lt => exact (hnot call rfl).elim
  | conclude call le => exact (hnot call rfl).elim

/-- What a call that begins adds to the weight. -/
theorem weight_opening (job : Job) (hover : w.call = none) :
    (w.setCall (.opening job)).weight = w.weight +
      (2 * Header.size + 5 + job.effort w.connections) := by
  have hnone := callEffort_over hover
  show total w.effortAt (List.range w.connections) +
    (2 * Header.size + 5 + job.effort w.connections) = _
  simp only [weight, hnone]
  omega

end Sending

end Writer

/-! ## The weight of a link -/

namespace Link

variable {l : Link} {n : Nat}

/-- A call of the writer has begun. -/
theorem Coupled.weight_opening (h : Coupled n l) (job : Writer.Job)
    (hover : l.writer.call = none) :
    weight { l with writer := l.writer.setCall (.opening job) } =
      l.weight + Sender.cost n job := by
  have hcall := Writer.weight_opening job hover
  rw [h.lanes] at hcall
  show 27 * (l.writer.setCall (.opening job)).weight +
    total l.transit (List.range l.connections) + l.reader.unended +
    l.reader.weight = _
  simp only [hcall, weight, Sender.cost]
  omega

end Link

/-! ## The sending user -/

namespace Sender

variable {n : Nat} {u u' : Sender} {w w' : Writer}

theorem rest_of_call {call : Writer.Call} (h : w.call = some call) :
    u.rest w = { u with pieces := u.pieces.tail } := by
  simp [rest, h]

theorem rest_setCall (call : Writer.Call) :
    u.rest (w.setCall call) = { u with pieces := u.pieces.tail } :=
  rest_of_call rfl

theorem rest_of_over (h : w.call = none) : u.rest w = u.note w.answer := by
  simp [rest, h]

theorem rest_congr (hcall : w'.call = w.call)
    (hans : w'.answer = w.answer) : u.rest w' = u.rest w := by
  simp only [rest, hcall, hans]

theorem cost_write_le {xs ys : Bytes} (h : xs.length ≤ ys.length) :
    cost n (.write xs) ≤ cost n (.write ys) := by
  simp only [cost, Writer.Job.effort]
  omega

/-- Who has fewer bytes to send has less to do. -/
theorem weight_le (hpieces : u'.pieces.length ≤ u.pieces.length)
    (hcalls : u'.calls = u.calls) : u'.weight n ≤ u.weight n := by
  have hcost : u'.pieces.length * (cost n (.write u'.pieces) + 1) ≤
      u.pieces.length * (cost n (.write u.pieces) + 1) :=
    Nat.mul_le_mul hpieces (Nat.succ_le_succ (cost_write_le hpieces))
  simp only [weight, hcalls]
  omega

/-- **What a write call comes to** leaves less to send. -/
theorem weight_note (hsent : u.pieces ≠ [] → w.Sent) :
    (u.note w.answer).weight n ≤
      weight n { u with pieces := u.pieces.tail } := by
  unfold note
  split
  · rename_i k hans
    refine weight_le ?_ rfl
    simp only [List.length_drop, List.length_tail]
    by_cases hnil : u.pieces = []
    · simp [hnil]
    · rcases hsent hnil with ⟨m, hpos, hm⟩ | ⟨e, he⟩
      · cases hans.symm.trans hm
        omega
      · cases hans.symm.trans he
  · simp [weight, total]
  · rename_i hno hfails
    refine weight_le ?_ rfl
    by_cases hnil : u.pieces = []
    · simp [hnil]
    · rcases hsent hnil with ⟨m, _, hm⟩ | ⟨e, he⟩
      · exact absurd hm (hno m)
      · exact absurd he (hfails e)

/-- A move of the call leaves no more to do after it. -/
theorem weight_rest_advance (hm : 0 < w.config.maxSegmentLen)
    (ha : w.advance = some w') (hsending : u.pieces ≠ [] → w.Sending) :
    (u.rest w').weight n ≤ (u.rest w).weight n := by
  cases hc : w.call with
  | none =>
    have hnone : w.advance = none := by simp [Writer.advance, hc]
    cases hnone.symm.trans ha
  | some call =>
    rw [rest_of_call hc]
    cases hc' : w'.call with
    | some call' => exact Nat.le_of_eq (by rw [rest_of_call hc'])
    | none =>
      rw [rest_of_over hc']
      exact weight_note fun hne => ((hsending hne).advance hm ha).sent hc'

/-- Which call comes next, after what the last one came to. -/
inductive Nexts (u : Sender) : Sender → Writer.Job → Prop where
  | job {job : Writer.Job} {rest : List Writer.Job} (none : u.pieces = [])
      (calls : u.calls = job :: rest) : Nexts u { u with calls := rest } job
  | piece (some : u.pieces ≠ []) : Nexts u u (.write u.pieces)

/-- A user before its first call. -/
inductive Fresh : Sender → Prop where
  | whole {bytes : Bytes} : Fresh (whole bytes)
  | fromSource {source : List Inlet.Item} : Fresh (fromSource source)
  | piecewise {bytes : Bytes} : Fresh (piecewise bytes)

/-- Each call can be asked for. -/
def Usual (u : Sender) : Prop :=
  ∀ job ∈ u.calls, ∃ e : Writer.Event, e.Begins job

theorem Fresh.usual (h : Fresh u) : Usual u := by
  intro job hjob
  cases h with
  | whole =>
    rcases List.mem_cons.1 hjob with rfl | hlast
    · exact ⟨_, .writeAll⟩
    · obtain rfl := List.mem_singleton.1 hlast
      exact ⟨_, .finish⟩
  | fromSource =>
    obtain rfl := List.mem_singleton.1 hjob
    exact ⟨_, .sendFrom⟩
  | piecewise =>
    obtain rfl := List.mem_singleton.1 hjob
    exact ⟨_, .finish⟩

theorem Usual.note (h : Usual u) (answer : Option Writer.Answer) :
    Usual (u.note answer) := by
  unfold Sender.note
  split
  · exact h
  · intro job hjob
    cases hjob
  · exact h

theorem Nexts.usual {job : Writer.Job} (h : Nexts u u' job)
    (hu : Usual u) : Usual u' ∧ ∃ e : Writer.Event, e.Begins job := by
  cases h with
  | job none calls =>
    refine ⟨fun job hjob => hu job ?_, hu _ ?_⟩
    · simp [calls, hjob]
    · simp [calls]
  | piece some => exact ⟨hu, _, .write⟩

theorem next_cases (hover : w.call = none)
    (hcall : (u.next w).2.call.isSome = true) :
    ∃ job, Nexts (u.note w.answer) (u.next w).1 job ∧
      (u.next w).2 = w.setCall (.opening job) := by
  unfold next at hcall ⊢
  simp only [hover, Option.isSome_none, Bool.false_eq_true, if_false]
    at hcall ⊢
  generalize u.note w.answer = v at hcall ⊢
  obtain ⟨pieces, calls, lengths⟩ := v
  cases pieces with
  | nil =>
    cases calls with
    | nil => simp [hover] at hcall
    | cons job calls => exact ⟨job, .job rfl rfl, rfl⟩
  | cons b bs => exact ⟨_, .piece (by simp), rfl⟩

/-- **The next call** pays for itself. -/
theorem Nexts.weight {job : Writer.Job} (h : Nexts u u' job) :
    Sender.weight n { u' with pieces := u'.pieces.tail } + cost n job <
      u.weight n := by
  cases h with
  | job none calls =>
    simp [Sender.weight, none, calls, total]
    omega
  | piece some =>
    obtain ⟨b, bs, hcons⟩ := List.exists_cons_of_ne_nil some
    have hcost : cost n (.write bs) ≤ cost n (.write (b :: bs)) :=
      cost_write_le (by simp)
    have hmul : bs.length * (cost n (.write bs) + 1) ≤
        bs.length * (cost n (.write (b :: bs)) + 1) :=
      Nat.mul_le_mul_left _ (Nat.succ_le_succ hcost)
    simp only [Sender.weight, hcons, List.tail_cons, List.length_cons,
      Nat.succ_mul]
    omega

end Sender

/-! ## The receiving user -/

namespace Receiver

variable {u : Receiver} {r r' : Reader}

theorem weight_of_call {call : Reader.Call} (h : r.call = some call) :
    u.weight r = if u.begun then 0 else 7 := by
  simp [weight, h]

theorem weight_congr (hcall : r'.call = r.call)
    (hans : r'.answer = r.answer) : u.weight r' = u.weight r := by
  simp only [weight, hcall, hans]

/-- **A move of the reader** pays for the call that can be made then. -/
theorem weight_move {n maxPayload : Nat} {input : Nat → Inlet}
    {rows : Nat → List Segment} {out : Bytes}
    (h : Reader.Inv n maxPayload input rows out r) {e : Reader.Event}
    (he : e.isMove = true) (hs : r.step e = some r') :
    r'.weight + u.weight r' < r.weight + u.weight r := by
  have hlt := h.weight_lt he hs
  cases e with
  | work i =>
    obtain ⟨hcall, hans, _⟩ := Reader.call_of_work hs
    rw [weight_congr hcall hans]
    omega
  | advance =>
    cases hc : r.call with
    | none => cases (Reader.advance_eq_none_iff.2 (.inl hc)).symm.trans hs
    | some call =>
      rw [weight_of_call hc, weight]
      generalize (if u.begun then 0 else 7) = first
      split
      · rename_i b bs hover hans
        have hless := h.weight_bytes hs hover hans
        omega
      · omega
  | _ => cases he

/-- What a user does that makes its next call. -/
structure Nexts (u : Receiver) (r : Reader) (u' : Receiver) (r' : Reader) :
    Prop where
  event : ∃ e : Reader.Event, e.isCall = true ∧ r.step e = some r'
  weight : u'.weight r' + 7 ≤ u.weight r

theorem next_spec (hover : r.call = none)
    (hcall : (u.next r).2.call.isSome = true) :
    Nexts u r (u.next r).1 (u.next r).2 := by
  have hnext {u' : Receiver} {r' : Reader} {e : Reader.Event}
      (hsome : r'.call.isSome = true) (he : e.isCall = true)
      (hs : r.step e = some r') (hbegun : u'.begun = true)
      (hpays : 7 ≤ u.weight r) : Nexts u r u' r' := by
    obtain ⟨call, hc⟩ := Option.isSome_iff_exists.1 hsome
    refine ⟨⟨e, he, hs⟩, ?_⟩
    rw [weight_of_call hc, hbegun]
    simpa using hpays
  have hfirst (hno : u.begun = false) : 7 ≤ u.weight r := by
    simp only [weight, hno, Bool.false_eq_true, if_false]
    omega
  have hstep {e : Reader.Event} {r' : Reader}
      (hs : (if r.call.isNone then some r' else none) = r.step e) :
      r.step e = some r' := by
    simpa [hover] using hs.symm
  unfold next at hcall ⊢
  simp only [hover, Option.isSome_none, Bool.false_eq_true, if_false]
    at hcall ⊢
  revert hcall
  split
  · rename_i hb
    intro hcall
    exact hnext hcall (e := .readToEnd []) rfl (hstep rfl) rfl (hfirst hb)
  · rename_i hb
    intro hcall
    exact hnext hcall (e := .message) rfl (hstep rfl) rfl (hfirst hb)
  · rename_i max _ hb
    intro hcall
    exact hnext hcall (e := .read max) rfl (hstep rfl) rfl (hfirst hb)
  · rename_i max b bs _ hb hans
    intro hcall
    refine hnext hcall (e := .read max) rfl (hstep rfl) hb ?_
    simp [weight, hb, hover, hans]
  · simp [hover]

end Receiver

end Stripe
