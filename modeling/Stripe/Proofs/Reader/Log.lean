import Stripe.Proofs.Reader.Preservation
import Stripe.Proofs.Runs

/-!
# What the user of a reader gets

The bytes that the answers of a reader bring to its user, along a run
(`obtained`). As long as the reader was not stopped, they are the bytes
that were taken out of the stream, but for those that the call in flight
has not returned yet (`Serves.step`).
-/

namespace Stripe.Reader

open Segment Transmission

/-- The bytes that an answer brings to the user. -/
def Answer.yield : Answer → Bytes
  | .bytes bs => bs
  | .appended count out => out.drop (out.length - count)
  | .message m => m
  | _ => []

/-- A call did not do what it was for. -/
def Answer.isFailure : Answer → Bool
  | .failed _ | .interrupted .. => true
  | _ => false

/-- What a call has taken of the stream. -/
def Extent.taken : Extent → Bytes
  | .upTo _ => []
  | .toEnd out count => out.drop (out.length - count)
  | .remainder out => out

def Task.taken : Task → Bytes
  | .stream extent => extent.taken
  | .collect => []

/-- What the call in flight has taken of the stream. -/
def pending (r : Reader) : Bytes :=
  match r.call with
  | some call => call.task.taken
  | none => []

/-- The bytes that the user gets when the state changes from `r` to `r'`:
those of the answer, if a call is over. -/
def gained (r r' : Reader) : Bytes :=
  match r.call, r'.call, r'.answer with
  | some _, none, some a => a.yield
  | _, _, _ => []

/-- The bytes that the user gets in the course of a run. -/
def obtained (move : Reader → Event → Option Reader) :
    Reader → List Event → Bytes :=
  logged gained move

/-- Nobody stops the reader or lets go of a call. -/
def Event.isPlain : Event → Bool
  | .abandon | .cancel | .drop => false
  | _ => true

/-- A user begins a call. -/
def Event.isCall : Event → Bool
  | .read _ | .readToEnd _ | .message => true
  | _ => false

/-- The state of a reader, after `log` was returned to the user. -/
def Serves (n maxPayload : Nat) (input : Nat → Inlet)
    (rows : Nat → List Segment) (log : Bytes) (r : Reader) : Prop :=
  ∃ out, Inv n maxPayload input rows out r ∧
    (r.cancelled = false → out = log ++ r.pending)

theorem gained_of_call_eq {r r' : Reader} (h : r'.call = r.call) :
    gained r r' = [] := by
  unfold gained
  rw [h]
  cases r.call <;> rfl

theorem gained_of_idle {r r' : Reader} (h : r.call = none) :
    gained r r' = [] := by
  simp [gained, h]

theorem gained_of_busy {r r' : Reader} {call : Call}
    (h : r'.call = some call) : gained r r' = [] := by
  unfold gained
  rw [h]
  cases r.call <;> rfl

theorem gained_of_over {r r' : Reader} {call : Call} {a : Answer}
    (h : r.call = some call) (h' : r'.call = none)
    (ha : r'.answer = some a) : gained r r' = a.yield := by
  simp only [gained, h, h', ha]

theorem pending_of_idle {r : Reader} (h : r.call = none) :
    r.pending = [] := by
  simp [pending, h]

theorem pending_of_busy {r : Reader} {task : Task} {stage : Stage}
    (h : r.call = some ⟨task, stage⟩) : r.pending = task.taken := by
  simp [pending, h]

/-- Workers do not touch the call. -/
theorem call_of_work {i : Nat} {r r' : Reader} (h : r.work i = some r') :
    r'.call = r.call ∧ r'.answer = r.answer ∧
      (r'.cancelled = false → r.cancelled = false) := by
  obtain ⟨mode, _, hcase⟩ := work_cases h
  cases hcase with
  | stop lane stopped => exact ⟨rfl, rfl, id⟩
  | more lane going advance => exact ⟨rfl, rfl, id⟩
  | broken lane going advance => exact ⟨rfl, rfl, id⟩
  | refused lane going advance result => exact ⟨rfl, rfl, id⟩
  | filed lane going advance result => exact ⟨rfl, rfl, id⟩
  | record lane => exact ⟨rfl, rfl, fun h => by cases h⟩
  | leave lane => exact ⟨rfl, rfl, id⟩

/-- What a call has added to a buffer, after some more. -/
theorem drop_added (out bs : Bytes) (count : Nat) :
    (out ++ bs).drop ((out ++ bs).length - (count + bs.length)) =
      out.drop (out.length - count) ++ bs := by
  have h : (out ++ bs).length - (count + bs.length) = out.length - count := by
    rw [List.length_append]
    omega
  rw [h, List.drop_append_of_le_length (by omega)]

/-- The call goes on with its task, and has taken nothing. -/
theorem handed_of_on {r r' : Reader} {task : Task} {stage stage' : Stage}
    (hc : r.call = some ⟨task, stage⟩) (hc' : r'.call = some ⟨task, stage'⟩)
    (hnone : r.handed .advance = []) :
    r.pending ++ r.handed .advance = gained r r' ++ r'.pending := by
  rw [hnone, List.append_nil, gained_of_busy hc', pending_of_busy hc,
    pending_of_busy hc', List.nil_append]

/-- **A move of the call**: what it takes out of the stream is returned to
the user or is still with the call. -/
theorem handed_advance {r r' : Reader} (h : r.advance = some r')
    (hc : r'.cancelled = false) :
    r.cancelled = false ∧
      r.pending ++ r.handed .advance = gained r r' ++ r'.pending := by
  cases advance_cases h with
  | stop call stopped => simp [giveUp, conclude, stopped] at hc
  | look call going =>
    exact ⟨going, handed_of_on call rfl (by simp [handed, call])⟩
  | message call completed =>
    rcases takeMessage_cases r with ⟨e, _, he⟩ | ⟨m, _, he⟩
    · rw [he] at hc
      cases hc
    · rw [he] at hc
      cases hc
  | hole call completed nobody => simp [giveUp, conclude, Reader.fail] at hc
  | collecting call completed somebody =>
    exact ⟨hc, handed_of_on call rfl (by simp [handed, call])⟩
  | broken call next => simp [giveUp, conclude, Reader.fail] at hc
  | @ready extent live bs t call next =>
    have hh : r.handed .advance = bs := by
      simp [handed, call, next, Transmission.handed]
    rw [hh, pending_of_busy call]
    cases extent with
    | upTo max =>
      refine ⟨hc, ?_⟩
      rw [pending_of_idle rfl, gained_of_over call rfl rfl]
      simp [Task.taken, Extent.taken, Answer.yield]
    | toEnd out count =>
      refine ⟨hc, ?_⟩
      rw [gained_of_busy rfl, pending_of_busy rfl]
      exact (drop_added out bs count).symm
    | remainder out =>
      refine ⟨hc, ?_⟩
      rw [gained_of_busy rfl, pending_of_busy rfl]
      rfl
  | @finished extent live t call next =>
    have hh : r.handed .advance = [] := by
      simp [handed, call, next, Transmission.handed]
    rw [hh, pending_of_busy call]
    cases extent with
    | upTo max =>
      refine ⟨hc, ?_⟩
      rw [pending_of_idle rfl, gained_of_over call rfl rfl]
      simp [Task.taken, Extent.taken, Answer.yield]
    | toEnd out count =>
      refine ⟨hc, ?_⟩
      rw [pending_of_idle rfl, gained_of_over call rfl rfl]
      simp [Task.taken, Extent.taken, Answer.yield]
    | remainder out => cases hc
  | gap call next nobody => simp [giveUp, conclude, Reader.fail] at hc
  | pending call next somebody =>
    exact ⟨hc, handed_of_on call rfl
      (by simp [handed, call, next, Transmission.handed])⟩
  | wake call woken =>
    exact ⟨hc, handed_of_on call rfl (by simp [handed, call])⟩
  | stir call stopped =>
    have hc : r.cancelled = false := hc
    rw [stopped] at hc
    cases hc

theorem start_cancelled (mode : Mode) (r : Reader) :
    (r.start mode).cancelled = r.cancelled := by
  unfold start
  split <;> rfl

/-- A call that begins has taken nothing. -/
theorem Asks.taken {r : Reader} {e : Event} {task : Task}
    (h : r.Asks e task) : task.taken = [] := by
  cases h <;> simp [Task.taken, Extent.taken]

/-- **What the user gets**, at every event. -/
theorem Serves.step {n maxPayload : Nat} {input : Nat → Inlet}
    {rows : Nat → List Segment} {log : Bytes} {r : Reader}
    (h : Serves n maxPayload input rows log r) {e : Event}
    (he : e.isPlain = true) {r' : Reader} (hs : r.step e = some r') :
    ∃ rows', (∀ j, rows j <+: rows' j) ∧
      Serves n maxPayload (fun i => e.brings i (input i)) rows'
        (log ++ gained r r') r' := by
  obtain ⟨out, hinv, hlog⟩ := h
  obtain ⟨rows', hle, hinv'⟩ := hinv.step hs
  refine ⟨rows', hle, _, hinv', fun hc => ?_⟩
  -- an event that begins no call and ends none
  have hsame (hne : e ≠ .advance) (hcall : r'.call = r.call)
      (hcancel : r'.cancelled = false → r.cancelled = false) :
      out ++ r.handed e = log ++ gained r r' ++ r'.pending := by
    rw [handed_of_ne r hne, gained_of_call_eq hcall, hlog (hcancel hc)]
    simp [pending, hcall]
  -- an event that begins a call
  have hbegin (hne : e ≠ .advance) (hidle : r.call = none)
      (hpending : r'.pending = [])
      (hcancel : r'.cancelled = r.cancelled) :
      out ++ r.handed e = log ++ gained r r' ++ r'.pending := by
    rw [handed_of_ne r hne, gained_of_idle hidle, hpending,
      hlog (hcancel ▸ hc), pending_of_idle hidle]
  cases step_cases hs with
  | work work =>
    obtain ⟨hcall, _, hcancel⟩ := call_of_work work
    exact hsame (by simp) hcall hcancel
  | advance advance =>
    obtain ⟨hgoing, hbytes⟩ := handed_advance advance hc
    rw [hlog hgoing, List.append_assoc, hbytes, List.append_assoc]
  | nothing idle => exact hbegin (by simp) idle rfl rfl
  | @begin e task idle asks =>
    refine hbegin (by rintro rfl; cases asks) idle ?_ (start_cancelled _ r)
    rw [pending_of_busy rfl, asks.taken]
  | abandon busy keeps => cases he
  | forsake busy uses => cases he
  | cancel => cases he
  | drop => cases he
  | arrive arrives => exact hsame (by rintro rfl; cases arrives) rfl id

/-! ## Along a run -/

theorem serves_make {n : Nat} {config : Config} {r : Reader}
    (h : make n config = .ok r) :
    Serves n config.maxPayloadLen (arrived []) (fun _ => []) [] r := by
  have hinv := inv_make h
  obtain ⟨_, _, rfl⟩ := make_eq_ok h
  exact ⟨[], hinv, fun _ => rfl⟩

/-- What has arrived after one more event. -/
theorem arrived_concat (es : List Event) (e : Event) :
    arrived (es ++ [e]) = fun i => e.brings i (arrived es i) :=
  funext (arrived_append es e)

end Stripe.Reader
