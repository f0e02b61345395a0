import Stripe.Proofs.Reader.Balance

/-!
# What a read waits for

A read that finds nothing waits until it is woken. Everything that it
could find is told to it: a segment that is filed wakes it, and so does a
worker that leaves, or a failure that is recorded. So a waiting read that
was not woken has found nothing that it would find now (`Watchful`), unless
a worker has a failure in its hands.

A read in flight comes to rest in a few moves (`Inv.rests`), and then it waits
exactly if the reader is `Starved` (`waits_exactly`).
-/

namespace Stripe

open Segment Transmission

/-- This is the smallest queued offset, if there is one. -/
def Queue.Earliest (q : Queue) : Option Nat → Prop
  | none => q.segments = []
  | some offset => (∃ s ∈ q.segments, s.offset = offset) ∧
      ∀ s ∈ q.segments, offset ≤ s.offset

theorem Queue.Ordered.earliest {q : Queue} (h : q.Ordered) :
    q.Earliest q.min? := by
  cases hmin : q.min? with
  | none => exact Queue.min?_eq_none.1 hmin
  | some offset =>
    obtain ⟨s, others, head, rfl⟩ := Queue.min?_eq_some hmin
    exact ⟨⟨s, by simp [head], rfl⟩, fun t ht => h.head_le head ht⟩

namespace Transmission

variable {t t' : Transmission}

/-- The next bytes of the stream have not arrived, and may still come. -/
structure Dry (t : Transmission) : Prop where
  incomplete : t.completed = false
  ahead : ∀ s, t.queue.peek? = some s → t.cursor < s.offset

theorem peek?_of_head {s : Segment} {others : List Segment}
    (head : t.queue.segments = s :: others) : t.queue.peek? = some s := by
  rw [Queue.peek?, head]
  rfl

/-- A call has to wait for the next bytes exactly if they have not
arrived, and may still come. -/
theorem Looks.dry_iff {max : Nat} {result : Except Error Delivery}
    (h : Looks max t result t') :
    t.Dry ↔ result = .ok .pending := by
  have hfirst {s : Segment} {others : List Segment}
      (head : t.queue.segments = s :: others) (hdry : t.Dry) :
      t.cursor < s.offset := hdry.ahead s (peek?_of_head head)
  constructor
  · intro hdry
    cases h with
    | finished empty done => simp [hdry.incomplete] at done
    | idle | early => rfl
    | below head lt =>
      have := hfirst head hdry
      omega
    | gap head gt done => simp [hdry.incomplete] at done
    | whole head here | part head here | lost head here =>
      have := hfirst head hdry
      omega
  · intro hpending
    cases h with
    | idle empty open_ =>
      refine ⟨open_, fun s hs => ?_⟩
      rw [Queue.peek?, empty] at hs
      cases hs
    | early head gt open_ =>
      refine ⟨open_, fun s hs => ?_⟩
      rw [peek?_of_head head] at hs
      cases hs
      exact gt
    | finished | below | gap | whole | part | lost => cases hpending

/-- Of a queue that is in order the first segment lies ahead exactly if
all do. -/
theorem dry_iff (h : t.queue.Ordered) :
    t.Dry ↔ t.completed = false ∧
      ∀ s ∈ t.queue.segments, t.cursor < s.offset := by
  constructor
  · rintro ⟨hopen, hahead⟩
    refine ⟨hopen, fun s hs => ?_⟩
    cases head : t.queue.segments with
    | nil => simp [head] at hs
    | cons u others =>
      have hle := h.head_le head hs
      have := hahead u (peek?_of_head head)
      omega
  · rintro ⟨hopen, hahead⟩
    exact ⟨hopen, fun s hs => hahead s (List.mem_of_head? hs)⟩

end Transmission

namespace Reader

/-! ## No wake-up is lost -/

/-- A call that waits for the next bytes, and was not woken, has nothing
to find, unless a worker is to record a failure. -/
def Watchful (r : Reader) : Prop :=
  r.cancelled = false → ∀ extent,
    r.call = some ⟨.stream extent, .waiting⟩ → r.wakeup = false →
      r.transmission.Dry ∨ ∃ e, .failing e ∈ r.phases

section Watchful

variable {r r' : Reader}

/-- Nothing has happened that a waiting call looks for. -/
theorem Watchful.same (h : r.Watchful)
    (hcancelled : r'.cancelled = r.cancelled) (hcall : r'.call = r.call)
    (hwakeup : r'.wakeup = r.wakeup)
    (htransmission : r'.transmission = r.transmission)
    (hphases : ∀ e, .failing e ∈ r.phases → .failing e ∈ r'.phases) :
    r'.Watchful := by
  intro hgo extent hc hw
  rcases h (hcancelled ▸ hgo) extent (hcall ▸ hc) (hwakeup ▸ hw) with
    hdry | ⟨e, he⟩
  · exact .inl (htransmission ▸ hdry)
  · exact .inr ⟨e, hphases e he⟩

theorem watchful_of_call
    (h : ∀ extent, r.call ≠ some ⟨.stream extent, .waiting⟩) :
    r.Watchful :=
  fun _ extent hc _ => absurd hc (h extent)

theorem watchful_of_cancelled (h : r.cancelled = true) : r.Watchful := by
  intro hgo
  rw [h] at hgo
  cases hgo

theorem watchful_of_wakeup (h : r.wakeup = true) : r.Watchful := by
  intro _ _ _ hw
  rw [h] at hw
  cases hw

/-- **A worker** wakes the call whenever it changes what there is to find,
or is going to record a failure. -/
theorem Watchful.work (h : r.Watchful) {i : Nat}
    (hw : r.work i = some r') : r'.Watchful := by
  have hkeeps {lane lane' : Lane} (hl : r.lanes[i]? = some lane)
      (hp : ∀ e, lane.phase ≠ .failing e) (e : Error)
      (he : Phase.failing e ∈ r.phases) :
      Phase.failing e ∈ (r.setLane i lane').phases :=
    (failing_mem_setLane hl (hp e)).2 (.inr he)
  obtain ⟨mode, _, hcase⟩ := work_cases hw
  cases hcase with
  | stop lane stopped => exact watchful_of_cancelled stopped
  | more lane going advance =>
    exact h.same rfl rfl rfl rfl (hkeeps lane (by simp))
  | broken lane going advance =>
    exact h.same rfl rfl rfl rfl (hkeeps lane (by simp))
  | @refused c c' d s e lane going advance result =>
    have hfails : Phase.failing e ∈
        (r.setLane i ⟨c', .failing e⟩).phases :=
      (failing_mem_setLane lane (by simp)).2 (.inl rfl)
    exact fun _ _ _ _ => .inr ⟨e, hfails⟩
  | filed lane going advance result => exact watchful_of_wakeup rfl
  | record lane => exact watchful_of_cancelled rfl
  | leave lane => exact watchful_of_wakeup rfl

/-- **A call** waits only for what has not arrived. -/
theorem Watchful.advance (ha : r.advance = some r') : r'.Watchful := by
  cases advance_cases ha with
  | stop call stopped => exact watchful_of_call (by simp [giveUp, conclude])
  | look call going => exact watchful_of_call (by simp [setStage])
  | message call completed =>
    rcases takeMessage_cases r with ⟨e, _, he⟩ | ⟨m, _, he⟩
    · exact he ▸ watchful_of_cancelled rfl
    · exact he ▸ watchful_of_cancelled rfl
  | hole call completed nobody =>
    exact watchful_of_call (by simp [giveUp, conclude])
  | collecting call completed somebody =>
    exact watchful_of_call (by simp [setStage])
  | broken call next => exact watchful_of_call (by simp [giveUp, conclude])
  | @ready extent live bs t call next =>
    cases extent <;>
      exact watchful_of_call (by simp [handOut, setStage, conclude])
  | @finished extent live t call next =>
    cases extent <;>
      exact watchful_of_call (by simp [concludeStream, conclude])
  | gap call next nobody =>
    exact watchful_of_call (by simp [giveUp, conclude])
  | @pending extent live t call next somebody =>
    have hlooks := looks extent.max r.transmission
    rw [next] at hlooks
    have hdry := hlooks.dry_iff.2 rfl
    have hsame : t = r.transmission := by
      cases hlooks <;> rfl
    subst hsame
    exact fun _ _ _ _ => .inl hdry
  | wake call woken => exact watchful_of_call (by simp [setStage])
  | stir call stopped => exact watchful_of_call (by simp [setStage])

/-- **Everything that can happen** leaves a waiting call nothing to find,
or wakes it. -/
theorem Watchful.step (h : r.Watchful) {e : Event}
    (hs : r.step e = some r') : r'.Watchful := by
  cases step_cases hs with
  | work work => exact h.work work
  | advance advance => exact .advance advance
  | nothing idle => exact watchful_of_call (by simp [conclude])
  | begin idle asks => exact watchful_of_call (by simp [setStage])
  | abandon busy keeps => exact watchful_of_call (by simp)
  | forsake busy uses => exact watchful_of_cancelled rfl
  | cancel => exact watchful_of_cancelled rfl
  | drop => exact watchful_of_cancelled rfl
  | @arrive e i f arrives =>
    exact h.same rfl rfl rfl rfl fun e he => phases_arrive i f r ▸ he

end Watchful

/-- **No wake-up is lost** in a reachable reader. -/
theorem watchful_run {n : Nat} {config : Config} {r₀ r : Reader}
    {es : List Event} (hmake : make n config = .ok r₀)
    (hrun : run step r₀ es = some r) : r.Watchful := by
  have hfirst : r₀.Watchful := by
    obtain ⟨_, _, rfl⟩ := make_eq_ok hmake
    exact watchful_of_call (by simp)
  exact follow (g := fun _ _ => []) (P := fun _ _ r => r.Watchful) hfirst
    (fun _ _ _ _ _ _ h hmove => h.step hmove) hrun

/-! ## A read comes to rest -/

/-- What a read of at most `max` bytes comes to. -/
inductive Outcome (max : Nat) (r : Reader) : Answer → Prop where
  /-- The bytes at the cursor. -/
  | bytes {s : Segment} (first : r.transmission.queue.peek? = some s)
      (here : s.offset = r.transmission.cursor)
      (pos : s.payload.take max ≠ []) :
      Outcome max r (.bytes (s.payload.take max))
  /-- The stream has ended. -/
  | finished (completed : r.completed = true)
      (empty : r.transmission.queue.segments = []) :
      Outcome max r (.bytes [])
  | failed (e : Error) : Outcome max r (.failed e)

/-- What is missing at the cursor is missing for good, if no worker is
left. -/
structure Stranded (r : Reader) : Prop where
  unfailed : r.failure = none
  going : r.cancelled = false
  ahead : ∀ s ∈ r.transmission.queue.segments,
    r.transmission.cursor < s.offset
  unfinished :
    ¬ (r.completed = true ∧ r.transmission.queue.segments = [])

/-- Where a read of at most `max` bytes, in flight at `r`, comes to
rest. -/
inductive Verdict (max : Nat) (r : Reader) : Reader → Prop where
  | waits (going : r.cancelled = false) (dry : r.transmission.Dry)
      (somebody : r.live ≠ 0) :
      Verdict max r { r with
        wakeup := false
        call := some ⟨.stream (.upTo max), .waiting⟩ }
  | ended {r' : Reader} {a : Answer} (idle : r'.call = none)
      (answer : r'.answer = some a) (outcome : Outcome max r a)
      (why : r.cancelled = false → r.transmission.Dry → r.live = 0)
      (gap : r.Stranded → a = .failed (.gap r.transmission.cursor
        r.transmission.queue.min?)) : Verdict max r r'

/-- After `k` moves of the call it is at rest. -/
def Rests (k : Nat) (r r' : Reader) : Prop :=
  run step r (List.replicate k .advance) = some r' ∧ r'.advance = none

section Read

variable {max k : Nat} {r r₁ r' : Reader}

theorem Rests.zero (h : r.advance = none) : Rests 0 r r := ⟨rfl, h⟩

theorem Rests.succ (ha : r.advance = some r₁) (h : Rests k r₁ r') :
    Rests (k + 1) r r' := by
  refine ⟨?_, h.2⟩
  rw [List.replicate_succ]
  exact Option.bind_eq_some_iff.2 ⟨r₁, ha, h.1⟩

/-- The call is over after one move. -/
theorem Rests.once (ha : r.advance = some r') (hover : r'.call = none) :
    Rests 1 r r' :=
  .succ ha (.zero (advance_eq_none_iff.2 (.inl hover)))

theorem reason_fail (h : r.failure = none) (e : Error) :
    (r.fail e).reason = e := by
  simp [reason, fail, h]

/-- A read looks at what was filed. -/
theorem takes {live : Nat}
    (hc : r.call = some ⟨.stream (.upTo max), .taking live⟩)
    (hmax : 0 < max)
    (hq : ∀ u ∈ r.transmission.queue.segments, u.payload ≠ [])
    (hlive : r.cancelled = false → live = 0 → r.live = 0) :
    (∃ r', r.advance = some r' ∧ r'.call = none ∧ Verdict max r r') ∨
      live ≠ 0 ∧ r.transmission.Dry ∧
        r.advance = some (r.setStage (.stream (.upTo max)) .waiting) := by
  have hmove : r.advance = some (r.takeNext (.upTo max) live) := by
    simp only [Reader.advance, hc]
  have hlooks := looks max r.transmission
  have hdry := hlooks.dry_iff
  have hpos {s : Segment} {others : List Segment}
      (head : r.transmission.queue.segments = s :: others) :
      s.payload.take max ≠ [] :=
    take_ne_nil (hq s (by simp [head])) hmax
  -- what lies at the cursor or before it is in nobody's way
  have hhead {s : Segment} {others : List Segment}
      (head : r.transmission.queue.segments = s :: others)
      (hle : s.offset ≤ r.transmission.cursor) (hs : r.Stranded) :
      False := by
    have := hs.ahead s (by simp [head])
    omega
  rcases hnext : r.transmission.nextDelivery max with ⟨result, t⟩
  have hmax' : (Extent.upTo max).max = max := rfl
  rw [hnext] at hlooks hdry
  simp only [takeNext, hmax', hnext] at hmove
  cases hlooks with
  | finished empty done =>
    refine .inl ⟨_, hmove, rfl, .ended rfl rfl (.finished done empty)
      (fun _ h => ?_) fun hs => absurd ⟨done, empty⟩ hs.unfinished⟩
    cases hdry.1 h
  | idle empty open_ | early head gt open_ =>
    by_cases hl : live = 0
    · rw [if_pos hl] at hmove
      refine .inl ⟨_, hmove, rfl, .ended rfl rfl (.failed _)
        (fun hgo _ => hlive hgo hl) fun hs => ?_⟩
      exact congrArg Answer.failed (reason_fail hs.unfailed _)
    · rw [if_neg hl] at hmove
      exact .inr ⟨hl, hdry.2 rfl, hmove⟩
  | below head lt =>
    refine .inl ⟨_, hmove, rfl, .ended rfl rfl (.failed _) (fun _ h => ?_)
      fun hs => (hhead head (Nat.le_of_lt lt) hs).elim⟩
    cases hdry.1 h
  | @gap s others head gt done =>
    refine .inl ⟨_, hmove, rfl, .ended rfl rfl (.failed _) (fun _ h => ?_)
      fun hs => ?_⟩
    · cases hdry.1 h
    · have hmin : r.transmission.queue.min? = some s.offset := by
        rw [Queue.min?, peek?_of_head head]
        rfl
      rw [hmin]
      exact congrArg Answer.failed (reason_fail hs.unfailed _)
  | whole head here all =>
    have hwhole := List.take_of_length_le all
    have hout := Outcome.bytes (peek?_of_head head) here (hpos head)
    rw [hwhole] at hout
    refine .inl ⟨_, hmove, rfl, .ended rfl rfl hout (fun _ h => ?_)
      fun hs => (hhead head (Nat.le_of_eq here) hs).elim⟩
    cases hdry.1 h
  | part head here more free =>
    refine .inl ⟨_, hmove, rfl, .ended rfl rfl
      (.bytes (peek?_of_head head) here (hpos head)) (fun _ h => ?_)
      fun hs => (hhead head (Nat.le_of_eq here) hs).elim⟩
    cases hdry.1 h
  | lost head here more mem same =>
    refine .inl ⟨_, hmove, rfl, .ended rfl rfl (.failed _) (fun _ h => ?_)
      fun hs => (hhead head (Nat.le_of_eq here) hs).elim⟩
    cases hdry.1 h

/-- What a call and its wake-up are does not matter for its verdict. -/
theorem Verdict.recall {wakeup : Bool} {call : Option Call}
    (h : Verdict max { r with wakeup, call } r') : Verdict max r r' := by
  cases h with
  | waits going dry somebody => exact .waits going dry somebody
  | ended idle answer outcome why gap =>
    refine .ended idle answer ?_ why fun hs =>
      gap ⟨hs.unfailed, hs.going, hs.ahead, hs.unfinished⟩
    cases outcome with
    | bytes first here pos => exact .bytes first here pos
    | finished completed empty => exact .finished completed empty
    | failed e => exact .failed e

/-- A read of a stopped reader that looks gives up. -/
theorem rests_of_stop (hc : r.call = some ⟨.stream (.upTo max), .looking⟩)
    (hstop : r.cancelled = true) :
    ∃ r', Rests 1 r r' ∧ Verdict max r r' := by
  have hmove : r.advance = some (r.giveUp (.stream (.upTo max))) := by
    simp only [Reader.advance, hc, hstop, if_true]
  have hgoes (going : r.cancelled = false) : False := by
    rw [hstop] at going
    cases going
  exact ⟨_, .once hmove rfl, .ended rfl rfl (.failed _)
    (fun hgo => (hgoes hgo).elim) fun hs => (hgoes hs.going).elim⟩

/-- A waiting read that is woken, or whose reader was stopped, looks
again. -/
theorem wakes (hc : r.call = some ⟨.stream (.upTo max), .waiting⟩)
    (h : r.wakeup = true ∨ r.cancelled = true) :
    r.advance = some { r with
      wakeup := false
      call := some ⟨.stream (.upTo max), .looking⟩ } := by
  cases hw : r.wakeup with
  | true =>
    simp only [Reader.advance, hc, hw, if_true]
    rfl
  | false =>
    have hstop : r.cancelled = true := by simpa [hw] using h
    have hmove : r.advance =
        some (r.setStage (.stream (.upTo max)) .looking) := by
      simp [Reader.advance, hc, hw, hstop]
    rw [hmove, setStage, ← hw]

/-- A read that looks, in a reader that goes on, counts the workers. -/
theorem counts (hc : r.call = some ⟨.stream (.upTo max), .looking⟩)
    (hgo : r.cancelled = false) :
    r.advance = some
      (r.setStage (.stream (.upTo max)) (.taking r.live)) := by
  simp only [Reader.advance, hc, hgo, Bool.false_eq_true, if_false]

/-- A read that looks, and is not woken meanwhile, is over or waits. -/
theorem rests_of_look (hc : r.call = some ⟨.stream (.upTo max), .looking⟩)
    (hmax : 0 < max)
    (hq : ∀ u ∈ r.transmission.queue.segments, u.payload ≠ [])
    (hgo : r.cancelled = false) (hw : r.wakeup = false) :
    ∃ k ≤ 2, ∃ r', Rests k r r' ∧ Verdict max r r' := by
  have hcount := counts hc hgo
  rcases takes (r := r.setStage (.stream (.upTo max)) (.taking r.live)) rfl
      hmax hq (fun _ => id) with ⟨r', ha, hover, hv⟩ | ⟨hl, hdry, ha⟩
  · exact ⟨2, Nat.le_refl 2, r', .succ hcount (.once ha hover), hv.recall⟩
  · refine ⟨2, Nat.le_refl 2, _, .succ hcount (.succ ha (.zero ?_)), ?_⟩
    · exact advance_eq_none_iff.2 (.inr ⟨_, rfl, hw, hgo⟩)
    · have hv : Verdict max r { r with
          wakeup := false
          call := some ⟨.stream (.upTo max), .waiting⟩ } :=
        .waits hgo hdry hl
      rwa [← hw] at hv

/-- A read that waits looks again if it was woken. -/
theorem rests_of_wait (hc : r.call = some ⟨.stream (.upTo max), .waiting⟩)
    (hmax : 0 < max)
    (hq : ∀ u ∈ r.transmission.queue.segments, u.payload ≠ [])
    (hwaits : r.cancelled = false → r.wakeup = false →
      r.transmission.Dry ∧ r.live ≠ 0) :
    ∃ k ≤ 3, ∃ r', Rests k r r' ∧ Verdict max r r' := by
  cases hstop : r.cancelled with
  | true =>
    obtain ⟨r', hrests, hv⟩ := rests_of_stop (r := { r with
      wakeup := false
      call := some ⟨.stream (.upTo max), .looking⟩ }) rfl hstop
    exact ⟨2, by omega, r', .succ (wakes hc (.inr hstop)) hrests,
      hv.recall⟩
  | false =>
    cases hw : r.wakeup with
    | true =>
      obtain ⟨k, hk, r', hrests, hv⟩ := rests_of_look (r := { r with
        wakeup := false
        call := some ⟨.stream (.upTo max), .looking⟩ }) rfl hmax hq hstop rfl
      exact ⟨k + 1, by omega, r', .succ (wakes hc (.inl hw)) hrests,
        hv.recall⟩
    | false =>
      obtain ⟨hdry, hlive⟩ := hwaits hstop hw
      have hv : Verdict max r { r with
          wakeup := false
          call := some ⟨.stream (.upTo max), .waiting⟩ } :=
        .waits hstop hdry hlive
      rw [← hw, ← hc] at hv
      exact ⟨0, by omega, r,
        .zero (advance_eq_none_iff.2 (.inr ⟨_, hc, hw, hstop⟩)), hv⟩

/-- A read that has counted the workers looks at what was filed. -/
theorem rests_of_take {live : Nat}
    (hc : r.call = some ⟨.stream (.upTo max), .taking live⟩)
    (hmax : 0 < max)
    (hq : ∀ u ∈ r.transmission.queue.segments, u.payload ≠ [])
    (hle : r.cancelled = false →
      r.live ≤ live ∧ (r.live < live → r.wakeup = true)) :
    ∃ k ≤ 4, ∃ r', Rests k r r' ∧ Verdict max r r' := by
  rcases takes hc hmax hq fun hgo hl => by have := (hle hgo).1; omega with
    ⟨r', ha, hover, hv⟩ | ⟨hl, hdry, ha⟩
  · exact ⟨1, by omega, r', .once ha hover, hv⟩
  · -- it waits, and may be woken by a worker that has left meanwhile
    obtain ⟨k, hk, r', hrests, hv⟩ := rests_of_wait
      (r := r.setStage (.stream (.upTo max)) .waiting) rfl hmax hq
      fun hgo hw => ⟨hdry, fun hzero => by
        obtain ⟨_, hwoken⟩ := hle hgo
        have hzero : r.live = 0 := hzero
        have hwoken := hwoken (by omega)
        rw [show r.wakeup = false from hw] at hwoken
        cases hwoken⟩
    exact ⟨k + 1, by omega, r', .succ ha hrests, hv.recall⟩

end Read

section Reached

variable {n maxPayload : Nat} {input : Nat → Inlet}
  {rows : Nat → List Segment} {out : Bytes} {r : Reader}

/-- **A read comes to rest** in a few moves. -/
theorem Inv.rests (h : Inv n maxPayload input rows out r)
    (hwatch : r.Watchful) (hno : ∀ e, Phase.failing e ∉ r.phases)
    {max : Nat} {stage : Stage}
    (hc : r.call = some ⟨.stream (.upTo max), stage⟩) :
    ∃ k ≤ 5, ∃ r', Rests k r r' ∧ Verdict max r r' := by
  have hmax : 0 < max := h.calling.max_pos max stage hc
  cases stage with
  | looking =>
    cases hstop : r.cancelled with
    | true =>
      obtain ⟨r', hrests, hv⟩ := rests_of_stop hc hstop
      exact ⟨1, by omega, r', hrests, hv⟩
    | false =>
      obtain ⟨k, hk, r', hrests, hv⟩ := rests_of_take
        (r := r.setStage (.stream (.upTo max)) (.taking r.live)) rfl hmax
        h.queued fun _ => ⟨Nat.le_refl _, fun hlt => by
          exact absurd hlt (Nat.lt_irrefl _)⟩
      exact ⟨k + 1, by omega, r', .succ (counts hc hstop) hrests, hv.recall⟩
  | taking live =>
    obtain ⟨k, hk, r', hrests, hv⟩ := rests_of_take hc hmax h.queued
      fun hgo => h.calling.taking hgo _ live hc
    exact ⟨k, by omega, r', hrests, hv⟩
  | waiting =>
    obtain ⟨k, hk, r', hrests, hv⟩ := rests_of_wait hc hmax h.queued
      fun hgo hw => by
        refine ⟨?_, Nat.ne_of_gt (h.calling.waiting hgo _ hc hw)⟩
        rcases hwatch hgo _ hc hw with hdry | ⟨e, he⟩
        · exact hdry
        · exact absurd he (hno e)
    exact ⟨k, by omega, r', hrests, hv⟩

/-- A worker that has a failure in its hands can move. -/
theorem not_failing_of_rest (hm : r.mode ≠ none)
    (hrest : ∀ i, r.work i = none) (e : Error) :
    Phase.failing e ∉ r.phases := by
  intro he
  obtain ⟨mode, hmode⟩ := Option.ne_none_iff_exists'.1 hm
  obtain ⟨⟨c, phase⟩, hl, rfl⟩ := List.mem_map.1 he
  obtain ⟨i, hi⟩ := List.getElem?_of_mem hl
  have hmove := hrest i
  simp [Reader.work, hmode, hi] at hmove

/-- What a read that has to wait finds: the reader goes on, a worker is
left, and the next bytes have not arrived and may still come. -/
structure Starved (r : Reader) : Prop where
  unfailed : r.failure = none
  going : r.cancelled = false
  somebody : ∃ phase ∈ r.phases, phase ≠ .gone
  ahead : ∀ s ∈ r.transmission.queue.segments,
    r.transmission.cursor < s.offset
  incomplete : r.completed = false

/-- The queue of a reader that goes on with a read is in order. -/
theorem Inv.ordered (h : Inv n maxPayload input rows out r)
    {extent : Extent} {stage : Stage}
    (hc : r.call = some ⟨.stream extent, stage⟩)
    (hgo : r.cancelled = false) : r.transmission.queue.Ordered := by
  have hst : Streams (pieces n rows) out r.transmission :=
    h.stored hgo _ (h.calling.mode hgo _ _ hc)
  exact hst.ordered

theorem Inv.starved_iff (h : Inv n maxPayload input rows out r)
    {extent : Extent} {stage : Stage}
    (hc : r.call = some ⟨.stream extent, stage⟩) :
    r.Starved ↔
      r.cancelled = false ∧ r.transmission.Dry ∧ r.live ≠ 0 := by
  have hlive (hgo : r.cancelled = false) :
      r.live ≠ 0 ↔ ∃ phase ∈ r.phases, phase ≠ .gone := by
    rw [h.live hgo (h.started hc), ne_eq, List.countP_eq_zero]
    simp
  constructor
  · rintro ⟨_, hgo, hsome, hahead, hopen⟩
    exact ⟨hgo, (dry_iff (h.ordered hc hgo)).2 ⟨hopen, hahead⟩,
      (hlive hgo).2 hsome⟩
  · rintro ⟨hgo, hdry, hsome⟩
    obtain ⟨hopen, hahead⟩ := (dry_iff (h.ordered hc hgo)).1 hdry
    refine ⟨?_, hgo, (hlive hgo).1 hsome, hahead, hopen⟩
    cases hf : r.failure with
    | none => rfl
    | some e =>
      rw [h.halted (by simp [hf])] at hgo
      cases hgo

end Reached

/-- **A read waits only when it must.** In every reachable state, whatever
has arrived and in whatever order things have happened: if no worker can
move before something else arrives, a read in flight comes to rest in a few
moves. It waits then exactly if the reader has not failed and was not
stopped, a worker is left, nothing is queued at the cursor or before it,
and the stream is not complete; and it leaves everything as it was.
Otherwise it is over, with the bytes at the cursor, with none at the end of
a stream that is complete, or with a failure.

So it never waits when all workers have left; and if what is missing at the
cursor is missing for good then, the failure tells where the cursor is, and
where the next queued segment starts. -/
theorem waits_exactly {n : Nat} {config : Config} {r₀ r : Reader}
    {es : List Event} (hmake : make n config = .ok r₀)
    (hrun : run step r₀ es = some r) (hrest : ∀ i, r.work i = none)
    {max : Nat} {stage : Stage}
    (hcall : r.call = some ⟨.stream (.upTo max), stage⟩) :
    ∃ k ≤ 5, ∃ r', run step r (List.replicate k .advance) = some r' ∧
      r'.advance = none ∧
      (r'.call.isSome = true ↔ r.Starved) ∧
      (r.Starved → r' = { r with
        wakeup := false
        call := some ⟨.stream (.upTo max), .waiting⟩ }) ∧
      (r'.call = none → ∃ a, r'.answer = some a ∧ Outcome max r a) ∧
      ((∀ phase ∈ r.phases, phase = .gone) → r'.call = none ∧
        (r.Stranded → ∃ next, r.transmission.queue.Earliest next ∧
          r'.answer = some (.failed (.gap r.delivered next)))) := by
  obtain ⟨rows, out, h⟩ := inv_run hmake hrun
  have hno := not_failing_of_rest (h.started hcall) hrest
  obtain ⟨k, hk, r', ⟨hmoves, hend⟩, hv⟩ :=
    h.rests (watchful_run hmake hrun) hno hcall
  refine ⟨k, hk, r', hmoves, hend, ?_⟩
  have hiff := h.starved_iff hcall
  have hsome (hs : r.Starved) (hgone : ∀ phase ∈ r.phases, phase = .gone) :
      False := by
    obtain ⟨phase, hmem, hne⟩ := hs.somebody
    exact hne (hgone phase hmem)
  cases hv with
  | waits going dry somebody =>
    have hs : r.Starved := hiff.2 ⟨going, dry, somebody⟩
    exact ⟨⟨fun _ => hs, fun _ => rfl⟩, fun _ => rfl, fun hc => (by cases hc),
      fun hgone => (hsome hs hgone).elim⟩
  | @ended r' a idle answer outcome why gap =>
    have hnot (hs : r.Starved) : False := by
      obtain ⟨hgo, hdry, hlive⟩ := hiff.1 hs
      exact hlive (why hgo hdry)
    refine ⟨⟨fun hc => ?_, fun hs => (hnot hs).elim⟩,
      fun hs => (hnot hs).elim, fun _ => ⟨a, answer, outcome⟩,
      fun _ => ⟨idle, fun hs => ?_⟩⟩
    · rw [idle] at hc
      cases hc
    · -- the cursor stands after the bytes that were handed out
      have hmode := h.calling.mode hs.going _ _ hcall
      have hcursor : r.delivered = r.transmission.cursor :=
        (books_run hmake hrun).delivered (by simp [hmode, Task.mode])
      refine ⟨_, (h.ordered hcall hs.going).earliest, ?_⟩
      rw [answer, gap hs, hcursor]

/-- A connection brings a byte that is not the first one, and ends. -/
def strandedEvents : List Event :=
  [.feed 0 ((Segment.data [9] 2 .none).encode ++
    (Segment.terminal 3).encode),
   .read 4, .work 0, .work 0, .work 0, .work 0]

/-- The read fails, and tells that two bytes are missing. -/
theorem waits_exactly_stranded : ∃ r₀ r, make 1 .standard = .ok r₀ ∧
    run step r₀ strandedEvents = some r ∧
    (∀ phase ∈ r.phases, phase = .gone) ∧
    ∃ k ≤ 5, ∃ r', run step r (List.replicate k .advance) = some r' ∧
      r'.call = none ∧ r'.answer = some (.failed (.gap 0 (some 2))) := by
  refine ⟨_, _, rfl, rfl, by decide, ?_⟩
  obtain ⟨k, hk, r', hmoves, _, _, _, _, hgone⟩ :=
    @waits_exactly 1 .standard _ _ strandedEvents rfl rfl
      (fun i => by cases i <;> rfl) 4 .looking rfl
  obtain ⟨hover, hgap⟩ := hgone (by decide)
  obtain ⟨next, hnext, hanswer⟩ :=
    hgap ⟨rfl, rfl, by decide, by decide⟩
  refine ⟨k, hk, r', hmoves, hover, ?_⟩
  have hmin : next = some 2 := by
    cases next with
    | none => cases hnext
    | some offset =>
      obtain ⟨⟨s, hs, rfl⟩, _⟩ := hnext
      obtain rfl := List.mem_singleton.1 hs
      rfl
  rw [hanswer, hmin]
  rfl

end Reader
end Stripe
