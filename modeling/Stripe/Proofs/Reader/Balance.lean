import Stripe.Proofs.Reader.Preservation
import Stripe.Proofs.Runs
import Stripe.Proofs.Transmission.Journal

/-!
# The bytes of a reader

A reader counts a payload before it queues it, and notes an announced
number of connections before it compares it with its own. So a segment
that is refused may leave something behind, and `Refused` lists what.

In a stream the counted bytes are those that were handed out, those that
are queued, and those that were spilt (`Books`): the payloads that were
counted and refused, and the segments that were torn when a part of them
was asked for. Nothing is spilt without a failure.
-/

namespace Stripe

open Segment Transmission

/-- How many bytes of the stream a segment carries. -/
def Segment.cargo (s : Segment) : Nat :=
  if s.isControl then 0 else s.length

namespace Intake

variable {n i k : Nat} {mode : Mode} {s : Segment} {b b' : Intake}

/-! ## Refused segments -/

/-- What a refused segment leaves behind. -/
inductive Refused (n i : Nat) (s : Segment) (b : Intake) :
    Error → Intake → Prop where
  /-- Nothing. -/
  | plain {e : Error} (control : s.isControl = true) : Refused n i s b e b
  /-- The number that it has announced, which is not the right one. -/
  | mismatch {total : Nat} (control : s.isControl = true) (ne : total ≠ n)
      (free : b.transmission.eodTotal = none ∨
        b.transmission.eodTotal = some total) :
      Refused n i s b (.eodCountMismatch total n)
        { b with transmission :=
          { b.transmission with eodTotal := some total } }
  /-- Its payload in the statistics. -/
  | counted {e : Error} (data : s.isControl = false)
      (pos : s.payload ≠ []) :
      Refused n i s b e { b with stats := b.stats.recordSegment i s.length }

theorem refused_of_control {e : Error} (hc : s.isControl = true)
    (he : (b.acceptControl n i s.header).1 = .error e) :
    Refused n i s b e (b.acceptControl n i s.header).2 := by
  unfold acceptControl at he ⊢
  dsimp only at he ⊢
  split
  · exact .plain hc
  rename_i hbytes
  rw [if_neg hbytes] at he
  split
  · exact .plain hc
  rename_i hfew
  rw [if_neg hfew] at he
  rcases setEodTotal_cases s.header.offsetCount.toNat b.transmission with
    ⟨e, hset, _⟩ | ⟨hfree, hset⟩
  · rw [hset]
    exact .plain hc
  · rw [hset] at he ⊢
    dsimp only at he ⊢
    split
    · rename_i hne
      rw [if_pos hne] at he
      cases he
      exact .mismatch hc hne hfree
    · rename_i hn
      rw [if_neg hn, conclude_fst] at he
      cases he

theorem refused_of_data {e : Error} (hc : s.isControl = false)
    (he : (b.acceptData i mode s).1 = .error e) :
    Refused n i s b e (b.acceptData i mode s).2 := by
  unfold acceptData at he ⊢
  cases hempty : s.isEmpty with
  | true =>
    rw [hempty, if_pos rfl, conclude_fst] at he
    cases he
  | false =>
    have hs : s.payload ≠ [] := by simpa [Segment.isEmpty] using hempty
    rw [hempty, if_neg (by simp)] at he
    rw [if_neg (by simp)]
    rcases store_cases mode hs b.transmission with ⟨e, hst⟩ | ⟨t, hst, _⟩
    · rw [hst]
      exact .counted hc hs
    · rw [hst] at he
      dsimp only at he
      rw [conclude_fst] at he
      cases he

/-- **What a refused segment leaves behind.** -/
theorem refused_of_error {e : Error}
    (he : (b.accept n i mode s).1 = .error e) :
    Refused n i s b e (b.accept n i mode s).2 := by
  unfold accept at he ⊢
  cases hc : s.isControl with
  | true =>
    rw [hc, if_pos rfl] at he
    exact refused_of_control hc he
  | false =>
    rw [hc, if_neg (by simp)] at he
    exact refused_of_data hc he

/-- **When a refused segment leaves nothing behind**: it carries no bytes,
and has noted no number. -/
theorem Refused.eq_iff {e : Error} (h : Refused n i s b e b') :
    b' = b ↔ s.isControl = true ∧
      b'.transmission.eodTotal = b.transmission.eodTotal := by
  cases h with
  | plain control => simp [control]
  | mismatch control ne free =>
    constructor
    · intro heq
      exact ⟨control, congrArg (·.transmission.eodTotal) heq⟩
    · rintro ⟨_, htotal⟩
      dsimp only at htotal
      rw [htotal]
  | counted data pos =>
    have hcount : (b.stats.recordSegment i s.length).totalSegments =
        b.stats.totalSegments + 1 := rfl
    constructor
    · intro heq
      have := congrArg (·.stats.totalSegments) heq
      dsimp only at this
      omega
    · rintro ⟨hcontrol, _⟩
      rw [data] at hcontrol
      cases hcontrol

/-! ## The bytes of the intake -/

/-- In a stream every counted byte was handed out, is queued, or was
spilt. -/
structure Balanced (spilt : Nat) (b : Intake) : Prop where
  weighed : b.transmission.queue.Weighed
  counted : b.stats.totalBytes =
    b.transmission.cursor + b.transmission.queue.queuedBytes + spilt

/-- How many bytes are spilt when this comes of filing a segment. -/
def spill (s : Segment) : Except Error Bool → Nat
  | .error _ => s.cargo
  | .ok _ => 0

theorem Balanced.congr (h : Balanced k b)
    (hqueue : b'.transmission.queue = b.transmission.queue)
    (hcursor : b'.transmission.cursor = b.transmission.cursor)
    (hstats : b'.stats.totalBytes = b.stats.totalBytes) :
    Balanced k b' := by
  refine ⟨hqueue ▸ h.weighed, ?_⟩
  rw [hqueue, hcursor, hstats]
  exact h.counted

theorem Balanced.conclude (h : Balanced k b) (i : Nat) (terminal : Bool) :
    Balanced k (conclude i terminal b).2 := by
  unfold Intake.conclude
  cases terminal with
  | false => exact h
  | true =>
    rw [if_pos rfl]
    have hack := ackEod_eq i b.transmission
    exact h.congr (congrArg (·.queue) hack) (congrArg (·.cursor) hack) rfl

theorem cursor_conclude (i : Nat) (terminal : Bool) (b : Intake) :
    (conclude i terminal b).2.transmission.cursor =
      b.transmission.cursor := by
  unfold conclude
  cases terminal with
  | false => rfl
  | true => exact congrArg (·.cursor) (ackEod_eq i b.transmission)

/-- A segment that is queued is counted. -/
theorem Balanced.queue (h : Balanced k b) (i : Nat) (s : Segment) :
    Balanced k
      { transmission := { b.transmission with
          queue := ⟨Queue.insert s b.transmission.queue.segments,
            b.transmission.queue.queuedBytes + s.length⟩ }
        stats := b.stats.recordSegment i s.length } := by
  constructor
  case weighed =>
    rw [Queue.Weighed, Queue.length_joined_insert, h.weighed, Nat.add_comm]
  case counted =>
    have hcount : (b.stats.recordSegment i s.length).totalBytes =
        b.stats.totalBytes + s.length := rfl
    rw [hcount, h.counted]
    dsimp only
    omega

/-- Whatever comes of a control segment, no byte moves. -/
theorem Balanced.control (h : Balanced k b) (n i : Nat) (head : Header) :
    Balanced k (b.acceptControl n i head).2 ∧
      (b.acceptControl n i head).2.transmission.cursor =
        b.transmission.cursor := by
  unfold acceptControl
  dsimp only
  split
  · exact ⟨h, rfl⟩
  split
  · exact ⟨h, rfl⟩
  rcases setEodTotal_cases head.offsetCount.toNat b.transmission with
    ⟨e, hset, _⟩ | ⟨_, hset⟩
  · rw [hset]
    exact ⟨h.congr rfl rfl rfl, rfl⟩
  · rw [hset]
    dsimp only
    split
    · exact ⟨h.congr rfl rfl rfl, rfl⟩
    · refine ⟨Balanced.conclude ?_ _ _, cursor_conclude _ _ _⟩
      exact h.congr rfl rfl rfl

/-- A payload is queued, or it is counted all the same. -/
theorem Balanced.data (h : Balanced k b) (i : Nat) (s : Segment) :
    Balanced (k + match (b.acceptData i .stream s).1 with
        | .error _ => s.length
        | .ok _ => 0) (b.acceptData i .stream s).2 ∧
      (b.acceptData i .stream s).2.transmission.cursor =
        b.transmission.cursor := by
  unfold acceptData
  cases s.isEmpty with
  | true =>
    rw [if_pos rfl, conclude_fst]
    exact ⟨h.conclude _ _, cursor_conclude _ _ _⟩
  | false =>
    rw [if_neg (by simp)]
    simp only [store]
    rcases push_cases s b.transmission with ⟨e, he, _⟩ | ⟨he, _⟩
    · rw [he]
      refine ⟨⟨h.weighed, ?_⟩, rfl⟩
      have hcount : (b.stats.recordSegment i s.length).totalBytes =
          b.stats.totalBytes + s.length := rfl
      rw [hcount, h.counted]
      dsimp only
      omega
    · rw [he]
      dsimp only
      rw [conclude_fst]
      exact ⟨(h.queue i s).conclude _ _, cursor_conclude _ _ _⟩

/-- **Filing a segment in a stream** keeps the balance, if the bytes of a
segment that is refused are spilt. -/
theorem Balanced.accept (h : Balanced k b) (n i : Nat) (s : Segment) :
    Balanced (k + spill s (b.accept n i .stream s).1)
        (b.accept n i .stream s).2 ∧
      (b.accept n i .stream s).2.transmission.cursor =
        b.transmission.cursor := by
  unfold Intake.accept
  cases hc : s.isControl with
  | true =>
    have hnone (r : Except Error Bool) : spill s r = 0 := by
      cases r <;> simp [spill, cargo, hc]
    rw [if_pos rfl, hnone]
    exact h.control n i s.header
  | false =>
    have hlen : s.cargo = s.length := by simp [cargo, hc]
    simp only [Bool.false_eq_true, if_false, spill, hlen]
    exact h.data i s

end Intake

namespace Transmission

/-- How many bytes are lost when this comes of looking for the next
ones: those of the first segment, if it is torn. -/
def tornBytes (t : Transmission) : Except Error Delivery → Nat
  | .error (.duplicateOffset _) =>
    (t.queue.peek?.map Segment.length).getD 0
  | _ => 0

/-- **Looking for the next bytes** keeps the balance, if the bytes of a
torn segment are spilt. -/
theorem Looks.balanced {max k : Nat} {t t' : Transmission}
    {result : Except Error Delivery} {stats : Stats}
    (h : Looks max t result t') (hb : Intake.Balanced k ⟨t, stats⟩) :
    Intake.Balanced (k + t.tornBytes result) ⟨t', stats⟩ ∧
      t'.cursor = t.cursor + (handed result).length := by
  obtain ⟨hweighed, hcounted⟩ := hb
  dsimp only at hweighed hcounted
  have hfirst {s : Segment} {others : List Segment}
      (head : t.queue.segments = s :: others) :
      t.queue.queuedBytes = s.length + (joined others).length := by
    rw [hweighed, head, joined_cons, List.length_append, Segment.length]
  cases h with
  | finished | idle | below | gap | early =>
    exact ⟨⟨hweighed, hcounted⟩, rfl⟩
  | @whole s others head here all =>
    have hq := hfirst head
    refine ⟨⟨?_, ?_⟩, rfl⟩
    · rw [Queue.Weighed, hq, Nat.add_sub_cancel_left]
    · simp only [tornBytes, hcounted]
      omega
  | @part s others head here more free =>
    have hq := hfirst head
    refine ⟨⟨?_, ?_⟩, ?_⟩
    · rw [Queue.Weighed, Queue.length_joined_insert, length_rest]
      dsimp only
      omega
    · simp only [tornBytes, hcounted]
      omega
    · rw [handed, ← payload_splitFront_fst, ← Segment.length,
        length_front more]
  | @lost s u others head here more mem same =>
    have hq := hfirst head
    refine ⟨⟨?_, ?_⟩, rfl⟩
    · rw [Queue.Weighed, hq, Nat.add_sub_cancel_left]
    · simp only [tornBytes, Queue.peek?, head, List.head?_cons,
        Option.map_some, Option.getD_some, hcounted]
      omega

end Transmission

namespace Reader

/-! ## The bytes of a run -/

/-- How many bytes an event spills. -/
def spills (r : Reader) : Event → Nat
  | .work i =>
    match r.mode, r.lanes[i]? with
    | some mode, some ⟨c, .reading d⟩ =>
      match d.advance i r.config.maxPayloadLen c with
      | some (.done s, _) =>
        if r.cancelled then 0
        else Intake.spill s (r.intake.accept r.connections i mode s).1
      | _ => 0
    | _, _ => 0
  | .advance =>
    match r.call with
    | some ⟨.stream extent, .taking _⟩ =>
      r.transmission.tornBytes (r.transmission.nextDelivery extent.max).1
    | _ => 0
  | _ => 0

/-- How many bytes a run spills. -/
def spilt (r₀ : Reader) (es : List Event) : Nat :=
  kept (fun k r _ e => k + r.spills e) step 0 r₀ es

/-- The books of a reader that has spilt `spilt` bytes. -/
structure Books (spilt : Nat) (r : Reader) : Prop where
  calling : ∀ task stage, r.call = some ⟨task, stage⟩ → r.mode ≠ none ∧
    (task.mode = .collect → r.mode = some .collect)
  balanced : r.mode ≠ some .collect → r.intake.Balanced spilt
  delivered : r.mode ≠ some .collect →
    r.delivered = r.transmission.cursor
  /-- Bytes are spilt by failures only. -/
  harmed : 0 < spilt → r.mode ≠ none ∧ ¬ r.Unharmed

section Step

variable {k : Nat} {r r' : Reader}

/-- The call in flight at `r'` is one of the same kind at `r`. -/
def Recalls (r r' : Reader) : Prop :=
  ∀ task stage, r'.call = some ⟨task, stage⟩ →
    ∃ task' stage', r.call = some ⟨task', stage'⟩ ∧ task'.mode = task.mode

theorem Recalls.of_eq (h : r'.call = r.call) : Recalls r r' :=
  fun task stage hc => ⟨task, stage, h ▸ hc, rfl⟩

theorem Recalls.of_none (h : r'.call = none) : Recalls r r' := by
  intro task stage hc
  rw [h] at hc
  cases hc

theorem Recalls.of_task {task task' : Task} {stage stage' : Stage}
    (h : r.call = some ⟨task, stage⟩)
    (h' : r'.call = some ⟨task', stage'⟩) (hm : task.mode = task'.mode) :
    Recalls r r' := by
  intro task'' stage'' hc
  rw [h'] at hc
  cases hc
  exact ⟨task, stage, h, hm⟩

theorem Books.recall (h : Books k r) (hmode : r'.mode = r.mode)
    (hcall : Recalls r r') : ∀ task stage, r'.call = some ⟨task, stage⟩ →
      r'.mode ≠ none ∧ (task.mode = .collect → r'.mode = some .collect) := by
  intro task stage hc
  obtain ⟨task', stage', hc', hm⟩ := hcall task stage hc
  rw [hmode, ← hm]
  exact h.calling task' stage' hc'

/-- Nothing has happened to the bytes. -/
theorem Books.same (h : Books k r) (hmode : r'.mode = r.mode)
    (hintake : r'.intake = r.intake)
    (hdelivered : r'.delivered = r.delivered) (hcall : Recalls r r')
    (hharm : r'.Unharmed → r.Unharmed) : Books k r' := by
  refine ⟨h.recall hmode hcall, fun hm => ?_, fun hm => ?_, fun hk => ?_⟩
  · rw [hintake]
    exact h.balanced (hmode ▸ hm)
  · rw [hdelivered, Reader.transmission, hintake]
    exact h.delivered (hmode ▸ hm)
  · rw [hmode]
    exact ⟨(h.harmed hk).1, mt hharm (h.harmed hk).2⟩

/-- A worker that had no failure to record takes none away. -/
theorem unharmed_of_setLane {i : Nat} {lane lane' : Lane}
    (hl : r.lanes[i]? = some lane) (hp : ∀ e, lane.phase ≠ .failing e)
    (hu : (r.setLane i lane').Unharmed) : r.Unharmed :=
  ⟨hu.1, fun e he => hu.2 e ((failing_mem_setLane hl (hp e)).2 (.inr he))⟩

/-- A reader whose worker has a failure to record is harmed. -/
theorem not_unharmed_setLane {i : Nat} {lane : Lane} {c : Inlet}
    {e : Error} (hl : r.lanes[i]? = some lane)
    (hp : ∀ e, lane.phase ≠ .failing e) :
    ¬ (r.setLane i ⟨c, .failing e⟩).Unharmed :=
  fun hu => hu.2 e ((failing_mem_setLane hl (hp e)).2 (.inl rfl))

/-- A reader that has recorded a failure is harmed. -/
theorem not_unharmed_of_failure (h : r.failure.isSome = true) :
    ¬ r.Unharmed := by
  intro hu
  rw [hu.1] at h
  cases h

/-- A worker has completed a segment. -/
theorem Books.file (h : Books k r) (wakeup : Bool) {i : Nat} {mode : Mode}
    {s : Segment} {c' : Inlet} {phase : Phase} {lane : Lane}
    (hmode : r.mode = some mode) (hl : r.lanes[i]? = some lane)
    (hp : ∀ e, lane.phase ≠ .failing e)
    (hfails : ∀ e, (r.intake.accept r.connections i mode s).1 = .error e →
      phase = .failing e) :
    Books (k + Intake.spill s (r.intake.accept r.connections i mode s).1)
      ({ r with
        intake := (r.intake.accept r.connections i mode s).2
        wakeup }.setLane i ⟨c', phase⟩) := by
  have hstream (hm : r.mode ≠ some .collect) : mode = .stream := by
    cases mode with
    | stream => rfl
    | collect => exact absurd hmode hm
  refine ⟨h.calling, fun hm => ?_, fun hm => ?_, fun hk => ?_⟩
  · obtain rfl := hstream hm
    exact ((h.balanced hm).accept r.connections i s).1
  · obtain rfl := hstream hm
    exact (h.delivered hm).trans
      ((h.balanced hm).accept r.connections i s).2.symm
  · have hstarted : r.mode ≠ none := by simp [hmode]
    refine ⟨hstarted, ?_⟩
    cases hres : (r.intake.accept r.connections i mode s).1 with
    | error e =>
      obtain rfl := hfails e hres
      exact not_unharmed_setLane (r := { r with intake := _, wakeup }) hl hp
    | ok more =>
      rw [hres] at hk
      exact mt (fun hu => unharmed_of_setLane (r := { r with
        intake := _, wakeup }) hl hp hu) (h.harmed hk).2

/-- **A move of a worker.** -/
theorem Books.work (h : Books k r) {i : Nat} (hw : r.work i = some r') :
    Books (k + r.spills (.work i)) r' := by
  obtain ⟨mode, hmode, hcase⟩ := work_cases hw
  cases hcase with
  | @stop c d lane stopped =>
    have hnone : r.spills (.work i) = 0 := by
      simp only [spills, hmode, lane, stopped]
      split <;> simp
    rw [hnone]
    exact h.same rfl rfl rfl (.of_eq rfl)
      (unharmed_of_setLane lane (by simp))
  | more lane going advance =>
    have hnone : r.spills (.work i) = 0 := by
      simp [spills, hmode, lane, advance]
    rw [hnone]
    exact h.same rfl rfl rfl (.of_eq rfl)
      (unharmed_of_setLane lane (by simp))
  | broken lane going advance =>
    have hnone : r.spills (.work i) = 0 := by
      simp [spills, hmode, lane, advance]
    rw [hnone]
    exact h.same rfl rfl rfl (.of_eq rfl)
      (unharmed_of_setLane lane (by simp))
  | @refused c c' d s e lane going advance result =>
    have hspills : r.spills (.work i) =
        Intake.spill s (r.intake.accept r.connections i mode s).1 := by
      simp [spills, hmode, lane, advance, going]
    rw [hspills]
    refine h.file r.wakeup hmode lane (by simp) fun e' he => ?_
    rw [result] at he
    cases he
    rfl
  | @filed c c' d s more lane going advance result =>
    have hspills : r.spills (.work i) =
        Intake.spill s (r.intake.accept r.connections i mode s).1 := by
      simp [spills, hmode, lane, advance, going]
    rw [hspills]
    refine h.file true hmode lane (by simp) fun e' he => ?_
    rw [result] at he
    cases he
  | record lane =>
    have hnone : r.spills (.work i) = 0 := by simp [spills, hmode, lane]
    rw [hnone]
    exact ⟨h.calling, h.balanced, h.delivered, fun hk =>
      ⟨(h.harmed hk).1, not_unharmed_of_failure rfl⟩⟩
  | @leave c lane =>
    have hnone : r.spills (.work i) = 0 := by simp [spills, hmode, lane]
    rw [hnone]
    exact h.same rfl rfl rfl (.of_eq rfl)
      (unharmed_of_setLane (r := { r with live := _, wakeup := true }) lane
        (by simp))

/-- A call has looked for the next bytes of the stream. -/
theorem Books.take (h : Books k r) {extent : Extent} {live : Nat}
    {result : Except Error Delivery} {t : Transmission}
    (hc : r.call = some ⟨.stream extent, .taking live⟩)
    (hnext : r.transmission.nextDelivery extent.max = (result, t))
    (hmode : r'.mode = r.mode) (hintake : r'.intake = ⟨t, r.stats⟩)
    (hdelivered : r'.delivered =
      r.delivered + (Transmission.handed result).length)
    (hcall : Recalls r r') (hharm : r'.Unharmed → r.Unharmed)
    (hfails : ∀ e, result = .error e → r'.failure.isSome = true) :
    Books (k + r.spills .advance) r' := by
  have hspills : r.spills .advance = r.transmission.tornBytes result := by
    simp [spills, hc, hnext]
  have hlooks := looks extent.max r.transmission
  rw [hnext] at hlooks
  rw [hspills]
  refine ⟨h.recall hmode hcall, fun hm => ?_, fun hm => ?_, fun hk => ?_⟩
  · rw [hintake]
    exact (hlooks.balanced (h.balanced (hmode ▸ hm))).1
  · have hcursor := (hlooks.balanced (h.balanced (hmode ▸ hm))).2
    rw [hdelivered, Reader.transmission, hintake, h.delivered (hmode ▸ hm)]
    exact hcursor.symm
  · rw [hmode]
    refine ⟨(h.calling _ _ hc).1, ?_⟩
    cases result with
    | error e => exact not_unharmed_of_failure (hfails e rfl)
    | ok delivery => exact mt hharm (h.harmed hk).2

/-- **A move of the call.** -/
theorem Books.advance (h : Books k r) (ha : r.advance = some r') :
    Books (k + r.spills .advance) r' := by
  have hidle (hno : ∀ extent live,
      r.call ≠ some ⟨.stream extent, .taking live⟩) :
      r.spills .advance = 0 := by
    simp only [spills]
  cases advance_cases ha with
  | @stop task call stopped =>
    rw [hidle (by simp [call])]
    exact h.same rfl rfl rfl (.of_none rfl) id
  | look call going =>
    rw [hidle (by simp [call])]
    exact h.same rfl rfl rfl (.of_task call rfl rfl) id
  | message call completed =>
    have hcollect := (h.calling _ _ call).2 rfl
    rw [hidle (by simp [call])]
    rcases takeMessage_cases r with ⟨e, _, he⟩ | ⟨m, _, he⟩
    · rw [he]
      exact ⟨by simp, fun hm => absurd hcollect hm,
        fun hm => absurd hcollect hm, h.harmed⟩
    · rw [he]
      exact ⟨by simp, fun hm => absurd hcollect hm,
        fun hm => absurd hcollect hm, h.harmed⟩
  | hole call completed nobody =>
    rw [hidle (by simp [call])]
    exact ⟨fun _ _ hc => (by cases hc), h.balanced, h.delivered,
      fun hk => ⟨(h.harmed hk).1, not_unharmed_of_failure rfl⟩⟩
  | collecting call completed somebody =>
    rw [hidle (by simp [call])]
    exact h.same rfl rfl rfl (.of_task call rfl rfl) id
  | broken call next =>
    exact h.take call next rfl rfl rfl (.of_none rfl)
      (fun hu => by cases hu.1) fun _ _ => rfl
  | @ready extent live bs t call next =>
    cases extent with
    | upTo max =>
      exact h.take call next rfl rfl rfl (.of_none rfl) id (by simp)
    | toEnd out count =>
      exact h.take call next rfl rfl rfl (.of_task call rfl rfl) id (by simp)
    | remainder out =>
      exact h.take call next rfl rfl rfl (.of_task call rfl rfl) id (by simp)
  | @finished extent live t call next =>
    cases extent with
    | upTo max =>
      exact h.take call next rfl rfl rfl (.of_none rfl) id (by simp)
    | toEnd out count =>
      exact h.take call next rfl rfl rfl (.of_none rfl) id (by simp)
    | remainder out =>
      exact h.take call next rfl rfl rfl (.of_none rfl) id (by simp)
  | gap call next nobody =>
    exact h.take call next rfl rfl rfl (.of_none rfl)
      (fun hu => by cases hu.1) (by simp)
  | pending call next somebody =>
    exact h.take call next rfl rfl rfl (.of_task call rfl rfl) id (by simp)
  | wake call woken =>
    rw [hidle (by simp [call])]
    exact h.same rfl rfl rfl (.of_task call rfl rfl) id
  | stir call stopped =>
    rw [hidle (by simp [call])]
    exact h.same rfl rfl rfl (.of_task call rfl rfl) id

/-- A call begins, and the workers with it. -/
theorem Books.begin (h : Books k r) (task : Task)
    (hfits : task.mode = .collect → r.mode ≠ some .stream) :
    Books k ((r.start task.mode).setStage task .looking) := by
  cases hm : r.mode with
  | some mode =>
    have hsame : r.start task.mode = r := by simp only [start, hm]
    rw [hsame]
    refine ⟨fun task' stage hc => ?_, h.balanced, h.delivered, h.harmed⟩
    cases hc
    refine ⟨by simp [setStage, hm], fun htask => ?_⟩
    cases mode with
    | stream => exact absurd hm (hfits htask)
    | collect => exact hm
  | none =>
    have hk : k = 0 :=
      Nat.eq_zero_of_not_pos fun hpos => (h.harmed hpos).1 hm
    have hmode : (r.start task.mode).mode = some task.mode := by
      simp only [start, hm]
    have hstream (hne : (r.start task.mode).mode ≠ some .collect) :
        (r.start task.mode).intake = r.intake := by
      cases htask : task.mode with
      | stream => simp only [start, hm, Reader.transmission]
      | collect =>
        rw [hmode, htask] at hne
        exact absurd rfl hne
    have hbefore : r.mode ≠ some .collect := by simp [hm]
    refine ⟨fun task' stage hc => ?_, fun hne => ?_, fun hne => ?_,
      fun hpos => by omega⟩
    · cases hc
      exact ⟨by simp [setStage, hmode], fun htask => htask ▸ hmode⟩
    · show (r.start task.mode).intake.Balanced k
      rw [hstream hne]
      exact h.balanced hbefore
    · have hsame : (r.start task.mode).delivered = r.delivered := by
        simp only [start, hm]
      show (r.start task.mode).delivered =
        (r.start task.mode).intake.transmission.cursor
      rw [hsame, hstream hne]
      exact h.delivered hbefore

/-- A reader is let go. -/
theorem Books.drop (h : Books k r) : Books k r.drop := by
  refine ⟨fun _ _ hc => (by cases hc), h.balanced, h.delivered,
    fun hk => ?_⟩
  obtain ⟨hstarted, hharm⟩ := h.harmed hk
  obtain ⟨mode, hm⟩ := Option.ne_none_iff_exists'.1 hstarted
  refine ⟨hstarted, fun hu => hharm ⟨hu.1, ?_⟩⟩
  have hlanes : r.drop.phases = r.phases := by
    simp only [phases, Reader.drop, hm]
  exact hlanes ▸ hu.2

/-- **Everything that can happen keeps the books.** -/
theorem Books.step (h : Books k r) {e : Event} (hs : r.step e = some r') :
    Books (k + r.spills e) r' := by
  cases step_cases hs with
  | work work => exact h.work work
  | advance advance => exact h.advance advance
  | nothing idle => exact h.same rfl rfl rfl (.of_none rfl) id
  | begin idle asks =>
    cases asks with
    | read pos => exact h.begin (.stream (.upTo _)) nofun
    | readToEnd => exact h.begin (.stream (.toEnd _ 0)) nofun
    | rest streams => exact h.begin (.stream (.remainder [])) nofun
    | message free => exact h.begin .collect fun _ => free
  | abandon busy keeps => exact h.same rfl rfl rfl (.of_none rfl) id
  | forsake busy uses => exact h.drop
  | cancel => exact h.same rfl rfl rfl (.of_eq rfl) id
  | drop => exact h.drop
  | @arrive e i f arrives =>
    have hno : r.spills e = 0 := by cases arrives <;> rfl
    rw [hno]
    exact h.same rfl rfl rfl (.of_eq rfl)
      fun hu => ⟨hu.1, phases_arrive i f r ▸ hu.2⟩

end Step

theorem books_make {n : Nat} {config : Config} {r : Reader}
    (h : make n config = .ok r) : Books 0 r := by
  obtain ⟨_, _, rfl⟩ := make_eq_ok h
  exact ⟨by simp, fun _ => ⟨rfl, rfl⟩, fun _ => rfl, by simp⟩

/-- **The books of every reachable reader.** -/
theorem books_run {n : Nat} {config : Config} {r₀ r : Reader}
    {es : List Event} (hmake : make n config = .ok r₀)
    (hrun : run step r₀ es = some r) : Books (spilt r₀ es) r :=
  accompany (P := fun _ k r => Books k r) (books_make hmake)
    (fun _ _ _ _ _ _ h hmove => h.step hmove) hrun

/-- **What refused segments leave behind**, in every reachable state,
whatever arrives and whatever is done.

A segment that is refused leaves nothing behind, or the wrong number of
connections that it has announced, or its payload in the statistics; it
leaves nothing exactly if it is a control segment and no number was noted
for it. As long as no message is collected, the counted bytes are those
that were handed out, those that are queued, and those that were spilt by
refused payloads and torn segments; and only a reader with a failure has
spilt any. -/
theorem refusals_accounted {n : Nat} {config : Config} {r₀ r : Reader}
    {es : List Event} (hmake : make n config = .ok r₀)
    (hrun : run step r₀ es = some r) :
    (∀ i mode s e b, r.intake.accept n i mode s = (.error e, b) →
      Intake.Refused n i s r.intake e b ∧
        (b = r.intake ↔ s.isControl = true ∧
          b.transmission.eodTotal = r.transmission.eodTotal)) ∧
    (r.mode ≠ some .collect →
      r.stats.totalBytes =
        r.delivered + r.transmission.queue.queuedBytes + spilt r₀ es) ∧
    (0 < spilt r₀ es →
      r.failure.isSome = true ∨ ∃ e, .failing e ∈ r.phases) := by
  have hbooks := books_run hmake hrun
  refine ⟨fun i mode s e b hacc => ?_, fun hm => ?_, fun hpos => ?_⟩
  · have hrefused : Intake.Refused n i s r.intake e
        (r.intake.accept n i mode s).2 :=
      Intake.refused_of_error (congrArg Prod.fst hacc)
    rw [hacc] at hrefused
    exact ⟨hrefused, hrefused.eq_iff⟩
  · rw [hbooks.delivered hm]
    exact (hbooks.balanced hm).counted
  · have hharm := (hbooks.harmed hpos).2
    cases hf : r.failure with
    | some e => exact .inl rfl
    | none =>
      refine .inr ?_
      simpa [Unharmed, hf] using hharm

/-- Two payloads come for one offset, and the second one is refused. -/
def duplicateEvents : List Event :=
  [.feed 0 ((Segment.data [1, 2] 0 .none).encode ++
    (Segment.data [3] 0 .none).encode),
   .read 1, .work 0, .work 0, .work 0, .work 0]

/-- After that one byte was spilt, and a worker is to record why. -/
theorem refusals_accounted_duplicate : ∃ r₀ r,
    make 1 .standard = .ok r₀ ∧ run step r₀ duplicateEvents = some r ∧
    spilt r₀ duplicateEvents = 1 ∧ r.mode ≠ some .collect ∧
    r.stats.totalBytes =
      r.delivered + r.transmission.queue.queuedBytes + 1 ∧
    r.failure.isSome = false ∧ ∃ e, .failing e ∈ r.phases := by
  refine ⟨_, _, rfl, rfl, rfl, by decide, ?_⟩
  obtain ⟨_, hbytes, hspilt⟩ :=
    @refusals_accounted 1 .standard _ _ duplicateEvents rfl rfl
  exact ⟨hbytes (by decide), rfl,
    (hspilt (by decide)).resolve_left (by decide)⟩

/-- **A refused payload is counted**: at that point there is one counted
byte more than were handed out and are queued, and every further payload
for the offset is refused and counted. -/
theorem refused_payload_counted : ∃ r₀ r, make 1 .standard = .ok r₀ ∧
    run step r₀ duplicateEvents = some r ∧ r.mode = some .stream ∧
    r.stats.totalBytes ≠
      r.delivered + r.transmission.queue.queuedBytes ∧
    ∃ e b, r.intake.accept 1 0 .stream (.data [3] 0 .none) = (.error e, b) ∧
      b.stats ≠ r.stats := by
  refine ⟨_, _, rfl, rfl, rfl, by decide, _, _, rfl, by decide⟩

end Reader
end Stripe
