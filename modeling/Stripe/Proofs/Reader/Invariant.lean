import Stripe.Proofs.Filing
import Stripe.Proofs.Members
import Stripe.Proofs.Reader.Moves

/-!
# What holds in every state of a reader

`Inv` relates the state of a reader to its history: to what has arrived on
each connection, to the segments that were filed from it, and to the bytes
that were taken out of the stream. It holds at first (`inv_make`), and
everything that can happen keeps it.

Nothing is asked of what arrives. What a stopped reader holds is of no
interest, so most of what is filed is described as long as the reader was
not stopped.
-/

namespace Stripe.Reader

open Segment Transmission

/-- Where a connection and its worker stand. `input` is what has arrived,
and the segments `row` were filed. -/
inductive Follows (maxPayload : Nat) (input : Inlet) (row : List Segment)
    (stopped : Bool) : Lane → Prop where
  | reading {c : Inlet} {d : Decoder} (valid : d.Valid maxPayload)
      (isOpen : Open row)
      (tape : input.tape = Tape.clean (encodeAll row ++ d.held) ++ c.tape)
      (ended : input.ended = c.ended) :
      Follows maxPayload input row stopped ⟨c, .reading d⟩
  | failing {c : Inlet} {e : Error} (isOpen : Open row)
      (tape : Tape.clean (encodeAll row) <+: input.tape) :
      Follows maxPayload input row stopped ⟨c, .failing e⟩
  | left {c : Inlet} {phase : Phase}
      (past : phase = .leaving ∨ phase = .gone)
      (why : Ended row ∧
          input.tape = Tape.clean (encodeAll row) ++ c.tape ∨
        Open row ∧ stopped = true ∧
          Tape.clean (encodeAll row) <+: input.tape) :
      Follows maxPayload input row stopped ⟨c, phase⟩

/-- The call in flight fits the way that the reader goes, and has seen all
workers that are left. -/
structure Calling (r : Reader) : Prop where
  max_pos : ∀ max stage, r.call = some ⟨.stream (.upTo max), stage⟩ →
    0 < max
  mode : r.cancelled = false → ∀ task stage, r.call = some ⟨task, stage⟩ →
    r.mode = some task.mode
  /-- The message is collected for the call only that uses it up. -/
  collecting : r.cancelled = false → r.mode = some .collect →
    ∃ stage, r.call = some ⟨.collect, stage⟩
  taking : r.cancelled = false → ∀ task live,
    r.call = some ⟨task, .taking live⟩ →
      r.live ≤ live ∧ (r.live < live → r.wakeup = true)
  waiting : r.cancelled = false → ∀ task,
    r.call = some ⟨task, .waiting⟩ → r.wakeup = false → 0 < r.live

/-- The state of a reader of `n` connections, after the segments `rows i`
were filed from what has arrived on connection `i`, and `out` was taken out
of the stream. -/
structure Inv (n maxPayload : Nat) (input : Nat → Inlet)
    (rows : Nat → List Segment) (out : Bytes) (r : Reader) : Prop where
  size : r.lanes.length = n
  limit : r.config.maxPayloadLen = maxPayload
  segments : ∀ i, ∀ s ∈ rows i, s.WellFormed ∧ s.length ≤ maxPayload ∧
    (s.isControl = true → s.header.byteCount = 0 ∧ s.offset = n)
  few : ∀ i, ∀ s ∈ rows i, s.isControl = true → n < Intake.countLimit
  lanes : ∀ i lane, r.lanes[i]? = some lane →
    Follows maxPayload (input i) (rows i) r.cancelled lane
  unstarted : r.mode = none → r.intake = ⟨.fresh, .ofConnections n⟩ ∧
    (∀ i, rows i = []) ∧ out = [] ∧ r.call = none
  acks : ∀ i ∈ r.transmission.eodAcks, i < n ∧ Ended (rows i)
  nodup : r.transmission.eodAcks.Nodup
  announced : r.transmission.eodTotal = some n →
    ∃ i < n, ∃ s ∈ rows i, s.isControl = true
  /-- A wrong number is found by the worker that has noted it. -/
  mismatch : ∀ total, r.transmission.eodTotal = some total → total ≠ n →
    r.failure.isSome = true ∨
      .failing (.eodCountMismatch total n) ∈ r.phases
  halted : r.failure.isSome = true → r.cancelled = true
  queued : ∀ s ∈ r.transmission.queue.segments, s.payload ≠ []
  stored : r.cancelled = false → ∀ mode, r.mode = some mode →
    Stored mode (pieces n rows) out r.transmission
  acked : r.cancelled = false → ∀ i < n, Ended (rows i) →
    i ∈ r.transmission.eodAcks
  counted : r.cancelled = false → ∀ i < n, ∀ s ∈ rows i,
    s.isControl = true → r.transmission.eodTotal = some n
  stats : r.Unharmed → r.stats = Stats.tally n rows
  live : r.cancelled = false → r.mode ≠ none →
    r.live = r.phases.countP (· != .gone)
  calling : r.Calling

/-! ## Facts about lanes -/

theorem Inv.lt {n maxPayload : Nat} {input : Nat → Inlet}
    {rows : Nat → List Segment} {out : Bytes} {r : Reader}
    (h : Inv n maxPayload input rows out r) {i : Nat} {lane : Lane}
    (hl : r.lanes[i]? = some lane) : i < n := by
  rw [← h.size]
  exact (List.getElem?_eq_some_iff.1 hl).1

theorem Inv.lane_of_lt {n maxPayload : Nat} {input : Nat → Inlet}
    {rows : Nat → List Segment} {out : Bytes} {r : Reader}
    (h : Inv n maxPayload input rows out r) {i : Nat} (hi : i < n) :
    ∃ lane, r.lanes[i]? = some lane := by
  have hlt : i < r.lanes.length := by rw [h.size]; exact hi
  exact ⟨_, List.getElem?_eq_getElem hlt⟩

theorem Follows.stop {maxPayload : Nat} {input : Inlet}
    {row : List Segment} {stopped : Bool} {lane : Lane}
    (h : Follows maxPayload input row stopped lane) :
    Follows maxPayload input row true lane := by
  cases h with
  | reading valid isOpen tape ended =>
    exact .reading valid isOpen tape ended
  | failing isOpen tape => exact .failing isOpen tape
  | left past why =>
    exact .left past (why.imp_right fun h => ⟨h.1, rfl, h.2.2⟩)

/-- What is known of a worker that reads. -/
theorem Follows.of_reading {maxPayload : Nat} {input : Inlet}
    {row : List Segment} {stopped : Bool} {c : Inlet} {d : Decoder}
    (h : Follows maxPayload input row stopped ⟨c, .reading d⟩) :
    d.Valid maxPayload ∧ Open row ∧
      input.tape = Tape.clean (encodeAll row ++ d.held) ++ c.tape ∧
      input.ended = c.ended := by
  cases h with
  | reading valid isOpen tape ended => exact ⟨valid, isOpen, tape, ended⟩
  | left past why => rcases past with hp | hp <;> cases hp

/-- A row that was filed is open or ended. -/
theorem Follows.open_or_ended {maxPayload : Nat} {input : Inlet}
    {row : List Segment} {stopped : Bool} {lane : Lane}
    (h : Follows maxPayload input row stopped lane) :
    Open row ∨ Ended row := by
  cases h with
  | reading valid isOpen tape ended => exact .inl isOpen
  | failing isOpen tape => exact .inl isOpen
  | left past why => exact why.symm.imp (·.1) (·.1)

/-- The segments that were filed stand at the front of what has arrived. -/
theorem Follows.front {maxPayload : Nat} {input : Inlet}
    {row : List Segment} {stopped : Bool} {lane : Lane}
    (h : Follows maxPayload input row stopped lane) :
    Tape.clean (encodeAll row) <+: input.tape := by
  cases h with
  | reading valid isOpen tape ended =>
    rw [tape, Tape.clean_append, List.append_assoc]
    exact List.prefix_append _ _
  | failing isOpen tape => exact tape
  | left past why =>
    rcases why with ⟨_, htape⟩ | ⟨_, _, htape⟩
    · rw [htape]
      exact List.prefix_append _ _
    · exact htape

/-- What a read call of a worker comes to, for its decoder. -/
theorem Inv.advances {n maxPayload : Nat} {input : Nat → Inlet}
    {rows : Nat → List Segment} {out : Bytes} {r : Reader}
    (h : Inv n maxPayload input rows out r) {i : Nat} {c c' : Inlet}
    {d : Decoder} {p : Decoder.Progress}
    (hl : r.lanes[i]? = some ⟨c, .reading d⟩)
    (hadv : d.advance i r.config.maxPayloadLen c = some (p, c')) :
    Decoder.Advances i maxPayload d c p c' :=
  Decoder.advance_spec (h.lanes i _ hl).of_reading.1 (h.limit ▸ hadv)

section SetLane

variable {r : Reader} {i : Nat} {lane : Lane}

/-- The failures that are to be recorded, after a worker that had none. -/
theorem failing_mem_setLane (hl : r.lanes[i]? = some lane)
    {lane' : Lane} {e : Error} (h : lane.phase ≠ .failing e) :
    Phase.failing e ∈ (r.setLane i lane').phases ↔
      lane'.phase = .failing e ∨ Phase.failing e ∈ r.phases := by
  rw [phases_setLane, mem_set_iff (phases_eq_some hl) (Ne.symm h), eq_comm]

/-- The connections that were not let go, after a move of a worker. -/
theorem countP_setLane (hl : r.lanes[i]? = some lane) (lane' : Lane) :
    (r.setLane i lane').phases.countP (· != .gone) +
        (if lane.phase = .gone then 0 else 1) =
      r.phases.countP (· != .gone) +
        (if lane'.phase = .gone then 0 else 1) := by
  have h := countP_set_eq (a := lane'.phase) (· != .gone)
    (phases_eq_some hl)
  rw [phases_setLane]
  simpa using h

end SetLane

/-- What arrives is added at the end. -/
def Grows (f : Inlet → Inlet) : Prop :=
  ∃ more fin, ∀ c, (f c).tape = c.tape ++ more ∧
    (f c).ended = (c.ended || fin)

theorem grows_feed (bs : Bytes) : Grows (·.feed bs) :=
  ⟨Tape.clean bs, false, fun c => by simp⟩

theorem grows_fail (cause : IoError) : Grows (·.fail cause) :=
  ⟨[.error cause], false, fun c => by simp⟩

theorem grows_finish : Grows (·.finish) :=
  ⟨[], true, fun c => by simp⟩

theorem Event.Arrives.grows {e : Event} {i : Nat} {f : Inlet → Inlet}
    (h : e.Arrives i f) : Grows f := by
  cases h with
  | feed => exact grows_feed _
  | fault => exact grows_fail _
  | close => exact grows_finish

theorem Follows.grow {maxPayload : Nat} {input : Inlet}
    {row : List Segment} {stopped : Bool} {lane : Lane}
    {f : Inlet → Inlet} (h : Follows maxPayload input row stopped lane)
    (hf : Grows f) :
    Follows maxPayload (f input) row stopped ⟨f lane.inlet, lane.phase⟩ := by
  obtain ⟨more, fin, hf⟩ := hf
  cases h with
  | @reading c d valid isOpen tape ended =>
    refine .reading valid isOpen ?_ ?_
    · rw [(hf input).1, (hf c).1, tape, List.append_assoc]
    · rw [(hf input).2, (hf c).2, ended]
  | failing isOpen tape =>
    refine .failing isOpen ?_
    rw [(hf input).1]
    exact tape.trans (List.prefix_append _ _)
  | @left c phase past why =>
    refine .left past ?_
    rw [(hf input).1]
    rcases why with ⟨hend, htape⟩ | ⟨hopen, hstop, htape⟩
    · refine .inl ⟨hend, ?_⟩
      rw [(hf c).1, htape, List.append_assoc]
    · exact .inr ⟨hopen, hstop, htape.trans (List.prefix_append _ _)⟩

/-- What a read call of a worker comes to, for its row. -/
inductive Follows.Read (maxPayload : Nat) (input : Inlet)
    (row : List Segment) (stopped : Bool) (c' : Inlet) :
    Decoder.Progress → Prop where
  | more {d : Decoder}
      (follows : Follows maxPayload input row stopped ⟨c', .reading d⟩) :
      Read maxPayload input row stopped c' (.more d)
  | failed {e : Error}
      (follows : Follows maxPayload input row stopped ⟨c', .failing e⟩) :
      Read maxPayload input row stopped c' (.failed e)
  | done {s : Segment} (isOpen : Open row) (wf : s.WellFormed)
      (le : s.length ≤ maxPayload)
      (tape : input.tape =
        Tape.clean (encodeAll (row ++ [s])) ++ c'.tape)
      (ended : input.ended = c'.ended) :
      Read maxPayload input row stopped c' (.done s)

theorem Follows.read {id maxPayload : Nat} {input : Inlet}
    {row : List Segment} {stopped : Bool} {c c' : Inlet} {d : Decoder}
    {p : Decoder.Progress}
    (h : Follows maxPayload input row stopped ⟨c, .reading d⟩)
    (hadv : d.advance id maxPayload c = some (p, c')) :
    Follows.Read maxPayload input row stopped c' p := by
  have hfront := h.front
  obtain ⟨valid, isOpen, tape, ended⟩ := h.of_reading
  cases Decoder.advance_spec valid hadv with
  | fault htape hended hweight => exact .failed (.failing isOpen hfront)
  | cut htape hended htape' hended' hweight =>
    exact .failed (.failing isOpen hfront)
  | @took bs p c' pos makes htape hended hweight =>
    have hall : input.tape =
        Tape.clean (encodeAll row ++ (d.held ++ bs)) ++ c'.tape := by
      rw [tape, htape]
      simp only [Tape.clean_append, List.append_assoc]
    cases makes with
    | more valid' held =>
      exact .more (.reading valid' isOpen (by rw [held]; exact hall)
        (ended.trans hended.symm))
    | done wf le held =>
      refine .done isOpen wf le ?_ (ended.trans hended.symm)
      simpa [held] using hall
    | oversized has lt held => exact .failed (.failing isOpen hfront)

/-! ## Connections that have ended -/

theorem completed_eq {r : Reader} : r.completed = true ↔
    r.transmission.eodTotal = some r.transmission.eodAcks.length := by
  simp [completed, Transmission.completed]

/-- Of different numbers below `n` there are `n` exactly if none is
missing. -/
theorem length_eq_iff {l : List Nat} {n : Nat} (hl : l.Nodup)
    (hlt : ∀ i ∈ l, i < n) : l.length = n ↔ ∀ i < n, i ∈ l := by
  have hsub : ∀ {l : List Nat}, (∀ i ∈ l, i < n) → l ⊆ List.range n :=
    fun h i hi => List.mem_range.2 (h i hi)
  constructor
  · intro heq i hi
    by_cases hmem : i ∈ l
    · exact hmem
    · -- with the missing number there would be too many
      have hnodup : (i :: l).Nodup := List.nodup_cons.2 ⟨hmem, hl⟩
      have hle := hnodup.length_le_of_subset (hsub (l := i :: l) (by
        intro j hj
        rcases List.mem_cons.1 hj with rfl | hj
        · exact hi
        · exact hlt j hj))
      rw [List.length_range, List.length_cons] at hle
      omega
  · intro hall
    have hle := hl.length_le_of_subset (hsub hlt)
    have hge := List.nodup_range.length_le_of_subset
      (fun i hi => hall i (List.mem_range.1 hi) : List.range n ⊆ l)
    rw [List.length_range] at hle hge
    omega

section Ended

variable {n maxPayload : Nat} {input : Nat → Inlet}
  {rows : Nat → List Segment} {out : Bytes} {r : Reader}

/-- An ended row is all that its connection carries. -/
theorem Inv.carries (h : Inv n maxPayload input rows out r) {i : Nat}
    (hi : i < n) (hend : Ended (rows i)) :
    Carries maxPayload (input i) (rows i) := by
  obtain ⟨lane, hlane⟩ := h.lane_of_lt hi
  obtain ⟨rest, hrest⟩ := (h.lanes i lane hlane).front
  exact ⟨fun s hs => (h.segments i s hs).1,
    fun s hs => (h.segments i s hs).2.1, hend, rest, hrest.symm⟩

/-- A reader that nothing has happened to has noted the right number. -/
theorem Inv.total (h : Inv n maxPayload input rows out r)
    (hu : r.Unharmed) {total : Nat}
    (ht : r.transmission.eodTotal = some total) : total = n := by
  by_cases hne : total = n
  · exact hne
  · rcases h.mismatch total ht hne with hs | hmem
    · simp [hu.1] at hs
    · exact absurd hmem (hu.2 _)

/-- It is complete when all connections have ended. -/
theorem Inv.all_ended (h : Inv n maxPayload input rows out r)
    (hu : r.Unharmed) (hc : r.completed = true) :
    r.transmission.eodTotal = some n ∧ ∀ i < n, Ended (rows i) := by
  have ht := completed_eq.1 hc
  have hn := h.total hu ht
  have hall := (length_eq_iff h.nodup fun i hi => (h.acks i hi).1).1 hn
  exact ⟨by rw [ht, hn], fun i hi => (h.acks i (hall i hi)).2⟩

/-- **A complete reader that nothing has happened to** has filed the
segments of good inputs, if they tile a message. -/
theorem Inv.yields (h : Inv n maxPayload input rows out r)
    (hu : r.Unharmed) (hc : r.completed = true) {m : Bytes}
    (hm : Tiles (pieces n rows) m) :
    Yields n maxPayload input rows m := by
  obtain ⟨ht, hend⟩ := h.all_ended hu hc
  exact ⟨fun i hi => h.carries hi (hend i hi),
    fun i _ s hs => (h.segments i s hs).2.2, h.announced ht, hm⟩

/-- More connections than can be announced are never complete. -/
theorem Inv.lt_countLimit (h : Inv n maxPayload input rows out r) {m : Bytes}
    (hy : Yields n maxPayload input rows m) : n < Intake.countLimit := by
  obtain ⟨i, _, s, hs, hc⟩ := hy.announced
  exact h.few i s hs hc

end Ended

/-! ## The first state -/

theorem make_eq_ok {n : Nat} {config : Config} {r : Reader}
    (h : make n config = .ok r) :
    config.validate = .ok () ∧ 0 < n ∧ r =
      { config
        lanes := List.replicate n ⟨.empty, .reading .start⟩
        mode := none
        intake := ⟨.fresh, .ofConnections n⟩
        failure := none
        cancelled := false
        wakeup := false
        live := 0
        delivered := 0
        call := none
        answer := none } := by
  unfold make at h
  split at h
  · cases h
  · rename_i hv
    split at h
    · cases h
    · cases h
      exact ⟨hv, by omega, rfl⟩

theorem inv_make {n : Nat} {config : Config} {r : Reader}
    (h : make n config = .ok r) :
    Inv n config.maxPayloadLen (fun _ => .empty) (fun _ => []) [] r := by
  obtain ⟨_, _, rfl⟩ := make_eq_ok h
  exact
    { size := by simp
      limit := rfl
      segments := by simp
      few := by simp
      lanes := by
        intro i lane hi
        obtain ⟨_, rfl⟩ := List.mem_replicate.1 (List.mem_of_getElem? hi)
        exact .reading (Decoder.valid_start _) open_nil rfl rfl
      unstarted := fun _ => ⟨rfl, fun _ => rfl, rfl, rfl⟩
      acks := fun _ hi => by cases hi
      nodup := .nil
      announced := fun hi => by cases hi
      mismatch := fun _ hi => by cases hi
      halted := by simp
      queued := fun _ hu => by cases hu
      stored := by simp
      acked := fun _ i _ hi => absurd hi open_nil.not_ended
      counted := by simp
      stats := fun _ => (Stats.tally_nil n).symm
      live := by simp
      calling := ⟨by simp, by simp, by simp, by simp, by simp⟩ }

end Stripe.Reader
