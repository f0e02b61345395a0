import Stripe.Proofs.Reader.Invariant

/-!
# Everything keeps the invariant of a reader

One lemma for each thing that can happen to a reader, by which `Inv` holds
after it (`Inv.step`) and so in every reachable state (`inv_run`). The rows
of filed segments grow by what a worker has filed, and the bytes taken out
of the stream by what a call was handed.
-/

namespace Stripe.Reader

open Segment Transmission

/-! ## What a user or a peer does -/

section Preservation

variable {n maxPayload : Nat} {input : Nat → Inlet}
  {rows : Nat → List Segment} {out : Bytes} {r : Reader}

/-- Something arrives on one connection. -/
theorem Inv.arrive (h : Inv n maxPayload input rows out r) (i : Nat)
    {f : Inlet → Inlet} (hf : Grows f) :
    Inv n maxPayload (fun j => if j = i then f (input j) else input j)
      rows out (r.arrive i f) := by
  have hphases := phases_arrive i f r
  exact
    { h with
      size := by simpa [Reader.arrive] using h.size
      lanes := by
        intro j lane hj
        simp only [Reader.arrive, List.getElem?_modify] at hj
        by_cases hij : i = j
        · subst hij
          simp only [if_true, Option.map_eq_map, Option.map_eq_some_iff] at hj
          obtain ⟨lane', hj, rfl⟩ := hj
          simp only [if_true]
          exact (h.lanes i lane' hj).grow hf
        · simp only [if_neg (Ne.symm hij)]
          refine h.lanes j lane ?_
          simpa [hij] using hj
      mismatch := by
        rw [hphases]
        exact h.mismatch
      stats := by
        unfold Unharmed
        rw [hphases]
        exact h.stats
      live := by
        rw [hphases]
        exact h.live
      calling := ⟨h.calling.max_pos, h.calling.mode, h.calling.collecting,
        h.calling.taking, h.calling.waiting⟩ }

/-- The reader is stopped. What is noted beside the segments does not
matter any more. -/
theorem Inv.halt (h : Inv n maxPayload input rows out r)
    (failure : Option Error) (hf : r.failure.isSome → failure.isSome)
    (call : Option Call) (hc : call = none ∨ call = r.call)
    (wakeup : Bool) (answer : Option Answer) (delivered : Nat) :
    Inv n maxPayload input rows out
      { r with failure, cancelled := true, wakeup, call, answer,
               delivered } :=
  { h with
    lanes := fun i lane hi => (h.lanes i lane hi).stop
    mismatch := fun total ht hne => (h.mismatch total ht hne).imp_left hf
    halted := fun _ => rfl
    stored := fun h => absurd h (by simp)
    acked := fun h => absurd h (by simp)
    counted := fun h => absurd h (by simp)
    stats := by
      intro hu
      refine h.stats ⟨?_, hu.2⟩
      have hnone : failure = none := hu.1
      cases hr : r.failure with
      | none => rfl
      | some e => simp [hr, hnone] at hf
    live := fun h => absurd h (by simp)
    unstarted := by
      intro hm
      obtain ⟨hi, hr, ho, hcall⟩ := h.unstarted hm
      rcases hc with rfl | rfl
      · exact ⟨hi, hr, ho, rfl⟩
      · exact ⟨hi, hr, ho, hcall⟩
    calling := by
      refine ⟨?_, fun h => absurd h (by simp),
        fun h => absurd h (by simp), fun h => absurd h (by simp),
        fun h => absurd h (by simp)⟩
      rcases hc with rfl | rfl
      · simp
      · exact h.calling.max_pos }

theorem Inv.drop (h : Inv n maxPayload input rows out r) :
    Inv n maxPayload input rows out r.drop := by
  have hhalt := h.halt r.failure id none (.inl rfl) r.wakeup r.answer
    r.delivered
  cases hmode : r.mode with
  | some mode =>
    have hdrop : r.drop =
        { r with cancelled := true, call := none } := by
      simp only [Reader.drop, hmode]
    exact hdrop ▸ hhalt
  | none =>
    have hdrop : r.drop =
        { r with lanes := r.lanes.map ({ · with phase := .gone })
                 cancelled := true, call := none } := by
      simp only [Reader.drop, hmode]
    rw [hdrop]
    -- nothing was filed, and all connections are let go
    obtain ⟨hintake, hrows, _⟩ := h.unstarted hmode
    exact
      { hhalt with
        size := by simpa using h.size
        lanes := by
          intro i lane hi
          simp only [List.getElem?_map, Option.map_eq_some_iff] at hi
          obtain ⟨lane', hi, rfl⟩ := hi
          rw [hrows i]
          exact .left (.inr rfl) (.inr ⟨open_nil, rfl, ⟨_, rfl⟩⟩)
        mismatch := by
          intro total ht
          simp only [transmission, hintake] at ht
          cases ht
        stats := by
          intro _
          rw [show rows = fun _ => [] from funext hrows, Stats.tally_nil]
          simp only [Reader.stats, hintake]
        live := by simp
        calling := ⟨by simp, by simp, by simp, by simp, by simp⟩ }

/-! ## Workers -/

/-- One lane has moved, and the others are where they were. -/
theorem Inv.lanes_set (h : Inv n maxPayload input rows out r) {i : Nat}
    {rows' : Nat → List Segment} (hrows : ∀ j, j ≠ i → rows' j = rows j)
    {lane' : Lane}
    (h' : Follows maxPayload (input i) (rows' i) r.cancelled lane') :
    ∀ j lane, (r.lanes.set i lane')[j]? = some lane →
      Follows maxPayload (input j) (rows' j) r.cancelled lane := by
  intro j lane hj
  rw [List.getElem?_set] at hj
  split at hj
  · rename_i hij
    subst hij
    split at hj
    · cases hj
      exact h'
    · cases hj
  · rename_i hij
    rw [hrows j (Ne.symm hij)]
    exact h.lanes j lane hj

/-- A worker that has not let go of its connection changes what it is about
to do. It has no failure to record, or there is one on record. -/
theorem Inv.relane (h : Inv n maxPayload input rows out r) {i : Nat}
    {lane lane' : Lane} (hl : r.lanes[i]? = some lane)
    (hf : Follows maxPayload (input i) (rows i) r.cancelled lane')
    (hkeep : (∀ e, lane.phase ≠ .failing e) ∨ r.failure.isSome = true)
    (hgone : lane.phase ≠ .gone ∧ lane'.phase ≠ .gone) :
    Inv n maxPayload input rows out (r.setLane i lane') := by
  exact
    { h with
      size := by simpa using h.size
      lanes := h.lanes_set (fun _ _ => rfl) hf
      mismatch := by
        intro total ht hne
        rcases h.mismatch total ht hne with hs | hmem
        · exact .inl hs
        · rcases hkeep with hk | hs
          · exact .inr ((failing_mem_setLane hl (hk _)).2 (.inr hmem))
          · exact .inl hs
      stats := by
        intro hu
        have hnone : r.failure = none := hu.1
        rcases hkeep with hk | hs
        · exact h.stats ⟨hnone, fun e he =>
            hu.2 e ((failing_mem_setLane hl (hk e)).2 (.inr he))⟩
        · simp [hnone] at hs
      live := by
        intro hc hm
        have hcount := countP_setLane hl lane'
        rw [if_neg hgone.1, if_neg hgone.2] at hcount
        rw [Nat.add_right_cancel hcount]
        exact h.live hc hm
      calling := ⟨h.calling.max_pos, h.calling.mode, h.calling.collecting,
        h.calling.taking, h.calling.waiting⟩ }

/-- A call sees that something has changed. -/
theorem Calling.wake (h : r.Calling) {r' : Reader}
    (hw : r'.wakeup = true) (hl : r'.live ≤ r.live)
    (hc : r'.cancelled = r.cancelled) (hm : r'.mode = r.mode)
    (hcall : r'.call = r.call) : r'.Calling where
  max_pos := hcall ▸ h.max_pos
  mode := by rw [hc, hcall, hm]; exact h.mode
  collecting := by rw [hc, hcall, hm]; exact h.collecting
  taking := by
    intro hc' task live hcall'
    rw [hc] at hc'
    rw [hcall] at hcall'
    have := (h.taking hc' task live hcall').1
    exact ⟨by omega, fun _ => hw⟩
  waiting := by
    intro _ _ _ hw'
    rw [hw] at hw'
    cases hw'

/-- A worker lets go of its connection. -/
theorem Inv.leave (h : Inv n maxPayload input rows out r) {i : Nat}
    {c : Inlet} (hl : r.lanes[i]? = some ⟨c, .leaving⟩) :
    Inv n maxPayload input rows out
      ({ r with live := r.live - 1, wakeup := true }.setLane i
        ⟨c, .gone⟩) := by
  have hset : ∀ e, Phase.failing e ∈ r.phases →
      Phase.failing e ∈ (r.setLane i ⟨c, .gone⟩).phases := fun e he =>
    (failing_mem_setLane hl (by simp)).2 (.inr he)
  exact
    { h with
      size := by simpa using h.size
      lanes := by
        refine h.lanes_set (fun _ _ => rfl) ?_
        cases h.lanes i _ hl with
        | left past why => exact .left (.inr rfl) why
      mismatch := fun total ht hne =>
        (h.mismatch total ht hne).imp_right (hset _)
      stats := fun hu => h.stats ⟨hu.1, fun e he => hu.2 e (hset e he)⟩
      live := by
        intro hc hm
        have hcount := countP_setLane hl ⟨c, .gone⟩
        have hlive := h.live hc hm
        rw [if_neg (by simp), if_pos rfl] at hcount
        show r.live - 1 = (r.setLane i ⟨c, .gone⟩).phases.countP (· != .gone)
        omega
      calling := h.calling.wake rfl (Nat.sub_le _ _) rfl rfl rfl }

/-- A worker has read a segment, and it was filed. -/
theorem Inv.file (h : Inv n maxPayload input rows out r) {i : Nat}
    {c c' : Inlet} {d : Decoder} {s : Segment} {mode : Mode} {b : Intake}
    (hl : r.lanes[i]? = some ⟨c, .reading d⟩) (hmode : r.mode = some mode)
    (hread : Follows.Read maxPayload (input i) (rows i) r.cancelled c'
      (.done s)) (hb : Intake.Files n i mode s r.intake b) :
    Inv n maxPayload input (addTo i s rows) out
      ({ r with intake := b, wakeup := true }.setLane i
        ⟨c', if !s.isTerminal then .reading .start else .leaving⟩) := by
  have hi := h.lt hl
  cases hread with
  | done isOpen wf le tape ended =>
  have hset : ∀ e, Phase.failing e ∈ r.phases →
      Phase.failing e ∈ (r.setLane i
        ⟨c', if !s.isTerminal then .reading .start else .leaving⟩).phases :=
    fun e he => (failing_mem_setLane hl (by simp)).2 (.inr he)
  exact
    { size := by simpa using h.size
      limit := h.limit
      segments := by
        intro j u hu
        rcases mem_addTo.1 hu with hu | ⟨rfl, rfl⟩
        · exact h.segments j u hu
        · exact ⟨wf, le, hb.control⟩
      few := by
        intro j u hu
        rcases mem_addTo.1 hu with hu | ⟨rfl, rfl⟩
        · exact h.few j u hu
        · exact hb.few
      lanes := by
        refine h.lanes_set (fun j hj => addTo_of_ne hj s rows) ?_
        -- the lane goes on behind the segment, or ends with it
        rw [addTo_self]
        cases ht : s.isTerminal with
        | false =>
          refine .reading (Decoder.valid_start _) ((isOpen.add s).1 ht) ?_
            ended
          simpa using tape
        | true =>
          exact .left (.inl rfl) (.inl ⟨(isOpen.add s).2 ht, tape⟩)
      unstarted := fun hm => absurd (hmode.symm.trans hm) (by simp)
      acks := by
        intro j hj
        rw [ended_addTo isOpen]
        rcases (hb.acks j).1 hj with hj | hlast
        · exact (h.acks j hj).imp_right .inl
        · exact ⟨hlast.2 ▸ hi, .inr hlast⟩
      nodup := hb.nodup h.nodup
      announced := by
        intro ht
        rcases hb.total_eq ht with ⟨hc, _⟩ | ⟨_, ht⟩
        · exact ⟨i, hi, s, by simp, hc⟩
        · obtain ⟨j, hj, u, hu, huc⟩ := h.announced ht
          exact ⟨j, hj, u, mem_addTo.2 (.inl hu), huc⟩
      mismatch := by
        intro total ht hne
        rcases hb.total_eq ht with ⟨_, heq⟩ | ⟨_, ht⟩
        · exact absurd heq.symm hne
        · exact (h.mismatch total ht hne).imp_right (hset _)
      halted := h.halted
      queued := by
        intro u hu
        rcases hb.queued u hu with ⟨rfl, hne⟩ | hu
        · exact hne
        · exact h.queued u hu
      stored := by
        intro hc mode' hmode'
        obtain rfl : mode = mode' :=
          Option.some.inj (hmode.symm.trans hmode')
        exact (hb.stored _ _ (h.stored hc mode hmode)).perm
          (pieces_addTo hi s rows).symm
      acked := fun hc j hj hend => (hb.acks j).2
        (((ended_addTo isOpen).1 hend).imp_left (h.acked hc j hj))
      counted := by
        intro hc j hj u hu huc
        show b.transmission.eodTotal = some n
        rw [hb.total]
        rcases mem_addTo.1 hu with hu | ⟨rfl, rfl⟩
        · have hold := h.counted hc j hj u hu huc
          split
          · rfl
          · exact hold
        · rw [if_pos huc]
      stats := by
        intro hu
        have hold := h.stats ⟨hu.1, fun e he => hu.2 e (hset e he)⟩
        show b.stats = _
        rw [hb.stats, Stats.tally_addTo hi (isEmpty_of_control wf), ← hold]
        rfl
      live := by
        intro hc hm
        have hcount := countP_setLane hl
          ⟨c', if !s.isTerminal then .reading .start else .leaving⟩
        have hne : (if !s.isTerminal then Phase.reading .start
            else .leaving) ≠ .gone := by
          split <;> simp
        have hold : Phase.reading d ≠ .gone := by simp
        dsimp only at hcount
        rw [if_neg hold, if_neg hne] at hcount
        exact (h.live hc hm).trans (Nat.add_right_cancel hcount).symm
      calling := h.calling.wake rfl (Nat.le_refl _) rfl rfl rfl }

/-- A worker has read a segment, and it was refused. -/
theorem Inv.refuse (h : Inv n maxPayload input rows out r) {i : Nat}
    {c c' : Inlet} {d : Decoder} {s : Segment} {mode : Mode} {e : Error}
    (hl : r.lanes[i]? = some ⟨c, .reading d⟩) (hmode : r.mode = some mode)
    (hf : Follows maxPayload (input i) (rows i) r.cancelled
      ⟨c', .failing e⟩) {b : Intake}
    (hb : Intake.Accepts n i mode s r.intake (.error e) b) :
    Inv n maxPayload input rows out
      ({ r with intake := b }.setLane i ⟨c', .failing e⟩) := by
  have hrelane := h.relane hl hf (.inl (by simp)) (by simp)
  have hmem : Phase.failing e ∈ (r.setLane i ⟨c', .failing e⟩).phases :=
    (failing_mem_setLane hl (by simp)).2 (.inl rfl)
  have hcalling : ({ r with intake := b }.setLane i
      ⟨c', .failing e⟩).Calling :=
    ⟨h.calling.max_pos, h.calling.mode, h.calling.collecting,
      h.calling.taking, h.calling.waiting⟩
  have hstarted : r.mode ≠ none := by simp [hmode]
  obtain ⟨t, st⟩ := b
  cases hb with
  | refused kept =>
    obtain rfl := kept
    exact
      { hrelane with
        unstarted := fun hm => absurd hm hstarted
        stats := fun hu => absurd hmem (hu.2 e)
        calling := hcalling }
  | @mismatch _ total ne free noted =>
    -- the number is noted, and the worker is to record that it is wrong
    obtain rfl := noted
    exact
      { hrelane with
        unstarted := fun hm => absurd hm hstarted
        announced := fun ht => absurd (Option.some.inj ht) ne
        mismatch := by
          intro total' ht _
          obtain rfl := Option.some.inj ht
          exact .inr hmem
        stored := fun hc mode' hm => (h.stored hc mode' hm).noted _ _
        counted := by
          intro hc j hj u hu huc
          have ht := h.counted hc j hj u hu huc
          rcases free with hfree | hfree
          · cases ht.symm.trans hfree
          · exact absurd (Option.some.inj (ht.symm.trans hfree)).symm ne
        stats := fun hu => absurd hmem (hu.2 _)
        calling := hcalling }

/-- **A move of a worker.** -/
theorem Inv.work (h : Inv n maxPayload input rows out r) {i : Nat}
    {r' : Reader} (hw : r.work i = some r') :
    ∃ rows', (∀ j, rows j <+: rows' j) ∧
      Inv n maxPayload input rows' out r' := by
  obtain ⟨mode, hmode, hcase⟩ := work_cases hw
  have hconn : r.connections = n := h.size
  cases hcase with
  | @stop c d lane stopped =>
    have hf := h.lanes i _ lane
    exact ⟨rows, fun _ => ⟨[], by simp⟩, h.relane lane
      (.left (.inl rfl) (.inr ⟨hf.of_reading.2.1, stopped, hf.front⟩))
      (.inl (by simp)) (by simp)⟩
  | @more c c' d d' lane going advance =>
    rw [h.limit] at advance
    cases (h.lanes i _ lane).read advance with
    | more follows =>
      exact ⟨rows, fun _ => ⟨[], by simp⟩,
        h.relane lane follows (.inl (by simp)) (by simp)⟩
  | @broken c c' d e lane going advance =>
    rw [h.limit] at advance
    cases (h.lanes i _ lane).read advance with
    | failed follows =>
      exact ⟨rows, fun _ => ⟨[], by simp⟩,
        h.relane lane follows (.inl (by simp)) (by simp)⟩
  | @refused c c' d s e lane going advance result =>
    rw [h.limit] at advance
    rw [hconn] at result ⊢
    have hread := (h.lanes i _ lane).read advance
    cases hread with
    | done isOpen wf le tape ended =>
      have hacc : Intake.Accepts n i mode s r.intake _ _ :=
        Intake.accept_spec (isEmpty_of_control wf)
      rw [result] at hacc
      exact ⟨rows, fun _ => ⟨[], by simp⟩, h.refuse lane hmode
        (.failing isOpen (h.lanes i _ lane).front) hacc⟩
  | @filed c c' d s more lane going advance result =>
    rw [h.limit] at advance
    rw [hconn] at result ⊢
    have hread := (h.lanes i _ lane).read advance
    cases hread with
    | done isOpen wf le tape ended =>
      have hacc : Intake.Accepts n i mode s r.intake _ _ :=
        Intake.accept_spec (isEmpty_of_control wf)
      rw [result] at hacc
      cases hacc with
      | filed files =>
        refine ⟨addTo i s rows, fun j => ?_, h.file lane hmode
          (.done isOpen wf le tape ended) files⟩
        by_cases hj : j = i
        · subst hj
          exact ⟨[s], (addTo_self ..).symm⟩
        · exact ⟨[], by simp [addTo_of_ne hj]⟩
  | @record c e lane =>
    have hhalt := h.halt (some (r.failure.getD e)) (fun _ => rfl) r.call
      (.inr rfl) true r.answer r.delivered
    have hf := h.lanes i _ lane
    refine ⟨rows, fun _ => ⟨[], by simp⟩,
      hhalt.relane lane ?_ (.inr rfl) (by simp)⟩
    cases hf with
    | failing isOpen tape =>
      exact .left (.inl rfl) (.inr ⟨isOpen, rfl, tape⟩)
    | left past why => rcases past with hp | hp <;> cases hp
  | leave lane => exact ⟨rows, fun _ => ⟨[], by simp⟩, h.leave lane⟩

/-! ## Calls -/

/-- Bytes were taken out of the stream, or were looked for. -/
theorem Inv.take (h : Inv n maxPayload input rows out r)
    (hm : r.mode ≠ none) {t : Transmission} {out' : Bytes}
    (hframe : t = { r.transmission with
      queue := t.queue, cursor := t.cursor })
    (hq : ∀ u ∈ t.queue.segments, u.payload ≠ [])
    (hs : r.cancelled = false → ∀ mode, r.mode = some mode →
      Stored mode (pieces n rows) out' t) :
    Inv n maxPayload input rows out'
      { r with intake := { r.intake with transmission := t } } := by
  generalize t.queue = q at hframe hq
  generalize t.cursor = c at hframe
  subst hframe
  exact
    { h with
      unstarted := fun hm' => absurd hm' hm
      queued := hq
      stored := hs
      calling := ⟨h.calling.max_pos, h.calling.mode, h.calling.collecting,
        h.calling.taking, h.calling.waiting⟩ }

/-- A call goes on, or is over. -/
theorem Inv.recall (h : Inv n maxPayload input rows out r)
    (call : Option Call) (wakeup : Bool) (answer : Option Answer)
    (delivered : Nat) (hm : r.mode = none → call = none)
    (hc : ({ r with call, wakeup, answer, delivered } : Reader).Calling) :
    Inv n maxPayload input rows out
      { r with call, wakeup, answer, delivered } :=
  { h with
    unstarted := fun hmode =>
      have ⟨hi, hr, ho, _⟩ := h.unstarted hmode
      ⟨hi, hr, ho, hm hmode⟩
    calling := hc }

/-- Without a call, the reader does not collect. -/
theorem Calling.idle (hc : r.call = none)
    (hm : r.cancelled = false → r.mode ≠ some .collect) : r.Calling where
  max_pos := by simp [hc]
  mode := by simp [hc]
  collecting := fun hs hcol => absurd hcol (hm hs)
  taking := by simp [hc]
  waiting := by simp [hc]

/-- A call is at a stage that fits what its workers do. -/
theorem Calling.of_call {task : Task} {stage : Stage}
    (hc : r.call = some ⟨task, stage⟩)
    (hpos : ∀ max, task = .stream (.upTo max) → 0 < max)
    (hm : r.cancelled = false → r.mode = some task.mode)
    (taking : ∀ live, stage = .taking live →
      r.live ≤ live ∧ (r.live < live → r.wakeup = true))
    (waiting : stage = .waiting → r.cancelled = false →
      r.wakeup = false → 0 < r.live) : r.Calling where
  max_pos := by
    intro max stage' he
    rw [hc] at he
    cases he
    exact hpos max rfl
  mode := by
    intro hs task' stage' he
    rw [hc] at he
    cases he
    exact hm hs
  collecting := by
    intro hs hcol
    cases task with
    | stream extent =>
      exact absurd (hcol.symm.trans (hm hs)) (by simp [Task.mode])
    | collect => exact ⟨_, hc⟩
  taking := by
    intro _ task' live he
    rw [hc] at he
    cases he
    exact taking live rfl
  waiting := by
    intro hs task' he
    rw [hc] at he
    cases he
    exact waiting rfl hs

/-- A call is about to look. -/
theorem Calling.looking {task : Task}
    (hc : r.call = some ⟨task, .looking⟩)
    (hpos : ∀ max, task = .stream (.upTo max) → 0 < max)
    (hm : r.cancelled = false → r.mode = some task.mode) : r.Calling :=
  .of_call hc hpos hm nofun nofun

theorem Inv.started (h : Inv n maxPayload input rows out r) {call : Call}
    (hc : r.call = some call) : r.mode ≠ none := by
  intro hm
  have hnone := (h.unstarted hm).2.2.2
  rw [hc] at hnone
  cases hnone

/-- What fits the task of a call in flight. -/
theorem Inv.fits (h : Inv n maxPayload input rows out r) {task : Task}
    {stage : Stage} (hc : r.call = some ⟨task, stage⟩) :
    (∀ max, task = .stream (.upTo max) → 0 < max) ∧
      (r.cancelled = false → r.mode = some task.mode) := by
  refine ⟨fun max he => ?_, fun hs => h.calling.mode hs task stage hc⟩
  subst he
  exact h.calling.max_pos max stage hc

theorem giveUp_eq (task : Task) (hc : r.cancelled = true) :
    ∃ answer, r.giveUp task =
      { r with cancelled := true, call := none, answer } := by
  simp [giveUp, conclude, hc]

/-- A call of a stopped reader is over. -/
theorem Inv.giveUp (h : Inv n maxPayload input rows out r)
    (hc : r.cancelled = true) (task : Task) :
    Inv n maxPayload input rows out (r.giveUp task) := by
  obtain ⟨answer, he⟩ := giveUp_eq task hc
  rw [he]
  exact h.halt r.failure id none (.inl rfl) r.wakeup answer r.delivered

/-- A failure is recorded. -/
theorem Inv.fail (h : Inv n maxPayload input rows out r) (e : Error) :
    Inv n maxPayload input rows out (r.fail e) :=
  h.halt _ (fun _ => rfl) r.call (.inr rfl) true r.answer r.delivered

/-- A call sees how many workers are left, and looks. -/
theorem Inv.look (h : Inv n maxPayload input rows out r) {task : Task}
    (hc : r.call = some ⟨task, .looking⟩) :
    Inv n maxPayload input rows out (r.setStage task (.taking r.live)) := by
  obtain ⟨hpos, hmode⟩ := h.fits hc
  refine h.recall _ r.wakeup r.answer r.delivered
    (fun hm => absurd hm (h.started hc))
    (.of_call rfl hpos hmode ?_ nofun)
  rintro live ⟨⟩
  exact ⟨Nat.le_refl _, fun hlt => absurd hlt (Nat.lt_irrefl _)⟩

/-- A call waits: it has found nothing, and some worker was left. -/
theorem Inv.wait (h : Inv n maxPayload input rows out r) {task : Task}
    {live : Nat} (hc : r.call = some ⟨task, .taking live⟩)
    (hl : live ≠ 0) :
    Inv n maxPayload input rows out (r.setStage task .waiting) := by
  obtain ⟨hpos, hmode⟩ := h.fits hc
  refine h.recall _ r.wakeup r.answer r.delivered
    (fun hm => absurd hm (h.started hc))
    (.of_call rfl hpos hmode nofun ?_)
  intro _ hs hw
  obtain ⟨hle, hlt⟩ := h.calling.taking hs task live hc
  show 0 < r.live
  -- no worker has left since the call has looked
  have heq : ¬ r.live < live := fun hlt' => by
    have hw : r.wakeup = false := hw
    rw [hlt hlt'] at hw
    cases hw
  omega

/-- A call that was woken, or finds the reader stopped, looks again. -/
theorem Inv.again (h : Inv n maxPayload input rows out r) {task : Task}
    (hc : r.call = some ⟨task, .waiting⟩) (wakeup : Bool) :
    Inv n maxPayload input rows out
      ({ r with wakeup }.setStage task .looking) := by
  obtain ⟨hpos, hmode⟩ := h.fits hc
  exact h.recall _ wakeup r.answer r.delivered
    (fun hm => absurd hm (h.started hc)) (.looking rfl hpos hmode)

/-- The collected message is taken, and the reader is used up. -/
theorem Inv.takeMessage (h : Inv n maxPayload input rows out r)
    (hm : r.mode ≠ none) : Inv n maxPayload input rows out r.takeMessage := by
  have hhalt (answer : Option Answer) (delivered : Nat) :=
    h.halt r.failure id none (.inl rfl) r.wakeup answer delivered
  have hfresh (answer : Option Answer) (delivered : Nat) :
      Inv n maxPayload input rows out
        { r with
          intake := { r.intake with transmission := .fresh }
          cancelled := true, call := none, answer, delivered } :=
    { hhalt answer delivered with
      unstarted := fun hm' => absurd hm' hm
      acks := by intro j hj; cases hj
      nodup := .nil
      announced := by intro ht; cases ht
      mismatch := by intro total ht; cases ht
      queued := by intro u hu; cases hu
      stored := fun hc => absurd hc (by simp)
      acked := fun hc => absurd hc (by simp)
      counted := fun hc => absurd hc (by simp)
      calling := ⟨by simp, by simp, by simp, by simp, by simp⟩ }
  rcases takeMessage_cases r with ⟨e, _, he⟩ | ⟨m, _, he⟩
  · exact he ▸ hfresh _ _
  · exact he ▸ hfresh _ _

/-! ### Looking for bytes of the stream -/

/-- A reader that streams does not collect. -/
theorem Inv.streaming (h : Inv n maxPayload input rows out r)
    {extent : Extent} {stage : Stage}
    (hc : r.call = some ⟨.stream extent, stage⟩)
    (hs : r.cancelled = false) : r.mode ≠ some .collect := by
  rw [(h.fits hc).2 hs]
  simp [Task.mode]

/-- The bytes that a call takes are moved from the queue to `out`. -/
theorem Inv.taken (h : Inv n maxPayload input rows out r)
    {extent : Extent} {live : Nat} {d : Delivery} {t : Transmission}
    (hc : r.call = some ⟨.stream extent, .taking live⟩)
    (hn : r.transmission.nextDelivery extent.max = (.ok d, t)) :
    Inv n maxPayload input rows (out ++ r.handed .advance) (r.keep t) := by
  have hd := delivers_nextDelivery extent.max r.transmission
  rw [hn] at hd
  have hh : r.handed .advance = Transmission.handed (.ok d) := by
    simp [Reader.handed, hc, hn]
  rw [hh]
  refine h.take (h.started hc) hd.frame (hd.queued h.queued) ?_
  intro hs mode hm
  obtain rfl : mode = .stream :=
    Option.some.inj (hm.symm.trans ((h.fits hc).2 hs))
  have hst : Streams (pieces n rows) out r.transmission := h.stored hs _ hm
  have hspec := next_spec hst extent.max
  rw [hn] at hspec
  cases hspec with
  | finished completed empty tiles =>
    simp only [Transmission.handed, List.append_nil]
    exact hst
  | pending =>
    simp only [Transmission.handed, List.append_nil]
    exact hst
  | ready pos le streams => exact streams

/-- The call hands out bytes, and goes on unless they were all that it is
about. -/
theorem Inv.handsOut (h : Inv n maxPayload input rows out r)
    {extent : Extent} {stage : Stage}
    (hc : r.call = some ⟨.stream extent, stage⟩) (bs : Bytes) :
    Inv n maxPayload input rows out (r.handOut extent bs) := by
  have hlook {extent' : Extent} (delivered : Nat)
      (hpos : ∀ max, extent' ≠ .upTo max) :=
    h.recall (some ⟨.stream extent', .looking⟩) r.wakeup r.answer delivered
      (fun hm => absurd hm (h.started hc))
      (.looking rfl (fun max he => absurd (Task.stream.inj he) (hpos max))
        (h.fits hc).2)
  cases extent with
  | upTo max =>
    exact h.recall none r.wakeup _ _ (fun _ => rfl)
      (.idle rfl (h.streaming hc))
  | toEnd out' count => exact hlook _ nofun
  | remainder out' => exact hlook _ nofun

/-- The stream is at its end. -/
theorem Inv.concludes (h : Inv n maxPayload input rows out r)
    {extent : Extent} {stage : Stage}
    (hc : r.call = some ⟨.stream extent, stage⟩) :
    Inv n maxPayload input rows out (r.concludeStream extent) := by
  have hidle (answer : Option Answer) :=
    h.recall none r.wakeup answer r.delivered (fun _ => rfl)
      (.idle rfl (h.streaming hc))
  cases extent with
  | upTo max => exact hidle _
  | toEnd out' count => exact hidle _
  | remainder out' =>
    exact h.halt r.failure id none (.inl rfl) r.wakeup _ r.delivered

/-- **A move of the call.** -/
theorem Inv.advance (h : Inv n maxPayload input rows out r) {r' : Reader}
    (ha : r.advance = some r') :
    Inv n maxPayload input rows (out ++ r.handed .advance) r' := by
  have hnone (hh : r.handed .advance = []) :
      Inv n maxPayload input rows (out ++ r.handed .advance) r := by
    rw [hh, List.append_nil]
    exact h
  cases advance_cases ha with
  | @stop task call stopped =>
    exact (hnone (by simp [Reader.handed, call])).giveUp stopped task
  | look call going => exact (hnone (by simp [Reader.handed, call])).look call
  | message call completed =>
    exact (hnone (by simp [Reader.handed, call])).takeMessage
      (h.started call)
  | hole call completed nobody =>
    exact ((hnone (by simp [Reader.handed, call])).fail _).giveUp rfl _
  | collecting call completed somebody =>
    exact (hnone (by simp [Reader.handed, call])).wait call somebody
  | @broken extent live e t call next =>
    have hd := delivers_nextDelivery extent.max r.transmission
    rw [next] at hd
    have hfail := (hnone (by
      simp [Reader.handed, call, next, Transmission.handed])).fail e
    exact (hfail.take (h.started call) hd.frame (hd.queued h.queued)
      (fun hs => absurd hs (by simp [Reader.fail]))).giveUp rfl _
  | ready call next => exact (h.taken call next).handsOut call _
  | finished call next => exact (h.taken call next).concludes call
  | gap call next nobody =>
    exact ((h.taken call next).fail _).giveUp rfl _
  | pending call next somebody => exact (h.taken call next).wait call somebody
  | wake call woken =>
    exact (hnone (by simp [Reader.handed, call])).again call false
  | stir call stopped =>
    exact (hnone (by simp [Reader.handed, call])).again call r.wakeup

/-! ## Beginning a call -/

theorem start_eq (hm : r.mode = none) (hi : r.transmission = .fresh)
    (mode : Mode) : ∃ capacity, r.start mode =
      { r with
        mode := some mode
        live := r.connections
        intake := { r.intake with transmission := .withCapacity capacity } } := by
  simp only [start, hm]
  cases mode with
  | stream => exact ⟨_, by rw [hi]; rfl⟩
  | collect => exact ⟨_, rfl⟩

/-- Before the first call no connection was let go, unless the reader was
stopped. -/
theorem Inv.all_present (h : Inv n maxPayload input rows out r)
    (hm : r.mode = none) (hc : r.cancelled = false) :
    r.phases.countP (· != .gone) = r.connections := by
  rw [connections, ← length_phases, List.countP_eq_length]
  intro phase hp
  obtain ⟨lane, hl, rfl⟩ := List.mem_map.1 hp
  obtain ⟨i, hi⟩ := List.getElem?_of_mem hl
  have hf := h.lanes i lane hi
  rw [(h.unstarted hm).2.1 i, hc] at hf
  cases hf with
  | reading valid isOpen tape ended => simp
  | failing isOpen tape => simp
  | left past why =>
    rcases why with ⟨hend, _⟩ | ⟨_, hstop, _⟩
    · exact absurd hend open_nil.not_ended
    · cases hstop

/-- A call begins. The first one starts the workers. -/
theorem Inv.begin (h : Inv n maxPayload input rows out r) (task : Task)
    (hpos : ∀ max, task = .stream (.upTo max) → 0 < max)
    (hmode : r.cancelled = false → r.mode = none ∨ r.mode = some task.mode) :
    Inv n maxPayload input rows out
      ((r.start task.mode).setStage task .looking) := by
  cases hm : r.mode with
  | some mode =>
    have hstart : r.start task.mode = r := by simp only [start, hm]
    rw [hstart]
    refine h.recall _ r.wakeup r.answer r.delivered (by simp [hm])
      (.looking rfl hpos fun hs => ?_)
    rcases hmode hs with hno | hyes
    · simp [hm] at hno
    · exact hyes
  | none =>
    obtain ⟨hi, hrows, hout, _⟩ := h.unstarted hm
    obtain ⟨capacity, hstart⟩ := start_eq hm (by rw [transmission, hi])
      task.mode
    obtain rfl : rows = fun _ => [] := funext hrows
    have hnil : pieces n (fun _ => []) = [] := by simp [pieces, dataOf]
    rw [hstart, hout]
    exact
      { h with
        unstarted := fun hm' => by cases hm'
        acks := by intro j hj; cases hj
        nodup := .nil
        announced := by intro ht; cases ht
        mismatch := by intro total ht; cases ht
        queued := by intro u hu; cases hu
        stored := by
          intro _ mode _
          rw [hnil]
          exact stored_withCapacity mode capacity
        acked := fun _ j _ hend => absurd hend open_nil.not_ended
        counted := by intro _ j _ u hu; cases hu
        live := fun hs _ => (h.all_present hm hs).symm
        calling := .looking rfl hpos fun _ => rfl }

theorem Inv.not_collecting (h : Inv n maxPayload input rows out r)
    (hcall : r.call = none) (hc : r.cancelled = false) :
    r.mode = none ∨ r.mode = some .stream := by
  match hm : r.mode with
  | none => exact .inl rfl
  | some .stream => exact .inr rfl
  | some .collect =>
    obtain ⟨stage, he⟩ := h.calling.collecting hc hm
    rw [hcall] at he
    cases he

/-- What an event asks for fits the way that the reader goes. -/
theorem Inv.asked (h : Inv n maxPayload input rows out r)
    (hidle : r.call = none) {e : Event} {task : Task}
    (ha : r.Asks e task) :
    (∀ max, task = .stream (.upTo max) → 0 < max) ∧
      (r.cancelled = false →
        r.mode = none ∨ r.mode = some task.mode) := by
  cases ha with
  | read pos =>
    refine ⟨?_, h.not_collecting hidle⟩
    rintro max ⟨⟩
    exact pos
  | readToEnd => exact ⟨nofun, h.not_collecting hidle⟩
  | rest streams => exact ⟨nofun, h.not_collecting hidle⟩
  | message free =>
    exact ⟨nofun, fun hs => .inl
      ((h.not_collecting hidle hs).resolve_right free)⟩

/-- A call is let go that does not use the reader up. -/
theorem Inv.abandon (h : Inv n maxPayload input rows out r) {call : Call}
    (hc : r.call = some call) (keeps : call.task.usesUp = false) :
    Inv n maxPayload input rows out { r with call := none } := by
  obtain ⟨task, stage⟩ := call
  refine h.recall none r.wakeup r.answer r.delivered (fun _ => rfl)
    (.idle rfl fun hs => ?_)
  cases task with
  | stream extent => exact h.streaming hc hs
  | collect => cases keeps

/-! ## All events -/

/-- **Everything that can happen keeps the invariant.** -/
theorem Inv.step (h : Inv n maxPayload input rows out r) {e : Event}
    {r' : Reader} (hs : r.step e = some r') :
    ∃ rows', (∀ j, rows j <+: rows' j) ∧
      Inv n maxPayload (fun i => e.brings i (input i)) rows'
        (out ++ r.handed e) r' := by
  -- an event that takes nothing out of the stream
  have hstill {rows' : Nat → List Segment} (hne : e ≠ .advance)
      (hle : ∀ j, rows j <+: rows' j)
      (h' : Inv n maxPayload (fun i => e.brings i (input i)) rows' out r') :
      ∃ rows', (∀ j, rows j <+: rows' j) ∧
        Inv n maxPayload (fun i => e.brings i (input i)) rows'
          (out ++ r.handed e) r' := by
    refine ⟨rows', hle, ?_⟩
    rw [handed_of_ne r hne, List.append_nil]
    exact h'
  have hsame : ∀ j, rows j <+: rows j := fun _ => List.prefix_rfl
  cases step_cases hs with
  | work work =>
    obtain ⟨rows', hle, hinv⟩ := h.work work
    exact hstill (by simp) hle hinv
  | advance advance => exact ⟨rows, hsame, h.advance advance⟩
  | nothing idle =>
    refine hstill (by simp) hsame (h.recall none r.wakeup _ r.delivered
      (fun _ => rfl) (.idle rfl fun hs hcol => ?_))
    rcases h.not_collecting idle hs with hm | hm
    · cases hcol.symm.trans hm
    · cases hcol.symm.trans hm
  | begin idle asks =>
    obtain ⟨hpos, hmode⟩ := h.asked idle asks
    have hbegin := h.begin _ hpos hmode
    refine hstill (by rintro rfl; cases asks) hsame ?_
    simpa only [asks.brings] using hbegin
  | abandon busy keeps =>
    exact hstill (by simp) hsame (h.abandon busy keeps)
  | forsake busy uses => exact hstill (by simp) hsame h.drop
  | cancel =>
    exact hstill (by simp) hsame
      (h.halt r.failure id r.call (.inr rfl) true r.answer r.delivered)
  | drop => exact hstill (by simp) hsame h.drop
  | @arrive e i f arrives =>
    have harrive := h.arrive i arrives.grows
    refine hstill (by rintro rfl; cases arrives) hsame ?_
    simpa only [arrives.brings] using harrive

end Preservation

/-- **The invariant holds in every reachable state**, whatever arrives and
whatever is done. -/
theorem inv_run {n : Nat} {config : Config} {r₀ r : Reader}
    (hmake : make n config = .ok r₀) {es : List Event}
    (hrun : run step r₀ es = some r) :
    ∃ rows out, Inv n config.maxPayloadLen (arrived es) rows out r := by
  suffices hall : ∀ (es : List Event) (r₀ : Reader) (input : Nat → Inlet)
      (rows : Nat → List Segment) (out : Bytes),
      Inv n config.maxPayloadLen input rows out r₀ →
      run step r₀ es = some r → ∃ rows out, Inv n config.maxPayloadLen
        (fun i => es.foldl (fun c e => e.brings i c) (input i)) rows out r
    from hall es r₀ _ _ _ (inv_make hmake) hrun
  intro es
  induction es with
  | nil =>
    intro r₀ input rows out h hrun
    cases hrun
    exact ⟨rows, out, h⟩
  | cons e es ih =>
    intro r₀ input rows out h hrun
    obtain ⟨r₁, hstep, hrest⟩ := Option.bind_eq_some_iff.1 hrun
    obtain ⟨rows', _, h'⟩ := h.step hstep
    exact ih r₁ _ rows' _ h' hrest

end Stripe.Reader
