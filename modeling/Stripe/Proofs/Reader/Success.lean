import Stripe.Proofs.Reader.Ending
import Stripe.Proofs.Reader.Progress

/-!
# Good inputs are received

A reader whose connections bring what is good never fails, whatever comes
first. The segments that are filed are those of the inputs, one after the
other (`Follows.next_segment`), none of them is refused
(`Inv.filed`), and what the calls find is what they need to go on
(`Inv.next_bytes`). `Fares` collects this, and every event keeps it
(`Fares.step`). When nothing can move any more, the call in flight is over
(`Fares.quiet`).
-/

namespace Stripe.Reader

open Segment Transmission

/-! ## Workers -/

/-- A row that is not ended is followed by one more segment. -/
theorem next_of_open {row plan : List Segment} (hopen : Open row)
    (hplan : Ended plan) (h : row <+: plan) :
    ∃ s more, plan = row ++ s :: more := by
  obtain ⟨back, rfl⟩ := h
  cases back with
  | nil =>
    rw [List.append_nil] at hplan
    exact absurd hplan hopen.not_ended
  | cons s more => exact ⟨s, more, rfl⟩

/-- **What a worker reads of a good connection** is a part of the next
segment, or completes it. -/
theorem Follows.next_segment {id maxPayload : Nat} {input whole : Inlet}
    {row plan : List Segment} {stopped : Bool} {c c' : Inlet}
    {d : Decoder} {p : Decoder.Progress}
    (h : Follows maxPayload input row stopped ⟨c, .reading d⟩)
    (hwf : ∀ s ∈ row, s.WellFormed) (hbefore : input.Before whole)
    (hcarries : Carries maxPayload whole plan)
    (hadv : d.advance id maxPayload c = some (p, c')) :
    (∃ d', p = .more d') ∨
      ∃ s more, p = .done s ∧ plan = row ++ s :: more := by
  have hfront := h.front
  obtain ⟨valid, isOpen, tape, ended⟩ := h.of_reading
  obtain ⟨s, more, rfl⟩ := next_of_open isOpen hcarries.ended
    (hcarries.front hwf (.inl isOpen) (hfront.trans hbefore.front))
  have hs : s.WellFormed := hcarries.wf s (by simp)
  -- what the decoder holds and what comes after it make up the segment
  obtain ⟨later, hlater⟩ := hbefore.front
  obtain ⟨rest, hrest⟩ := hcarries.tape
  have hall : Tape.clean d.held ++ (c.tape ++ later) =
      Tape.clean s.encode ++ (Tape.clean (encodeAll more) ++ rest) := by
    rw [tape, hrest] at hlater
    simpa using hlater
  cases Decoder.advance_front valid hs (hcarries.le s (by simp)) hall hadv with
  | more valid' front ended' weight => exact .inl ⟨_, rfl⟩
  | done tape' ended' weight => exact .inr ⟨_, _, rfl, rfl⟩
  | cut htape hended _ _ =>
    -- everything has arrived, so nothing comes after it
    have hwhole := hbefore.whole (ended.trans hended)
    rw [hwhole] at hlater
    obtain rfl : later = [] := by simpa using hlater
    obtain ⟨missing, hne, hmissing⟩ := Decoder.held_front valid hs hall
    simp only [htape, List.append_nil] at hmissing
    obtain ⟨hnil, _⟩ := List.append_eq_nil_iff.1 hmissing.symm
    exact absurd (Tape.clean_eq_nil.1 hnil) hne

/-- What has arrived is the beginning of inputs that make a transfer of
`message` by the segments `plan`. -/
structure Promises (n maxPayload : Nat) (input : Nat → Inlet)
    (plan : Nat → List Segment) (message : Bytes) : Prop where
  /-- The number of connections can be announced. -/
  few : n < Intake.countLimit
  /-- The message fits into memory. -/
  size : message.length ≤ maxCount
  whole : ∃ inputs, Yields n maxPayload inputs plan message ∧
    ∀ i < n, (input i).Before (inputs i)

section Success

variable {n maxPayload : Nat} {input : Nat → Inlet}
  {rows plan : Nat → List Segment} {out message : Bytes} {r r' : Reader}

/-- The segments that were filed are the first ones of the inputs. -/
theorem Inv.front (h : Inv n maxPayload input rows out r)
    (hp : Promises n maxPayload input plan message) {i : Nat} (hi : i < n) :
    rows i <+: plan i := by
  obtain ⟨inputs, hyields, hbefore⟩ := hp.whole
  obtain ⟨lane, hlane⟩ := h.lane_of_lt hi
  have hf := h.lanes i lane hlane
  exact (hyields.carries i hi).front (fun s hs => (h.segments i s hs).1)
    hf.open_or_ended (hf.front.trans (hbefore i hi).front)

theorem Inv.ended_iff (h : Inv n maxPayload input rows out r)
    (hp : Promises n maxPayload input plan message) {i : Nat} (hi : i < n) :
    Ended (rows i) ↔ rows i = plan i := by
  obtain ⟨inputs, hyields, _⟩ := hp.whole
  have hplan := (hyields.carries i hi).ended
  refine ⟨fun hend => ?_, fun he => he ▸ hplan⟩
  exact hend.eq_of_front (.inr hplan) (h.front hp hi)

/-- Segments at the front of those of good inputs are promised the
others. -/
theorem Promises.promised (hp : Promises n maxPayload input plan message)
    (hfront : ∀ i < n, rows i <+: plan i) :
    ∃ future, Tiles (pieces n rows ++ future) message ∧
      ((∀ i < n, rows i = plan i) → future = []) ∧
      Promised (pieces n rows) future := by
  obtain ⟨inputs, hyields, _⟩ := hp.whole
  obtain ⟨future, hperm⟩ := pieces_of_front hfront
  obtain ⟨row, hrow, hchain, hjoined⟩ := hyields.tiles
  refine ⟨future, hyields.tiles.perm hperm, fun heq => ?_, row, hchain,
    (hrow.trans hperm).symm, ?_⟩
  · have hlen := hperm.length_eq
    rw [pieces_congr heq, List.length_append] at hlen
    exact List.eq_nil_of_length_eq_zero (by omega)
  · rw [hjoined]
    exact hp.size

/-- **The next segment of a good connection is filed.** -/
theorem Inv.filed (h : Inv n maxPayload input rows out r)
    (hp : Promises n maxPayload input plan message) (hu : r.Unharmed)
    (hgo : r.cancelled = false) {mode : Mode} (hmode : r.mode = some mode)
    {i : Nat} (hi : i < n) {s : Segment} {more : List Segment}
    (hplan : plan i = rows i ++ s :: more) :
    (r.intake.accept n i mode s).1 = .ok !s.isTerminal := by
  obtain ⟨inputs, hyields, _⟩ := hp.whole
  have hmem : s ∈ plan i := by rw [hplan]; simp
  have hfront (j : Nat) (hj : j < n) : addTo i s rows j <+: plan j := by
    by_cases hji : j = i
    · subst hji
      rw [addTo_self, hplan]
      exact ⟨more, by simp⟩
    · rw [addTo_of_ne hji]
      exact h.front hp hj
  obtain ⟨future, _, _, row, hchain, hperm, hsize⟩ := hp.promised hfront
  have hnext (hs : s.payload ≠ []) :
      Promised (pieces n rows) (s :: future) := by
    refine ⟨row, hchain, .trans ?_ hperm, hsize⟩
    have hdata : dataOf [s] = [s] := by
      simp [dataOf_singleton, isEmpty, hs]
    have hadd := pieces_addTo hi s rows
    rw [hdata] at hadd
    simpa using (hadd.append_right future).symm
  exact Intake.accept_of_good hp.few (hyields.control i hi s hmem)
    (fun total ht => h.total hu ht) (h.stored hgo mode hmode)
    fun _ hs => hnext hs

/-! ## Calls -/

/-- A reader with good inputs is complete when no worker is left, and
exactly when everything was filed. -/
theorem Inv.complete_of_all (h : Inv n maxPayload input rows out r)
    (hp : Promises n maxPayload input plan message)
    (hgo : r.cancelled = false) (hall : ∀ i < n, Ended (rows i)) :
    r.completed = true := by
  obtain ⟨inputs, hyields, _⟩ := hp.whole
  obtain ⟨i, hi, s, hs, hc⟩ := hyields.announced
  rw [← (h.ended_iff hp hi).1 (hall i hi)] at hs
  have hacks := (length_eq_iff h.nodup fun i hi => (h.acks i hi).1).2
    fun j hj => h.acked hgo j hj (hall j hj)
  rw [completed_eq, h.counted hgo i hi s hs hc, hacks]

theorem Inv.all_of_complete (h : Inv n maxPayload input rows out r)
    (hp : Promises n maxPayload input plan message) (hu : r.Unharmed)
    (hc : r.completed = true) (i : Nat) (hi : i < n) : rows i = plan i :=
  (h.ended_iff hp hi).1 ((h.all_ended hu hc).2 i hi)

/-- A worker that has left, while the reader goes on, has filed all that
its connection carries. -/
theorem Inv.ended_of_gone (h : Inv n maxPayload input rows out r)
    (hgo : r.cancelled = false) {i : Nat} {c : Inlet}
    (hl : r.lanes[i]? = some ⟨c, .gone⟩) : Ended (rows i) := by
  have hf := h.lanes i _ hl
  rw [hgo] at hf
  cases hf with
  | left past why =>
    rcases why with ⟨hend, _⟩ | ⟨_, hstop, _⟩
    · exact hend
    · cases hstop

/-- No worker is left, so everything was filed. -/
theorem Inv.complete_of_nobody (h : Inv n maxPayload input rows out r)
    (hp : Promises n maxPayload input plan message)
    (hgo : r.cancelled = false) (hm : r.mode ≠ none) (hl : r.live = 0) :
    r.completed = true := by
  refine h.complete_of_all hp hgo fun i hi => ?_
  obtain ⟨⟨c, phase⟩, hlane⟩ := h.lane_of_lt hi
  have hcount := h.live hgo hm
  rw [hl, eq_comm, List.countP_eq_zero] at hcount
  have hgone := hcount phase
    (List.mem_of_getElem? (phases_eq_some hlane))
  obtain rfl : phase = .gone := by simpa using hgone
  exact h.ended_of_gone hgo hlane

/-- **What a call finds in a reader with good inputs**: the next bytes, or
the end if there are none, or nothing yet while some worker is left. -/
theorem Inv.next_bytes (h : Inv n maxPayload input rows out r)
    (hp : Promises n maxPayload input plan message) (hu : r.Unharmed)
    (hgo : r.cancelled = false) {extent : Extent} {live : Nat}
    (hc : r.call = some ⟨.stream extent, .taking live⟩) :
    (∀ e, (r.transmission.nextDelivery extent.max).1 ≠ .error e) ∧
      (live = 0 →
        (r.transmission.nextDelivery extent.max).1 ≠ .ok .pending) := by
  have hst : Streams (pieces n rows) out r.transmission :=
    h.stored hgo _ ((h.fits hc).2 hgo)
  obtain ⟨future, _, hnil, hpromised⟩ :=
    hp.promised fun i hi => h.front hp hi
  obtain ⟨hok, hfound⟩ := next_of_chained hst hpromised
    (fun hcomp => hnil fun i hi => h.all_of_complete hp hu hcomp i hi)
    extent.max
  refine ⟨hok, fun hl => hfound ?_⟩
  have hle := (h.calling.taking hgo _ _ hc).1
  exact h.complete_of_nobody hp hgo (h.started hc) (by omega)

/-- **A complete reader with good inputs has the message.** -/
theorem Inv.collected (h : Inv n maxPayload input rows out r)
    (hp : Promises n maxPayload input plan message) (hu : r.Unharmed)
    (hc : r.completed = true)
    (hst : Collects (pieces n rows) r.transmission) :
    r.transmission.toMessage = .ok message := by
  obtain ⟨future, htiles, hnil, hpromised⟩ :=
    hp.promised fun i hi => h.front hp hi
  obtain rfl := hnil fun i hi => h.all_of_complete hp hu hc i hi
  obtain ⟨m, hm⟩ := toMessage_of_promised hst hpromised
  rw [List.append_nil] at htiles
  rw [hm, (hst.toMessage_spec hm).unique htiles]

/-! ## Every event -/

/-- How a reader fares with good inputs: nothing has failed, and it goes on
or was used up for the message. `asked` says that it was asked for the
message. -/
structure Fares (n maxPayload : Nat) (plan : Nat → List Segment)
    (message : Bytes) (asked : Prop) (input : Nat → Inlet)
    (rows : Nat → List Segment) (log : Bytes) (r : Reader) : Prop where
  serves : Serves n maxPayload input rows log r
  unharmed : r.Unharmed
  going : r.cancelled = false ∨ asked ∧ r.call = none ∧ log = message ∧
    ∀ i < n, rows i = plan i
  usesUp : ∀ task stage, r.call = some ⟨task, stage⟩ →
    task.usesUp = true → asked
  /-- The call for the message is in flight until it is over. -/
  spent : asked → r.cancelled = true ∨
    ∃ task stage, r.call = some ⟨task, stage⟩ ∧ task.usesUp = true
  success : ∀ a, r.answer = some a → a.isFailure = false

theorem eq_of_between {l l' whole : List Segment} (h : l <+: l')
    (h' : l' <+: whole) (he : l = whole) : l' = whole :=
  h'.eq_of_length_le (he ▸ h.length_le)

variable {asked : Prop} {log : Bytes}

/-- A call in flight keeps the reader going. -/
theorem Fares.busy (h : Fares n maxPayload plan message asked input rows
    log r) {call : Call} (hc : r.call = some call) : r.cancelled = false := by
  rcases h.going with hgo | ⟨_, hnone, _⟩
  · exact hgo
  · rw [hc] at hnone
    cases hnone

/-- **A worker on a good connection does not fail.** -/
theorem Fares.unharmed_work (h : Fares n maxPayload plan message asked
    input rows log r) (hp : Promises n maxPayload input plan message)
    {i : Nat} (hw : r.work i = some r') : r'.Unharmed := by
  obtain ⟨out, hinv, _⟩ := h.serves
  obtain ⟨inputs, hyields, hbefore⟩ := hp.whole
  obtain ⟨mode, hmode, hcase⟩ := work_cases hw
  have hkeep {c c' : Inlet} {phase phase' : Phase}
      (hl : r.lanes[i]? = some ⟨c, phase⟩)
      (hne : ∀ e, phase' ≠ .failing e) :
      (r.setLane i ⟨c', phase'⟩).Unharmed := by
    refine ⟨h.unharmed.1, fun e he => ?_⟩
    have hold : phase ≠ .failing e := fun hp =>
      h.unharmed.2 e (hp ▸ List.mem_of_getElem? (phases_eq_some hl))
    rcases (failing_mem_setLane hl hold).1 he with hnew | hmem
    · exact hne e hnew
    · exact h.unharmed.2 e hmem
  have hnext {c c' : Inlet} {d : Decoder} {p : Decoder.Progress}
      (hl : r.lanes[i]? = some ⟨c, .reading d⟩)
      (hadv : d.advance i r.config.maxPayloadLen c = some (p, c')) :
      (∃ d', p = .more d') ∨
        ∃ s more, p = .done s ∧ plan i = rows i ++ s :: more := by
    rw [hinv.limit] at hadv
    exact (hinv.lanes i _ hl).next_segment
      (fun s hs => (hinv.segments i s hs).1) (hbefore i (hinv.lt hl))
      (hyields.carries i (hinv.lt hl)) hadv
  cases hcase with
  | stop lane stopped => exact hkeep lane (by simp)
  | more lane going advance => exact hkeep lane (by simp)
  | broken lane going advance =>
    rcases hnext lane advance with ⟨_, hno⟩ | ⟨_, _, hno, _⟩
    · cases hno
    · cases hno
  | @refused c c' d s e lane going advance result =>
    rcases hnext lane advance with ⟨_, hno⟩ | ⟨_, more, hs, hplan⟩
    · cases hno
    · cases hs
      have hfiled := hinv.filed hp h.unharmed going hmode (hinv.lt lane)
        hplan
      rw [show r.connections = n from hinv.size, hfiled] at result
      cases result
  | @filed c c' d s more lane going advance result =>
    refine hkeep lane fun e => ?_
    cases more <;> simp
  | @record c e lane =>
    exact absurd (List.mem_of_getElem? (phases_eq_some lane))
      (h.unharmed.2 e)
  | leave lane => exact hkeep lane (by simp)

/-- Only a failure that a worker records stops a reader that goes on. -/
theorem cancelled_of_work {i : Nat} (h : r.work i = some r') :
    r'.cancelled = r.cancelled ∨ r'.failure.isSome = true := by
  obtain ⟨mode, _, hcase⟩ := work_cases h
  cases hcase with
  | stop lane stopped => exact .inl rfl
  | more lane going advance => exact .inl rfl
  | broken lane going advance => exact .inl rfl
  | refused lane going advance result => exact .inl rfl
  | filed lane going advance result => exact .inl rfl
  | record lane => exact .inr rfl
  | leave lane => exact .inl rfl

theorem Fares.work (h : Fares n maxPayload plan message asked input rows
    log r) (hp : Promises n maxPayload input plan message) {i : Nat}
    (hw : r.work i = some r') :
    ∃ rows', (∀ j, rows j <+: rows' j) ∧
      Fares n maxPayload plan message asked input rows' log r' := by
  obtain ⟨rows', hle, hserves⟩ := h.serves.step (e := .work i) rfl hw
  obtain ⟨hcall, hans, _⟩ := call_of_work hw
  rw [gained_of_call_eq hcall, List.append_nil] at hserves
  have hinput : (fun j => Event.brings j (.work i) (input j)) = input := rfl
  rw [hinput] at hserves
  have hu := h.unharmed_work hp hw
  obtain ⟨out, hinv, _⟩ := hserves
  have hcancel : r'.cancelled = r.cancelled := by
    rcases cancelled_of_work hw with hsame | hfail
    · exact hsame
    · simp [hu.1] at hfail
  refine ⟨rows', hle, ⟨out, hinv, ‹_›⟩, hu, ?_, ?_, ?_, ?_⟩
  · rcases h.going with hgo | ⟨hasked, hnone, hlog, hrows⟩
    · exact .inl (hcancel.trans hgo)
    · exact .inr ⟨hasked, hcall.trans hnone, hlog, fun j hj =>
        eq_of_between (hle j) (hinv.front hp hj) (hrows j hj)⟩
  · rw [hcall]
    exact h.usesUp
  · rw [hcall, hcancel]
    exact h.spent
  · rw [hans]
    exact h.success

/-- **A call that comes to the end** has got the message, and everything
was filed. -/
theorem Fares.ends (h : Fares n maxPayload plan message asked input rows
    log r) (hp : Promises n maxPayload input plan message)
    (ha : r.advance = some r') (he : Ends r r') :
    log ++ gained r r' = message ∧ ∀ i < n, rows i = plan i := by
  obtain ⟨out, hinv, hlog⟩ := h.serves
  obtain ⟨inputs, hyields, _⟩ := hp.whole
  obtain ⟨call, hc⟩ := Option.isSome_iff_exists.1 he.1
  have hgo := h.busy hc
  have hy := hinv.ends (hlog hgo) h.unharmed hgo ha he
  have hrows (i : Nat) (hi : i < n) : rows i = plan i :=
    (hinv.ended_iff hp hi).1 (hy.carries i hi).ended
  exact ⟨(pieces_congr hrows ▸ hy.tiles).unique hyields.tiles, hrows⟩

theorem Unharmed.of_advance (h : r.Unharmed) (ha : r.advance = some r')
    (hf : r'.failure = none) : r'.Unharmed := by
  refine ⟨hf, fun e he => h.2 e ?_⟩
  rw [phases, (kept_of_advance ha).1] at he
  exact he

theorem Fares.serves_advance (h : Fares n maxPayload plan message asked
    input rows log r) (ha : r.advance = some r') :
    Serves n maxPayload input rows (log ++ gained r r') r' := by
  obtain ⟨out, hinv, hlog⟩ := h.serves
  refine ⟨_, hinv.advance ha, fun hc => ?_⟩
  obtain ⟨hgoing, hbytes⟩ := handed_advance ha hc
  rw [hlog hgoing, List.append_assoc, hbytes, List.append_assoc]

/-- After the reader was asked for the message, only that call is in
flight. -/
theorem Fares.uses_up (h : Fares n maxPayload plan message asked input rows
    log r) {task : Task} {stage : Stage} (hc : r.call = some ⟨task, stage⟩)
    (hasked : asked) : task.usesUp = true := by
  rcases h.spent hasked with hstop | ⟨task', stage', hc', huse⟩
  · rw [h.busy hc] at hstop
    cases hstop
  · cases hc.symm.trans hc'
    exact huse

/-- The call goes on. -/
theorem Fares.goes_on (h : Fares n maxPayload plan message asked input rows
    log r) (ha : r.advance = some r') {task task' : Task}
    {stage stage' : Stage} (hc : r.call = some ⟨task, stage⟩)
    (hc' : r'.call = some ⟨task', stage'⟩)
    (huse : task'.usesUp = task.usesUp) (hf : r'.failure = r.failure)
    (hs : r'.cancelled = r.cancelled) (hans : r'.answer = r.answer) :
    Fares n maxPayload plan message asked input rows (log ++ gained r r')
      r' where
  serves := h.serves_advance ha
  unharmed := h.unharmed.of_advance ha (hf.trans h.unharmed.1)
  going := .inl (hs.trans (h.busy hc))
  usesUp := by
    intro task'' stage'' he huse'
    rw [hc'] at he
    cases he
    exact h.usesUp _ _ hc (huse ▸ huse')
  spent := fun hasked =>
    .inr ⟨task', stage', hc', huse.trans (h.uses_up hc hasked)⟩
  success := hans ▸ h.success

/-- A call is over that leaves the reader as it is. -/
theorem Fares.answered (h : Fares n maxPayload plan message asked input
    rows log r) (ha : r.advance = some r') {task : Task} {stage : Stage}
    (hc : r.call = some ⟨task, stage⟩) (huse : task.usesUp = false)
    (hc' : r'.call = none) (hf : r'.failure = r.failure)
    (hs : r'.cancelled = r.cancelled) {a : Answer}
    (hans : r'.answer = some a) (hok : a.isFailure = false) :
    Fares n maxPayload plan message asked input rows (log ++ gained r r')
      r' where
  serves := h.serves_advance ha
  unharmed := h.unharmed.of_advance ha (hf.trans h.unharmed.1)
  going := .inl (hs.trans (h.busy hc))
  usesUp := by simp [hc']
  spent := fun hasked => by simp [h.uses_up hc hasked] at huse
  success := by
    intro a' ha'
    cases hans.symm.trans ha'
    exact hok

/-- The call is over that uses the reader up: it has got the message. -/
theorem Fares.used_up (h : Fares n maxPayload plan message asked input rows
    log r) (hp : Promises n maxPayload input plan message)
    (ha : r.advance = some r') {task : Task} {stage : Stage}
    (hc : r.call = some ⟨task, stage⟩) (huse : task.usesUp = true)
    (hc' : r'.call = none) (hf : r'.failure = r.failure)
    (hs : r'.cancelled = true) {a : Answer} (hans : r'.answer = some a)
    (hend : a.isEnd = true) (hok : a.isFailure = false) :
    Fares n maxPayload plan message asked input rows (log ++ gained r r')
      r' where
  serves := h.serves_advance ha
  unharmed := h.unharmed.of_advance ha (hf.trans h.unharmed.1)
  going := by
    obtain ⟨hlast, hrows⟩ :=
      h.ends hp ha ⟨by simp [hc], hc', a, hans, hend⟩
    exact .inr ⟨h.usesUp _ _ hc huse, hc', hlast, hrows⟩
  usesUp := by simp [hc']
  spent := fun _ => .inl hs
  success := by
    intro a' ha'
    cases hans.symm.trans ha'
    exact hok

/-- **A call on good inputs does not fail**, and has the message when it
comes to the end. -/
theorem Fares.advance (h : Fares n maxPayload plan message asked input rows
    log r) (hp : Promises n maxPayload input plan message)
    (ha : r.advance = some r') :
    Fares n maxPayload plan message asked input rows (log ++ gained r r')
      r' := by
  obtain ⟨out, hinv, _⟩ := h.serves
  have hgo : r.cancelled = false := by
    cases hc : r.call with
    | none => simp [advance_eq_none_iff.2 (.inl hc)] at ha
    | some call => exact h.busy hc
  cases advance_cases ha with
  | stop call stopped => rw [hgo] at stopped; cases stopped
  | look call going => exact h.goes_on ha call rfl rfl rfl rfl rfl
  | @message live call completed =>
    have hst : Collects (pieces n rows) r.transmission :=
      (hinv.stored hgo _ ((hinv.fits call).2 hgo)).1
    have hm := hinv.collected hp h.unharmed completed hst
    rcases takeMessage_cases r with ⟨e, he, _⟩ | ⟨m, he, heq⟩
    · rw [hm] at he
      cases he
    · rw [heq] at ha ⊢
      exact h.used_up hp ha call rfl rfl rfl rfl rfl rfl rfl
  | @hole live call completed nobody =>
    have hle := (hinv.calling.taking hgo _ _ call).1
    have hc := hinv.complete_of_nobody hp hgo (hinv.started call) (by omega)
    rw [completed] at hc
    cases hc
  | collecting call completed somebody =>
    exact h.goes_on ha call rfl rfl rfl rfl rfl
  | @broken extent live e t call next =>
    have hok := (hinv.next_bytes hp h.unharmed hgo call).1 e
    rw [next] at hok
    exact absurd rfl hok
  | @ready extent live bs t call next =>
    cases extent with
    | upTo max => exact h.answered ha call rfl rfl rfl rfl rfl rfl
    | toEnd out' count => exact h.goes_on ha call rfl rfl rfl rfl rfl
    | remainder out' => exact h.goes_on ha call rfl rfl rfl rfl rfl
  | @finished extent live t call next =>
    cases extent with
    | upTo max => exact h.answered ha call rfl rfl rfl rfl rfl rfl
    | toEnd out' count => exact h.answered ha call rfl rfl rfl rfl rfl rfl
    | remainder out' =>
      exact h.used_up hp ha call rfl rfl rfl rfl rfl rfl rfl
  | @gap extent live t call next nobody =>
    have hfound := (hinv.next_bytes hp h.unharmed hgo call).2 nobody
    rw [next] at hfound
    exact absurd rfl hfound
  | pending call next somebody => exact h.goes_on ha call rfl rfl rfl rfl rfl
  | wake call woken => exact h.goes_on ha call rfl rfl rfl rfl rfl
  | stir call stopped => rw [hgo] at stopped; cases stopped

/-- Only the call for the message uses the reader up. -/
theorem Asks.usesUp_iff {e : Event} {task : Task} (h : r.Asks e task) :
    task.usesUp = true ↔ e = .message := by
  cases h <;> simp [Task.usesUp]

/-- Another call begins on a reader that was not used up. -/
theorem Fares.begin (h : Fares n maxPayload plan message asked input rows
    log r) (hasked : ¬ asked) {e : Event} {task : Task}
    (asks : r.Asks e task) {input' : Nat → Inlet}
    {rows' : Nat → List Segment} {log' : Bytes}
    (hserves : Serves n maxPayload input' rows' log'
      ((r.start task.mode).setStage task .looking)) :
    Fares n maxPayload plan message (asked ∨ e = .message) input' rows' log'
      ((r.start task.mode).setStage task .looking) where
  serves := hserves
  unharmed := by
    obtain ⟨hphases, hfail, _⟩ := phases_start task.mode r
    refine ⟨hfail.trans h.unharmed.1, fun e => ?_⟩
    exact hphases ▸ h.unharmed.2 e
  going := .inl ((start_cancelled task.mode r).trans
    (h.going.resolve_right fun hused => hasked hused.1))
  usesUp := by
    rintro task' stage ⟨⟩ huse
    exact .inr (asks.usesUp_iff.1 huse)
  spent := fun hnow => .inr ⟨task, .looking, rfl,
    asks.usesUp_iff.2 (hnow.resolve_left hasked)⟩
  success := (phases_start task.mode r).2.2 ▸ h.success

/-- A call for no bytes is over at once. -/
theorem Fares.nothing (h : Fares n maxPayload plan message asked input rows
    log r) (hasked : ¬ asked) {input' : Nat → Inlet}
    {rows' : Nat → List Segment} {log' : Bytes}
    (hserves : Serves n maxPayload input' rows' log'
      (r.conclude (.bytes []))) :
    Fares n maxPayload plan message asked input' rows' log'
      (r.conclude (.bytes [])) where
  serves := hserves
  unharmed := h.unharmed
  going := .inl (h.going.resolve_right fun hused => hasked hused.1)
  usesUp := nofun
  spent := fun hyes => absurd hyes hasked
  success := by
    rintro a ⟨⟩
    rfl

/-- Something arrives. -/
theorem Fares.arrive (h : Fares n maxPayload plan message asked input rows
    log r) {i : Nat} {f : Inlet → Inlet} {input' : Nat → Inlet}
    (hp : Promises n maxPayload input' plan message)
    {rows' : Nat → List Segment} (hle : ∀ j, rows j <+: rows' j)
    (hserves : Serves n maxPayload input' rows'
      (log ++ gained r (r.arrive i f)) (r.arrive i f)) :
    Fares n maxPayload plan message asked input' rows'
      (log ++ gained r (r.arrive i f)) (r.arrive i f) := by
  have hnil : gained r (r.arrive i f) = [] := gained_of_call_eq rfl
  rw [hnil, List.append_nil] at hserves ⊢
  obtain ⟨out, hinv, hlog⟩ := hserves
  refine ⟨⟨out, hinv, hlog⟩, ?_, ?_, h.usesUp, h.spent, h.success⟩
  · exact ⟨h.unharmed.1, phases_arrive i f r ▸ h.unharmed.2⟩
  · exact h.going.imp_right fun ⟨ha, hc, hl, hrows⟩ => ⟨ha, hc, hl,
      fun j hj => eq_of_between (hle j) (hinv.front hp hj) (hrows j hj)⟩

/-- **Every event**: a reader with good inputs goes on to fare well, unless
it is called again after it was used up. -/
theorem Fares.step (h : Fares n maxPayload plan message asked input rows
    log r) {e : Event}
    (hp : Promises n maxPayload (fun i => e.brings i (input i)) plan message)
    (he : e.isPlain = true) (hcall : e.isCall = true → ¬ asked)
    (hs : r.step e = some r') :
    ∃ rows', (∀ j, rows j <+: rows' j) ∧
      Fares n maxPayload plan message (asked ∨ e = .message)
        (fun i => e.brings i (input i)) rows' (log ++ gained r r') r' := by
  -- nothing else asks for the message
  have hsame (hne : e ≠ .message) : (asked ∨ e = .message) = asked := by
    simp [hne]
  obtain ⟨rows', hle, hserves⟩ := h.serves.step he hs
  cases step_cases hs with
  | work work =>
    rw [hsame (by simp), gained_of_call_eq (call_of_work work).1,
      List.append_nil]
    exact h.work hp work
  | advance advance =>
    rw [hsame (by simp)]
    exact ⟨rows, fun _ => List.prefix_rfl, h.advance hp advance⟩
  | nothing idle =>
    rw [hsame (by simp)]
    exact ⟨rows', hle, h.nothing (hcall rfl) hserves⟩
  | begin idle asks =>
    have hno : ¬ asked := hcall (by cases asks <;> rfl)
    exact ⟨rows', hle, h.begin hno asks hserves⟩
  | arrive arrives =>
    rw [hsame (by rintro rfl; cases arrives)]
    exact ⟨rows', hle, h.arrive hp hle hserves⟩
  | _ => cases he

/-- The inputs may make another transfer than was first promised. What was
received is part of both. -/
theorem Fares.replan {plan' : Nat → List Segment} {message' : Bytes}
    (h : Fares n maxPayload plan message asked input rows log r)
    (hp : Promises n maxPayload input plan message)
    (hp' : Promises n maxPayload input plan' message') :
    Fares n maxPayload plan' message' asked input rows log r := by
  obtain ⟨out, hinv, _⟩ := h.serves
  obtain ⟨_, hy, _⟩ := hp.whole
  obtain ⟨_, hy', _⟩ := hp'.whole
  refine { h with going := h.going.imp_right ?_ }
  rintro ⟨hasked, hnone, hlog, hrows⟩
  have hrows' (i : Nat) (hi : i < n) : rows i = plan' i :=
    (hinv.ended_iff hp' hi).1 ((hinv.ended_iff hp hi).2 (hrows i hi))
  have htiles : Tiles (pieces n rows) message :=
    pieces_congr hrows ▸ hy.tiles
  have htiles' : Tiles (pieces n rows) message' :=
    pieces_congr hrows' ▸ hy'.tiles
  exact ⟨hasked, hnone, hlog.trans (htiles.unique htiles'), hrows'⟩

/-! ## At rest -/

/-- A worker does not wait on a connection that has brought all its
segments. -/
theorem Fares.gone (h : Fares n maxPayload plan message asked input rows
    log r) (hp : Promises n maxPayload input plan message)
    (hall : ∀ i < n, Carries maxPayload (input i) (plan i))
    (hq : r.Quiet) (hm : r.mode ≠ none) (phase : Phase)
    (hphase : phase ∈ r.phases) : phase = .gone := by
  obtain ⟨out, hinv, _⟩ := h.serves
  obtain ⟨⟨c, phase⟩, hl, rfl⟩ := List.mem_map.1 hphase
  obtain ⟨i, hi⟩ := List.getElem?_of_mem hl
  have hlt := hinv.lt hi
  rcases hinv.resting hq hm hi with hgone | ⟨_, ⟨d, rfl⟩, htape, _⟩
  · exact hgone
  · obtain ⟨valid, isOpen, tape, _⟩ := (hinv.lanes i _ hi).of_reading
    have hcarries := hall i hlt
    obtain ⟨s, more, hplan⟩ :=
      next_of_open isOpen hcarries.ended (hinv.front hp hlt)
    obtain ⟨rest, hrest⟩ := hcarries.tape
    -- all of the next segment has arrived, and is more than is held
    have hheld : Tape.clean d.held ++ [] =
        Tape.clean s.encode ++ (Tape.clean (encodeAll more) ++ rest) := by
      rw [tape, htape, hplan] at hrest
      simpa using hrest
    obtain ⟨missing, hne, hmissing⟩ := Decoder.held_front valid
      (hcarries.wf s (by simp [hplan])) hheld
    rw [eq_comm, List.append_eq_nil_iff] at hmissing
    exact absurd (Tape.clean_eq_nil.1 hmissing.1) hne

/-- A reader at rest has read all that has arrived, unless more has arrived
than the segments that it was promised. -/
theorem Fares.emptied (h : Fares n maxPayload plan message asked input rows
    log r) (hp : Promises n maxPayload input plan message) (hq : r.Quiet)
    (hm : r.mode ≠ none) {i : Nat} {c : Inlet} {phase : Phase}
    (hl : r.lanes[i]? = some ⟨c, phase⟩)
    (hle : (input i).tape <+: Tape.clean (encodeAll (plan i))) :
    c.tape = [] := by
  obtain ⟨out, hinv, _⟩ := h.serves
  have hi := hinv.lt hl
  rcases hinv.resting hq hm hl with rfl | ⟨_, _, htape, _⟩
  · cases hinv.lanes i _ hl with
    | left past why =>
      obtain ⟨hend, htape⟩ : Ended (rows i) ∧
          (input i).tape = Tape.clean (encodeAll (rows i)) ++ c.tape := by
        rcases why with hend | ⟨isOpen, hstop, _⟩
        · exact hend
        · rcases h.going with hgo | ⟨_, _, _, hrows⟩
          · rw [hgo] at hstop
            cases hstop
          · have hend := (hinv.ended_iff hp hi).2 (hrows i hi)
            exact absurd hend isOpen.not_ended
      have hsame := (hinv.ended_iff hp hi).1 hend
      have hlen := hle.length_le
      rw [htape, hsame, List.length_append] at hlen
      exact List.eq_nil_of_length_eq_zero (by omega)
  · exact htape

/-- **A reader at rest, all of whose inputs have arrived**, has filed all
segments and let all connections go, and no call waits. -/
theorem Fares.quiet (h : Fares n maxPayload plan message asked input rows
    log r) (hp : Promises n maxPayload input plan message)
    (hall : ∀ i < n, Carries maxPayload (input i) (plan i))
    (hq : r.Quiet) :
    r.call = none ∧ (r.mode ≠ none →
      (∀ phase ∈ r.phases, phase = .gone) ∧
        (∀ i < n, rows i = plan i) ∧ r.stats = Stats.tally n plan) := by
  obtain ⟨out, hinv, _⟩ := h.serves
  have hrows (hm : r.mode ≠ none) (i : Nat) (hi : i < n) :
      rows i = plan i := by
    rcases h.going with hgo | ⟨_, _, _, hrows⟩
    · obtain ⟨⟨c, phase⟩, hlane⟩ := hinv.lane_of_lt hi
      have hmem := List.mem_of_getElem? (phases_eq_some hlane)
      obtain rfl : phase = .gone := h.gone hp hall hq hm phase hmem
      exact (hinv.ended_iff hp hi).1 (hinv.ended_of_gone hgo hlane)
    · exact hrows i hi
  refine ⟨?_, fun hm => ⟨h.gone hp hall hq hm, hrows hm, ?_⟩⟩
  · cases hc : r.call with
    | none => rfl
    | some call =>
      rw [← hc]
      exact hinv.over_of_gone hq (h.gone hp hall hq (hinv.started hc))
  · rw [hinv.stats h.unharmed, Stats.tally_congr (hrows hm)]

end Success

end Stripe.Reader
