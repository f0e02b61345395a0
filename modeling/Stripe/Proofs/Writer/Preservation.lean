import Stripe.Proofs.Writer.Workers

/-!
# Every event keeps the invariant

A move of the call changes the feeder's side only (`Inv.rule`), but for
the segment that it hands over (`Inv.hand`), and so do the users. The main
statement is `Inv.step`.
-/

namespace Stripe.Writer

open Segment Handoff Barrier

/-- The wires of the lanes stay as they are, and so do the workers. -/
structure Keeps (w w' : Writer) : Prop where
  lanes : ∀ (j : Nat) (lane' : Lane), w'.lanes[j]? = some lane' →
    ∃ c : Outlet, w.lanes[j]? = some ⟨c, lane'.phase⟩ ∧
      lane'.outlet.wire = c.wire
  phases : w'.phases = w.phases

section Calls

variable {n : Nat} {loose : Prop} {rows done : Nat → List Segment}
  {fed : List Segment} {w w' : Writer}

theorem Keeps.of_eq (h : w'.lanes = w.lanes) : Keeps w w' := by
  refine ⟨fun j lane' hl => ⟨lane'.outlet, h ▸ hl, rfl⟩, ?_⟩
  simp [Writer.phases, h]

/-- The outlet of one lane has changed, but not its wire. -/
theorem Keeps.of_set {i : Nat} {c c' : Outlet} {phase : Phase}
    (hl : w.lanes[i]? = some ⟨c, phase⟩) (hw : c'.wire = c.wire)
    (h : w'.lanes = w.lanes.set i ⟨c', phase⟩) : Keeps w w' := by
  obtain ⟨hi, _⟩ := List.getElem?_eq_some_iff.1 hl
  refine ⟨?_, ?_⟩
  · intro j lane' hj
    rw [h] at hj
    by_cases hji : i = j
    · subst hji
      rw [List.getElem?_set_self hi] at hj
      cases hj
      exact ⟨c, hl, hw⟩
    · rw [List.getElem?_set_ne hji] at hj
      exact ⟨lane'.outlet, hj, rfl⟩
  · show List.map _ _ = w.phases
    rw [h, List.map_set]
    exact set_self (a := phase) (phases_eq_some hl)

/-- **The owner's side has changed**, and the workers go on as before. -/
theorem Inv.rule (h : Inv n loose rows done fed w) (keeps : Keeps w w')
    (same : w'.config = w.config ∧ w'.cursor = w.cursor ∧
      w'.stats = w.stats)
    (fresh : w'.stage = .fresh → w.stage = .fresh)
    (started : w'.stage ≠ .fresh → w.stage ≠ .fresh ∨ loose)
    (handoff : w'.handoff.Sane n) (barrier : w'.barrier.Sane n loose)
    (seats : ∀ j, w'.seat j = w.seat j)
    (tokens : ∀ j, w.barrier.token j ≠ .waiting →
      w'.barrier.token j = w.barrier.token j)
    (stopped : w.cancelled = true → w'.cancelled = true)
    (halted : w'.failure.isSome = true → w'.cancelled = true)
    (idle : w'.stage ≠ .closed →
      w'.barrier.owner = .idle ∧ w'.handoff.fed = true)
    (acks : ∀ k, w'.barrier.owner.received? = some k →
      w'.barrier.inbox.length + k = w.leavers)
    (closing : w'.handoff.fed = false →
      loose ∨ ∀ phase ∈ w.phases, phase.isOver = true)
    (calling : w'.Calling n fed) : Inv n loose rows done fed w' := by
  obtain ⟨hconfig, hcursor, hstats⟩ := same
  have hphases := keeps.phases
  have htold : w.Told → w'.Told := by
    rintro ⟨j, hj⟩
    exact ⟨j, (tokens j (by simp [hj])).trans hj⟩
  exact
    { size := by rw [← length_phases, hphases, length_phases, h.size]
      pos := h.pos
      maxLen := hconfig ▸ h.maxLen
      handoff := handoff
      barrier := barrier
      lanes := by
        intro j lane' hj
        obtain ⟨c, hl, hw⟩ := keeps.lanes j lane' hj
        rw [hcursor, seats j]
        exact (((h.lanes j _ hl).congr_outlet hw).excuse
          (Or.imp_left stopped)).proceed (fun _ => rfl) htold
      asking := by
        intro j c' hj
        obtain ⟨c, hl, _⟩ := keeps.lanes j _ hj
        exact (h.asking j c hl).imp stopped fun ht => (tokens j ht) ▸ ht
      given := h.given
      feeds := by rw [hconfig, hcursor]; exact h.feeds
      stats := hstats.trans h.stats
      halted := halted
      fresh := by rw [hphases]; exact fun hs => h.fresh (fresh hs)
      started := by
        rw [hphases]
        intro hs
        rcases started hs with hold | hloose
        · exact h.started hold
        · exact .inl hloose
      idle := idle
      acks := by rw [leavers, hphases]; exact acks
      closing := by rw [hphases]; exact closing
      calling := calling }

/-- Only the call has changed, and what has failed. -/
theorem Inv.recall (h : Inv n loose rows done fed w)
    (same : w'.config = w.config ∧ w'.cursor = w.cursor ∧
      w'.stats = w.stats ∧ w'.lanes = w.lanes ∧ w'.stage = w.stage ∧
      w'.handoff = w.handoff ∧ w'.barrier = w.barrier)
    (stopped : w.cancelled = true → w'.cancelled = true)
    (halted : w'.failure.isSome = true → w'.cancelled = true)
    (calling : w'.Calling n fed) : Inv n loose rows done fed w' := by
  obtain ⟨hconfig, hcursor, hstats, hlanes, hstage, hhandoff, hbarrier⟩ :=
    same
  refine h.rule (Keeps.of_eq hlanes) ⟨hconfig, hcursor, hstats⟩
    (hstage ▸ id) (hstage ▸ .inl) (hhandoff ▸ h.handoff)
    (hbarrier ▸ h.barrier) ?_ ?_ stopped halted ?_ ?_ ?_ calling
  · intro j
    simp only [seat, hhandoff, hbarrier]
  · intro j _
    rw [hbarrier]
  · rw [hstage, hbarrier, hhandoff]
    exact h.idle
  · rw [hbarrier]
    exact h.acks
  · rw [hhandoff]
    exact h.closing

/-- No call is in flight, or one that has yet to see how things stand. -/
theorem calling_of_opening (n : Nat) (fed : List Segment)
    (h : w.call = none ∨ ∃ job, w.call = some (.opening job)) :
    w.Calling n fed := by
  rcases h with h | ⟨job, h⟩ <;> exact ⟨by simp [h], by simp [h], by simp [h],
    by simp [h]⟩

theorem calling_of_working {job : Job} (n : Nat) (fed : List Segment)
    (h : w.call = some (.working job)) (hs : w.stage = .running) :
    w.Calling n fed :=
  ⟨by simp [h], fun _ _ => hs, by simp [h], by simp [h]⟩

theorem calling_of_offering {s : Segment} {job : Job}
    (h : w.call = some (.offering s job)) (hs : w.stage = .running)
    (ho : Offered n fed w s) : w.Calling n fed := by
  refine ⟨?_, by simp [h], by simp [h], by simp [h]⟩
  intro u job' hc
  rw [h] at hc
  cases hc
  exact ⟨hs, ho⟩

theorem Inv.conclude (h : Inv n loose rows done fed w) (a : Answer) :
    Inv n loose rows done fed (w.conclude a) :=
  h.recall ⟨rfl, rfl, rfl, rfl, rfl, rfl, rfl⟩ id h.halted
    (calling_of_opening n fed (.inl rfl))

/-- The writer begins to close. -/
theorem Inv.close (h : Inv n loose rows done fed w)
    (hs : w.stage = .running) (started copied : Option Error) :
    Inv n loose rows done fed ({ w with
      stage := .closed, barrier := w.barrier.start }.setCall
        (.stopping started copied)) := by
  obtain ⟨howner, hfed⟩ := h.idle (by simp [hs])
  have hstart : w.barrier.start = { w.barrier with owner := .begun } := by
    simp [Barrier.start, howner]
  refine h.rule (Keeps.of_eq rfl) ⟨rfl, rfl, rfl⟩
    (fun hf => by cases hf) (fun _ => .inl (by simp [hs])) h.handoff
    (sane_start h.barrier) ?_ ?_ id h.halted (fun hc => absurd rfl hc) ?_
    h.closing ?_
  · intro j
    simp only [hstart]
    rfl
  · intro j _
    simp only [hstart]
    rfl
  · intro k hk
    simp only [setCall, hstart, Owner.received?, Option.some.injEq] at hk ⊢
    exact h.acks k (by rw [howner, ← hk]; rfl)
  · refine ⟨by simp [setCall], by simp [setCall], ?_, by simp [setCall]⟩
    intro _ _ _
    exact ⟨rfl, .inl (by simp [setCall, hstart])⟩

/-- A call finds that it cannot go on. -/
theorem Inv.reject (h : Inv n loose rows done fed w) (e : Error)
    (job : Job) : Inv n loose rows done fed (w.reject e job) := by
  generalize hr : w.reject e job = w'
  cases reject_cases hr with
  | turn =>
    exact h.recall ⟨rfl, rfl, rfl, rfl, rfl, rfl, rfl⟩ (fun _ => rfl)
      (fun _ => rfl) (calling_of_opening n fed (.inr ⟨_, rfl⟩))
  | close stage => exact h.close stage _ _
  | fails e' => exact h.conclude _

/-- A call goes on with its job. -/
theorem Inv.proceed (h : Inv n loose rows done fed w) {job : Job}
    (hs : w.stage = .running) (hp : Proceeds w job w') :
    Inv n loose rows done fed w' := by
  have hoffer {bytes : Bytes} {job : Job} (hne : bytes ≠ [])
      (hle : bytes.length ≤ w.config.maxSegmentLen) :
      Inv n loose rows done fed
        (w.setCall (.offering (w.nextSegment bytes) job)) :=
    h.recall ⟨rfl, rfl, rfl, rfl, rfl, rfl, rfl⟩ id h.halted
      (calling_of_offering rfl hs (.inr ⟨bytes, hne, hle, rfl⟩))
  have htake {bytes : Bytes} (hne : bytes ≠ []) :
      bytes.take w.config.maxSegmentLen ≠ [] :=
    fun ht => hne (take_eq_nil h.maxLen ht)
  cases hp with
  | nothing => exact h.conclude _
  | wrote => exact h.conclude _
  | sent => exact h.conclude _
  | copied => exact h.conclude _
  | piece pos => exact hoffer (htake pos) (List.length_take_le _ _)
  | chunk pos => exact hoffer (htake pos) (List.length_take_le _ _)
  | broken fill => exact h.reject _ _
  | drained fill =>
    exact h.recall ⟨rfl, rfl, rfl, rfl, rfl, rfl, rfl⟩ id h.halted
      (calling_of_working n fed rfl hs)
  | cut pos fill => exact hoffer pos (length_fill fill)
  | turn =>
    exact h.recall ⟨rfl, rfl, rfl, rfl, rfl, rfl, rfl⟩ id h.halted
      (calling_of_opening n fed (.inr ⟨_, rfl⟩))
  | close => exact h.close hs _ _

/-- The workers start. -/
theorem Inv.start (h : Inv n loose rows done fed w)
    (hs : w.stage = .fresh) (job : Job) :
    Inv n loose rows done fed (w.start.setCall
      (.offering (.control (.ofNat w.connections)) job)) := by
  obtain ⟨hfed, hun⟩ := h.fresh hs
  obtain ⟨howner, hon⟩ := h.idle (by simp [hs])
  have hphases : phases (w.start.setCall
      (.offering (.control (.ofNat w.connections)) job)) =
      w.phases.map fun _ => .idle := by
    simp [phases, setCall, Writer.start]
  have hlane (j : Nat) (lane' : Lane) (hj : (w.start.setCall
      (.offering (.control (.ofNat w.connections)) job)).lanes[j]? =
        some lane') :
      ∃ c : Outlet, w.lanes[j]? = some ⟨c, .unstarted⟩ ∧
        lane' = ⟨c, .idle⟩ := by
    simp only [setCall, Writer.start, List.getElem?_map,
      Option.map_eq_some_iff] at hj
    obtain ⟨⟨c, phase⟩, hl, rfl⟩ := hj
    obtain rfl : phase = .unstarted :=
      hun phase (List.mem_of_getElem? (phases_eq_some hl))
    exact ⟨c, hl, rfl⟩
  have hnobody (l : List Phase)
      (hl : ∀ phase ∈ l, phase ≠ .gone) : l.countP (· = .gone) = 0 := by
    rw [List.countP_eq_zero]
    intro phase hp
    simpa using hl phase hp
  exact
    { size := by simp [setCall, Writer.start, h.size]
      pos := h.pos
      maxLen := h.maxLen
      handoff := h.handoff
      barrier := h.barrier
      lanes := by
        intro j lane' hj
        obtain ⟨c, hl, rfl⟩ := hlane j lane' hj
        cases h.lanes j _ hl with
        | still slot still seated made wire isOpen =>
          exact .still slot (.inr (.inl rfl)) seated made wire isOpen
        | busy part _ _ _ _ _ _ _ => cases part
      asking := by
        intro j c hj
        obtain ⟨_, _, he⟩ := hlane j _ hj
        cases he
      given := h.given
      feeds := h.feeds
      stats := h.stats
      halted := h.halted
      fresh := by
        intro hf
        cases hf
      started := by
        intro _
        right
        rw [hphases]
        simp
      idle := fun _ => ⟨howner, hon⟩
      acks := by
        intro k hk
        rw [leavers, hphases, hnobody _ (by simp)]
        have hold := h.acks k hk
        rwa [leavers, hnobody _ (fun phase hp => by simp [hun phase hp])]
          at hold
      closing := by
        intro hf
        rw [show w.handoff.fed = false from hf] at hon
        cases hon
      calling := by
        refine calling_of_offering rfl rfl (.inl ⟨?_, hfed⟩)
        rw [connections, h.size] }

/-- A worker that has posted its slot has nothing to do, and finds a segment
in it. -/
theorem Stands.handed {cursor cursor' : Nat} {closed excused : Prop}
    {row done : List Segment} {seat : Seat} {lane : Lane}
    (h : Stands cursor closed excused row done seat lane)
    (posted : seat.slot = .posted) {s : Segment}
    (hs : s.isTerminal = false) :
    Stands cursor' closed excused (row ++ [s]) done
      ⟨seat.present, .filled s, seat.held⟩ lane := by
  cases h with
  | still slot still seated made wire isOpen =>
    subst seated
    obtain rfl : slot = .posted := posted
    have hrow : row = done := made.trans (List.append_nil _)
    exact .still (.filled s) still rfl (by rw [hrow]; rfl) wire
      (open_append.2 ⟨isOpen, open_singleton.2 hs⟩)
  | busy part seated made wire left isOpen plain told =>
    subst seated
    cases posted
  | flushing seated made wire isOpen told =>
    subst seated
    cases posted
  | gone seated front counted shaped why =>
    subst seated
    cases posted
  | lost seated front counted shaped begun =>
    subst seated
    cases posted

/-- **A segment is handed over**: it comes into the slot of a worker that
has nothing to do. -/
theorem Inv.hand (h : Inv n loose rows done fed w) {s : Segment}
    {job : Job} (hc : w.call = some (.offering s job)) {i : Nat}
    {h' : Handoff} (hsend : w.handoff.send s = (.sent i, h')) :
    Inv n loose (addTo i s rows) done (fed ++ [s]) ({ w with
      handoff := h', cursor := w.cursor + s.length }.setCall
        (.working job)) := by
  obtain ⟨hrunning, hoffered⟩ := h.calling.offering s job hc
  have hopen : ¬ w.Told := by
    intro ht
    rw [h.closed_of_told ht] at hrunning
    cases hrunning
  obtain ⟨howner, hon⟩ := h.idle (by simp [hrunning])
  have hands := hands_spec s h.handoff
  rw [hsend] at hands
  cases hands with
  | refused fails _ _ _ _ _ => exact absurd rfl (fails i)
  | sent slot touches slot' present queue =>
  have hi : i < n := h.handoff.lt (by simp [slot])
  have hterminal : s.isTerminal = false := by
    rcases hoffered with ⟨rfl, _⟩ | ⟨bytes, _, _, rfl⟩ <;> simp [nextSegment]
  exact
    { size := h.size
      pos := h.pos
      maxLen := h.maxLen
      handoff := touches.sane
      barrier := h.barrier
      lanes := by
        intro j lane hj
        have hstand := h.lanes j lane hj
        by_cases hji : j = i
        · subst hji
          have hseat : Seat.mk (h'.present j) (h'.slot j)
              (w.barrier.held j) =
                ⟨(w.seat j).present, .filled s, (w.seat j).held⟩ := by
            rw [present, slot']
            rfl
          have hgo : Stands (w.cursor + s.length) w.Told
              (w.cancelled = true ∨ loose) (rows j ++ [s]) (done j) _
              lane := hstand.handed slot hterminal
          rw [← hseat] at hgo
          rw [addTo_self]
          exact hgo
        · have hseat : Seat.mk (h'.present j) (h'.slot j)
              (w.barrier.held j) = w.seat j := by
            rw [touches.present j hji, touches.slot j hji]
            rfl
          rw [addTo_of_ne hji]
          have hgo : Stands (w.cursor + s.length) w.Told
              (w.cancelled = true ∨ loose) (rows j) (done j) (w.seat j)
              lane := hstand.proceed (fun ht => absurd ht hopen) id
          rw [← hseat] at hgo
          exact hgo
      asking := h.asking
      given := h.given.add hi hterminal
      feeds := feeds_offered h.feeds hoffered
      stats := h.stats
      halted := h.halted
      fresh := fun hs => by
        rw [show w.stage = .fresh from hs] at hrunning
        cases hrunning
      started := h.started
      idle := fun _ => ⟨howner, touches.fed.trans hon⟩
      acks := h.acks
      closing := fun hf => h.closing (touches.fed.symm.trans hf)
      calling := calling_of_working n _ rfl hrunning }

/-- A worker that has not left, or has not started, has its signal. -/
theorem Stands.held {cursor : Nat} {closed excused : Prop}
    {row done : List Segment} {seat : Seat} {lane : Lane}
    (h : Stands cursor closed excused row done seat lane)
    (here : lane.phase.isOver = false) : seat.held = true := by
  cases h with
  | still slot still seated made wire isOpen => exact seated ▸ rfl
  | busy part seated made wire left isOpen plain told => exact seated ▸ rfl
  | flushing seated made wire isOpen told => exact seated ▸ rfl
  | gone seated front counted shaped why => cases here
  | lost seated front counted shaped begun => cases here

/-- No signal is held, so all workers have left. -/
theorem Inv.over_of_deserted (h : Inv n loose rows done fed w)
    (hd : w.barrier.attended = false) :
    ∀ phase ∈ w.phases, phase.isOver = true := by
  intro phase hp
  obtain ⟨lane, hmem, rfl⟩ := List.mem_map.1 hp
  obtain ⟨i, hl⟩ := List.getElem?_of_mem hmem
  by_cases hover : lane.phase.isOver = true
  · exact hover
  · have hheld : w.barrier.held i = true :=
      (h.lanes i lane hl).held (by simpa using hover)
    obtain ⟨s, hs, hon⟩ := exists_of_held hheld
    have hoff : w.barrier.signals.any (·.held) = false := hd
    rw [List.any_eq_false] at hoff
    exact absurd hon (hoff s (List.mem_of_getElem? hs))

theorem Inv.leavers_le (h : Inv n loose rows done fed w) :
    w.leavers ≤ n := by
  have hle := List.countP_le_length
    (p := fun phase => decide (phase = Phase.gone)) (l := w.phases)
  rwa [length_phases, h.size] at hle

/-- All workers have acknowledged, so all of them have left. -/
theorem Inv.gone_of_leavers (h : Inv n loose rows done fed w)
    (hn : n ≤ w.leavers) : ∀ phase ∈ w.phases, phase = .gone := by
  have hall : w.phases.countP (· = .gone) = w.phases.length := by
    have hle := h.leavers_le
    rw [length_phases, h.size]
    exact Nat.le_antisymm hle hn
  intro phase hp
  simpa using List.countP_eq_length.1 hall phase hp

theorem Inv.over_of_leavers (h : Inv n loose rows done fed w)
    (hn : n ≤ w.leavers) : ∀ phase ∈ w.phases, phase.isOver = true :=
  fun phase hp => h.gone_of_leavers hn phase hp ▸ rfl

/-- **A segment is refused** only when all workers have left. -/
theorem Inv.over_of_refused (h : Inv n loose rows done fed w)
    (hl : ¬ loose) (hs : w.stage = .running) {s : Segment} {r : Sent}
    {h' : Handoff} (hsend : w.handoff.send s = (r, h'))
    (fails : ∀ i, r ≠ .sent i) (waits : r ≠ .pending) :
    ∀ phase ∈ w.phases, phase.isOver = true := by
  obtain ⟨_, hfed⟩ := h.idle (by simp [hs])
  have hands := hands_spec s h.handoff
  rw [hsend] at hands
  cases hands with
  | sent _ _ _ _ _ => exact absurd rfl (fails _)
  | pending _ => exact absurd rfl waits
  | refused _ _ _ _ _ lonely =>
    intro phase hp
    obtain ⟨lane, hmem, rfl⟩ := List.mem_map.1 hp
    obtain ⟨i, hi⟩ := List.getElem?_of_mem hmem
    have hun : lane.phase ≠ .unstarted := fun he =>
      (h.started (by simp [hs])).elim hl fun hno => hno (he ▸ hp)
    cases here : lane.phase.isHere with
    | false =>
      cases hq : lane.phase <;> rw [hq] at here hun <;>
        first | exact absurd rfl hun | rfl | cases here
    | true =>
      have hpresent := (h.seat_of_here hi here).1
      unfold present at hpresent
      split at hpresent
      · rename_i r hr
        have hoff := lonely hfed
        unfold Handoff.attended at hoff
        rw [List.any_eq_false] at hoff
        exact absurd hpresent (hoff r (List.mem_of_getElem? hr))
      · cases hpresent

/-- **A call counts the workers** that have left. -/
theorem Inv.count (h : Inv n loose rows done fed w)
    {started copied : Option Error}
    (hc : w.call = some (.stopping started copied))
    (ho : w.barrier.owner ≠ .begun) {result : Option Nat} {b' : Barrier}
    (hcount : w.barrier.count = some (result, b')) :
    ∃ k, w.barrier.owner = .waiting k ∧
      Counts w.barrier k (some (result, b')) ∧
      w.barrier.inbox.length + k = w.leavers := by
  obtain ⟨_, hbegun | ⟨k, hk⟩⟩ := h.calling.stopping started copied hc
  · exact absurd hbegun ho
  · have hspec := count_spec hk
    rw [hcount] at hspec
    exact ⟨k, hk, hspec, h.acks k (by rw [hk]; rfl)⟩

/-- A call has counted one more worker. -/
theorem Inv.tally (h : Inv n loose rows done fed w)
    {started copied : Option Error}
    (hc : w.call = some (.stopping started copied))
    (ho : w.barrier.owner ≠ .begun) {b' : Barrier}
    (hcount : w.barrier.count = some (none, b')) :
    Inv n loose rows done fed { w with barrier := b' } := by
  obtain ⟨k, hk, hspec, hacks⟩ := h.count hc ho hcount
  have hclosed := (h.calling.stopping started copied hc).1
  cases hspec with
  | @more a inbox taken lt =>
    refine h.rule (Keeps.of_eq rfl) ⟨rfl, rfl, rfl⟩ id .inl h.handoff
      (h.barrier.goOn _ (by simp [hk])) (fun _ => rfl) (fun _ _ => rfl) id
      h.halted (fun hs => absurd hclosed hs) ?_ h.closing ?_
    · intro j hj
      cases hj
      rw [taken, List.length_cons] at hacks
      show inbox.length + (k + 1) = w.leavers
      omega
    · refine ⟨by simp [hc], by simp [hc], ?_, by simp [hc]⟩
      intro _ _ _
      exact ⟨hclosed, .inr ⟨k + 1, rfl⟩⟩

/-- A call has counted all workers that acknowledge. -/
theorem Inv.settle (h : Inv n loose rows done fed w)
    {started copied : Option Error}
    (hc : w.call = some (.stopping started copied))
    (ho : w.barrier.owner ≠ .begun) {acknowledged : Nat} {b' : Barrier}
    (hcount : w.barrier.count = some (some acknowledged, b')) :
    Inv n loose rows done fed ({ w with
      barrier := b', handoff := w.handoff.close }.setCall
        (.shutting 0 acknowledged started copied)) := by
  obtain ⟨k, hk, hspec, hacks⟩ := h.count hc ho hcount
  have hclosed := (h.calling.stopping started copied hc).1
  have hgo {inbox : List Nat}
      (hover : ∀ phase ∈ w.phases, phase.isOver = true)
      (hall : acknowledged = w.leavers) :
      Inv n loose rows done fed ({ w with
        barrier := { w.barrier with inbox, owner := .released }
        handoff := w.handoff.close }.setCall
          (.shutting 0 acknowledged started copied)) := by
    refine h.rule (Keeps.of_eq rfl) ⟨rfl, rfl, rfl⟩ id .inl
      (sane_close h.handoff) (h.barrier.goOn _ (by simp [hk]))
      (fun _ => rfl) (fun _ _ => rfl) id h.halted
      (fun hs => absurd hclosed hs) nofun (fun _ => .inr hover) ?_
    refine ⟨by simp [setCall], by simp [setCall], by simp [setCall], ?_⟩
    intro next j started' copied' he
    cases he
    exact ⟨hclosed, rfl, hover, hall⟩
  have hle := h.leavers_le
  have hsize := h.barrier.size
  cases hspec with
  | all taken le =>
    rw [workers, hsize] at le
    rw [taken, List.length_cons] at hacks
    exact hgo (h.over_of_leavers (by omega)) (by omega)
  | nobody empty deserted =>
    rw [empty] at hacks
    exact hgo (h.over_of_deserted deserted) (by simpa using hacks)

/-- The tokens are sent. -/
theorem Inv.announce (h : Inv n loose rows done fed w)
    {started copied : Option Error}
    (hc : w.call = some (.stopping started copied))
    (ho : w.barrier.owner = .begun) :
    Inv n loose rows done fed { w with barrier := w.barrier.announce } := by
  have hclosed := (h.calling.stopping started copied hc).1
  refine h.rule (Keeps.of_eq rfl) ⟨rfl, rfl, rfl⟩ id .inl h.handoff
    (sane_announce h.barrier ho) ?_ ?_ id h.halted
    (fun hs => absurd hclosed hs) ?_ h.closing ?_
  · intro j
    have hheld : w.barrier.announce.held j = w.barrier.held j :=
      held_settle .sent w.barrier j
    simp only [seat, hheld]
  · intro j hj
    exact absurd (h.barrier.token_waiting (.inr ho) j) hj
  · intro k hk
    cases hk
    exact h.acks 0 (by rw [ho]; rfl)
  · refine ⟨by simp [hc], by simp [hc], ?_, by simp [hc]⟩
    intro _ _ _
    exact ⟨hclosed, .inr ⟨0, rfl⟩⟩

/-- **Shutting a connection down** keeps what is on its wire. -/
theorem shutLane_spec (w : Writer) (i : Nat) :
    Keeps w (w.shutLane i) ∧
      ((w.shutLane i).config = w.config ∧
        (w.shutLane i).cursor = w.cursor ∧
        (w.shutLane i).stats = w.stats) ∧
      ((w.shutLane i).stage = w.stage ∧
        (w.shutLane i).handoff = w.handoff ∧
        (w.shutLane i).barrier = w.barrier) ∧
      (w.cancelled = true → (w.shutLane i).cancelled = true) ∧
      ((w.failure.isSome = true → w.cancelled = true) →
        (w.shutLane i).failure.isSome = true →
          (w.shutLane i).cancelled = true) := by
  unfold shutLane
  split
  · exact ⟨.of_eq rfl, ⟨rfl, rfl, rfl⟩, ⟨rfl, rfl, rfl⟩, id, id⟩
  · exact ⟨.of_eq rfl, ⟨rfl, rfl, rfl⟩, ⟨rfl, rfl, rfl⟩, fun _ => rfl,
      fun _ _ => rfl⟩
  · rename_i c phase _ hl
    have hkeeps (v : Writer) (hv : v.lanes = w.lanes.set i
        ⟨c.shutdown.2, phase⟩) : Keeps w v :=
      .of_set hl (Outlet.wire_shutdown c) hv
    cases hf : c.shutdown.1 with
    | none =>
      simp only [hf]
      exact ⟨hkeeps _ rfl, ⟨rfl, rfl, rfl⟩, ⟨rfl, rfl, rfl⟩, id, id⟩
    | some cause =>
      simp only [hf]
      by_cases hstop : (w.setLane i ⟨c.shutdown.2, phase⟩).cancelled = true
      · rw [if_pos hstop]
        exact ⟨hkeeps _ rfl, ⟨rfl, rfl, rfl⟩, ⟨rfl, rfl, rfl⟩, id, id⟩
      · rw [if_neg hstop]
        exact ⟨hkeeps _ rfl, ⟨rfl, rfl, rfl⟩, ⟨rfl, rfl, rfl⟩,
          fun _ => rfl, fun _ _ => rfl⟩

theorem Inv.shut (h : Inv n loose rows done fed w) {next k : Nat}
    {started copied : Option Error}
    (hc : w.call = some (.shutting next k started copied)) :
    Inv n loose rows done fed ((w.shutLane next).setCall
      (.shutting (next + 1) k started copied)) := by
  obtain ⟨hclosed, howner, hover, hall⟩ :=
    h.calling.shutting next k started copied hc
  obtain ⟨keeps, hsame, ⟨hstage, hhandoff, hbarrier⟩, hstop, hhalt⟩ :=
    shutLane_spec w next
  have keeps' : Keeps w ((w.shutLane next).setCall
      (.shutting (next + 1) k started copied)) := ⟨keeps.lanes, keeps.phases⟩
  have hstage' := hstage.trans hclosed
  refine h.rule keeps' hsame (hstage ▸ id) (hstage ▸ .inl)
    (hhandoff ▸ h.handoff) (hbarrier ▸ h.barrier) ?_ ?_ hstop
    (hhalt h.halted) (fun hs => absurd hstage' hs) ?_ ?_ ?_
  · intro j
    simp only [seat, setCall, hhandoff, hbarrier]
  · intro j _
    simp only [setCall, hbarrier]
  · simp only [setCall, hbarrier]
    exact h.acks
  · simp only [setCall, hhandoff]
    exact h.closing
  · refine ⟨by simp [setCall], by simp [setCall], by simp [setCall], ?_⟩
    intro next' j started' copied' he
    cases he
    refine ⟨hstage', hbarrier ▸ howner, ?_, ?_⟩
    · rw [keeps'.phases]
      exact hover
    · rw [hall]
      exact congrArg (List.countP _) keeps'.phases.symm

theorem handed_reject (w v : Writer) (e : Error) (job : Job) :
    handed w (v.reject e job) = [] := by
  apply handed_of_not_working
  intro job'
  generalize hr : v.reject e job = v'
  cases reject_cases hr <;> simp [setCall, Writer.conclude]

/-- **Every move of the call** keeps the invariant. -/
theorem Inv.advance (h : Inv n loose rows done fed w)
    (ha : w.advance = some w') :
    ∃ rows', (∀ j, rows j <+: rows' j) ∧
      Inv n loose rows' done (fed ++ handed w w') w' := by
  have hsame (hnone : handed w w' = [])
      (h' : Inv n loose rows done fed w') :
      ∃ rows', (∀ j, rows j <+: rows' j) ∧
        Inv n loose rows' done (fed ++ handed w w') w' := by
    rw [hnone, List.append_nil]
    exact ⟨rows, fun _ => List.prefix_rfl, h'⟩
  -- a call that offers nothing hands nothing over
  have hidle {c : Call} (hc : w.call = some c)
      (hno : ∀ s job, c ≠ .offering s job) : handed w w' = [] := by
    apply handed_of_not_offering
    intro s job he
    rw [hc] at he
    exact hno s job (Option.some.inj he)
  cases advance_cases h.maxLen ha with
  | start call stage => exact hsame (hidle call (by simp)) (h.start stage _)
  | resume call stage =>
    exact hsame (hidle call (by simp))
      (h.recall ⟨rfl, rfl, rfl, rfl, rfl, rfl, rfl⟩ id h.halted
        (calling_of_working n fed rfl stage))
  | late call stage => exact hsame (hidle call (by simp)) (h.reject _ _)
  | abort call stopped =>
    exact hsame (handed_reject _ _ _ _) (h.reject _ _)
  | @hand s job i h' call going send =>
    have hone : handed w ({ w with
        handoff := h', cursor := w.cursor + s.length }.setCall
          (.working job)) = [s] := by
      simp [handed, call, setCall]
    rw [hone]
    exact ⟨addTo i s rows, front_addTo i s rows, h.hand call send⟩
  | @alone s job r h' call going send fails waits =>
    refine hsame (handed_reject _ _ _ _) (Inv.reject ?_ _ _)
    have hands := hands_spec s h.handoff
    rw [send] at hands
    cases hands with
    | sent _ _ _ _ _ => exact absurd rfl (fails _)
    | pending _ => exact absurd rfl waits
    | refused _ _ same sane seats _ =>
      obtain ⟨hrunning, hoffered⟩ := h.calling.offering s job call
      refine h.rule (.of_eq rfl) ⟨rfl, rfl, rfl⟩ id .inl sane h.barrier ?_
        (fun _ _ => rfl) id h.halted ?_ h.acks ?_
        (calling_of_offering call hrunning hoffered)
      · intro j
        simp only [seat, (seats j).1, (seats j).2]
      · intro hs
        obtain ⟨howner, hon⟩ := h.idle hs
        exact ⟨howner, same.trans hon⟩
      · intro hf
        exact h.closing (same.symm.trans hf)
  | proceed call proceeds =>
    exact hsame (hidle call (by simp))
      (h.proceed (h.calling.working _ call) proceeds)
  | announce call owner =>
    exact hsame (hidle call (by simp)) (h.announce call owner)
  | tally call owner count =>
    exact hsame (hidle call (by simp)) (h.tally call owner count)
  | settle call owner count =>
    exact hsame (hidle call (by simp)) (h.settle call owner count)
  | shut call lt => exact hsame (hidle call (by simp)) (h.shut call)
  | conclude call le => exact hsame (hidle call (by simp)) (h.conclude _)

/-! ## Users -/

/-- That something was let go may be taken into account too early. -/
theorem Inv.loosen {loose' : Prop} (h : Inv n loose rows done fed w)
    (hl : loose → loose') : Inv n loose' rows done fed w :=
  { h with
    barrier := h.barrier.loosen hl
    lanes := fun i lane hi => (h.lanes i lane hi).excuse (Or.imp_right hl)
    started := fun hs => (h.started hs).imp_left hl
    closing := fun hf => (h.closing hf).imp_left hl }

/-- The feeder goes, and the call in flight is let go. -/
theorem Inv.release (h : Inv n loose rows done fed w) (hl : loose)
    {stage : Stage} (hs : stage ≠ .fresh) (hc : stage = .closed)
    (stopped : Bool) (hstop : w.cancelled = true → stopped = true) :
    Inv n loose rows done fed
      { w.release with stage, cancelled := stopped, call := none } := by
  obtain ⟨hsane, hheld, htoken, howner⟩ :=
    release_spec h.barrier fun _ => hl
  refine h.rule (.of_eq rfl) ⟨rfl, rfl, rfl⟩ (fun hf => absurd hf hs)
    (fun _ => .inr hl) (sane_close h.handoff) hsane ?_ htoken hstop
    (fun hf => hstop (h.halted hf)) (fun hn => absurd hc hn) ?_
    (fun _ => .inl hl)
    (calling_of_opening n fed (.inl rfl))
  · intro j
    show Seat.mk _ _ (w.barrier.release.2.held j) = _
    rw [hheld]
    rfl
  · intro k hk
    rw [show w.release.barrier.owner = .released from howner] at hk
    cases hk

/-- The call has begun to stop the workers. -/
def Call.isLast : Call → Bool
  | .stopping .. | .shutting .. => true
  | _ => false

theorem Inv.abandon (h : Inv n loose rows done fed w)
    (hl : ∀ c, w.call = some c → c.isLast = true → loose) :
    Inv n loose rows done fed w.abandon := by
  have hgo (hl : loose) (hs : w.stage = .closed) :
      Inv n loose rows done fed { w.release with call := none } := by
    have hstay : { w.release with call := none } =
        { w.release with
          stage := .closed, cancelled := w.cancelled, call := none } := by
      rw [← hs]
      rfl
    rw [hstay]
    exact h.release hl (by simp) rfl w.cancelled id
  have hlet : Inv n loose rows done fed { w with call := none } :=
    h.recall ⟨rfl, rfl, rfl, rfl, rfl, rfl, rfl⟩ id h.halted
      (calling_of_opening n fed (.inl rfl))
  unfold Writer.abandon
  split
  · rename_i started copied hc
    exact hgo (hl _ hc rfl) (h.calling.stopping started copied hc).1
  · rename_i next k started copied hc
    exact hgo (hl _ hc rfl) (h.calling.shutting next k started copied hc).1
  · exact hlet

theorem Inv.drop (h : Inv n loose rows done fed w) (hl : loose) :
    Inv n loose rows done fed w.drop := by
  unfold Writer.drop
  split
  · rename_i hs
    refine h.rule (.of_eq rfl) ⟨rfl, rfl, rfl⟩ (fun hf => by cases hf)
      (fun _ => .inr hl) h.handoff h.barrier (fun _ => rfl)
      (fun _ _ => rfl) id h.halted (fun hn => absurd rfl hn) h.acks
      h.closing (calling_of_opening n fed (.inl rfl))
  · exact h.release hl (by simp) rfl true fun _ => rfl
  · have h' := h.abandon fun _ _ _ => hl
    exact h'.recall ⟨rfl, rfl, rfl, rfl, rfl, rfl, rfl⟩ id h'.halted
      (calling_of_opening n fed (.inl rfl))

/-- A call begins. -/
theorem Inv.begin (h : Inv n loose rows done fed w) (job : Job) :
    Inv n loose rows done fed (w.setCall (.opening job)) :=
  h.recall ⟨rfl, rfl, rfl, rfl, rfl, rfl, rfl⟩ id h.halted
    (calling_of_opening n fed (.inr ⟨job, rfl⟩))

theorem Inv.cancel (h : Inv n loose rows done fed w) :
    Inv n loose rows done fed w.cancel :=
  h.recall ⟨rfl, rfl, rfl, rfl, rfl, rfl, rfl⟩ (fun _ => rfl)
    (fun _ => rfl) ⟨h.calling.offering, h.calling.working,
      h.calling.stopping, h.calling.shutting⟩

theorem keeps_grantRoom (w : Writer) (i : Nat) (m : Option Nat) :
    Keeps w (w.grantRoom i m) := by
  refine ⟨?_, phases_grantRoom i m w⟩
  intro j lane' hj
  simp only [Writer.grantRoom, List.getElem?_modify, Option.map_eq_map,
    Option.map_eq_some_iff] at hj
  obtain ⟨lane, hl, rfl⟩ := hj
  by_cases hij : i = j
  · rw [if_pos hij]
    exact ⟨lane.outlet, hl, rfl⟩
  · rw [if_neg hij]
    exact ⟨lane.outlet, hl, rfl⟩

theorem Inv.grantRoom (h : Inv n loose rows done fed w) (i : Nat)
    (m : Option Nat) : Inv n loose rows done fed (w.grantRoom i m) := by
  have hkeeps := keeps_grantRoom w i m
  refine h.rule hkeeps ⟨rfl, rfl, rfl⟩ id .inl h.handoff h.barrier
    (fun _ => rfl) (fun _ _ => rfl) id h.halted h.idle h.acks h.closing ?_
  refine ⟨h.calling.offering, h.calling.working, h.calling.stopping, ?_⟩
  intro next k started copied hc
  rw [leavers, hkeeps.phases]
  exact h.calling.shutting next k started copied hc

/-- The writer is let go, or a call that has begun to stop the workers. -/
def LetsGo (w : Writer) (e : Event) : Prop :=
  e = .drop ∨ e = .abandon ∧ ∃ c, w.call = some c ∧ c.isLast = true

/-- **Every event keeps the invariant**, whatever happens to the
connections and whatever the users do. -/
theorem Inv.step (h : Inv n loose rows done fed w) {e : Event}
    (hs : w.step e = some w') :
    ∃ rows' done', (∀ j, rows j <+: rows' j) ∧
      Inv n (loose ∨ w.LetsGo e) rows' done' (fed ++ handed w w') w' := by
  have hsame (hnone : handed w w' = [])
      (h' : Inv n (loose ∨ w.LetsGo e) rows done fed w') :
      ∃ rows' done', (∀ j, rows j <+: rows' j) ∧
        Inv n (loose ∨ w.LetsGo e) rows' done' (fed ++ handed w w') w' := by
    rw [hnone, List.append_nil]
    exact ⟨rows, done, fun _ => List.prefix_rfl, h'⟩
  cases step_cases hs with
  | work work =>
    obtain ⟨rows', done', hle, h'⟩ := h.work work
    rw [handed_of_call_eq (h.worked work).frame.2.2.2.1, List.append_nil]
    exact ⟨rows', done', hle, h'.loosen .inl⟩
  | advance advance =>
    obtain ⟨rows', hle, h'⟩ := h.advance advance
    exact ⟨rows', done, hle, h'.loosen .inl⟩
  | begin idle begins =>
    exact hsame (handed_of_not_offering (by simp [idle]))
      ((h.begin _).loosen .inl)
  | abandon busy =>
    refine hsame (handed_of_not_working (by simp))
      ((h.loosen .inl).abandon ?_)
    intro c hc hlast
    exact .inr (.inr ⟨rfl, c, hc, hlast⟩)
  | cancel => exact hsame (handed_of_call_eq rfl) (h.cancel.loosen .inl)
  | drop =>
    exact hsame (handed_of_not_working (by simp))
      ((h.loosen .inl).drop (.inr (.inl rfl)))
  | room i m =>
    exact hsame (handed_of_call_eq rfl) ((h.grantRoom i m).loosen .inl)

end Calls
end Stripe.Writer
