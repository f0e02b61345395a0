import Stripe.Proofs.Rows
import Stripe.Proofs.Writer.Moves

/-!
# What holds in every state of a writer

`Inv` relates the state of a writer to its history: to the segments that
were handed to each worker, to those of them that it has counted, and to
all segments that were handed over, in order. It holds at first
(`inv_make`), and everything that can happen keeps it.

Nothing is asked of the connections, and nothing of the users: any write
call may fail, and the writer may be stopped or let go at any time. So
what a worker leaves behind is described as long as there was no excuse to
leave early.
-/

namespace Stripe

namespace Segment

/-- Data segments of at most `max` bytes, one after the other from `start`
on. -/
def Laid (max : Nat) : (start : Nat) → List Segment → Prop
  | _, [] => True
  | start, s :: rest =>
    s = .data s.payload (.ofNat start) .none ∧ s.payload ≠ [] ∧
      s.length ≤ max ∧ Laid max (start + s.length) rest

@[simp] theorem laid_append {max start : Nat} {l r : List Segment} :
    Laid max start (l ++ r) ↔
      Laid max start l ∧ Laid max (start + (joined l).length) r := by
  induction l generalizing start with
  | nil => simp [Laid]
  | cons s l ih =>
    simp only [List.cons_append, Laid, ih, joined_cons, List.length_append,
      and_assoc]
    rw [Nat.add_assoc]
    rfl

theorem laid_singleton {max start : Nat} {bs : Bytes} (hne : bs ≠ [])
    (hle : bs.length ≤ max) :
    Laid max start [.data bs (.ofNat start) .none] :=
  ⟨rfl, hne, hle, trivial⟩

theorem Laid.data {max start : Nat} {l : List Segment}
    (h : Laid max start l) {s : Segment} (hs : s ∈ l) :
    s.payload ≠ [] ∧ s.length ≤ max ∧
      ∃ offset, s = .data s.payload offset .none := by
  induction l generalizing start with
  | nil => simp at hs
  | cons t l ih =>
    obtain ⟨heq, hne, hle, hl⟩ := h
    rcases List.mem_cons.1 hs with rfl | hs
    · exact ⟨hne, hle, _, heq⟩
    · exact ih hl hs

/-- What was handed over: the control segment, and then the data segments
of a stream of `cursor` bytes. Without the control segment if the call
that was to hand it over was given up. -/
def Feeds (n max : Nat) (fed : List Segment) (cursor : Nat) : Prop :=
  ∃ chain, (fed = chain ∨ fed = .control (.ofNat n) :: chain) ∧
    Laid max 0 chain ∧ cursor = (joined chain).length

/-- A segment that was handed over carries bytes or announces. -/
theorem Feeds.proper {n max cursor : Nat} {fed : List Segment}
    (h : Feeds n max fed cursor) {s : Segment} (hs : s ∈ fed) :
    s = .control (.ofNat n) ∨ s.payload ≠ [] ∧ s.length ≤ max ∧
      ∃ offset, s = .data s.payload offset .none := by
  obtain ⟨chain, hfed, hlaid, _⟩ := h
  rcases hfed with rfl | rfl
  · exact .inr (hlaid.data hs)
  · rcases List.mem_cons.1 hs with rfl | hs
    · exact .inl rfl
    · exact .inr (hlaid.data hs)

theorem Feeds.cursor_eq {n max cursor : Nat} {fed : List Segment}
    (h : Feeds n max fed cursor) : cursor = (joined fed).length := by
  obtain ⟨chain, hfed, _, hcursor⟩ := h
  rcases hfed with rfl | rfl
  · exact hcursor
  · exact hcursor

/-- The segments that are not terminal. -/
def openOf (row : List Segment) : List Segment :=
  row.filter fun s => !s.isTerminal

@[simp] theorem openOf_append (l r : List Segment) :
    openOf (l ++ r) = openOf l ++ openOf r := by
  simp [openOf]

theorem openOf_singleton (s : Segment) :
    openOf [s] = if s.isTerminal then [] else [s] := by
  cases h : s.isTerminal <;> simp [openOf, h]

/-- The segments `fed` were dealt out: each of them is in one of the rows,
and a row has its own in order. -/
structure Dealt (n : Nat) (rows : Nat → List Segment)
    (fed : List Segment) : Prop where
  all : (openOf (gathered n rows)).Perm fed
  order : ∀ i < n, (openOf (rows i)).Sublist fed

section Dealt

variable {n i : Nat} {rows : Nat → List Segment} {fed : List Segment}
  {s : Segment}

theorem dealt_nil (n : Nat) : Dealt n (fun _ => []) [] := by
  have hnil : gathered n (fun _ => []) = [] := by simp [gathered]
  refine ⟨?_, fun _ _ => List.nil_sublist _⟩
  rw [hnil]
  exact .nil

/-- One more segment is dealt out. -/
theorem Dealt.add (h : Dealt n rows fed) (hi : i < n)
    (hs : s.isTerminal = false) : Dealt n (addTo i s rows) (fed ++ [s]) := by
  have hone : openOf [s] = [s] := by simp [openOf_singleton, hs]
  refine ⟨?_, ?_⟩
  · refine ((gathered_addTo hi s rows).filter _).trans ?_
    show (openOf (gathered n rows ++ [s])).Perm _
    rw [openOf_append, hone]
    exact h.all.append_right [s]
  · intro j hj
    by_cases hji : j = i
    · subst hji
      rw [addTo_self, openOf_append, hone]
      exact (h.order j hj).append_right [s]
    · rw [addTo_of_ne hji]
      exact (h.order j hj).trans (List.sublist_append_left _ _)

/-- A terminal segment is not dealt out. -/
theorem Dealt.finish (h : Dealt n rows fed) (hi : i < n)
    (hs : s.isTerminal = true) : Dealt n (addTo i s rows) fed := by
  have hnone : openOf [s] = [] := by simp [openOf_singleton, hs]
  refine ⟨?_, ?_⟩
  · refine ((gathered_addTo hi s rows).filter _).trans ?_
    show (openOf (gathered n rows ++ [s])).Perm _
    rw [openOf_append, hnone, List.append_nil]
    exact h.all
  · intro j hj
    by_cases hji : j = i
    · subst hji
      rw [addTo_self, openOf_append, hnone, List.append_nil]
      exact h.order j hj
    · rw [addTo_of_ne hji]
      exact h.order j hj

end Dealt

/-- The row is open, or ended by the terminal segment for `cursor`. -/
def Shaped (cursor : Nat) (closed : Prop) (row : List Segment) : Prop :=
  Open row ∨ closed ∧ ∃ init,
    row = init ++ [.terminal (.ofNat cursor)] ∧ Open init

end Segment

namespace Writer

open Segment Handoff Barrier

/-- The seat of a worker at the hand-off and at the barrier. -/
structure Seat where
  present : Bool
  slot : Handoff.Slot
  held : Bool

def seat (w : Writer) (i : Nat) : Seat :=
  ⟨w.handoff.present i, w.handoff.slot i, w.barrier.held i⟩

/-- The worker has left or was lost. -/
def Phase.isOver : Phase → Bool
  | .gone | .lost _ => true
  | _ => false

/-- The worker has started, and has not left. -/
def Phase.isHere : Phase → Bool
  | .unstarted | .gone | .lost _ => false
  | _ => true

/-- Where a worker stands that was handed the segments `row`, and has
counted `done` of them. `closed` says that the workers were told to stop,
`excused` that a worker may leave before it has written everything. -/
inductive Stands (cursor : Nat) (closed excused : Prop)
    (row done : List Segment) (seat : Seat) : Lane → Prop where
  | still {c : Outlet} {phase : Phase} (slot : Handoff.Slot)
      (still : phase = .unstarted ∨ phase = .idle ∨ phase = .asking)
      (seated : seat = ⟨true, slot, true⟩)
      (made : row = done ++ slot.content) (wire : c.wire = encodeAll done)
      (isOpen : Open row) : Stands cursor closed excused row done seat
        ⟨c, phase⟩
  | busy {c : Outlet} {phase : Phase} {s : Segment} {rest : Outgoing}
      (part : phase.part cursor = some (s, rest))
      (seated : seat = ⟨true, .unposted, true⟩) (made : row = done ++ [s])
      (wire : c.wire ++ rest.bytes = encodeAll row)
      (left : rest.bytes ≠ []) (isOpen : Open done)
      (plain : ∀ u r last, phase = .writing u r last →
        u.isTerminal = false)
      (told : closed ∨ ∃ u r, phase = .writing u r false) :
      Stands cursor closed excused row done seat ⟨c, phase⟩
  | flushing {c : Outlet} (seated : seat = ⟨true, .unposted, true⟩)
      (made : row = done ++ [.terminal (.ofNat cursor)])
      (wire : c.wire = encodeAll row) (isOpen : Open done)
      (told : closed) : Stands cursor closed excused row done seat
        ⟨c, .flushing⟩
  | gone {c : Outlet} (seated : seat = ⟨false, .unposted, false⟩)
      (front : c.wire <+: encodeAll row) (counted : done <+: row)
      (shaped : Shaped cursor closed row)
      (why : row = done ∧ c.wire = encodeAll row ∧ ¬ Open row ∨ excused) :
      Stands cursor closed excused row done seat ⟨c, .gone⟩
  | lost {c : Outlet} {message : String}
      (seated : seat = ⟨false, .unposted, false⟩)
      (front : c.wire <+: encodeAll row) (counted : done <+: row)
      (shaped : Shaped cursor closed row) (begun : row ≠ []) :
      Stands cursor closed excused row done seat ⟨c, .lost message⟩

/-- A segment that a call may offer. -/
def Offered (n : Nat) (fed : List Segment) (w : Writer) (s : Segment) :
    Prop :=
  s = .control (.ofNat n) ∧ fed = [] ∨
    ∃ bytes, bytes ≠ [] ∧ bytes.length ≤ w.config.maxSegmentLen ∧
      s = w.nextSegment bytes

/-- What is offered comes next in the stream. -/
theorem feeds_offered {n : Nat} {fed : List Segment} {w : Writer}
    (h : Feeds n w.config.maxSegmentLen fed w.cursor) {s : Segment}
    (hs : Offered n fed w s) :
    Feeds n w.config.maxSegmentLen (fed ++ [s]) (w.cursor + s.length) := by
  obtain ⟨chain, hfed, hlaid, hcursor⟩ := h
  rcases hs with ⟨rfl, hnil⟩ | ⟨bytes, hne, hle, rfl⟩
  · obtain rfl : chain = [] := by
      rcases hfed with rfl | rfl
      · exact hnil
      · cases hnil
    exact ⟨[], .inr (by rw [hnil]; rfl), trivial, hcursor⟩
  · refine ⟨chain ++ [w.nextSegment bytes], ?_, laid_append.2 ⟨hlaid, ?_⟩,
      ?_⟩
    · rcases hfed with rfl | rfl
      · exact .inl rfl
      · exact .inr rfl
    · rw [Nat.zero_add, ← hcursor]
      exact laid_singleton hne hle
    · rw [joined_append, List.length_append, ← hcursor]
      simp [nextSegment, Segment.length]

/-- How many workers have left, and said so. -/
def leavers (w : Writer) : Nat := w.phases.countP (· = .gone)

/-- The call in flight fits the stage that the writer is in. -/
structure Calling (n : Nat) (fed : List Segment) (w : Writer) : Prop where
  offering : ∀ s job, w.call = some (.offering s job) →
    w.stage = .running ∧ Offered n fed w s
  working : ∀ job, w.call = some (.working job) → w.stage = .running
  stopping : ∀ started copied, w.call = some (.stopping started copied) →
    w.stage = .closed ∧
      (w.barrier.owner = .begun ∨ ∃ k, w.barrier.owner = .waiting k)
  shutting : ∀ next k started copied,
    w.call = some (.shutting next k started copied) →
      w.stage = .closed ∧ w.barrier.owner = .released ∧
        (∀ phase ∈ w.phases, phase.isOver = true) ∧ k = w.leavers

/-- Some worker was told to stop. -/
def Told (w : Writer) : Prop := ∃ i, w.barrier.token i = .sent

/-- The state of a writer to `n` connections, after the segments `fed` were
handed over, `rows i` of them to worker `i`, which has counted `done i`.
`loose` says that a call or the writer itself was let go. -/
structure Inv (n : Nat) (loose : Prop) (rows done : Nat → List Segment)
    (fed : List Segment) (w : Writer) : Prop where
  size : w.lanes.length = n
  pos : 0 < n
  maxLen : 0 < w.config.maxSegmentLen
  handoff : w.handoff.Sane n
  barrier : w.barrier.Sane n loose
  lanes : ∀ i lane, w.lanes[i]? = some lane →
    Stands w.cursor w.Told (w.cancelled = true ∨ loose)
      (rows i) (done i) (w.seat i) lane
  /-- A worker that looks whether it is to stop has a reason. -/
  asking : ∀ i c, w.lanes[i]? = some ⟨c, .asking⟩ →
    w.cancelled = true ∨ w.barrier.token i ≠ .waiting
  given : Dealt n rows fed
  feeds : Feeds n w.config.maxSegmentLen fed w.cursor
  stats : w.stats = Stats.tally n done
  halted : w.failure.isSome = true → w.cancelled = true
  fresh : w.stage = .fresh →
    fed = [] ∧ ∀ phase ∈ w.phases, phase = .unstarted
  started : w.stage ≠ .fresh → loose ∨ .unstarted ∉ w.phases
  idle : w.stage ≠ .closed →
    w.barrier.owner = .idle ∧ w.handoff.fed = true
  acks : ∀ k, w.barrier.owner.received? = some k →
    w.barrier.inbox.length + k = w.leavers
  closing : w.handoff.fed = false →
    loose ∨ ∀ phase ∈ w.phases, phase.isOver = true
  calling : w.Calling n fed

/-! ## Facts about lanes -/

section Lanes

variable {cursor : Nat} {closed excused : Prop} {row done : List Segment}
  {seat : Seat} {lane : Lane}

/-- What is on the wire is at the front of what was handed over. -/
theorem Stands.front (h : Stands cursor closed excused row done seat lane) :
    lane.outlet.wire <+: encodeAll row := by
  cases h with
  | still slot still seated made wire isOpen =>
    rw [made, wire, encodeAll_append]
    exact ⟨_, rfl⟩
  | busy part seated made wire left isOpen plain told => exact ⟨_, wire⟩
  | flushing seated made wire isOpen told => exact ⟨[], by simpa using wire⟩
  | gone seated front counted shaped why => exact front
  | lost seated front counted shaped begun => exact front

theorem Stands.counted
    (h : Stands cursor closed excused row done seat lane) :
    done <+: row := by
  cases h with
  | still slot still seated made wire isOpen => exact ⟨_, made.symm⟩
  | busy part seated made wire left isOpen plain told =>
    exact ⟨_, made.symm⟩
  | flushing seated made wire isOpen told => exact ⟨_, made.symm⟩
  | gone seated front counted shaped why => exact counted
  | lost seated front counted shaped begun => exact counted

theorem Stands.shaped
    (h : Stands cursor closed excused row done seat lane) :
    Shaped cursor closed row := by
  cases h with
  | still slot still seated made wire isOpen => exact .inl isOpen
  | @busy c phase s rest part seated made wire left isOpen plain told =>
    cases phase with
    | writing u r last =>
      cases part
      refine .inl (made ▸ open_append.2 ⟨isOpen, open_singleton.2 ?_⟩)
      exact plain s rest last rfl
    | ending r =>
      cases part
      refine .inr ⟨?_, done, made, isOpen⟩
      rcases told with hc | ⟨u, r, hp⟩
      · exact hc
      · cases hp
    | _ => cases part
  | flushing seated made wire isOpen told =>
    exact .inr ⟨told, done, made, isOpen⟩
  | gone seated front counted shaped why => exact shaped
  | lost seated front counted shaped begun => exact shaped

/-- A worker that has not left has its seat. -/
theorem Stands.seated
    (h : Stands cursor closed excused row done seat lane)
    (here : lane.phase.isHere = true) :
    seat.present = true ∧ seat.held = true := by
  cases h with
  | still slot still seated made wire isOpen => exact seated ▸ ⟨rfl, rfl⟩
  | busy part seated made wire left isOpen plain told =>
    exact seated ▸ ⟨rfl, rfl⟩
  | flushing seated made wire isOpen told => exact seated ▸ ⟨rfl, rfl⟩
  | gone seated front counted shaped why => cases here
  | lost seated front counted shaped begun => cases here

/-- A worker that has left without an excuse was told to, and has written
its terminal segment. -/
theorem Stands.of_gone {c : Outlet}
    (h : Stands cursor closed excused row done seat ⟨c, .gone⟩)
    (hno : ¬ excused) :
    closed ∧ row = done ∧ c.wire = encodeAll row ∧
      ∃ init, row = init ++ [.terminal (.ofNat cursor)] ∧ Open init := by
  cases h with
  | still slot still _ _ _ _ => rcases still with he | he | he <;> cases he
  | busy part _ _ _ _ _ _ _ => cases part
  | gone seated front counted shaped why =>
    obtain ⟨heq, hwire, hended⟩ := why.resolve_right hno
    rcases shaped with hopen | ⟨hclosed, hrow⟩
    · exact absurd hopen hended
    · exact ⟨hclosed, heq, hwire, hrow⟩

/-- What is known of a worker that flushes its connection. -/
theorem Stands.of_flushing {c : Outlet}
    (h : Stands cursor closed excused row done seat ⟨c, .flushing⟩) :
    row = done ++ [.terminal (.ofNat cursor)] ∧ c.wire = encodeAll row ∧
      Open done ∧ closed := by
  cases h with
  | still slot still _ _ _ _ => rcases still with he | he | he <;> cases he
  | busy part _ _ _ _ _ _ _ => cases part
  | flushing seated made wire isOpen told => exact ⟨made, wire, isOpen, told⟩

/-- More excuses do no harm. -/
theorem Stands.excuse {excused' : Prop}
    (h : Stands cursor closed excused row done seat lane)
    (he : excused → excused') :
    Stands cursor closed excused' row done seat lane := by
  cases h with
  | still slot still seated made wire isOpen =>
    exact .still slot still seated made wire isOpen
  | busy part seated made wire left isOpen plain told =>
    exact .busy part seated made wire left isOpen plain told
  | flushing seated made wire isOpen told =>
    exact .flushing seated made wire isOpen told
  | gone seated front counted shaped why =>
    exact .gone seated front counted shaped (why.imp_right he)
  | lost seated front counted shaped begun =>
    exact .lost seated front counted shaped begun

/-- Until the workers are told to stop, the cursor plays no part, and
afterwards it stays where it is. -/
theorem Stands.proceed {cursor' : Nat} {closed' : Prop}
    (h : Stands cursor closed excused row done seat lane)
    (hcursor : closed → cursor' = cursor) (hclosed : closed → closed') :
    Stands cursor' closed' excused row done seat lane := by
  have hshaped (h : Shaped cursor closed row) :
      Shaped cursor' closed' row := by
    rcases h with hopen | ⟨hc, hrest⟩
    · exact .inl hopen
    · exact .inr ⟨hclosed hc, hcursor hc ▸ hrest⟩
  cases h with
  | still slot still seated made wire isOpen =>
    exact .still slot still seated made wire isOpen
  | busy part seated made wire left isOpen plain told =>
    rcases told with hc | hw
    · exact .busy (hcursor hc ▸ part) seated made wire left isOpen plain
        (.inl (hclosed hc))
    · refine .busy ?_ seated made wire left isOpen plain (.inr hw)
      obtain ⟨u, r, rfl⟩ := hw
      exact part
  | flushing seated made wire isOpen told =>
    exact .flushing seated (hcursor told ▸ made) wire isOpen (hclosed told)
  | gone seated front counted shaped why =>
    exact .gone seated front counted (hshaped shaped) why
  | lost seated front counted shaped begun =>
    exact .lost seated front counted (hshaped shaped) begun

/-- What stands on the wire is what counts. -/
theorem Stands.congr_outlet {c c' : Outlet} {phase : Phase}
    (h : Stands cursor closed excused row done seat ⟨c, phase⟩)
    (hw : c'.wire = c.wire) :
    Stands cursor closed excused row done seat ⟨c', phase⟩ := by
  cases h with
  | still slot still seated made wire isOpen =>
    exact .still slot still seated made (hw.trans wire) isOpen
  | busy part seated made wire left isOpen plain told =>
    exact .busy part seated made (hw ▸ wire) left isOpen plain told
  | flushing seated made wire isOpen told =>
    exact .flushing seated made (hw.trans wire) isOpen told
  | gone seated front counted shaped why =>
    exact .gone seated (hw ▸ front) counted shaped (hw ▸ why)
  | lost seated front counted shaped begun =>
    exact .lost seated (hw ▸ front) counted shaped begun

end Lanes

section Inv

variable {n : Nat} {loose : Prop} {rows done : Nat → List Segment}
  {fed : List Segment} {w : Writer}

theorem Inv.lt (h : Inv n loose rows done fed w) {i : Nat} {lane : Lane}
    (hl : w.lanes[i]? = some lane) : i < n := by
  rw [← h.size]
  exact (List.getElem?_eq_some_iff.1 hl).1

theorem Inv.lane_of_lt (h : Inv n loose rows done fed w) {i : Nat}
    (hi : i < n) : ∃ lane, w.lanes[i]? = some lane := by
  have hlt : i < w.lanes.length := by rw [h.size]; exact hi
  exact ⟨_, List.getElem?_eq_getElem hlt⟩

theorem Inv.shaped (h : Inv n loose rows done fed w) {i : Nat}
    (hi : i < n) : Shaped w.cursor w.Told (rows i) := by
  obtain ⟨lane, hl⟩ := h.lane_of_lt hi
  exact (h.lanes i lane hl).shaped

/-- What is on a wire is at the front of what its worker was handed. -/
theorem Inv.front (h : Inv n loose rows done fed w) {i : Nat} (hi : i < n) :
    w.wire i <+: encodeAll (rows i) := by
  obtain ⟨lane, hl⟩ := h.lane_of_lt hi
  rw [wire, hl]
  exact (h.lanes i lane hl).front

/-- A segment of an open row was handed over. -/
theorem Inv.mem_fed (h : Inv n loose rows done fed w) {i : Nat}
    (hi : i < n) {s : Segment} (hs : s ∈ rows i)
    (ht : s.isTerminal = false) : s ∈ fed := by
  refine h.given.all.mem_iff.1 (List.mem_filter.2 ⟨?_, by simp [ht]⟩)
  exact mem_gathered.2 ⟨i, hi, hs⟩

/-- A worker that is told to stop is told by `finish`. -/
theorem Inv.closed_of_sent (h : Inv n loose rows done fed w) {i : Nat}
    (ht : w.barrier.token i = .sent) : w.stage = .closed := by
  by_cases hc : w.stage = .closed
  · exact hc
  · unfold token at ht
    split at ht
    · rename_i s hs
      have hfit := h.barrier.signals s (List.mem_of_getElem? hs)
      have hwait := hfit.waiting.2 (.inl (h.idle hc).1)
      rw [ht] at hwait
      cases hwait
    · cases ht

theorem Inv.closed_of_told (h : Inv n loose rows done fed w)
    (ht : w.Told) : w.stage = .closed := by
  obtain ⟨i, hi⟩ := ht
  exact h.closed_of_sent hi

/-- A token is lost only if the owner was let go. -/
theorem Inv.loose_of_lost (h : Inv n loose rows done fed w) {i : Nat}
    (ht : w.barrier.token i = .lost) : loose := by
  unfold token at ht
  split at ht
  · rename_i s hs
    exact (h.barrier.signals s (List.mem_of_getElem? hs)).lost ht
  · cases ht

end Inv

/-! ## The first state -/

theorem make_eq_ok {outlets : List Outlet} {config : Config} {w : Writer}
    (h : make outlets config = .ok w) :
    config.validate = .ok () ∧ outlets ≠ [] ∧ w =
      { config
        lanes := outlets.map (⟨·, .unstarted⟩)
        stage := .fresh
        handoff := .make outlets.length outlets.length
        barrier := .make outlets.length
        cursor := 0
        failure := none
        cancelled := false
        stats := .ofConnections outlets.length
        call := none
        answer := none } := by
  unfold make at h
  split at h
  · cases h
  · rename_i hv
    split at h
    · cases h
    · rename_i hne
      cases h
      exact ⟨hv, by simpa using hne, rfl⟩

theorem countP_unstarted (outlets : List Outlet) :
    (outlets.map fun _ => Phase.unstarted).countP (· = .gone) = 0 := by
  rw [List.countP_eq_zero]
  simp

theorem inv_make {outlets : List Outlet} {config : Config} {w : Writer}
    (h : make outlets config = .ok w)
    (hblank : ∀ c ∈ outlets, c.log = #[]) :
    Inv outlets.length False (fun _ => []) (fun _ => []) [] w := by
  obtain ⟨hv, hne, rfl⟩ := make_eq_ok h
  have hphases : phases { config
                          lanes := outlets.map (⟨·, .unstarted⟩)
                          stage := .fresh
                          handoff := .make outlets.length outlets.length
                          barrier := .make outlets.length
                          cursor := 0
                          failure := none
                          cancelled := false
                          stats := .ofConnections outlets.length
                          call := none
                          answer := none } =
      outlets.map fun _ => Phase.unstarted := by
    simp [phases, Function.comp_def]
  refine
    { size := by simp
      pos := List.length_pos_iff.2 hne
      maxLen := (Config.validate_eq_ok_iff.1 hv).1
      handoff := Handoff.sane_make _
      barrier := Barrier.sane_make _ _
      lanes := ?_
      asking := ?_
      given := ?_
      feeds := ⟨[], .inl rfl, trivial, rfl⟩
      stats := (Stats.tally_nil _).symm
      halted := by simp
      fresh := fun _ => ⟨rfl, by rw [hphases]; simp⟩
      started := by simp
      idle := fun _ => ⟨rfl, rfl⟩
      acks := ?_
      closing := by simp [Handoff.make]
      calling := ⟨by simp, by simp, by simp, by simp⟩ }
  · intro i lane hl
    obtain ⟨c, hc, rfl⟩ := List.mem_map.1 (List.mem_of_getElem? hl)
    have hi : i < outlets.length := by
      simpa using (List.getElem?_eq_some_iff.1 hl).1
    refine .still .unposted (.inl rfl) ?_ rfl ?_ open_nil
    · simp [seat, Handoff.make, Barrier.make, Handoff.present, Handoff.slot,
        Barrier.held, hi]
    · simp [Outlet.wire, hblank c hc]
  · intro i c hl
    obtain ⟨_, _, he⟩ := List.mem_map.1 (List.mem_of_getElem? hl)
    cases he
  · exact dealt_nil _
  · intro k hk
    cases hk
    rw [leavers, hphases, countP_unstarted]
    rfl

end Writer
end Stripe
