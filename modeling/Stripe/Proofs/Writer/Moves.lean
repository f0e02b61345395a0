import Stripe.Writer
import Stripe.Proofs.Handing
import Stripe.Proofs.Sending

/-!
# The moves of a writer

What one move of a worker, one move of a call and any event can do, listed
once (`work_cases`, `advance_cases`, `step_cases`), so that nothing later
has to open their definitions. A worker that writes a segment and one that writes its
terminal segment differ only in what comes after it, so `Phase.part` says
of both what they write and how much of it is left.
-/

namespace Stripe.Writer

open Handoff Barrier

@[simp] theorem length_phases (w : Writer) :
    w.phases.length = w.lanes.length := by
  simp [phases]

@[simp] theorem lanes_setLane (i : Nat) (lane : Lane) (w : Writer) :
    (w.setLane i lane).lanes = w.lanes.set i lane := rfl

@[simp] theorem phases_setLane (i : Nat) (lane : Lane) (w : Writer) :
    (w.setLane i lane).phases = w.phases.set i lane.phase := by
  simp [phases, List.map_set]

@[simp] theorem phases_grantRoom (i : Nat) (n : Option Nat) (w : Writer) :
    (w.grantRoom i n).phases = w.phases := by
  apply List.ext_getElem (by simp [phases, grantRoom])
  intro j _ _
  simp only [phases, grantRoom, List.getElem_map, List.getElem_modify]
  split <;> rfl

theorem phases_eq_some {w : Writer} {i : Nat} {lane : Lane}
    (h : w.lanes[i]? = some lane) : w.phases[i]? = some lane.phase := by
  simp [phases, h]

/-! ## Workers -/

/-- The segment that a worker writes, and what is left of it. -/
def Phase.part (cursor : Nat) : Phase → Option (Segment × Outgoing)
  | .writing s rest _ => some (s, rest)
  | .ending rest => some (.terminal (.ofNat cursor), rest)
  | _ => none

/-- The phase of a worker that has less left to write. -/
def Phase.goOn (rest : Outgoing) : Phase → Phase
  | .writing s _ last => .writing s rest last
  | .ending _ => .ending rest
  | phase => phase

/-- The segment that a worker has written is counted, unless it is its
terminal segment. -/
def account (i : Nat) (phase : Phase) (w : Writer) : Writer :=
  match phase with
  | .writing s _ _ => w.record i s
  | _ => w

/-- What a worker does when it has written what it had to. -/
def after (i : Nat) (c : Outlet) (phase : Phase) (w : Writer) : Writer :=
  match phase with
  | .writing _ _ false => w.setLane i ⟨c, .idle⟩
  | .writing _ _ true => w.beginEnd i c
  | _ => w.setLane i ⟨c, .flushing⟩

/-- What a worker does after a write call that has come to `p`. -/
def wrote (i : Nat) (c : Outlet) (phase : Phase) (w : Writer)
    (p : Outgoing.Progress) : Writer :=
  match p with
  | .more rest => w.setLane i ⟨c, phase.goOn rest⟩
  | .done => (w.account i phase).after i c phase
  | .failed cause => w.failLane i c cause
  | .panicked message => w.lose i c message

/-- What a move of worker `i` can do, if its receiver has not left. -/
inductive Worked (i : Nat) (w : Writer) : Writer → Prop where
  /-- A segment was handed over. -/
  | begin {c : Outlet} {s : Segment} (lane : w.lanes[i]? = some ⟨c, .idle⟩)
      (slot : w.handoff.slot i = .filled s) :
      Worked i w ({ w with
        handoff := w.handoff.setSlot i .unposted }.beginSegment i c s false)
  | post {c : Outlet} {h' : Handoff} (lane : w.lanes[i]? = some ⟨c, .idle⟩)
      (slot : w.handoff.slot i = .unposted)
      (receives : Receives i w.handoff .pending h')
      (slot' : h'.slot i = .posted)
      (queue : h'.ready = w.handoff.ready ++ [some i]) :
      Worked i w { w with handoff := h' }
  | ask {c : Outlet} (lane : w.lanes[i]? = some ⟨c, .idle⟩)
      (empty : (w.handoff.slot i).content = [])
      (disturbed : w.disturbed i = true) :
      Worked i w (w.setLane i ⟨c, .asking⟩)
  /-- No segment will be handed over. -/
  | quit {c : Outlet} {h' : Handoff} (lane : w.lanes[i]? = some ⟨c, .idle⟩)
      (receives : Receives i w.handoff .closed h') :
      Worked i w ({ w with handoff := h' }.leave i c)
  /-- It was told to stop, and has something in its slot. -/
  | last {c : Outlet} {b' : Barrier} {s : Segment} {h' : Handoff}
      (lane : w.lanes[i]? = some ⟨c, .asking⟩)
      (judges : w.barrier.shouldStop i = (.stop true, b'))
      (taken : w.handoff.takePending i = (some s, h')) :
      Worked i w ({ w with
        barrier := b', handoff := h' }.beginSegment i c s true)
  | obey {c : Outlet} {b' : Barrier} {h' : Handoff}
      (lane : w.lanes[i]? = some ⟨c, .asking⟩)
      (judges : w.barrier.shouldStop i = (.stop true, b'))
      (taken : w.handoff.takePending i = (none, h')) :
      Worked i w ({ w with barrier := b', handoff := h' }.beginEnd i c)
  /-- It will not be told to stop, or the writer was stopped. -/
  | dismiss {c : Outlet} {v : Verdict} {b' : Barrier}
      (lane : w.lanes[i]? = some ⟨c, .asking⟩)
      (judges : w.barrier.shouldStop i = (v, b'))
      (why : v = .stop false ∨ w.cancelled = true) :
      Worked i w ({ w with barrier := b' }.leave i c)
  | back {c : Outlet} {v : Verdict} {b' : Barrier}
      (lane : w.lanes[i]? = some ⟨c, .asking⟩)
      (judges : w.barrier.shouldStop i = (v, b')) (why : ∀ told, v ≠ .stop told)
      (going : w.cancelled = false) :
      Worked i w ({ w with barrier := b' }.setLane i ⟨c, .idle⟩)
  /-- The writer was stopped. -/
  | halt {c : Outlet} {phase : Phase} {s : Segment} {rest : Outgoing}
      (lane : w.lanes[i]? = some ⟨c, phase⟩)
      (part : phase.part w.cursor = some (s, rest))
      (stopped : w.cancelled = true) : Worked i w (w.leave i c)
  | more {c c' : Outlet} {phase : Phase} {s : Segment}
      {rest rest' : Outgoing} (lane : w.lanes[i]? = some ⟨c, phase⟩)
      (part : phase.part w.cursor = some (s, rest))
      (going : w.cancelled = false)
      (write : rest.write c = some (.more rest', c')) :
      Worked i w (w.setLane i ⟨c', phase.goOn rest'⟩)
  | written {c c' : Outlet} {phase : Phase} {s : Segment}
      {rest : Outgoing} (lane : w.lanes[i]? = some ⟨c, phase⟩)
      (part : phase.part w.cursor = some (s, rest))
      (going : w.cancelled = false)
      (write : rest.write c = some (.done, c')) :
      Worked i w ((w.account i phase).after i c' phase)
  | failed {c c' : Outlet} {phase : Phase} {s : Segment} {rest : Outgoing}
      {cause : IoError} (lane : w.lanes[i]? = some ⟨c, phase⟩)
      (part : phase.part w.cursor = some (s, rest))
      (going : w.cancelled = false)
      (write : rest.write c = some (.failed cause, c')) :
      Worked i w (w.failLane i c' cause)
  | panicked {c c' : Outlet} {phase : Phase} {s : Segment}
      {rest : Outgoing} {message : String}
      (lane : w.lanes[i]? = some ⟨c, phase⟩)
      (part : phase.part w.cursor = some (s, rest))
      (going : w.cancelled = false)
      (write : rest.write c = some (.panicked message, c')) :
      Worked i w (w.lose i c' message)
  | flushed {c : Outlet} (lane : w.lanes[i]? = some ⟨c, .flushing⟩)
      (flush : c.flushError = none) :
      Worked i w ({ w with
        stats := w.stats.recordTerminal i }.leave i c.flush.2)
  | unflushed {c : Outlet} {cause : IoError}
      (lane : w.lanes[i]? = some ⟨c, .flushing⟩)
      (flush : c.flushError = some cause) :
      Worked i w (w.failLane i c.flush.2 cause)

/-- A worker that writes goes on, has written its segment or fails. -/
theorem work_busy {i : Nat} {w w' : Writer} {c : Outlet} {phase : Phase}
    {s : Segment} {rest : Outgoing} (hl : w.lanes[i]? = some ⟨c, phase⟩)
    (hp : phase.part w.cursor = some (s, rest)) (h : w.work i = some w') :
    Worked i w w' := by
  have hwork : w.work i =
      if w.cancelled then some (w.leave i c)
      else (rest.write c).map fun r => w.wrote i r.2 phase r.1 := by
    unfold work
    rw [hl]
    cases phase with
    | writing u rest' last =>
      cases hp
      simp only [writeOn]
      cases w.cancelled with
      | true => rfl
      | false =>
        cases rest.write c with
        | none => rfl
        | some r =>
          obtain ⟨p, c'⟩ := r
          cases p <;> cases last <;> rfl
    | ending rest' =>
      cases hp
      simp only [writeEnd]
      cases w.cancelled with
      | true => rfl
      | false =>
        cases rest.write c with
        | none => rfl
        | some r =>
          obtain ⟨p, c'⟩ := r
          cases p <;> rfl
    | _ => cases hp
  rw [hwork] at h
  by_cases hc : w.cancelled = true
  · rw [if_pos hc] at h
    cases h
    exact .halt hl hp hc
  · rw [if_neg hc] at h
    have hc : w.cancelled = false := by simpa using hc
    cases hw : rest.write c with
    | none => simp [hw] at h
    | some r =>
      obtain ⟨p, c'⟩ := r
      rw [hw] at h
      obtain rfl : w.wrote i c' phase p = w' := Option.some.inj h
      cases p with
      | more rest' => exact .more hl hp hc hw
      | done => exact .written hl hp hc hw
      | failed cause => exact .failed hl hp hc hw
      | panicked message => exact .panicked hl hp hc hw

/-- An idle worker takes what was handed to it, posts a slot, or finds that
it has to look elsewhere. -/
theorem work_idle {i : Nat} {w w' : Writer} {c : Outlet}
    (hl : w.lanes[i]? = some ⟨c, .idle⟩)
    (hp : w.handoff.present i = true) (h : w.work i = some w') :
    Worked i w w' := by
  have hr := recv_spec hp
  unfold work at h
  rw [hl] at h
  simp only [lookForSegment] at h
  generalize hrecv : w.handoff.recv i = r at h hr
  obtain ⟨received, h'⟩ := r
  -- nothing was handed over, and the slot has not changed
  have hsame (hempty : (w.handoff.slot i).content = [])
      (h : (if w.disturbed i = true then some (w.setLane i ⟨c, .asking⟩)
        else none) = some w') : Worked i w w' := by
    obtain ⟨hd, he⟩ := Option.ite_none_right_eq_some.1 h
    cases he
    exact .ask hl hempty hd
  cases hr with
  | segment slot =>
    cases h
    exact .begin hl slot
  | closed empty fed same =>
    cases h
    exact .quit hl (.closed empty fed same)
  | waits slot fed =>
    simp only [bne_self_eq_false, Bool.false_eq_true, if_false] at h
    exact hsame (by rw [slot]; rfl) h
  | full slot fed full =>
    simp only [bne_self_eq_false, Bool.false_eq_true, if_false] at h
    exact hsame (by rw [slot]; rfl) h
  | posts slot fed room after =>
    have hlen : i < w.handoff.receivers.length := by
      rcases Nat.lt_or_ge i w.handoff.receivers.length with hlt | hge
      · exact hlt
      · simp [present, List.getElem?_eq_none hge] at hp
    have hposted := slot_setSlot
      (h := { w.handoff with ready := w.handoff.ready ++ [some i] })
      hlen .posted i
    rw [if_pos rfl, ← after] at hposted
    rw [slot, hposted] at h
    cases h
    exact .post hl slot (.posts slot fed room after) hposted (after ▸ rfl)

/-- A worker that looks whether it is to stop. -/
theorem work_asking {i : Nat} {w w' : Writer} {c : Outlet}
    (hl : w.lanes[i]? = some ⟨c, .asking⟩) (h : w.work i = some w') :
    Worked i w w' := by
  unfold work at h
  rw [hl] at h
  simp only [lookForStop, Option.some.injEq] at h
  generalize hj : w.barrier.shouldStop i = r at h
  obtain ⟨v, b'⟩ := r
  have helse (hv : ∀ told, v ≠ .stop told)
      (h : (if w.cancelled = true then { w with barrier := b' }.leave i c
        else { w with barrier := b' }.setLane i ⟨c, .idle⟩) = w') :
      Worked i w w' := by
    by_cases hc : w.cancelled = true
    · rw [if_pos hc] at h
      exact h ▸ .dismiss hl hj (.inr hc)
    · rw [if_neg hc] at h
      exact h ▸ .back hl hj hv (by simpa using hc)
  cases v with
  | pending => exact helse (by simp) h
  | gone => exact helse (by simp) h
  | stop told =>
    cases told with
    | false => exact h ▸ .dismiss hl hj (.inl rfl)
    | true =>
      simp only [obey] at h
      generalize ht : w.handoff.takePending i = r at h
      obtain ⟨taken, h'⟩ := r
      cases taken with
      | none => exact h ▸ .obey hl hj ht
      | some s => exact h ▸ .last hl hj ht

theorem work_cases {i : Nat} {w w' : Writer}
    (hp : ∀ c, w.lanes[i]? = some ⟨c, .idle⟩ → w.handoff.present i = true)
    (h : w.work i = some w') : Worked i w w' := by
  cases hl : w.lanes[i]? with
  | none => simp [work, hl] at h
  | some lane =>
    obtain ⟨c, phase⟩ := lane
    cases phase with
    | unstarted => simp [work, hl] at h
    | gone => simp [work, hl] at h
    | lost message => simp [work, hl] at h
    | idle => exact work_idle hl (hp c hl) h
    | asking => exact work_asking hl h
    | writing s rest last => exact work_busy hl rfl h
    | ending rest => exact work_busy hl rfl h
    | flushing =>
      simp only [work, hl, flush, Option.some.injEq] at h
      split at h
      · rename_i c' hf
        obtain rfl : c.flush.2 = c' := congrArg Prod.snd hf
        exact h ▸ .flushed hl (congrArg Prod.fst hf)
      · rename_i cause c' hf
        obtain rfl : c.flush.2 = c' := congrArg Prod.snd hf
        exact h ▸ .unflushed hl (congrArg Prod.fst hf)

/-- What a worker does not touch, whatever it does. -/
theorem Worked.frame {i : Nat} {w w' : Writer} (h : Worked i w w') :
    w'.config = w.config ∧ w'.stage = w.stage ∧ w'.cursor = w.cursor ∧
      w'.call = w.call ∧ w'.answer = w.answer ∧
      (w.cancelled = true → w'.cancelled = true) := by
  cases h with
  | @written c c' phase s rest lane part going write =>
    cases phase with
    | writing u r last => cases last <;> exact ⟨rfl, rfl, rfl, rfl, rfl, id⟩
    | _ => exact ⟨rfl, rfl, rfl, rfl, rfl, id⟩
  | failed lane part going write =>
    exact ⟨rfl, rfl, rfl, rfl, rfl, fun _ => rfl⟩
  | unflushed lane flush => exact ⟨rfl, rfl, rfl, rfl, rfl, fun _ => rfl⟩
  | _ => exact ⟨rfl, rfl, rfl, rfl, rfl, id⟩

/-- A worker tells nobody to stop. -/
theorem Worked.token {i : Nat} {w w' : Writer} (h : Worked i w w')
    (j : Nat) : w'.barrier.token j = w.barrier.token j := by
  have hjudge {v : Verdict} {b : Barrier}
      (h : w.barrier.shouldStop i = (v, b)) :
      b.token j = w.barrier.token j := by
    rw [← token_shouldStop i w.barrier j, h]
  cases h with
  | last lane judges taken => exact hjudge judges
  | obey lane judges taken => exact hjudge judges
  | dismiss lane judges why => exact (token_done _ _ _).trans (hjudge judges)
  | back lane judges why going => exact hjudge judges
  | quit lane receives => exact token_done _ _ _
  | halt lane part stopped => exact token_done _ _ _
  | failed lane part going write => exact token_done _ _ _
  | panicked lane part going write => exact token_giveBack _ _ _
  | flushed lane flush => exact token_done _ _ _
  | unflushed lane flush => exact token_done _ _ _
  | @written c c' phase s rest lane part going write =>
    cases phase with
    | writing u r last => cases last <;> rfl
    | _ => rfl
  | _ => rfl

/-! ## Calls -/

/-- A user begins a call. -/
def Event.isCall : Event → Bool
  | .write _ | .writeAll _ | .copyFrom _ | .sendFrom _ | .finish => true
  | _ => false

/-- What was handed over when the state changed from `w` to `w'`. -/
def handed (w w' : Writer) : List Segment :=
  match w.call, w'.call with
  | some (.offering s _), some (.working _) => [s]
  | _, _ => []

theorem handed_of_call_eq {w w' : Writer} (h : w'.call = w.call) :
    handed w w' = [] := by
  unfold handed
  rw [h]
  split
  · rename_i s job job' hs hw
    rw [hs] at hw
    cases hw
  · rfl

theorem handed_of_not_working {w w' : Writer}
    (h : ∀ job, w'.call ≠ some (.working job)) : handed w w' = [] := by
  unfold handed
  split
  · rename_i s job job' _ hw
    exact absurd hw (h job')
  · rfl

theorem handed_of_not_offering {w w' : Writer}
    (h : ∀ s job, w.call ≠ some (.offering s job)) : handed w w' = [] := by
  unfold handed
  split
  · rename_i s job job' hs _
    exact absurd hs (h s job)
  · rfl

/-- What a call that goes on with its job does. -/
inductive Proceeds (w : Writer) : Job → Writer → Prop where
  | nothing : Proceeds w (.write []) (w.conclude (.wrote 0))
  | piece {bytes : Bytes} (pos : bytes ≠ []) :
      Proceeds w (.write bytes)
        (w.setCall (.offering
          (w.nextSegment (bytes.take w.config.maxSegmentLen))
          (.wrote (bytes.take w.config.maxSegmentLen).length)))
  | wrote {count : Nat} : Proceeds w (.wrote count)
      (w.conclude (.wrote count))
  | sent : Proceeds w (.writeAll []) (w.conclude .done)
  | chunk {bytes : Bytes} (pos : bytes ≠ []) :
      Proceeds w (.writeAll bytes)
        (w.setCall (.offering
          (w.nextSegment (bytes.take w.config.maxSegmentLen))
          (.writeAll (bytes.drop w.config.maxSegmentLen))))
  /-- The source has failed. -/
  | broken {source rest : List Inlet.Item} {bytes : Bytes}
      {cause : IoError} {count : Nat} {last : Bool}
      (fill : fill w.config.maxSegmentLen source =
        (bytes, rest, some cause)) :
      Proceeds w (.copy source count false last)
        (w.reject (.source cause) (.copy rest count false last))
  | drained {source rest : List Inlet.Item} {count : Nat} {last : Bool}
      (fill : fill w.config.maxSegmentLen source = ([], rest, none)) :
      Proceeds w (.copy source count false last)
        (w.setCall (.working (.copy rest count true last)))
  | cut {source rest : List Inlet.Item} {bytes : Bytes} {count : Nat}
      {last : Bool} (pos : bytes ≠ [])
      (fill : fill w.config.maxSegmentLen source = (bytes, rest, none)) :
      Proceeds w (.copy source count false last)
        (w.setCall (.offering (w.nextSegment bytes)
          (.copy rest (count + bytes.length)
            (bytes.length < w.config.maxSegmentLen) last)))
  | copied {source : List Inlet.Item} {count : Nat} :
      Proceeds w (.copy source count true false)
        (w.conclude (.copied count))
  | turn {source : List Inlet.Item} {count : Nat} :
      Proceeds w (.copy source count true true)
        (w.setCall (.opening (.finish none)))
  | close {copied : Option Error} :
      Proceeds w (.finish copied)
        ({ w with
          stage := .closed, barrier := w.barrier.start }.setCall
            (.stopping none copied))

/-- What a call does that cannot go on. -/
inductive Rejects (w : Writer) (e : Error) : Job → Writer → Prop where
  /-- It was to finish the writer after that, and goes on to do so. -/
  | turn {source : List Inlet.Item} {count : Nat} {ended : Bool} :
      Rejects w e (.copy source count ended true)
        ((w.fail e).setCall (.opening (.finish (some e))))
  | close {copied : Option Error} (stage : w.stage = .running) :
      Rejects w e (.finish copied)
        ({ w with
          stage := .closed, barrier := w.barrier.start }.setCall
            (.stopping (some e) copied))
  | fails {job : Job} (e' : Error) :
      Rejects w e job (w.conclude (.failed e'))

theorem reject_cases {w w' : Writer} {e : Error} {job : Job}
    (h : w.reject e job = w') : Rejects w e job w' := by
  subst h
  unfold reject
  split
  · exact .turn
  · split
    · rename_i hs
      exact .close hs
    · exact .fails _
  · exact .fails _

@[simp] theorem cursor_reject (w : Writer) (e : Error) (job : Job) :
    (w.reject e job).cursor = w.cursor := by
  generalize hr : w.reject e job = w'
  cases reject_cases hr <;> rfl

/-- A call that cannot go on, and is over, has failed. -/
theorem answer_reject {w : Writer} {e : Error} {job : Job}
    (h : (w.reject e job).call = none) :
    ∃ e', (w.reject e job).answer = some (.failed e') := by
  generalize hr : w.reject e job = w' at h ⊢
  cases reject_cases hr with
  | turn => cases h
  | close stage => cases h
  | fails e' => exact ⟨e', rfl⟩

/-- No byte is left only where there was none. -/
theorem take_eq_nil {bytes : Bytes} {max : Nat} (hm : 0 < max)
    (h : bytes.take max = []) : bytes = [] := by
  rcases List.take_eq_nil_iff.1 h with hz | hb
  · omega
  · exact hb

/-- A source fills a segment, or it fails before or has no more to
yield. -/
theorem fill_stops {max : Nat} {source rest : List Inlet.Item}
    {bytes : Bytes} {failed : Option IoError}
    (h : fill max source = (bytes, rest, failed)) :
    bytes.length = max ∧ failed = none ∨
      bytes.length < max ∧ (failed.isSome = true ∨ rest = []) := by
  induction source generalizing max bytes rest failed with
  | nil =>
    cases h
    simp [eq_comm, Nat.eq_zero_or_pos]
  | cons item source ih =>
    cases item with
    | fault cause =>
      simp only [fill] at h
      split at h
      · cases h
        exact .inl ⟨by simp_all, rfl⟩
      · cases h
        exact .inr ⟨Nat.pos_of_ne_zero ‹_›, .inl rfl⟩
    | chunk bs =>
      simp only [fill] at h
      split at h
      · generalize hf : fill (max - bs.length) source = r at h
        obtain ⟨more, rest', failed'⟩ := r
        cases h
        simp only [List.length_append]
        rcases ih hf with ⟨hlen, hnone⟩ | ⟨hlt, hwhy⟩
        · exact .inl ⟨by omega, hnone⟩
        · exact .inr ⟨by omega, hwhy⟩
      · cases h
        exact .inl ⟨List.length_take_of_le (by omega), rfl⟩

/-- A source is asked for no more than fits into a segment. -/
theorem length_fill {max : Nat} {source rest : List Inlet.Item}
    {bytes : Bytes} {failed : Option IoError}
    (h : fill max source = (bytes, rest, failed)) : bytes.length ≤ max := by
  rcases fill_stops h with ⟨hlen, _⟩ | ⟨hlt, _⟩
  · exact Nat.le_of_eq hlen
  · exact Nat.le_of_lt hlt

/-- What is cut off from a source is at the front of its tape, and a
failure comes next. -/
theorem tape_fill {max : Nat} {source rest : List Inlet.Item}
    {bytes : Bytes} {failed : Option IoError}
    (h : fill max source = (bytes, rest, failed)) :
    (Inlet.script source).tape = Tape.clean bytes ++
      (failed.toList.map .error ++ (Inlet.script rest).tape) := by
  have hcons (item : Inlet.Item) (items : List Inlet.Item) :
      (Inlet.script (item :: items)).tape =
        item.tape ++ (Inlet.script items).tape := rfl
  induction source generalizing max bytes rest failed with
  | nil =>
    cases h
    rfl
  | cons item source ih =>
    cases item with
    | fault cause =>
      simp only [fill] at h
      split at h <;> cases h <;> rfl
    | chunk bs =>
      simp only [fill] at h
      split at h
      · generalize hf : fill (max - bs.length) source = r at h
        obtain ⟨more, rest', failed'⟩ := r
        cases h
        rw [hcons, ih hf, Tape.clean_append, List.append_assoc]
        rfl
      · cases h
        simp only [hcons, Inlet.Item.tape, Option.toList_none, List.map_nil,
          List.nil_append]
        rw [← List.append_assoc, ← Tape.clean_append,
          List.take_append_drop]

/-- What is cut off from a source is at the front of what it yields. -/
theorem content_fill {max : Nat} {source rest : List Inlet.Item}
    {bytes : Bytes} {failed : Option IoError}
    (h : fill max source = (bytes, rest, failed)) :
    (Inlet.script source).content =
      bytes ++ (Inlet.script rest).content := by
  have hfailed : Tape.bytes (failed.toList.map .error) = [] := by
    cases failed <;> rfl
  rw [Inlet.content_eq, tape_fill h, Tape.bytes_append, Tape.bytes_append,
    Tape.bytes_clean, hfailed, List.nil_append, Inlet.content_eq]

/-- A source that does not fill a segment, and has not failed, has no more
to yield. -/
theorem fill_short {max : Nat} {source rest : List Inlet.Item}
    {bytes : Bytes} (h : fill max source = (bytes, rest, none))
    (hlt : bytes.length < max) : rest = [] := by
  rcases fill_stops h with ⟨hlen, _⟩ | ⟨_, hfail | hrest⟩
  · omega
  · cases hfail
  · exact hrest

theorem proceed_cases (w : Writer) (hm : 0 < w.config.maxSegmentLen)
    (job : Job) : Proceeds w job (w.proceed job) := by
  cases job with
  | wrote count => exact .wrote
  | finish copied => exact .close
  | write bytes =>
    simp only [proceed]
    by_cases hb : bytes = []
    · subst hb
      simp only [List.take_nil, List.isEmpty_nil, if_true]
      exact .nothing
    · have hne : bytes.take w.config.maxSegmentLen ≠ [] :=
        fun h => hb (take_eq_nil hm h)
      rw [if_neg (by simpa using hne)]
      exact .piece hb
  | writeAll bytes =>
    simp only [proceed]
    by_cases hb : bytes = []
    · subst hb
      simp only [List.take_nil, List.isEmpty_nil, if_true]
      exact .sent
    · have hne : bytes.take w.config.maxSegmentLen ≠ [] :=
        fun h => hb (take_eq_nil hm h)
      rw [if_neg (by simpa using hne)]
      exact .chunk hb
  | copy source count ended last =>
    cases ended with
    | true =>
      cases last with
      | true => exact .turn
      | false => exact .copied
    | false =>
      simp only [proceed, cut]
      generalize hf : fill w.config.maxSegmentLen source = r
      obtain ⟨bytes, rest, failed⟩ := r
      cases failed with
      | some cause => exact .broken hf
      | none =>
        show Proceeds w _ (if bytes.isEmpty then _ else _)
        by_cases hb : bytes = []
        · subst hb
          have hlt : decide (([] : Bytes).length < w.config.maxSegmentLen) =
              true := by simpa using hm
          simp only [List.isEmpty_nil, if_true, hlt]
          exact .drained hf
        · rw [if_neg (by simpa using hb)]
          exact .cut hb hf

/-- What a move of the call can do. -/
inductive Advanced (w : Writer) : Writer → Prop where
  | start {job : Job} (call : w.call = some (.opening job))
      (stage : w.stage = .fresh) :
      Advanced w (w.start.setCall
        (.offering (.control (.ofNat w.connections)) job))
  | resume {job : Job} (call : w.call = some (.opening job))
      (stage : w.stage = .running) : Advanced w (w.setCall (.working job))
  /-- The writer was finished before. -/
  | late {job : Job} (call : w.call = some (.opening job))
      (stage : w.stage = .closed) : Advanced w (w.reject .writerClosed job)
  /-- The writer was stopped. -/
  | abort {s : Segment} {job : Job} (call : w.call = some (.offering s job))
      (stopped : w.cancelled = true) : Advanced w (w.reject w.reason job)
  | hand {s : Segment} {job : Job} {i : Nat} {h' : Handoff}
      (call : w.call = some (.offering s job)) (going : w.cancelled = false)
      (send : w.handoff.send s = (.sent i, h')) :
      Advanced w ({ w with
        handoff := h', cursor := w.cursor + s.length }.setCall
          (.working job))
  /-- Every worker has left. -/
  | alone {s : Segment} {job : Job} {r : Sent} {h' : Handoff}
      (call : w.call = some (.offering s job)) (going : w.cancelled = false)
      (send : w.handoff.send s = (r, h')) (fails : ∀ i, r ≠ .sent i)
      (waits : r ≠ .pending) :
      Advanced w ({ w with handoff := h' }.reject
        (w.failure.getD .channelError) job)
  | proceed {job : Job} {w' : Writer} (call : w.call = some (.working job))
      (proceeds : Proceeds w job w') : Advanced w w'
  | announce {started copied : Option Error}
      (call : w.call = some (.stopping started copied))
      (owner : w.barrier.owner = .begun) :
      Advanced w { w with barrier := w.barrier.announce }
  | tally {started copied : Option Error} {b' : Barrier}
      (call : w.call = some (.stopping started copied))
      (owner : w.barrier.owner ≠ .begun)
      (count : w.barrier.count = some (none, b')) :
      Advanced w { w with barrier := b' }
  | settle {started copied : Option Error} {acknowledged : Nat}
      {b' : Barrier} (call : w.call = some (.stopping started copied))
      (owner : w.barrier.owner ≠ .begun)
      (count : w.barrier.count = some (some acknowledged, b')) :
      Advanced w ({ w with
        barrier := b', handoff := w.handoff.close }.setCall
          (.shutting 0 acknowledged started copied))
  | shut {next acknowledged : Nat} {started copied : Option Error}
      (call : w.call = some (.shutting next acknowledged started copied))
      (lt : next < w.connections) :
      Advanced w ((w.shutLane next).setCall
        (.shutting (next + 1) acknowledged started copied))
  | conclude {next acknowledged : Nat} {started copied : Option Error}
      (call : w.call = some (.shutting next acknowledged started copied))
      (le : w.connections ≤ next) :
      Advanced w (w.conclude (w.outcome acknowledged started copied))

theorem advance_cases {w w' : Writer} (hm : 0 < w.config.maxSegmentLen)
    (h : w.advance = some w') : Advanced w w' := by
  unfold advance at h
  split at h
  · cases h
  · rename_i job hc
    simp only [openWith] at h
    split at h
    · rename_i hs
      exact Option.some.inj h ▸ .start hc hs
    · rename_i hs
      exact Option.some.inj h ▸ .resume hc hs
    · rename_i hs
      exact Option.some.inj h ▸ .late hc hs
  · rename_i s job hc
    unfold handOver at h
    by_cases hstop : w.cancelled = true
    · rw [if_pos hstop] at h
      exact Option.some.inj h ▸ .abort hc hstop
    · rw [if_neg hstop] at h
      have hgo : w.cancelled = false := by simpa using hstop
      generalize hsend : w.handoff.send s = r at h
      obtain ⟨sent, h'⟩ := r
      cases sent with
      | sent i => exact Option.some.inj h ▸ .hand hc hgo hsend
      | pending => cases h
      | failed e =>
        exact Option.some.inj h ▸ .alone hc hgo hsend (by simp) (by simp)
      | gone =>
        exact Option.some.inj h ▸ .alone hc hgo hsend (by simp) (by simp)
  · rename_i job hc
    exact Option.some.inj h ▸ .proceed hc (proceed_cases w hm job)
  · rename_i started copied hc
    unfold awaitWorkers at h
    by_cases ho : w.barrier.owner = .begun
    · rw [if_pos ho] at h
      exact Option.some.inj h ▸ .announce hc ho
    · rw [if_neg ho] at h
      split at h
      · cases h
      · rename_i b' hcount
        exact Option.some.inj h ▸ .tally hc ho hcount
      · rename_i acknowledged b' hcount
        exact Option.some.inj h ▸ .settle hc ho hcount
  · rename_i next acknowledged started copied hc
    unfold shutNext at h
    by_cases hlt : next < w.connections
    · rw [if_pos hlt] at h
      exact Option.some.inj h ▸ .shut hc hlt
    · rw [if_neg hlt] at h
      exact Option.some.inj h ▸ .conclude hc (Nat.le_of_not_lt hlt)

/-- What a call waits for that cannot go on. -/
inductive Awaits (w : Writer) : Call → Prop where
  /-- Somebody is to ask for the segment. -/
  | offering {s : Segment} {job : Job} (going : w.cancelled = false)
      (pending : (w.handoff.send s).1 = .pending) :
      Awaits w (.offering s job)
  /-- The workers are to leave. -/
  | stopping {started copied : Option Error}
      (announced : w.barrier.owner ≠ .begun)
      (count : w.barrier.count = none) : Awaits w (.stopping started copied)

theorem awaits_of_rest {w : Writer} {c : Call} (hc : w.call = some c)
    (h : w.advance = none) : Awaits w c := by
  cases c with
  | opening job => simp [advance, hc] at h
  | working job => simp [advance, hc] at h
  | shutting next k started copied => simp [advance, hc] at h
  | offering s job =>
    simp only [advance, hc, handOver] at h
    by_cases hstop : w.cancelled = true
    · rw [if_pos hstop] at h
      cases h
    · rw [if_neg hstop] at h
      refine .offering (by simpa using hstop) ?_
      generalize w.handoff.send s = r at h ⊢
      obtain ⟨sent, h'⟩ := r
      cases sent with
      | pending => rfl
      | _ => cases h
  | stopping started copied =>
    simp only [advance, hc, awaitWorkers] at h
    by_cases ho : w.barrier.owner = .begun
    · rw [if_pos ho] at h
      cases h
    · rw [if_neg ho] at h
      cases hcount : w.barrier.count with
      | none => exact .stopping ho hcount
      | some r =>
        obtain ⟨result, b'⟩ := r
        rw [hcount] at h
        cases result <;> cases h

theorem answer_shutLane (w : Writer) (i : Nat) :
    (w.shutLane i).answer = w.answer := by
  unfold shutLane
  split
  · rfl
  · rfl
  · rename_i c phase _ hl
    cases hf : c.shutdown.1 with
    | none => simp [hf, setLane]
    | some cause =>
      simp only [hf]
      split <;> rfl

theorem launch_eq_some {w w' : Writer} {job : Job}
    (h : w.launch job = some w') :
    w.call = none ∧ w.setCall (.opening job) = w' := by
  unfold launch at h
  split at h
  · cases h
  · rename_i hc
    exact ⟨by simpa using hc, Option.some.inj h⟩

section Letting

variable (w : Writer)

@[simp] theorem call_abandon : w.abandon.call = none := by
  unfold abandon
  split <;> rfl

@[simp] theorem cursor_abandon : w.abandon.cursor = w.cursor := by
  unfold abandon
  split <;> rfl

@[simp] theorem stage_abandon : w.abandon.stage = w.stage := by
  unfold abandon
  split <;> rfl

@[simp] theorem lanes_abandon : w.abandon.lanes = w.lanes := by
  unfold abandon
  split <;> rfl

@[simp] theorem config_abandon : w.abandon.config = w.config := by
  unfold abandon
  split <;> rfl

@[simp] theorem stats_abandon : w.abandon.stats = w.stats := by
  unfold abandon
  split <;> rfl

@[simp] theorem failure_abandon : w.abandon.failure = w.failure := by
  unfold abandon
  split <;> rfl

@[simp] theorem cancelled_abandon : w.abandon.cancelled = w.cancelled := by
  unfold abandon
  split <;> rfl

@[simp] theorem call_drop : w.drop.call = none := by
  unfold drop
  split <;> rfl

@[simp] theorem cursor_drop : w.drop.cursor = w.cursor := by
  unfold drop
  split
  · rfl
  · rfl
  · exact cursor_abandon w

@[simp] theorem lanes_drop : w.drop.lanes = w.lanes := by
  unfold drop
  split
  · rfl
  · rfl
  · exact lanes_abandon w

@[simp] theorem config_drop : w.drop.config = w.config := by
  unfold drop
  split
  · rfl
  · rfl
  · exact config_abandon w

@[simp] theorem stage_drop : w.drop.stage = .closed := by
  unfold drop
  split
  · rfl
  · rfl
  · rename_i hs
    exact (stage_abandon w).trans hs

@[simp] theorem stats_drop : w.drop.stats = w.stats := by
  unfold drop
  split
  · rfl
  · rfl
  · exact stats_abandon w

@[simp] theorem failure_drop : w.drop.failure = w.failure := by
  unfold drop
  split
  · rfl
  · rfl
  · exact failure_abandon w

end Letting

/-! ## All events -/

/-- The job of the call that an event begins. -/
inductive Event.Begins : Event → Job → Prop where
  | write {bytes : Bytes} : Begins (.write bytes) (.write bytes)
  | writeAll {bytes : Bytes} : Begins (.writeAll bytes) (.writeAll bytes)
  | copyFrom {source : List Inlet.Item} :
      Begins (.copyFrom source) (.copy source 0 false false)
  | sendFrom {source : List Inlet.Item} :
      Begins (.sendFrom source) (.copy source 0 false true)
  | finish : Begins .finish (.finish none)

/-- What an event can do. -/
inductive Stepped (w : Writer) : Event → Writer → Prop where
  | work {i : Nat} {w' : Writer} (work : w.work i = some w') :
      Stepped w (.work i) w'
  | advance {w' : Writer} (advance : w.advance = some w') :
      Stepped w .advance w'
  | begin {e : Event} {job : Job} (idle : w.call = none)
      (begins : e.Begins job) : Stepped w e (w.setCall (.opening job))
  | abandon {call : Call} (busy : w.call = some call) :
      Stepped w .abandon w.abandon
  | cancel : Stepped w .cancel w.cancel
  | drop : Stepped w .drop w.drop
  | room (i : Nat) (m : Option Nat) :
      Stepped w (.room i m) (w.grantRoom i m)

theorem step_cases {w w' : Writer} {e : Event} (h : w.step e = some w') :
    Stepped w e w' := by
  have hbegin {job : Job} (hb : e.Begins job)
      (hs : w.launch job = some w') : Stepped w e w' := by
    obtain ⟨hidle, rfl⟩ := launch_eq_some hs
    exact .begin hidle hb
  cases e with
  | work i => exact .work h
  | advance => exact .advance h
  | write bytes => exact hbegin .write h
  | writeAll bytes => exact hbegin .writeAll h
  | copyFrom source => exact hbegin .copyFrom h
  | sendFrom source => exact hbegin .sendFrom h
  | finish => exact hbegin .finish h
  | abandon =>
    obtain ⟨hbusy, he⟩ := Option.ite_none_right_eq_some.1 h
    cases he
    obtain ⟨call, hcall⟩ := Option.isSome_iff_exists.1 hbusy
    exact .abandon hcall
  | cancel => cases h; exact .cancel
  | drop => cases h; exact .drop
  | room i m => cases h; exact .room i m

theorem Event.Begins.isCall {e : Event} {job : Job} (h : e.Begins job) :
    e.isCall = true := by
  cases h <;> rfl

end Stripe.Writer
