import Stripe.Proofs.Writer.Counts
import Stripe.Proofs.Writer.Wires

/-!
# The statistics of a writer are those of its wires

A worker counts a segment once its last byte is on the wire, and its
terminal segment once that was flushed. It may fail, be lost or be stopped
anywhere before. So what is counted of a connection is compared with the
whole segments on its wire (`Agrees`).

While a worker is there, its phase tells how far the segment has come that
it writes, and the invariant of the writer does the rest (`Inv.shown`).
What a worker has left behind stays as it is, since nothing is written or
counted on its connection any more: `Follows` remembers it, and every event
keeps that (`Followed.step`).
-/

namespace Stripe

namespace Writer

open Segment ConnectionStats

/-- What is left to write is no more than the segment. -/
def Phase.Within : Phase → Prop
  | .writing s rest _ => rest.bytes.length ≤ s.encode.length
  | .ending rest => rest.bytes.length ≤ Header.size
  | _ => True

theorem Phase.Within.le {phase : Phase} {cursor : Nat} {s : Segment}
    {rest : Outgoing} (h : phase.Within)
    (part : phase.part cursor = some (s, rest)) :
    rest.bytes.length ≤ s.encode.length := by
  cases phase with
  | writing u r last =>
    cases part
    exact h
  | ending r =>
    cases part
    exact Nat.le_trans h (size_le_length_encode _)
  | _ => cases part

theorem Phase.Within.goOn {phase : Phase} {cursor : Nat} {s : Segment}
    {rest rest' : Outgoing} (h : phase.Within)
    (part : phase.part cursor = some (s, rest))
    (hle : rest'.bytes.length ≤ rest.bytes.length) :
    (phase.goOn rest').Within := by
  cases phase with
  | writing u r last =>
    cases part
    exact Nat.le_trans hle h
  | ending r =>
    cases part
    exact Nat.le_trans hle h
  | _ => cases part

/-- What is counted of a connection is what its wire shows. It was `c₀`
when the writer got it, and is `c` now. -/
structure Agrees (n max : Nat) (c₀ c : Outlet) (r : ConnectionStats)
    (row : List Segment) : Prop where
  held : Held n max c.wire row
  counts : Counts row r
  flushed : r.terminated = true ↔
    c.flushes = c₀.flushes + 1 ∧ c.flushError = none
  ended : r.terminated = true → ∃ s ∈ row, s.isTerminal = true

/-- What is known of a lane beside the invariant of the writer. -/
structure Follows (n max : Nat) (c₀ : Outlet) (r : ConnectionStats)
    (lane : Lane) : Prop where
  flushError : lane.outlet.flushError = c₀.flushError
  flushes : lane.phase.isOver = false → lane.outlet.flushes = c₀.flushes
  within : lane.phase.Within
  gone : lane.phase.isOver = true → ∃ row, Agrees n max c₀ lane.outlet r row

/-- The same of all lanes. -/
def Followed (n max : Nat) (outlets : List Outlet) (w : Writer) : Prop :=
  ∀ (i : Nat) (lane : Lane), w.lanes[i]? = some lane →
    ∃ c₀ r, outlets[i]? = some c₀ ∧
      w.stats.connections[i]? = some r ∧ Follows n max c₀ r lane

section Counting

variable {n i : Nat} {loose : Prop} {rows done : Nat → List Segment}
  {fed : List Segment} {w w' : Writer} {lane lane' : Lane}
  {outlets : List Outlet}

theorem Inv.made (h : Inv n loose rows done fed w) (hi : i < n) :
    ∀ s ∈ rows i, Made n w.config.maxSegmentLen s := by
  intro s hs
  have hmem := mem_gathered.2 ⟨i, hi, hs⟩
  rcases terminal_or_fed h.given (fun j hj => h.shaped hj) hmem with
    rfl | ⟨hfed, _⟩
  · exact .terminal _
  · rcases h.feeds.proper hfed with rfl | ⟨hne, hle, offset, he⟩
    · exact .control
    · rw [he]
      exact .data offset hne hle

theorem Inv.counted (h : Inv n loose rows done fed w) (hi : i < n) :
    done i <+: rows i := by
  obtain ⟨lane, hl⟩ := h.lane_of_lt hi
  exact (h.lanes i lane hl).counted

theorem Inv.made_counted (h : Inv n loose rows done fed w) (hi : i < n) :
    ∀ s ∈ done i, Made n w.config.maxSegmentLen s :=
  fun s hs => h.made hi s ((h.counted hi).subset hs)

theorem Inv.connection (h : Inv n loose rows done fed w) (hi : i < n) :
    w.stats.connections[i]? = some (ConnectionStats.tally i (done i)) := by
  rw [h.stats]
  simp [Stats.tally, hi]

/-- What a wire shows as long as its worker is there. -/
theorem Inv.shown (h : Inv n loose rows done fed w)
    (hl : w.lanes[i]? = some lane) (here : lane.phase.isOver = false)
    (within : lane.phase.Within) : ∃ row,
      Held n w.config.maxSegmentLen lane.outlet.wire row ∧
      Counts row (ConnectionStats.tally i (done i)) ∧
      (ConnectionStats.tally i (done i)).terminated = false ∧
      (lane.phase = .flushing → ∃ s ∈ row, s.isTerminal = true) := by
  have hi := h.lt hl
  have hmade := h.made hi
  have hdone := h.made_counted hi
  have hcounts := counts_tally i hdone
  have hopen (ho : Open (done i)) :
      (ConnectionStats.tally i (done i)).terminated = false := by
    rw [ConnectionStats.terminated_tally, List.any_eq_false]
    intro s hs
    simp [ho s hs]
  cases h.lanes i lane hl with
  | still slot still seated made wire isOpen =>
    rw [made] at isOpen
    refine ⟨done i, ?_, hcounts, hopen (open_append.1 isOpen).1, ?_⟩
    · rw [wire]
      exact held_whole hdone
    · rintro rfl
      rcases still with hp | hp | hp <;> cases hp
  | @busy c phase s rest part seated made wire left isOpen plain told =>
    refine ⟨done i, ?_, hcounts, hopen isOpen, ?_⟩
    · have hle := within.le part
      rw [made] at wire hmade
      -- the wire is longer than the row, by what is written of the segment
      have hlen := congrArg List.length wire
      simp only [encodeAll_append, encodeAll_cons, encodeAll_nil,
        List.append_nil, List.length_append] at hlen wire
      obtain ⟨held, hheld⟩ : encodeAll (done i) <+: c.wire :=
        List.prefix_of_prefix_length_le ⟨_, rfl⟩ ⟨_, wire⟩ (by omega)
      rw [← hheld, List.append_assoc] at wire
      refine ⟨hdone, held, s, rest.bytes, hheld.symm, hmade s (by simp),
        ?_, left⟩
      exact (List.append_cancel_left wire).symm
    · rintro rfl
      cases part
  | flushing seated made wire isOpen told =>
    refine ⟨rows i, ?_, ?_, hopen isOpen, fun _ => ?_⟩
    · rw [wire]
      exact held_whole hmade
    · rw [made]
      exact hcounts.terminal _
    · exact ⟨_, by simp [made], isTerminal_terminal (.ofNat w.cursor)⟩
  | gone seated front counted shaped why => cases here
  | lost seated front counted shaped begun => cases here

/-- The counts of a connection whose worker is there. -/
theorem Inv.agrees (h : Inv n loose rows done fed w)
    (hl : w.lanes[i]? = some lane) (here : lane.phase.isOver = false)
    {c₀ : Outlet} {r : ConnectionStats}
    (hr : w.stats.connections[i]? = some r)
    (hf : Follows n w.config.maxSegmentLen c₀ r lane) :
    r.terminated = false ∧ ∃ row,
      Agrees n w.config.maxSegmentLen c₀ lane.outlet r row ∧
      (lane.phase = .flushing → ∃ s ∈ row, s.isTerminal = true) := by
  rw [h.connection (h.lt hl)] at hr
  cases hr
  obtain ⟨row, hheld, hcounts, hterm, hends⟩ := h.shown hl here hf.within
  refine ⟨hterm, row, ⟨hheld, hcounts, ?_, ?_⟩, hends⟩
  · rw [hterm, hf.flushes here]
    simp
  · intro ht
    rw [hterm] at ht
    cases ht

/-! ## Workers -/

/-- **One lane has changed**, and at most its own counts. -/
theorem Followed.set {max : Nat} (hf : Followed n max outlets w)
    (hl : w.lanes[i]? = some lane)
    (lanes : w'.lanes = w.lanes.set i lane')
    (others : ∀ j, j ≠ i →
      w'.stats.connections[j]? = w.stats.connections[j]?)
    (own : ∀ c₀ r, w.stats.connections[i]? = some r →
      Follows n max c₀ r lane → ∃ r',
        w'.stats.connections[i]? = some r' ∧ Follows n max c₀ r' lane') :
    Followed n max outlets w' := by
  intro j l hj
  rw [lanes] at hj
  by_cases hji : j = i
  · subst hji
    obtain ⟨c₀, r, hc, hr, hfollows⟩ := hf j lane hl
    rw [List.getElem?_set_self (List.getElem?_eq_some_iff.1 hl).1] at hj
    cases hj
    obtain ⟨r', hr', hnew⟩ := own c₀ r hr hfollows
    exact ⟨c₀, r', hc, hr', hnew⟩
  · rw [List.getElem?_set_ne (Ne.symm hji)] at hj
    obtain ⟨c₀, r, hc, hr, hfollows⟩ := hf j l hj
    exact ⟨c₀, r, hc, (others j hji).trans hr, hfollows⟩

/-- What is counted, and how often was flushed, tells no difference between
the two. -/
structure Alike (c c' : Outlet) : Prop where
  flushes : c'.flushes = c.flushes
  flushError : c'.flushError = c.flushError

theorem alike_take (bytes : Bytes) (c : Outlet) :
    Alike c (c.take bytes).2 := by
  unfold Outlet.take
  split
  · exact ⟨rfl, rfl⟩
  · exact ⟨rfl, rfl⟩

theorem alike_offer (bytes : Bytes) (c : Outlet) :
    Alike c (c.offer bytes).2 := by
  unfold Outlet.offer
  split
  · exact alike_take bytes c
  · exact ⟨rfl, rfl⟩
  · exact ⟨rfl, rfl⟩
  · rename_i cause once _
    have htake := alike_take bytes { c with fault := none }
    by_cases hi : cause.kind = .interrupted
    · cases once with
      | true => simpa [hi] using ⟨htake.flushes, htake.flushError⟩
      | false => simpa [hi] using ⟨rfl, rfl⟩
    · cases once <;> simp only [hi, if_false] <;> exact ⟨rfl, rfl⟩

theorem alike_write {o : Outgoing} {c c' : Outlet} {p : Outgoing.Progress}
    (h : o.write c = some (p, c')) : Alike c c' := by
  have hoffer := alike_offer o.next c
  unfold Outgoing.write at h
  generalize c.offer o.next = r at h hoffer
  obtain ⟨outcome, c₁⟩ := r
  cases outcome with
  | took count => cases count <;> cases h <;> exact hoffer
  | blocked => cases h
  | _ =>
    cases h
    exact hoffer

theorem Agrees.like {max : Nat} {c₀ c c' : Outlet} {r : ConnectionStats}
    {row : List Segment} (h : Agrees n max c₀ c r row) (alike : Alike c c')
    (wire : c'.wire = c.wire) : Agrees n max c₀ c' r row := by
  refine ⟨wire.symm ▸ h.held, h.counts, ?_, h.ended⟩
  rw [alike.flushes, alike.flushError]
  exact h.flushed

/-- **A worker goes on.** -/
theorem Followed.stay {max : Nat} (hf : Followed n max outlets w)
    {c c' : Outlet} {phase phase' : Phase}
    (hl : w.lanes[i]? = some ⟨c, phase⟩) (here : phase.isOver = false)
    (lanes : w'.lanes = w.lanes.set i ⟨c', phase'⟩)
    (count : ∃ f, w'.stats.connections = w.stats.connections.modify i f)
    (alike : Alike c c') (here' : phase'.isOver = false)
    (within : phase.Within → phase'.Within) : Followed n max outlets w' := by
  obtain ⟨f, hcount⟩ := count
  refine hf.set hl lanes ?_ ?_
  · intro j hj
    rw [hcount, List.getElem?_modify_ne _ _ (Ne.symm hj)]
  · intro c₀ r hr hfollows
    refine ⟨f r, by simp [hcount, hr], ?_, ?_, within hfollows.within, ?_⟩
    · exact alike.flushError.trans hfollows.flushError
    · intro _
      exact alike.flushes.trans (hfollows.flushes here)
    · intro hover
      rw [show phase'.isOver = true from hover] at here'
      cases here'

/-- **A worker leaves** in the middle of something. -/
theorem Followed.leave (h : Inv n loose rows done fed w)
    (hf : Followed n w.config.maxSegmentLen outlets w)
    {c c' : Outlet} {phase phase' : Phase}
    (hl : w.lanes[i]? = some ⟨c, phase⟩) (here : phase.isOver = false)
    (lanes : w'.lanes = w.lanes.set i ⟨c', phase'⟩)
    (stats : w'.stats = w.stats) (alike : Alike c c')
    (wire : c'.wire = c.wire) (departed : phase'.isOver = true) :
    Followed n w.config.maxSegmentLen outlets w' := by
  refine hf.set hl lanes (fun j _ => by rw [stats]) ?_
  intro c₀ r hr hfollows
  obtain ⟨_, row, hrow, _⟩ := h.agrees hl here hr hfollows
  refine ⟨r, by rw [stats, hr], ?_, ?_, ?_, fun _ => ?_⟩
  · exact alike.flushError.trans hfollows.flushError
  · intro hno
    rw [show phase'.isOver = false from hno] at departed
    cases departed
  · cases phase' <;> trivial
  · exact ⟨row, hrow.like alike wire⟩

/-- **A worker has flushed its connection**, and leaves. It counts its
terminal segment if the flush has not failed. -/
theorem Followed.flush (h : Inv n loose rows done fed w)
    (hf : Followed n w.config.maxSegmentLen outlets w) {c : Outlet}
    (hl : w.lanes[i]? = some ⟨c, .flushing⟩)
    (lanes : w'.lanes = w.lanes.set i ⟨c.flush.2, .gone⟩)
    (stats : w'.stats =
      if c.flushError.isNone then w.stats.recordTerminal i else w.stats) :
    Followed n w.config.maxSegmentLen outlets w' := by
  have hcount : w'.stats.connections = w.stats.connections.modify i fun r =>
      if c.flushError.isNone then r.recordTerminal else r := by
    rw [stats]
    cases c.flushError with
    | none => rfl
    | some cause => exact (List.modify_id i _).symm
  refine hf.set hl lanes ?_ ?_
  · intro j hj
    rw [hcount, List.getElem?_modify_ne _ _ (Ne.symm hj)]
  · intro c₀ r hr hfollows
    obtain ⟨hterm, row, ⟨hheld, hcounts, _, _⟩, hends⟩ :=
      h.agrees hl rfl hr hfollows
    have hflushes : c.flushes + 1 = c₀.flushes + 1 :=
      congrArg (· + 1) (hfollows.flushes rfl)
    refine ⟨_, by rw [hcount]; simp [hr]; rfl, hfollows.flushError, nofun,
      trivial, fun _ => ⟨row, ?_⟩⟩
    show Agrees _ _ _ c.flush.2 _ _
    cases hfail : c.flushError with
    | none =>
      refine ⟨hheld, ⟨hcounts.segments, hcounts.bytes, hcounts.control⟩, ?_,
        fun _ => hends rfl⟩
      exact iff_of_true rfl ⟨hflushes, hfail⟩
    | some cause =>
      refine ⟨hheld, hcounts, ?_, ?_⟩
      · refine iff_of_false (by simp [hterm]) fun hno => ?_
        rw [show c.flushError = none from hno.2] at hfail
        cases hfail
      · intro ht
        exact hends rfl

/-- A worker that has written what it had to is still there. -/
theorem after_spec {c' : Outlet} {phase : Phase} {cursor : Nat}
    {s : Segment} {rest : Outgoing}
    (part : phase.part cursor = some (s, rest)) (w : Writer) :
    ∃ phase', ((w.account i phase).after i c' phase).lanes =
        w.lanes.set i ⟨c', phase'⟩ ∧
      phase'.isOver = false ∧ phase'.Within ∧
      ∃ f, ((w.account i phase).after i c' phase).stats.connections =
        w.stats.connections.modify i f := by
  have hrecord (s : Segment) : ∃ f, (w.record i s).stats.connections =
      w.stats.connections.modify i f := by
    unfold Writer.record
    cases s.isControl with
    | true => exact ⟨_, rfl⟩
    | false => exact ⟨_, rfl⟩
  cases phase with
  | writing u r last =>
    cases last with
    | true =>
      refine ⟨_, rfl, rfl, ?_, hrecord u⟩
      simp [Phase.Within]
    | false => exact ⟨_, rfl, rfl, trivial, hrecord u⟩
  | ending r =>
    exact ⟨_, rfl, rfl, trivial, id, (List.modify_id i _).symm⟩
  | _ => cases part

/-- **Every move of a worker** keeps the counts in order. -/
theorem Followed.work (h : Inv n loose rows done fed w)
    (hf : Followed n w.config.maxSegmentLen outlets w)
    (hw : Worked i w w') :
    Followed n w.config.maxSegmentLen outlets w' := by
  have hsame {v : Writer} (hv : v.stats = w.stats) :
      ∃ f, v.stats.connections = w.stats.connections.modify i f :=
    ⟨id, by rw [hv]; exact (List.modify_id i _).symm⟩
  have hbusy {phase : Phase} {s : Segment} {rest : Outgoing}
      (part : phase.part w.cursor = some (s, rest)) :
      phase.isOver = false := by
    cases phase <;> first | rfl | cases part
  cases hw with
  | begin lane slot =>
    exact hf.stay lane rfl rfl (hsame rfl) ⟨rfl, rfl⟩ rfl
      fun _ => Nat.le_refl _
  | post lane slot receives slot' queue => exact hf
  | ask lane empty disturbed =>
    exact hf.stay lane rfl rfl (hsame rfl) ⟨rfl, rfl⟩ rfl id
  | quit lane receives =>
    exact hf.leave h lane rfl rfl rfl ⟨rfl, rfl⟩ rfl rfl
  | last lane judges taken =>
    exact hf.stay lane rfl rfl (hsame rfl) ⟨rfl, rfl⟩ rfl
      fun _ => Nat.le_refl _
  | obey lane judges taken =>
    exact hf.stay lane rfl rfl (hsame rfl) ⟨rfl, rfl⟩ rfl
      fun _ => by simp [Phase.Within]
  | dismiss lane judges why =>
    exact hf.leave h lane rfl rfl rfl ⟨rfl, rfl⟩ rfl rfl
  | back lane judges why going =>
    exact hf.stay lane rfl rfl (hsame rfl) ⟨rfl, rfl⟩ rfl id
  | halt lane part stopped =>
    exact hf.leave h lane (hbusy part) rfl rfl ⟨rfl, rfl⟩ rfl rfl
  | @more c c' phase s rest rest' lane part going write =>
    cases Outgoing.write_spec (h.busy lane part).2.2.2.2.1 write with
    | more pos left bytes wire closed sound =>
      have hle := congrArg List.length bytes
      rw [List.length_append] at hle
      refine hf.stay lane (hbusy part) rfl (hsame rfl) (alike_write write) ?_
        fun hwithin => hwithin.goOn part (by omega)
      cases phase <;> first | rfl | cases part
  | written lane part going write =>
    obtain ⟨phase', hlanes, here', hwithin, hcount⟩ := after_spec part w
    exact hf.stay lane (hbusy part) hlanes hcount (alike_write write) here'
      fun _ => hwithin
  | failed lane part going write =>
    cases Outgoing.write_spec (h.busy lane part).2.2.2.2.1 write with
    | failed wire unsound =>
      exact hf.leave h lane (hbusy part) rfl rfl (alike_write write) wire rfl
  | panicked lane part going write =>
    cases Outgoing.write_spec (h.busy lane part).2.2.2.2.1 write with
    | panicked wire unsound =>
      exact hf.leave h lane (hbusy part) rfl rfl (alike_write write) wire rfl
  | flushed lane flush =>
    exact hf.flush h lane rfl (by rw [flush]; rfl)
  | unflushed lane flush =>
    exact hf.flush h lane rfl (by rw [flush]; rfl)

/-! ## Calls and users -/

/-- Nothing was counted, and the lanes stay. -/
theorem Followed.same {max : Nat} (hf : Followed n max outlets w)
    (h : w'.lanes = w.lanes ∧ w'.stats = w.stats) :
    Followed n max outlets w' := by
  intro j l hj
  rw [h.1] at hj
  rw [h.2]
  exact hf j l hj

/-- What stands on a wire and was flushed is what counts. -/
theorem Follows.like {max : Nat} {c₀ c c' : Outlet} {r : ConnectionStats}
    {phase : Phase} (hf : Follows n max c₀ r ⟨c, phase⟩)
    (alike : Alike c c') (wire : c'.wire = c.wire) :
    Follows n max c₀ r ⟨c', phase⟩ := by
  refine ⟨alike.flushError.trans hf.flushError, ?_, hf.within, ?_⟩
  · intro here
    exact alike.flushes.trans (hf.flushes here)
  · intro hover
    obtain ⟨row, hrow⟩ := hf.gone hover
    exact ⟨row, hrow.like alike wire⟩

theorem Followed.shutLane {max : Nat} (hf : Followed n max outlets w)
    (i : Nat) : Followed n max outlets (w.shutLane i) := by
  unfold Writer.shutLane
  split
  · exact hf
  · exact hf.same ⟨rfl, rfl⟩
  · rename_i c phase _ hl
    have hset (v : Writer) (hv : v.lanes =
        w.lanes.set i ⟨c.shutdown.2, phase⟩ ∧ v.stats = w.stats) :
        Followed n max outlets v := by
      refine hf.set hl hv.1 (fun j _ => by rw [hv.2]) fun c₀ r hr hold => ?_
      exact ⟨r, by rw [hv.2, hr], hold.like ⟨rfl, rfl⟩ rfl⟩
    cases hfail : c.shutdown.1 with
    | none =>
      simp only [hfail]
      exact hset _ ⟨rfl, rfl⟩
    | some cause =>
      simp only [hfail]
      split
      · exact hset _ ⟨rfl, rfl⟩
      · exact hset _ ⟨rfl, rfl⟩

theorem same_reject (w : Writer) (e : Error) (job : Job) :
    (w.reject e job).lanes = w.lanes ∧ (w.reject e job).stats = w.stats := by
  generalize hr : w.reject e job = w'
  cases reject_cases hr with
  | turn => exact ⟨rfl, rfl⟩
  | close stage => exact ⟨rfl, rfl⟩
  | fails e' => exact ⟨rfl, rfl⟩

/-- **No move of a call** changes what was counted. -/
theorem Followed.advance {max : Nat} (h : Inv n loose rows done fed w)
    (hf : Followed n max outlets w) (ha : w.advance = some w') :
    Followed n max outlets w' := by
  cases advance_cases h.maxLen ha with
  | start call stage =>
    -- nobody has left before the workers have started
    intro j l hj
    obtain ⟨lane, hl, rfl⟩ := List.getElem?_map.symm.trans hj |>
      Option.map_eq_some_iff.1
    have hphase := (h.fresh stage).2 lane.phase
      (List.mem_of_getElem? (phases_eq_some hl))
    obtain ⟨c₀, r, hc, hr, hold⟩ := hf j lane hl
    refine ⟨c₀, r, hc, hr, hold.flushError, ?_, trivial, nofun⟩
    intro _
    exact hold.flushes (by rw [hphase]; rfl)
  | late call stage => exact hf.same (same_reject _ _ _)
  | abort call stopped => exact hf.same (same_reject _ _ _)
  | alone call going send fails waits => exact hf.same (same_reject _ _ _)
  | proceed call proceeds =>
    cases proceeds with
    | broken fill => exact hf.same (same_reject _ _ _)
    | _ => exact hf.same ⟨rfl, rfl⟩
  | shut call lt => exact (hf.shutLane _).same ⟨rfl, rfl⟩
  | _ => exact hf.same ⟨rfl, rfl⟩

/-- **Every event** keeps the counts in order. -/
theorem Followed.step (h : Inv n loose rows done fed w)
    (hf : Followed n w.config.maxSegmentLen outlets w) {e : Event}
    (hs : w.step e = some w') :
    Followed n w.config.maxSegmentLen outlets w' := by
  cases step_cases hs with
  | work work => exact hf.work h (h.worked work)
  | advance advance => exact hf.advance h advance
  | begin idle begins => exact hf.same ⟨rfl, rfl⟩
  | abandon busy => exact hf.same ⟨by simp, by simp⟩
  | cancel => exact hf.same ⟨rfl, rfl⟩
  | drop => exact hf.same ⟨by simp, by simp⟩
  | room i m =>
    intro j l hj
    simp only [Writer.grantRoom, List.getElem?_modify, Option.map_eq_map,
      Option.map_eq_some_iff] at hj
    obtain ⟨lane, hl, rfl⟩ := hj
    obtain ⟨c₀, r, hc, hr, hold⟩ := hf j lane hl
    refine ⟨c₀, r, hc, hr, ?_⟩
    by_cases hij : i = j
    · rw [if_pos hij]
      exact hold.like ⟨rfl, rfl⟩ rfl
    · rw [if_neg hij]
      exact hold

/-- The counts of a connection, whether its worker is there or not. -/
theorem Followed.agrees (h : Inv n loose rows done fed w)
    (hf : Followed n w.config.maxSegmentLen outlets w) {c₀ : Outlet}
    (hi : i < n) (hc : outlets[i]? = some c₀) : ∃ c phase r row,
      w.lanes[i]? = some ⟨c, phase⟩ ∧ w.stats.connections[i]? = some r ∧
      c.flushError = c₀.flushError ∧
      Agrees n w.config.maxSegmentLen c₀ c r row := by
  obtain ⟨⟨c, phase⟩, hl⟩ := h.lane_of_lt hi
  obtain ⟨c₁, r, hc₁, hr, hold⟩ := hf i _ hl
  rw [hc] at hc₁
  cases hc₁
  cases hover : phase.isOver with
  | true =>
    obtain ⟨row, hrow⟩ := hold.gone hover
    exact ⟨c, phase, r, row, hl, hr, hold.flushError, hrow⟩
  | false =>
    obtain ⟨_, row, hrow, _⟩ := h.agrees hl hover hr hold
    exact ⟨c, phase, r, row, hl, hr, hold.flushError, hrow⟩

end Counting

end Writer
end Stripe
