import Stripe.Proofs.Writer.Invariant

/-!
# What was handed over

Each segment that a writer hands over comes to one worker. So the rows of
all workers, but for their terminal segments, are what was handed over: the
data segments of the stream (`pieces_perm`), and the control segment. What
the statistics of complete rows are follows (`totals_tally`).
-/

namespace Stripe

namespace Segment

theorem wellFormed_data {bs : Bytes} (h : bs.length < UInt64.size)
    (offset : UInt64) : (data bs offset .none).WellFormed := by
  have hlen : (UInt64.ofNat bs.length).toNat = bs.length :=
    UInt64.toNat_ofNat_of_lt' h
  have hcontrol : (data bs offset .none).header.isControl = false :=
    isControl_data bs offset
  show bs.length = Header.payloadLength _
  unfold Header.payloadLength Header.hasPayload
  rw [hcontrol]
  show bs.length = if (!false && decide (0 < UInt64.ofNat bs.length)) = true
    then (UInt64.ofNat bs.length).toNat else 0
  split
  · exact hlen.symm
  · rename_i hzero
    have hpos : ¬ (0 < bs.length) := by
      intro hp
      apply hzero
      simpa [UInt64.lt_iff_toNat_lt, hlen] using hp
    omega

/-- Positions below the largest count are told exactly. -/
theorem Laid.chained {max start : Nat} {l : List Segment}
    (h : Laid max start l)
    (hlt : start + (joined l).length < UInt64.size) : Chained start l := by
  induction l generalizing start with
  | nil => trivial
  | cons s l ih =>
    obtain ⟨heq, hne, _, hl⟩ := h
    rw [joined_cons, List.length_append] at hlt
    refine ⟨?_, List.length_pos_iff.2 hne, ih hl ?_⟩
    · rw [heq, offset_data]
      exact UInt64.toNat_ofNat_of_lt' (by omega)
    · show start + s.payload.length + _ < _
      omega

/-- Only open segments carry bytes. -/
theorem dataOf_openOf {l : List Segment}
    (h : ∀ s ∈ l, s.isTerminal = true → s.isEmpty = true) :
    dataOf (openOf l) = dataOf l := by
  unfold dataOf openOf
  rw [List.filter_filter]
  apply List.filter_congr
  intro s hs
  cases hterminal : s.isTerminal with
  | false => simp
  | true => simp [h s hs hterminal]

theorem Shaped.terminal {cursor : Nat} {closed : Prop} {row : List Segment}
    (h : Shaped cursor closed row) {s : Segment} (hs : s ∈ row)
    (ht : s.isTerminal = true) : s = .terminal (.ofNat cursor) := by
  rcases h with hopen | ⟨_, init, rfl, hinit⟩
  · rw [hopen s hs] at ht
    cases ht
  · rcases List.mem_append.1 hs with hmem | hmem
    · rw [hinit s hmem] at ht
      cases ht
    · simpa using hmem

section Given

variable {n max cursor : Nat} {closed : Prop} {rows : Nat → List Segment}
  {fed : List Segment}

/-- The data segments that were handed over carry the stream. -/
theorem Feeds.laid (h : Feeds n max fed cursor) : Laid max 0 (dataOf fed) := by
  obtain ⟨chain, hfed, hlaid, _⟩ := h
  have hall : dataOf chain = chain := by
    unfold dataOf
    rw [List.filter_eq_self]
    intro s hs
    have hne := (hlaid.data hs).1
    simp [isEmpty, hne]
  rcases hfed with rfl | rfl
  · exact hall.symm ▸ hlaid
  · rw [← List.singleton_append, dataOf_append, hall, dataOf_singleton]
    simpa using hlaid

theorem Feeds.chained (h : Feeds n max fed cursor)
    (hsize : cursor < UInt64.size) : Chained 0 (dataOf fed) := by
  refine h.laid.chained ?_
  rwa [joined_dataOf, ← h.cursor_eq, Nat.zero_add]

theorem Feeds.tiles (h : Feeds n max fed cursor)
    (hsize : cursor < UInt64.size) : Tiles (dataOf fed) (joined fed) :=
  ⟨dataOf fed, .refl _, h.chained hsize, joined_dataOf fed⟩

/-- What was handed over can be told from its bytes. -/
theorem Feeds.wellFormed (h : Feeds n max fed cursor)
    (hsize : cursor < UInt64.size) {s : Segment} (hs : s ∈ fed) :
    s.WellFormed := by
  have hlen : s.length ≤ cursor := by
    rw [h.cursor_eq]
    obtain ⟨l, r, rfl⟩ := List.append_of_mem hs
    simp only [joined_append, joined_cons, List.length_append,
      Segment.length]
    omega
  rcases h.proper hs with rfl | ⟨_, _, offset, he⟩
  · exact wellFormed_control _
  · rw [he]
    exact wellFormed_data (Nat.lt_of_le_of_lt hlen hsize) offset

/-- A segment in a row is terminal, or was handed over. -/
theorem terminal_or_fed (given : Dealt n rows fed)
    (shaped : ∀ i < n, Shaped cursor closed (rows i)) {s : Segment}
    (hs : s ∈ gathered n rows) :
    s = .terminal (.ofNat cursor) ∨ s ∈ fed ∧ s.isTerminal = false := by
  obtain ⟨i, hi, hrow⟩ := mem_gathered.1 hs
  cases ht : s.isTerminal with
  | true => exact .inl ((shaped i hi).terminal hrow ht)
  | false =>
    exact .inr ⟨given.all.mem_iff.1 (List.mem_filter.2 ⟨hs, by simp [ht]⟩), rfl⟩

/-- **The data segments of all rows** are those that were handed over. -/
theorem pieces_perm (given : Dealt n rows fed)
    (shaped : ∀ i < n, Shaped cursor closed (rows i)) :
    (pieces n rows).Perm (dataOf fed) := by
  have hdata : dataOf (openOf (gathered n rows)) = pieces n rows := by
    rw [pieces_eq]
    apply dataOf_openOf
    intro s hs ht
    rcases terminal_or_fed given shaped hs with rfl | ⟨_, hno⟩
    · exact isEmpty_terminal _
    · rw [hno] at ht
      cases ht
  rw [← hdata]
  exact given.all.filter _

/-- So are the control segments. -/
theorem control_count (given : Dealt n rows fed)
    (shaped : ∀ i < n, Shaped cursor closed (rows i)) :
    (gathered n rows).countP (·.isControl) =
      fed.countP (·.isControl) := by
  rw [← given.all.countP_eq, openOf, List.countP_filter]
  apply List.countP_congr
  intro s hs
  rcases terminal_or_fed given shaped hs with rfl | ⟨_, hno⟩
  · simp
  · simp [hno]

/-- The data segments of a row stand in it as they were handed over. -/
theorem data_sublist (given : Dealt n rows fed)
    (shaped : ∀ i < n, Shaped cursor closed (rows i)) {i : Nat}
    (hi : i < n) : (dataOf (rows i)).Sublist (dataOf fed) := by
  have hopen : dataOf (openOf (rows i)) = dataOf (rows i) := by
    apply dataOf_openOf
    intro s hs ht
    rw [(shaped i hi).terminal hs ht]
    exact isEmpty_terminal _
  rw [← hopen]
  exact (given.order i hi).filter _

/-- A control segment announces the number of connections. -/
theorem control_eq (given : Dealt n rows fed)
    (feeds : Feeds n max fed cursor)
    (shaped : ∀ i < n, Shaped cursor closed (rows i)) {s : Segment}
    (hs : s ∈ gathered n rows) (hc : s.isControl = true) :
    s = .control (.ofNat n) := by
  rcases terminal_or_fed given shaped hs with rfl | ⟨hfed, _⟩
  · simp at hc
  · rcases feeds.proper hfed with rfl | ⟨_, _, offset, he⟩
    · rfl
    · rw [he, isControl_data] at hc
      cases hc

/-- There is no second control segment. -/
theorem Feeds.control_count (h : Feeds n max fed cursor) :
    fed.countP (·.isControl) =
      if .control (.ofNat n) ∈ fed then 1 else 0 := by
  obtain ⟨chain, hfed, hlaid, _⟩ := h
  have hnone : ∀ s ∈ chain, s.isControl = false := by
    intro s hs
    obtain ⟨_, _, offset, he⟩ := hlaid.data hs
    rw [he]
    exact isControl_data _ _
  have hzero : chain.countP (·.isControl) = 0 := by
    rw [List.countP_eq_zero]
    intro s hs
    simp [hnone s hs]
  rcases hfed with rfl | rfl
  · rw [hzero, if_neg]
    intro hmem
    have := hnone _ hmem
    rw [isControl_control] at this
    cases this
  · simp [hzero]

/-- **The statistics of complete rows**: they count the bytes of the
stream, its data segments, one control segment and all connections. -/
theorem totals_tally (given : Dealt n rows fed)
    (feeds : Feeds n max fed cursor)
    (shaped : ∀ i < n, Shaped cursor closed (rows i))
    (control : .control (.ofNat n) ∈ fed)
    (ended : ∀ i < n, Ended (rows i)) :
    (Stats.tally n rows).totalBytes = cursor ∧
      (Stats.tally n rows).totalSegments = (dataOf fed).length ∧
      (Stats.tally n rows).control = 1 ∧
      (Stats.tally n rows).terminated = n := by
  have hperm := pieces_perm given shaped
  refine ⟨?_, hperm.length_eq, ?_, Stats.terminated_tally ended⟩
  · show (joined (pieces n rows)).length = cursor
    rw [length_joined_perm hperm, feeds.cursor_eq, joined_dataOf]
  · rw [Stats.control_tally, Segment.control_count given shaped,
      feeds.control_count, if_pos control]

end Given

end Segment

namespace Writer

open Segment

/-- Before the control segment is handed over, nothing else is. -/
theorem Inv.rows_nil {n : Nat} {loose : Prop}
    {rows done : Nat → List Segment} {fed : List Segment} {w : Writer}
    (h : Inv n loose rows done fed w) (ht : ¬ w.Told) (hfed : fed = [])
    {i : Nat} (hi : i < n) : rows i = [] := by
  rw [List.eq_nil_iff_forall_not_mem]
  intro s hmem
  have hterminal : s.isTerminal = false := by
    rcases h.shaped hi with hopen | ⟨htold, _⟩
    · exact hopen s hmem
    · exact absurd htold ht
  have := h.mem_fed hi hmem hterminal
  rw [hfed] at this
  cases this

/-- **A worker that has left without an excuse** has written all that it
was handed, and its terminal segment. -/
theorem Inv.whole_of_gone {n : Nat} {loose : Prop}
    {rows done : Nat → List Segment} {fed : List Segment} {w : Writer}
    (h : Inv n loose rows done fed w) {i : Nat} {c : Outlet}
    (hl : w.lanes[i]? = some ⟨c, .gone⟩)
    (hno : ¬ (w.cancelled = true ∨ loose)) :
    rows i = done i ∧ c.wire = encodeAll (rows i) ∧
      ∃ init, rows i = init ++ [.terminal (.ofNat w.cursor)] ∧
        Open init :=
  ((h.lanes i _ hl).of_gone hno).2

/-- A worker that was handed nothing does not leave without an excuse. -/
theorem Inv.excused_of_over {n : Nat} {loose : Prop}
    {rows done : Nat → List Segment} {fed : List Segment} {w : Writer}
    (h : Inv n loose rows done fed w) {i : Nat} {lane : Lane}
    (hl : w.lanes[i]? = some lane) (hover : lane.phase.isOver = true)
    (hrow : rows i = []) : w.cancelled = true ∨ loose := by
  cases h.lanes i lane hl with
  | still slot still _ _ _ _ =>
    rcases still with rfl | rfl | rfl <;> cases hover
  | @busy c phase s rest part _ _ _ _ _ _ _ =>
    cases phase with
    | writing u r last => cases hover
    | ending r => cases hover
    | _ => cases part
  | flushing _ _ _ _ _ => cases hover
  | gone seated front counted shaped why =>
    rcases why with ⟨_, _, hended⟩ | hexcused
    · rw [hrow] at hended
      exact absurd open_nil hended
    · exact hexcused
  | lost seated front counted shaped begun => exact absurd hrow begun

end Writer
end Stripe
