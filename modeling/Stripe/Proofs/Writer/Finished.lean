import Stripe.Proofs.Writer.Closing

/-!
# A writer that was finished

`finish` may fail in many ways. If it does not, the transfer is complete
(`finished_complete`): whatever the connections were like, every worker has
left without an excuse, and the control segment was handed over before
anything else. So all that was handed over is on the wires, and the
statistics count exactly that (`Inv.complete`).
-/

namespace Stripe.Writer

open Segment

section Finished

variable {n : Nat} {loose : Prop} {rows done : Nat → List Segment}
  {fed : List Segment} {w : Writer}

/-- All workers have left without an excuse. -/
theorem Inv.all_whole (h : Inv n loose rows done fed w)
    (hall : ∀ phase ∈ w.phases, phase = .gone)
    (hno : ¬ (w.cancelled = true ∨ loose)) {i : Nat} (hi : i < n) :
    rows i = done i ∧ w.wire i = encodeAll (rows i) ∧
      ∃ init, rows i = init ++ [.terminal (.ofNat w.cursor)] ∧
        Open init := by
  obtain ⟨⟨c, phase⟩, hl⟩ := h.lane_of_lt hi
  obtain rfl : phase = .gone :=
    hall phase (List.mem_of_getElem? (phases_eq_some hl))
  have hwire : w.wire i = c.wire := by simp [wire, hl]
  rw [hwire]
  exact h.whole_of_gone hl hno

/-- The control segments of all rows. -/
theorem controls_eq {max cursor : Nat} {closed : Prop}
    (given : Dealt n rows fed) (feeds : Feeds n max fed cursor)
    (shaped : ∀ i < n, Shaped cursor closed (rows i))
    (hmem : .control (.ofNat n) ∈ fed) :
    (gathered n rows).filter (·.isControl) = [.control (.ofNat n)] := by
  have hone : ((gathered n rows).filter (·.isControl)).length = 1 := by
    rw [← List.countP_eq_length_filter, control_count given shaped,
      feeds.control_count, if_pos hmem]
  obtain ⟨s, hs⟩ := List.length_eq_one_iff.1 hone
  have hin : s ∈ (gathered n rows).filter (·.isControl) := by simp [hs]
  obtain ⟨hrow, hc⟩ := List.mem_filter.1 hin
  rw [hs, control_eq given feeds shaped hrow hc]

/-- **All that was handed over is on the wires**, each wire ends with its
terminal segment, and the statistics count all that. -/
structure Complete (n : Nat) (rows : Nat → List Segment)
    (fed : List Segment) (w : Writer) : Prop where
  wires : ∀ i < n, w.wire i = encodeAll (rows i) ∧
    ∃ init, rows i = init ++ [.terminal (.ofNat w.cursor)] ∧ Open init
  controls : (gathered n rows).filter (·.isControl) = [.control (.ofNat n)]
  data : (pieces n rows).Perm (dataOf fed)
  laid : Laid w.config.maxSegmentLen 0 (dataOf fed)
  /-- As long as positions are counts, the data segments of all rows carry
  the stream, and each row has them in order. -/
  tiles : w.cursor < UInt64.size → Tiles (pieces n rows) (joined fed) ∧
    ∀ i < n, (dataOf (rows i)).Pairwise fun s t => s.offset < t.offset
  totals : w.stats.totalBytes = w.cursor ∧
    w.stats.totalSegments = (pieces n rows).length ∧
    w.stats.control = 1 ∧ w.stats.terminated = n

/-- When all workers have left without an excuse, the transfer is
complete. -/
theorem Inv.complete (h : Inv n loose rows done fed w)
    (hall : ∀ phase ∈ w.phases, phase = .gone)
    (hno : ¬ (w.cancelled = true ∨ loose))
    (hcontrol : .control (.ofNat n) ∈ fed) : Complete n rows fed w := by
  have hshaped (i : Nat) (hi : i < n) := h.shaped hi
  have hwhole (i : Nat) (hi : i < n) := h.all_whole hall hno hi
  have hperm := pieces_perm h.given hshaped
  refine
    { wires := fun i hi => (hwhole i hi).2
      controls := controls_eq h.given h.feeds hshaped hcontrol
      data := hperm
      laid := h.feeds.laid
      tiles := fun hsize => ⟨(h.feeds.tiles hsize).perm hperm.symm, ?_⟩
      totals := ?_ }
  · intro i hi
    exact List.Pairwise.sublist (data_sublist h.given hshaped hi)
      (h.feeds.chained hsize).increasing
  · have hcounted : w.stats = Stats.tally n rows := by
      rw [h.stats]
      exact Stats.tally_congr fun i hi => (hwhole i hi).1.symm
    have hended (i : Nat) (hi : i < n) : Ended (rows i) := by
      obtain ⟨init, hrow, hinit⟩ := (hwhole i hi).2.2
      exact ⟨init, _, hrow, hinit, isTerminal_terminal _⟩
    have htotals := totals_tally h.given h.feeds hshaped hcontrol hended
    rw [hcounted]
    rwa [← hperm.length_eq] at htotals

end Finished

end Stripe.Writer
