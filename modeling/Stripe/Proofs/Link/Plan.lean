import Stripe.Proofs.Reader.Success
import Stripe.Proofs.Writer.Fed
import Stripe.Proofs.Writer.Success

/-!
# What a writer will have sent

The segments that a writer has handed to its workers, each row with the
terminal segment that it may lack, make a transfer of the bytes that were
handed over (`yields_closeRow`), whatever is on the wires so far. So a
reader at the other end may count on them at any time
(`Fares.prospect`).
-/

namespace Stripe

namespace Segment

/-- The row with the terminal segment that it may lack. -/
def closeRow (cursor : Nat) (row : List Segment) : List Segment :=
  if row.any (·.isTerminal) then row
  else row ++ [.terminal (.ofNat cursor)]

theorem front_closeRow (cursor : Nat) (row : List Segment) :
    row <+: closeRow cursor row := by
  unfold closeRow
  split
  · exact List.prefix_rfl
  · exact List.prefix_append _ _

theorem mem_closeRow {cursor : Nat} {row : List Segment} {s : Segment}
    (h : s ∈ closeRow cursor row) :
    s ∈ row ∨ s = .terminal (.ofNat cursor) := by
  unfold closeRow at h
  split at h
  · exact .inl h
  · simpa using h

theorem dataOf_closeRow (cursor : Nat) (row : List Segment) :
    dataOf (closeRow cursor row) = dataOf row := by
  unfold closeRow
  split
  · rfl
  · rw [dataOf_append, dataOf_singleton]
    simp

theorem ended_closeRow {cursor : Nat} {closed : Prop} {row : List Segment}
    (h : Shaped cursor closed row) : Ended (closeRow cursor row) := by
  rcases h with hopen | ⟨_, init, rfl, hinit⟩
  · have hany : row.any (·.isTerminal) = false := by
      rw [List.any_eq_false]
      intro s hs
      simp [hopen s hs]
    unfold closeRow
    rw [if_neg (by simp [hany])]
    exact ⟨row, _, rfl, hopen, isTerminal_terminal _⟩
  · unfold closeRow
    rw [if_pos (by simp)]
    exact ⟨init, _, rfl, hinit, isTerminal_terminal _⟩

section Given

variable {n max cursor maxPayload : Nat} {closed : Prop}
  {rows : Nat → List Segment} {fed : List Segment}

/-- **What was handed over, once it is complete**, makes a transfer. -/
theorem yields_closeRow (given : Dealt n rows fed)
    (feeds : Feeds n max fed cursor)
    (shaped : ∀ i < n, Shaped cursor closed (rows i))
    (hcontrol : .control (.ofNat n) ∈ fed) (hn : n < Intake.countLimit)
    (hsize : (joined fed).length ≤ maxCount) (hmax : max ≤ maxPayload) :
    Yields n maxPayload
      (fun i => .script [.chunk (encodeAll (closeRow cursor (rows i)))])
      (fun i => closeRow cursor (rows i)) (joined fed) := by
  have hlt : (joined fed).length < UInt64.size := by
    have hcount : maxCount < UInt64.size := by decide
    omega
  have hoffset : (UInt64.ofNat n).toNat = n :=
    UInt64.toNat_ofNat_of_lt' (Nat.lt_trans hn (by decide))
  -- a segment is terminal, or was handed over
  have hmem {i : Nat} (hi : i < n) {s : Segment}
      (hs : s ∈ closeRow cursor (rows i)) :
      s = .terminal (.ofNat cursor) ∨ s ∈ fed := by
    rcases mem_closeRow hs with hrow | hterminal
    · have hall := mem_gathered.2 ⟨i, hi, hrow⟩
      exact (terminal_or_fed given shaped hall).imp_right And.left
    · exact .inl hterminal
  have hproper {s : Segment} (hs : s ∈ fed) :
      s.length ≤ maxPayload ∧ (s.isControl = true →
        s.header.byteCount = 0 ∧ s.offset = n) := by
    rcases feeds.proper hs with rfl | ⟨_, hle, offset, he⟩
    · exact ⟨by simp, fun _ => ⟨rfl, hoffset⟩⟩
    · refine ⟨Nat.le_trans hle hmax, ?_⟩
      intro hc
      rw [he, isControl_data] at hc
      cases hc
  refine ⟨?_, ?_, ?_, ?_⟩
  · intro i hi
    refine ⟨?_, ?_, ended_closeRow (shaped i hi), [], ?_⟩
    · intro s hs
      rcases hmem hi hs with rfl | hfed
      · exact wellFormed_terminal _
      · exact feeds.wellFormed (feeds.cursor_eq ▸ hlt) hfed
    · intro s hs
      rcases hmem hi hs with rfl | hfed
      · simp
      · exact (hproper hfed).1
    · simp [Inlet.tape, Inlet.script, Inlet.Item.tape]
  · intro i hi s hs hc
    rcases hmem hi hs with rfl | hfed
    · rw [isControl_terminal] at hc
      cases hc
    · exact (hproper hfed).2 hc
  · have hopen := given.all.mem_iff.2 hcontrol
    obtain ⟨i, hi, hrow⟩ :=
      mem_gathered.1 (List.mem_filter.1 hopen).1
    exact ⟨i, hi, _, (front_closeRow cursor _).subset hrow,
      isControl_control _⟩
  · have hpieces : pieces n (fun i => closeRow cursor (rows i)) =
        pieces n rows := by
      simp only [pieces, dataOf_closeRow]
    rw [hpieces]
    exact (feeds.tiles (feeds.cursor_eq ▸ hlt)).perm
      (pieces_perm given shaped).symm

end Given

end Segment

namespace Writer

open Segment

section Prospect

variable {n maxPayload : Nat} {sent : Bytes} {asked : Prop}
  {rows done : Nat → List Segment} {fed : List Segment} {w : Writer}

/-- **What a writer will have sent** begins with what it has handed over,
and makes a transfer of these bytes. -/
theorem Fares.prospect (h : Fares n sent asked rows done fed w)
    (hn : n < Intake.countLimit) (hsize : (joined fed).length ≤ maxCount)
    (hmax : w.config.maxSegmentLen ≤ maxPayload) :
    ∃ plan, (∀ i < n, rows i <+: plan i) ∧ Yields n maxPayload
      (fun i => .script [.chunk (encodeAll (plan i))]) plan
      (joined fed) := by
  rcases h.announced with hcontrol | ⟨rfl, hwhy⟩
  · exact ⟨fun i => closeRow w.cursor (rows i),
      fun i _ => front_closeRow _ _,
      yields_closeRow h.inv.given h.inv.feeds (fun i => h.inv.shaped)
        hcontrol hn hsize hmax⟩
  · have hs : w.stage ≠ .closed := by
      rcases hwhy with hfresh | ⟨job, hc⟩
      · simp [hfresh]
      · exact (h.sending hc rfl).2
    -- the control segment may come to any worker, say the first one
    have hgiven := (dealt_nil n).add h.inv.pos
      (isTerminal_control (.ofNat n))
    have hfeeds : Feeds n w.config.maxSegmentLen [.control (.ofNat n)] 0 :=
      ⟨[], .inr rfl, trivial, rfl⟩
    have hshaped (i : Nat) (_ : i < n) : Shaped 0 False
        (addTo 0 (.control (.ofNat n)) (fun _ => []) i) := by
      left
      intro s hmem
      rcases mem_addTo.1 hmem with hin | ⟨_, rfl⟩
      · cases hin
      · exact isTerminal_control _
    have hyields := yields_closeRow hgiven hfeeds hshaped (by simp) hn
      (Nat.zero_le _) hmax
    refine ⟨_, ?_, hyields⟩
    intro i hi
    rw [h.inv.rows_nil (fun ht => hs (h.inv.closed_of_told ht)) rfl hi]
    exact List.nil_prefix

end Prospect

end Writer
end Stripe
