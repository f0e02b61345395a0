import Stripe.Config
import Stripe.Proofs.Reading
import Stripe.Proofs.Rows
import Stripe.Proofs.Writer.Moves

/-!
# How a stream is cut into segments

`Config.slices` is the plain way to cut a row of bytes: as many segments as
`segmentsFor` says, each as long as a segment may be, but for the last one.
What it cuts off first is what the calls of a writer cut off
(`slices_of_ne_nil`).

A call that copies a source fills a segment from it, chunk by chunk, and
stops at the end of the source or where it fails. `fill_spec` says what
that comes to in terms of the tape of the source, on which chunks play no
part.
-/

namespace Stripe

open Segment

namespace Config

/-- The data segments of a stream that goes on with `bytes` at `start`. -/
def slices (c : Config) (start : Nat) (bytes : Bytes) : List Segment :=
  (List.range (c.segmentsFor bytes.length)).map fun k =>
    .data ((bytes.drop (k * c.maxSegmentLen)).take c.maxSegmentLen)
      (.ofNat (start + k * c.maxSegmentLen)) .none

section Slices

variable {c : Config} {start : Nat} {bytes : Bytes}

@[simp] theorem segmentsFor_zero (c : Config) : c.segmentsFor 0 = 0 := by
  simp [segmentsFor]

/-- **The quotient is rounded up**: every segment begins before the end of
the stream. -/
theorem lt_segmentsFor_iff (hm : 0 < c.maxSegmentLen) {k len : Nat} :
    k < c.segmentsFor len ↔ k * c.maxSegmentLen < len := by
  have hdiv := Nat.div_add_mod' len c.maxSegmentLen
  have hmod := Nat.mod_lt len hm
  unfold segmentsFor
  by_cases hr : len % c.maxSegmentLen = 0
  · rw [if_pos hr, Nat.add_zero, ← Nat.mul_lt_mul_right hm]
    rw [hr, Nat.add_zero] at hdiv
    rw [hdiv]
  · rw [if_neg hr, Nat.lt_succ_iff, ← Nat.mul_le_mul_right_iff hm]
    refine ⟨fun hle => by omega, fun hlt => ?_⟩
    -- less than one more segment
    rw [Nat.mul_le_mul_right_iff hm, ← Nat.lt_succ_iff,
      ← Nat.mul_lt_mul_right hm, Nat.succ_mul]
    omega

/-- One segment is cut off. -/
theorem segmentsFor_of_pos (hm : 0 < c.maxSegmentLen) {len : Nat}
    (hlen : 0 < len) :
    c.segmentsFor len = c.segmentsFor (len - c.maxSegmentLen) + 1 := by
  unfold segmentsFor
  rcases Nat.lt_or_ge len c.maxSegmentLen with hlt | hge
  · have hrest : len - c.maxSegmentLen = 0 := by omega
    rw [Nat.div_eq_of_lt hlt, Nat.mod_eq_of_lt hlt, hrest,
      if_neg (by omega)]
    simp
  · rw [Nat.div_eq_sub_div hm hge, Nat.mod_eq_sub_mod hge]
    omega

/-- Segments of full length are counted. -/
theorem div_le_segmentsFor (c : Config) {r len : Nat} (h : r ≤ len) :
    r / c.maxSegmentLen ≤ c.segmentsFor len :=
  Nat.le_trans (Nat.div_le_div_right h) (Nat.le_add_right _ _)

@[simp] theorem slices_nil (c : Config) (start : Nat) :
    c.slices start [] = [] := by
  simp [slices]

@[simp] theorem length_slices (c : Config) (start : Nat) (bytes : Bytes) :
    (c.slices start bytes).length = c.segmentsFor bytes.length := by
  simp [slices]

/-- **The first segment, and those after it.** -/
theorem slices_of_ne_nil (hm : 0 < c.maxSegmentLen) (h : bytes ≠ []) :
    c.slices start bytes =
      .data (bytes.take c.maxSegmentLen) (.ofNat start) .none ::
        c.slices (start + (bytes.take c.maxSegmentLen).length)
          (bytes.drop c.maxSegmentLen) := by
  have hpos := List.length_pos_iff.2 h
  unfold slices
  rw [segmentsFor_of_pos hm hpos, List.range_succ_eq_map, List.map_cons,
    List.map_map, List.length_drop]
  refine congr (congrArg _ (by simp)) (List.map_congr_left fun k hk => ?_)
  -- there is another segment only after one of full length
  have hk := (lt_segmentsFor_iff hm).1 (List.mem_range.1 hk)
  have hfull : (bytes.take c.maxSegmentLen).length = c.maxSegmentLen := by
    rw [List.length_take]
    omega
  show Segment.data _ _ _ = _
  rw [hfull, List.drop_drop, Nat.succ_mul, Nat.add_comm c.maxSegmentLen,
    Nat.add_assoc, Nat.add_comm (k * c.maxSegmentLen)]

/-- A segment of full length is cut off. -/
theorem slices_append {piece later : Bytes} (hne : piece ≠ [])
    (hlen : piece.length = c.maxSegmentLen) :
    c.slices start (piece ++ later) =
      .data piece (.ofNat start) .none ::
        c.slices (start + piece.length) later := by
  have hpos := List.length_pos_iff.2 hne
  rw [slices_of_ne_nil (by omega) (by simp [hne]),
    List.take_left' hlen, List.drop_left' hlen]

/-- What is too short for that is one segment. -/
theorem slices_of_short (hne : bytes ≠ [])
    (hlt : bytes.length < c.maxSegmentLen) :
    c.slices start bytes = [.data bytes (.ofNat start) .none] := by
  rw [slices_of_ne_nil (by omega) hne, List.take_of_length_le (by omega),
    List.drop_of_length_le (by omega), slices_nil]

/-- The first segments carry the first bytes. -/
theorem joined_take_slices (hm : 0 < c.maxSegmentLen) (count : Nat) :
    joined ((c.slices start bytes).take count) =
      bytes.take (count * c.maxSegmentLen) := by
  induction count generalizing start bytes with
  | zero => simp
  | succ count ih =>
    by_cases hb : bytes = []
    · simp [hb]
    · rw [slices_of_ne_nil hm hb, List.take_succ_cons, joined_cons, ih,
        Nat.succ_mul, Nat.add_comm, List.take_add]
      rfl

/-- **The segments carry the stream.** -/
theorem joined_slices (hm : 0 < c.maxSegmentLen) :
    joined (c.slices start bytes) = bytes := by
  have hall : joined ((c.slices start bytes).take
        (c.segmentsFor bytes.length)) =
      bytes.take (c.segmentsFor bytes.length * c.maxSegmentLen) :=
    joined_take_slices hm _
  have hlen : bytes.length ≤
      c.segmentsFor bytes.length * c.maxSegmentLen := by
    rcases Nat.lt_or_ge (c.segmentsFor bytes.length * c.maxSegmentLen)
      bytes.length with hlt | hge
    · exact absurd ((lt_segmentsFor_iff hm).2 hlt) (Nat.lt_irrefl _)
    · exact hge
  rwa [List.take_of_length_le (by simp), List.take_of_length_le hlen] at hall

/-- **Where a segment stands, and how long it is.** -/
theorem slices_eq_some (hm : 0 < c.maxSegmentLen) {k : Nat} {s : Segment}
    (h : (c.slices start bytes)[k]? = some s) :
    s = .data s.payload (.ofNat (start + k * c.maxSegmentLen)) .none ∧
      s.payload ≠ [] ∧ s.length ≤ c.maxSegmentLen ∧
      (k + 1 < c.segmentsFor bytes.length → s.length = c.maxSegmentLen) := by
  have hk := (List.getElem?_eq_some_iff.1 h).1
  rw [length_slices, lt_segmentsFor_iff hm] at hk
  obtain ⟨j, hj, rfl⟩ := Option.map_eq_some_iff.1
    (List.getElem?_map.symm.trans h)
  obtain rfl : k = j := by
    simpa using (List.getElem?_eq_some_iff.1 hj).2
  have hlen : ((bytes.drop (k * c.maxSegmentLen)).take
      c.maxSegmentLen).length =
        min c.maxSegmentLen (bytes.length - k * c.maxSegmentLen) := by
    simp
  refine ⟨rfl, ?_, ?_, ?_⟩
  · apply List.length_pos_iff.1
    show 0 < List.length (List.take _ _)
    omega
  · show List.length (List.take _ _) ≤ _
    omega
  · intro hnext
    rw [lt_segmentsFor_iff hm, Nat.succ_mul] at hnext
    show List.length (List.take _ _) = _
    omega

theorem dataOf_slices (hm : 0 < c.maxSegmentLen) :
    dataOf (c.slices start bytes) = c.slices start bytes := by
  unfold dataOf
  rw [List.filter_eq_self]
  intro s hs
  obtain ⟨k, hk⟩ := List.mem_iff_getElem?.1 hs
  simp [isEmpty, (slices_eq_some hm hk).2.1]

/-- **A stream that ends early** has the same segments as long as they are
complete. -/
theorem take_slices_take (hm : 0 < c.maxSegmentLen) {r : Nat}
    (hr : r ≤ bytes.length) :
    (c.slices start (bytes.take r)).take (r / c.maxSegmentLen) =
      (c.slices start bytes).take (r / c.maxSegmentLen) := by
  have hle {len : Nat} (hlen : r ≤ len) := c.div_le_segmentsFor hlen
  unfold slices
  rw [← List.map_take, ← List.map_take, List.take_range, List.take_range,
    Nat.min_eq_left (hle (by simp [hr])), Nat.min_eq_left (hle hr)]
  refine List.map_congr_left fun k hk => ?_
  have hk := (Nat.le_div_iff_mul_le hm).1 (List.mem_range.1 hk)
  rw [Nat.succ_mul] at hk
  rw [List.drop_take, List.take_take, Nat.min_eq_left (by omega)]

end Slices

end Config

namespace Writer

/-! ## Sources -/

/-- What filling a segment comes to, if a source yields `bs` and then its
tape goes on with `tail`. -/
inductive Fills (max : Nat) (bs : Bytes) (tail : Tape) :
    Bytes → List Inlet.Item → Option IoError → Prop where
  | full {bytes later : Bytes} {rest : List Inlet.Item}
      (len : bytes.length = max) (front : bs = bytes ++ later)
      (tape : (Inlet.script rest).tape = Tape.clean later ++ tail) :
      Fills max bs tail bytes rest none
  /-- The source has no more. -/
  | short (lt : bs.length < max) (ends : tail = []) :
      Fills max bs tail bs [] none
  | failed {cause : IoError} {rest : List Inlet.Item} {later : Tape}
      (lt : bs.length < max) (fails : tail = .error cause :: later) :
      Fills max bs tail bs rest (some cause)

/-- **A segment is filled**, unless the source ends or fails before. -/
theorem fill_spec {max : Nat} {source rest : List Inlet.Item}
    {bs bytes : Bytes} {tail : Tape} {failed : Option IoError}
    (ht : tail.Stops)
    (htape : (Inlet.script source).tape = Tape.clean bs ++ tail)
    (h : fill max source = (bytes, rest, failed)) :
    Fills max bs tail bytes rest failed := by
  have hfill := tape_fill h
  rw [htape] at hfill
  obtain ⟨later, rfl, hlater⟩ := ht.front hfill
  cases failed with
  | none =>
    have hrest : (Inlet.script rest).tape = Tape.clean later ++ tail := hlater
    rcases Nat.lt_or_ge bytes.length max with hlt | hge
    · -- a source that does not fill the segment is empty
      obtain rfl : rest = [] := fill_short h hlt
      have hnil := List.append_eq_nil_iff.1 hrest.symm
      obtain rfl : later = [] := Tape.clean_eq_nil.1 hnil.1
      rw [List.append_nil]
      exact .short hlt hnil.2
    · exact .full (Nat.le_antisymm (length_fill h) hge) rfl hrest
  | some cause =>
    have hrest : .error cause :: (Inlet.script rest).tape =
        Tape.clean later ++ tail := hlater
    obtain ⟨rfl, hfails⟩ :=
      (Tape.stops_error cause _).nil_front hrest.symm
    rcases fill_stops h with ⟨_, hnone⟩ | ⟨hlt, _⟩
    · cases hnone
    · rw [List.append_nil]
      exact .failed hlt hfails

end Writer
end Stripe
