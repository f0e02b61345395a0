import Stripe.Proofs.Transmission.Journal

/-!
# Payloads that were placed

Payloads are placed in any order, refused ones and requests for room in
between. Only the two neighbours of a range are looked at before it is
placed, which is enough because the placed ranges do not meet. `Filled`
says this of the journal: the placed payloads stand in the buffer as
`Collects` tells of segments.

The main statement is `collection_exact`: when a payload is refused and
why, where the last one ends, when the message is complete, and otherwise
which hole is named.
-/

namespace Stripe.Transmission

open Segment

/-! ## Refusals and holes -/

/-- Two of the ranges are the same one, or do not meet. -/
theorem Apart.eq_or_disjoint {placed : List Span} (h : Apart placed)
    {r s : Span} (hr : r ∈ placed) (hs : s ∈ placed) :
    r = s ∨ r.stop ≤ s.start ∨ s.stop ≤ r.start :=
  List.Pairwise.forall_of_forall_of_flip
    (R := fun r s : Span => r = s ∨ r.stop ≤ s.start ∨ s.stop ≤ r.start)
    (fun _ _ => .inl rfl) (h.sorted.imp fun hle => .inr (.inl hle))
    (h.sorted.imp fun hle => .inr (.inr hle)) hr hs

/-- Why a range is refused: one starts at the same position, or the range
meets another one. -/
inductive Refuses (offset stop : Nat) (placed : List Span) : Error → Prop where
  | same {r : Span} (mem : r ∈ placed) (start : r.start = offset) :
      Refuses offset stop placed (.duplicateOffset offset)
  | meets {r : Span} (mem : r ∈ placed) (before : r.start < stop)
      (behind : offset < r.stop)
      (other : ∀ s ∈ placed, s.start ≠ offset) :
      Refuses offset stop placed (.overlappingSegment offset r.start)

theorem refuses_of_conflict {offset stop : Nat} {placed : List Span}
    (h : Apart placed) (hlt : offset < stop) {e : Error}
    (he : conflict? offset stop placed = some e) :
    Refuses offset stop placed e := by
  rw [conflict?, Option.or_eq_some_iff] at he
  rcases he with hbefore | ⟨hbefore, hafter⟩
  · obtain ⟨f, hf, he⟩ := Option.bind_eq_some_iff.1 hbefore
    obtain ⟨hmem, hle⟩ := floor?_mem hf
    split at he
    · rename_i hstart
      cases he
      exact .same hmem hstart
    · split at he
      · rename_i hne hin
        cases he
        refine .meets hmem (by omega) hin fun s hs hstart => ?_
        -- a range that starts at `offset` would meet the one before it
        have := h.pos s hs
        rcases h.eq_or_disjoint hmem hs with rfl | hdisjoint
        · exact hne hstart
        · omega
      · cases he
  · obtain ⟨a, ha, he⟩ := Option.bind_eq_some_iff.1 hafter
    obtain ⟨hmem, hgt⟩ := above?_mem ha
    split at he
    · rename_i hin
      cases he
      have := h.pos a hmem
      refine .meets hmem hin (by omega) fun s hs hstart => ?_
      -- a range that starts at `offset` would have been found before
      obtain ⟨f, hfmem, hf, hle, hstop⟩ :=
        floor?_spec h hs (Nat.le_of_eq hstart)
      have := h.pos s hs
      have hno := Option.bind_eq_none_iff.1 hbefore f hf
      split at hno
      · cases hno
      · split at hno
        · cases hno
        · omega
    · cases he

/-- Without a hole every position is covered up to the last end. -/
theorem covered_of_hole?_eq_none {filled : Nat} {placed : List Span}
    (h : hole? filled placed = none) {k : Nat} (hle : filled ≤ k)
    (hlt : ∃ r ∈ placed, k < r.stop) :
    ∃ r ∈ placed, r.start ≤ k ∧ k < r.stop := by
  induction placed generalizing filled with
  | nil =>
    obtain ⟨r, hr, _⟩ := hlt
    cases hr
  | cons s placed ih =>
    rw [hole?] at h
    split at h
    · rename_i hstart
      by_cases hin : k < s.stop
      · exact ⟨s, by simp, by omega, hin⟩
      · obtain ⟨r, hr, hk⟩ := hlt
        rcases List.mem_cons.1 hr with rfl | hr
        · exact absurd hk hin
        · obtain ⟨u, hu, hcovers⟩ := ih h (by omega) ⟨r, hr, hk⟩
          exact ⟨u, List.mem_cons_of_mem s hu, hcovers⟩
    · cases h

/-- The hole that is named is the first one. -/
theorem hole?_spec {filled first start : Nat} {placed : List Span}
    (hapart : Apart placed) (hfrom : ∀ r ∈ placed, filled ≤ r.start)
    (h : hole? filled placed = some (first, start)) :
    filled ≤ first ∧ first < start ∧ (∃ r ∈ placed, r.start = start) ∧
      (∀ k, filled ≤ k → k < first →
        ∃ r ∈ placed, r.start ≤ k ∧ k < r.stop) ∧
      ∀ r ∈ placed, r.stop ≤ first ∨ start ≤ r.start := by
  induction placed generalizing filled with
  | nil => cases h
  | cons s placed ih =>
    have hbehind := (List.pairwise_cons.1 hapart.sorted).1
    have hpos := hapart.pos s (by simp)
    rw [hole?] at h
    split at h
    · rename_i hstart
      obtain ⟨hfirst, hlt, ⟨r, hr, hat⟩, hcovered, hclear⟩ :=
        ih hapart.of_cons hbehind h
      refine ⟨by omega, hlt, ⟨r, List.mem_cons_of_mem s hr, hat⟩,
        fun k hle hk => ?_, fun u hu => ?_⟩
      · by_cases hin : k < s.stop
        · exact ⟨s, by simp, by omega, hin⟩
        · obtain ⟨u, hu, hcovers⟩ := hcovered k (by omega) hk
          exact ⟨u, List.mem_cons_of_mem s hu, hcovers⟩
      · rcases List.mem_cons.1 hu with rfl | hu
        · exact .inl hfirst
        · exact hclear u hu
    · cases h
      have hge := hfrom s (by simp)
      refine ⟨Nat.le_refl _, by omega, ⟨s, by simp, rfl⟩,
        fun k hle hk => by omega, fun u hu => .inr ?_⟩
      rcases List.mem_cons.1 hu with rfl | hu
      · exact Nat.le_refl _
      · have := hbehind u hu
        omega

/-! ## Placed payloads -/

namespace Placement

/-- The first position after the payload. -/
def stop (p : Placement) : Nat := p.offset + p.bytes.length

/-- The payload covers a position of the message. -/
def Covers (p : Placement) (k : Nat) : Prop := p.offset ≤ k ∧ k < p.stop

/-- Two payloads have a position in common, if none of them is empty. -/
def Meets (p q : Placement) : Prop := p.offset < q.stop ∧ q.offset < p.stop

/-- The segment that a payload is placed like. -/
def segment (p : Placement) : Segment := .data p.bytes (.ofNat p.offset) .none

def span (p : Placement) : Span := ⟨p.offset, p.stop⟩

variable {p : Placement}

theorem offset_segment (h : p.stop ≤ maxCount) :
    p.segment.offset = p.offset := by
  have hcount : maxCount < UInt64.size := by decide
  rw [stop] at h
  exact UInt64.toNat_ofNat_of_lt' (by omega)

@[simp] theorem payload_segment : p.segment.payload = p.bytes := rfl

theorem stop_segment (h : p.stop ≤ maxCount) : p.segment.stop = p.stop := by
  rw [Segment.stop, offset_segment h]
  rfl

theorem span_segment (h : p.stop ≤ maxCount) : p.segment.span = p.span := by
  rw [Segment.span, offset_segment h, stop_segment h, span]

end Placement

variable {placed placed' : List Placement} {t t' : Transmission}

/-- No two placed segments meet. -/
theorem Collects.disjoint {pieces : List Segment} (h : Collects pieces t) :
    pieces.Pairwise fun s u => s.stop ≤ u.offset ∨ u.stop ≤ s.offset := by
  obtain ⟨row, hperm, hrow⟩ := h.row
  have hsorted := h.apart.sorted
  rw [← hrow, List.pairwise_map] at hsorted
  have hrow : row.Pairwise fun s u =>
      s.stop ≤ u.offset ∨ u.stop ≤ s.offset := hsorted.imp .inl
  exact hperm.pairwise hrow fun h => h.symm

/-- More room keeps what was placed. -/
theorem Collects.grow {pieces : List Segment} (h : Collects pieces t)
    (hsize : t.buffer.size ≤ t'.buffer.size)
    (hkeep : ∀ k < t.buffer.size, t'.buffer[k]? = t.buffer[k]?)
    (hwritten : t'.writtenLen = t.writtenLen)
    (hplaced : t'.placed = t.placed) : Collects pieces t' where
  pos := h.pos
  apart := hplaced ▸ h.apart
  row := hplaced ▸ h.row
  holds := by
    intro s hs k hk
    have hin := h.within s hs
    have hroom := h.room
    simp only [stop] at hin
    rw [hkeep _ (by omega)]
    exact h.holds s hs k hk
  within := hwritten ▸ h.within
  attained := hwritten ▸ h.attained
  room := by
    have hroom := h.room
    omega

/-- The payloads were placed, and stand in the buffer. -/
structure Filled (placed : List Placement) (t : Transmission) : Prop where
  within : ∀ p ∈ placed, p.stop ≤ maxCount
  collects : Collects (placed.map Placement.segment) t

/-- What a command does to the collected message. -/
inductive Gathers (placed : List Placement) (t : Transmission) :
    List Placement → Transmission → Prop where
  /-- At most there is more room than before. -/
  | kept {t' : Transmission} (size : t.buffer.size ≤ t'.buffer.size)
      (keep : ∀ k < t.buffer.size, t'.buffer[k]? = t.buffer[k]?)
      (written : t'.writtenLen = t.writtenLen)
      (spans : t'.placed = t.placed) : Gathers placed t placed t'
  | placed {p : Placement} {t' : Transmission} (some : p.bytes ≠ [])
      (within : p.stop ≤ maxCount)
      (written : t'.writtenLen = max t.writtenLen p.stop)
      (ok : t.place p.offset p.bytes = (.ok (), t')) :
      Gathers placed t (placed ++ [p]) t'

/-- The command fails, or is about something else. -/
theorem gathers_aside {t'' : Transmission} (hframe : t' = t'')
    (buffer : t''.buffer = t.buffer) (written : t''.writtenLen = t.writtenLen)
    (spans : t''.placed = t.placed) : Gathers placed t placed t' := by
  subst hframe
  exact .kept (Nat.le_of_eq (congrArg Array.size buffer.symm))
    (fun k _ => by rw [buffer]) written spans

theorem gathers_place (offset : Nat) (bytes : Bytes)
    (placed : List Placement) (t : Transmission) :
    Gathers placed t (placed ++ Command.places (.place offset bytes)
      (.result (t.place offset bytes).1)) (t.place offset bytes).2 := by
  by_cases hbytes : bytes = []
  · rw [hbytes, place_nil]
    simp only [Command.places, List.isEmpty_nil, if_true, List.append_nil]
    exact gathers_aside rfl rfl rfl rfl
  · rcases place_cases offset bytes t hbytes with ⟨e, he, _⟩ |
      ⟨b, he, hwithin, _⟩
    · rw [he]
      simp only [Command.places, List.append_nil]
      exact gathers_aside rfl rfl rfl rfl
    · have hentry : Command.places (.place offset bytes)
          (.result (.ok ())) = [⟨offset, bytes⟩] := by
        simp [Command.places, hbytes]
      have hplaced : Gathers placed t (placed ++ [⟨offset, bytes⟩])
          (t.place offset bytes).2 := by
        rw [he]
        exact .placed hbytes hwithin rfl he
      rw [← hentry] at hplaced
      rwa [he] at hplaced ⊢

/-- **What a command does to the collected message.** -/
theorem Journal.gathers (j : Journal) (c : Command) :
    Gathers j.placed j.transmission (j.next c).placed
      (j.next c).transmission := by
  have hnone (h : c.places (j.transmission.perform c).1 = []) :
      (j.next c).placed = j.placed := by
    simp [Journal.next, h]
  cases c with
  | place offset bytes => exact gathers_place offset bytes _ _
  | ensureCapacity offset len =>
    rw [hnone rfl]
    show Gathers _ _ _ (j.transmission.ensureCapacity offset len).2
    rcases ensureCapacity_cases offset len j.transmission with
      ⟨_, he⟩ | ⟨_, b, he, _, hsize, hkeep⟩
    · rw [he]
      exact gathers_aside rfl rfl rfl rfl
    · rw [he]
      exact .kept hsize hkeep rfl rfl
  | setEodTotal total =>
    rw [hnone rfl]
    exact gathers_aside (frame_setEodTotal total _) rfl rfl rfl
  | ackEod connection =>
    rw [hnone rfl]
    exact gathers_aside (frame_ackEod connection _) rfl rfl rfl
  | push s =>
    rw [hnone rfl]
    show Gathers _ _ _ (j.transmission.push s).2
    rcases push_cases s j.transmission with ⟨e, he, _⟩ | ⟨he, _⟩
    · rw [he]
      exact gathers_aside rfl rfl rfl rfl
    · rw [he]
      exact gathers_aside rfl rfl rfl rfl
  | next max =>
    rw [hnone rfl]
    exact gathers_aside (delivers_nextDelivery max _).frame rfl rfl rfl

theorem Gathers.filled (h : Gathers placed t placed' t')
    (ht : Filled placed t) : Filled placed' t' := by
  cases h with
  | kept size keep written spans =>
    exact ⟨ht.within, ht.collects.grow size keep written spans⟩
  | @placed p _ some within written ok =>
    constructor
    case within =>
      intro q hq
      rcases List.mem_append.1 hq with hq | hq
      · exact ht.within q hq
      · rw [List.mem_singleton.1 hq]
        exact within
    case collects =>
      rw [← Placement.offset_segment within,
        ← Placement.payload_segment] at ok
      rw [List.map_append]
      exact ht.collects.place some ok

theorem filled_after (capacity : Nat) (cs : List Command) :
    Filled (Journal.after capacity cs).placed
      (Journal.after capacity cs).transmission :=
  Journal.after_induction (P := fun j => Filled j.placed j.transmission)
    ⟨by simp, collects_withCapacity capacity⟩
    (fun j c h => (j.gathers c).filled h) cs

/-! ## What the journal tells of the message -/

/-- What placing a payload comes to, when others were placed. -/
inductive Answers (placed : List Placement) (q : Placement) :
    Except Error Unit → Prop where
  | ok (free : ∀ p ∈ placed, ¬ q.Meets p) : Answers placed q (.ok ())
  | duplicate {p : Placement} (mem : p ∈ placed)
      (same : p.offset = q.offset) :
      Answers placed q (.error (.duplicateOffset q.offset))
  | overlaps {p : Placement} (mem : p ∈ placed) (meets : q.Meets p)
      (other : ∀ u ∈ placed, u.offset ≠ q.offset) :
      Answers placed q (.error (.overlappingSegment q.offset p.offset))

namespace Filled

variable {q : Placement}

theorem span_mem (h : Filled placed t) (r : Span) :
    r ∈ t.placed ↔ ∃ p ∈ placed, p.span = r := by
  rw [h.collects.span_mem]
  constructor
  · rintro ⟨s, hs, rfl⟩
    obtain ⟨p, hp, rfl⟩ := List.mem_map.1 hs
    exact ⟨p, hp, (Placement.span_segment (h.within p hp)).symm⟩
  · rintro ⟨p, hp, rfl⟩
    exact ⟨p.segment, List.mem_map_of_mem hp,
      Placement.span_segment (h.within p hp)⟩

theorem pos (h : Filled placed t) : ∀ p ∈ placed, p.bytes ≠ [] :=
  fun p hp => h.collects.pos p.segment (List.mem_map_of_mem hp)

/-- **No two placed payloads meet.** -/
theorem disjoint (h : Filled placed t) :
    placed.Pairwise fun p q => ¬ p.Meets q := by
  have hsegments := h.collects.disjoint
  rw [List.pairwise_map] at hsegments
  refine hsegments.imp_of_mem fun {p q} hp hq hdisjoint => ?_
  have hpin := h.within p hp
  have hqin := h.within q hq
  rw [Placement.stop_segment hpin, Placement.stop_segment hqin,
    Placement.offset_segment hpin, Placement.offset_segment hqin]
    at hdisjoint
  rintro ⟨hlt, hlt'⟩
  omega

theorem free_iff (h : Filled placed t) (hq : q.bytes ≠ []) :
    conflict? q.offset q.stop t.placed = none ↔
      ∀ p ∈ placed, ¬ q.Meets p := by
  have hlen := List.length_pos_iff.2 hq
  have hlt : q.offset < q.stop := by
    rw [Placement.stop]
    omega
  rw [conflict?_eq_none_iff h.collects.apart hlt]
  constructor
  · rintro hall p hp ⟨hbefore, hbehind⟩
    have hfree := hall p.span ((h.span_mem _).2 ⟨p, hp, rfl⟩)
    simp only [Placement.span] at hfree
    omega
  · intro hall r hr
    obtain ⟨p, hp, rfl⟩ := (h.span_mem r).1 hr
    have hfree := hall p hp
    simp only [Placement.Meets] at hfree
    simp only [Placement.span]
    omega

/-- Payloads that start at the same position meet. -/
theorem meets_of_same (h : Filled placed t) (hq : q.bytes ≠ [])
    {p : Placement} (hp : p ∈ placed) (hsame : p.offset = q.offset) :
    q.Meets p := by
  have hlen := List.length_pos_iff.2 hq
  have hpos := List.length_pos_iff.2 (h.pos p hp)
  constructor
  · simp only [Placement.stop]
    omega
  · simp only [Placement.stop]
    omega

/-- **Placing a payload** fails exactly if it meets a placed one, and the
failure tells why. -/
theorem answers (h : Filled placed t) (hq : q.bytes ≠ [])
    (hin : q.stop ≤ maxCount) :
    Answers placed q (t.place q.offset q.bytes).1 := by
  have hlen := List.length_pos_iff.2 hq
  have hlt : q.offset < q.stop := by
    rw [Placement.stop]
    omega
  rcases place_cases q.offset q.bytes t hq with ⟨e, he, hwhy⟩ |
    ⟨b, he, _, hnone, _⟩
  · have hconflict : conflict? q.offset q.stop t.placed = some e := by
      rcases hwhy with hbeyond | hconflict
      · simp only [Placement.stop] at hin
        omega
      · exact hconflict
    rw [he]
    cases refuses_of_conflict h.collects.apart hlt hconflict with
    | @same r mem start =>
      obtain ⟨p, hp, rfl⟩ := (h.span_mem r).1 mem
      exact .duplicate hp start
    | @meets r mem before behind other =>
      obtain ⟨p, hp, rfl⟩ := (h.span_mem r).1 mem
      refine .overlaps hp ⟨behind, before⟩ fun u hu => ?_
      exact other u.span ((h.span_mem _).2 ⟨u, hu, rfl⟩)
  · rw [he]
    exact .ok ((h.free_iff hq).1 hnone)

theorem place_spec (h : Filled placed t) (hq : q.bytes ≠ [])
    (hin : q.stop ≤ maxCount) :
    ((t.place q.offset q.bytes).1 = .ok () ↔
      ∀ p ∈ placed, ¬ q.Meets p) ∧
    ((t.place q.offset q.bytes).1 = .error (.duplicateOffset q.offset) ↔
      ∃ p ∈ placed, p.offset = q.offset) ∧
    (∀ e, (t.place q.offset q.bytes).1 = .error e →
      e = .duplicateOffset q.offset ∨
      ∃ p ∈ placed, q.Meets p ∧
        e = .overlappingSegment q.offset p.offset) := by
  have hanswers := h.answers hq hin
  generalize (t.place q.offset q.bytes).1 = r at hanswers
  cases hanswers with
  | ok free =>
    have hnone : ¬ ∃ p ∈ placed, p.offset = q.offset :=
      fun ⟨p, hp, hsame⟩ => free p hp (h.meets_of_same hq hp hsame)
    exact ⟨by simpa using free, by simpa using hnone, by simp⟩
  | @duplicate p mem same =>
    have hmeets : ¬ ∀ p ∈ placed, ¬ q.Meets p :=
      fun hall => hall p mem (h.meets_of_same hq mem same)
    exact ⟨by simpa using hmeets, by simpa using ⟨p, mem, same⟩,
      by simp [eq_comm]⟩
  | @overlaps p mem meets other =>
    have hmeets : ¬ ∀ p ∈ placed, ¬ q.Meets p := fun hall => hall p mem meets
    refine ⟨by simpa using hmeets, by simpa using other, fun e he => ?_⟩
    cases he
    exact .inr ⟨p, mem, meets, rfl⟩

/-- The largest end of a placed payload is noted, and within the buffer. -/
theorem writtenLen_spec (h : Filled placed t) :
    (∀ p ∈ placed, p.stop ≤ t.writtenLen) ∧
    (t.writtenLen = 0 ∨ ∃ p ∈ placed, p.stop = t.writtenLen) ∧
    t.writtenLen ≤ t.capacity := by
  refine ⟨fun p hp => ?_, ?_, h.collects.room⟩
  · have hin := h.collects.within p.segment (List.mem_map_of_mem hp)
    rwa [Placement.stop_segment (h.within p hp)] at hin
  · rcases h.collects.attained with hzero | ⟨s, hs, hstop⟩
    · exact .inl hzero
    · obtain ⟨p, hp, rfl⟩ := List.mem_map.1 hs
      rw [Placement.stop_segment (h.within p hp)] at hstop
      exact .inr ⟨p, hp, hstop⟩

/-- A position that a placed range covers is one of a placed payload. -/
theorem covered_iff (h : Filled placed t) (k : Nat) :
    (∃ r ∈ t.placed, r.start ≤ k ∧ k < r.stop) ↔
      ∃ p ∈ placed, p.Covers k := by
  constructor
  · rintro ⟨r, hr, hcovers⟩
    obtain ⟨p, hp, rfl⟩ := (h.span_mem r).1 hr
    exact ⟨p, hp, hcovers⟩
  · rintro ⟨p, hp, hcovers⟩
    exact ⟨p.span, (h.span_mem _).2 ⟨p, hp, rfl⟩, hcovers⟩

/-- **The message is complete** if it has no hole, and holds every placed
payload. -/
theorem message_of_ok (h : Filled placed t) {m : Bytes}
    (hm : t.toMessage = .ok m) :
    (∀ k < t.writtenLen, ∃ p ∈ placed, p.Covers k) ∧
    m.length = t.writtenLen ∧
    ∀ p ∈ placed, ∀ k < p.bytes.length,
      m[p.offset + k]? = p.bytes[k]? := by
  obtain ⟨hwithin, hattained, hroom⟩ := h.writtenLen_spec
  unfold toMessage at hm
  split at hm
  · cases hm
  rename_i hhole
  obtain rfl : (t.buffer.take t.writtenLen).toList = m := by
    simpa using hm
  refine ⟨fun k hk => ?_, ?_, fun p hp k hk => ?_⟩
  · rw [← h.covered_iff]
    refine covered_of_hole?_eq_none hhole (Nat.zero_le k) ?_
    rcases hattained with hzero | ⟨p, hp, hstop⟩
    · omega
    · refine ⟨p.span, (h.span_mem _).2 ⟨p, hp, rfl⟩, ?_⟩
      simp only [Placement.span]
      omega
  · simp only [capacity] at hroom
    simpa using Nat.min_eq_left hroom
  · have hin := h.within p hp
    have hstop := hwithin p hp
    have hholds := h.collects.holds p.segment (List.mem_map_of_mem hp) k hk
    rw [Placement.offset_segment hin, Placement.payload_segment] at hholds
    simp only [Placement.stop] at hstop
    have hlt : p.offset + k < t.writtenLen := by omega
    rw [← hholds]
    simp [hlt]

/-- **The hole that is named** is the first one: all positions before it
are covered, and the next payload starts behind it. -/
theorem hole_of_error (h : Filled placed t) {e : Error}
    (he : t.toMessage = .error e) :
    ∃ filled start, e = .gap filled (some start) ∧ filled < start ∧
      (∀ k < filled, ∃ p ∈ placed, p.Covers k) ∧
      (∃ p ∈ placed, p.offset = start) ∧
      ∀ p ∈ placed, p.stop ≤ filled ∨ start ≤ p.offset := by
  unfold toMessage at he
  split at he
  · rename_i filled start hhole
    cases he
    obtain ⟨_, hlt, ⟨r, hr, hstart⟩, hcovered, hclear⟩ :=
      hole?_spec h.collects.apart (fun r _ => Nat.zero_le r.start) hhole
    refine ⟨filled, start, rfl, hlt, fun k hk => ?_, ?_, fun p hp => ?_⟩
    · exact (h.covered_iff k).1 (hcovered k (Nat.zero_le k) hk)
    · obtain ⟨p, hp, rfl⟩ := (h.span_mem r).1 hr
      exact ⟨p, hp, hstart⟩
    · exact hclear p.span ((h.span_mem _).2 ⟨p, hp, rfl⟩)
  · cases he

/-- The message is complete exactly if every position is covered up to the
last end. -/
theorem message_iff (h : Filled placed t) :
    (∃ m, t.toMessage = .ok m) ↔
      ∀ k < t.writtenLen, ∃ p ∈ placed, p.Covers k := by
  constructor
  · rintro ⟨m, hm⟩
    exact (h.message_of_ok hm).1
  · intro hall
    cases hm : t.toMessage with
    | ok m => exact ⟨m, rfl⟩
    | error e =>
      obtain ⟨filled, start, _, hlt, _, ⟨p, hp, hstart⟩, hclear⟩ :=
        h.hole_of_error hm
      -- the payload behind the hole ends where the buffer was written to
      have hpos := List.length_pos_iff.2 (h.pos p hp)
      have hstop := h.writtenLen_spec.1 p hp
      simp only [Placement.stop] at hstop
      obtain ⟨u, hu, hle, hgt⟩ := hall filled (by omega)
      have := hclear u hu
      omega

end Filled

/-- The largest end never decreases. -/
theorem Gathers.writtenLen_le (h : Gathers placed t placed' t') :
    t.writtenLen ≤ t'.writtenLen := by
  cases h with
  | kept size keep written spans => omega
  | placed some within written ok => omega

/-- **Collecting is exact.** Payloads are placed in any order, and room is
asked for in between. No two of the placed payloads meet. A payload is
refused exactly if it meets a placed one: as a duplicate exactly if one
was placed at its offset, and otherwise with the offset of one that it
meets. The largest end of a placed payload is what is noted; it never
decreases, and lies within the buffer. The message is complete exactly if
the payloads cover all positions up to that end, and then it is as long
and has every payload at its place. Otherwise the failure names the end of
what is covered without a hole, and the start of the next payload. -/
theorem collection_exact (capacity : Nat) (cs : List Command) :
    let j := Journal.after capacity cs
    let t := j.transmission
    ((∀ p ∈ j.placed, p.bytes ≠ []) ∧
      j.placed.Pairwise fun p q => ¬ p.Meets q) ∧
    (∀ q : Placement, q.bytes ≠ [] → q.stop ≤ maxCount →
      let r := (t.place q.offset q.bytes).1
      (r = .ok () ↔ ∀ p ∈ j.placed, ¬ q.Meets p) ∧
      (r = .error (.duplicateOffset q.offset) ↔
        ∃ p ∈ j.placed, p.offset = q.offset) ∧
      ∀ e, r = .error e → e = .duplicateOffset q.offset ∨
        ∃ p ∈ j.placed, q.Meets p ∧
          e = .overlappingSegment q.offset p.offset) ∧
    ((∀ p ∈ j.placed, p.stop ≤ t.writtenLen) ∧
      (t.writtenLen = 0 ∨ ∃ p ∈ j.placed, p.stop = t.writtenLen) ∧
      t.writtenLen ≤ t.capacity ∧
      ∀ c, t.writtenLen ≤ (t.perform c).2.writtenLen) ∧
    ((∃ m, t.toMessage = .ok m) ↔
      ∀ k < t.writtenLen, ∃ p ∈ j.placed, p.Covers k) ∧
    (∀ m, t.toMessage = .ok m → m.length = t.writtenLen ∧
      ∀ p ∈ j.placed, ∀ k < p.bytes.length,
        m[p.offset + k]? = p.bytes[k]?) ∧
    ∀ e, t.toMessage = .error e →
      ∃ filled start, e = .gap filled (some start) ∧ filled < start ∧
        (∀ k < filled, ∃ p ∈ j.placed, p.Covers k) ∧
        (∃ p ∈ j.placed, p.offset = start) ∧
        ∀ p ∈ j.placed, p.stop ≤ filled ∨ start ≤ p.offset := by
  intro j t
  have h : Filled j.placed t := filled_after capacity cs
  obtain ⟨hstop, hattained, hroom⟩ := h.writtenLen_spec
  refine ⟨⟨h.pos, h.disjoint⟩, fun q hq hin => h.place_spec hq hin,
    ⟨hstop, hattained, hroom, fun c => (j.gathers c).writtenLen_le⟩,
    h.message_iff, fun m hm => (h.message_of_ok hm).2,
    fun e he => h.hole_of_error he⟩

/-- The second payload is refused, and the third one leaves a hole. -/
example : (Journal.after Config.minBufferCapacity
    [.place 0 [1, 2, 3], .place 2 [4], .place 5 [6]]).transmission.toMessage =
      .error (.gap 3 (some 5)) := rfl

end Stripe.Transmission
