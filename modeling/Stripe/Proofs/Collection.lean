import Stripe.Transmission
import Stripe.Proofs.Tiling
import Stripe.Proofs.Delivery

/-!
# Collecting by place

Payloads are copied to their places in any order. `Collects pieces t` says
that the segments `pieces` were placed: their ranges do not meet, and the
buffer holds their bytes.

The main statements: a range is refused exactly if it meets a placed one
(`conflict?_eq_none_iff`), the message is complete only if `pieces` tile
it (`Collects.tiles`), and placing never fails as long as the segments
placed so far and later tile some message (`place_of_promised`).
-/

namespace Stripe

/-- The range of the stream that a segment covers. -/
def Segment.span (s : Segment) : Span := ⟨s.offset, s.stop⟩

namespace Transmission

open Segment

/-! ## Ranges that do not meet -/

/-- The ranges are not empty, and each ends before the next one starts. -/
structure Apart (placed : List Span) : Prop where
  pos : ∀ r ∈ placed, r.start < r.stop
  sorted : placed.Pairwise fun r s => r.stop ≤ s.start

theorem Apart.of_cons {r : Span} {placed : List Span}
    (h : Apart (r :: placed)) : Apart placed :=
  ⟨fun s hs => h.pos s (List.mem_cons_of_mem r hs), h.sorted.of_cons⟩

theorem floor?_spec {offset : Nat} {placed : List Span} (h : Apart placed)
    {r : Span} (hr : r ∈ placed) (hle : r.start ≤ offset) :
    ∃ f ∈ placed, floor? offset placed = some f ∧ f.start ≤ offset ∧
      r.stop ≤ f.stop := by
  have hmem : r ∈ placed.filter fun r => r.start ≤ offset := by
    simp [hr, hle]
  obtain ⟨init, f, hf⟩ : ∃ init f,
      (placed.filter fun r => r.start ≤ offset) = init ++ [f] :=
    ⟨_, _, (List.dropLast_concat_getLast (List.ne_nil_of_mem hmem)).symm⟩
  have hfmem : f ∈ placed.filter fun r => r.start ≤ offset := by simp [hf]
  simp only [List.mem_filter, decide_eq_true_eq] at hfmem
  refine ⟨f, hfmem.1, by simp [floor?, hf], hfmem.2, ?_⟩
  rw [hf] at hmem
  rcases List.mem_append.1 hmem with hi | hi
  · have hs := h.sorted.filter fun r => r.start ≤ offset
    rw [hf] at hs
    have := (List.pairwise_append.1 hs).2.2 r hi f (by simp)
    have := h.pos f hfmem.1
    omega
  · obtain rfl := List.mem_singleton.1 hi
    exact Nat.le_refl _

theorem floor?_mem {offset : Nat} {placed : List Span} {f : Span}
    (h : floor? offset placed = some f) : f ∈ placed ∧ f.start ≤ offset := by
  have := List.mem_of_getLast? h
  simpa using this

theorem above?_spec {offset : Nat} {placed : List Span} (h : Apart placed)
    {r : Span} (hr : r ∈ placed) (hlt : offset < r.start) :
    ∃ a ∈ placed, above? offset placed = some a ∧ offset < a.start ∧
      a.start ≤ r.start := by
  obtain ⟨pos, sorted⟩ := h
  induction placed with
  | nil => simp at hr
  | cons s placed ih =>
    obtain ⟨hs, hsorted⟩ := List.pairwise_cons.1 sorted
    by_cases hlts : offset < s.start
    · refine ⟨s, by simp, by simp [above?, hlts], hlts, ?_⟩
      rcases List.mem_cons.1 hr with rfl | hr
      · exact Nat.le_refl _
      · have := hs r hr
        have := pos s (by simp)
        omega
    · rcases List.mem_cons.1 hr with rfl | hr
      · omega
      · obtain ⟨a, ha, hfind, hrest⟩ :=
          ih hr (fun u hu => pos u (by simp [hu])) hsorted
        refine ⟨a, by simp [ha], ?_, hrest⟩
        simpa [above?, hlts] using hfind

theorem above?_mem {offset : Nat} {placed : List Span} {a : Span}
    (h : above? offset placed = some a) : a ∈ placed ∧ offset < a.start := by
  refine ⟨List.mem_of_find?_eq_some h, ?_⟩
  simpa using List.find?_some h

/-- **A range is refused exactly if it meets a placed one.** Only its
neighbours on both sides are looked at, since placed ranges do not meet. -/
theorem conflict?_eq_none_iff {offset stop : Nat} {placed : List Span}
    (h : Apart placed) (hlt : offset < stop) :
    conflict? offset stop placed = none ↔
      ∀ r ∈ placed, r.stop ≤ offset ∨ stop ≤ r.start := by
  simp only [conflict?, Option.or_eq_none_iff, Option.bind_eq_none_iff]
  constructor
  · rintro ⟨hbefore, hafter⟩ r hr
    by_cases hle : r.start ≤ offset
    · obtain ⟨f, _, hf, _, hstop⟩ := floor?_spec h hr hle
      have hno := hbefore f hf
      split at hno
      · cases hno
      · split at hno
        · cases hno
        · exact .inl (by omega)
    · have hgt : offset < r.start := by omega
      obtain ⟨a, _, ha, _, hle⟩ := above?_spec h hr hgt
      have hno := hafter a ha
      split at hno
      · cases hno
      · exact .inr (by omega)
  · intro hall
    constructor
    · intro f hf
      obtain ⟨hmem, hle⟩ := floor?_mem hf
      have := h.pos f hmem
      rcases hall f hmem with hstop | hstop
      · rw [if_neg (by omega), if_neg (by omega)]
      · omega
    · intro a ha
      obtain ⟨hmem, hgt⟩ := above?_mem ha
      have hpos := h.pos a hmem
      rcases hall a hmem with hstop | hstop
      · omega
      · rw [if_neg (by omega)]

/-- Ranges stand in the order of the segments that they belong to. -/
theorem map_span_insert (s : Segment) (row : List Segment) :
    (Queue.insert s row).map span = insertSpan s.span (row.map span) := by
  induction row with
  | nil => rfl
  | cons t row ih =>
    simp only [Queue.insert, List.map_cons, insertSpan]
    rw [apply_ite (List.map span)]
    simp only [List.map_cons, ih]
    rfl

@[simp] theorem mem_insertSpan {u r : Span} {placed : List Span} :
    u ∈ insertSpan r placed ↔ u = r ∨ u ∈ placed := by
  induction placed with
  | nil => simp [insertSpan]
  | cons s placed ih =>
    simp only [insertSpan]
    split
    · simp
    · simp [ih, or_left_comm]

/-- A range that meets no placed one can be put among them. -/
theorem Apart.insertSpan {r : Span} {placed : List Span} (h : Apart placed)
    (hr : r.start < r.stop)
    (hfree : ∀ s ∈ placed, s.stop ≤ r.start ∨ r.stop ≤ s.start) :
    Apart (insertSpan r placed) := by
  obtain ⟨pos, sorted⟩ := h
  refine ⟨fun u hu => ?_, ?_⟩
  · rcases mem_insertSpan.1 hu with rfl | hu
    · exact hr
    · exact pos u hu
  induction placed with
  | nil => simp [Transmission.insertSpan]
  | cons s placed ih =>
    obtain ⟨hs, hsorted⟩ := List.pairwise_cons.1 sorted
    have hspos := pos s (by simp)
    have hsfree := hfree s (by simp)
    simp only [Transmission.insertSpan]
    split
    · rename_i hlt
      refine .cons (fun u hu => ?_) sorted
      rcases List.mem_cons.1 hu with rfl | hu
      · omega
      · have := hs u hu
        omega
    · rename_i hle
      refine .cons (fun u hu => ?_) (ih
        (fun u hu => hfree u (by simp [hu]))
        (fun u hu => pos u (by simp [hu])) hsorted)
      rcases mem_insertSpan.1 hu with rfl | hu
      · omega
      · exact hs u hu

/-! ## The buffer -/

@[simp] theorem size_write (start : Nat) (bs : Bytes)
    (buffer : Array UInt8) : (write start bs buffer).size = buffer.size := by
  induction bs generalizing start buffer with
  | nil => rfl
  | cons b bs ih => simp [write, ih]

theorem getElem?_write {start : Nat} {b : Bytes} {buffer : Array UInt8}
    (h : start + b.length ≤ buffer.size) (k : Nat) :
    (write start b buffer)[k]? =
      if start ≤ k ∧ k < start + b.length then b[k - start]?
      else buffer[k]? := by
  induction b generalizing start buffer with
  | nil =>
    rw [write, if_neg (by simp)]
  | cons b bs ih =>
    simp only [List.length_cons] at h ⊢
    rw [write, ih (by simp; omega)]
    by_cases hk : k = start
    · -- the first byte is written first, and not written over
      subst hk
      rw [if_neg (by omega), if_pos (by omega), Nat.sub_self]
      simp [Array.getElem?_setIfInBounds]
      omega
    · by_cases hin : start + 1 ≤ k ∧ k < start + 1 + bs.length
      · rw [if_pos hin, if_pos (by omega)]
        obtain ⟨j, rfl⟩ : ∃ j, k = start + 1 + j := ⟨k - (start + 1), by omega⟩
        rw [show start + 1 + j - start = j + 1 by omega,
          show start + 1 + j - (start + 1) = j by omega]
        rfl
      · rw [if_neg hin, if_neg (by omega)]
        exact Array.getElem?_setIfInBounds_ne (Ne.symm hk)

/-- Making room keeps what the buffer holds, and fails only for positions
that are not counts. -/
theorem ensureCapacity_cases (offset len : Nat) (t : Transmission) :
    (maxCount < offset + len ∧ t.ensureCapacity offset len =
        (.error (.bufferOverflow maxCount), t)) ∨
      (offset + len ≤ maxCount ∧ ∃ b, t.ensureCapacity offset len =
          (.ok (), { t with buffer := b }) ∧
        offset + len ≤ b.size ∧ t.buffer.size ≤ b.size ∧
        ∀ k < t.buffer.size, b[k]? = t.buffer[k]?) := by
  unfold ensureCapacity
  by_cases hmax : maxCount < offset + len
  · exact .inl ⟨hmax, by simp [hmax]⟩
  · refine .inr ⟨by omega, ?_⟩
    by_cases hcap : t.capacity < offset + len
    · simp only [hmax, hcap, if_false, if_true]
      simp only [capacity] at hcap ⊢
      refine ⟨_, rfl, ?_, ?_, fun k hk => ?_⟩
      · simp only [Array.size_append, Array.size_replicate]
        omega
      · simp only [Array.size_append]
        omega
      · exact Array.getElem?_append_left hk
    · simp only [hmax, hcap, if_false]
      exact ⟨t.buffer, rfl, by simpa [capacity] using hcap,
        Nat.le_refl _, fun _ _ => rfl⟩

/-- What placing a payload comes to, and what it leaves. -/
theorem place_cases (offset : Nat) (bytes : Bytes) (t : Transmission)
    (hs : bytes ≠ []) :
    (∃ e, t.place offset bytes = (.error e, t) ∧
        (maxCount < offset + bytes.length ∨
          conflict? offset (offset + bytes.length) t.placed = some e)) ∨
      (∃ b, t.place offset bytes =
          (.ok (), { t with
            buffer := write offset bytes b
            writtenLen := max t.writtenLen (offset + bytes.length)
            placed := insertSpan ⟨offset, offset + bytes.length⟩
              t.placed }) ∧
        offset + bytes.length ≤ maxCount ∧
        conflict? offset (offset + bytes.length) t.placed = none ∧
        offset + bytes.length ≤ b.size ∧ t.buffer.size ≤ b.size ∧
        ∀ k < t.buffer.size, b[k]? = t.buffer[k]?) := by
  unfold place
  rw [if_neg (by simpa using hs)]
  dsimp only
  by_cases hmax : maxCount < offset + bytes.length
  · exact .inl ⟨_, by rw [if_pos hmax], .inl hmax⟩
  rw [if_neg hmax]
  cases hc : conflict? offset (offset + bytes.length) t.placed with
  | some e => exact .inl ⟨e, rfl, .inr rfl⟩
  | none =>
    rcases ensureCapacity_cases offset bytes.length t with
      ⟨hlt, _⟩ | ⟨hle, b, he, hroom, hsize, hkeep⟩
    · exact absurd hlt hmax
    · exact .inr ⟨b, by simp only [he], hle, rfl, hroom, hsize, hkeep⟩

theorem place_nil (offset : Nat) (t : Transmission) :
    t.place offset [] = (.ok (), t) := rfl

/-! ## Placed segments -/

/-- The state of a transfer whose payloads are collected by place, after
the segments `pieces` were placed. -/
structure Collects (pieces : List Segment) (t : Transmission) : Prop where
  pos : ∀ s ∈ pieces, s.payload ≠ []
  apart : Apart t.placed
  /-- The ranges are those of the segments, in their order. -/
  row : ∃ row : List Segment, row.Perm pieces ∧ row.map span = t.placed
  holds : ∀ s ∈ pieces, ∀ k < s.length,
    t.buffer[s.offset + k]? = s.payload[k]?
  within : ∀ s ∈ pieces, s.stop ≤ t.writtenLen
  attained : t.writtenLen = 0 ∨ ∃ s ∈ pieces, s.stop = t.writtenLen
  room : t.writtenLen ≤ t.buffer.size

theorem collects_withCapacity (capacity : Nat) :
    Collects [] (withCapacity capacity) where
  pos := by simp
  apart := ⟨by simp [withCapacity], .nil⟩
  row := ⟨[], .refl _, rfl⟩
  holds := by simp
  within := by simp
  attained := .inl rfl
  room := Nat.zero_le _

variable {pieces future : List Segment} {t t' : Transmission} {s : Segment}

/-- Whatever is noted beside the buffer does not matter for the message. -/
theorem Collects.congr (h : Collects pieces t) (hb : t'.buffer = t.buffer)
    (hw : t'.writtenLen = t.writtenLen) (hp : t'.placed = t.placed) :
    Collects pieces t' where
  pos := h.pos
  apart := hp ▸ h.apart
  row := hp ▸ h.row
  holds := hb ▸ h.holds
  within := hw ▸ h.within
  attained := hw ▸ h.attained
  room := by rw [hw, hb]; exact h.room

theorem Collects.span_mem (h : Collects pieces t) :
    ∀ r, r ∈ t.placed ↔ ∃ s ∈ pieces, s.span = r := by
  obtain ⟨row, hperm, hrow⟩ := h.row
  intro r
  simp [← hrow, hperm.mem_iff]

/-- A segment can be placed exactly if it meets no placed one. -/
theorem Collects.free_iff (h : Collects pieces t) (hs : s.payload ≠ []) :
    conflict? s.offset s.stop t.placed = none ↔
      ∀ u ∈ pieces, u.stop ≤ s.offset ∨ s.stop ≤ u.offset := by
  have hlen := List.length_pos_iff.2 hs
  have hlt : s.offset < s.stop := by
    simp only [stop, length]
    omega
  rw [conflict?_eq_none_iff h.apart hlt]
  constructor
  · intro hall u hu
    exact hall u.span ((h.span_mem _).2 ⟨u, hu, rfl⟩)
  · intro hall r hr
    obtain ⟨u, hu, rfl⟩ := (h.span_mem r).1 hr
    exact hall u hu

/-- **Placing a segment.** What was placed before stays as it was. -/
theorem Collects.place (h : Collects pieces t) (hs : s.payload ≠ [])
    (hp : t.place s.offset s.payload = (.ok (), t')) :
    Collects (pieces ++ [s]) t' := by
  rcases place_cases s.offset s.payload t hs with ⟨e, he, _⟩ |
    ⟨b, hok, _, hfree, hroom, hsize, hkeep⟩
  · simp [he] at hp
  replace hok : t.place s.offset s.payload = (.ok (), { t with
      buffer := write s.offset s.payload b
      writtenLen := max t.writtenLen s.stop
      placed := insertSpan s.span t.placed }) := hok
  replace hroom : s.stop ≤ b.size := hroom
  obtain rfl := congrArg Prod.snd (hok.symm.trans hp)
  have hapart := (h.free_iff hs).1 hfree
  have hlen := List.length_pos_iff.2 hs
  have hold (k : Nat) := getElem?_write (b := s.payload) hroom k
  constructor
  case pos =>
    intro u hu
    rcases List.mem_append.1 hu with hu | hu
    · exact h.pos u hu
    · exact List.mem_singleton.1 hu ▸ hs
  case apart =>
    apply h.apart.insertSpan
    · simp only [span, stop, length]
      omega
    · intro r hr
      obtain ⟨u, hu, rfl⟩ := (h.span_mem r).1 hr
      exact hapart u hu
  case row =>
    obtain ⟨row, hperm, hrow⟩ := h.row
    refine ⟨Queue.insert s row, ?_, by rw [map_span_insert, hrow]⟩
    exact (Queue.insert_perm s row).trans
      ((hperm.cons s).trans (List.perm_append_singleton s _).symm)
  case holds =>
    intro u hu k hk
    show (write s.offset s.payload b)[u.offset + k]? = _
    rw [hold]
    rcases List.mem_append.1 hu with hu | hu
    · -- the new range does not meet the one of `u`
      have hmeet := hapart u hu
      have hin := h.within u hu
      have := h.room
      simp only [stop, length] at hmeet hin hk
      rw [if_neg (by omega), hkeep _ (by omega)]
      exact h.holds u hu k hk
    · obtain rfl := List.mem_singleton.1 hu
      rw [if_pos ⟨by omega, by simp only [length] at hk; omega⟩,
        Nat.add_sub_cancel_left]
  case within =>
    intro u hu
    show u.stop ≤ max t.writtenLen s.stop
    rcases List.mem_append.1 hu with hu | hu
    · have := h.within u hu
      omega
    · rw [List.mem_singleton.1 hu]
      omega
  case attained =>
    right
    show ∃ u ∈ pieces ++ [s], u.stop = max t.writtenLen s.stop
    by_cases hle : t.writtenLen ≤ s.stop
    · exact ⟨s, by simp, by omega⟩
    · rcases h.attained with h0 | ⟨u, hu, hstop⟩
      · omega
      · exact ⟨u, by simp [hu], by omega⟩
  case room =>
    show max t.writtenLen s.stop ≤ (write s.offset s.payload b).size
    have := h.room
    rw [size_write]
    omega

/-! ## The message -/

theorem hole?_map_span {filled : Nat} {row : List Segment}
    (hpos : ∀ s ∈ row, s.payload ≠ []) :
    hole? filled (row.map span) = none ↔ Chained filled row := by
  induction row generalizing filled with
  | nil => simp [hole?]
  | cons s row ih =>
    have hlen := List.length_pos_iff.2 (hpos s (by simp))
    have ih' : hole? s.stop (row.map span) = none ↔ Chained s.stop row :=
      ih fun u hu => hpos u (by simp [hu])
    simp only [List.map_cons, hole?, span, chained_cons]
    split
    · rename_i heq
      have hlen' : 0 < s.length := hlen
      rw [show s.stop = filled + s.length by rw [stop, heq]] at ih' ⊢
      simpa [heq, hlen'] using ih'
    · rename_i hne
      simp [hne]

/-- The bytes at the places of a chain are those that it carries. -/
theorem getElem?_joined {start : Nat} {row : List Segment}
    {buffer : Array UInt8} (h : Chained start row)
    (hb : ∀ s ∈ row, ∀ k < s.length, buffer[s.offset + k]? = s.payload[k]?) :
    ∀ k < (joined row).length, buffer[start + k]? = (joined row)[k]? := by
  induction row generalizing start with
  | nil => simp
  | cons s row ih =>
    obtain ⟨rfl, _, hrest⟩ := h
    intro k hk
    simp only [joined_cons, List.length_append] at hk ⊢
    by_cases hlt : k < s.payload.length
    · rw [List.getElem?_append_left hlt]
      exact hb s (by simp) k hlt
    · have hk' := ih hrest (fun u hu => hb u (by simp [hu]))
        (k - s.payload.length) (by omega)
      rw [List.getElem?_append_right (by omega), ← hk', length]
      congr 1
      omega

/-- **The message has no hole exactly if the segments tile it.** -/
theorem Collects.toMessage_spec (h : Collects pieces t) {m : Bytes}
    (hm : t.toMessage = .ok m) : Tiles pieces m := by
  obtain ⟨row, hperm, hrow⟩ := h.row
  have hpos : ∀ s ∈ row, s.payload ≠ [] := fun s hs =>
    h.pos s (hperm.mem_iff.1 hs)
  unfold toMessage at hm
  rw [← hrow] at hm
  split at hm
  · cases hm
  rename_i hhole
  have hchain := (hole?_map_span hpos).1 hhole
  refine ⟨row, hperm, hchain, ?_⟩
  -- the last segment of the chain ends where the buffer was written to
  have htotal : (joined row).length = t.writtenLen := by
    apply Nat.le_antisymm
    · rcases List.eq_nil_or_concat row with rfl | ⟨init, s, hlast⟩
      · simp
      · rw [List.concat_eq_append] at hlast
        subst hlast
        have hin := h.within s (hperm.mem_iff.1 (by simp))
        simp only [chained_append, chained_cons] at hchain
        simp only [joined_append, joined_cons, joined_nil,
          List.append_nil, List.length_append, stop, length] at hin ⊢
        omega
    · rcases h.attained with h0 | ⟨s, hs, hstop⟩
      · omega
      · have := hchain.stop_le (hperm.mem_iff.2 hs)
        omega
  have hget := getElem?_joined hchain fun s hs =>
    h.holds s (hperm.mem_iff.1 hs)
  obtain rfl : (t.buffer.take t.writtenLen).toList = m := by
    simpa using hm
  apply List.ext_getElem?
  intro k
  by_cases hk : k < t.writtenLen
  · rw [← hget k (by omega)]
    simp [hk]
  · have hlen : ((t.buffer.take t.writtenLen).toList).length ≤ k := by
      simp
      omega
    rw [List.getElem?_eq_none (by omega), List.getElem?_eq_none hlen]

/-! ## Segments that tile a message -/

/-- **A segment of a promised stream can be placed.** -/
theorem place_of_promised (h : Collects pieces t)
    (hp : Promised pieces (s :: future)) :
    ∃ t', t.place s.offset s.payload = (.ok (), t') := by
  obtain ⟨row, hrow, hperm, hsize⟩ := hp
  have hmem : s ∈ row := hperm.mem_iff.1 (by simp)
  have hlen := hrow.length_pos hmem
  have hstop := hrow.stop_le hmem
  have hs : s.payload ≠ [] := List.length_pos_iff.1 hlen
  -- segments of a chain do not overlap
  have hfree : ∀ u ∈ pieces, u.stop ≤ s.offset ∨ s.stop ≤ u.offset := by
    intro u hu
    have hdis := hrow.disjoint_of_perm hperm.symm
    exact (List.pairwise_append.1 hdis).2.2 u hu s (by simp)
  rcases place_cases s.offset s.payload t hs with ⟨e, _, hbad⟩ | ⟨b, hok, _⟩
  · rcases hbad with hlt | hconf
    · simp only [stop, length] at hstop
      omega
    · have hnone := (h.free_iff hs).2 hfree
      rw [stop, length, hconf] at hnone
      cases hnone
  · exact ⟨_, hok⟩

/-- Segments of a chain that stand in the order of their places form that
chain. -/
theorem chained_of_sorted {start : Nat} {l row : List Segment}
    (h : Chained start l) (hperm : row.Perm l)
    (hsorted : row.Pairwise fun s u => s.stop ≤ u.offset) :
    Chained start row := by
  induction l generalizing start row with
  | nil => rw [hperm.eq_nil]; trivial
  | cons u l ih =>
    cases row with
    | nil => exact absurd hperm.nil_eq (by simp)
    | cons s row =>
      obtain ⟨hs, hsorted'⟩ := List.pairwise_cons.1 hsorted
      have hsmem : s ∈ u :: l := hperm.mem_iff.1 (by simp)
      have hoff : s.offset = start := by
        have hge := h.le_offset hsmem
        have hpos := h.length_pos hsmem
        have hu : u ∈ s :: row := hperm.mem_iff.2 (by simp)
        rcases List.mem_cons.1 hu with rfl | hu
        · exact h.1
        · have hlt := hs u hu
          have hat := h.1
          simp only [stop] at hlt
          omega
      obtain rfl := h.eq_of_offset_eq hsmem hoff
      exact ⟨hoff, h.2.1, ih h.2.2 hperm.cons_inv hsorted'⟩

/-- **The message of a promised stream is complete once nothing is still
to come.** -/
theorem toMessage_of_promised (h : Collects pieces t)
    (hp : Promised pieces []) : ∃ m, t.toMessage = .ok m := by
  obtain ⟨l, hl, hperm, _⟩ := hp
  rw [List.append_nil] at hperm
  obtain ⟨row, hrow, hspan⟩ := h.row
  have hpos : ∀ s ∈ row, s.payload ≠ [] := fun s hs =>
    h.pos s (hrow.mem_iff.1 hs)
  have hsorted := h.apart.sorted
  rw [← hspan, List.pairwise_map] at hsorted
  have hchain := chained_of_sorted hl (hrow.trans hperm) hsorted
  have hhole := (hole?_map_span hpos).2 hchain
  unfold toMessage
  rw [← hspan, hhole]
  exact ⟨_, rfl⟩

end Transmission
end Stripe
