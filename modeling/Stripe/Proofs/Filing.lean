import Stripe.Reader.Intake
import Stripe.Proofs.Collection
import Stripe.Proofs.Rows

/-!
# Filing segments

What `Intake.accept` does with one segment, whichever way the receiver
goes. A segment is filed as a whole or refused (`accept_spec`). A refused
segment leaves the state of the transfer as it was, with one exception: an
announced number of connections that is not the right one is noted before
it is refused.

Segments of inputs that are `Good` are never refused (`accept_of_good`).
-/

namespace Stripe

open Segment Transmission

/-- The segments `pieces` were filed by a receiver that goes this way, and
`out` was handed out. Nothing of a message is handed out while it is
collected. -/
def Transmission.Stored : Mode → (pieces : List Segment) → (out : Bytes) →
    Transmission → Prop
  | .stream, pieces, out, t => Streams pieces out t
  | .collect, pieces, out, t => Collects pieces t ∧ out = []

namespace Transmission

variable {mode : Mode} {pieces future : List Segment} {out : Bytes}
  {t t' : Transmission} {s : Segment}

theorem stored_withCapacity (mode : Mode) (capacity : Nat) :
    Stored mode [] [] (withCapacity capacity) := by
  cases mode with
  | stream => exact streams_withCapacity capacity
  | collect => exact ⟨collects_withCapacity capacity, rfl⟩

theorem Streams.perm (h : Streams pieces out t) {pieces' : List Segment}
    (hp : pieces.Perm pieces') : Streams pieces' out t := by
  refine ⟨h.ordered, h.cursor, fun s hs => h.pos s (hp.mem_iff.2 hs), ?_⟩
  cases h.reached with
  | whole chained perm joined =>
    exact .whole chained (perm.trans hp) joined
  | split chained perm queued pos offset joined =>
    exact .split chained (perm.trans hp) queued pos offset joined

theorem Collects.perm (h : Collects pieces t) {pieces' : List Segment}
    (hp : pieces.Perm pieces') : Collects pieces' t := by
  obtain ⟨row, hrow, hspan⟩ := h.row
  refine ⟨fun s hs => h.pos s (hp.mem_iff.2 hs), h.apart,
    ⟨row, hrow.trans hp, hspan⟩, fun s hs => h.holds s (hp.mem_iff.2 hs),
    fun s hs => h.within s (hp.mem_iff.2 hs), ?_, h.room⟩
  rcases h.attained with h0 | ⟨s, hs, hstop⟩
  · exact .inl h0
  · exact .inr ⟨s, hp.mem_iff.1 hs, hstop⟩

theorem Stored.perm (h : Stored mode pieces out t)
    {pieces' : List Segment} (hp : pieces.Perm pieces') :
    Stored mode pieces' out t := by
  cases mode with
  | stream => exact Streams.perm h hp
  | collect => exact ⟨Collects.perm h.1 hp, h.2⟩

/-- What is noted about the ends of connections does not matter. -/
theorem Stored.noted (h : Stored mode pieces out t) (total : Option Nat)
    (acks : List Nat) :
    Stored mode pieces out { t with eodTotal := total, eodAcks := acks } := by
  cases mode with
  | stream => exact Streams.congr h rfl rfl
  | collect => exact ⟨Collects.congr h.1 rfl rfl rfl, h.2⟩

/-! ## Payloads -/

/-- A payload is stored, or nothing changes. -/
theorem store_cases (mode : Mode) (hs : s.payload ≠ [])
    (t : Transmission) :
    (∃ e, Intake.store mode s t = (.error e, t)) ∨
      ∃ t', Intake.store mode s t = (.ok (), t') ∧
        t'.eodTotal = t.eodTotal ∧ t'.eodAcks = t.eodAcks ∧
        (∀ u ∈ t'.queue.segments, u = s ∨ u ∈ t.queue.segments) ∧
        t'.load ≤ t.load + s.length := by
  cases mode with
  | stream =>
    rcases push_cases s t with ⟨e, he, _⟩ | ⟨hok, _⟩
    · exact .inl ⟨e, he⟩
    · refine .inr ⟨_, hok, rfl, rfl, fun u hu => ?_, ?_⟩
      · exact Queue.mem_insert.1 hu
      · simp only [load, Queue.length_joined_insert]
        omega
  | collect =>
    rcases place_cases s.offset s.payload t hs with ⟨e, he, _⟩ | ⟨b, hok, _⟩
    · exact .inl ⟨e, he⟩
    · exact .inr ⟨_, hok, rfl, rfl, fun u hu => .inr hu,
        Nat.le_add_right _ _⟩

theorem Stored.store (h : Stored mode pieces out t) (hs : s.payload ≠ [])
    (hok : Intake.store mode s t = (.ok (), t')) :
    Stored mode (pieces ++ [s]) out t' := by
  cases mode with
  | stream => exact Streams.push h hs hok
  | collect => exact ⟨Collects.place h.1 hs hok, h.2⟩

/-- **A payload of a promised stream can be stored.** -/
theorem Stored.store_of_promised (h : Stored mode pieces out t)
    (hp : Promised pieces (s :: future)) :
    ∃ t', Intake.store mode s t = (.ok (), t') := by
  cases mode with
  | stream => exact push_of_chained h hp
  | collect => exact place_of_promised h.1 hp

end Transmission

namespace Intake

variable {n i : Nat} {mode : Mode} {s : Segment} {b b' : Intake}

/-- What a segment that was filed as a whole has changed. -/
structure Files (n i : Nat) (mode : Mode) (s : Segment)
    (b b' : Intake) : Prop where
  control : s.isControl = true → s.header.byteCount = 0 ∧ s.offset = n
  few : s.isControl = true → n < countLimit
  total : b'.transmission.eodTotal =
    if s.isControl then some n else b.transmission.eodTotal
  acks : ∀ j, j ∈ b'.transmission.eodAcks ↔
    j ∈ b.transmission.eodAcks ∨ s.isTerminal = true ∧ j = i
  nodup : b.transmission.eodAcks.Nodup → b'.transmission.eodAcks.Nodup
  stored : ∀ pieces out, Stored mode pieces out b.transmission →
    Stored mode (pieces ++ dataOf [s]) out b'.transmission
  queued : ∀ u ∈ b'.transmission.queue.segments,
    u = s ∧ s.payload ≠ [] ∨ u ∈ b.transmission.queue.segments
  load : b'.transmission.load ≤ b.transmission.load + s.length
  stats : b'.stats = b.stats.record i s

/-- What filing a segment comes to. -/
inductive Accepts (n i : Nat) (mode : Mode) (s : Segment) (b : Intake) :
    Except Error Bool → Intake → Prop where
  | filed {b' : Intake} (files : Files n i mode s b b') :
      Accepts n i mode s b (.ok (!s.isTerminal)) b'
  | refused {e : Error} {b' : Intake}
      (kept : b'.transmission = b.transmission) :
      Accepts n i mode s b (.error e) b'
  /-- The wrong number of connections was announced. -/
  | mismatch {b' : Intake} {total : Nat} (ne : total ≠ n)
      (free : b.transmission.eodTotal = none ∨
        b.transmission.eodTotal = some total)
      (noted : b'.transmission =
        { b.transmission with eodTotal := some total }) :
      Accepts n i mode s b (.error (.eodCountMismatch total n)) b'

/-- A number that is noted comes from the segment, or was noted before. -/
theorem Files.total_eq {mode : Mode} {s : Segment} {b b' : Intake}
    (h : Files n i mode s b b') {total : Nat}
    (ht : b'.transmission.eodTotal = some total) :
    s.isControl = true ∧ n = total ∨
      s.isControl = false ∧ b.transmission.eodTotal = some total := by
  rw [h.total] at ht
  cases hc : s.isControl with
  | true =>
    rw [hc, if_pos rfl, Option.some.injEq] at ht
    exact .inl ⟨rfl, ht⟩
  | false =>
    rw [hc, if_neg (by simp)] at ht
    exact .inr ⟨rfl, ht⟩

theorem mem_ackEod {t : Transmission} {j : Nat} :
    j ∈ (t.ackEod i).2.eodAcks ↔ j ∈ t.eodAcks ∨ j = i := by
  unfold ackEod
  split
  · rename_i h
    rw [List.contains_iff_mem] at h
    constructor
    · exact .inl
    · rintro (hj | rfl)
      · exact hj
      · exact h
  · simp [or_comm]

theorem nodup_ackEod {t : Transmission} (h : t.eodAcks.Nodup) :
    (t.ackEod i).2.eodAcks.Nodup := by
  unfold ackEod
  split
  · exact h
  · rename_i hno
    refine List.nodup_cons.2 ⟨?_, h⟩
    simpa using hno

/-- Ending a connection changes the acknowledgements only. -/
theorem ackEod_eq (i : Nat) (t : Transmission) :
    (t.ackEod i).2 = { t with eodAcks := (t.ackEod i).2.eodAcks } := by
  unfold ackEod
  split <;> rfl

/-- The last step of filing a segment. `b₁` is what it has changed before
it may end its connection. -/
theorem conclude_spec {b₁ : Intake}
    (control : s.isControl = true →
      s.header.byteCount = 0 ∧ s.offset = n)
    (few : s.isControl = true → n < countLimit)
    (total : b₁.transmission.eodTotal =
      if s.isControl then some n else b.transmission.eodTotal)
    (acks : b₁.transmission.eodAcks = b.transmission.eodAcks)
    (stored : ∀ pieces out, Stored mode pieces out b.transmission →
      Stored mode (pieces ++ dataOf [s]) out b₁.transmission)
    (queued : ∀ u ∈ b₁.transmission.queue.segments,
      u = s ∧ s.payload ≠ [] ∨ u ∈ b.transmission.queue.segments)
    (load : b₁.transmission.load ≤ b.transmission.load + s.length)
    (stats : b₁.stats =
      if s.isControl then b.stats.recordControl i
      else if s.isEmpty then b.stats
      else b.stats.recordSegment i s.length) :
    Accepts n i mode s b (conclude i s.isTerminal b₁).1
      (conclude i s.isTerminal b₁).2 := by
  cases ht : s.isTerminal with
  | false =>
    have hfiles : Files n i mode s b b₁ :=
      { control, few, total, stored, queued, load
        acks := by simp [acks, ht]
        nodup := fun h => acks ▸ h
        stats := by simp [stats, Stats.record, ht] }
    have := Accepts.filed hfiles
    rwa [ht] at this
  | true =>
    have hack := ackEod_eq i b₁.transmission
    have hfiles : Files n i mode s b (b₁.endConnection i) :=
      { control, few
        total := by simp only [endConnection]; rw [hack]; exact total
        acks := by simp [endConnection, mem_ackEod, acks, ht]
        nodup := fun h => nodup_ackEod (acks ▸ h)
        stored := by
          intro pieces out h
          simp only [endConnection]
          rw [hack]
          exact (stored pieces out h).noted _ _
        queued := by simp only [endConnection]; rw [hack]; exact queued
        load := by simp only [endConnection]; rw [hack]; exact load
        stats := by simp [endConnection, stats, Stats.record, ht] }
    have := Accepts.filed hfiles
    rwa [ht] at this

/-- What noting an announced number of connections comes to. -/
theorem setEodTotal_cases (total : Nat) (t : Transmission) :
    (∃ e, t.setEodTotal total = (.error e, t) ∧
        ∃ existing, t.eodTotal = some existing ∧ existing ≠ total) ∨
      ((t.eodTotal = none ∨ t.eodTotal = some total) ∧
        t.setEodTotal total =
          (.ok (), { t with eodTotal := some total })) := by
  unfold setEodTotal
  cases h : t.eodTotal with
  | none => exact .inr ⟨.inl rfl, rfl⟩
  | some existing =>
    by_cases heq : existing = total
    · subst heq
      refine .inr ⟨.inr rfl, ?_⟩
      dsimp only
      rw [if_pos rfl, ← h]
    · refine .inl ⟨.conflictingEodCount existing total, ?_, existing,
        rfl, heq⟩
      dsimp only
      rw [if_neg heq]

theorem acceptControl_spec (hc : s.isControl = true)
    (he : s.isEmpty = true) :
    Accepts n i mode s b (b.acceptControl n i s.header).1
      (b.acceptControl n i s.header).2 := by
  have hdata : dataOf [s] = [] := by simp [dataOf_singleton, he]
  unfold acceptControl
  dsimp only
  split
  · exact .refused rfl
  rename_i hbytes
  split
  · exact .refused rfl
  rename_i hfew
  rcases setEodTotal_cases s.header.offsetCount.toNat b.transmission with
    ⟨e, hset, _⟩ | ⟨hfree, hset⟩
  · rw [hset]
    exact .refused rfl
  · rw [hset]
    dsimp only
    split
    · rename_i hne
      exact .mismatch hne hfree rfl
    · rename_i hn
      have hn : s.offset = n := by simpa [Segment.offset] using hn
      refine conclude_spec (fun _ => ⟨by simpa using hbytes, hn⟩)
        (fun _ => by simp only [Segment.offset] at hn; omega) ?_ rfl ?_
        (fun u hu => .inr hu) (Nat.le_add_right _ _) (by simp [hc])
      · simpa [hc, Segment.offset] using hn
      · intro pieces out h
        rw [hdata, List.append_nil]
        exact h.noted _ _

theorem acceptData_spec (hc : s.isControl = false) :
    Accepts n i mode s b (b.acceptData i mode s).1
      (b.acceptData i mode s).2 := by
  unfold acceptData
  cases he : s.isEmpty with
  | true =>
    rw [if_pos rfl]
    refine conclude_spec (by simp [hc]) (by simp [hc]) (by simp [hc]) rfl
      ?_ (fun u hu => .inr hu) (Nat.le_add_right _ _) (by simp [hc, he])
    intro pieces out h
    simpa [dataOf_singleton, he] using h
  | false =>
    rw [if_neg (by simp)]
    have hs : s.payload ≠ [] := by simpa [Segment.isEmpty] using he
    rcases store_cases mode hs b.transmission with
      ⟨e, hst⟩ | ⟨t', hst, htotal, hacks, hqueued, hload⟩
    · rw [hst]
      exact .refused rfl
    · rw [hst]
      refine conclude_spec (by simp [hc]) (by simp [hc])
        (by simp [hc, htotal]) hacks ?_ ?_ hload (by simp [hc, he])
      · intro pieces out h
        rw [dataOf_singleton, he]
        exact h.store hs hst
      · intro u hu
        rcases hqueued u hu with rfl | hu
        · exact .inl ⟨rfl, hs⟩
        · exact .inr hu

/-- **Filing a segment.** Control segments carry no bytes. -/
theorem accept_spec (hs : s.isControl = true → s.isEmpty = true) :
    Accepts n i mode s b (b.accept n i mode s).1
      (b.accept n i mode s).2 := by
  unfold accept
  cases hc : s.isControl with
  | true => exact acceptControl_spec hc (hs hc)
  | false => exact acceptData_spec hc

theorem conclude_fst (terminal : Bool) (b : Intake) :
    (conclude i terminal b).1 = .ok !terminal := by
  cases terminal <;> rfl

/-- **A segment of good inputs is filed.** -/
theorem accept_of_good {pieces future : List Segment} {out : Bytes}
    (hn : n < countLimit)
    (hc : s.isControl = true → s.header.byteCount = 0 ∧ s.offset = n)
    (ht : ∀ total, b.transmission.eodTotal = some total → total = n)
    (h : Stored mode pieces out b.transmission)
    (hp : s.isControl = false → s.payload ≠ [] →
      Promised pieces (s :: future)) :
    (b.accept n i mode s).1 = .ok !s.isTerminal := by
  unfold accept
  cases hcs : s.isControl with
  | true =>
    obtain ⟨hbytes, hoff⟩ := hc hcs
    have hoff : s.header.offsetCount.toNat = n := hoff
    simp only [if_true, acceptControl, hoff, hbytes]
    rw [if_neg (by simp), if_neg (by omega)]
    rcases setEodTotal_cases n b.transmission with
      ⟨e, _, existing, hex, hne⟩ | ⟨_, hset⟩
    · exact absurd (ht existing hex) hne
    · rw [hset]
      simp only [ne_eq, not_true_eq_false, if_false]
      exact conclude_fst _ _
  | false =>
    simp only [Bool.false_eq_true, if_false, acceptData]
    cases he : s.isEmpty with
    | true => exact conclude_fst _ _
    | false =>
      have hs : s.payload ≠ [] := by simpa [Segment.isEmpty] using he
      obtain ⟨t', hst⟩ := h.store_of_promised (hp hcs hs)
      simp only [Bool.false_eq_true, if_false, hst]
      exact conclude_fst _ _

end Intake
end Stripe
