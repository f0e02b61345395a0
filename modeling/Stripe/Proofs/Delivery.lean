import Stripe.Transmission
import Stripe.Proofs.Tiling

/-!
# Delivery in order

Payloads arrive in any order and are handed out by parts of any size.
`Streams pieces out t` says where that stands: of the filed segments
`pieces` some form a chain from position zero, and the others are queued;
`out` was handed out, and is all of the chain but perhaps the end of its
last segment, which is queued as a segment of its own.

`push_cases` and `looks` are all that queueing a segment and looking for
bytes can come to, in any state. The main statements: the end of the stream
is reached only if `pieces` tile `out` (`next_spec`), and filing and
handing out never fail as long as the segments filed so far and later tile
some message (`push_of_chained`, `next_of_chained`).
-/

namespace Stripe

namespace Queue

/-- The queued segments are in the order of their offsets, at most one for
each. -/
def Ordered (q : Queue) : Prop :=
  q.segments.Pairwise fun s t => s.offset < t.offset

theorem insert_perm (s : Segment) (l : List Segment) :
    (insert s l).Perm (s :: l) := by
  induction l with
  | nil => exact .refl _
  | cons t l ih =>
    simp only [insert]
    split
    · exact .refl _
    · exact (ih.cons t).trans (.swap s t l)

theorem length_joined_insert (s : Segment) (l : List Segment) :
    (Segment.joined (insert s l)).length =
      s.length + (Segment.joined l).length := by
  rw [Segment.length_joined_perm (insert_perm s l), Segment.joined_cons,
    List.length_append, Segment.length]

theorem holds_eq_false_iff {q : Queue} {offset : Nat} :
    q.holds offset = false ↔ ∀ t ∈ q.segments, t.offset ≠ offset := by
  simp [holds]

theorem pairwise_insert {s : Segment} {l : List Segment}
    (h : l.Pairwise fun s t => s.offset < t.offset)
    (hs : ∀ t ∈ l, t.offset ≠ s.offset) :
    (insert s l).Pairwise fun s t => s.offset < t.offset := by
  induction l with
  | nil => simp [insert]
  | cons t l ih =>
    obtain ⟨ht, hl⟩ := List.pairwise_cons.1 h
    simp only [insert]
    split
    · rename_i hlt
      refine .cons (fun u hu => ?_) h
      rcases List.mem_cons.1 hu with rfl | hu
      · exact hlt
      · have := ht u hu
        omega
    · rename_i hle
      refine .cons (fun u hu => ?_) (ih hl fun u hu => hs u (by simp [hu]))
      rcases mem_insert.1 hu with rfl | hu
      · have := hs t (by simp)
        omega
      · exact ht u hu

theorem min?_eq_none {q : Queue} : q.min? = none ↔ q.segments = [] := by
  simp [min?, peek?]

/-- The smallest offset is that of the segment which is taken out next. -/
theorem min?_eq_some {q : Queue} {n : Nat} (h : q.min? = some n) :
    ∃ s rest, q.segments = s :: rest ∧ s.offset = n := by
  cases hs : q.segments with
  | nil => simp [min?, peek?, hs] at h
  | cons s rest =>
    refine ⟨s, rest, rfl, ?_⟩
    simpa [min?, peek?, hs] using h

theorem Ordered.head_le {q : Queue} (h : q.Ordered) {s : Segment}
    {others : List Segment} (head : q.segments = s :: others) {t : Segment}
    (ht : t ∈ q.segments) : s.offset ≤ t.offset := by
  rw [Ordered, head] at h
  rw [head] at ht
  rcases List.mem_cons.1 ht with rfl | ht
  · exact Nat.le_refl _
  · exact Nat.le_of_lt ((List.pairwise_cons.1 h).1 t ht)

end Queue

namespace Segment

@[simp] theorem payload_splitFront_fst (s : Segment) (n : Nat) :
    (s.splitFront n).1.payload = s.payload.take n := rfl

@[simp] theorem payload_splitFront_snd (s : Segment) (n : Nat) :
    (s.splitFront n).2.payload = s.payload.drop n := rfl

/-- The rest of a split segment starts where the front ends, counted by
words of 64 bits. -/
theorem offset_splitFront_snd (s : Segment) (n : Nat) :
    (s.splitFront n).2.offset =
      (s.offset + (s.payload.take n).length) % UInt64.size := by
  simp [splitFront, offset, UInt64.toNat_add, UInt64.size]

@[simp] theorem length_rest (s : Segment) (n : Nat) :
    (s.splitFront n).2.length = s.length - n := by
  simp [length]

/-- All of a short segment is its front. -/
theorem front_eq {s : Segment} {n : Nat} (hn : s.length ≤ n) :
    (s.splitFront n).1.payload = s.payload :=
  List.take_of_length_le hn

theorem length_front {s : Segment} {n : Nat} (hn : n < s.length) :
    (s.splitFront n).1.length = n :=
  List.length_take_of_le (Nat.le_of_lt hn)

theorem rest_isEmpty_iff {s : Segment} {n : Nat} :
    (s.splitFront n).2.isEmpty = true ↔ s.length ≤ n := by
  rw [isEmpty, List.isEmpty_iff_length_eq_zero, ← length, length_rest]
  omega

/-- The offset of the rest does not wrap around, if all positions of the
segment are counts. -/
theorem offset_rest {s : Segment} {n : Nat} (hs : s.stop ≤ maxCount)
    (hn : n < s.length) : (s.splitFront n).2.offset = s.offset + n := by
  have hcount : maxCount < UInt64.size := by decide
  simp only [stop, length] at hs hn
  rw [offset_splitFront_snd, List.length_take,
    Nat.min_eq_left (Nat.le_of_lt hn), Nat.mod_eq_of_lt (by omega)]

theorem rest_ne_nil {s : Segment} {n : Nat} (hn : n < s.length) :
    (s.splitFront n).2.payload ≠ [] := by
  rw [← List.length_pos_iff, ← length, length_rest]
  omega

end Segment

namespace Transmission

open Segment

/-- How far the stream has come: `out` was handed out of the filed segments
`pieces`, and `queued` is still to come. -/
inductive Reached (pieces : List Segment) (out : Bytes)
    (queued : List Segment) : Prop where
  /-- The chain of delivered segments ends where `out` does. -/
  | whole {front : List Segment} (chained : Chained 0 front)
      (perm : (front ++ queued).Perm pieces) (joined : joined front = out)
  /-- The end of the last segment of the chain is queued. -/
  | split {front waiting : List Segment} {rest : Segment}
      (chained : Chained 0 front) (perm : (front ++ waiting).Perm pieces)
      (queued : queued.Perm (rest :: waiting)) (pos : rest.payload ≠ [])
      (offset : rest.offset = out.length % UInt64.size)
      (joined : joined front = out ++ rest.payload)

/-- The state of a transfer whose payloads are delivered in order, after
the segments `pieces` were filed and `out` was handed out. -/
structure Streams (pieces : List Segment) (out : Bytes)
    (t : Transmission) : Prop where
  ordered : t.queue.Ordered
  cursor : t.cursor = out.length
  pos : ∀ s ∈ pieces, s.payload ≠ []
  reached : Reached pieces out t.queue.segments

theorem streams_withCapacity (capacity : Nat) :
    Streams [] [] (withCapacity capacity) where
  ordered := .nil
  cursor := rfl
  pos := by simp
  reached := .whole (chained_nil 0) (.refl []) rfl

/-- Whatever is noted beside the queue and the cursor does not matter for
delivery. -/
theorem Streams.congr {pieces : List Segment} {out : Bytes}
    {t t' : Transmission} (h : Streams pieces out t)
    (hq : t'.queue = t.queue) (hc : t'.cursor = t.cursor) :
    Streams pieces out t' :=
  ⟨hq ▸ h.ordered, hc.trans h.cursor, h.pos, hq ▸ h.reached⟩

theorem Reached.perm_append {pieces more : List Segment} {out : Bytes}
    {queued queued' : List Segment} (h : Reached pieces out queued)
    (hq : queued'.Perm (queued ++ more)) :
    Reached (pieces ++ more) out queued' := by
  cases h with
  | @whole front chained perm joined =>
    refine .whole chained ?_ joined
    have hf := (List.Perm.refl front).append hq
    rw [← List.append_assoc] at hf
    exact hf.trans (perm.append_right more)
  | @split front waiting rest chained perm queued pos offset joined =>
    have hp := perm.append_right more
    rw [List.append_assoc] at hp
    exact .split chained hp (hq.trans (queued.append_right more)) pos offset
      joined

/-- What queueing a segment comes to, and what it leaves. -/
theorem push_cases (s : Segment) (t : Transmission) :
    (∃ e, t.push s = (.error e, t) ∧
        (s.offset < t.cursor ∨
          ∃ u ∈ t.queue.segments, u.offset = s.offset)) ∨
      (t.push s = (.ok (), { t with
          queue := ⟨Queue.insert s t.queue.segments,
            t.queue.queuedBytes + s.length⟩ }) ∧
        t.cursor ≤ s.offset ∧
        ∀ u ∈ t.queue.segments, u.offset ≠ s.offset) := by
  unfold push
  split
  · rename_i hlt
    exact .inl ⟨_, rfl, .inl hlt⟩
  · rename_i hle
    cases hholds : t.queue.holds s.offset with
    | true =>
      refine .inl ⟨_, by rw [Queue.push_of_holds hholds], .inr ?_⟩
      simpa [Queue.holds] using hholds
    | false =>
      exact .inr ⟨by rw [Queue.push_of_free hholds], by omega,
        Queue.holds_eq_false_iff.1 hholds⟩

theorem Streams.push {pieces : List Segment} {out : Bytes}
    {t t' : Transmission} {s : Segment} (h : Streams pieces out t)
    (hs : s.payload ≠ []) (hp : t.push s = (.ok (), t')) :
    Streams (pieces ++ [s]) out t' := by
  rcases push_cases s t with ⟨e, he, _⟩ | ⟨hok, _, hne⟩
  · simp [he] at hp
  · obtain rfl := congrArg Prod.snd (hok.symm.trans hp)
    refine ⟨Queue.pairwise_insert h.ordered hne, h.cursor, ?_, ?_⟩
    · intro u hu
      rcases List.mem_append.1 hu with hu | hu
      · exact h.pos u hu
      · obtain rfl := List.mem_singleton.1 hu
        exact hs
    · refine h.reached.perm_append ?_
      exact (Queue.insert_perm s _).trans
        (List.perm_append_singleton s _).symm

/-! ## Handing out -/

/-- What looking for at most `max` bytes comes to, and what it leaves. -/
inductive Looks (max : Nat) (t : Transmission) :
    Except Error Delivery → Transmission → Prop where
  /-- Nothing is queued, and nothing will be. -/
  | finished (empty : t.queue.segments = []) (done : t.completed = true) :
      Looks max t (.ok .finished) t
  /-- Nothing is queued yet. -/
  | idle (empty : t.queue.segments = []) (open_ : t.completed = false) :
      Looks max t (.ok .pending) t
  /-- The first segment starts before the cursor. -/
  | below {s : Segment} {others : List Segment}
      (head : t.queue.segments = s :: others) (lt : s.offset < t.cursor) :
      Looks max t (.error (.offsetBelowCursor s.offset t.cursor)) t
  /-- What is missing at the cursor will not come. -/
  | gap {s : Segment} {others : List Segment}
      (head : t.queue.segments = s :: others) (gt : t.cursor < s.offset)
      (done : t.completed = true) :
      Looks max t (.error (.gap t.cursor (some s.offset))) t
  /-- What is missing at the cursor may come. -/
  | early {s : Segment} {others : List Segment}
      (head : t.queue.segments = s :: others) (gt : t.cursor < s.offset)
      (open_ : t.completed = false) : Looks max t (.ok .pending) t
  /-- The first segment is handed out. -/
  | whole {s : Segment} {others : List Segment}
      (head : t.queue.segments = s :: others) (here : s.offset = t.cursor)
      (all : s.length ≤ max) :
      Looks max t (.ok (.ready s.payload)) { t with
        queue := ⟨others, t.queue.queuedBytes - s.length⟩
        cursor := t.cursor + s.length }
  /-- The front of the first segment is handed out, and the rest of it is
  queued again. -/
  | part {s : Segment} {others : List Segment}
      (head : t.queue.segments = s :: others) (here : s.offset = t.cursor)
      (more : max < s.length)
      (free : ∀ u ∈ others, u.offset ≠ (s.splitFront max).2.offset) :
      Looks max t (.ok (.ready (s.payload.take max))) { t with
        queue := ⟨Queue.insert (s.splitFront max).2 others,
          t.queue.queuedBytes - s.length + (s.length - max)⟩
        cursor := t.cursor + max }
  /-- The rest of the first segment cannot be queued again, and all of the
  segment is gone. -/
  | lost {s u : Segment} {others : List Segment}
      (head : t.queue.segments = s :: others) (here : s.offset = t.cursor)
      (more : max < s.length) (mem : u ∈ others)
      (same : u.offset = (s.splitFront max).2.offset) :
      Looks max t (.error (.duplicateOffset u.offset)) { t with
        queue := ⟨others, t.queue.queuedBytes - s.length⟩ }

theorem looks_deliver {max : Nat} {t : Transmission} {s : Segment}
    {others : List Segment} (head : t.queue.segments = s :: others)
    (here : s.offset = t.cursor) :
    Looks max t (t.deliver max).1 (t.deliver max).2 := by
  unfold deliver
  simp only [Queue.pop, head]
  by_cases hall : s.length ≤ max
  · have hfront : (s.splitFront max).1.length = s.length := by
      rw [length, front_eq hall, length]
    rw [if_pos (rest_isEmpty_iff.2 hall)]
    simp only [front_eq hall, hfront]
    exact .whole head here hall
  · have hmore : max < s.length := by omega
    rw [if_neg (mt rest_isEmpty_iff.1 hall)]
    cases hholds : Queue.holds ⟨others, t.queue.queuedBytes - s.length⟩
        (s.splitFront max).2.offset with
    | true =>
      obtain ⟨u, hu, hsame⟩ := List.any_eq_true.1 hholds
      have hsame : u.offset = (s.splitFront max).2.offset := by
        simpa using hsame
      rw [Queue.push_of_holds hholds, ← hsame]
      exact .lost head here hmore hu hsame
    | false =>
      rw [Queue.push_of_free hholds]
      simp only [length_rest, length_front hmore]
      exact .part head here hmore (Queue.holds_eq_false_iff.1 hholds)

/-- **Looking for the next bytes**, in every state. -/
theorem looks (max : Nat) (t : Transmission) :
    Looks max t (t.nextDelivery max).1 (t.nextDelivery max).2 := by
  unfold nextDelivery
  cases hmin : t.queue.min? with
  | none =>
    have hempty := Queue.min?_eq_none.1 hmin
    cases hdone : t.completed with
    | true => exact .finished hempty hdone
    | false => exact .idle hempty hdone
  | some next =>
    obtain ⟨s, others, head, rfl⟩ := Queue.min?_eq_some hmin
    dsimp only
    split
    · rename_i hlt
      exact .below head hlt
    · rename_i hge
      split
      · rename_i hgt
        cases hdone : t.completed with
        | true => exact .gap head hgt hdone
        | false => exact .early head hgt hdone
      · exact looks_deliver head (by omega)

/-- What looking for at most `max` bytes comes to. -/
inductive Next (max : Nat) (pieces : List Segment) (out : Bytes)
    (t : Transmission) : Except Error Delivery → Transmission → Prop where
  | finished (completed : t.completed = true) (empty : t.queue.segments = [])
      (tiles : Tiles pieces out) : Next max pieces out t (.ok .finished) t
  | pending : Next max pieces out t (.ok .pending) t
  | ready {bs : Bytes} {queue : Queue} {cursor : Nat}
      (pos : 0 < max → bs ≠ []) (le : bs.length ≤ max)
      (streams : Streams pieces (out ++ bs) { t with queue, cursor }) :
      Next max pieces out t (.ok (.ready bs)) { t with queue, cursor }
  | failed {e : Error} (queue : Queue) :
      Next max pieces out t (.error e) { t with queue }

/-- The end of the stream: nothing is queued. -/
theorem Streams.tiles {pieces : List Segment} {out : Bytes}
    {t : Transmission} (h : Streams pieces out t)
    (hq : t.queue.segments = []) : Tiles pieces out := by
  cases h.reached with
  | @whole front chained perm joined =>
    exact ⟨front, by simpa [hq] using perm, chained, joined⟩
  | @split front waiting rest chained perm queued pos offset joined =>
    simpa [hq] using queued.length_eq

/-- The segment at the cursor is taken out of the queue: `out` goes on with
it. What is left of it, if it is `rest`, has to be queued again. -/
theorem Streams.pop {pieces : List Segment} {out : Bytes}
    {t : Transmission} (h : Streams pieces out t) {s : Segment}
    {others : List Segment} (hq : t.queue.segments = s :: others)
    (hs : s.offset = t.cursor) {bs : Bytes} (more : List Segment)
    (hmore : more = [] ∧ s.payload = bs ∨
      ∃ rest, more = [rest] ∧ rest.payload ≠ [] ∧
        rest.offset = (out ++ bs).length % UInt64.size ∧
        s.payload = bs ++ rest.payload) {queued : List Segment}
    (hqueued : queued.Perm (more ++ others)) :
    Reached pieces (out ++ bs) queued := by
  -- a chain which ends with the popped segment, and what is queued beside
  obtain ⟨front, hchain, hperm, hjoined⟩ : ∃ front, Chained 0 front ∧
      (front ++ others).Perm pieces ∧ joined front = out ++ s.payload := by
    cases h.reached with
    | @whole front chained perm joined =>
      refine ⟨front ++ [s], ?_, ?_, by simp [joined]⟩
      · have hmem : s ∈ pieces := perm.mem_iff.1 (by simp [hq])
        have hpos := List.length_pos_iff.2 (h.pos s hmem)
        simp only [chained_append, chained_cons, chained_nil, and_true,
          joined]
        exact ⟨chained, by rw [hs, h.cursor, Nat.zero_add], hpos⟩
      · simpa [hq] using perm
    | @split front waiting rest chained perm queued pos offset joined =>
      -- the head of the queue is the end that was left over
      rw [hq] at queued
      have hmod := Nat.mod_le out.length UInt64.size
      have heq : rest = s := by
        rcases List.mem_cons.1 (queued.mem_iff.2 (List.mem_cons_self ..))
          with heq | hrest
        · exact heq
        · have hord := h.ordered
          rw [Queue.Ordered, hq] at hord
          have := (List.pairwise_cons.1 hord).1 rest hrest
          rw [h.cursor] at hs
          omega
      subst heq
      have hw : others.Perm waiting := queued.cons_inv
      exact ⟨front, chained, (hw.append_left front).trans perm, joined⟩
  rcases hmore with ⟨rfl, hb⟩ | ⟨rest, rfl, hpos, hoff, hb⟩
  · exact .whole hchain ((hqueued.append_left front).trans hperm)
      (by rw [hjoined, hb])
  · exact .split hchain hperm hqueued hpos hoff
      (by rw [hjoined, hb, List.append_assoc])

/-- The bytes that were handed out. -/
def handed : Except Error Delivery → Bytes
  | .ok (.ready bs) => bs
  | _ => []

/-- What looking for bytes changes in any state: bytes go from the queue
to the caller. -/
structure Delivers (max : Nat) (t : Transmission)
    (result : Except Error Delivery) (t' : Transmission) : Prop where
  frame : t' = { t with queue := t'.queue, cursor := t'.cursor }
  queued : (∀ u ∈ t.queue.segments, u.payload ≠ []) →
    ∀ u ∈ t'.queue.segments, u.payload ≠ []
  load : t'.load + (handed result).length ≤ t.load
  pos : (∀ u ∈ t.queue.segments, u.payload ≠ []) → 0 < max →
    ∀ bs, result = .ok (.ready bs) → bs ≠ []

theorem Delivers.same {max : Nat} {t : Transmission}
    {result : Except Error Delivery} (h : ∀ bs, result ≠ .ok (.ready bs)) :
    Delivers max t result t where
  frame := rfl
  queued := id
  load := by
    have hnil : handed result = [] := by
      unfold handed
      split
      · exact absurd rfl (h _)
      · rfl
    simp [hnil]
  pos := fun _ _ bs he => absurd he (h bs)

/-- Without an empty segment in the queue something is handed out. -/
theorem take_ne_nil {s : Segment} {max : Nat} (hs : s.payload ≠ [])
    (hmax : 0 < max) : s.payload.take max ≠ [] := by
  simp only [ne_eq, List.take_eq_nil_iff, hs, or_false]
  omega

theorem Looks.delivers {max : Nat} {t t' : Transmission}
    {r : Except Error Delivery} (h : Looks max t r t') :
    Delivers max t r t' := by
  cases h with
  | finished | idle | below | gap | early => exact .same (by simp)
  | @whole s others head here all =>
    constructor
    case frame => rfl
    case queued =>
      intro hpos u hu
      exact hpos u (by rw [head]; exact List.mem_cons_of_mem s hu)
    case load =>
      simp only [load, handed, head, joined_cons, List.length_append]
      omega
    case pos =>
      intro hpos _ bs hb
      cases hb
      exact hpos s (by simp [head])
  | @part s others head here more free =>
    constructor
    case frame => rfl
    case queued =>
      intro hpos u hu
      rcases Queue.mem_insert.1 hu with rfl | hu
      · exact rest_ne_nil more
      · exact hpos u (by rw [head]; exact List.mem_cons_of_mem s hu)
    case load =>
      have hlen : s.length = s.payload.length := rfl
      simp only [load, handed, head, joined_cons, List.length_append,
        List.length_take, Queue.length_joined_insert, length_rest]
      omega
    case pos =>
      intro hpos hmax bs hb
      cases hb
      exact take_ne_nil (hpos s (by simp [head])) hmax
  | @lost s u others head here more mem same =>
    constructor
    case frame => rfl
    case queued =>
      intro hpos v hv
      exact hpos v (by rw [head]; exact List.mem_cons_of_mem s hv)
    case load =>
      simp only [load, handed, head, joined_cons, List.length_append,
        List.length_nil]
      omega
    case pos =>
      intro _ _ bs hb
      cases hb

theorem delivers_nextDelivery (max : Nat) (t : Transmission) :
    Delivers max t (t.nextDelivery max).1 (t.nextDelivery max).2 :=
  (looks max t).delivers

/-- What is queued is not empty. -/
theorem Streams.queued_pos {pieces : List Segment} {out : Bytes}
    {t : Transmission} (h : Streams pieces out t) {s : Segment}
    (hs : s ∈ t.queue.segments) : s.payload ≠ [] := by
  cases h.reached with
  | whole _ perm _ => exact h.pos s (perm.mem_iff.1 (by simp [hs]))
  | split _ perm queued pos _ _ =>
    rcases List.mem_cons.1 (queued.mem_iff.1 hs) with rfl | hw
    · exact pos
    · exact h.pos s (perm.mem_iff.1 (by simp [hw]))

theorem Streams.looks {pieces : List Segment} {out : Bytes} {max : Nat}
    {t t' : Transmission} {r : Except Error Delivery}
    (h : Streams pieces out t) (hlooks : Looks max t r t') :
    Next max pieces out t r t' := by
  have hord := h.ordered
  cases hlooks with
  | finished empty done => exact .finished done empty (h.tiles empty)
  | idle | early => exact .pending
  | below | gap => exact .failed t.queue
  | lost => exact .failed _
  | @whole s others head here all =>
    rw [Queue.Ordered, head] at hord
    refine .ready (fun _ => h.queued_pos (by simp [head])) all
      ⟨hord.of_cons, ?_, h.pos, ?_⟩
    · simp [h.cursor, length]
    · exact h.pop head here [] (.inl ⟨rfl, rfl⟩) (by simp)
  | @part s others head here more free =>
    have hlen : (s.payload.take max).length = max := length_front more
    rw [Queue.Ordered, head] at hord
    refine .ready (take_ne_nil (h.queued_pos (by simp [head])))
      (Nat.le_of_eq hlen) ⟨Queue.pairwise_insert hord.of_cons free, ?_,
        h.pos, ?_⟩
    · simp [h.cursor, hlen]
    · refine h.pop head here [(s.splitFront max).2]
        (.inr ⟨_, rfl, rest_ne_nil more, ?_,
          (s.splitFront_payload max).symm⟩)
        (Queue.insert_perm _ _)
      rw [offset_splitFront_snd, here, h.cursor, List.length_append,
        payload_splitFront_fst]

/-- **Looking for the next bytes.** What is handed out goes on with what
was handed out before, and the end of the stream is found only when the
filed segments tile it. -/
theorem next_spec {pieces : List Segment} {out : Bytes}
    {t : Transmission} (h : Streams pieces out t) (max : Nat) :
    Next max pieces out t (t.nextDelivery max).1
      (t.nextDelivery max).2 :=
  h.looks (looks max t)

/-! ## Segments that tile a message -/

/-- What is queued or still to come of a promised stream lies behind what
was handed out. The end of a segment is queued under its place. -/
theorem Streams.ahead {pieces future : List Segment} {out : Bytes}
    {t : Transmission} (h : Streams pieces out t)
    (hp : Promised pieces future) :
    ∃ front waiting back, Chained 0 front ∧
      Chained (joined front).length back ∧ (waiting ++ future).Perm back ∧
      (joined (front ++ back)).length ≤ maxCount ∧
      (joined front = out ∧ t.queue.segments = waiting ∨
        ∃ rest, t.queue.segments.Perm (rest :: waiting) ∧
          rest.payload ≠ [] ∧ rest.offset = out.length ∧
          joined front = out ++ rest.payload) := by
  obtain ⟨row, hrow, hperm, hsize⟩ := hp
  have hmax : maxCount < UInt64.size := by decide
  cases h.reached with
  | @whole front chained perm joined =>
    have hall : (front ++ (t.queue.segments ++ future)).Perm row := by
      rw [← List.append_assoc]
      exact (perm.append_right future).trans hperm
    obtain ⟨back, rfl, hback, hchain⟩ := hrow.exists_back chained hall
    exact ⟨front, _, back, chained, by simpa using hchain, hback, hsize,
      .inl ⟨joined, rfl⟩⟩
  | @split front waiting rest chained perm queued pos offset joined =>
    have hall : (front ++ (waiting ++ future)).Perm row := by
      rw [← List.append_assoc]
      exact (perm.append_right future).trans hperm
    obtain ⟨back, rfl, hback, hchain⟩ := hrow.exists_back chained hall
    refine ⟨front, waiting, back, chained, by simpa using hchain, hback,
      hsize, .inr ⟨rest, queued, pos, ?_, joined⟩⟩
    have hlen := congrArg List.length joined
    have hpos := List.length_pos_iff.2 pos
    simp only [joined_append, List.length_append] at hsize hlen
    rw [offset, Nat.mod_eq_of_lt (by omega)]

/-- What was handed out is the beginning of the message that all segments
tile. -/
theorem Streams.front {pieces future : List Segment} {out m : Bytes}
    {t : Transmission} (h : Streams pieces out t)
    (hm : Tiles (pieces ++ future) m) : out <+: m := by
  obtain ⟨row, hrow, hchain, rfl⟩ := hm
  have hback {front others : List Segment} (hf : Chained 0 front)
      (hp : (front ++ others).Perm pieces) : joined front <+: joined row := by
    have hall : (front ++ (others ++ future)).Perm row := by
      rw [← List.append_assoc]
      exact (hp.append_right future).trans hrow.symm
    obtain ⟨back, rfl, _⟩ := hchain.exists_back hf hall
    rw [joined_append]
    exact List.prefix_append _ _
  cases h.reached with
  | whole chained perm joined => exact joined ▸ hback chained perm
  | split chained perm queued pos offset joined =>
    exact (List.prefix_append _ _).trans (joined ▸ hback chained perm)

/-- The segment at the cursor of a promised stream ends before any other
queued one starts, and its positions fit into a word. -/
theorem Streams.head_alone {pieces future : List Segment} {out : Bytes}
    {t : Transmission} (h : Streams pieces out t)
    (hp : Promised pieces future) {s : Segment} {others : List Segment}
    (hqs : t.queue.segments = s :: others) (hs : s.offset = t.cursor) :
    s.stop ≤ maxCount ∧ ∀ u ∈ others, s.stop ≤ u.offset := by
  obtain ⟨front, waiting, back, _, hback, hperm, hsize, hq⟩ := h.ahead hp
  simp only [joined_append, List.length_append] at hsize
  have hcur := h.cursor
  rcases hq with ⟨hj, hw⟩ | ⟨rest, hw, hpos, hoff, hj⟩
  · -- the head is a filed segment, and segments of a chain do not overlap
    rw [hqs] at hw
    subst hw
    have hin : ∀ u ∈ s :: others, u ∈ back := fun u hu =>
      hperm.mem_iff.1 (List.mem_append_left _ hu)
    have hstop := hback.stop_le (hin s (by simp))
    refine ⟨by omega, fun u hu => ?_⟩
    have hdis := hback.disjoint_of_perm hperm.symm
    have hsu := (List.pairwise_cons.1 hdis).1 u (List.mem_append_left _ hu)
    have hle := hback.le_offset (hin u (by simp [hu]))
    have hupos := hback.length_pos (hin u (by simp [hu]))
    rw [hj] at hle
    simp only [stop] at hsu ⊢
    omega
  · -- the head is the end that was left over, and the others are behind
    have hlen := congrArg List.length hj
    have hrpos := List.length_pos_iff.2 hpos
    simp only [List.length_append] at hlen
    have hwait : ∀ u ∈ waiting, (joined front).length ≤ u.offset :=
      fun u hu => hback.le_offset (hperm.mem_iff.1 (by simp [hu]))
    rw [hqs] at hw
    obtain rfl : s = rest := by
      rcases List.mem_cons.1 (hw.mem_iff.1 (List.mem_cons_self ..))
        with heq | hmem
      · exact heq
      · have := hwait s hmem
        omega
    simp only [stop, length]
    refine ⟨by omega, fun u hu => ?_⟩
    have := hwait u (hw.cons_inv.mem_iff.1 hu)
    omega

/-- **A segment of a promised stream can be filed.** -/
theorem push_of_chained {pieces future : List Segment} {s : Segment}
    {out : Bytes} {t : Transmission} (h : Streams pieces out t)
    (hp : Promised pieces (s :: future)) :
    ∃ t', t.push s = (.ok (), t') := by
  obtain ⟨front, waiting, back, _, hback, hperm, _, hq⟩ := h.ahead hp
  have hs : (joined front).length ≤ s.offset :=
    hback.le_offset (hperm.mem_iff.1 (by simp))
  -- no waiting segment has the offset of `s`, since the two do not overlap
  have hne : ∀ u ∈ waiting, u.offset ≠ s.offset := by
    intro u hu
    have hdis := hback.disjoint_of_perm hperm.symm
    have hus := (List.pairwise_append.1 hdis).2.2 u hu s (by simp)
    have humem : u ∈ back := hperm.mem_iff.1 (by simp [hu])
    have hsmem : s ∈ back := hperm.mem_iff.1 (by simp)
    have hupos := hback.length_pos humem
    have hspos := hback.length_pos hsmem
    simp only [stop] at hus
    omega
  rcases push_cases s t with ⟨e, _, hbad⟩ | ⟨hok, _⟩
  · rcases hq with ⟨hj, hqs⟩ | ⟨rest, hqs, hpos, hoff, hj⟩
    · rcases hbad with hlt | ⟨u, hu, he⟩
      · rw [h.cursor, ← hj] at hlt
        omega
      · exact absurd he (hne u (hqs ▸ hu))
    · have hlen := congrArg List.length hj
      have hpos := List.length_pos_iff.2 hpos
      simp only [List.length_append] at hlen
      rcases hbad with hlt | ⟨u, hu, he⟩
      · rw [h.cursor] at hlt
        omega
      · rcases List.mem_cons.1 (hqs.mem_iff.1 hu) with rfl | hu
        · omega
        · exact absurd he (hne u hu)
  · exact ⟨_, hok⟩

/-- The first queued segment of a promised stream starts at the cursor or
behind it, and at the cursor if nothing is still to come. -/
theorem Streams.head_at {pieces future : List Segment} {out : Bytes}
    {t : Transmission} (h : Streams pieces out t)
    (hp : Promised pieces future) {s : Segment} {others : List Segment}
    (hqs : t.queue.segments = s :: others) :
    t.cursor ≤ s.offset ∧ (future = [] → s.offset = t.cursor) := by
  obtain ⟨front, waiting, back, _, hback, hperm, _, hq⟩ := h.ahead hp
  have hcur := h.cursor
  have hwait : ∀ u ∈ waiting, (joined front).length ≤ u.offset :=
    fun u hu => hback.le_offset (hperm.mem_iff.1 (by simp [hu]))
  rcases hq with ⟨hj, hw⟩ | ⟨rest, hw, hpos, hoff, hj⟩
  · have hge := hwait s (by rw [← hw, hqs]; simp)
    rw [hj] at hge
    refine ⟨by omega, fun hfut => ?_⟩
    -- the chain goes on at the cursor, and all of it is queued
    subst hfut
    rw [List.append_nil, ← hw] at hperm
    cases back with
    | nil => simpa [hqs] using hperm.length_eq
    | cons u back =>
      have hu : u ∈ t.queue.segments := hperm.mem_iff.2 (by simp)
      have := h.ordered.head_le hqs hu
      have := hback.1
      rw [hj] at this
      omega
  · have hlen := congrArg List.length hj
    simp only [List.length_append] at hlen
    have hr : rest ∈ t.queue.segments := hw.mem_iff.2 (by simp)
    have hle := h.ordered.head_le hqs hr
    have hge : t.cursor ≤ s.offset := by
      rw [hqs] at hw
      rcases List.mem_cons.1 (hw.mem_iff.1 (List.mem_cons_self ..))
        with heq | hmem
      · rw [heq]
        omega
      · have := hwait s hmem
        omega
    exact ⟨by omega, fun _ => by omega⟩

/-- **The next bytes of a promised stream can be handed out**, unless they
have not been filed; if the transfer is complete, nothing may be missing. -/
theorem next_of_chained {pieces future : List Segment} {out : Bytes}
    {t : Transmission} (h : Streams pieces out t)
    (hp : Promised pieces future) (hc : t.completed = true → future = [])
    (max : Nat) :
    (∀ e, (t.nextDelivery max).1 ≠ .error e) ∧
      (t.completed = true → (t.nextDelivery max).1 ≠ .ok .pending) := by
  have hlooks := looks max t
  generalize (t.nextDelivery max).1 = r, (t.nextDelivery max).2 = t'
    at hlooks
  cases hlooks with
  | finished | whole | part => exact ⟨by simp, by simp⟩
  | idle _ open_ | early _ _ open_ => exact ⟨by simp, by simp [open_]⟩
  | below head lt =>
    have := (h.head_at hp head).1
    omega
  | gap head gt done =>
    have := (h.head_at hp head).2 (hc done)
    omega
  | lost head here more mem same =>
    -- the rest would start inside of the head, where nothing else does
    obtain ⟨hstop, halone⟩ := h.head_alone hp head here
    have hle := halone _ mem
    rw [same, offset_rest hstop more] at hle
    simp only [stop] at hle
    omega

end Transmission
end Stripe
