import Stripe.Proofs.Transmission.Journal

/-!
# Every byte at its position

Segments may be queued in any order, may overlap and may be empty, and
bytes are looked for in portions of any size. Whatever is queued is then a
segment that was pushed, or what a portion has left of one (`EndOf`), and
what was handed out is, position by position, a byte of a pushed segment
(`Sourced`).

If the pushed segments do not overlap, no byte is kept back either: what
the cursor has not passed of a pushed segment is in the queue, and starts
at the cursor or behind it (`Clear`). So the answer to a call tells exactly
whether the byte at the cursor has come. `delivery_exact` is both.
-/

namespace Stripe

namespace Segment

/-- The segment covers a position of the stream. -/
def Covers (s : Segment) (p : Nat) : Prop := s.offset ≤ p ∧ p < s.stop

/-- The segment has the byte `b` for a position of the stream. -/
def Holds (s : Segment) (p : Nat) (b : UInt8) : Prop :=
  s.offset ≤ p ∧ s.payload[p - s.offset]? = some b

/-- What is left of `s` when its front is taken away. -/
def EndOf (q s : Segment) : Prop :=
  ∃ n ≤ s.length, q.offset = s.offset + n ∧ q.payload = s.payload.drop n

theorem EndOf.refl (s : Segment) : s.EndOf s := ⟨0, Nat.zero_le _, rfl, rfl⟩

theorem EndOf.trans {q r s : Segment} (hqr : q.EndOf r) (hrs : r.EndOf s) :
    q.EndOf s := by
  obtain ⟨n, hn, hoffset, hpayload⟩ := hqr
  obtain ⟨m, hm, hoffset', hpayload'⟩ := hrs
  have hlen : r.length = s.length - m := by
    simp [length, hpayload']
  refine ⟨m + n, by omega, by omega, ?_⟩
  rw [hpayload, hpayload', List.drop_drop]

theorem EndOf.offset_le {q s : Segment} (h : q.EndOf s) :
    s.offset ≤ q.offset := by
  obtain ⟨n, _, hoffset, _⟩ := h
  omega

theorem EndOf.stop_eq {q s : Segment} (h : q.EndOf s) : q.stop = s.stop := by
  obtain ⟨n, hn, hoffset, hpayload⟩ := h
  have hlen : q.length = s.length - n := by
    simp [length, hpayload]
  simp only [stop]
  omega

/-- The end of a segment has the bytes of the segment. -/
theorem EndOf.holds {q s : Segment} (h : q.EndOf s) {p : Nat} {b : UInt8}
    (hb : q.Holds p b) : s.Holds p b := by
  obtain ⟨n, _, hoffset, hpayload⟩ := h
  obtain ⟨hle, hget⟩ := hb
  refine ⟨by omega, ?_⟩
  rw [hpayload, List.getElem?_drop] at hget
  rw [← hget]
  congr 1
  omega

/-- What a split leaves behind is the end of the segment. -/
theorem endOf_splitFront {s : Segment} {n : Nat} (hs : s.stop ≤ maxCount)
    (hn : n < s.length) : (s.splitFront n).2.EndOf s :=
  ⟨n, Nat.le_of_lt hn, offset_rest hs hn, rfl⟩

end Segment

namespace Transmission

open Segment

/-! ## What is queued and what was handed out -/

/-- All positions of the segments are counts. -/
def Counted (pushed : List Segment) : Prop :=
  ∀ s ∈ pushed, s.stop ≤ maxCount

theorem Counted.earlier {pushed later : List Segment}
    (hp : pushed <+: later) (h : Counted later) : Counted pushed :=
  fun s hs => h s (hp.subset hs)

/-- What is queued and what was handed out was pushed. -/
structure Sourced (d : Course) : Prop where
  ordered : d.queue.Ordered
  cursor : d.out.length = d.cursor
  ends : ∀ q ∈ d.queue.segments, ∃ s ∈ d.pushed, q.EndOf s
  carried : ∀ p b, d.out[p]? = some b → ∃ s ∈ d.pushed, s.Holds p b

theorem Sourced.stop_le {d : Course} (h : Sourced d)
    (hcount : Counted d.pushed) {q : Segment} (hq : q ∈ d.queue.segments) :
    q.stop ≤ maxCount := by
  obtain ⟨s, hs, hend⟩ := h.ends q hq
  rw [hend.stop_eq]
  exact hcount s hs

/-- The front of a queued segment that starts at the cursor is handed
out. -/
theorem Sourced.carried_append {d : Course} (h : Sourced d) {q : Segment}
    (hq : q ∈ d.queue.segments) (here : q.offset = d.cursor)
    (max p : Nat) (b : UInt8)
    (hb : (d.out ++ q.payload.take max)[p]? = some b) :
    ∃ s ∈ d.pushed, s.Holds p b := by
  have hcursor := h.cursor
  by_cases hp : p < d.out.length
  · rw [List.getElem?_append_left hp] at hb
    exact h.carried p b hb
  · rw [List.getElem?_append_right (by omega), List.getElem?_take] at hb
    obtain ⟨s, hs, hend⟩ := h.ends q hq
    refine ⟨s, hs, hend.holds ⟨by omega, ?_⟩⟩
    split at hb
    · rw [here, ← hcursor]
      exact hb
    · cases hb

theorem Turns.sourced {d d' : Course} (h : Turns d d') (hd : Sourced d)
    (hcount : Counted d.pushed) : Sourced d' := by
  have hordered := h.ordered hd.ordered
  cases h with
  | aside => exact hd
  | @queued s ahead free =>
    constructor
    case ordered => exact hordered
    case cursor => exact hd.cursor
    case ends =>
      intro q hq
      rcases Queue.mem_insert.1 hq with rfl | hq
      · exact ⟨q, by simp, .refl q⟩
      · obtain ⟨u, hu, hend⟩ := hd.ends q hq
        exact ⟨u, by simp [hu], hend⟩
    case carried =>
      intro p b hb
      obtain ⟨u, hu, hholds⟩ := hd.carried p b hb
      exact ⟨u, by simp [hu], hholds⟩
  | @whole s others head here =>
    have hs : s ∈ d.queue.segments := by simp [head]
    constructor
    case ordered => exact hordered
    case cursor => simp [hd.cursor, length]
    case ends =>
      intro q hq
      exact hd.ends q (by rw [head]; exact List.mem_cons_of_mem s hq)
    case carried =>
      intro p b hb
      apply hd.carried_append hs here s.length p b
      rwa [length, List.take_length]
  | @part s others max head here more free =>
    have hs : s ∈ d.queue.segments := by simp [head]
    have hrest := endOf_splitFront (hd.stop_le hcount hs) more
    constructor
    case ordered => exact hordered
    case cursor =>
      have hlen : (s.payload.take max).length = max := length_front more
      simp [hd.cursor, hlen]
    case ends =>
      intro q hq
      rcases Queue.mem_insert.1 hq with rfl | hq
      · obtain ⟨u, hu, hend⟩ := hd.ends s hs
        exact ⟨u, hu, hrest.trans hend⟩
      · exact hd.ends q (by rw [head]; exact List.mem_cons_of_mem s hq)
    case carried => exact hd.carried_append hs here max
  | @lost s u others max head here more mem same =>
    constructor
    case ordered => exact hordered
    case cursor => exact hd.cursor
    case ends =>
      intro q hq
      exact hd.ends q (by rw [head]; exact List.mem_cons_of_mem s hq)
    case carried => exact hd.carried

theorem sourced_after (capacity : Nat) (cs : List Command)
    (hcount : Counted (Journal.after capacity cs).pushed) :
    Sourced (Journal.after capacity cs).course := by
  refine course_induction (Q := Counted) .earlier ?_ ?_ capacity cs hcount
  · exact ⟨.nil, rfl, by simp, by simp⟩
  · intro d d' hturn hcount hd
    exact hturn.sourced hd (.earlier hturn.pushed_grows hcount)

/-! ## Segments that do not overlap -/

/-- No segment is empty, and no two of them overlap. -/
structure Separate (pushed : List Segment) : Prop where
  pos : ∀ s ∈ pushed, s.payload ≠ []
  disjoint : pushed.Pairwise fun s u =>
    s.stop ≤ u.offset ∨ u.stop ≤ s.offset

theorem Separate.earlier {pushed later : List Segment}
    (hp : pushed <+: later) (h : Separate later) : Separate pushed :=
  ⟨fun s hs => h.pos s (hp.subset hs), h.disjoint.sublist hp.sublist⟩

/-- Nothing that was pushed is kept back: what the cursor has not passed of
it is queued. -/
structure Clear (d : Course) : Prop where
  ahead : ∀ q ∈ d.queue.segments, d.cursor ≤ q.offset
  apart : Apart (d.queue.segments.map span)
  kept : ∀ s ∈ d.pushed, s.stop ≤ d.cursor ∨
    ∃ q ∈ d.queue.segments, q.offset = max s.offset d.cursor ∧ q.stop = s.stop

/-- The segments behind the first one start where it ends, or later. -/
theorem Clear.behind {d : Course} (h : Clear d) {s : Segment}
    {others : List Segment} (head : d.queue.segments = s :: others) :
    s.offset < s.stop ∧ Apart (others.map span) ∧
      ∀ q ∈ others, s.stop ≤ q.offset := by
  have hapart := h.apart
  rw [head, List.map_cons] at hapart
  refine ⟨hapart.pos s.span (by simp), hapart.of_cons, fun q hq => ?_⟩
  exact (List.pairwise_cons.1 hapart.sorted).1 q.span
    (List.mem_map_of_mem hq)

/-- What is left of the first segment can be queued again, since no other
one starts within the segment. -/
theorem Clear.rest_free {d : Course} (h : Clear d) (hs : Sourced d)
    (hcount : Counted d.pushed) {s u : Segment} {others : List Segment}
    {max : Nat} (head : d.queue.segments = s :: others) (more : max < s.length)
    (mem : u ∈ others) : u.offset ≠ (s.splitFront max).2.offset := by
  obtain ⟨_, _, hbehind⟩ := h.behind head
  have hoffset := offset_rest (hs.stop_le hcount (q := s) (by simp [head]))
    more
  have hle := hbehind u mem
  simp only [stop] at hle
  omega

/-- A segment that meets no queued one can be put among them. -/
theorem apart_insert {s : Segment} {queued : List Segment}
    (h : Apart (queued.map span)) (hpos : s.offset < s.stop)
    (hfree : ∀ q ∈ queued, q.stop ≤ s.offset ∨ s.stop ≤ q.offset) :
    Apart ((Queue.insert s queued).map span) := by
  rw [map_span_insert]
  refine h.insertSpan hpos fun r hr => ?_
  obtain ⟨q, hq, rfl⟩ := List.mem_map.1 hr
  exact hfree q hq

/-- A segment ahead of the cursor is queued. -/
theorem Clear.queued {d : Course} (h : Clear d) (hs : Sourced d)
    {s : Segment} (ahead : d.cursor ≤ s.offset)
    (hsep : Separate (d.pushed ++ [s])) (bytes : Nat) :
    Clear { d with
      pushed := d.pushed ++ [s]
      queue := ⟨Queue.insert s d.queue.segments, bytes⟩ } := by
  have hpos := List.length_pos_iff.2 (hsep.pos s (by simp))
  constructor
  case ahead =>
    intro q hq
    rcases Queue.mem_insert.1 hq with rfl | hq
    · exact ahead
    · exact h.ahead q hq
  case apart =>
    refine apart_insert h.apart (Nat.lt_add_of_pos_right hpos) fun q hq => ?_
    -- what is queued lies within a pushed segment
    obtain ⟨u, hu, hend⟩ := hs.ends q hq
    have hdisjoint :=
      (List.pairwise_append.1 hsep.disjoint).2.2 u hu s (by simp)
    have hoffset := hend.offset_le
    have hstop := hend.stop_eq
    omega
  case kept =>
    intro u hu
    rcases List.mem_append.1 hu with hu | hu
    · rcases h.kept u hu with hle | ⟨q, hq, hkept⟩
      · exact .inl hle
      · exact .inr ⟨q, Queue.mem_insert.2 (.inr hq), hkept⟩
    · obtain rfl := List.mem_singleton.1 hu
      exact .inr ⟨u, Queue.mem_insert.2 (.inl rfl),
        (Nat.max_eq_left ahead).symm, rfl⟩

/-- What was pushed is passed, or queued behind the first segment, or the
first segment is the end of it. -/
theorem Clear.kept_behind {d : Course} (h : Clear d) {s u : Segment}
    {others : List Segment} (head : d.queue.segments = s :: others)
    (hu : u ∈ d.pushed) :
    u.stop ≤ d.cursor ∨ s.offset = max u.offset d.cursor ∧ s.stop = u.stop ∨
      ∃ q ∈ others, q.offset = max u.offset d.cursor ∧ q.stop = u.stop := by
  rcases h.kept u hu with hle | ⟨q, hq, hkept⟩
  · exact .inl hle
  · rw [head] at hq
    rcases List.mem_cons.1 hq with rfl | hq
    · exact .inr (.inl hkept)
    · exact .inr (.inr ⟨q, hq, hkept⟩)

/-- The first segment is handed out. -/
theorem Clear.whole {d : Course} (h : Clear d) {s : Segment}
    {others : List Segment} (head : d.queue.segments = s :: others)
    (here : s.offset = d.cursor) (out : Bytes) (bytes : Nat) :
    Clear { d with
      out
      queue := ⟨others, bytes⟩
      cursor := d.cursor + s.length } := by
  obtain ⟨hlt, hapart, hbehind⟩ := h.behind head
  have hstop : d.cursor + s.length = s.stop := by rw [← here, stop]
  constructor
  case ahead =>
    intro q hq
    show d.cursor + s.length ≤ q.offset
    rw [hstop]
    exact hbehind q hq
  case apart => exact hapart
  case kept =>
    intro u hu
    show u.stop ≤ d.cursor + s.length ∨ ∃ q ∈ others,
      q.offset = max u.offset (d.cursor + s.length) ∧ q.stop = u.stop
    rcases h.kept_behind head hu with hle | ⟨_, hend⟩ | ⟨q, hq, hoffset, hend⟩
    · exact .inl (by omega)
    · exact .inl (by omega)
    · have := hbehind q hq
      exact .inr ⟨q, hq, by omega, hend⟩

/-- The front of the first segment is handed out, and the rest of it is
queued again. -/
theorem Clear.part {d : Course} (h : Clear d) {s : Segment}
    {others : List Segment} {len : Nat}
    (head : d.queue.segments = s :: others) (here : s.offset = d.cursor)
    (more : len < s.length) (hcount : s.stop ≤ maxCount) (out : Bytes)
    (bytes : Nat) :
    Clear { d with
      out
      queue := ⟨Queue.insert (s.splitFront len).2 others, bytes⟩
      cursor := d.cursor + len } := by
  obtain ⟨hlt, hapart, hbehind⟩ := h.behind head
  have hoffset := offset_rest hcount more
  have hstop := (endOf_splitFront hcount more).stop_eq
  have hlen : s.stop = s.offset + s.length := rfl
  constructor
  case ahead =>
    intro q hq
    show d.cursor + len ≤ q.offset
    rcases Queue.mem_insert.1 hq with rfl | hq
    · omega
    · have := hbehind q hq
      omega
  case apart =>
    refine apart_insert hapart (by omega) fun q hq => .inr ?_
    rw [hstop]
    exact hbehind q hq
  case kept =>
    intro u hu
    show u.stop ≤ d.cursor + len ∨
      ∃ q ∈ Queue.insert (s.splitFront len).2 others,
        q.offset = max u.offset (d.cursor + len) ∧ q.stop = u.stop
    rcases h.kept_behind head hu with hle | ⟨hfront, hend⟩ |
      ⟨q, hq, hfront, hend⟩
    · exact .inl (by omega)
    · exact .inr ⟨_, Queue.mem_insert.2 (.inl rfl), by omega, by omega⟩
    · have := hbehind q hq
      exact .inr ⟨q, Queue.mem_insert.2 (.inr hq), by omega, hend⟩

theorem Turns.clear {d d' : Course} (h : Turns d d') (hd : Clear d)
    (hs : Sourced d) (hcount : Counted d.pushed)
    (hsep : Separate d'.pushed) : Clear d' := by
  cases h with
  | aside => exact hd
  | queued ahead free => exact hd.queued hs ahead hsep _
  | whole head here => exact hd.whole head here _ _
  | part head here more free =>
    exact hd.part head here more (hs.stop_le hcount (by simp [head])) _ _
  | lost head here more mem same =>
    exact absurd same (hd.rest_free hs hcount head more mem)

theorem clear_after (capacity : Nat) (cs : List Command)
    (hcount : Counted (Journal.after capacity cs).pushed)
    (hsep : Separate (Journal.after capacity cs).pushed) :
    Clear (Journal.after capacity cs).course := by
  refine (course_induction
    (Q := fun pushed => Counted pushed ∧ Separate pushed)
    (P := fun d => Sourced d ∧ Clear d) ?_ ?_ ?_ capacity cs
    ⟨hcount, hsep⟩).2
  · intro pushed later hp hboth
    exact ⟨.earlier hp hboth.1, .earlier hp hboth.2⟩
  · exact ⟨⟨.nil, rfl, by simp, by simp⟩, by simp, ⟨by simp, .nil⟩,
      by simp⟩
  · intro d d' hturn hboth hd
    have hbefore : Counted d.pushed := .earlier hturn.pushed_grows hboth.1
    exact ⟨hturn.sourced hd.1 hbefore,
      hturn.clear hd.2 hd.1 hbefore hboth.2⟩

/-- A pushed segment covers the cursor exactly if the first queued one
starts there. -/
theorem Clear.covered_iff {d : Course} (h : Clear d) (hs : Sourced d) :
    (∃ s ∈ d.pushed, s.Covers d.cursor) ↔
      ∃ q others, d.queue.segments = q :: others ∧ q.offset = d.cursor := by
  constructor
  · rintro ⟨s, hpushed, hle, hlt⟩
    rcases h.kept s hpushed with hstop | ⟨q, hq, hoffset, _⟩
    · omega
    · cases hqueue : d.queue.segments with
      | nil => simp [hqueue] at hq
      | cons first others =>
        refine ⟨first, others, rfl, ?_⟩
        have hahead := h.ahead first (by simp [hqueue])
        have hordered := hs.ordered
        rw [Queue.Ordered, hqueue] at hordered
        rw [hqueue] at hq
        rcases List.mem_cons.1 hq with rfl | hq
        · omega
        · have := (List.pairwise_cons.1 hordered).1 q hq
          omega
  · rintro ⟨q, others, head, here⟩
    obtain ⟨hlt, _⟩ := h.behind head
    obtain ⟨s, hpushed, hend⟩ := hs.ends q (by simp [head])
    have hoffset := hend.offset_le
    have hstop := hend.stop_eq
    exact ⟨s, hpushed, by omega, by omega⟩

/-- What looking for at least one byte tells, if `covered` says that the
byte at the cursor has come. -/
inductive Tells (covered : Prop) (t : Transmission) :
    Except Error Delivery → Prop where
  | ready {bs : Bytes} (here : covered) (queued : t.queue.isEmpty = false)
      (some : bs ≠ []) : Tells covered t (.ok (.ready bs))
  | gap (missing : ¬ covered) (queued : t.queue.isEmpty = false)
      (done : t.completed = true) :
      Tells covered t (.error (.gap t.cursor t.queue.min?))
  | finished (missing : ¬ covered) (empty : t.queue.isEmpty = true)
      (done : t.completed = true) : Tells covered t (.ok .finished)
  | pending (missing : ¬ covered) (open_ : t.completed = false) :
      Tells covered t (.ok .pending)

theorem Clear.tells {j : Journal} (h : Clear j.course)
    (hs : Sourced j.course) (hcount : Counted j.pushed) {max : Nat}
    (hmax : 0 < max) :
    Tells (∃ s ∈ j.pushed, s.Covers j.transmission.cursor) j.transmission
      (j.transmission.nextDelivery max).1 := by
  have hlooks := looks max j.transmission
  have hcovered := h.covered_iff hs
  simp only [Journal.course] at hcovered
  generalize (j.transmission.nextDelivery max).1 = r,
    (j.transmission.nextDelivery max).2 = t' at hlooks
  cases hlooks with
  | finished empty done =>
    refine .finished ?_ (by simp [Queue.isEmpty, empty]) done
    rw [hcovered]
    simp [empty]
  | idle empty open_ =>
    refine .pending ?_ open_
    rw [hcovered]
    simp [empty]
  | @below s others head lt =>
    have := h.ahead s (by simp [Journal.course, head])
    simp only [Journal.course] at this
    omega
  | @gap s others head gt done =>
    have hmin : j.transmission.queue.min? = some s.offset := by
      simp [Queue.min?, Queue.peek?, head]
    rw [← hmin]
    refine .gap ?_ (by simp [Queue.isEmpty, head]) done
    rw [hcovered, head]
    rintro ⟨q, rest, heq, here⟩
    cases heq
    omega
  | @early s others head gt open_ =>
    refine .pending ?_ open_
    rw [hcovered, head]
    rintro ⟨q, rest, heq, here⟩
    cases heq
    omega
  | @whole s others head here all =>
    obtain ⟨hlt, _⟩ := h.behind head
    refine .ready (hcovered.2 ⟨s, others, head, here⟩)
      (by simp [Queue.isEmpty, head]) ?_
    rw [← List.length_pos_iff, ← length]
    simp only [stop] at hlt
    omega
  | @part s others head here more free =>
    refine .ready (hcovered.2 ⟨s, others, head, here⟩)
      (by simp [Queue.isEmpty, head]) ?_
    rw [← List.length_pos_iff, List.length_take, ← length]
    omega
  | @lost s u others head here more mem same =>
    exact absurd same (h.rest_free hs hcount head more mem)

/-- A call has one answer. -/
theorem Tells.replies {covered : Prop} {t : Transmission}
    {r : Except Error Delivery} (h : Tells covered t r) :
    ((∃ bs, bs ≠ [] ∧ r = .ok (.ready bs)) ↔ covered) ∧
    (∀ e, r = .error e ↔ e = .gap t.cursor t.queue.min? ∧ ¬ covered ∧
      t.queue.isEmpty = false ∧ t.completed = true) ∧
    (r = .ok .finished ↔ t.queue.isEmpty = true ∧ t.completed = true) ∧
    (r = .ok .pending ↔ ¬ covered ∧ t.completed = false) := by
  cases h with
  | ready here queued some => simp [here, queued, some]
  | gap missing queued done => simp [missing, queued, done, eq_comm]
  | finished missing empty done => simp [missing, empty, done]
  | pending missing open_ => simp [missing, open_]

/-- What is handed out is entered, and moves the cursor. -/
theorem ready_spec (j : Journal) {max : Nat} {bs : Bytes}
    (h : (j.transmission.nextDelivery max).1 = .ok (.ready bs)) :
    bs.length ≤ max ∧ (j.next (.next max)).out = j.out ++ bs ∧
      (j.next (.next max)).transmission.cursor =
        j.transmission.cursor + bs.length := by
  have hout : (j.next (.next max)).out = j.out ++ bs := by
    simp [Journal.next, perform, Reply.brings, handed, h]
  have hlooks := looks max j.transmission
  rw [h] at hlooks
  show bs.length ≤ max ∧ _ ∧
    (j.transmission.nextDelivery max).2.cursor = _
  generalize (j.transmission.nextDelivery max).2 = t' at hlooks
  cases hlooks with
  | whole head here all => exact ⟨all, hout, rfl⟩
  | @part s others head here more free =>
    have hlen : (s.payload.take max).length = max := length_front more
    exact ⟨by omega, hout, by rw [hlen]⟩

/-- **Delivery is exact, and prompt.** Segments are queued in any order,
with overlaps and duplicates, and bytes are looked for in portions of any
size. The bytes that were handed out reach up to the cursor, and each is
what some queued segment has for its position; a portion is not larger
than asked for, and goes on at the cursor. If no queued segment was empty
and no two did overlap, then a call for at least one byte hands out bytes
exactly if the one at the cursor has come. Otherwise it tells the end of
the stream if nothing is queued and all connections have ended, a gap if
they have ended with something queued, and to wait if they have not. It
does not fail in any other way. -/
theorem delivery_exact (capacity : Nat) (cs : List Command)
    (counted : Counted (Journal.after capacity cs).pushed) :
    let j := Journal.after capacity cs
    let t := j.transmission
    j.out.length = t.cursor ∧
    (∀ p < t.cursor, ∃ s ∈ j.pushed, ∃ b,
      s.Holds p b ∧ j.out[p]? = some b) ∧
    (∀ max bs, (t.nextDelivery max).1 = .ok (.ready bs) →
      bs.length ≤ max ∧ (j.next (.next max)).out = j.out ++ bs ∧
        (j.next (.next max)).transmission.cursor =
          t.cursor + bs.length) ∧
    (Separate j.pushed → ∀ max, 0 < max →
      let r := (t.nextDelivery max).1
      let covered := ∃ s ∈ j.pushed, s.Covers t.cursor
      (∀ offset, r ≠ .error (.duplicateOffset offset)) ∧
      (∀ offset cursor, r ≠ .error (.offsetBelowCursor offset cursor)) ∧
      ((∃ bs, bs ≠ [] ∧ r = .ok (.ready bs)) ↔ covered) ∧
      (∀ e, r = .error e ↔ e = .gap t.cursor t.queue.min? ∧ ¬ covered ∧
        t.queue.isEmpty = false ∧ t.completed = true) ∧
      (r = .ok .finished ↔ t.queue.isEmpty = true ∧ t.completed = true) ∧
      (r = .ok .pending ↔ ¬ covered ∧ t.completed = false)) := by
  intro j t
  have hsourced := sourced_after capacity cs counted
  have hlength : j.out.length = t.cursor := hsourced.cursor
  refine ⟨hlength, fun p hp => ?_, fun max bs h => ready_spec j h,
    fun hsep max hmax => ?_⟩
  · have hlt : p < j.out.length := by omega
    obtain ⟨s, hs, hholds⟩ :=
      hsourced.carried p j.out[p] (List.getElem?_eq_getElem hlt)
    exact ⟨s, hs, j.out[p], hholds, List.getElem?_eq_getElem hlt⟩
  · intro r covered
    have htells : Tells covered t r :=
      (clear_after capacity cs counted hsep).tells hsourced counted hmax
    obtain ⟨hready, herror, hfinished, hpending⟩ := htells.replies
    refine ⟨fun offset h => ?_, fun offset cursor h => ?_, hready, herror,
      hfinished, hpending⟩
    · cases ((herror _).1 h).1
    · cases ((herror _).1 h).1

/-- The second segment comes first, and one byte has been handed out. -/
theorem delivery_exact_three :
    let cs : List Command :=
      [.push (.data [3, 4, 5] 2 .none), .push (.data [1, 2] 0 .none),
        .next 1]
    let j := Journal.after 2 cs
    Counted j.pushed ∧ Separate j.pushed ∧ j.out.length = 1 ∧
      ∃ bs, bs ≠ [] ∧ (j.transmission.nextDelivery 5).1 =
        .ok (.ready bs) := by
  intro cs j
  have hpushed : j.pushed =
      [.data [3, 4, 5] 2 .none, .data [1, 2] 0 .none] := rfl
  have counted : Counted j.pushed := by
    rw [hpushed, Counted]
    decide
  have separate : Separate j.pushed := by
    rw [hpushed]
    exact ⟨by decide, by decide⟩
  obtain ⟨hlength, _, _, hprompt⟩ := delivery_exact 2 cs counted
  obtain ⟨_, _, hready, _⟩ := hprompt separate 5 (by decide)
  refine ⟨counted, separate, hlength, hready.2 ?_⟩
  exact ⟨.data [1, 2] 0 .none, by rw [hpushed]; simp, by decide, by decide⟩

end Transmission
end Stripe
