import Stripe.Proofs.Transmission.Journal

/-!
# A map by offset

A queue files every segment under its offset (`filed`), and gives them
back by the smallest offset. Beside the queue a log is kept of what its
users have seen of it: which segments were accepted, and which were taken
out.

What a command can come to is told once (`Log.moves`). The main statement is
`priority_map`: what is filed is what was accepted and not taken out, a
segment is refused exactly if its offset is taken, the one that is given
back has the smallest offset, and the queue knows how much it holds.
-/

namespace Stripe.Queue

open Segment

/-- The segment that is filed under an offset. -/
def filed (q : Queue) (offset : Nat) : Option Segment :=
  q.segments.find? fun s => s.offset == offset

/-! ## The map -/

section Map

variable {q : Queue} {s : Segment} {others : List Segment}

theorem Ordered.offset_ne (h : q.Ordered) :
    q.segments.Pairwise fun s t => s.offset ≠ t.offset :=
  h.imp Nat.ne_of_lt

theorem filed_eq_none_iff {offset : Nat} :
    q.filed offset = none ↔ ∀ t ∈ q.segments, t.offset ≠ offset := by
  simp [filed]

/-- Segments of the same offset are the same one. -/
theorem Ordered.eq_of_offset_eq (h : q.Ordered) {t : Segment}
    (hs : s ∈ q.segments) (ht : t ∈ q.segments)
    (hsame : s.offset = t.offset) : s = t := by
  have hall := List.Pairwise.forall_of_forall_of_flip
    (R := fun s t : Segment => s.offset = t.offset → s = t)
    (fun _ _ _ => rfl) (h.imp fun hlt heq => by omega)
    (h.imp fun hlt heq => by omega)
  exact hall hs ht hsame

theorem Ordered.filed_iff (h : q.Ordered) {offset : Nat} :
    q.filed offset = some s ↔ s ∈ q.segments ∧ s.offset = offset := by
  constructor
  · intro hfiled
    have hoffset := List.find?_some hfiled
    exact ⟨List.mem_of_find?_eq_some hfiled, by simpa using hoffset⟩
  · rintro ⟨hmem, rfl⟩
    cases hfiled : q.filed s.offset with
    | none => exact absurd rfl (filed_eq_none_iff.1 hfiled s hmem)
    | some t =>
      have hoffset : t.offset = s.offset := by
        simpa using List.find?_some hfiled
      have ht := List.mem_of_find?_eq_some hfiled
      rw [h.eq_of_offset_eq hmem ht hoffset.symm]

/-- Two queues in order that hold the same segments, but for those of one
offset, file the same under any other offset. -/
theorem Ordered.filed_congr {q' : Queue} (h : q.Ordered) (h' : q'.Ordered)
    {offset : Nat}
    (hsame : ∀ t, t.offset = offset → (t ∈ q'.segments ↔ t ∈ q.segments)) :
    q'.filed offset = q.filed offset := by
  apply Option.ext
  intro t
  rw [h.filed_iff, h'.filed_iff]
  constructor
  · rintro ⟨hmem, hoffset⟩
    exact ⟨(hsame t hoffset).1 hmem, hoffset⟩
  · rintro ⟨hmem, hoffset⟩
    exact ⟨(hsame t hoffset).2 hmem, hoffset⟩

theorem holds_iff_filed {offset : Nat} :
    q.holds offset = true ↔ q.filed offset ≠ none := by
  rw [Ne, filed_eq_none_iff, ← holds_eq_false_iff, Bool.not_eq_false]

/-- An accepted segment is filed under its offset, and nothing else
changes. -/
theorem Ordered.filed_push (h : q.Ordered)
    (hfree : ∀ t ∈ q.segments, t.offset ≠ s.offset) (n offset : Nat) :
    filed ⟨insert s q.segments, n⟩ offset =
      if offset = s.offset then some s else q.filed offset := by
  have h' : Ordered ⟨insert s q.segments, n⟩ := pairwise_insert h hfree
  split
  · rename_i hsame
    rw [h'.filed_iff]
    exact ⟨mem_insert.2 (.inl rfl), hsame.symm⟩
  · rename_i hother
    apply h.filed_congr h'
    intro t ht
    constructor
    · intro hmem
      rcases mem_insert.1 hmem with rfl | hmem
      · exact absurd ht.symm hother
      · exact hmem
    · intro hmem
      exact mem_insert.2 (.inr hmem)

/-- The first segment is taken out of the map, and nothing else changes. -/
theorem Ordered.filed_pop (h : q.Ordered) (head : q.segments = s :: others)
    (n offset : Nat) :
    filed ⟨others, n⟩ offset =
      if offset = s.offset then none else q.filed offset := by
  have hsorted := h
  rw [Ordered, head] at hsorted
  obtain ⟨hbehind, hothers⟩ := List.pairwise_cons.1 hsorted
  have h' : Ordered ⟨others, n⟩ := hothers
  split
  · rename_i hsame
    rw [filed_eq_none_iff]
    intro t ht
    have := hbehind t ht
    omega
  · rename_i hother
    apply h.filed_congr h'
    intro t ht
    show t ∈ others ↔ t ∈ q.segments
    rw [head, List.mem_cons]
    constructor
    · intro hmem
      exact .inr hmem
    · rintro (rfl | hmem)
      · exact absurd ht.symm hother
      · exact hmem

/-- The first segment is the one of the smallest offset. -/
theorem Ordered.peek?_iff (h : q.Ordered) :
    q.peek? = some s ↔
      s ∈ q.segments ∧ ∀ t ∈ q.segments, s.offset ≤ t.offset := by
  constructor
  · intro hfirst
    obtain ⟨others, head⟩ := List.head?_eq_some_iff.1 hfirst
    refine ⟨by simp [head], ?_⟩
    intro t ht
    exact h.head_le head ht
  · rintro ⟨hmem, hleast⟩
    cases head : q.segments with
    | nil => simp [head] at hmem
    | cons u others =>
      have hle := h.head_le head hmem
      have hge := hleast u (by simp [head])
      have hu : q.filed s.offset = some u :=
        h.filed_iff.2 ⟨by simp [head], by omega⟩
      have hs : q.filed s.offset = some s := h.filed_iff.2 ⟨hmem, rfl⟩
      rw [peek?, head, ← hs, hu]
      rfl

theorem pop_fst (q : Queue) : q.pop.1 = q.peek? := by
  unfold pop peek?
  split
  · rename_i hempty
    rw [hempty]
    rfl
  · rename_i head
    rw [head]
    rfl

end Map

/-! ## The log of a queue -/

/-- The segment that a command has filed. -/
def Command.enters : Command → Reply → List Segment
  | .push s, .pushed (.ok ()) => [s]
  | _, _ => []

/-- The segment that a command has taken out. -/
def Command.removes : Command → Reply → List Segment
  | .pop, .segment s => s.toList
  | _, _ => []

/-- A queue, and what its users have seen of it. -/
structure Log where
  queue : Queue
  /-- The segments that were accepted, in the order in which they came. -/
  accepted : List Segment
  /-- The segments that were taken out, in that order. -/
  popped : List Segment

namespace Log

/-- Carries out a command, and enters what has come of it. -/
def next (l : Log) (c : Command) : Log where
  queue := (l.queue.perform c).2
  accepted := l.accepted ++ c.enters (l.queue.perform c).1
  popped := l.popped ++ c.removes (l.queue.perform c).1

/-- The log of a new queue after a row of commands. -/
def after (cs : List Command) : Log := cs.foldl next ⟨.empty, [], []⟩

/-- What a command comes to. -/
inductive Moves (l : Log) : Log → Prop where
  /-- The segment is refused, nothing is queued, or the queue is only
  looked at. -/
  | aside : Moves l l
  | accepted {s : Segment}
      (free : ∀ t ∈ l.queue.segments, t.offset ≠ s.offset) :
      Moves l {
        queue := ⟨insert s l.queue.segments, l.queue.queuedBytes + s.length⟩
        accepted := l.accepted ++ [s]
        popped := l.popped }
  | popped {s : Segment} {others : List Segment}
      (head : l.queue.segments = s :: others) :
      Moves l {
        queue := ⟨others, l.queue.queuedBytes - s.length⟩
        accepted := l.accepted
        popped := l.popped ++ [s] }

theorem moves (l : Log) (c : Command) : Moves l (l.next c) := by
  cases c with
  | push s =>
    cases hholds : l.queue.holds s.offset with
    | true =>
      have hnext : l.next (.push s) = l := by
        simp [next, perform, push_of_holds hholds, Command.enters,
          Command.removes]
      rw [hnext]
      exact .aside
    | false =>
      simp only [next, perform, push_of_free hholds, Command.enters,
        Command.removes, List.append_nil]
      exact .accepted (holds_eq_false_iff.1 hholds)
  | pop =>
    cases head : l.queue.segments with
    | nil =>
      have hnext : l.next .pop = l := by
        simp [next, perform, pop, head, Command.enters, Command.removes]
      rw [hnext]
      exact .aside
    | cons s others =>
      simp only [next, perform, pop, head, Command.enters, Command.removes,
        List.append_nil, Option.toList_some]
      exact .popped head
  | peek =>
    have hnext : l.next .peek = l := by
      simp [next, perform, Command.enters, Command.removes]
    rw [hnext]
    exact .aside

/-! ## What the log shows -/

/-- The queue is in order, knows how much it holds, and holds what was
accepted and not taken out. -/
structure Sound (l : Log) : Prop where
  ordered : l.queue.Ordered
  weighed : l.queue.Weighed
  contents : (l.popped ++ l.queue.segments).Perm l.accepted

theorem Moves.sound {l l' : Log} (h : Moves l l') (hl : Sound l) :
    Sound l' := by
  have hordered := hl.ordered
  have hweighed := hl.weighed
  have hcontents := hl.contents
  cases h with
  | aside => exact hl
  | @accepted s free =>
    constructor
    case ordered => exact pairwise_insert hordered free
    case weighed =>
      show l.queue.queuedBytes + s.length = _
      rw [length_joined_insert, hweighed, Nat.add_comm]
    case contents =>
      have hinsert := (insert_perm s l.queue.segments).append_left l.popped
      have hfront := hinsert.trans List.perm_middle
      have hlast := List.perm_append_singleton s l.accepted
      exact hfront.trans ((hcontents.cons s).trans hlast.symm)
  | @popped s others head =>
    rw [head] at hcontents
    rw [Ordered, head] at hordered
    rw [Weighed, head, joined_cons, List.length_append] at hweighed
    constructor
    case ordered => exact hordered.of_cons
    case weighed =>
      show l.queue.queuedBytes - s.length = _
      rw [hweighed, length, Nat.add_sub_cancel_left]
    case contents =>
      simpa using hcontents

theorem sound_after (cs : List Command) : Sound (after cs) :=
  List.foldlRecOn cs next ⟨.nil, rfl, .refl []⟩
    fun l hl c _ => (l.moves c).sound hl

/-! ## Taking out, segment by segment -/

/-- If no segment was accepted in between, those that were taken out stood
at the front of the queue. -/
def Drains (l l' : Log) : Prop :=
  l.accepted <+: l'.accepted ∧ (l'.accepted = l.accepted →
    ∃ row, l'.popped = l.popped ++ row ∧
      l.queue.segments = row ++ l'.queue.segments)

theorem Drains.refl (l : Log) : Drains l l :=
  ⟨List.prefix_refl _, fun _ => ⟨[], by simp, rfl⟩⟩

theorem Drains.trans {l l' l'' : Log} (h : Drains l l')
    (h' : Drains l' l'') : Drains l l'' := by
  refine ⟨h.1.trans h'.1, ?_⟩
  intro hsame
  -- nothing was accepted on the way either
  have hle := h'.1.length_le
  have hfirst : l'.accepted = l.accepted :=
    (h.1.eq_of_length_le (by rw [← hsame]; exact hle)).symm
  obtain ⟨row, hpopped, hrow⟩ := h.2 hfirst
  obtain ⟨row', hpopped', hrow'⟩ := h'.2 (hsame.trans hfirst.symm)
  exact ⟨row ++ row', by simp [hpopped', hpopped],
    by rw [hrow, hrow', List.append_assoc]⟩

theorem Moves.drains {l l' : Log} (h : Moves l l') : Drains l l' := by
  cases h with
  | aside => exact .refl l
  | accepted free =>
    refine ⟨List.prefix_append _ _, ?_⟩
    intro hsame
    simp at hsame
  | @popped s others head =>
    exact ⟨List.prefix_refl _, fun _ => ⟨[s], rfl, head⟩⟩

theorem drains_after (cs ds : List Command) :
    Drains (after cs) (after (cs ++ ds)) := by
  unfold after
  rw [List.foldl_append]
  exact List.foldlRecOn ds next (.refl _)
    fun l h d _ => h.trans (l.moves d).drains

end Log

/-! ## The map that the users see -/

theorem Ordered.push_spec {q : Queue} (h : q.Ordered) (s : Segment) :
    (∀ e, (q.push s).1 = .error e ↔
      e = .duplicateOffset s.offset ∧ q.filed s.offset ≠ none) ∧
    (∀ e, (q.push s).1 = .error e → (q.push s).2 = q) ∧
    ((q.push s).1 = .ok () → ∀ offset, (q.push s).2.filed offset =
      if offset = s.offset then some s else q.filed offset) := by
  rw [← holds_iff_filed]
  cases hholds : q.holds s.offset with
  | true =>
    rw [push_of_holds hholds]
    exact ⟨by simp [eq_comm], by simp, by simp⟩
  | false =>
    rw [push_of_free hholds]
    exact ⟨by simp, by simp,
      fun _ => h.filed_push (holds_eq_false_iff.1 hholds) _⟩

/-- **A queue is a map by offset, with the smallest one first.** After any
commands on a new queue, what is queued is what was accepted and was not
taken out, each segment filed under its own offset. A segment is refused
exactly if one is filed under its offset, and then nothing changes; an
accepted one is filed, and no other entry changes. The segment that is
looked at is the one of the smallest offset; taking out gives the same one,
and removes its entry only. As long as none is accepted, the segments
that are taken out come in the order of their offsets. The queue knows the
number of its segments, and how many bytes they carry. -/
theorem priority_map (cs : List Command) :
    let l := Log.after cs
    let q := l.queue
    ((l.popped ++ q.segments).Perm l.accepted ∧
      (∀ offset s, q.filed offset = some s ↔
        s ∈ q.segments ∧ s.offset = offset) ∧
      q.segments.Pairwise fun s t => s.offset ≠ t.offset) ∧
    (∀ s, (∀ e, (q.push s).1 = .error e ↔
        e = .duplicateOffset s.offset ∧ q.filed s.offset ≠ none) ∧
      (∀ e, (q.push s).1 = .error e → (q.push s).2 = q) ∧
      ((q.push s).1 = .ok () → ∀ offset, (q.push s).2.filed offset =
        if offset = s.offset then some s else q.filed offset)) ∧
    ((∀ s, q.peek? = some s ↔
        s ∈ q.segments ∧ ∀ t ∈ q.segments, s.offset ≤ t.offset) ∧
      (q.peek? = none ↔ q.segments = []) ∧ q.pop.1 = q.peek? ∧
      (∀ s, q.pop.1 = some s → ∀ offset, q.pop.2.filed offset =
        if offset = s.offset then none else q.filed offset) ∧
      (q.pop.1 = none → q.pop.2 = q) ∧ (q.perform .peek).2 = q) ∧
    (∀ ds, (Log.after (cs ++ ds)).accepted = l.accepted →
      ∃ row, (Log.after (cs ++ ds)).popped = l.popped ++ row ∧
        q.segments = row ++ (Log.after (cs ++ ds)).queue.segments ∧
        row.Pairwise fun s t => s.offset < t.offset) ∧
    q.size = q.segments.length ∧
    q.queuedBytes = (joined q.segments).length := by
  intro l q
  have hsound : l.Sound := Log.sound_after cs
  have hordered : q.Ordered := hsound.ordered
  refine ⟨⟨hsound.contents, fun offset s => hordered.filed_iff,
    hordered.offset_ne⟩, fun s => hordered.push_spec s,
    ⟨fun s => hordered.peek?_iff, List.head?_eq_none_iff, q.pop_fst, ?_, ?_,
      rfl⟩, ?_, rfl, hsound.weighed⟩
  · intro s hpop offset
    rw [q.pop_fst] at hpop
    obtain ⟨others, head⟩ := List.head?_eq_some_iff.1 hpop
    simp only [pop, head]
    exact hordered.filed_pop head _ offset
  · intro hpop
    rw [q.pop_fst] at hpop
    simp [pop, List.head?_eq_none_iff.1 hpop]
  · intro ds hsame
    obtain ⟨row, hpopped, hrow⟩ := (Log.drains_after cs ds).2 hsame
    refine ⟨row, hpopped, hrow, ?_⟩
    have hrows := hordered
    rw [Ordered, hrow] at hrows
    exact (List.pairwise_append.1 hrows).1

/-- The last segment is refused, and the one at offset 2 is taken out. -/
example : (Log.after [.push (.data [3] 7 .none), .push (.data [1, 2] 2 .none),
    .push (.data [4] 7 .none), .pop]).queue =
      ⟨[.data [3] 7 .none], 1⟩ := rfl

end Stripe.Queue
