import Stripe.Proofs.Transmission.Failures
import Stripe.Proofs.Transmission.Placements

/-!
# How the buffer grows

Room is asked for by placing a payload, or ahead of it. If the buffer is
too small it grows to what is asked for, or to twice its size if that is
more (`Grows`). Beside a journal the requests that were granted are noted,
each by the position where it ends.

The main statement is `capacity_bounds`: the buffer holds every request, is
never larger than twice the largest one unless it was so from the start,
and keeps every byte that was placed.
-/

namespace Stripe.Transmission

/-- The request for room that a command was granted, by its end. -/
def Command.grants : Command → Reply → List Nat
  | .ensureCapacity offset len, .result (.ok ()) => [offset + len]
  | .place offset bytes, .result (.ok ()) =>
    if bytes.isEmpty then [] else [offset + bytes.length]
  | _, _ => []

/-! ## One command -/

/-- What becomes of the size of the buffer when the requests in the list are
granted, of which there is at most one. -/
inductive Grows (size : Nat) : List Nat → Nat → Prop where
  | aside : Grows size [] size
  | roomy {n : Nat} (le : n ≤ size) : Grows size [n] size
  | grown {n : Nat} (lt : size < n) :
      Grows size [n] (max n (min maxCount (2 * size)))

variable {t : Transmission} {offset len : Nat} {bytes : Bytes}

theorem capacity_ensureCapacity (h : offset + len ≤ maxCount) :
    (t.ensureCapacity offset len).1 = .ok () ∧
      (t.ensureCapacity offset len).2.capacity =
        if t.capacity < offset + len then
          max (offset + len) (min maxCount (2 * t.capacity))
        else t.capacity := by
  unfold ensureCapacity
  rw [if_neg (by omega)]
  split
  · refine ⟨rfl, ?_⟩
    simp only [capacity, Array.size_append, Array.size_replicate] at *
    omega
  · exact ⟨rfl, rfl⟩

/-- Room for a payload is made as if it was asked for ahead. -/
theorem capacity_place (hbytes : bytes ≠ [])
    (h : (t.place offset bytes).1 = .ok ()) :
    offset + bytes.length ≤ maxCount ∧ (t.place offset bytes).2.capacity =
      (t.ensureCapacity offset bytes.length).2.capacity := by
  rcases place_cases offset bytes t hbytes with ⟨e, he, _⟩ |
    ⟨_, _, hmax, hfree, _⟩
  · rw [he] at h
    cases h
  · refine ⟨hmax, ?_⟩
    have hroom := (capacity_ensureCapacity (t := t) hmax).1
    have hensure : t.ensureCapacity offset bytes.length =
        (.ok (), (t.ensureCapacity offset bytes.length).2) :=
      Prod.ext hroom rfl
    unfold place
    rw [if_neg (by simpa using hbytes)]
    dsimp only
    rw [if_neg (by omega), hfree]
    dsimp only
    rw [hensure]
    simp [capacity]

theorem grows_of_request (h : offset + len ≤ maxCount) :
    Grows t.capacity [offset + len]
      (t.ensureCapacity offset len).2.capacity := by
  rw [(capacity_ensureCapacity h).2]
  split
  · rename_i hlt
    exact .grown hlt
  · rename_i hle
    exact .roomy (by omega)

theorem grows_place (offset : Nat) (bytes : Bytes) (t : Transmission) :
    Grows t.capacity
      (Command.grants (.place offset bytes)
        (.result (t.place offset bytes).1))
      (t.place offset bytes).2.capacity := by
  by_cases hbytes : bytes = []
  · rw [hbytes, place_nil]
    exact .aside
  · cases hplace : (t.place offset bytes).1 with
    | error e =>
      rw [place_of_error hplace]
      exact .aside
    | ok =>
      obtain ⟨hmax, hcapacity⟩ := capacity_place hbytes hplace
      simp only [Command.grants, List.isEmpty_iff, hbytes, if_false]
      rw [hcapacity]
      exact grows_of_request hmax

theorem grows_ensureCapacity (offset len : Nat) (t : Transmission) :
    Grows t.capacity
      (Command.grants (.ensureCapacity offset len)
        (.result (t.ensureCapacity offset len).1))
      (t.ensureCapacity offset len).2.capacity := by
  rcases ensureCapacity_cases offset len t with ⟨_, he⟩ | ⟨hmax, _⟩
  · rw [he]
    exact .aside
  · rw [(capacity_ensureCapacity hmax).1]
    exact grows_of_request hmax

/-- A command that does not touch the buffer. -/
theorem grows_aside {t' t'' : Transmission} (hframe : t' = t'')
    (hbuffer : t''.buffer = t.buffer) : Grows t.capacity [] t'.capacity := by
  have hsize : t'.capacity = t.capacity := by
    rw [hframe, capacity, hbuffer, capacity]
  rw [hsize]
  exact .aside

/-- **What a command does to the size of the buffer.** -/
theorem grows (t : Transmission) (c : Command) :
    Grows t.capacity (c.grants (t.perform c).1) (t.perform c).2.capacity := by
  cases c with
  | place offset bytes => exact grows_place offset bytes t
  | ensureCapacity offset len => exact grows_ensureCapacity offset len t
  | setEodTotal total => exact grows_aside (frame_setEodTotal total t) rfl
  | ackEod connection => exact grows_aside (frame_ackEod connection t) rfl
  | push s =>
    show Grows t.capacity [] (t.push s).2.capacity
    rcases push_cases s t with ⟨e, he, _⟩ | ⟨he, _⟩
    · exact grows_aside (congrArg Prod.snd he) rfl
    · exact grows_aside (congrArg Prod.snd he) rfl
  | next max => exact grows_aside (delivers_nextDelivery max t).frame rfl

/-- What the buffer holds stays there, but for the range of a payload that
is placed. -/
theorem Journal.buffer_next (j : Journal) (c : Command) {k : Nat}
    (hk : k < j.transmission.capacity)
    (hother : ∀ p ∈ c.places (j.transmission.perform c).1, ¬ p.Covers k) :
    (j.next c).transmission.buffer[k]? = j.transmission.buffer[k]? := by
  have hgathers := j.gathers c
  have hplaced : (j.next c).placed =
      j.placed ++ c.places (j.transmission.perform c).1 := rfl
  generalize (j.next c).placed = placed', (j.next c).transmission = t'
    at hgathers hplaced
  cases hgathers with
  | kept size keep written spans => exact keep k hk
  | @placed p _ some within written ok =>
    have hout : ¬ (p.offset ≤ k ∧ k < p.offset + p.bytes.length) := by
      apply hother
      rw [← List.append_cancel_left hplaced]
      exact List.mem_singleton_self p
    rcases place_cases p.offset p.bytes j.transmission some with
      ⟨e, he, _⟩ | ⟨b, he, _, _, hroom, _, hkeep⟩
    · rw [he] at ok
      cases ok
    · obtain rfl := congrArg Prod.snd (he.symm.trans ok)
      show (write p.offset p.bytes b)[k]? = _
      rw [getElem?_write hroom, if_neg hout]
      exact hkeep k hk

/-! ## All commands -/

/-- A journal, and the requests for room that were granted. -/
structure Growth extends Journal where
  granted : List Nat

namespace Growth

/-- Carries out a command, and enters what has come of it. -/
def next (g : Growth) (c : Command) : Growth where
  toJournal := g.toJournal.next c
  granted := g.granted ++ c.grants (g.transmission.perform c).1

/-- A new transfer after a row of commands. -/
def after (capacity : Nat) (cs : List Command) : Growth :=
  cs.foldl next ⟨⟨withCapacity capacity, [], [], []⟩, []⟩

/-- What holds of a new transfer, and is kept by every command, holds after
all commands. -/
theorem after_induction {P : Growth → Prop} {capacity : Nat}
    (first : P ⟨⟨withCapacity capacity, [], [], []⟩, []⟩)
    (step : ∀ g c, P g → P (g.next c)) (cs : List Command) :
    P (after capacity cs) :=
  List.foldlRecOn cs next first fun g hg c _ => step g c hg

end Growth

/-- The size of the buffer, seen from where it started and from what was
asked for. -/
structure Housed (initial : Nat) (granted : List Nat) (size : Nat) :
    Prop where
  initial_le : initial ≤ size
  granted_le : ∀ n ∈ granted, n ≤ size
  le_double : size = initial ∨ ∃ n ∈ granted, size ≤ 2 * n

theorem Grows.le {size size' : Nat} {more : List Nat}
    (h : Grows size more size') : size ≤ size' := by
  cases h with
  | aside | roomy => exact Nat.le_refl size
  | grown lt => omega

theorem Grows.housed {initial size size' : Nat} {granted more : List Nat}
    (h : Grows size more size') (hsize : Housed initial granted size) :
    Housed initial (granted ++ more) size' := by
  have hle := h.le
  have hinitial := hsize.initial_le
  constructor
  case initial_le => omega
  case granted_le =>
    intro n hn
    rcases List.mem_append.1 hn with hn | hn
    · have := hsize.granted_le n hn
      omega
    · cases h with
      | aside => cases hn
      | roomy le => exact List.mem_singleton.1 hn ▸ le
      | grown lt =>
        rw [List.mem_singleton.1 hn]
        exact Nat.le_max_left _ _
  case le_double =>
    have hold : size = initial ∨ ∃ n ∈ granted ++ more, size ≤ 2 * n := by
      rcases hsize.le_double with heq | ⟨n, hn, hdouble⟩
      · exact .inl heq
      · exact .inr ⟨n, List.mem_append_left more hn, hdouble⟩
    cases h with
    | aside | roomy => exact hold
    | @grown n lt => exact .inr ⟨n, by simp, by omega⟩

/-- Room is made only for a request that needs it, and then as much as was
asked for, or twice as much as there was. -/
theorem Grows.of_lt {size size' : Nat} {more : List Nat}
    (h : Grows size more size') (hlt : size < size') :
    ∃ n, more = [n] ∧ size < n ∧
      size' = max n (min maxCount (2 * size)) := by
  cases h with
  | aside | roomy => exact absurd hlt (Nat.lt_irrefl _)
  | @grown n lt => exact ⟨n, rfl, lt, rfl⟩

/-- The buffer has room for what was asked for, and holds what was
placed. -/
theorem housed_after (capacity : Nat) (cs : List Command) :
    let g := Growth.after capacity cs
    Housed (max capacity Config.minBufferCapacity) g.granted
      g.transmission.capacity ∧ Filled g.placed g.transmission := by
  apply Growth.after_induction (P := fun g =>
    Housed (max capacity Config.minBufferCapacity) g.granted
      g.transmission.capacity ∧ Filled g.placed g.transmission)
  · have hsize : (withCapacity capacity).capacity =
        max capacity Config.minBufferCapacity := Array.size_replicate
    rw [hsize]
    exact ⟨⟨Nat.le_refl _, by simp, .inl rfl⟩, by simp,
      collects_withCapacity capacity⟩
  · intro g c h
    exact ⟨(grows g.transmission c).housed h.1,
      (g.toJournal.gathers c).filled h.2⟩

/-- **The buffer grows as little as it may.** After any commands on a new
transfer, the buffer is at least as large as it was at first, and has room
for every request that was granted; it still has its first size, or is at
most twice as large as some request. Every payload that was placed stands
in it. No command makes it smaller. It grows only for a request that does
not fit, to the end of the request or to twice its size, whichever is
more, so that it at least doubles unless that is too large for a count;
and what it holds stays, but for the range of a payload that is placed. An
empty payload, and one that is refused, change nothing. -/
theorem capacity_bounds (capacity : Nat) (cs : List Command) :
    let g := Growth.after capacity cs
    let t := g.transmission
    let initial := max capacity Config.minBufferCapacity
    (initial ≤ t.capacity ∧ (∀ n ∈ g.granted, n ≤ t.capacity) ∧
      (t.capacity = initial ∨ ∃ n ∈ g.granted, t.capacity ≤ 2 * n)) ∧
    (∀ p ∈ g.placed, ∀ k < p.bytes.length,
      t.buffer[p.offset + k]? = p.bytes[k]?) ∧
    (∀ c, let r := (t.perform c).1
      let t' := (t.perform c).2
      t.capacity ≤ t'.capacity ∧
      (t.capacity < t'.capacity → ∃ n, c.grants r = [n] ∧
        t.capacity < n ∧
        t'.capacity = max n (min maxCount (2 * t.capacity)) ∧
        (2 * t.capacity < UInt64.size → 2 * t.capacity ≤ t'.capacity)) ∧
      ∀ k < t.capacity, (∀ p ∈ c.places r, ¬ p.Covers k) →
        t'.buffer[k]? = t.buffer[k]?) ∧
    (∀ offset, t.place offset [] = (.ok (), t)) ∧
    ∀ offset bytes e, (t.place offset bytes).1 = .error e →
      (t.place offset bytes).2 = t := by
  intro g t initial
  obtain ⟨hhoused, hfilled⟩ := housed_after capacity cs
  refine ⟨⟨hhoused.initial_le, hhoused.granted_le, hhoused.le_double⟩,
    ?_, ?_, fun offset => place_nil offset t,
    fun offset bytes e he => place_of_error he⟩
  · intro p hp k hk
    have hholds := hfilled.collects.holds p.segment
      (List.mem_map_of_mem hp) k hk
    rwa [Placement.offset_segment (hfilled.within p hp),
      Placement.payload_segment] at hholds
  · intro c r t'
    have hgrows : Grows t.capacity (c.grants r) t'.capacity := grows t c
    refine ⟨hgrows.le, ?_, ?_⟩
    · intro hlt
      obtain ⟨n, hgrants, hneeds, hsize⟩ := hgrows.of_lt hlt
      refine ⟨n, hgrants, hneeds, hsize, ?_⟩
      intro hcount
      have hmax : 2 * t.capacity ≤ maxCount := by
        unfold maxCount
        omega
      omega
    · intro k hk hother
      exact g.toJournal.buffer_next c hk hother

/-- Room for six bytes is made at once, and the one byte more doubles it. -/
example : (Growth.after 0 [.ensureCapacity 2 4, .place 0 [7], .place 6 [8],
    .place 6 [9]]).transmission.capacity = 12 := rfl

end Stripe.Transmission
