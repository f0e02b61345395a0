import Stripe.Segment

/-!
# Segments that cover the stream

A row of segments is *chained* when each of them starts where the one
before it ends. Segments *tile* a message when, put in order, they are
chained from position zero and carry the message.

The main statement is `Chained.exists_back`: a chain that is made of
segments of another chain, and starts with it, is a prefix of it. This is
why a receiver that has delivered some bytes without a hole has delivered
the right ones.
-/

namespace Stripe.Segment

/-- Each segment starts where the one before it ends, the first one at
`start`. -/
def Chained : (start : Nat) → List Segment → Prop
  | _, [] => True
  | start, s :: rest =>
    s.offset = start ∧ 0 < s.length ∧ Chained (start + s.length) rest

/-- The segments cover a stream without overlap or hole, and `message` is
what they carry. -/
def Tiles (segs : List Segment) (message : Bytes) : Prop :=
  ∃ row, row.Perm segs ∧ Chained 0 row ∧ joined row = message

/-- The segments filed so far, and those that are still to be filed, tile
a message whose length is a count. -/
def Promised (pieces future : List Segment) : Prop :=
  ∃ row, Chained 0 row ∧ (pieces ++ future).Perm row ∧
    (joined row).length ≤ maxCount

@[simp] theorem joined_nil : joined [] = [] := rfl

@[simp] theorem joined_cons (s : Segment) (segs : List Segment) :
    joined (s :: segs) = s.payload ++ joined segs := rfl

@[simp] theorem joined_append (l r : List Segment) :
    joined (l ++ r) = joined l ++ joined r := by
  simp [joined]

theorem length_joined_perm {l r : List Segment} (h : l.Perm r) :
    (joined l).length = (joined r).length :=
  (h.flatMap_right payload).length_eq

@[simp] theorem chained_nil (start : Nat) : Chained start [] := trivial

@[simp] theorem chained_cons {start : Nat} {s : Segment} {l : List Segment} :
    Chained start (s :: l) ↔
      s.offset = start ∧ 0 < s.length ∧ Chained (start + s.length) l :=
  Iff.rfl

@[simp] theorem chained_append {start : Nat} {l r : List Segment} :
    Chained start (l ++ r) ↔
      Chained start l ∧ Chained (start + (joined l).length) r := by
  induction l generalizing start with
  | nil => simp
  | cons s l ih =>
    simp only [List.cons_append, chained_cons, ih, joined_cons,
      List.length_append, and_assoc]
    rw [Nat.add_assoc]
    rfl

namespace Chained

variable {start : Nat} {l : List Segment}

theorem le_offset (h : Chained start l) {s : Segment} (hs : s ∈ l) :
    start ≤ s.offset := by
  induction l generalizing start with
  | nil => simp at hs
  | cons t l ih =>
    obtain ⟨ho, _, hl⟩ := h
    rcases List.mem_cons.1 hs with rfl | hs
    · omega
    · have := ih hl hs
      omega

theorem length_pos (h : Chained start l) {s : Segment} (hs : s ∈ l) :
    0 < s.length := by
  induction l generalizing start with
  | nil => simp at hs
  | cons t l ih =>
    rcases List.mem_cons.1 hs with rfl | hs
    · exact h.2.1
    · exact ih h.2.2 hs

theorem stop_le (h : Chained start l) {s : Segment} (hs : s ∈ l) :
    s.stop ≤ start + (joined l).length := by
  induction l generalizing start with
  | nil => simp at hs
  | cons t l ih =>
    obtain ⟨ho, _, hl⟩ := h
    simp only [joined_cons, List.length_append]
    rcases List.mem_cons.1 hs with rfl | hs
    · simp only [stop, length]
      omega
    · have := ih hl hs
      simp only [length] at this
      omega

/-- In a chain each segment ends before the next one starts. -/
theorem pairwise (h : Chained start l) :
    l.Pairwise fun s t => s.stop ≤ t.offset := by
  induction l generalizing start with
  | nil => exact .nil
  | cons s l ih =>
    obtain ⟨ho, _, hl⟩ := h
    refine .cons (fun t ht => ?_) (ih hl)
    have := hl.le_offset ht
    simp only [stop]
    omega

theorem increasing (h : Chained start l) :
    l.Pairwise fun s t => s.offset < t.offset := by
  refine h.pairwise.imp_of_mem fun {s t} hs _ hle => ?_
  have := h.length_pos hs
  simp only [stop] at hle
  omega

/-- No two segments of a chain, or of a rearranged one, overlap. -/
theorem disjoint_of_perm (h : Chained start l) {m : List Segment}
    (hp : l.Perm m) :
    m.Pairwise fun s t => s.stop ≤ t.offset ∨ t.stop ≤ s.offset := by
  have hl : l.Pairwise fun s t => s.stop ≤ t.offset ∨ t.stop ≤ s.offset :=
    h.pairwise.imp Or.inl
  exact hp.pairwise hl fun h => h.symm

/-- The segment of a chain that starts where the chain does is its first
one. -/
theorem eq_of_offset_eq {s t : Segment} (h : Chained start (t :: l))
    (hs : s ∈ t :: l) (ho : s.offset = start) : s = t := by
  rcases List.mem_cons.1 hs with rfl | hs
  · rfl
  · have := h.2.2.le_offset hs
    have := h.2.1
    omega

/-- **A chain of segments of a chain is a prefix of it**, if both start at
the same position. What is not in the prefix is the rest of the chain. -/
theorem exists_back {front others : List Segment} (h : Chained start l)
    (hf : Chained start front) (hp : (front ++ others).Perm l) :
    ∃ back, l = front ++ back ∧ others.Perm back ∧
      Chained (start + (joined front).length) back := by
  induction front generalizing start l with
  | nil => exact ⟨l, rfl, hp, by simpa using h⟩
  | cons s front ih =>
    obtain ⟨ho, _, hf'⟩ := hf
    have hs : s ∈ l := hp.mem_iff.1 (by simp)
    cases l with
    | nil => simp at hs
    | cons t l =>
      -- both chains start with the same segment
      obtain rfl := eq_of_offset_eq h hs ho
      obtain ⟨back, rfl, hback, hchain⟩ := ih h.2.2 hf' hp.cons_inv
      refine ⟨back, rfl, hback, ?_⟩
      simpa [length, Nat.add_assoc] using hchain

end Chained
end Stripe.Segment
