import Stripe.Barrier
import Stripe.Handoff

/-!
# The hand-off and the barrier

What each operation of a hand-off and of a barrier does to the seat of one
worker, and that it leaves all others alone. In a hand-off that is *sane*
every posted slot stands in the queue once, so a segment that is handed
over comes into a slot that is empty (`hands_spec`). In a barrier that is
sane the tokens are those that the owner has sent, so a worker that is
told to stop is told by the owner (`shouldStop_spec`).
-/

namespace Stripe

namespace Handoff

/-- Each posted slot stands in the queue once. -/
structure Sane (n : Nat) (h : Handoff) : Prop where
  size : h.receivers.length = n
  capacity : 0 < h.capacity
  posted : h.fed = true → ∀ i,
    h.ready.count (some i) = if h.slot i = .posted then 1 else 0

/-- Only receiver `i` was touched. -/
structure Touches (n i : Nat) (h h' : Handoff) : Prop where
  sane : h'.Sane n
  fed : h'.fed = h.fed
  present : ∀ j, j ≠ i → h'.present j = h.present j
  slot : ∀ j, j ≠ i → h'.slot j = h.slot j

/-- The segments in a slot. -/
def Slot.content : Slot → List Segment
  | .filled s => [s]
  | _ => []

/-! ## Slots -/

@[simp] theorem slot_ready (h : Handoff) (ready : List (Option Nat))
    (i : Nat) : slot { h with ready } i = h.slot i := rfl

@[simp] theorem present_ready (h : Handoff) (ready : List (Option Nat))
    (i : Nat) : present { h with ready } i = h.present i := rfl

theorem slot_setSlot {h : Handoff} {i : Nat} (hi : i < h.receivers.length)
    (slot : Slot) (j : Nat) :
    (h.setSlot i slot).slot j = if j = i then slot else h.slot j := by
  unfold Handoff.slot setSlot
  simp only [List.getElem?_modify]
  by_cases hj : j = i
  · subst hj
    simp [List.getElem?_eq_getElem hi]
  · have hne : i ≠ j := Ne.symm hj
    cases h.receivers[j]? <;> simp [hne, hj]

@[simp] theorem present_setSlot (h : Handoff) (i : Nat) (slot : Slot)
    (j : Nat) : (h.setSlot i slot).present j = h.present j := by
  unfold present setSlot
  simp only [List.getElem?_modify]
  cases h.receivers[j]? with
  | none => rfl
  | some r =>
    by_cases hij : i = j
    · subst hij
      simp
    · simp [hij]

theorem slot_of_le {h : Handoff} {i : Nat} (hi : h.receivers.length ≤ i) :
    h.slot i = .unposted := by
  simp [slot, List.getElem?_eq_none hi]

theorem Sane.lt {n i : Nat} {h : Handoff} (hs : h.Sane n)
    (hi : h.slot i ≠ .unposted) : i < n := by
  rcases Nat.lt_or_ge i n with hlt | hge
  · exact hlt
  · exact absurd (slot_of_le (hs.size ▸ hge)) hi

theorem sane_make (n : Nat) : (make n n).Sane n := by
  refine ⟨by simp [make], ?_, ?_⟩
  · show 0 < max 1 n
    omega
  · intro _ i
    have hslot : (make n n).slot i = .unposted := by
      unfold slot make
      by_cases hi : i < n
      · simp [hi]
      · simp [hi]
    rw [hslot]
    rfl

/-- A slot is set, and the queue goes along with it. -/
theorem Sane.setSlot {n i : Nat} {h : Handoff} (hs : h.Sane n) (hi : i < n)
    (slot : Slot) (ready : List (Option Nat))
    (hother : h.fed = true → ∀ j, j ≠ i →
      ready.count (some j) = h.ready.count (some j))
    (hself : h.fed = true →
      ready.count (some i) = if slot = .posted then 1 else 0) :
    Touches n i h ({ h with ready }.setSlot i slot) := by
  have hlen : i < h.receivers.length := by rw [hs.size]; exact hi
  have hslot := slot_setSlot (h := { h with ready }) hlen slot
  refine ⟨⟨by simp [Handoff.setSlot, hs.size], hs.capacity, ?_⟩, rfl, ?_, ?_⟩
  · intro hfed j
    rw [hslot]
    by_cases hj : j = i
    · subst hj
      rw [if_pos rfl]
      exact hself hfed
    · rw [if_neg hj]
      exact (hother hfed j hj).trans (hs.posted hfed j)
  · intro j _
    simp
  · intro j hj
    rw [hslot, if_neg hj]
    rfl

/-! ## What a worker does -/

/-- What asking for a segment comes to, for a receiver that is there. -/
inductive Receives (i : Nat) (h : Handoff) : Received → Handoff → Prop where
  | segment {s : Segment} (slot : h.slot i = .filled s) :
      Receives i h (.segment s) (h.setSlot i .unposted)
  | waits (slot : h.slot i = .posted) (fed : h.fed = true) :
      Receives i h .pending h
  | posts {h' : Handoff} (slot : h.slot i = .unposted)
      (fed : h.fed = true) (room : h.ready.length < h.capacity)
      (after : h' =
        { h with ready := h.ready ++ [some i] }.setSlot i .posted) :
      Receives i h .pending h'
  | full (slot : h.slot i = .unposted) (fed : h.fed = true)
      (full : h.capacity ≤ h.ready.length) : Receives i h .pending h
  | closed {h' : Handoff} (empty : (h.slot i).content = [])
      (fed : h.fed = false) (same : h' = h ∨ h' = h.setSlot i .unposted) :
      Receives i h .closed h'

theorem recv_spec {i : Nat} {h : Handoff} (hp : h.present i = true) :
    Receives i h (h.recv i).1 (h.recv i).2 := by
  unfold recv
  rw [if_neg (by simp [hp])]
  cases hslot : h.slot i with
  | filled s => exact .segment hslot
  | posted =>
    by_cases hfed : h.fed = true
    · simp only [hfed, if_true]
      exact .waits hslot hfed
    · simp only [hfed, Bool.false_eq_true, if_false]
      exact .closed (by rw [hslot]; rfl) (by simpa using hfed) (.inr rfl)
  | unposted =>
    by_cases hfed : h.fed = true
    · by_cases hroom : h.ready.length < h.capacity
      · simp only [hfed, Bool.not_true, Bool.false_eq_true, if_false, hroom,
          if_true]
        exact hfed ▸ .posts hslot hfed hroom rfl
      · simp only [hfed, Bool.not_true, Bool.false_eq_true, if_false, hroom]
        exact .full hslot hfed (Nat.le_of_not_lt hroom)
    · have hfed : h.fed = false := by simpa using hfed
      simp only [hfed, Bool.not_false, if_true]
      exact .closed (by rw [hslot]; rfl) hfed (.inl rfl)

theorem Sane.refl {n : Nat} {h : Handoff} (hs : h.Sane n) (i : Nat) :
    Touches n i h h :=
  ⟨hs, rfl, fun _ _ => rfl, fun _ _ => rfl⟩

/-- A segment is taken out of its slot. -/
theorem Sane.taken {n i : Nat} {h : Handoff} (hs : h.Sane n) (hi : i < n)
    (hslot : h.slot i ≠ .posted) :
    Touches n i h (h.setSlot i .unposted) := by
  refine hs.setSlot hi .unposted h.ready (fun _ _ _ => rfl) ?_
  intro hfed
  simpa [hslot] using hs.posted hfed i

/-- **Asking for a segment** touches nothing but the slot of the worker. -/
theorem Sane.receives {n i : Nat} {h h' : Handoff} {r : Received}
    (hs : h.Sane n) (hi : i < n) (hr : Receives i h r h') :
    Touches n i h h' := by
  cases hr with
  | segment slot => exact hs.taken hi (by simp [slot])
  | waits slot fed => exact hs.refl i
  | full slot fed full => exact hs.refl i
  | posts slot fed room after =>
    subst after
    refine hs.setSlot hi .posted _ ?_ ?_
    · intro _ j hj
      rw [List.count_append, List.count_singleton,
        if_neg (by simpa using Ne.symm hj)]
      rfl
    · intro hfed
      have hnone := hs.posted hfed i
      rw [slot] at hnone
      rw [List.count_append, hnone]
      simp
  | closed empty fed same =>
    rcases same with rfl | rfl
    · exact hs.refl i
    · refine hs.setSlot hi .unposted h.ready
        (fun _ _ _ => rfl) ?_
      intro hfed
      rw [fed] at hfed
      cases hfed

theorem count_closeSlot (i j : Nat) (h : Handoff) :
    (h.closeSlot i).ready.count (some j) =
      if j = i then 0 else h.ready.count (some j) := by
  unfold closeSlot
  induction h.ready with
  | nil => simp
  | cons p ready ih =>
    rw [List.map_cons, List.count_cons, List.count_cons, ih]
    by_cases hj : j = i
    · subst hj
      by_cases hp : p = some j
      · simp [hp]
      · simp [hp]
    · by_cases hp : p = some i
      · simp [hp, hj, Ne.symm hj]
      · simp [hp, hj]

/-- **A worker that was told to stop** takes what is in its slot and closes
it. -/
theorem takePending_spec {n i : Nat} {h : Handoff} (hs : h.Sane n)
    (hi : i < n) :
    Touches n i h (h.takePending i).2 ∧
      (h.takePending i).2.slot i = .unposted ∧
      (h.takePending i).2.present i = h.present i ∧
      (h.takePending i).1.toList = (h.slot i).content := by
  have hlen : i < h.receivers.length := by rw [hs.size]; exact hi
  unfold takePending
  cases hslot : h.slot i with
  | filled s =>
    refine ⟨hs.taken hi (by simp [hslot]), ?_, by simp, rfl⟩
    rw [slot_setSlot hlen, if_pos rfl]
  | unposted => exact ⟨hs.refl i, hslot, rfl, rfl⟩
  | posted =>
    refine ⟨hs.setSlot hi .unposted _ ?_ ?_, ?_, by simp; rfl, rfl⟩
    · intro _ j hj
      have hcount := count_closeSlot i j h
      rwa [if_neg hj] at hcount
    · intro _
      have hcount := count_closeSlot i i h
      rwa [if_pos rfl] at hcount
    · rw [slot_setSlot (by exact hlen), if_pos rfl]

/-- **A worker leaves**, and its seat is empty. -/
theorem leave_spec {n i : Nat} {h : Handoff} (hs : h.Sane n) (hi : i < n) :
    Touches n i h (h.leave i) ∧ (h.leave i).slot i = .unposted ∧
      (h.leave i).present i = false := by
  have hlen : i < h.receivers.length := by rw [hs.size]; exact hi
  have hslot (j : Nat) : (h.leave i).slot j =
      if j = i then .unposted else h.slot j := by
    unfold slot leave
    by_cases hj : j = i
    · subst hj
      simp [hlen]
    · simp [Ne.symm hj, hj]
  have hpresent (j : Nat) : (h.leave i).present j =
      if j = i then false else h.present j := by
    unfold present leave
    by_cases hj : j = i
    · subst hj
      simp [hlen]
    · simp [Ne.symm hj, hj]
  refine ⟨⟨⟨by simp [leave, hs.size], hs.capacity, ?_⟩, rfl, ?_, ?_⟩, ?_, ?_⟩
  · intro hfed j
    show (h.closeSlot i).ready.count (some j) = _
    rw [count_closeSlot, hslot]
    by_cases hj : j = i
    · simp [hj]
    · rw [if_neg hj, if_neg hj]
      exact hs.posted hfed j
  · intro j hj
    rw [hpresent, if_neg hj]
  · intro j hj
    rw [hslot, if_neg hj]
  · rw [hslot, if_pos rfl]
  · rw [hpresent, if_pos rfl]

/-! ## What the feeder does -/

/-- The slots in front of the first open one were closed. -/
theorem firstOpen_cases (ready : List (Option Nat)) :
    (∃ i rest, firstOpen ready = (some i, rest) ∧
      ∀ j, ready.count (some j) =
        rest.count (some j) + if j = i then 1 else 0) ∨
    firstOpen ready = (none, []) ∧ ∀ j, ready.count (some j) = 0 := by
  induction ready with
  | nil => exact .inr ⟨rfl, fun j => rfl⟩
  | cons p ready ih =>
    cases p with
    | none =>
      rcases ih with ⟨i, rest, he, hcount⟩ | ⟨he, hcount⟩
      · refine .inl ⟨i, rest, he, ?_⟩
        intro j
        rw [← hcount j]
        simp
      · refine .inr ⟨he, ?_⟩
        intro j
        rw [← hcount j]
        simp
    | some i =>
      refine .inl ⟨i, ready, rfl, ?_⟩
      intro j
      rw [List.count_cons]
      by_cases hj : j = i
      · simp [hj]
      · simp [hj, Ne.symm hj]

/-- What handing a segment over comes to. -/
inductive Hands (n : Nat) (s : Segment) (h : Handoff) :
    Sent → Handoff → Prop where
  /-- The segment is in a slot that was posted. -/
  | sent {i : Nat} {h' : Handoff} (slot : h.slot i = .posted)
      (touches : Touches n i h h') (slot' : h'.slot i = .filled s)
      (present : h'.present i = h.present i) (queue : none ∈ h'.ready →
        none ∈ h.ready) : Hands n s h (.sent i) h'
  | pending {h' : Handoff} (idle : ∀ i, h.slot i ≠ .posted) :
      Hands n s h .pending h'
  | refused {r : Sent} {h' : Handoff} (fails : ∀ i, r ≠ .sent i)
      (waits : r ≠ .pending) (same : h'.fed = h.fed)
      (sane : h'.Sane n) (seats : ∀ j, h'.present j = h.present j ∧
        h'.slot j = h.slot j) (lonely : h.fed = true →
          h.attended = false) : Hands n s h r h'

theorem firstOpen_subset (ready : List (Option Nat)) :
    (firstOpen ready).2 ⊆ ready := by
  induction ready with
  | nil => exact fun _ h => h
  | cons p ready ih =>
    cases p with
    | none => exact fun a h => List.mem_cons_of_mem _ (ih h)
    | some i => exact fun a h => List.mem_cons_of_mem _ h

/-- **Handing a segment over** puts it into a slot that is posted and
empty, or finds none. -/
theorem hands_spec {n : Nat} (s : Segment) {h : Handoff} (hs : h.Sane n) :
    Hands n s h (h.send s).1 (h.send s).2 := by
  unfold send
  by_cases hfed : h.fed = true
  · rw [if_neg (by simp [hfed])]
    have hsub := firstOpen_subset h.ready
    rcases firstOpen_cases h.ready with ⟨i, rest, he, hcount⟩ | ⟨he, hcount⟩
    · rw [he] at hsub ⊢
      have hone := hs.posted hfed i
      rw [hcount i, if_pos rfl] at hone
      have hslot : h.slot i = .posted := by
        by_cases hp : h.slot i = .posted
        · exact hp
        · rw [if_neg hp] at hone
          omega
      have hi : i < n := hs.lt (by simp [hslot])
      have hlen : i < h.receivers.length := by rw [hs.size]; exact hi
      have hset := slot_setSlot (h := { h with ready := rest }) hlen
        (.filled s)
      refine .sent hslot (hs.setSlot hi (.filled s) _ ?_ ?_) ?_ ?_ ?_
      · intro _ j hj
        have := hcount j
        rw [if_neg hj] at this
        omega
      · intro _
        rw [hslot, if_pos rfl] at hone
        rw [if_neg (by simp)]
        omega
      · rw [hset, if_pos rfl]
      · simp
      · exact fun hm => hsub hm
    · rw [he]
      have hidle (i : Nat) : h.slot i ≠ .posted := by
        intro hp
        have hone := hs.posted hfed i
        rw [hcount i, hp] at hone
        simp at hone
      by_cases hatt : h.attended = true
      · simp only [hatt, if_true]
        exact .pending hidle
      · simp only [hatt]
        refine .refused (by simp) (by simp) rfl
          ⟨hs.size, hs.capacity, ?_⟩ (fun _ => ⟨rfl, rfl⟩)
          (fun _ => by simpa using hatt)
        intro _ j
        rw [slot_ready, if_neg (hidle j)]
        rfl
  · rw [if_pos (by simp [hfed])]
    exact .refused (by simp) (by simp) rfl hs (fun _ => ⟨rfl, rfl⟩)
      fun h => absurd h hfed

theorem sane_close {n : Nat} {h : Handoff} (hs : h.Sane n) :
    h.close.Sane n :=
  ⟨hs.size, hs.capacity, by simp [close]⟩

end Handoff

namespace Barrier

/-- What a worker may find, and have learned, at its end of the barrier.
`loose` says that the owner may have left before it sent the tokens. -/
structure Signal.Fits (owner : Owner) (loose : Prop) (s : Signal) :
    Prop where
  waiting : s.token = .waiting ↔ owner = .idle ∨ owner = .begun
  lost : s.token = .lost → loose
  learned : ∀ told, s.learned = some told →
    s.token = if told then .sent else .lost

/-- The tokens are those that the owner has sent. -/
structure Sane (n : Nat) (loose : Prop) (b : Barrier) : Prop where
  size : b.signals.length = n
  capacity : n ≤ b.capacity
  signals : ∀ s ∈ b.signals, s.Fits b.owner loose

theorem sane_make (n : Nat) (loose : Prop) : (make n).Sane n loose := by
  refine ⟨by simp [make], Nat.le_max_right 1 n, ?_⟩
  intro s hs
  obtain ⟨_, rfl⟩ := List.mem_replicate.1 hs
  exact ⟨by simp [make], by simp, by simp⟩

theorem Sane.loosen {n : Nat} {loose loose' : Prop} {b : Barrier}
    (h : b.Sane n loose) (hl : loose → loose') : b.Sane n loose' :=
  { h with signals := fun s hs =>
      { h.signals s hs with lost := fun ht => hl ((h.signals s hs).lost ht) } }

/-! ## Workers -/

/-- What worker `i` has found at its end. -/
def token (b : Barrier) (i : Nat) : Token :=
  match b.signals[i]? with
  | some s => s.token
  | none => .waiting

/-- Only what worker `i` has learned has changed, or that it holds its
signal. -/
structure Touches (n i : Nat) (loose : Prop) (b b' : Barrier) : Prop where
  sane : b'.Sane n loose
  owner : b'.owner = b.owner
  held : ∀ j, j ≠ i → b'.held j = b.held j
  token : ∀ j, b'.token j = b.token j

/-- What asking whether to stop comes to, for a worker that holds its
signal. -/
inductive Judges (i : Nat) (b : Barrier) : Verdict → Prop where
  | waits (token : b.token i = .waiting) : Judges i b .pending
  | told (token : b.token i = .sent) : Judges i b (.stop true)
  | lost (token : b.token i = .lost) : Judges i b (.stop false)

/-- A signal is set, but for its token. -/
theorem token_set {i : Nat} {b : Barrier} {s u : Signal}
    (hs : b.signals[i]? = some s) (ht : u.token = s.token) (j : Nat) :
    token { b with signals := b.signals.set i u } j = b.token j := by
  obtain ⟨hi, _⟩ := List.getElem?_eq_some_iff.1 hs
  by_cases hj : i = j
  · subst hj
    simp [Barrier.token, hs, List.getElem?_set_self hi, ht]
  · simp [Barrier.token, hj]

@[simp] theorem token_shouldStop (i : Nat) (b : Barrier) (j : Nat) :
    (b.shouldStop i).2.token j = b.token j := by
  unfold shouldStop
  split
  · rfl
  · rename_i s hs
    split
    · rfl
    · split
      · rfl
      · rfl
      · exact token_set (u := { s with learned := some true }) hs rfl j
      · exact token_set (u := { s with learned := some false }) hs rfl j

@[simp] theorem token_giveBack (i : Nat) (b : Barrier) (j : Nat) :
    (b.giveBack i).token j = b.token j := by
  simp only [Barrier.token, giveBack, List.getElem?_modify]
  cases b.signals[j]? with
  | none => rfl
  | some s => by_cases hij : i = j <;> simp [hij]

@[simp] theorem token_done (i : Nat) (b : Barrier) (j : Nat) :
    (b.done i).token j = b.token j :=
  token_giveBack i b j

theorem Sane.set {n i : Nat} {loose : Prop} {b : Barrier}
    (h : b.Sane n loose) {s s' : Signal} (hs : b.signals[i]? = some s)
    (ht : s'.token = s.token) (hf : s'.Fits b.owner loose) :
    Touches n i loose b { b with signals := b.signals.set i s' } := by
  obtain ⟨hi, _⟩ := List.getElem?_eq_some_iff.1 hs
  refine ⟨⟨by simp [h.size], h.capacity, ?_⟩, rfl, ?_, token_set hs ht⟩
  · intro u hu
    rcases List.mem_or_eq_of_mem_set hu with hmem | rfl
    · exact h.signals u hmem
    · exact hf
  · intro j hj
    simp [Barrier.held, Ne.symm hj]

theorem Sane.refl {n : Nat} {loose : Prop} {b : Barrier}
    (h : b.Sane n loose) (i : Nat) : Touches n i loose b b :=
  ⟨h, rfl, fun _ _ => rfl, fun _ => rfl⟩

theorem exists_of_held {b : Barrier} {i : Nat} (h : b.held i = true) :
    ∃ s, b.signals[i]? = some s ∧ s.held = true := by
  unfold held at h
  split at h
  · rename_i s hs
    exact ⟨s, hs, h⟩
  · cases h

/-- **Asking whether to stop** tells what the owner has sent, and changes
nothing but what the worker has learned. -/
theorem shouldStop_spec {n i : Nat} {loose : Prop} {b : Barrier}
    (h : b.Sane n loose) (hi : b.held i = true) :
    Judges i b (b.shouldStop i).1 ∧
      Touches n i loose b (b.shouldStop i).2 ∧
      (b.shouldStop i).2.held i = true ∧
      (b.shouldStop i).2.inbox = b.inbox := by
  obtain ⟨⟨token, learned, held⟩, hs, rfl⟩ := exists_of_held hi
  obtain ⟨hlt, _⟩ := List.getElem?_eq_some_iff.1 hs
  have hfit := h.signals _ (List.mem_of_getElem? hs)
  have htoken : b.token i = token := by simp [Barrier.token, hs]
  have hset (told : Bool) : Barrier.held { b with
      signals := b.signals.set i ⟨token, some told, true⟩ } i = true := by
    simp [Barrier.held, hlt]
  unfold shouldStop
  rw [hs]
  simp only [Bool.not_true, Bool.false_eq_true, if_false]
  cases learned with
  | some told =>
    have ht := hfit.learned told rfl
    refine ⟨?_, h.refl i, hi, rfl⟩
    cases told with
    | true => exact .told (htoken.trans ht)
    | false => exact .lost (htoken.trans ht)
  | none =>
    cases token with
    | waiting => exact ⟨.waits htoken, h.refl i, hi, rfl⟩
    | sent =>
      refine ⟨.told htoken, h.set hs rfl ?_, hset true, rfl⟩
      exact ⟨hfit.waiting, hfit.lost, by simp⟩
    | lost =>
      refine ⟨.lost htoken, h.set hs rfl ?_, hset false, rfl⟩
      exact ⟨hfit.waiting, hfit.lost, by simp⟩

/-- A worker waits as long as no token was sent or lost. -/
theorem shouldStop_eq_pending_iff {n i : Nat} {loose : Prop} {b : Barrier}
    (h : b.Sane n loose) (hi : b.held i = true) :
    (b.shouldStop i).1 = .pending ↔ b.token i = .waiting := by
  obtain ⟨hj, _⟩ := shouldStop_spec h hi
  generalize (b.shouldStop i).1 = v at hj ⊢
  cases hj with
  | waits token => simp [token]
  | told token => simp [token]
  | lost token => simp [token]

/-- **A signal is given back**, with or without an acknowledgement. -/
theorem giveBack_spec {n i : Nat} {loose : Prop} {b : Barrier}
    (h : b.Sane n loose) (hi : b.held i = true) :
    Touches n i loose b (b.giveBack i) ∧
      (b.giveBack i).held i = false := by
  obtain ⟨s, hs, _⟩ := exists_of_held hi
  obtain ⟨hlt, _⟩ := List.getElem?_eq_some_iff.1 hs
  have heq : b.signals.modify i ({ · with held := false }) =
      b.signals.set i { s with held := false } := by
    apply List.ext_getElem?
    intro j
    rw [List.getElem?_modify]
    by_cases hj : i = j
    · subst hj
      rw [hs, List.getElem?_set_self hlt]
      simp
    · simp [hj]
  have hfit := h.signals s (List.mem_of_getElem? hs)
  unfold giveBack
  rw [heq]
  refine ⟨h.set hs rfl ⟨hfit.waiting, hfit.lost, hfit.learned⟩, ?_⟩
  simp [held, hlt]

theorem done_spec {n i : Nat} {loose : Prop} {b : Barrier}
    (h : b.Sane n loose) (hi : b.held i = true) :
    Touches n i loose b (b.done i) ∧ (b.done i).held i = false ∧
      (b.inbox.length < n →
        (b.done i).inbox.length = b.inbox.length + 1) := by
  obtain ⟨htouch, hheld⟩ := giveBack_spec h hi
  refine ⟨⟨⟨htouch.sane.size, h.capacity, htouch.sane.signals⟩,
    htouch.owner, htouch.held, htouch.token⟩, hheld, ?_⟩
  intro hlt
  have hroom := Nat.lt_of_lt_of_le hlt h.capacity
  simp [done, hroom]

/-! ## The owner -/

/-- The owner goes on, and the tokens that were sent stay sent. -/
theorem Sane.goOn {n : Nat} {loose : Prop} {b : Barrier}
    (h : b.Sane n loose) {owner : Owner} (inbox : List Nat)
    (hw : owner = .idle ∨ owner = .begun ↔
      b.owner = .idle ∨ b.owner = .begun) :
    Sane n loose { b with owner, inbox } :=
  ⟨h.size, h.capacity, fun s hs =>
    { h.signals s hs with
      waiting := (h.signals s hs).waiting.trans hw.symm }⟩

theorem sane_start {n : Nat} {loose : Prop} {b : Barrier}
    (h : b.Sane n loose) : b.start.Sane n loose := by
  unfold start
  split
  · rename_i hidle
    exact h.goOn b.inbox (by simp [hidle])
  · exact h

@[simp] theorem held_settle (token : Token) (b : Barrier) (j : Nat) :
    (b.settle token).held j = b.held j := by
  unfold held settle
  rw [List.getElem?_map]
  cases b.signals[j]? with
  | none => rfl
  | some s =>
    show Signal.held (if s.token = .waiting then { s with token } else s) = _
    split <;> rfl

/-- As long as the owner has not sent the tokens, every worker waits. -/
theorem Sane.token_waiting {n : Nat} {loose : Prop} {b : Barrier}
    (h : b.Sane n loose) (hw : b.owner = .idle ∨ b.owner = .begun)
    (j : Nat) : b.token j = .waiting := by
  unfold token
  split
  · rename_i s hs
    exact (h.signals s (List.mem_of_getElem? hs)).waiting.2 hw
  · rfl

theorem sane_settle {n : Nat} {loose : Prop} {b : Barrier}
    (h : b.Sane n loose) (hw : b.owner = .idle ∨ b.owner = .begun)
    {token : Token} {owner : Owner} (ht : token ≠ .waiting)
    (hlost : token = .lost → loose)
    (ho : ¬ (owner = .idle ∨ owner = .begun)) :
    Sane n loose { b.settle token with owner } := by
  refine ⟨by simp [settle, h.size], h.capacity, ?_⟩
  intro s hs
  obtain ⟨u, hu, rfl⟩ := List.mem_map.1 hs
  have hfit := h.signals u hu
  have hwait := hfit.waiting.2 hw
  rw [if_pos hwait]
  refine ⟨by simp [ht, ho], hlost, ?_⟩
  intro told hl
  have := hfit.learned told hl
  rw [hwait] at this
  cases told <;> cases this

/-- The tokens are sent. -/
theorem sane_announce {n : Nat} {loose : Prop} {b : Barrier}
    (h : b.Sane n loose) (hw : b.owner = .begun) :
    b.announce.Sane n loose :=
  sane_settle h (.inr hw) (by simp) (by simp) (by simp)

/-- **The owner leaves**: who waits for a token learns that none comes. -/
theorem release_spec {n : Nat} {loose : Prop} {b : Barrier}
    (h : b.Sane n loose)
    (hloose : b.owner = .idle ∨ b.owner = .begun → loose) :
    b.release.2.Sane n loose ∧ (∀ j, b.release.2.held j = b.held j) ∧
      (∀ j, b.token j ≠ .waiting → b.release.2.token j = b.token j) ∧
      b.release.2.owner = .released := by
  have hearly (hw : b.owner = .idle ∨ b.owner = .begun) :
      Sane n loose { b.settle .lost with owner := .released } ∧
      (∀ j, held { b.settle .lost with owner := .released } j =
        b.held j) ∧
      (∀ j, b.token j ≠ .waiting →
        token { b.settle .lost with owner := .released } j = b.token j) ∧
      Owner.released = .released := by
    refine ⟨sane_settle h hw (by simp) (fun _ => hloose hw) (by simp),
      held_settle .lost b, ?_, rfl⟩
    intro j hj
    exact absurd (h.token_waiting hw j) hj
  unfold release
  cases ho : b.owner with
  | released => exact ⟨h, fun _ => rfl, fun _ _ => rfl, ho⟩
  | waiting received =>
    exact ⟨h.goOn b.inbox (by simp [ho]), fun _ => rfl, fun _ _ => rfl,
      rfl⟩
  | idle => exact hearly (.inl ho)
  | begun => exact hearly (.inr ho)

@[simp] theorem token_start (b : Barrier) (j : Nat) :
    b.start.token j = b.token j := by
  unfold start
  split <;> rfl

/-- An owner that leaves tells nobody to stop. -/
theorem token_release {b : Barrier} {j : Nat}
    (h : b.release.2.token j = .sent) : b.token j = .sent := by
  have hearly (h : token { b.settle .lost with owner := .released } j =
      .sent) : b.token j = .sent := by
    simp only [Barrier.token, settle, List.getElem?_map] at h ⊢
    cases hs : b.signals[j]? with
    | none => simp [hs] at h
    | some s =>
      simp only [hs, Option.map_some] at h
      by_cases hw : s.token = .waiting
      · simp [hw] at h
      · simpa [hw] using h
  unfold release at h
  cases ho : b.owner with
  | released =>
    rw [ho] at h
    exact h
  | waiting received =>
    rw [ho] at h
    exact h
  | idle => exact hearly (by rwa [ho] at h)
  | begun => exact hearly (by rwa [ho] at h)

/-- How many acknowledgements were counted, as long as the owner counts
them. -/
def Owner.received? : Owner → Option Nat
  | .idle | .begun => some 0
  | .waiting received => some received
  | .released => none

/-- What counting comes to, for an owner that has sent the tokens. -/
inductive Counts (b : Barrier) (received : Nat) :
    Option (Option Nat × Barrier) → Prop where
  | waits (empty : b.inbox = []) (attended : b.attended = true) :
      Counts b received none
  | more {a : Nat} {inbox : List Nat} (taken : b.inbox = a :: inbox)
      (lt : received + 1 < b.workers) :
      Counts b received
        (some (none, { b with inbox, owner := .waiting (received + 1) }))
  | all {a : Nat} {inbox : List Nat} (taken : b.inbox = a :: inbox)
      (le : b.workers ≤ received + 1) :
      Counts b received
        (some (some (received + 1), { b with inbox, owner := .released }))
  /-- No worker is left. -/
  | nobody (empty : b.inbox = []) (deserted : b.attended = false) :
      Counts b received
        (some (some received, { b with owner := .released }))

theorem count_spec {b : Barrier} {received : Nat}
    (h : b.owner = .waiting received) : Counts b received b.count := by
  unfold count
  rw [h]
  cases hi : b.inbox with
  | nil =>
    by_cases ha : b.attended = true
    · simp only [ha, if_true]
      exact .waits hi ha
    · simp only [ha]
      exact hi ▸ .nobody hi (by simpa using ha)
  | cons a inbox =>
    by_cases hle : b.workers ≤ received + 1
    · simp only [hle, if_true]
      exact .all hi hle
    · simp only [hle, if_false]
      exact .more hi (by omega)

end Barrier
end Stripe
