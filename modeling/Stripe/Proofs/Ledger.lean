import Stripe.Proofs.Handing

/-!
# The ledger of a hand-off

Beside a hand-off a ledger is kept of what its users have seen: which
segments were put into the slot of each receiver, which of them the
receiver was answered with, and which were still in the slot when it left.
It also notes when each receiver has posted its slot. `exactly_once` is
what the ledger shows after every row of commands: the books balance, so
no segment is lost, duplicated or given to somebody else, and the slots
are filled in the order in which they were posted.

A future that is polled again is the same command again, and one that is
dropped is a command that does not come again.
-/

namespace Stripe.Handoff

/-! ## What a command brings to the books -/

/-- The segments that a command has put into the slot of a receiver. -/
def Command.puts (i : Nat) : Command → Reply → List Segment
  | .send s, .sent (.sent j) => if j = i then [s] else []
  | _, _ => []

/-- The segments that a receiver was answered with. -/
def Command.takes (i : Nat) : Command → Reply → List Segment
  | .recv j, .received (.segment s) => if j = i then [s] else []
  | .takePending j, .taken s => if j = i then s.toList else []
  | _, _ => []

/-- The segments that a receiver leaves behind in its slot. -/
def Command.loses (i : Nat) (h : Handoff) : Command → List Segment
  | .leave j => if j = i then (h.slot i).content else []
  | _ => []

/-- A receiver posts its slot with this command. -/
def Command.posts (i : Nat) (h : Handoff) (c : Command) : Prop :=
  c = .recv i ∧ h.slot i ≠ .posted ∧ (h.perform c).2.slot i = .posted

instance (i : Nat) (h : Handoff) (c : Command) : Decidable (c.posts i h) :=
  inferInstanceAs (Decidable (_ ∧ _))

/-- A hand-off, and what its users have seen of it. -/
structure Ledger where
  handoff : Handoff
  /-- How many commands were carried out. -/
  time : Nat
  /-- When each receiver has last posted its slot. -/
  since : Nat → Nat
  /-- The segments that were put into the slot of each receiver, as they
  were sent. -/
  given : Nat → List Segment
  /-- The segments that each receiver was answered with. -/
  taken : Nat → List Segment
  /-- The segments that each receiver has left behind in its slot. -/
  lost : Nat → List Segment

namespace Ledger

/-- Carries out a command, and enters what has come of it. -/
def next (l : Ledger) (c : Command) : Ledger where
  handoff := (l.handoff.perform c).2
  time := l.time + 1
  since i := if c.posts i l.handoff then l.time else l.since i
  given i := l.given i ++ c.puts i (l.handoff.perform c).1
  taken i := l.taken i ++ c.takes i (l.handoff.perform c).1
  lost i := l.lost i ++ c.loses i l.handoff

/-- The ledger of a new hand-off, which has one receiver, after a row of
commands. -/
def after (workers : Nat) (cs : List Command) : Ledger :=
  cs.foldl next
    ⟨make workers 1, 0, fun _ => 0, fun _ => [], fun _ => [], fun _ => []⟩

end Ledger

/-! ## The queue -/

/-- The receivers whose slots are open in the queue, oldest first. -/
def waiting (h : Handoff) : List Nat := h.ready.filterMap id

theorem Sane.mem_waiting {n i : Nat} {h : Handoff} (hs : h.Sane n)
    (hf : h.fed = true) : i ∈ h.waiting ↔ h.slot i = .posted := by
  have hmem : i ∈ h.waiting ↔ some i ∈ h.ready := by simp [waiting]
  rw [hmem, ← List.count_pos_iff, hs.posted hf i]
  split <;> simp [*]

theorem waiting_closeSlot (i : Nat) (h : Handoff) :
    (h.closeSlot i).waiting = h.waiting.filter (· ≠ i) := by
  unfold waiting closeSlot
  induction h.ready with
  | nil => rfl
  | cons p ready ih =>
    cases p with
    | none => simpa using ih
    | some j => by_cases hj : j = i <;> simp_all

/-- The first open slot belongs to the first receiver that waits, and
nobody who waits is thrown away with the closed slots. -/
theorem firstOpen_waiting (ready : List (Option Nat)) :
    ready.filterMap id =
      (firstOpen ready).1.toList ++ (firstOpen ready).2.filterMap id ∧
    (firstOpen ready).2.length ≤ ready.length := by
  induction ready with
  | nil => exact ⟨rfl, Nat.le_refl 0⟩
  | cons p ready ih =>
    cases p with
    | none => exact ⟨by simpa [firstOpen] using ih.1, Nat.le_succ_of_le ih.2⟩
    | some i => exact ⟨rfl, Nat.le_succ _⟩

/-- What sending comes to, with all that it leaves. -/
inductive Sends (s : Segment) (h : Handoff) : Sent → Handoff → Prop where
  | gone (fed : h.fed = false) : Sends s h .gone h
  | sent {i : Nat} {rest : List (Option Nat)} (fed : h.fed = true)
      (first : h.waiting = i :: rest.filterMap id)
      (le : rest.length ≤ h.ready.length) :
      Sends s h (.sent i) ({ h with ready := rest }.setSlot i (.filled s))
  | waits (fed : h.fed = true) (nobody : h.waiting = [])
      (attended : h.attended = true) :
      Sends s h .pending { h with ready := [] }
  | deserted (fed : h.fed = true) (nobody : h.waiting = [])
      (attended : h.attended = false) :
      Sends s h (.failed .channelError) { h with ready := [] }

theorem send_spec (s : Segment) (h : Handoff) :
    Sends s h (h.send s).1 (h.send s).2 := by
  unfold send
  by_cases hfed : h.fed = true
  · rw [if_neg (by simp [hfed])]
    obtain ⟨hwaiting, hle⟩ := firstOpen_waiting h.ready
    rcases firstOpen_cases h.ready with ⟨i, rest, he, _⟩ | ⟨he, _⟩
    · rw [he] at hwaiting hle ⊢
      exact .sent hfed hwaiting hle
    · rw [he] at hwaiting ⊢
      by_cases hatt : h.attended = true
      · simp only [hatt, if_true]
        exact .waits hfed hwaiting hatt
      · simp only [hatt]
        exact .deserted hfed hwaiting (by simpa using hatt)
  · rw [if_pos (by simpa using hfed)]
    exact .gone (by simpa using hfed)

/-! ## What every command keeps -/

/-- What holds of a hand-off for `workers` workers at all times. -/
structure Tidy (workers : Nat) (h : Handoff) : Prop where
  sane : h.Sane h.receivers.length
  capacity : h.capacity = max 1 workers
  room : h.ready.length ≤ h.capacity
  /-- Who has left has no slot. -/
  vacant : ∀ i, h.present i = false → h.slot i = .unposted
  swept : h.fed = false → h.ready = []

theorem tidy_make (workers : Nat) : (make workers 1).Tidy workers := by
  have hslot (i : Nat) : (make workers 1).slot i = .unposted := by
    cases i <;> rfl
  refine ⟨⟨rfl, ?_, ?_⟩, rfl, Nat.zero_le _, fun i _ => hslot i, fun _ => rfl⟩
  · show 0 < max 1 workers
    omega
  · intro _ i
    rw [hslot]
    rfl

theorem present_of_lt {h : Handoff} {i : Nat} (hp : h.present i = true) :
    i < h.receivers.length := by
  rcases Nat.lt_or_ge i h.receivers.length with hlt | hge
  · exact hlt
  · simp [present, List.getElem?_eq_none hge] at hp

theorem Tidy.present {workers i : Nat} {h : Handoff} (ht : h.Tidy workers)
    (hs : h.slot i ≠ .unposted) : h.present i = true := by
  by_cases hp : h.present i = true
  · exact hp
  · exact absurd (ht.vacant i (by simpa using hp)) hs

/-- A queue in which nobody waits may be thrown away. -/
theorem Sane.sweep {n : Nat} {h : Handoff} (hs : h.Sane n)
    (hf : h.fed = true) (hw : h.waiting = []) :
    Sane n { h with ready := [] } := by
  refine ⟨hs.size, hs.capacity, fun _ i => ?_⟩
  have hi : h.slot i ≠ .posted := by
    rw [Ne, ← hs.mem_waiting hf, hw]
    exact List.not_mem_nil
  rw [slot_ready, if_neg hi]
  rfl

/-- Only receiver `i` was touched, and the queue has become longer only if
there was room. -/
theorem Tidy.touched {workers i : Nat} {h h' : Handoff}
    (ht : h.Tidy workers) (touches : Touches h.receivers.length i h h')
    (hcap : h'.capacity = h.capacity)
    (hqueue : h'.ready.length ≤ h.ready.length ∨
      h.fed = true ∧ h'.ready.length ≤ h.capacity)
    (hvacant : h'.present i = false → h'.slot i = .unposted) :
    h'.Tidy workers := by
  refine ⟨by rw [touches.sane.size]; exact touches.sane,
    hcap.trans ht.capacity, ?_, fun j hp => ?_, fun hf => ?_⟩
  · rw [hcap]
    rcases hqueue with hle | ⟨_, hle⟩
    · exact Nat.le_trans hle ht.room
    · exact hle
  · by_cases hj : j = i
    · subst hj
      exact hvacant hp
    · rw [touches.slot j hj]
      rw [touches.present j hj] at hp
      exact ht.vacant j hp
  · rw [touches.fed] at hf
    rcases hqueue with hle | ⟨hfed, _⟩
    · rw [ht.swept hf] at hle
      exact List.eq_nil_of_length_eq_zero (Nat.le_zero.1 hle)
    · rw [hf] at hfed
      cases hfed

theorem Tidy.send {workers : Nat} {h : Handoff} (ht : h.Tidy workers)
    (s : Segment) : (h.send s).2.Tidy workers := by
  have hands := hands_spec s ht.sane
  have sends := send_spec s h
  generalize (h.send s).1 = r, (h.send s).2 = h' at hands sends
  have hsweep (fed : h.fed = true) (nobody : h.waiting = []) :
      Tidy workers { h with ready := [] } :=
    ⟨ht.sane.sweep fed nobody, ht.capacity, Nat.zero_le _, ht.vacant,
      fun _ => rfl⟩
  cases sends with
  | gone fed => exact ht
  | waits fed nobody attended => exact hsweep fed nobody
  | deserted fed nobody attended => exact hsweep fed nobody
  | sent fed first le =>
    cases hands with
    | refused fails => exact absurd rfl (fails _)
    | sent slot touches =>
      refine ht.touched touches rfl (.inl le) fun hp => ?_
      rw [present_setSlot, present_ready, ht.present (by simp [slot])] at hp
      cases hp

theorem Tidy.recv {workers i : Nat} {h : Handoff} (ht : h.Tidy workers) :
    (h.recv i).2.Tidy workers := by
  by_cases hp : h.present i = true
  · have hr := recv_spec hp
    have touches := ht.sane.receives (present_of_lt hp) hr
    have hthere {h' : Handoff} (h₁ : h'.present i = h.present i) :
        h'.present i = false → h'.slot i = .unposted := by
      intro h₂
      rw [h₁, hp] at h₂
      cases h₂
    generalize (h.recv i).1 = r, (h.recv i).2 = h' at hr touches
    cases hr with
    | waits slot fed => exact ht
    | full slot fed full => exact ht
    | segment slot =>
      exact ht.touched touches rfl (.inl (Nat.le_refl _)) (hthere (by simp))
    | posts slot fed room after =>
      subst after
      refine ht.touched touches rfl (.inr ⟨fed, ?_⟩) (hthere (by simp))
      simp only [setSlot, List.length_append]
      exact room
    | closed empty fed same =>
      rcases same with rfl | rfl
      · exact ht
      · exact ht.touched touches rfl (.inl (Nat.le_refl _))
          (hthere (by simp))
  · simpa [Handoff.recv, hp] using ht

theorem length_closeSlot (i : Nat) (h : Handoff) :
    (h.closeSlot i).ready.length = h.ready.length := by
  simp [closeSlot]

theorem Tidy.takePending {workers i : Nat} {h : Handoff}
    (ht : h.Tidy workers) (hp : h.present i = true) :
    (h.takePending i).2.Tidy workers := by
  obtain ⟨touches, hslot, -, -⟩ := takePending_spec ht.sane (present_of_lt hp)
  refine ht.touched touches ?_ (.inl (Nat.le_of_eq ?_)) fun _ => hslot
  · unfold Handoff.takePending
    cases h.slot i <;> rfl
  · unfold Handoff.takePending
    cases h.slot i with
    | unposted => rfl
    | filled s => rfl
    | posted => exact length_closeSlot i h

theorem Tidy.leave {workers i : Nat} {h : Handoff} (ht : h.Tidy workers)
    (hp : h.present i = true) : (h.leave i).Tidy workers := by
  obtain ⟨touches, hslot, -⟩ := leave_spec ht.sane (present_of_lt hp)
  exact ht.touched touches rfl (.inl (Nat.le_of_eq (length_closeSlot i h)))
    fun _ => hslot

/-- A new receiver has no slot yet, and changes nothing for the others. -/
theorem slot_clone (h : Handoff) (j : Nat) : h.clone.2.slot j = h.slot j := by
  unfold slot clone
  rcases Nat.lt_trichotomy j h.receivers.length with hlt | rfl | hgt
  · simp [List.getElem?_append_left hlt]
  · simp
  · have hnew : (h.receivers ++ [⟨true, .unposted⟩])[j]? = none :=
      List.getElem?_eq_none (by simp only [List.length_append,
        List.length_singleton]; omega)
    rw [hnew, List.getElem?_eq_none (Nat.le_of_lt hgt)]

theorem present_clone {h : Handoff} {i : Nat} (hi : i < h.receivers.length) :
    h.clone.2.present i = h.present i := by
  unfold present clone
  rw [List.getElem?_append_left hi]

theorem Tidy.clone {workers : Nat} {h : Handoff} (ht : h.Tidy workers) :
    h.clone.2.Tidy workers := by
  refine ⟨⟨rfl, ht.sane.capacity, fun hf i => ?_⟩, ht.capacity, ht.room,
    fun i hp => ?_, ht.swept⟩
  · rw [slot_clone]
    exact ht.sane.posted hf i
  · rw [slot_clone]
    refine ht.vacant i ?_
    by_cases h₁ : h.present i = true
    · rw [present_clone (present_of_lt h₁), h₁] at hp
      cases hp
    · simpa using h₁

theorem Tidy.perform {workers : Nat} {h : Handoff} (ht : h.Tidy workers)
    (c : Command) : (h.perform c).2.Tidy workers := by
  cases c with
  | send s => exact ht.send s
  | recv i => exact ht.recv
  | takePending i =>
    by_cases hp : h.present i = true
    · simpa [Handoff.perform, hp] using ht.takePending hp
    · simpa [Handoff.perform, hp] using ht
  | clone i =>
    by_cases hp : h.present i = true
    · simpa [Handoff.perform, hp] using ht.clone
    · simpa [Handoff.perform, hp] using ht
  | leave i =>
    by_cases hp : h.present i = true
    · simpa [Handoff.perform, hp] using ht.leave hp
    · simpa [Handoff.perform, hp] using ht
  | close =>
    exact ⟨sane_close ht.sane, ht.capacity, Nat.zero_le _, ht.vacant,
      fun _ => rfl⟩

/-! ## The books -/

/-- A segment that is sent comes into the slot that it was sent to. -/
theorem Tidy.flow_send {workers : Nat} {h : Handoff} (ht : h.Tidy workers)
    (s : Segment) (i : Nat) :
    (h.slot i).content ++ (Command.send s).puts i (h.perform (.send s)).1 =
      ((h.perform (.send s)).2.slot i).content := by
  have hands := hands_spec s ht.sane
  have sends := send_spec s h
  simp only [Handoff.perform, Command.puts]
  generalize (h.send s).1 = r, (h.send s).2 = h' at hands sends
  cases sends with
  | gone fed => simp
  | waits fed nobody attended => simp
  | deserted fed nobody attended => simp
  | @sent j rest fed first le =>
    cases hands with
    | refused fails => exact absurd rfl (fails _)
    | sent slot touches slot' =>
      by_cases hj : j = i
      · subst hj
        simp only [slot, slot', if_true, Slot.content]
        rfl
      · simp [hj, touches.slot i (Ne.symm hj)]

/-- A receiver that asks is answered with what was in its slot. -/
theorem Tidy.flow_recv {workers : Nat} {h : Handoff} (ht : h.Tidy workers)
    (j i : Nat) :
    (h.slot i).content =
      (Command.recv j).takes i (h.perform (.recv j)).1 ++
        ((h.perform (.recv j)).2.slot i).content := by
  simp only [Handoff.perform, Command.takes]
  by_cases hp : h.present j = true
  · have hr := recv_spec hp
    have touches := ht.sane.receives (present_of_lt hp) hr
    have hset := slot_setSlot (present_of_lt hp)
    generalize (h.recv j).1 = r, (h.recv j).2 = h' at hr touches
    by_cases hj : j = i
    · subst hj
      cases hr with
      | segment slot => simp [slot, hset, Slot.content]
      | waits slot fed => simp
      | full slot fed full => simp
      | posts slot fed room after =>
        subst after
        rw [slot_setSlot (by exact present_of_lt hp)]
        simp [slot, Slot.content]
      | closed empty fed same =>
        rcases same with rfl | rfl
        · simp
        · simp [hset, empty]
          rfl
    · have hother := touches.slot i (Ne.symm hj)
      cases hr <;> simp [hj, hother]
  · simp [Handoff.recv, hp]

/-- **The balance of one command**: what was in a slot and what is put into
it goes to its receiver, is left behind with it, or is still there. -/
theorem Tidy.flow {workers : Nat} {h : Handoff} (ht : h.Tidy workers)
    (c : Command) (i : Nat) :
    (h.slot i).content ++ c.puts i (h.perform c).1 =
      c.takes i (h.perform c).1 ++ c.loses i h ++
        ((h.perform c).2.slot i).content := by
  cases c with
  | send s => exact ht.flow_send s i
  | recv j =>
    show (h.slot i).content ++ [] = _ ++ [] ++ _
    rw [List.append_nil, List.append_nil]
    exact ht.flow_recv j i
  | takePending j =>
    by_cases hp : h.present j = true
    · obtain ⟨touches, hslot, -, htaken⟩ :=
        takePending_spec ht.sane (present_of_lt hp)
      simp only [Handoff.perform, hp, Command.puts, Command.takes,
        Command.loses]
      by_cases hj : j = i
      · subst hj
        simp [hslot, htaken, Slot.content]
      · simp [hj, touches.slot i (Ne.symm hj)]
    · simp [Handoff.perform, hp, Command.puts, Command.takes, Command.loses]
  | clone j =>
    by_cases hp : h.present j = true
    · simp [Handoff.perform, hp, Command.puts, Command.takes, Command.loses,
        slot_clone]
    · simp [Handoff.perform, hp, Command.puts, Command.takes, Command.loses]
  | leave j =>
    by_cases hp : h.present j = true
    · obtain ⟨touches, hslot, -⟩ := leave_spec ht.sane (present_of_lt hp)
      simp only [Handoff.perform, hp, Command.puts, Command.takes,
        Command.loses]
      by_cases hj : j = i
      · subst hj
        simp [hslot, Slot.content]
      · simp [hj, touches.slot i (Ne.symm hj)]
    · have hvacant := ht.vacant j (by simpa using hp)
      by_cases hj : j = i
      · subst hj
        simp [Handoff.perform, hp, Command.puts, Command.takes,
          Command.loses, hvacant, Slot.content]
      · simp [Handoff.perform, hp, Command.puts, Command.takes,
          Command.loses, hj]
  | close =>
    simp only [Command.puts, Command.takes, Command.loses, List.append_nil,
      List.nil_append]
    rfl

/-- A slot that is open in the queue is not posted again. -/
theorem Tidy.not_posts {workers i : Nat} {h : Handoff} (ht : h.Tidy workers)
    (hi : i ∈ h.waiting) (c : Command) : ¬ c.posts i h := by
  intro ⟨_, hslot, _⟩
  by_cases hf : h.fed = true
  · exact hslot ((ht.sane.mem_waiting hf).1 hi)
  · rw [waiting, ht.swept (by simpa using hf)] at hi
    cases hi

@[simp] theorem length_setSlot (i : Nat) (slot : Slot) (h : Handoff) :
    (h.setSlot i slot).receivers.length = h.receivers.length := by
  simp [setSlot]

theorem waiting_setSlot (i : Nat) (slot : Slot) (h : Handoff) :
    (h.setSlot i slot).waiting = h.waiting := rfl

/-- A receiver that asks posts its slot at the end of the queue, if it
posts it. -/
theorem Tidy.queue_recv {workers : Nat} {h : Handoff} (ht : h.Tidy workers)
    (i : Nat) :
    (h.perform (.recv i)).2.waiting = h.waiting ∨
      i ∉ h.waiting ∧ (h.perform (.recv i)).2.waiting = h.waiting ++ [i] ∧
        (Command.recv i).posts i h := by
  by_cases hp : h.present i = true
  · have hr := recv_spec hp
    simp only [Handoff.perform, Command.posts]
    generalize (h.recv i).1 = r, (h.recv i).2 = h' at hr
    cases hr with
    | segment slot => exact .inl rfl
    | waits slot fed => exact .inl rfl
    | full slot fed full => exact .inl rfl
    | closed empty fed same =>
      rcases same with rfl | rfl
      · exact .inl rfl
      · exact .inl rfl
    | posts slot fed room after =>
      subst after
      refine .inr ⟨?_, ?_, trivial, by simp [slot], ?_⟩
      · rw [ht.sane.mem_waiting fed, slot]
        simp
      · rw [waiting_setSlot]
        simp [waiting]
      · rw [slot_setSlot (by exact present_of_lt hp), if_pos rfl]
  · left
    simp [Handoff.perform, Handoff.recv, hp]

/-- **The queue of those who wait** grows at its end only, by a receiver
that posts its slot. -/
theorem Tidy.queue {workers : Nat} {h : Handoff} (ht : h.Tidy workers)
    (c : Command) :
    (h.perform c).2.waiting.Sublist h.waiting ∨
      ∃ i, i ∉ h.waiting ∧ (h.perform c).2.waiting = h.waiting ++ [i] ∧
        c.posts i h := by
  cases c with
  | send s =>
    left
    have sends := send_spec s h
    simp only [Handoff.perform]
    generalize (h.send s).1 = r, (h.send s).2 = h' at sends
    cases sends with
    | gone fed => exact .refl _
    | waits fed nobody attended => exact List.nil_sublist _
    | deserted fed nobody attended => exact List.nil_sublist _
    | @sent j rest fed first le =>
      rw [first]
      exact List.sublist_cons_self j _
  | recv i =>
    rcases ht.queue_recv i with hsame | hposts
    · exact .inl (hsame ▸ .refl _)
    · exact .inr ⟨i, hposts⟩
  | takePending i =>
    left
    by_cases hp : h.present i = true
    · simp only [Handoff.perform, hp, Handoff.takePending]
      cases h.slot i with
      | unposted => exact .refl _
      | filled s => exact .refl _
      | posted =>
        show (h.closeSlot i).waiting.Sublist h.waiting
        rw [waiting_closeSlot]
        exact List.filter_sublist
    · simp [Handoff.perform, hp]
  | clone i =>
    left
    by_cases hp : h.present i = true
    · simp only [Handoff.perform, hp]
      exact .refl _
    · simp [Handoff.perform, hp]
  | leave i =>
    left
    by_cases hp : h.present i = true
    · simp only [Handoff.perform, hp]
      show (h.closeSlot i).waiting.Sublist h.waiting
      rw [waiting_closeSlot]
      exact List.filter_sublist
    · simp [Handoff.perform, hp]
  | close => exact .inl (List.nil_sublist _)

/-- Only a receiver that asks is answered. -/
theorem Command.takes_eq_nil {i : Nat} {c : Command} (hr : c ≠ .recv i)
    (ht : c ≠ .takePending i) (r : Reply) : c.takes i r = [] := by
  cases c with
  | recv j =>
    have hj : j ≠ i := fun h => hr (h ▸ rfl)
    cases r with
    | received r => cases r <;> simp [Command.takes, hj]
    | _ => rfl
  | takePending j =>
    have hj : j ≠ i := fun h => ht (h ▸ rfl)
    cases r <;> simp [Command.takes, hj]
  | send s => rfl
  | clone j => rfl
  | leave j => rfl
  | close => rfl

/-- A receiver that is not there is not answered. -/
theorem takes_of_absent {h : Handoff} {i : Nat} (hp : h.present i = false)
    (c : Command) : c.takes i (h.perform c).1 = [] := by
  by_cases hr : c = .recv i
  · subst hr
    simp [Handoff.perform, Handoff.recv, hp, Command.takes]
  · by_cases ht : c = .takePending i
    · subst ht
      simp [Handoff.perform, hp, Command.takes]
    · exact Command.takes_eq_nil hr ht _

theorem ne_of_present {h : Handoff} {i j : Nat} (hi : h.present i = false)
    (hj : h.present j = true) : i ≠ j := by
  rintro rfl
  rw [hi] at hj
  cases hj

/-- Who has left does not come back. -/
theorem Tidy.stays_away {workers i : Nat} {h : Handoff} (ht : h.Tidy workers)
    (hi : i < h.receivers.length) (hp : h.present i = false) (c : Command) :
    i < (h.perform c).2.receivers.length ∧
      (h.perform c).2.present i = false := by
  cases c with
  | send s =>
    have sends := send_spec s h
    simp only [Handoff.perform]
    generalize (h.send s).1 = r, (h.send s).2 = h' at sends
    cases sends with
    | gone fed => exact ⟨hi, hp⟩
    | waits fed nobody attended => exact ⟨hi, hp⟩
    | deserted fed nobody attended => exact ⟨hi, hp⟩
    | sent fed first le => simpa using And.intro hi hp
  | recv j =>
    by_cases hj : h.present j = true
    · have touches := ht.sane.receives (present_of_lt hj) (recv_spec hj)
      have hne := ne_of_present hp hj
      simp only [Handoff.perform]
      rw [touches.sane.size, touches.present i hne]
      exact ⟨hi, hp⟩
    · simpa [Handoff.perform, Handoff.recv, hj] using And.intro hi hp
  | takePending j =>
    by_cases hj : h.present j = true
    · obtain ⟨touches, -, hsame, -⟩ :=
        takePending_spec ht.sane (present_of_lt hj)
      have hne := ne_of_present hp hj
      simp only [Handoff.perform, hj]
      refine ⟨touches.sane.size.symm ▸ hi, ?_⟩
      exact (touches.present i hne).trans hp
    · simpa [Handoff.perform, hj] using And.intro hi hp
  | clone j =>
    by_cases hj : h.present j = true
    · simp only [Handoff.perform, hj]
      exact ⟨by simpa [Handoff.clone] using Nat.lt_succ_of_lt hi,
        (present_clone hi).trans hp⟩
    · simpa [Handoff.perform, hj] using And.intro hi hp
  | leave j =>
    by_cases hj : h.present j = true
    · obtain ⟨touches, -, -⟩ := leave_spec ht.sane (present_of_lt hj)
      have hne := ne_of_present hp hj
      simp only [Handoff.perform, hj]
      exact ⟨touches.sane.size.symm ▸ hi, (touches.present i hne).trans hp⟩
    · simpa [Handoff.perform, hj] using And.intro hi hp
  | close => exact ⟨hi, hp⟩

/-- Only a receiver that leaves loses a segment. -/
theorem Tidy.loses {workers i : Nat} {h : Handoff} (ht : h.Tidy workers)
    {c : Command} (hne : c.loses i h ≠ []) :
    h.present i = true ∧ i < (h.perform c).2.receivers.length ∧
      (h.perform c).2.present i = false ∧ (c.loses i h).length = 1 := by
  cases c with
  | leave j =>
    have hj : j = i := by
      by_cases hj : j = i
      · exact hj
      · simp [Command.loses, hj] at hne
    subst hj
    simp only [Command.loses, if_true] at hne ⊢
    cases hslot : h.slot j with
    | unposted => simp [hslot, Slot.content] at hne
    | posted => simp [hslot, Slot.content] at hne
    | filled s =>
      have hp := ht.present (i := j) (by simp [hslot])
      obtain ⟨touches, -, hgone⟩ := leave_spec ht.sane (present_of_lt hp)
      simp only [Handoff.perform, hp, if_true]
      exact ⟨trivial, touches.sane.size.symm ▸ present_of_lt hp, hgone, rfl⟩
  | send s => exact absurd rfl hne
  | recv j => exact absurd rfl hne
  | takePending j => exact absurd rfl hne
  | clone j => exact absurd rfl hne
  | close => exact absurd rfl hne

/-- What a ledger shows at all times. -/
structure Ledger.Sound (workers : Nat) (l : Ledger) : Prop where
  tidy : l.handoff.Tidy workers
  /-- The queue is in the order of the times at which the slots were
  posted. -/
  aged : l.handoff.waiting.Pairwise (l.since · < l.since ·)
  past : ∀ i ∈ l.handoff.waiting, l.since i < l.time
  balance : ∀ i, l.given i =
    l.taken i ++ l.lost i ++ (l.handoff.slot i).content
  /-- Only who has left has lost a segment, and no more than one. -/
  left : ∀ i, l.lost i ≠ [] → i < l.handoff.receivers.length ∧
    l.handoff.present i = false ∧ (l.lost i).length = 1

/-- Time goes on, and the receivers in the queue are as old as they were. -/
theorem Ledger.since_next {workers : Nat} {l : Ledger}
    (ht : l.handoff.Tidy workers) (c : Command) :
    ∀ i ∈ l.handoff.waiting, (l.next c).since i = l.since i :=
  fun _ hi => if_neg (ht.not_posts hi c)

/-- The books balance after the next command. -/
theorem Ledger.Sound.balance_next {workers : Nat} {l : Ledger}
    (h : l.Sound workers) (c : Command) (i : Nat) :
    (l.next c).given i = (l.next c).taken i ++ (l.next c).lost i ++
      ((l.next c).handoff.slot i).content := by
  have hflow := h.tidy.flow c i
  -- what is lost is lost for good, so that it comes last
  have hlast : l.lost i ++ c.takes i (l.handoff.perform c).1 =
      c.takes i (l.handoff.perform c).1 ++ l.lost i := by
    by_cases hl : l.lost i = []
    · simp [hl]
    · obtain ⟨_, hp, _⟩ := h.left i hl
      simp [takes_of_absent hp c]
  calc l.given i ++ c.puts i (l.handoff.perform c).1
      = l.taken i ++ l.lost i ++ ((l.handoff.slot i).content ++
          c.puts i (l.handoff.perform c).1) := by
        rw [h.balance i, List.append_assoc]
    _ = l.taken i ++ (l.lost i ++ c.takes i (l.handoff.perform c).1) ++
          (c.loses i l.handoff ++
            ((l.handoff.perform c).2.slot i).content) := by
        rw [hflow]
        simp only [List.append_assoc]
    _ = _ := by
        rw [hlast]
        simp only [Ledger.next, List.append_assoc]

/-- Who has lost a segment is gone, and had none in its slot since. -/
theorem Ledger.Sound.left_next {workers : Nat} {l : Ledger}
    (h : l.Sound workers) (c : Command) (i : Nat)
    (hne : (l.next c).lost i ≠ []) :
    i < (l.next c).handoff.receivers.length ∧
      (l.next c).handoff.present i = false ∧
      ((l.next c).lost i).length = 1 := by
  have hlost : (l.next c).lost i = l.lost i ++ c.loses i l.handoff := rfl
  by_cases hl : l.lost i = []
  · rw [hlost, hl, List.nil_append] at hne ⊢
    exact (h.tidy.loses hne).2
  · obtain ⟨hi, hp, hone⟩ := h.left i hl
    obtain ⟨hi', hp'⟩ := h.tidy.stays_away hi hp c
    have hnone : c.loses i l.handoff = [] := by
      by_cases hc : c.loses i l.handoff = []
      · exact hc
      · rw [(h.tidy.loses hc).1] at hp
        cases hp
    rw [hlost, hnone, List.append_nil]
    exact ⟨hi', hp', hone⟩

theorem Ledger.Sound.next {workers : Nat} {l : Ledger} (h : l.Sound workers)
    (c : Command) : (l.next c).Sound workers := by
  have hsince := Ledger.since_next h.tidy c
  have haged : l.handoff.waiting.Pairwise
      ((l.next c).since · < (l.next c).since ·) :=
    h.aged.imp_of_mem fun hi hj hlt => by rwa [hsince _ hi, hsince _ hj]
  have hpast (i : Nat) (hi : i ∈ l.handoff.waiting) :
      (l.next c).since i < l.time := by
    rw [hsince i hi]
    exact h.past i hi
  refine ⟨h.tidy.perform c, ?_, fun i hi => ?_, h.balance_next c,
    h.left_next c⟩
  · rcases h.tidy.queue c with hsub | ⟨i, -, heq, hposts⟩
    · exact haged.sublist hsub
    · have hnow : (l.next c).since i = l.time := if_pos hposts
      show (l.handoff.perform c).2.waiting.Pairwise _
      rw [heq]
      refine List.pairwise_append.2
        ⟨haged, List.pairwise_singleton _ _, fun j hj k hk => ?_⟩
      rw [List.mem_singleton.1 hk, hnow]
      exact hpast j hj
  · show (l.next c).since i < l.time + 1
    rcases h.tidy.queue c with hsub | ⟨j, -, heq, hposts⟩
    · exact Nat.lt_succ_of_lt (hpast i (hsub.subset hi))
    · have hmem : i ∈ l.handoff.waiting ++ [j] := heq ▸ hi
      rcases List.mem_append.1 hmem with hold | hnew
      · exact Nat.lt_succ_of_lt (hpast i hold)
      · have hnow : (l.next c).since j = l.time := if_pos hposts
        rw [List.mem_singleton.1 hnew, hnow]
        exact Nat.lt_succ_self _

theorem Ledger.sound_after (workers : Nat) (cs : List Command) :
    (Ledger.after workers cs).Sound workers := by
  have hall (cs : List Command) : ∀ l : Ledger, l.Sound workers →
      (cs.foldl Ledger.next l).Sound workers := by
    induction cs with
    | nil => exact fun _ h => h
    | cons c cs ih => exact fun l h => ih _ (h.next c)
  refine hall cs _ ⟨tidy_make workers, .nil, by simp [waiting, make],
    fun i => ?_, by simp⟩
  cases i <;> rfl

/-! ## Every segment once -/

theorem attended_eq_false {h : Handoff} :
    h.attended = false ↔ ∀ i, h.present i = false := by
  unfold attended present
  constructor
  · intro hany i
    split
    · rename_i r hr
      simpa using List.any_eq_false.1 hany r (List.mem_of_getElem? hr)
    · rfl
  · intro hall
    refine List.any_eq_false.2 fun r hr => ?_
    obtain ⟨i, hi⟩ := List.mem_iff_getElem?.1 hr
    simpa [hi] using hall i

/-- A receiver whose slot is open in the queue is there. -/
theorem Tidy.waits {workers i : Nat} {h : Handoff} (ht : h.Tidy workers)
    (hf : h.fed = true) (hi : i ∈ h.waiting) :
    h.slot i = .posted ∧ h.present i = true := by
  have hslot := (ht.sane.mem_waiting hf).1 hi
  exact ⟨hslot, ht.present (by simp [hslot])⟩

/-- A segment that is in a slot is what its receiver is answered with. -/
theorem Tidy.answers {workers i : Nat} {h : Handoff} (ht : h.Tidy workers)
    {s : Segment} (hslot : h.slot i = .filled s) :
    (h.perform (.recv i)).1 = .received (.segment s) ∧
      (h.perform (.takePending i)).1 = .taken (some s) := by
  have hp := ht.present (i := i) (by simp [hslot])
  exact ⟨by simp [Handoff.perform, Handoff.recv, hp, hslot],
    by simp [Handoff.perform, Handoff.takePending, hp, hslot]⟩

theorem Tidy.pending_iff {workers : Nat} {h : Handoff} (ht : h.Tidy workers)
    (s : Segment) (hf : h.fed = true) :
    (h.send s).1 = .pending ↔
      (∃ i, h.present i = true) ∧ ∀ i, h.slot i ≠ .posted := by
  have sends := send_spec s h
  generalize (h.send s).1 = r, (h.send s).2 = h' at sends
  cases sends with
  | gone fed =>
    rw [hf] at fed
    cases fed
  | sent fed first le =>
    obtain ⟨hslot, _⟩ := ht.waits hf (first ▸ List.mem_cons_self)
    exact ⟨fun h => (by cases h), fun ⟨_, h⟩ => absurd hslot (h _)⟩
  | waits fed nobody attended =>
    refine ⟨fun _ => ⟨?_, fun i hi => ?_⟩, fun _ => rfl⟩
    · by_cases hall : ∀ i, h.present i = false
      · rw [attended_eq_false.2 hall] at attended
        cases attended
      · simpa using hall
    · rw [← ht.sane.mem_waiting hf, nobody] at hi
      cases hi
  | deserted fed nobody attended =>
    refine ⟨fun h => (by cases h), fun ⟨⟨i, hi⟩, _⟩ => ?_⟩
    rw [attended_eq_false.1 attended i] at hi
    cases hi

theorem Tidy.failed_iff {workers : Nat} {h : Handoff} (ht : h.Tidy workers)
    (s : Segment) (e : Error) (hf : h.fed = true) :
    (h.send s).1 = .failed e ↔
      e = .channelError ∧ ∀ i, h.present i = false := by
  have sends := send_spec s h
  generalize (h.send s).1 = r, (h.send s).2 = h' at sends
  cases sends with
  | gone fed =>
    rw [hf] at fed
    cases fed
  | sent fed first le =>
    obtain ⟨_, hp⟩ := ht.waits hf (first ▸ List.mem_cons_self)
    refine ⟨fun h => (by cases h), fun ⟨_, hall⟩ => ?_⟩
    rw [hall] at hp
    cases hp
  | waits fed nobody attended =>
    refine ⟨fun h => (by cases h), fun ⟨_, hall⟩ => ?_⟩
    rw [attended_eq_false.2 hall] at attended
    cases attended
  | deserted fed nobody attended =>
    constructor
    · intro heq
      cases heq
      exact ⟨rfl, attended_eq_false.1 attended⟩
    · rintro ⟨rfl, _⟩
      rfl

/-- A segment goes into the slot that was posted first. -/
theorem Ledger.Sound.oldest {workers i : Nat} {l : Ledger}
    (h : l.Sound workers) {s : Segment}
    (hsent : (l.handoff.send s).1 = .sent i) :
    l.handoff.slot i = .posted ∧
      ∀ j, l.handoff.slot j = .posted → j ≠ i → l.since i < l.since j := by
  have sends := send_spec s l.handoff
  rw [hsent] at sends
  generalize (l.handoff.send s).2 = h' at sends
  cases sends with
  | sent fed first le =>
    refine ⟨(h.tidy.waits fed (first ▸ List.mem_cons_self)).1,
      fun j hj hne => ?_⟩
    have hmem := (h.tidy.sane.mem_waiting fed).2 hj
    have haged := h.aged
    rw [first] at hmem haged
    rcases List.mem_cons.1 hmem with rfl | hmem
    · exact absurd rfl hne
    · exact (List.pairwise_cons.1 haged).1 j hmem

/-- **Every segment once.** After any commands, the segments that were put
into a receiver's slot are those that it was answered with, then the one
that it has left behind, then the one that is in the slot, in the order in
which they were sent. Only a receiver that has left has left one behind,
and one that is in a slot is what the receiver is answered with next. A
segment goes into the slot that was posted first of those that are open;
if there is none it waits, or fails once every receiver has left. No more
slots are queued than there are workers. -/
theorem exactly_once (workers : Nat) (cs : List Command) :
    let l := Ledger.after workers cs
    let h := l.handoff
    (∀ i, l.given i = l.taken i ++ l.lost i ++ (h.slot i).content) ∧
    (∀ i, l.lost i ≠ [] → h.present i = false ∧ (l.lost i).length = 1) ∧
    (∀ i s, h.slot i = .filled s →
      (h.perform (.recv i)).1 = .received (.segment s) ∧
      (h.perform (.takePending i)).1 = .taken (some s)) ∧
    (∀ s i, (h.perform (.send s)).1 = .sent (.sent i) →
      h.slot i = .posted ∧
      ∀ j, h.slot j = .posted → j ≠ i → l.since i < l.since j) ∧
    (∀ s, h.fed = true →
      ((h.perform (.send s)).1 = .sent .pending ↔
        (∃ i, h.present i = true) ∧ ∀ i, h.slot i ≠ .posted)) ∧
    (∀ s e, h.fed = true →
      ((h.perform (.send s)).1 = .sent (.failed e) ↔
        e = .channelError ∧ ∀ i, h.present i = false)) ∧
    h.ready.length ≤ max 1 workers := by
  intro l h
  have hl : l.Sound workers := Ledger.sound_after workers cs
  have ht : h.Tidy workers := hl.tidy
  refine ⟨hl.balance, fun i hi => (hl.left i hi).2, fun i s => ht.answers,
    fun s i hs => ?_, fun s hf => ?_, fun s e hf => ?_, ?_⟩
  · exact hl.oldest (s := s) (by simpa [Handoff.perform] using hs)
  · simpa [Handoff.perform] using ht.pending_iff s hf
  · simpa [Handoff.perform] using ht.failed_iff s e hf
  · rw [← ht.capacity]
    exact ht.room

/-- A slot that was closed is passed over, and the segment goes to the
receiver that has posted after it. -/
example (s : Segment) :
    (Ledger.after 2
      [.recv 0, .clone 0, .recv 1, .takePending 0, .send s, .recv 1]).taken 1
        = [s] := rfl

end Stripe.Handoff
