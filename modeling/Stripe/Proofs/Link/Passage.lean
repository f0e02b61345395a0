import Stripe.Link
import Stripe.Proofs.Reader.Success
import Stripe.Proofs.Writer.Flow
import Stripe.Proofs.Writer.Rest

/-!
# What the pipes of a link carry

`Passes` says what has arrived at the reader: the beginning of each wire,
and all of it once the connection has ended. It stays so whatever moves:
the writer (`Passes.writer`), bytes on a pipe (`Passes.carry`), room for
more of them (`Passes.credit`) and the end of a connection (`Passes.dry`).
So what has arrived is at any time the beginning of what the writer will
have sent (`Passes.promises`).
-/

namespace Stripe.Link

open Segment

/-! ## Events -/

/-- What happens on the link, if it is possible. A pipe may also take more
than it could hold at first, at any time; so write calls may be cut at
every place. -/
def move (l : Link) : Event → Option Link
  | .send (.room i (some m)) =>
    some { l with writer := l.writer.grantRoom i (some m) }
  | e => l.step e

/-- Whatever is a step is a move. -/
theorem move_of_step {l l' : Link} {e : Event} (h : l.step e = some l') :
    l.move e = some l' := by
  unfold move
  split
  · cases h
  · exact h

/-- Nobody stops a side or lets go of a call. The user who sends begins
calls for bytes and one to finish. -/
def Event.isPlain : Event → Bool
  | .send e => e.isPlain
  | .receive e => e.isPlain
  | _ => true

/-- The user who sends begins a call. -/
def Event.isSending : Event → Bool
  | .send e => e.isCall
  | _ => false

/-- The user who receives begins a call. -/
def Event.isReceiving : Event → Bool
  | .receive e => e.isCall
  | _ => false

/-- The bytes that a user begins to send. -/
def Event.sends : Event → Bytes
  | .send e => e.sends
  | _ => []

/-- What can happen on a link, one case for each kind of event. -/
inductive Moved (l : Link) : Event → Link → Prop where
  | send {e : Writer.Event} {w : Writer} (step : l.writer.step e = some w)
      (plain : ∀ i m, e ≠ .room i m) :
      Moved l (.send e) { l with writer := w }
  | room (i m : Nat) : Moved l (.send (.room i (some m)))
      { l with writer := l.writer.grantRoom i (some m) }
  | receive {e : Reader.Event} {r : Reader}
      (step : l.reader.step e = some r) (stays : ∀ i c, e.brings i c = c) :
      Moved l (.receive e) { l with reader := r }
  | carry {i m : Nat} (pos : 0 < m) (le : m ≤ (l.inFlight i).length) :
      Moved l (.carry i m) (l.carry i m)
  | credit {i m : Nat} (pos : 0 < m) (le : m ≤ l.freed i) :
      Moved l (.credit i m) (l.credit i m)
  | dry {i : Nat} (dry : l.isDry i = true) : Moved l (.dry i) (l.dry i)

theorem move_cases {l l' : Link} {e : Event} (h : l.move e = some l') :
    Moved l e l' := by
  cases e with
  | send e =>
    by_cases hroom : ∃ i m, e = .room i m
    · obtain ⟨i, m, rfl⟩ := hroom
      cases m with
      | none => cases h
      | some m =>
        cases h
        exact .room i m
    · have hplain : ∀ i m, e ≠ .room i m := fun i m he =>
        hroom ⟨i, m, he⟩
      have hs : (l.writer.step e).map (fun w => { l with writer := w }) =
          some l' := by
        cases e with
        | room i m => exact absurd rfl (hplain i m)
        | _ => exact h
      obtain ⟨w, hw, rfl⟩ := Option.map_eq_some_iff.1 hs
      exact .send hw hplain
  | receive e =>
    obtain ⟨hok, hs⟩ := Option.ite_none_right_eq_some.1 h
    obtain ⟨r, hr, rfl⟩ := Option.map_eq_some_iff.1 hs
    refine .receive hr ?_
    intro i c
    cases e <;> first | rfl | cases hok
  | carry i m =>
    obtain ⟨hok, hs⟩ := Option.ite_none_right_eq_some.1 h
    cases hs
    simp only [Bool.and_eq_true, decide_eq_true_eq] at hok
    exact .carry hok.1 hok.2
  | credit i m =>
    obtain ⟨hok, hs⟩ := Option.ite_none_right_eq_some.1 h
    cases hs
    simp only [Bool.and_eq_true, decide_eq_true_eq] at hok
    exact .credit hok.1 hok.2
  | dry i =>
    obtain ⟨hok, hs⟩ := Option.ite_none_right_eq_some.1 h
    cases hs
    exact .dry hok

/-! ## Pipes -/

/-- The writable end of a pipe that holds `room` bytes. -/
def outlet (room : Nat) : Outlet :=
  { Outlet.unlimited with room := some room }

theorem make_eq_ok {l : Link} {sender receiver : Config} {capacities : List Nat}
    (h : make sender receiver capacities = .ok l) :
    ∃ w r, Writer.make (capacities.map outlet) sender = .ok w ∧
      Reader.make capacities.length receiver = .ok r ∧
      l = ⟨w, r, capacities.map fun _ => ⟨0, 0⟩⟩ := by
  have h' : (Writer.make (capacities.map outlet) sender).bind (fun w =>
      (Reader.make capacities.length receiver).bind fun r =>
        .ok ⟨w, r, capacities.map fun _ => ⟨0, 0⟩⟩) = .ok l := h
  cases hw : Writer.make (capacities.map outlet) sender with
  | error e =>
    rw [hw] at h'
    cases h'
  | ok w =>
    rw [hw] at h'
    cases hr : Reader.make capacities.length receiver with
    | error e =>
      simp only [hr, Except.bind] at h'
      cases h'
    | ok r =>
      simp only [hr, Except.bind] at h'
      cases h'
      exact ⟨w, r, rfl, rfl, rfl⟩

theorem carried_eq {l : Link} {i : Nat} {p : Pipe}
    (h : l.pipes[i]? = some p) : l.carried i = p.carried := by
  simp [carried, h]

theorem credited_eq {l : Link} {i : Nat} {p : Pipe}
    (h : l.pipes[i]? = some p) : l.credited i = p.credited := by
  simp [credited, h]

/-- What has arrived of the rows that a writer was handed, over pipes that
hold as many bytes as `capacity` says, or more. -/
structure Passes (n : Nat) (capacity : Nat → Nat)
    (rows : Nat → List Segment) (input : Nat → Inlet) (l : Link) :
    Prop where
  size : l.pipes.length = n
  arrived : ∀ i < n,
    (input i).tape = Tape.clean ((l.writer.wire i).take (l.carried i))
  carried : ∀ i < n, l.carried i ≤ (l.writer.wire i).length
  credited : ∀ i < n, l.credited i ≤ l.carried i
  room : ∀ i < n, ∃ quota, l.writer.quota i = some quota ∧
    capacity i + l.credited i ≤ quota
  ended : ∀ i < n, (input i).ended = true → Ended (rows i) ∧
    l.writer.wire i = encodeAll (rows i) ∧
    l.carried i = (l.writer.wire i).length

section Pipes

variable {n maxPayload : Nat} {capacity : Nat → Nat} {loose : Prop}
  {rows rows' done plan : Nat → List Segment} {fed : List Segment}
  {input : Nat → Inlet} {l : Link} {w : Writer} {i m : Nat}

/-- Nothing is handed to a worker after its terminal segment. -/
theorem row_eq_of_ended (h : Writer.Inv n loose rows' done fed w)
    (hi : i < n) (hend : Ended (rows i)) (hle : rows i <+: rows' i) :
    rows' i = rows i := by
  obtain ⟨lane, hl⟩ := h.lane_of_lt hi
  have hrow : Open (rows' i) ∨ Ended (rows' i) := by
    rcases (h.lanes i lane hl).shaped with hopen | ⟨_, init, hrow, hinit⟩
    · exact .inl hopen
    · exact .inr ⟨init, _, hrow, hinit, isTerminal_terminal _⟩
  exact (hend.eq_of_front hrow hle).symm

theorem lt_of_wire (h : w.lanes.length = n) (hne : w.wire i ≠ []) :
    i < n := by
  by_cases hi : i < n
  · exact hi
  · have hno : w.lanes[i]? = none := List.getElem?_eq_none (by omega)
    exact absurd (by simp [Writer.wire, hno]) hne

theorem carried_carry (hi : i < l.pipes.length) (j : Nat) :
    (l.carry i m).carried j = l.carried j + if i = j then m else 0 := by
  simp only [carried, carry, List.getElem?_modify]
  by_cases hij : i = j
  · subst hij
    simp [List.getElem?_eq_getElem hi]
  · simp only [if_neg hij]
    cases l.pipes[j]? <;> rfl

theorem credited_carry (j : Nat) :
    (l.carry i m).credited j = l.credited j := by
  simp only [credited, carry, List.getElem?_modify]
  cases l.pipes[j]? with
  | none => rfl
  | some p => by_cases hij : i = j <;> simp [hij]

theorem carried_credit (j : Nat) :
    (l.credit i m).carried j = l.carried j := by
  simp only [carried, credit, List.getElem?_modify]
  cases l.pipes[j]? with
  | none => rfl
  | some p => by_cases hij : i = j <;> simp [hij]

theorem credited_credit (hi : i < l.pipes.length) (j : Nat) :
    (l.credit i m).credited j =
      l.credited j + if i = j then m else 0 := by
  simp only [credited, credit, List.getElem?_modify]
  by_cases hij : i = j
  · subst hij
    simp [List.getElem?_eq_getElem hi]
  · simp only [if_neg hij]
    cases l.pipes[j]? <;> rfl

/-! ## What moves on a pipe -/

/-- The writer has moved: a wire only grows, and not after the terminal
segment. -/
theorem Passes.writer (h : Passes n capacity rows input l)
    (hw : Writer.Inv n loose rows' done fed w)
    (hle : ∀ i, rows i <+: rows' i)
    (wire : ∀ i, l.writer.wire i <+: w.wire i)
    (quota : ∀ i b, l.writer.quota i = some b →
      ∃ b', w.quota i = some b' ∧ b ≤ b') :
    Passes n capacity rows' input { l with writer := w } := by
  refine ⟨h.size, ?_, ?_, h.credited, ?_, ?_⟩
  · intro i hi
    obtain ⟨more, hmore⟩ := wire i
    show _ = Tape.clean ((w.wire i).take (l.carried i))
    rw [h.arrived i hi, ← hmore,
      List.take_append_of_le_length (h.carried i hi)]
  · intro i hi
    exact Nat.le_trans (h.carried i hi) (wire i).length_le
  · intro i hi
    obtain ⟨b, hb, hroom⟩ := h.room i hi
    obtain ⟨b', hb', hle'⟩ := quota i b hb
    exact ⟨b', hb', Nat.le_trans hroom hle'⟩
  · intro i hi hend
    obtain ⟨hrow, hall, hcarried⟩ := h.ended i hi hend
    have hsame := row_eq_of_ended hw hi hrow (hle i)
    have hfront := hw.front hi
    rw [hsame, ← hall] at hfront
    have hwire : w.wire i = l.writer.wire i :=
      hfront.eq_of_length_le (wire i).length_le
    show Ended (rows' i) ∧ w.wire i = encodeAll (rows' i) ∧
      l.carried i = (w.wire i).length
    rw [hsame, hwire]
    exact ⟨hrow, hall, hcarried⟩

/-- Some bytes arrive. None are left to arrive once the connection has
ended. -/
theorem Passes.carry (h : Passes n capacity rows input l)
    (hw : l.writer.lanes.length = n) (pos : 0 < m)
    (le : m ≤ (l.inFlight i).length) : i < n ∧
      Passes n capacity rows (fun j => (Reader.Event.feed i
        ((l.inFlight i).take m)).brings j (input j)) (l.carry i m) := by
  have hlen : (l.inFlight i).length =
      (l.writer.wire i).length - l.carried i := by
    simp [inFlight]
  have hi : i < n := by
    apply lt_of_wire hw
    intro hnil
    simp only [hlen, hnil, List.length_nil] at le
    omega
  have hlt : i < l.pipes.length := by rw [h.size]; exact hi
  refine ⟨hi, by simp [Link.carry, h.size], ?_, ?_, ?_, ?_, ?_⟩
  · intro j hj
    rw [carried_carry hlt]
    by_cases hij : i = j
    · subst hij
      simp only [Reader.Event.brings, if_true, Inlet.tape_feed,
        h.arrived i hi, inFlight, ← Tape.clean_append, ← List.take_add]
      rfl
    · simp only [Reader.Event.brings, if_neg hij, if_neg (Ne.symm hij),
        h.arrived j hj]
      rfl
  · intro j hj
    rw [carried_carry hlt]
    have := h.carried j hj
    show _ ≤ (l.writer.wire j).length
    split
    · rename_i hij
      subst hij
      omega
    · omega
  · intro j hj
    rw [carried_carry hlt, credited_carry]
    have := h.credited j hj
    omega
  · intro j hj
    rw [credited_carry]
    exact h.room j hj
  · intro j hj hend
    have hold : (input j).ended = true := by
      simp only [Reader.Event.brings] at hend
      split at hend <;> exact hend
    obtain ⟨hrow, hall, hcarried⟩ := h.ended j hj hold
    refine ⟨hrow, hall, ?_⟩
    rw [carried_carry hlt]
    split
    · rename_i hij
      subst hij
      omega
    · exact hcarried

/-- Room is granted for bytes that were read. -/
theorem Passes.credit (h : Passes n capacity rows input l)
    (le : m ≤ l.freed i) (pos : 0 < m) : i < n ∧
      Passes n capacity rows input (l.credit i m) := by
  have hfreed : l.freed i = l.carried i - l.unread i - l.credited i := rfl
  have hlt : i < l.pipes.length := by
    by_cases hi : i < l.pipes.length
    · exact hi
    · have hno : l.carried i = 0 := by
        have hnone : l.pipes[i]? = none := List.getElem?_eq_none (by omega)
        simp [Link.carried, hnone]
      omega
  have hwire (j : Nat) : (l.credit i m).writer.wire j = l.writer.wire j :=
    Writer.wire_grantRoom l.writer i (some m) j
  refine ⟨h.size ▸ hlt, by simp [Link.credit, h.size], ?_, ?_, ?_, ?_, ?_⟩
  · intro j hj
    rw [carried_credit, hwire]
    exact h.arrived j hj
  · intro j hj
    rw [carried_credit, hwire]
    exact h.carried j hj
  · intro j hj
    rw [carried_credit, credited_credit hlt]
    have := h.credited j hj
    split
    · rename_i hij
      subst hij
      omega
    · omega
  · intro j hj
    obtain ⟨b, hb, hroom⟩ := h.room j hj
    obtain ⟨b', hb', hle, hmore⟩ :=
      Writer.quota_grantRoom (i := i) (m := m) hb
    refine ⟨b', hb', ?_⟩
    rw [credited_credit hlt]
    split
    · rename_i hij
      have := hmore hij.symm
      omega
    · omega
  · intro j hj hend
    rw [carried_credit, hwire]
    exact h.ended j hj hend

/-- A connection ends: its worker has left, and all it wrote has
arrived. -/
theorem Passes.dry {sent : Bytes} {asked : Prop}
    (h : Passes n capacity rows input l)
    (hw : Writer.Fares n sent asked rows done fed l.writer)
    (hdry : l.isDry i = true) : i < n ∧
      Passes n capacity rows (fun j =>
        (Reader.Event.close i).brings j (input j)) (l.dry i) := by
  unfold isDry at hdry
  split at hdry
  · rename_i out lane hl _
    simp only [Bool.and_eq_true, Bool.not_eq_true'] at hdry
    obtain ⟨⟨hclosed, hempty⟩, _⟩ := hdry
    have hi : i < n := hw.inv.lt hl
    obtain ⟨c, phase⟩ := out
    have hgone := (hw.lanes _ (List.mem_of_getElem? hl)).closed hclosed
    obtain rfl : phase = .gone := hgone
    obtain ⟨_, hrow, hwire⟩ := hw.gone hl
    have hall : (l.writer.wire i).length ≤ l.carried i := by
      simpa [inFlight, List.isEmpty_iff] using hempty
    refine ⟨hi, h.size, ?_, h.carried, h.credited, h.room, ?_⟩
    · intro j hj
      have htape : ((Reader.Event.close i).brings j (input j)).tape =
          (input j).tape := by
        simp only [Reader.Event.brings]
        split <;> rfl
      rw [htape]
      exact h.arrived j hj
    · intro j hj hend
      simp only [Reader.Event.brings] at hend
      split at hend
      · rename_i hij
        subst hij
        refine ⟨hrow, ?_, Nat.le_antisymm (h.carried _ hj) hall⟩
        exact (Writer.wire_eq_of_lane hl).trans hwire
      · exact h.ended j hj hend
  · cases hdry

/-- **What has arrived is promised the rest**: it is the beginning of what
the writer will have sent. -/
theorem Passes.promises {message : Bytes}
    (h : Passes n capacity rows input l)
    (hw : Writer.Inv n loose rows done fed l.writer)
    (hfront : ∀ i < n, rows i <+: plan i)
    (hy : Yields n maxPayload
      (fun i => .script [.chunk (encodeAll (plan i))]) plan message)
    (hn : n < Intake.countLimit) (hsize : message.length ≤ maxCount) :
    Reader.Promises n maxPayload input plan message := by
  refine ⟨hn, hsize, _, hy, ?_⟩
  intro i hi
  have hscript : (Inlet.script [.chunk (encodeAll (plan i))]).tape =
      Tape.clean (encodeAll (plan i)) := by
    simp [Inlet.tape, Inlet.script, Inlet.Item.tape]
  obtain ⟨more, hmore⟩ := hfront i hi
  refine ⟨?_, ?_⟩
  · rw [hscript, h.arrived i hi, ← hmore, encodeAll_append,
      Tape.clean_append]
    have hle : (l.writer.wire i).take (l.carried i) <+:
        encodeAll (rows i) :=
      (List.take_prefix _ _).trans (hw.front hi)
    exact (hle.map _).trans (List.prefix_append _ _)
  · intro hend
    obtain ⟨hrow, hall, hcarried⟩ := h.ended i hi hend
    have hsame : rows i = plan i :=
      hrow.eq_of_front (.inr (hy.carries i hi).ended) (hfront i hi)
    rw [hscript, h.arrived i hi, hcarried, List.take_length, hall, hsame]

end Pipes

end Stripe.Link
