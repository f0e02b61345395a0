import Stripe.Proofs.Link.Passage

/-!
# Every move of a link takes weight

Both sides and the pipes make a limited number of moves before a user has
to begin a call, whatever has happened on the link before: each move makes
`weight` smaller (`Coupled.lighter`). The writer pays for each byte that it
puts on a wire, for what the pipe and the reader do with it.
-/

namespace Stripe

namespace Reader

/-! ## What arrives -/

theorem lanes_arrive {r : Reader} {i : Nat} {lane : Lane}
    (hl : r.lanes[i]? = some lane) (f : Inlet → Inlet) :
    (r.arrive i f).lanes =
      r.lanes.set i { lane with inlet := f lane.inlet } := by
  have hi : i < r.lanes.length := (List.getElem?_eq_some_iff.1 hl).1
  apply List.ext_getElem?
  intro j
  simp only [arrive, List.getElem?_modify]
  by_cases hij : i = j
  · subst hij
    rw [List.getElem?_set_self hi, hl]
    simp
  · rw [List.getElem?_set_ne hij]
    simp [hij]

/-- Bytes that arrive may be read one at a time. -/
theorem weight_feed {r : Reader} {i : Nat} {lane : Lane}
    (hl : r.lanes[i]? = some lane) (bs : Bytes) :
    (r.arrive i (·.feed bs)).weight =
        r.weight + 12 * (bs.length + 1) ∧
      (r.arrive i (·.feed bs)).unended = r.unended := by
  have hlanes := lanes_arrive hl (·.feed bs)
  have hsum := weight_lanes hl { lane with inlet := lane.inlet.feed bs }
  have hinlet : (lane.inlet.feed bs).weight =
      lane.inlet.weight + (bs.length + 1) := by
    simp only [Inlet.weight, Inlet.unread, Inlet.content, Inlet.feed,
      List.flatMap_append, List.flatMap_singleton, Inlet.Item.bytes,
      List.length_append, List.length_singleton]
    omega
  have hlane : Lane.weight { lane with inlet := lane.inlet.feed bs } =
      lane.weight + 12 * (bs.length + 1) := by
    simp only [Lane.weight, hinlet]
    omega
  constructor
  · have hload : (r.arrive i (·.feed bs)).transmission = r.transmission :=
      rfl
    have hcall : (r.arrive i (·.feed bs)).callWeight = r.callWeight := rfl
    simp only [weight, hlanes, hload, hcall]
    omega
  · have hcount := countP_set_eq (a := { lane with
      inlet := lane.inlet.feed bs }) (!·.inlet.ended) hl
    have hsame : (lane.inlet.feed bs).ended = lane.inlet.ended := rfl
    simp only [unended, hlanes]
    simp only [hsame] at hcount
    omega

/-- A connection ends once. -/
theorem weight_close {r : Reader} {i : Nat} {lane : Lane}
    (hl : r.lanes[i]? = some lane) (hopen : lane.inlet.ended = false) :
    (r.arrive i (·.finish)).weight = r.weight ∧
      (r.arrive i (·.finish)).unended + 1 = r.unended := by
  have hlanes := lanes_arrive hl (·.finish)
  have hsum := weight_lanes hl { lane with inlet := lane.inlet.finish }
  have hlane : Lane.weight { lane with inlet := lane.inlet.finish } =
      lane.weight := rfl
  constructor
  · have hload : (r.arrive i (·.finish)).transmission = r.transmission :=
      rfl
    have hcall : (r.arrive i (·.finish)).callWeight = r.callWeight := rfl
    simp only [weight, hlanes, hload, hcall]
    omega
  · have hcount := countP_set_eq (a := { lane with
      inlet := lane.inlet.finish }) (!·.inlet.ended) hl
    have hend : lane.inlet.finish.ended = true := rfl
    simp only [unended, hlanes]
    simp only [hend, hopen, Bool.not_true, Bool.not_false,
      Bool.false_eq_true, if_false, if_true] at hcount
    omega

/-- A worker does not end its connection. -/
theorem Inv.unended_work {n maxPayload : Nat} {input : Nat → Inlet}
    {rows : Nat → List Segment} {out : Bytes} {r r' : Reader}
    (h : Inv n maxPayload input rows out r) {i : Nat}
    (hw : r.work i = some r') : r'.unended = r.unended := by
  obtain ⟨mode, _, hcase⟩ := work_cases hw
  have hset {lane lane' : Lane} (hl : r.lanes[i]? = some lane)
      (hsame : lane'.inlet.ended = lane.inlet.ended) :
      (r.lanes.set i lane').countP (!·.inlet.ended) = r.unended := by
    have hcount := countP_set_eq (a := lane') (!·.inlet.ended) hl
    simp only [hsame] at hcount
    simp only [unended]
    omega
  have hread {c c' : Inlet} {d : Decoder} {p : Decoder.Progress}
      (hl : r.lanes[i]? = some ⟨c, .reading d⟩)
      (hadv : d.advance i r.config.maxPayloadLen c = some (p, c')) :
      c'.ended = c.ended := by
    cases h.advances hl hadv with
    | took pos makes tape ended weight => exact ended
    | fault tape ended weight => exact ended
    | cut tape ended tape' ended' weight => exact ended'.trans ended.symm
  cases hcase with
  | stop lane stopped => exact hset lane rfl
  | more lane going advance => exact hset lane (hread lane advance)
  | broken lane going advance => exact hset lane (hread lane advance)
  | refused lane going advance result =>
    exact hset lane (hread lane advance)
  | filed lane going advance result => exact hset lane (hread lane advance)
  | record lane => exact hset lane rfl
  | leave lane => exact hset lane rfl

/-- No move of a reader ends a connection. -/
theorem Inv.unended_move {n maxPayload : Nat} {input : Nat → Inlet}
    {rows : Nat → List Segment} {out : Bytes} {r r' : Reader}
    (h : Inv n maxPayload input rows out r) {e : Event}
    (he : e.isMove = true) (hs : r.step e = some r') :
    r'.unended = r.unended := by
  cases e with
  | work i => exact h.unended_work hs
  | advance => simp only [unended, (kept_of_advance hs).1]
  | _ => cases he

end Reader

namespace Link

/-! ## The weight of a state -/

/-- A move of a worker or of a call, or one on a pipe. -/
def Event.isMove : Event → Bool
  | .send e => e.isMove
  | .receive e => e.isMove
  | _ => true

/-- Nobody but a pipe grants room where it moves by itself. -/
theorem step_eq_move {l : Link} {e : Event} (he : e.isMove = true) :
    l.step e = l.move e := by
  unfold move
  split
  · cases he
  · rfl

/-! ## A link after any events -/

/-- Both sides belong to the connections of the pipes, and no more has been
carried than was written. -/
structure Coupled (n : Nat) (l : Link) : Prop where
  size : l.pipes.length = n
  writer : Writer.Ruled n l.writer
  reader : Reader.Ruled n l.reader
  carried : ∀ i < n, l.carried i ≤ (l.writer.wire i).length

section Coupled

variable {n : Nat} {l l' : Link}

theorem Coupled.lanes (h : Coupled n l) : l.writer.connections = n := by
  obtain ⟨_, _, _, _, hinv⟩ := h.writer
  exact hinv.size

/-- A connection on which something can be carried. -/
theorem Coupled.lt_of_inFlight (h : Coupled n l) {i m : Nat} (pos : 0 < m)
    (le : m ≤ (l.inFlight i).length) : i < n := by
  apply lt_of_wire h.lanes
  intro hnil
  simp only [inFlight, hnil, List.drop_nil, List.length_nil] at le
  omega

/-- A connection on which something was carried. -/
theorem Coupled.lt_of_freed (h : Coupled n l) {i m : Nat} (pos : 0 < m)
    (le : m ≤ l.freed i) : i < n := by
  have hfreed : l.freed i = l.carried i - l.unread i - l.credited i := rfl
  by_cases hi : i < l.pipes.length
  · exact h.size ▸ hi
  · have hno : l.carried i = 0 := by
      simp [Link.carried, List.getElem?_eq_none (Nat.le_of_not_lt hi)]
    omega

/-- A connection that has yet to end. -/
theorem Coupled.lt_of_dry (h : Coupled n l) {i : Nat}
    (hdry : l.isDry i = true) : i < n := by
  unfold isDry at hdry
  split at hdry
  · rename_i out lane hl _
    exact h.lanes ▸ (List.getElem?_eq_some_iff.1 hl).1
  · cases hdry

/-- **Whatever happens** on a link, it stays coupled. -/
theorem Coupled.move (h : Coupled n l) {e : Event}
    (hs : l.move e = some l') : Coupled n l' := by
  have hwrites {e : Writer.Event} {w : Writer}
      (hs : l.writer.step e = some w) : Writer.Ruled n w ∧
        ∀ i < n, l.carried i ≤ (w.wire i).length := by
    refine ⟨h.writer.step hs, fun i hi => ?_⟩
    exact Nat.le_trans (h.carried i hi) (h.writer.grows hs i).length_le
  cases move_cases hs with
  | send step plain =>
    obtain ⟨hw, hcarried⟩ := hwrites step
    exact ⟨h.size, hw, h.reader, hcarried⟩
  | room i m =>
    obtain ⟨hw, hcarried⟩ := hwrites (e := .room i (some m)) rfl
    exact ⟨h.size, hw, h.reader, hcarried⟩
  | receive step stays =>
    exact ⟨h.size, h.writer, h.reader.step step, h.carried⟩
  | @carry i m pos le =>
    have hi := h.lt_of_inFlight pos le
    have hlt : i < l.pipes.length := h.size ▸ hi
    refine ⟨by simp [Link.carry, h.size], h.writer,
      h.reader.step (e := .feed i _) rfl, ?_⟩
    intro j hj
    have hold := h.carried j hj
    rw [carried_carry hlt]
    show _ ≤ (l.writer.wire j).length
    simp only [inFlight, List.length_drop] at le
    by_cases hij : i = j
    · subst hij
      simp only [if_true]
      omega
    · simp only [if_neg hij]
      omega
  | @credit i m pos le =>
    obtain ⟨hw, hcarried⟩ := hwrites (e := .room i (some m)) rfl
    refine ⟨by simp [Link.credit, h.size], hw, h.reader, ?_⟩
    intro j hj
    rw [carried_credit]
    exact hcarried j hj
  | @dry i dry =>
    exact ⟨h.size, h.writer, h.reader.step (e := .close i) rfl, h.carried⟩

theorem coupled_make {sender receiver : Config} {capacities : List Nat}
    (h : make sender receiver capacities = .ok l) :
    Coupled capacities.length l := by
  obtain ⟨w, r, hw, hr, rfl⟩ := make_eq_ok h
  have hblank (c : Outlet) (hc : c ∈ capacities.map outlet) :
      c.log = #[] := by
    obtain ⟨room, _, rfl⟩ := List.mem_map.1 hc
    rfl
  have hruled := Writer.ruled_make hw hblank
  rw [List.length_map] at hruled
  refine ⟨by simp, hruled, Reader.ruled_make hr, fun i hi => ?_⟩
  have hpipe : (capacities.map fun _ => (⟨0, 0⟩ : Pipe))[i]? =
      some ⟨0, 0⟩ := by simp [hi]
  rw [carried_eq hpipe]
  exact Nat.zero_le _

/-! ## The weight of a move -/

/-- **A move of the writer** pays for the bytes that it puts on a wire. -/
theorem Coupled.lighter_send (h : Coupled n l) {e : Writer.Event}
    {w : Writer} (he : e.isMove = true) (hs : l.writer.step e = some w) :
    weight { l with writer := w } < l.weight := by
  have hgrows := h.writer.grows hs
  have hsize : l.writer.connections = l.connections :=
    h.lanes.trans h.size.symm
  have hsize' : w.connections = l.connections := by
    obtain ⟨_, _, _, _, hinv⟩ := h.writer.step hs
    exact hinv.size.trans h.size.symm
  obtain ⟨_, _, _, _, hinv⟩ := h.writer
  obtain ⟨hlt, hle⟩ := hinv.lighter he hs
  -- a byte on a wire weighs 26 there, and 27 before
  have hsum := total_exchange (f := l.transit)
    (p := transit { l with writer := w })
    (g := fun i => (l.writer.wire i).length)
    (q := fun i => (w.wire i).length) 26 (l := List.range l.connections)
    fun i _ => by
      have hle := (hgrows i).length_le
      show 25 * ((w.wire i).length - l.carried i) +
        ((w.wire i).length - l.credited i) + _ ≤ _
      simp only [transit]
      omega
  simp only [Writer.written, hsize, hsize'] at hlt hle
  show 27 * w.weight + total (transit { l with writer := w })
    (List.range l.connections) + _ + _ < _
  simp only [weight]
  omega

/-- The reader has changed, and no connection has ended. -/
theorem weight_reader {r : Reader} (hends : r.unended = l.reader.unended) :
    weight { l with reader := r } + l.reader.weight =
      l.weight + r.weight := by
  show 27 * l.writer.weight + total l.transit (List.range l.connections) +
    r.unended + r.weight + l.reader.weight = _
  simp only [weight, hends]
  omega

theorem Coupled.lighter_receive (h : Coupled n l) {e : Reader.Event}
    {r : Reader} (he : e.isMove = true) (hs : l.reader.step e = some r) :
    weight { l with reader := r } < l.weight := by
  obtain ⟨_, _, _, _, hinv⟩ := h.reader
  have hlt := hinv.weight_lt he hs
  have hsame := weight_reader (hinv.unended_move he hs)
  omega

/-- Bytes that are carried may be read one at a time. -/
theorem Coupled.lighter_carry (h : Coupled n l) {i m : Nat} (pos : 0 < m)
    (le : m ≤ (l.inFlight i).length) : (l.carry i m).weight < l.weight := by
  have hi := h.lt_of_inFlight pos le
  have hlt : i < l.pipes.length := h.size ▸ hi
  obtain ⟨_, _, _, _, hinv⟩ := h.reader
  obtain ⟨lane, hl⟩ := hinv.lane_of_lt hi
  obtain ⟨hfeed, hends⟩ := Reader.weight_feed hl ((l.inFlight i).take m)
  have hlen : ((l.inFlight i).take m).length = m := by
    rw [List.length_take]
    omega
  have hflight : (l.inFlight i).length =
      (l.writer.wire i).length - l.carried i := by
    simp [inFlight]
  have hsum := total_range_update (n := l.connections) (f := l.transit)
    (g := (l.carry i m).transit) hlt fun j hj => by
      simp only [transit, carried_carry hlt, credited_carry,
        if_neg (Ne.symm hj)]
      rfl
  have hnew : (l.carry i m).transit i =
      25 * ((l.writer.wire i).length - (l.carried i + m)) +
        ((l.writer.wire i).length - l.credited i) := by
    simp only [transit, carried_carry hlt, credited_carry, if_true]
    rfl
  have hsize : (l.carry i m).connections = l.connections := by
    simp [connections, carry]
  have hwriter : (l.carry i m).writer = l.writer := rfl
  have hreader : (l.carry i m).reader =
      l.reader.arrive i (·.feed ((l.inFlight i).take m)) := rfl
  rw [hlen] at hfeed
  rw [hnew] at hsum
  simp only [weight, hsize, hwriter, hreader, hfeed, hends]
  simp only [transit] at hsum
  omega

theorem Coupled.lighter_credit (h : Coupled n l) {i m : Nat} (pos : 0 < m)
    (le : m ≤ l.freed i) : (l.credit i m).weight < l.weight := by
  have hi := h.lt_of_freed pos le
  have hlt : i < l.pipes.length := h.size ▸ hi
  have hwire (j : Nat) : (l.credit i m).writer.wire j = l.writer.wire j :=
    Writer.wire_grantRoom l.writer i (some m) j
  have hsum := total_range_update (n := l.connections) (f := l.transit)
    (g := (l.credit i m).transit) hlt fun j hj => by
      simp only [transit, carried_credit, credited_credit hlt, hwire,
        if_neg (Ne.symm hj)]
      rfl
  have hnew : (l.credit i m).transit i =
      25 * ((l.writer.wire i).length - l.carried i) +
        ((l.writer.wire i).length - (l.credited i + m)) := by
    simp only [transit, carried_credit, credited_credit hlt, hwire, if_true]
  have hsize : (l.credit i m).connections = l.connections := by
    simp [connections, Link.credit]
  have hreader : (l.credit i m).reader = l.reader := rfl
  have hwriter : (l.credit i m).writer.weight = l.writer.weight :=
    Writer.weight_grantRoom l.writer i (some m)
  -- no more was granted than was carried, and no more carried than sent
  have hfreed : l.freed i = l.carried i - l.unread i - l.credited i := rfl
  have hcarried := h.carried i hi
  rw [hnew] at hsum
  simp only [weight, hsize, hwriter, hreader]
  simp only [transit] at hsum
  omega

theorem lighter_dry {i : Nat} (hdry : l.isDry i = true) :
    (l.dry i).weight < l.weight := by
  obtain ⟨lane, hl, hopen⟩ : ∃ lane, l.reader.lanes[i]? = some lane ∧
      lane.inlet.ended = false := by
    unfold isDry at hdry
    split at hdry
    · rename_i out lane _ hl
      simp only [Bool.and_eq_true, Bool.not_eq_true'] at hdry
      exact ⟨lane, hl, hdry.2⟩
    · cases hdry
  obtain ⟨hweight, hends⟩ := Reader.weight_close hl hopen
  have hreader : (l.dry i).reader = l.reader.arrive i (·.finish) := rfl
  have hsize : (l.dry i).connections = l.connections := rfl
  have hwriter : (l.dry i).writer = l.writer := rfl
  have htransit : (l.dry i).transit = l.transit := rfl
  simp only [weight, hreader, hsize, hwriter, htransit, hweight]
  omega

/-- **Every move of a link** makes the weight smaller. -/
theorem Coupled.lighter (h : Coupled n l) {e : Event}
    (he : e.isMove = true) (hs : l.move e = some l') :
    l'.weight < l.weight := by
  cases move_cases hs with
  | send step plain => exact h.lighter_send he step
  | room i m => cases he
  | receive step stays => exact h.lighter_receive he step
  | carry pos le => exact h.lighter_carry pos le
  | credit pos le => exact h.lighter_credit pos le
  | dry dry => exact lighter_dry dry

end Coupled

end Link

end Stripe
