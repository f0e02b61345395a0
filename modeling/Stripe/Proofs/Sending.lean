import Stripe.Proofs.Wire
import Stripe.Outlet

/-!
# Writing to a connection

One write call moves the next bytes of a segment from the worker to the
wire and does nothing else (`write_spec`), so what is on the wire and what
is still to be written always make up whole segments. A *sound* outlet
never fails: a write call on it takes a byte, or waits for room
(`write_eq_none`).
-/

namespace Stripe

namespace Outlet

/-- Nothing fails on the outlet. -/
structure Sound (c : Outlet) : Prop where
  fault : c.fault = none
  flush : c.flushError = none
  shutdown : c.shutdownError = none
  maxWrite : c.maxWrite ≠ some 0

@[simp] theorem wire_flush (c : Outlet) : c.flush.2.wire = c.wire := rfl

@[simp] theorem wire_shutdown (c : Outlet) :
    c.shutdown.2.wire = c.wire := rfl

@[simp] theorem wire_grantRoom (n : Option Nat) (c : Outlet) :
    (c.grantRoom n).wire = c.wire := rfl

theorem atMost_le (n : Nat) (limit : Option Nat) : atMost n limit ≤ n := by
  cases limit with
  | none => exact Nat.le_refl n
  | some m => exact Nat.min_le_left n m

theorem atMost_pos {n : Nat} {limit : Option Nat} (hn : 0 < n)
    (hl : limit ≠ some 0) : 0 < atMost n limit := by
  cases limit with
  | none => exact hn
  | some m =>
    have hm : m ≠ 0 := fun h => hl (h ▸ rfl)
    show 0 < min n m
    omega

theorem grant_le (c : Outlet) (count : Nat) : c.grant count ≤ count := by
  refine Nat.le_trans (atMost_le _ _) ?_
  exact Nat.le_trans (atMost_le _ _) (atMost_le _ _)

theorem grant_le_room {c : Outlet} {count r : Nat} (hr : c.room = some r) :
    c.grant count ≤ r := by
  unfold grant
  rw [hr]
  exact Nat.min_le_right _ _

/-- How many bytes the outlet takes in all, if there is a limit. -/
def quota (c : Outlet) : Option Nat := c.room.map (c.wire.length + ·)

/-- A sound outlet that has room takes a byte. -/
theorem grant_pos {c : Outlet} {count : Nat} (h : c.Sound)
    (hc : 0 < count) (hr : c.room ≠ some 0) : 0 < c.grant count := by
  apply atMost_pos _ hr
  apply atMost_pos _ h.maxWrite
  rw [h.fault]
  exact hc

/-- What a write call of `bytes` does to an outlet. -/
inductive Offers (bytes : Bytes) (c : Outlet) : Outcome → Outlet → Prop where
  | took {count : Nat} {c' : Outlet} (le : count ≤ bytes.length)
      (wire : c'.wire = c.wire ++ bytes.take count)
      (closed : c'.closed = c.closed) (sound : c.Sound → c'.Sound)
      (pos : c.Sound → bytes ≠ [] → 0 < count)
      (quota : c'.quota = c.quota) : Offers bytes c (.took count) c'
  | failed {cause : IoError} {c' : Outlet} (wire : c'.wire = c.wire)
      (unsound : ¬ c.Sound) : Offers bytes c (.failed cause) c'
  | panicked {message : String} {c' : Outlet} (wire : c'.wire = c.wire)
      (unsound : ¬ c.Sound) : Offers bytes c (.panicked message) c'
  | blocked {c' : Outlet} (full : c.Sound → c.room = some 0) :
      Offers bytes c .blocked c'

theorem take_spec (bytes : Bytes) (c : Outlet) :
    Offers bytes c (c.take bytes).1 (c.take bytes).2 := by
  unfold take
  by_cases hr : c.room = some 0
  · rw [if_pos hr]
    exact .blocked fun _ => hr
  · rw [if_neg hr]
    have hwire : wire { c with
        log := c.log.appendList (bytes.take (c.grant bytes.length))
        room := c.room.map (· - c.grant bytes.length) } =
        c.wire ++ bytes.take (c.grant bytes.length) := by
      simp [wire]
    refine .took (c.grant_le _) hwire rfl ?_ ?_ ?_
    · intro h
      exact ⟨h.fault, h.flush, h.shutdown, h.maxWrite⟩
    · intro h hne
      exact grant_pos h (List.length_pos_iff.2 hne) hr
    · -- the call takes from the room what it puts on the wire
      have hle := c.grant_le bytes.length
      unfold quota
      rw [hwire]
      cases hroom : c.room with
      | none => rfl
      | some r =>
        have hroom' : c.grant bytes.length ≤ r := grant_le_room hroom
        simp only [Option.map_some, List.length_append, List.length_take,
          Option.some.injEq]
        omega

theorem due_of_sound {c : Outlet} (h : c.Sound) : c.due = none := by
  simp [due, h.fault]

/-- **One write call of an outlet**: it takes some of the bytes, or none
because it has failed or has no room. -/
theorem offer_spec (bytes : Bytes) (c : Outlet) :
    Offers bytes c (c.offer bytes).1 (c.offer bytes).2 := by
  unfold offer
  split
  · exact take_spec bytes c
  · rename_i hdue
    have hno : ¬ c.Sound := fun h => by simp [due_of_sound h] at hdue
    exact .took (Nat.zero_le _) (by simp) rfl id (fun h => absurd h hno) rfl
  · rename_i hdue
    have hno : ¬ c.Sound := fun h => by simp [due_of_sound h] at hdue
    exact .panicked rfl hno
  · rename_i cause once hdue
    have hno : ¬ c.Sound := fun h => by simp [due_of_sound h] at hdue
    -- without the fault the call goes on like any other one
    have htake : Offers bytes c (take bytes { c with fault := none }).1
        (take bytes { c with fault := none }).2 := by
      have hspec := take_spec bytes { c with fault := none }
      generalize take bytes { c with fault := none } = r at hspec ⊢
      obtain ⟨outcome, c₁⟩ := r
      cases hspec with
      | took le wire closed _ _ quota =>
        exact .took le wire closed (fun h => absurd h hno)
          (fun h => absurd h hno) quota
      | failed wire _ => exact .failed wire hno
      | panicked wire _ => exact .panicked wire hno
      | blocked _ => exact .blocked fun h => absurd h hno
    by_cases hi : cause.kind = .interrupted
    · cases once with
      | true => simpa [hi] using htake
      | false =>
        simp only [hi, Bool.false_eq_true, if_false, if_true]
        exact .blocked fun h => absurd h hno
    · cases once <;> simp only [hi, if_false] <;> exact .failed rfl hno

end Outlet

namespace Outgoing

theorem isEmpty_iff {o : Outgoing} : o.isEmpty = true ↔ o.bytes = [] := by
  simp [isEmpty, bytes]

@[simp] theorem bytes_ofSegment (s : Segment) :
    (ofSegment s).bytes = s.encode := rfl

theorem bytes_ofSegment_ne_nil (s : Segment) :
    (ofSegment s).bytes ≠ [] := by
  intro h
  have hle := s.size_le_length_encode
  rw [← bytes_ofSegment, h] at hle
  simp [Header.size] at hle

/-- What a call offers is at the front of what is left. -/
theorem bytes_drop (o : Outgoing) (count : Nat) :
    o.bytes = o.next.take count ++ (o.drop count).bytes := by
  unfold next drop bytes
  by_cases he : o.header.isEmpty = true
  · have hnil : o.header = [] := by simpa using he
    simp [hnil]
  · simp only [he, Bool.false_eq_true, if_false, ← List.append_assoc,
      List.take_append_drop]

theorem next_ne_nil {o : Outgoing} (h : o.bytes ≠ []) : o.next ≠ [] := by
  unfold next
  by_cases he : o.header.isEmpty = true
  · rw [if_pos he]
    intro hp
    simp_all [bytes]
  · rw [if_neg he]
    simpa using he

/-- What a write call does to the rest of a segment and to its outlet. -/
inductive Writes (o : Outgoing) (c : Outlet) : Progress → Outlet → Prop where
  | more {rest : Outgoing} {bs : Bytes} {c' : Outlet} (pos : bs ≠ [])
      (left : rest.bytes ≠ []) (bytes : o.bytes = bs ++ rest.bytes)
      (wire : c'.wire = c.wire ++ bs) (closed : c'.closed = c.closed)
      (sound : c.Sound → c'.Sound) (quota : c'.quota = c.quota) :
      Writes o c (.more rest) c'
  | done {c' : Outlet} (wire : c'.wire = c.wire ++ o.bytes)
      (closed : c'.closed = c.closed) (sound : c.Sound → c'.Sound)
      (quota : c'.quota = c.quota) : Writes o c .done c'
  | failed {cause : IoError} {c' : Outlet} (wire : c'.wire = c.wire)
      (unsound : ¬ c.Sound) : Writes o c (.failed cause) c'
  | panicked {message : String} {c' : Outlet} (wire : c'.wire = c.wire)
      (unsound : ¬ c.Sound) : Writes o c (.panicked message) c'

/-- **One write call of a worker**: it moves the next bytes to the wire, or
fails. -/
theorem write_spec {o : Outgoing} {c c' : Outlet} {p : Progress}
    (hne : o.bytes ≠ []) (h : o.write c = some (p, c')) :
    Writes o c p c' := by
  have hnext := next_ne_nil hne
  have hoffer := Outlet.offer_spec o.next c
  unfold write at h
  generalize c.offer o.next = r at h hoffer
  obtain ⟨outcome, c₁⟩ := r
  cases hoffer with
  | blocked _ => cases h
  | failed wire unsound =>
    cases h
    exact .failed wire unsound
  | panicked wire unsound =>
    cases h
    exact .panicked wire unsound
  | @took count _ le wire closed sound pos quota =>
    cases count with
    | zero =>
      cases h
      refine .failed (by simpa using wire) fun hs => ?_
      exact absurd (pos hs hnext) (Nat.lt_irrefl 0)
    | succ count =>
      have hbytes := o.bytes_drop (count + 1)
      cases h
      by_cases he : (o.drop (count + 1)).isEmpty = true
      · simp only [he, if_true]
        rw [isEmpty_iff.1 he, List.append_nil] at hbytes
        exact .done (hbytes ▸ wire) closed sound quota
      · simp only [he, Bool.false_eq_true, if_false]
        refine .more ?_ (fun hb => he (isEmpty_iff.2 hb)) hbytes wire closed
          sound quota
        rw [← List.length_pos_iff, List.length_take]
        omega

/-- A worker waits only where the outlet has no room. -/
theorem write_eq_none {o : Outgoing} {c : Outlet}
    (hs : c.Sound) (h : o.write c = none) : c.room = some 0 := by
  have hoffer := Outlet.offer_spec o.next c
  unfold write at h
  generalize c.offer o.next = r at h hoffer
  obtain ⟨outcome, c₁⟩ := r
  cases hoffer with
  | blocked full => exact full hs
  | failed _ _ => cases h
  | panicked _ _ => cases h
  | @took count _ _ _ _ _ _ _ => cases count <;> cases h

end Outgoing

open Segment

/-! ## Writing a row -/

/-- What is left of a segment was written by calls that take some of it
each; in between, the other side may grant room. -/
inductive Outgoing.Written : Outgoing → Outlet → Outlet → Prop where
  | room {o : Outgoing} {c c' : Outlet} (n : Option Nat)
      (later : Written o (c.grantRoom n) c') : Written o c c'
  | more {o rest : Outgoing} {c c₁ c' : Outlet}
      (call : o.write c = some (.more rest, c₁))
      (later : Written rest c₁ c') : Written o c c'
  | done {o : Outgoing} {c c' : Outlet}
      (call : o.write c = some (.done, c')) : Written o c c'

/-- A row of segments was written, one segment after the other. -/
inductive WrittenAll : List Segment → Outlet → Outlet → Prop where
  | nil (c : Outlet) : WrittenAll [] c c
  | cons {s : Segment} {segs : List Segment} {c c₁ c' : Outlet}
      (first : (Outgoing.ofSegment s).Written c c₁)
      (rest : WrittenAll segs c₁ c') : WrittenAll (s :: segs) c c'

theorem Outgoing.Written.wire {o : Outgoing} {c c' : Outlet}
    (h : o.Written c c') (hne : o.bytes ≠ []) :
    c'.wire = c.wire ++ o.bytes := by
  induction h with
  | room n later ih => exact ih hne
  | more call later ih =>
    cases write_spec hne call with
    | more pos left bytes wire closed sound quota =>
      rw [ih left, wire, bytes, List.append_assoc]
  | done call =>
    cases write_spec hne call with
    | done wire closed sound quota => exact wire

/-- **However a row is written**, its encoded form is added to the wire. -/
theorem WrittenAll.wire {segs : List Segment} {c c' : Outlet}
    (h : WrittenAll segs c c') : c'.wire = c.wire ++ encodeAll segs := by
  induction h with
  | nil c => simp
  | cons first rest ih =>
    rw [ih, first.wire (Outgoing.bytes_ofSegment_ne_nil _),
      Outgoing.bytes_ofSegment, List.append_assoc, encodeAll_cons]

/-- Nothing fails on the outlet, and it never blocks. -/
def Outlet.Ready (c : Outlet) : Prop := c.Sound ∧ c.room = none

theorem Outlet.Ready.of_quota {c c' : Outlet} (h : c.Ready)
    (sound : c.Sound → c'.Sound) (quota : c'.quota = c.quota) :
    c'.Ready := by
  refine ⟨sound h.1, ?_⟩
  simp only [Outlet.quota, h.2, Option.map_none, Option.map_eq_none_iff]
    at quota
  exact quota

/-- An outlet that is ready takes whole segments, a byte or more at each
call. -/
theorem Outgoing.run_of_ready {fuel : Nat} {o : Outgoing} {c : Outlet}
    (h : c.Ready) (hne : o.bytes ≠ []) (hfuel : o.bytes.length ≤ fuel) :
    ∃ c', Outgoing.run fuel o c = (.done, c') ∧ o.Written c c' ∧
      c'.Ready := by
  induction fuel generalizing o c with
  | zero => exact absurd (List.eq_nil_of_length_eq_zero (by omega)) hne
  | succ fuel ih =>
    unfold Outgoing.run
    cases hw : o.write c with
    | none =>
      have hfull := write_eq_none h.1 hw
      rw [h.2] at hfull
      cases hfull
    | some r =>
      obtain ⟨p, c₁⟩ := r
      cases write_spec hne hw with
      | failed wire unsound => exact absurd h.1 unsound
      | panicked wire unsound => exact absurd h.1 unsound
      | done wire closed sound quota =>
        exact ⟨c₁, rfl, .done hw, h.of_quota sound quota⟩
      | more pos left bytes wire closed sound quota =>
        have hpos := List.length_pos_iff.2 pos
        have hlen := congrArg List.length bytes
        rw [List.length_append] at hlen
        obtain ⟨c', hrun, hwritten, hready⟩ :=
          ih (h.of_quota sound quota) left (by omega)
        exact ⟨c', hrun, .more hw hwritten, hready⟩

theorem writeSegments_of_ready {c : Outlet} (h : c.Ready)
    (segs : List Segment) :
    (writeSegments segs c).1 = segs.map (fun _ => .done) ∧
      WrittenAll segs c (writeSegments segs c).2 := by
  induction segs generalizing c with
  | nil => exact ⟨rfl, .nil c⟩
  | cons s segs ih =>
    obtain ⟨c₁, hrun, hfirst, hready⟩ := Outgoing.run_of_ready h
      (Outgoing.bytes_ofSegment_ne_nil s) (Nat.le_refl s.encode.length)
    obtain ⟨hdone, hrest⟩ := ih hready
    have hwrite : writeSegment s c = (.done, c₁) := hrun
    simp only [writeSegments, hwrite, List.map_cons, hdone]
    exact ⟨trivial, .cons hfirst hrest⟩

end Stripe
