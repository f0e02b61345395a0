import Stripe.Proofs.Link.Passage
import Stripe.Proofs.Link.Plan
import Stripe.Proofs.Reader.Streaming

/-!
# Both sides of a link

A user sends bytes over a link and finishes the writer, and another user
reads. Then nothing fails on either side, whatever comes first. At any
time, what was handed over so far makes a transfer together with what is
still to come, and what has arrived is the beginning of it; so the reader
fares as one with good inputs does. `Fares` collects this, and every event
of the link keeps it (`Fares.move`).
-/

namespace Stripe.Link

open Segment

/-- What has happened on a link: the segments that each worker of the
writer was handed and has counted, and all of them in order; what has
arrived on each connection, the segments that the reader has filed of it,
and those that it may still count on. -/
structure History where
  rows : Nat → List Segment
  done : Nat → List Segment
  fed : List Segment
  input : Nat → Inlet
  filed : Nat → List Segment
  plan : Nat → List Segment

/-- How a link fares, after one user has sent `sent` and the other one was
returned `log`: nothing has failed. `finished` says that the writer was
finished, and `asked` that the reader was asked for the message. -/
structure Fares (n maxPayload : Nat) (capacity : Nat → Nat) (sent : Bytes)
    (finished asked : Prop) (log : Bytes) (past : History) (l : Link) :
    Prop where
  few : n < Intake.countLimit
  size : sent.length ≤ maxCount
  fits : l.writer.config.maxSegmentLen ≤ maxPayload
  writer : Writer.Fares n sent finished past.rows past.done past.fed
    l.writer
  passes : Passes n capacity past.rows past.input l
  front : ∀ i < n, past.rows i <+: past.plan i
  yields : Yields n maxPayload
    (fun i => .script [.chunk (encodeAll (past.plan i))]) past.plan
    (joined past.fed)
  reader : Reader.Fares n maxPayload past.plan (joined past.fed) asked
    past.input past.filed log l.reader

section Both

variable {n maxPayload : Nat} {capacity : Nat → Nat} {sent sent' : Bytes}
  {finished finished' asked : Prop} {log : Bytes} {past : History}
  {l l' : Link}

/-- No more was handed over than was sent. -/
theorem fed_le {rows done : Nat → List Segment} {fed : List Segment}
    {w : Writer} (h : Writer.Fares n sent finished rows done fed w) :
    (joined fed).length ≤ sent.length := by
  rw [← h.owes, List.length_append]
  exact Nat.le_add_right _ _

theorem Fares.promises (h : Fares n maxPayload capacity sent finished asked
    log past l) : Reader.Promises n maxPayload past.input past.plan
      (joined past.fed) :=
  h.passes.promises h.writer.inv h.front h.yields h.few
    (Nat.le_trans (fed_le h.writer) h.size)

/-- The writer has moved. -/
theorem Fares.of_writer (h : Fares n maxPayload capacity sent finished asked
    log past l) {rows done : Nat → List Segment} {fed : List Segment}
    {w : Writer} (hsize : sent'.length ≤ maxCount)
    (hw : Writer.Fares n sent' finished' rows done fed w)
    (hle : ∀ i, past.rows i <+: rows i)
    (config : w.config = l.writer.config)
    (wire : ∀ i, l.writer.wire i <+: w.wire i)
    (quota : ∀ i b, l.writer.quota i = some b →
      ∃ b', w.quota i = some b' ∧ b ≤ b') :
    ∃ past', Fares n maxPayload capacity sent' finished' asked log past'
      { l with writer := w } := by
  have hfed : (joined fed).length ≤ maxCount :=
    Nat.le_trans (fed_le hw) hsize
  have hfits : w.config.maxSegmentLen ≤ maxPayload := config ▸ h.fits
  obtain ⟨plan, hfront, hy⟩ := hw.prospect h.few hfed hfits
  have hpasses := h.passes.writer hw.inv hle wire quota
  have hnew : Reader.Promises n maxPayload past.input plan (joined fed) :=
    hpasses.promises hw.inv hfront hy h.few hfed
  exact ⟨⟨rows, done, fed, past.input, past.filed, plan⟩,
    { few := h.few
      size := hsize
      fits := hfits
      writer := hw
      passes := hpasses
      front := hfront
      yields := hy
      reader := h.reader.replan h.promises hnew }⟩

/-- **A move of the writer**, or a call to it. -/
theorem Fares.send (h : Fares n maxPayload capacity sent finished asked
    log past l) {e : Writer.Event} {w : Writer} (he : e.isPlain = true)
    (hcall : e.isCall = true → ¬ finished)
    (hsize : (sent ++ e.sends).length ≤ maxCount)
    (hs : l.writer.step e = some w) (hroom : ∀ i m, e ≠ .room i m) :
    ∃ past', Fares n maxPayload capacity (sent ++ e.sends)
      (finished ∨ e = .finish) asked log past'
      { l with writer := w } := by
  obtain ⟨rows, done, fed, hle, hw⟩ := h.writer.step he hcall hs
  have hflows := h.writer.flows he hroom hs
  refine h.of_writer hsize hw hle hflows.config hflows.wire ?_
  intro i b hb
  exact ⟨b, (hflows.quota i).trans hb, Nat.le_refl _⟩

/-- A pipe takes more than it could hold at first. -/
theorem Fares.room (h : Fares n maxPayload capacity sent finished asked
    log past l) (i m : Nat) : ∃ past',
      Fares n maxPayload capacity sent finished asked log past'
        { l with writer := l.writer.grantRoom i (some m) } := by
  refine h.of_writer h.size (h.writer.grantRoom i (some m))
    (fun _ => List.prefix_rfl) rfl ?_ ?_
  · intro j
    have hwire := Writer.wire_grantRoom l.writer i (some m) j
    exact hwire ▸ List.prefix_rfl
  · intro j b hb
    obtain ⟨b', hb', hle, _⟩ := Writer.quota_grantRoom (i := i) (m := m) hb
    exact ⟨b', hb', hle⟩

/-- Room is granted for bytes that were read. -/
theorem Fares.credit (h : Fares n maxPayload capacity sent finished asked
    log past l) {i m : Nat} (pos : 0 < m) (le : m ≤ l.freed i) :
    Fares n maxPayload capacity sent finished asked log past
      (l.credit i m) :=
  { h with
    writer := h.writer.grantRoom i (some m)
    passes := (h.passes.credit le pos).2 }

/-- **A move of the reader**, a call to it, or something that arrives. -/
theorem Fares.receive (h : Fares n maxPayload capacity sent finished asked
    log past l) {e : Reader.Event} {r : Reader} {pipes : List Pipe}
    (he : e.isPlain = true) (hcall : e.isCall = true → ¬ asked)
    (hs : l.reader.step e = some r)
    (hp : Passes n capacity past.rows (fun i => e.brings i (past.input i))
      { l with reader := r, pipes := pipes }) :
    ∃ past', Fares n maxPayload capacity sent finished
      (asked ∨ e = .message) (log ++ Reader.gained l.reader r) past'
      { l with reader := r, pipes := pipes } := by
  have hnew := hp.promises h.writer.inv h.front h.yields h.few
    (Nat.le_trans (fed_le h.writer) h.size)
  obtain ⟨filed, _, hr⟩ := h.reader.step hnew he hcall hs
  exact ⟨{ past with
      input := fun i => e.brings i (past.input i)
      filed := filed },
    { few := h.few
      size := h.size
      fits := h.fits
      writer := h.writer
      passes := hp
      front := h.front
      yields := h.yields
      reader := hr }⟩

/-- **Every event** keeps a link faring well, unless a side is called again
after it was finished or used up. -/
theorem Fares.move (h : Fares n maxPayload capacity sent finished asked
    log past l) {e : Event} (he : e.isPlain = true)
    (hsend : e.isSending = true → ¬ finished)
    (hreceive : e.isReceiving = true → ¬ asked)
    (hsize : (sent ++ e.sends).length ≤ maxCount)
    (hs : l.move e = some l') :
    ∃ past', Fares n maxPayload capacity (sent ++ e.sends)
      (finished ∨ e = .send .finish) (asked ∨ e = .receive .message)
      (log ++ Reader.gained l.reader l'.reader) past' l' := by
  have hnone : log ++ Reader.gained l.reader l.reader = log := by
    rw [Reader.gained_of_call_eq rfl, List.append_nil]
  cases move_cases hs with
  | @send e w step plain =>
    obtain ⟨past', h'⟩ := h.send he hsend hsize step plain
    rw [hnone]
    exact ⟨past', by simpa [Event.sends] using h'⟩
  | room i m =>
    obtain ⟨past', h'⟩ := h.room i m
    rw [hnone]
    exact ⟨past', by simpa [Event.sends, Writer.Event.sends] using h'⟩
  | @receive e r step stays =>
    have hpasses : Passes n capacity past.rows
        (fun i => e.brings i (past.input i)) { l with reader := r } := by
      simp only [stays]
      exact { h.passes with }
    obtain ⟨past', h'⟩ := h.receive he hreceive step hpasses
    exact ⟨past', by simpa [Event.sends] using h'⟩
  | @carry i m pos le =>
    obtain ⟨_, hpasses⟩ := h.passes.carry h.writer.inv.size pos le
    obtain ⟨past', h'⟩ := h.receive (e := .feed i _) rfl
      (by simp [Reader.Event.isCall]) rfl hpasses
    refine ⟨past', ?_⟩
    simp only [Event.sends, List.append_nil, reduceCtorEq, or_false]
      at h' ⊢
    exact h'
  | @credit i m pos le =>
    have h' := h.credit pos le
    have hsame : (l.credit i m).reader = l.reader := rfl
    rw [hsame, hnone]
    exact ⟨past, by simpa [Event.sends] using h'⟩
  | @dry i dry =>
    obtain ⟨_, hpasses⟩ := h.passes.dry h.writer dry
    obtain ⟨past', h'⟩ := h.receive (e := .close i) rfl
      (by simp [Reader.Event.isCall]) rfl hpasses
    refine ⟨past', ?_⟩
    simp only [Event.sends, List.append_nil, reduceCtorEq, or_false]
      at h' ⊢
    exact h'

/-- Nothing has arrived over new pipes. -/
theorem passes_make {sender receiver : Config} {capacities : List Nat}
    (h : make sender receiver capacities = .ok l) :
    Passes capacities.length (fun i => capacities.getD i 0)
      (fun _ => []) (Reader.arrived []) l := by
  obtain ⟨w, r, hw, _, rfl⟩ := make_eq_ok h
  obtain ⟨_, _, rfl⟩ := Writer.make_eq_ok hw
  have hpipe (i : Nat) (hi : i < capacities.length) :
      (capacities.map fun _ => (⟨0, 0⟩ : Pipe))[i]? = some ⟨0, 0⟩ := by
    simp [hi]
  refine ⟨by simp, ?_, ?_, ?_, ?_, ?_⟩
  · intro i hi
    rw [carried_eq (hpipe i hi)]
    rfl
  · intro i hi
    rw [carried_eq (hpipe i hi)]
    exact Nat.zero_le _
  · intro i hi
    rw [credited_eq (hpipe i hi)]
    exact Nat.zero_le _
  · intro i hi
    rw [credited_eq (hpipe i hi)]
    refine ⟨capacities.getD i 0, ?_, Nat.le_refl _⟩
    simp [Writer.quota, hi, outlet, Outlet.quota, Outlet.wire,
      Outlet.unlimited]
  · intro i _ hend
    cases hend

/-- **A link fares well at first**, if the reader takes segments as long as
the writer makes them. -/
theorem fares_make {sender receiver : Config} {capacities : List Nat}
    (h : make sender receiver capacities = .ok l)
    (hn : capacities.length < Intake.countLimit)
    (hfits : sender.maxSegmentLen ≤ receiver.maxPayloadLen) :
    ∃ past, Fares capacities.length receiver.maxPayloadLen
      (fun i => capacities.getD i 0) [] False False [] past l := by
  have hpasses := passes_make h
  obtain ⟨w, r, hw, hr, rfl⟩ := make_eq_ok h
  have hblank (c : Outlet) (hc : c ∈ capacities.map outlet) :
      c.log = #[] ∧ c.Sound ∧ c.closed = false := by
    obtain ⟨room, _, rfl⟩ := List.mem_map.1 hc
    exact ⟨rfl, ⟨rfl, rfl, rfl, by simp [outlet, Outlet.unlimited]⟩, rfl⟩
  have hfares := Writer.fares_make hw hblank
  rw [List.length_map] at hfares
  have hwfits : w.config.maxSegmentLen ≤ receiver.maxPayloadLen := by
    obtain ⟨_, _, rfl⟩ := Writer.make_eq_ok hw
    exact hfits
  obtain ⟨plan, hfront, hy⟩ :=
    hfares.prospect hn (Nat.zero_le _) hwfits
  exact ⟨⟨fun _ => [], fun _ => [], [], Reader.arrived [], fun _ => [],
    plan⟩,
    { few := hn
      size := Nat.zero_le _
      fits := hwfits
      writer := hfares
      passes := hpasses
      front := hfront
      yields := hy
      reader := Reader.fares_make hr }⟩

end Both

end Stripe.Link
