import Stripe.Proofs.Link.Progress
import Stripe.Proofs.Writer.Fed

/-!
# The round trip

What one user sends over a link and finishes, the other user obtains, and
nothing fails (`round_trip`). `fares_run` follows a whole run; the rest is
what `Fares` says of the state after it: a reader that comes to the end of
the stream has filed every row to its terminal segment, so the writer was
finished, and has handed over all that was sent (`Fares.whole`).
-/

namespace Stripe.Link

open Segment

/-- What may come after an event: a side is not called again after it was
finished, or asked for the message. -/
def Event.allows : Event → Event → Bool
  | .send .finish, e => !e.isSending
  | .receive .message, e => !e.isReceiving
  | _, _ => true

/-- No side is called again after it was finished or used up. -/
def Orderly (es : List Event) : Prop :=
  es.Pairwise fun a b => a.allows b = true

instance (es : List Event) : Decidable (Orderly es) :=
  inferInstanceAs (Decidable (es.Pairwise fun a b => a.allows b = true))

/-- The bytes that a user has sent in the course of a run. -/
def sentBy (es : List Event) : Bytes := es.flatMap Event.sends

/-- The bytes that the other user gets in the course of a run. -/
def obtained : Link → List Event → Bytes :=
  logged (fun l l' => Reader.gained l.reader l'.reader) move

section Run

variable {sender receiver : Config} {capacities : List Nat} {l₀ l : Link}
  {es : List Event}

theorem Orderly.allowed (h : Orderly es) {past : List Event} {e : Event}
    (hfront : past ++ [e] <+: es) :
    (e.isSending = true → .send .finish ∉ past) ∧
      (e.isReceiving = true → .receive .message ∉ past) := by
  have hpair := List.Pairwise.sublist hfront.sublist h
  have hallows := (List.pairwise_append.1 hpair).2.2
  constructor
  · intro he hmem
    have := hallows _ hmem e (by simp)
    simp [Event.allows, he] at this
  · intro he hmem
    have := hallows _ hmem e (by simp)
    simp [Event.allows, he] at this

/-- **A link fares well along every run**, if the reader takes segments as
long as the writer makes them. -/
theorem fares_run (hmake : make sender receiver capacities = .ok l₀)
    (hn : capacities.length < Intake.countLimit)
    (hfits : sender.maxSegmentLen ≤ receiver.maxPayloadLen)
    (hes : ∀ e ∈ es, e.isPlain = true) (horder : Orderly es)
    (hsize : (sentBy es).length ≤ maxCount)
    (hrun : run move l₀ es = some l) :
    ∃ past, Fares capacities.length receiver.maxPayloadLen
      (fun i => capacities.getD i 0) (sentBy es) (.send .finish ∈ es)
      (.receive .message ∈ es) (obtained l₀ es) past l := by
  refine follow (P := fun front log l => ∃ past, Fares capacities.length
    receiver.maxPayloadLen (fun i => capacities.getD i 0) (sentBy front)
    (.send .finish ∈ front) (.receive .message ∈ front) log past l)
    ?_ ?_ hrun
  · simpa [sentBy] using fares_make hmake hn hfits
  · rintro front e log l l' hfront ⟨past, h⟩ hmove
    obtain ⟨hsend, hreceive⟩ := horder.allowed hfront
    have hsent : sentBy (front ++ [e]) = sentBy front ++ e.sends := by
      simp [sentBy]
    have hle : (sentBy (front ++ [e])).length ≤ maxCount := by
      obtain ⟨rest, rfl⟩ := hfront
      rw [sentBy, List.flatMap_append, List.length_append] at hsize
      exact Nat.le_trans (Nat.le_add_right _ _) hsize
    have hplain := hes e (hfront.subset (by simp))
    obtain ⟨past', h'⟩ := h.move hplain hsend hreceive (hsent ▸ hle) hmove
    rw [hsent]
    exact ⟨past', by simpa [eq_comm] using h'⟩

end Run

section Fares

variable {n maxPayload : Nat} {capacity : Nat → Nat} {sent : Bytes}
  {finished asked : Prop} {log : Bytes} {past : History} {l l' : Link}

/-- What arrives is at the front of what the worker at the other end was
handed. -/
theorem Fares.arrived_front (h : Fares n maxPayload capacity sent finished
    asked log past l) {i : Nat} (hi : i < n) :
    (past.input i).tape <+: Tape.clean (encodeAll (past.rows i)) := by
  rw [h.passes.arrived i hi]
  exact ((List.take_prefix _ _).trans
    (h.writer.inv.front hi)).map _

/-- A writer that has handed a worker its terminal segment was finished,
and owes nothing. -/
theorem Fares.all_sent (h : Fares n maxPayload capacity sent finished asked
    log past l) {i : Nat} (hi : i < n) (hend : Ended (past.rows i)) :
    finished ∧ joined past.fed = sent := by
  have hclosed : l.writer.stage = .closed := by
    rcases h.writer.inv.shaped hi with hopen | ⟨htold, _⟩
    · exact absurd hend hopen.not_ended
    · exact h.writer.inv.closed_of_told htold
  have howes := h.writer.owes
  cases h.writer.course with
  | resting call unasked stage => exact absurd hclosed stage
  | sending call part fits stage => exact absurd hclosed stage
  | stopping call asked =>
    rw [Writer.owed, call] at howes
    exact ⟨asked, by simpa [Writer.Call.owed] using howes⟩
  | shutting call asked fed =>
    rw [Writer.owed, call] at howes
    exact ⟨asked, by simpa [Writer.Call.owed] using howes⟩
  | finished call asked fed stage ans =>
    rw [Writer.owed, call] at howes
    exact ⟨asked, by simpa using howes⟩

/-- **A reader that comes to the end** has brought its user everything that
was sent, and the writer was finished. -/
theorem Fares.whole (h : Fares n maxPayload capacity sent finished asked
    log past l) {r : Reader} (ha : l.reader.advance = some r)
    (he : Reader.Ends l.reader r) :
    finished ∧ log ++ Reader.gained l.reader r = sent := by
  obtain ⟨hlog, hfiled⟩ := h.reader.ends h.promises ha he
  have hpos := h.writer.inv.pos
  -- the first row was filed to its end, so it was handed over to its end
  obtain ⟨out, hinv, hout⟩ := h.reader.serves
  have hgo : l.reader.cancelled = false := by
    obtain ⟨call, hc⟩ := Option.isSome_iff_exists.1 he.1
    exact h.reader.busy hc
  obtain ⟨rest, hrest⟩ :=
    ((hinv.ends (hout hgo) h.reader.unharmed hgo ha he).carries 0 hpos).tape
  rw [hfiled 0 hpos] at hrest
  have hle : Tape.clean (encodeAll (past.plan 0)) <+:
      Tape.clean (encodeAll (past.rows 0)) :=
    (List.prefix_append _ _).trans (hrest ▸ h.arrived_front hpos)
  have hplan := (h.yields.carries 0 hpos).ended
  have hrow : past.rows 0 = past.plan 0 := by
    refine eq_of_front (h.front 0 hpos) ?_
    have hlen := hle.length_le
    rwa [Tape.length_clean, Tape.length_clean] at hlen
  rw [← hrow] at hplan
  obtain ⟨hfin, hsent⟩ := h.all_sent hpos hplan
  exact ⟨hfin, hsent ▸ hlog⟩

/-- What was returned so far is the beginning of what was sent. -/
theorem Fares.log_front (h : Fares n maxPayload capacity sent finished
    asked log past l) : log <+: sent := by
  have hlog := Reader.Fares.log_front h.reader h.promises
  rw [← h.writer.owes]
  exact hlog.trans (List.prefix_append _ _)

/-- **The moves that can follow one another are limited.** -/
theorem Fares.moves_le (h : Fares n maxPayload capacity sent finished asked
    log past l) {moves : List Event} (hmoves : ∀ e ∈ moves, e.isMove = true)
    (hrun : run Link.move l moves = some l') :
    moves.length + l'.weight ≤ l.weight := by
  induction moves generalizing l log past sent finished asked with
  | nil =>
    cases hrun
    simp
  | cons e moves ih =>
    obtain ⟨l₁, hmove, hrest⟩ := Option.bind_eq_some_iff.1 hrun
    have he := hmoves e (by simp)
    obtain ⟨_, _, h₁⟩ := h.moved he hmove
    have hlater := ih h₁ (fun e' h' => hmoves e' (by simp [h'])) hrest
    have hlt := h.lighter he hmove
    rw [List.length_cons]
    omega

/-- **What both sides have counted** at the end. -/
theorem Fares.totals (h : Fares n maxPayload capacity sent finished asked
    log past l) (hfin : finished) (hover : l.writer.call = none) :
    l.writer.stats.totalBytes = sent.length ∧
      l.writer.stats.control = 1 ∧ l.writer.stats.terminated = n := by
  obtain ⟨_, hstats, hrows, hfed⟩ := h.writer.finished hfin hover
  have hcontrol : .control (.ofNat n) ∈ past.fed := by
    have hinv := h.writer.inv
    refine h.writer.control_mem ?_ (by simp [hover])
    intro hfresh
    rcases hinv.shaped hinv.pos with hopen | ⟨htold, _⟩
    · exact absurd (hrows 0 hinv.pos).1 hopen.not_ended
    · rw [hinv.closed_of_told htold] at hfresh
      cases hfresh
  obtain ⟨hbytes, _, hcount, hends⟩ := totals_tally h.writer.inv.given
    h.writer.inv.feeds (fun i => h.writer.inv.shaped) hcontrol
    fun i hi => (hrows i hi).1
  rw [hstats, ← hfed, ← h.writer.inv.feeds.cursor_eq]
  exact ⟨hbytes, hcount, hends⟩

end Fares

end Stripe.Link
