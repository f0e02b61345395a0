import Stripe.Proofs.Runs
import Stripe.Proofs.Writer.Preservation

/-!
# What the calls to a writer have sent

Beside a run goes a record of the bytes that each call was given, of how
many of them it has handed over, and of the segments that were handed over.
Only `Writer.cursor` is read for that, never what a call has in mind.
`Record.Fits` says that what the call in flight has in mind is what it has
yet to hand over. So the segments carry the bytes of the calls, and a call
that returns has handed over as much as it says (`Fits.advance`).
-/

namespace Stripe.Writer

open Segment

/-- The bytes that a call is given to send. -/
def Event.content : Event → Bytes
  | .write bytes | .writeAll bytes => bytes
  | .copyFrom source | .sendFrom source => (Inlet.script source).content
  | _ => []

/-- What has been handed over. -/
structure Record where
  /-- The segments, in order. -/
  fed : List Segment
  /-- The bytes: of each call the first ones that it was given, as many as
  the cursor has moved on. -/
  stream : Bytes
  /-- The bytes that the last call was given and has not handed over. -/
  rest : Bytes
  /-- How many bytes the last call has handed over. -/
  count : Nat

namespace Record

def blank : Record := ⟨[], [], [], 0⟩

/-- The record after an event that has led from `w` to `w'`. -/
def next (k : Record) (w w' : Writer) (e : Event) : Record :=
  if e.isCall then { k with rest := e.content, count := 0 }
  else
    let grown := w'.cursor - w.cursor
    { fed := k.fed ++ handed w w'
      stream := k.stream ++ k.rest.take grown
      rest := k.rest.drop grown
      count := k.count + grown }

/-- What the record says of a call that has come to an answer. -/
def Bears (k : Record) : Answer → Prop
  | .wrote count => k.count = count
  | .done | .finished _ => k.rest = []
  | .copied count => k.count = count ∧ k.rest = []
  | .failed _ => True

end Record

/-- The record of a run. -/
def recordOf (w : Writer) (es : List Event) : Record :=
  kept Record.next step .blank w es

/-- A job that is to hand `rest` over, after `count` bytes of its call. -/
def Job.Due (rest : Bytes) (count : Nat) : Job → Prop
  | .write bytes => rest = bytes ∧ count = 0
  | .wrote sent => count = sent
  | .writeAll bytes => rest = bytes
  | .copy source sent ended _ =>
    rest = (Inlet.script source).content ∧ count = sent ∧
      (ended = true → rest = [])
  | .finish copied => copied = none → rest = []

/-- The same of a call. -/
def Call.Due (rest : Bytes) (count : Nat) : Call → Prop
  | .opening job | .working job => job.Due rest count
  | .offering s job => ∃ later, rest = s.payload ++ later ∧
      job.Due later (count + s.length)
  | .stopping started copied | .shutting _ _ started copied =>
    started = none → copied = none → rest = []

/-- The record fits the state of the writer. -/
structure Record.Fits (k : Record) (w : Writer) : Prop where
  carried : joined k.fed = k.stream
  due : ∀ c, w.call = some c → c.Due k.rest k.count

/-- The same after a move of the call; if it is over, its answer is true. -/
structure Record.Tells (k : Record) (w : Writer) : Prop
    extends k.Fits w where
  answers : w.call = none → ∀ a, w.answer = some a → k.Bears a

section Fits

variable {n : Nat} {loose : Prop} {rows done : Nat → List Segment}
  {fed : List Segment} {k : Record} {w w' : Writer}

/-- Nothing was handed over. -/
theorem Record.next_still {e : Event} (he : e.isCall = false)
    (hcursor : w'.cursor = w.cursor) (hhanded : handed w w' = []) :
    k.next w w' e = k := by
  simp [Record.next, he, hcursor, hhanded]

theorem fits_blank (h : w.call = none) : Record.blank.Fits w :=
  ⟨rfl, by simp [h]⟩

theorem Record.tells_going {c : Call} (carried : joined k.fed = k.stream)
    (hc : w.call = some c) (hdue : c.Due k.rest k.count) : k.Tells w := by
  refine ⟨⟨carried, ?_⟩, ?_⟩
  · intro c' hc'
    rw [hc] at hc'
    cases hc'
    exact hdue
  · intro hn
    rw [hc] at hn
    cases hn

theorem Record.tells_over {a : Answer} (carried : joined k.fed = k.stream)
    (ha : k.Bears a) : k.Tells (w.conclude a) := by
  refine ⟨⟨carried, by simp [conclude]⟩, fun _ b hb => ?_⟩
  cases hb
  exact ha

/-- A call that cannot go on says so. -/
theorem Record.Fits.reject (h : k.Fits w) (v : Writer) (e : Error)
    (job : Job) : k.Tells (v.reject e job) := by
  generalize hr : v.reject e job = v'
  cases reject_cases hr with
  | turn => exact tells_going h.carried rfl fun hn => nomatch hn
  | close stage => exact tells_going h.carried rfl fun hn => nomatch hn
  | fails e' => exact tells_over h.carried trivial

/-- The call goes on with its job. -/
theorem Record.Fits.proceed (h : k.Fits w) {job : Job}
    (hm : 0 < w.config.maxSegmentLen) (hc : w.call = some (.working job))
    (hp : Proceeds w job w') : w'.cursor = w.cursor ∧ k.Tells w' := by
  have hdue : job.Due k.rest k.count := h.due _ hc
  cases hp with
  | nothing => exact ⟨rfl, tells_over h.carried hdue.2⟩
  | @piece bytes pos =>
    obtain ⟨hrest, hcount⟩ := hdue
    refine ⟨rfl, tells_going h.carried rfl
      ⟨bytes.drop w.config.maxSegmentLen, ?_, ?_⟩⟩
    · rw [hrest]
      exact (List.take_append_drop _ _).symm
    · rw [hcount]
      exact Nat.zero_add _
  | wrote => exact ⟨rfl, tells_over h.carried hdue⟩
  | sent => exact ⟨rfl, tells_over h.carried hdue⟩
  | @chunk bytes pos =>
    refine ⟨rfl, tells_going h.carried rfl
      ⟨bytes.drop w.config.maxSegmentLen, ?_, rfl⟩⟩
    exact Eq.trans hdue (List.take_append_drop _ _).symm
  | broken fill => exact ⟨cursor_reject _ _ _, h.reject _ _ _⟩
  | @drained source rest count last fill =>
    obtain ⟨hrest, hcount, _⟩ := hdue
    -- the source was asked for a byte, and has none
    have hnil := content_fill fill
    rw [fill_short fill hm] at hnil ⊢
    have hempty : k.rest = [] := hrest.trans hnil
    exact ⟨rfl, tells_going h.carried rfl ⟨hempty, hcount, fun _ => hempty⟩⟩
  | @cut source rest bytes count last pos fill =>
    obtain ⟨hrest, hcount, _⟩ := hdue
    refine ⟨rfl, tells_going h.carried rfl
      ⟨_, hrest.trans (content_fill fill), rfl, ?_, ?_⟩⟩
    · rw [hcount]
      rfl
    · intro hshort
      rw [fill_short fill (of_decide_eq_true hshort)]
      rfl
  | copied => exact ⟨rfl, tells_over h.carried ⟨hdue.2.1, hdue.2.2 rfl⟩⟩
  | turn => exact ⟨rfl, tells_going h.carried rfl fun _ => hdue.2.2 rfl⟩
  | close => exact ⟨rfl, tells_going h.carried rfl fun _ => hdue⟩

/-- **What a call hands over is what it was given**, and what it returns is
true. -/
theorem Record.Fits.advance (h : k.Fits w)
    (hm : 0 < w.config.maxSegmentLen) (ha : w.advance = some w') :
    (k.next w w' .advance).Tells w' := by
  have hstill (hcursor : w'.cursor = w.cursor) (hhanded : handed w w' = [])
      (ht : k.Tells w') : (k.next w w' .advance).Tells w' := by
    rwa [k.next_still rfl hcursor hhanded]
  have hidle {call : Call} (hc : w.call = some call)
      (hno : ∀ s job, call ≠ .offering s job) : handed w w' = [] := by
    refine handed_of_not_offering fun s job he => ?_
    rw [hc] at he
    exact hno s job (Option.some.inj he)
  cases advance_cases hm ha with
  | @start job call stage =>
    exact hstill rfl (hidle call (by simp))
      (tells_going h.carried rfl ⟨k.rest, rfl, h.due _ call⟩)
  | @resume job call stage =>
    have hdue : job.Due k.rest k.count := h.due _ call
    exact hstill rfl (hidle call (by simp))
      (tells_going (c := .working job) h.carried rfl hdue)
  | late call stage =>
    exact hstill (cursor_reject _ _ _) (hidle call (by simp)) (h.reject _ _ _)
  | abort call stopped =>
    exact hstill (cursor_reject _ _ _) (handed_reject _ _ _ _)
      (h.reject _ _ _)
  | alone call going send fails waits =>
    exact hstill (cursor_reject _ _ _) (handed_reject _ _ _ _)
      (h.reject _ _ _)
  | @hand s job i h' call going send =>
    obtain ⟨later, hrest, hdue⟩ := h.due _ call
    have hgrown : w.cursor + s.length - w.cursor = s.payload.length :=
      Nat.add_sub_cancel_left ..
    have hnext : k.next w ({ w with
        handoff := h', cursor := w.cursor + s.length }.setCall
          (.working job)) .advance =
        ⟨k.fed ++ [s], k.stream ++ s.payload, later, k.count + s.length⟩ := by
      simp only [next, Event.isCall, Bool.false_eq_true, if_false, handed,
        call, setCall, hgrown, hrest, List.take_left, List.drop_left]
      rfl
    rw [hnext]
    refine tells_going (c := .working job) ?_ rfl hdue
    rw [joined_append, h.carried]
    simp
  | proceed call proceeds =>
    obtain ⟨hcursor, ht⟩ := h.proceed hm call proceeds
    exact hstill hcursor (hidle call (by simp)) ht
  | announce call owner =>
    exact hstill rfl (hidle call (by simp))
      (tells_going h.carried call (h.due _ call))
  | tally call owner count =>
    exact hstill rfl (hidle call (by simp))
      (tells_going h.carried call (h.due _ call))
  | @settle started copied acknowledged b' call owner count =>
    have hdue : started = none → copied = none → k.rest = [] := h.due _ call
    exact hstill rfl (hidle call (by simp))
      (tells_going (c := .shutting 0 acknowledged started copied)
        h.carried rfl hdue)
  | @shut next acknowledged started copied call lt =>
    have hcursor := (shutLane_spec w next).2.1.2.1
    have hdue : started = none → copied = none → k.rest = [] := h.due _ call
    exact hstill hcursor (hidle call (by simp))
      (tells_going (c := .shutting (next + 1) acknowledged started copied)
        h.carried rfl hdue)
  | @conclude next acknowledged started copied call le =>
    refine hstill rfl (hidle call (by simp)) (tells_over h.carried ?_)
    have hdue := h.due _ call
    unfold outcome
    split
    · trivial
    · cases started with
      | some e => trivial
      | none =>
        simp only
        split
        · trivial
        · cases copied with
          | some e => trivial
          | none => exact hdue rfl rfl

theorem Event.Begins.due {e : Event} {job : Job} (h : e.Begins job) :
    job.Due e.content 0 := by
  cases h with
  | write => exact ⟨rfl, rfl⟩
  | writeAll => rfl
  | copyFrom => exact ⟨rfl, rfl, nofun⟩
  | sendFrom => exact ⟨rfl, rfl, nofun⟩
  | finish => exact fun _ => rfl

/-- **Every event** keeps the record in order. -/
theorem Record.Fits.step (h : k.Fits w) (hinv : Inv n loose rows done fed w)
    {e : Event} (hs : w.step e = some w') : (k.next w w' e).Fits w' := by
  have hstill (he : e.isCall = false) (hcursor : w'.cursor = w.cursor)
      (hcall : w'.call = w.call ∨ w'.call = none) :
      (k.next w w' e).Fits w' := by
    have hhanded : handed w w' = [] := by
      rcases hcall with hc | hc
      · exact handed_of_call_eq hc
      · exact handed_of_not_working (by simp [hc])
    rw [k.next_still he hcursor hhanded]
    refine ⟨h.carried, fun c hc => ?_⟩
    rcases hcall with hc' | hc'
    · exact h.due c (hc' ▸ hc)
    · rw [hc'] at hc
      cases hc
  cases step_cases hs with
  | work work =>
    have hframe := (hinv.worked work).frame
    exact hstill rfl hframe.2.2.1 (.inl hframe.2.2.2.1)
  | advance advance => exact (h.advance hinv.maxLen advance).toFits
  | begin idle begins =>
    rw [Record.next, if_pos begins.isCall]
    refine ⟨h.carried, ?_⟩
    rintro c ⟨⟩
    exact begins.due
  | abandon busy => exact hstill rfl (by simp) (.inr (by simp))
  | cancel => exact hstill rfl rfl (.inl rfl)
  | drop => exact hstill rfl (by simp) (.inr (by simp))
  | room i m => exact hstill rfl rfl (.inl rfl)

end Fits

end Stripe.Writer
