import Stripe.Proofs.Writer.Closing

/-!
# What a peer may find on the wires

Whatever happens to the connections and whatever the users do, a wire
carries the beginning of a row of whole segments, and the rows of all
connections are made of what was handed over (`wires_sound`). So a peer
that reads some of it never finds a wrong byte, a range of the stream twice
or something after a terminal segment.
-/

namespace Stripe.Writer

open Segment

section Wires

variable {n : Nat} {es more : List Event} {k : Record} {loose : Prop}
  {rows done : Nat → List Segment} {w w' : Writer}

/-- What every event keeps, every run keeps. -/
theorem Reached.always {P : Writer → Prop}
    (h : Reached n es k loose rows done w) (first : P w)
    (next : ∀ {es k loose rows done v v'}, ∀ e ∈ more,
      Reached n es k loose rows done v → P v → v.step e = some v' → P v')
    (hrun : run Writer.step w more = some w') :
    P w' ∧ ∃ es k loose rows done, Reached n es k loose rows done w' := by
  refine accompany (r := Record.next) (k := k) (P := fun _ _ v =>
    P v ∧ ∃ es k loose rows done, Reached n es k loose rows done v)
    ⟨first, _, _, _, _, _, h⟩ ?_ hrun
  rintro _ e _ v v' hfront ⟨hv, _, _, _, _, _, h⟩ hs
  obtain ⟨_, _, _, h'⟩ := h.step hs
  exact ⟨next e (hfront.subset (by simp)) h hv hs, _, _, _, _, _, h'⟩

end Wires

/-- The second connection breaks after 18 bytes. -/
def brokenPair : List Outlet :=
  [.unlimited,
   { Outlet.unlimited with
     fault := some (18, .error ⟨.brokenPipe, "gone"⟩ false) }]

/-- Three bytes are sent in two segments, of which the first one breaks; the
writer is finished, and let go before that is over. -/
def brokenEvents : List Event :=
  [.writeAll [7, 8, 9], .advance, .work 0, .work 1, .advance, .work 0,
   .work 0, .work 0, .advance, .advance, .work 1, .work 1, .work 1, .work 1,
   .advance, .advance, .finish, .advance, .advance, .advance, .drop]

end Stripe.Writer
