import Stripe.Proofs.Reader.Announcing
import Stripe.Proofs.Writer.Truncation
import Stripe.Proofs.Writer.Unfinished

/-!
# A source that fails is not taken for a whole one

A writer that is to send a source and then to finish comes to a failure if
the source does, and no wire ever ends with a terminal segment
(`send_never_completes`). So whoever reads from the wires does not take
what has come for a whole transfer: a reader would need a terminal segment
of each connection, or the announcement that there are none, and the only
number that the writer announces is that of its connections
(`Unended.incomplete`).
-/

namespace Stripe.Writer

open Segment

/-- What is on the wires of a writer is no whole transfer: nobody who takes
segments from the front of a wire finds a terminal one, and no reader is
complete to which no more arrives before its connections fail. -/
structure Incomplete (n : Nat) (w : Writer) : Prop where
  isOpen : ∀ i < n, ∀ got, (∀ s ∈ got, s.WellFormed) →
    encodeAll got <+: w.wire i → Open got
  reader : ∀ (receiver : Config) (r₀ r : Reader) (es : List Reader.Event),
    Reader.make n receiver = .ok r₀ → run Reader.step r₀ es = some r →
    (∀ i < n, ∀ bs, Tape.clean bs <+: (Reader.arrived es i).tape →
      bs <+: w.wire i) →
    r.completed = false

/-- **Wires without a terminal segment** complete no reader. -/
theorem Unended.incomplete {n : Nat} {w : Writer} (hu : w.Unended n)
    (hn : n < UInt64.size) : w.Incomplete n := by
  refine ⟨fun i hi got hgot hfront => hu.isOpen hi hgot hfront, ?_⟩
  intro receiver r₀ r es hmake hrun harrived
  obtain ⟨rows, out, h⟩ := Reader.inv_run hmake hrun
  cases hcomp : r.completed with
  | false => rfl
  | true =>
    exfalso
    -- no connection has ended
    have hacks : r.transmission.eodAcks = [] := by
      rw [List.eq_nil_iff_forall_not_mem]
      intro i hmem
      obtain ⟨hi, hend⟩ := h.acks i hmem
      obtain ⟨lane, hl⟩ := h.lane_of_lt hi
      have hfront := harrived i hi _ (h.lanes i lane hl).front
      exact (hu.isOpen hi (fun s hs => (h.segments i s hs).1)
        hfront).not_ended hend
    -- so the writer would have to announce that there is none
    have htotal := Reader.completed_eq.1 hcomp
    rw [hacks, List.length_nil] at htotal
    obtain ⟨i, hi, row, s, hwf, htape, hc, hoffset⟩ :=
      Reader.noted_run hmake hrun 0 htotal
    have hs := hu.control hi hwf (harrived i hi _ htape)
      (List.mem_append_right _ List.mem_cons_self) hc
    have hzero : (UInt64.ofNat n).toNat = 0 := by
      rw [hs] at hoffset
      exact hoffset
    rw [UInt64.toNat_ofNat_of_lt' hn] at hzero
    omega

/-- **A source that fails is never taken for a whole one.** An open writer,
over any connections and after whatever was done before, is to send a
source that will fail, and then to finish.

As long as the call is not given up, it makes a limited number of moves,
and when nothing moves by itself any more, it is over or waits for a
connection to take a byte. When it is over it has failed with what was
recorded first: on the way nothing else was recorded, and if the call has
met the failure of the source, that is what it tells unless there was an
earlier one. All the while, the wires are no whole transfer; and once the
writer was stopped, which it was when the call is over, they stay so
whatever is done. -/
theorem send_never_completes {outlets : List Outlet} {config : Config}
    {es : List Event} {w₀ w w₁ w₂ : Writer} {source : List Inlet.Item}
    {cause : IoError} {later : List Event}
    (hmake : make outlets config = .ok w₀)
    (hblank : ∀ c ∈ outlets, c.log = #[])
    (hmax : config.maxSegmentLen < UInt64.size)
    (hn : outlets.length < UInt64.size)
    (hrun : run step w₀ es = some w) (hopen : w.stage ≠ .closed)
    (hfault : firstFault source = some cause)
    (hs : w.step (.sendFrom source) = some w₁)
    (hlater : ∀ e ∈ later, e.isPatient = true)
    (hrun₂ : run step w₁ later = some w₂) :
    later.countP (·.isMove) ≤ w₁.weight ∧
    (w₂.Quiet → w₂.call = none ∨ w₂.Blocked) ∧
    (w₂.call = none → w₂.cancelled = true ∧ ∃ err,
      w₂.failure = some err ∧ w₂.answer = some (.failed err) ∧
      (∀ early rest v, later = early ++ rest →
        run step w₁ early = some v →
        v.failure = none ∨ v.failure = some err) ∧
      ∀ early rest v left count, later = early ++ .advance :: rest →
        run step w₁ early = some v →
        v.call = some (.working (.copy left count false true)) →
        (fill config.maxSegmentLen left).2.2.isSome = true →
        err = v.failure.getD (.source cause)) ∧
    w₂.Incomplete outlets.length ∧
    (w₂.cancelled = true → ∀ more w₃, run step w₂ more = some w₃ →
      w₃.Incomplete outlets.length) := by
  obtain ⟨hconfig, _, _, _, h⟩ := reached_run hmake hblank hrun
  obtain ⟨_, _, _, h₁⟩ := h.step hs
  -- what holds of every state of the call
  let P (v : Writer) : Prop := v.Tight ∧ v.Drains cause ∧
    v.config = config ∧ v.Unended outlets.length
  have hfirst : P w₁ := by
    have htight := (tight_run hmake hblank hrun).step h.inv h.spent hs
    obtain ⟨_, rfl⟩ := launch_eq_some hs
    exact ⟨htight, .sending rfl rfl hfault hopen, hconfig,
      h₁.inv.unended hopen (hconfig ▸ hmax)⟩
  have hall {past : List Event} {v : Writer}
      (hpast : ∀ e ∈ past, e.isPatient = true)
      (hrun : run step w₁ past = some v) : P v ∧
      ∃ es k loose rows done, Reached outlets.length es k loose rows done
        v := by
    refine h₁.always (P := P) hfirst ?_ hrun
    intro _ _ _ _ _ v v' e he hv ⟨ht, hd, hc, hu⟩ hs'
    have hpatient := hpast e he
    exact ⟨ht.step hv.inv hv.spent hs', hd.step hv.inv hpatient hs',
      (hv.inv.onward hs').config.trans hc,
      hd.unended hv.inv hu (hc ▸ hmax) hpatient hs'⟩
  obtain ⟨⟨ht₂, hd₂, _, hu₂⟩, _, _, _, _, _, h₂⟩ := hall hlater hrun₂
  obtain ⟨hgrows, hmoves⟩ := h₁.inv.moves_le hlater hrun₂
  refine ⟨by omega, hd₂.at_rest h₂ ht₂, fun hover => ?_,
    hu₂.incomplete hn, fun hstop more w₃ hmore => ?_⟩
  · obtain ⟨err, hfail, hstop, hans⟩ := hd₂.ended hover
    refine ⟨hstop, err, hfail, hans, ?_, ?_⟩
    · rintro early rest v rfl hearly
      obtain ⟨_, _, _, _, _, _, hv⟩ :=
        hall (fun e he => hlater e (List.mem_append_left _ he)) hearly
      rw [run_append, hearly] at hrun₂
      cases hf : v.failure with
      | none => exact .inl rfl
      | some f =>
        have hkept := hv.failure_kept hf hrun₂
        rw [hfail] at hkept
        exact .inr hkept.symm
    · rintro early rest v left count rfl hearly hc hf
      obtain ⟨⟨_, hd, hcv, _⟩, _, _, _, _, _, hv⟩ :=
        hall (fun e he => hlater e (List.mem_append_left _ he)) hearly
      rw [run_append, hearly] at hrun₂
      obtain ⟨v', ha, hrest⟩ : ∃ v', v.advance = some v' ∧
          run step v' rest = some w₂ := Option.bind_eq_some_iff.1 hrun₂
      have hnew := hd.meets hv.inv hc (hcv ▸ hf) ha
      obtain ⟨_, _, _, hv'⟩ := hv.step (e := .advance) ha
      have hkept := hv'.failure_kept hnew hrest
      rw [hfail] at hkept
      exact Option.some.inj hkept
  · obtain ⟨⟨_, hwire⟩, _⟩ := h₂.frozen hstop hmore
    exact (hu₂.of_wire hwire).incomplete hn

/-- One byte is sent. -/
def byteEvents : List Event :=
  [.write [9], .advance, .work 0, .advance, .work 0, .work 0, .advance,
   .work 0, .advance, .advance]

/-- The first four bytes of the source are handed over, and the source is
asked for more. -/
def sendMoves : List Event :=
  [.advance, .advance, .work 0, .work 0, .work 0, .work 0, .advance]

/-- The source fails. The worker is told to stop, begins its segment all the
same, and leaves. -/
def failMoves : List Event :=
  [.advance, .advance, .advance, .advance, .work 0, .work 0, .advance,
   .advance, .advance]

/-- The call tells that the source has failed, and the wire stays without a
terminal segment when the writer is let go. -/
theorem send_never_completes_four : ∃ w₀ w w₁ v w₂ w₃,
    make [.unlimited] { Config.standard with maxSegmentLen := 4 } = .ok w₀ ∧
    run step w₀ byteEvents = some w ∧
    w.step (.sendFrom badSource) = some w₁ ∧
    run step w₁ sendMoves = some v ∧ v.failure = none ∧
    run step w₁ (sendMoves ++ failMoves) = some w₂ ∧
    w₂.answer = some (.failed (.source ⟨.other, "disk failed"⟩)) ∧
    run step w₂ [.drop] = some w₃ ∧ w₃.Incomplete 1 := by
  obtain ⟨w₀, w, w₁, v, w₂, w₃, left, hmake, hrun, hopen, hs, hv, hfail, hc,
      hf, hrun₂, hover, hdrop⟩ : ∃ w₀ w w₁ v w₂ w₃ left,
      make [.unlimited] { Config.standard with maxSegmentLen := 4 } =
        .ok w₀ ∧
      run step w₀ byteEvents = some w ∧ w.stage = .running ∧
      w.step (.sendFrom badSource) = some w₁ ∧
      run step w₁ sendMoves = some v ∧ v.failure = none ∧
      v.call = some (.working (.copy left 4 false true)) ∧
      (fill 4 left).2.2.isSome = true ∧
      run step w₁ (sendMoves ++ failMoves) = some w₂ ∧ w₂.call = none ∧
      run step w₂ [.drop] = some w₃ :=
    ⟨_, _, _, _, _, _, _, rfl, rfl, rfl, rfl, rfl, rfl, rfl, rfl, rfl, rfl,
      rfl⟩
  obtain ⟨_, _, hends, _, hstays⟩ := send_never_completes hmake (by decide)
    (by decide) (by decide) hrun (by simp [hopen]) rfl hs (by decide) hrun₂
  obtain ⟨hstop, err, _, hans, _, hmeets⟩ := hends hover
  have herr := hmeets sendMoves _ v left 4 rfl hv hc hf
  rw [hfail, Option.getD_none] at herr
  subst herr
  exact ⟨w₀, w, w₁, v, w₂, w₃, hmake, hrun, hs, hv, hfail, hrun₂,
    hans, hdrop, hstays hstop _ _ hdrop⟩

end Stripe.Writer
