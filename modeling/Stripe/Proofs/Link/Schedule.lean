import Stripe.Proofs.Link.Progress

/-!
# A link that goes on by itself

`complete` lets both sides and the pipes move in one of the orders that
their moves leave open (`reaches_complete`), until none of them can move
(`Coupled.quiet_complete`). It stops after a round in which nothing has
become lighter: then nothing has moved, so each of the four parts of the
round has found nothing to do.
-/

namespace Stripe.Link

/-! ## Rounds are moves -/

section Moves

variable {l : Link}

/-- What the writer does is done on the link. -/
theorem reaches_writer {w : Writer}
    (h : Reaches Writer.step (·.isMove = true) l.writer w) :
    Reaches Link.step (·.isMove = true) l { l with writer := w } := by
  refine h.lift (f := fun w => { l with writer := w }) ?_
  intro w₁ e w₂ he hs
  have hsends : sendable e = true := by
    cases e <;> first | rfl | cases he
  exact .step (e := .send e) he (by simp [Link.step, hsends, hs])

/-- What the reader does is done on the link. -/
theorem reaches_reader {r : Reader}
    (h : Reaches Reader.step (·.isMove = true) l.reader r) :
    Reaches Link.step (·.isMove = true) l { l with reader := r } := by
  refine h.lift (f := fun r => { l with reader := r }) ?_
  intro r₁ e r₂ he hs
  have hreceives : receivable e = true := by
    cases e <;> first | rfl | cases he
  exact .step (e := .receive e) he (by simp [Link.step, hreceives, hs])

theorem reaches_dryRest (l : Link) (i : Nat) :
    Reaches Link.step (·.isMove = true) l
      (if l.isDry i then l.dry i else l) := by
  split
  · rename_i hdry
    exact .step (e := Event.dry i) rfl (by simp [Link.step, hdry])
  · exact .refl

theorem carryRest_of_inFlight {i : Nat} (h : (l.inFlight i).length ≠ 0) :
    ∃ l', l.step (.carry i (l.inFlight i).length) = some l' ∧
      Reaches Link.step (·.isMove = true) l' (l.carryRest i) := by
  refine ⟨l.carry i (l.inFlight i).length, ?_, ?_⟩
  · simp [Link.step, Nat.pos_of_ne_zero h]
  · simp only [carryRest, if_neg h]
    exact reaches_dryRest _ i

theorem reaches_carryRest (l : Link) (i : Nat) :
    Reaches Link.step (·.isMove = true) l (l.carryRest i) := by
  by_cases hn : (l.inFlight i).length = 0
  · simp only [carryRest, if_pos hn]
    exact reaches_dryRest l i
  · obtain ⟨l', hs, hrest⟩ := carryRest_of_inFlight hn
    exact (Reaches.step (by rfl) hs).trans hrest

theorem reaches_creditRest (l : Link) (i : Nat) :
    Reaches Link.step (·.isMove = true) l (l.creditRest i) := by
  unfold creditRest
  split
  · exact .refl
  · rename_i hn
    have hcredit : l.step (.credit i (l.freed i)) =
        some (l.credit i (l.freed i)) := by
      simp [Link.step, Nat.pos_of_ne_zero hn]
    exact .step (e := Event.credit i _) rfl hcredit

/-- One connection after the other. -/
theorem reaches_foldl {f : Link → Nat → Link}
    (hf : ∀ l i, Reaches Link.step (·.isMove = true) l (f l i))
    (is : List Nat) (l : Link) :
    Reaches Link.step (·.isMove = true) l (is.foldl f l) := by
  induction is generalizing l with
  | nil => exact .refl
  | cons i is ih => exact (hf l i).trans (ih (f l i))

theorem reaches_carryAll (l : Link) :
    Reaches Link.step (·.isMove = true) l l.carryAll :=
  reaches_foldl reaches_carryRest _ l

theorem reaches_creditAll (l : Link) :
    Reaches Link.step (·.isMove = true) l l.creditAll :=
  reaches_foldl reaches_creditRest _ l

theorem reaches_writerTurns (l : Link) :
    Reaches Link.step (·.isMove = true) l l.writerTurns :=
  reaches_writer ((Writer.crew_drives (n := l.connections)).reaches
    (Crew.reaches_finishTurns l.writer))

theorem reaches_readerTurns (l : Link) :
    Reaches Link.step (·.isMove = true) l l.readerTurns :=
  reaches_reader ((Reader.crew_drives (n := l.connections)).reaches
    (Crew.reaches_finishTurns l.reader))

theorem reaches_round (l : Link) :
    Reaches Link.step (·.isMove = true) l l.round :=
  (reaches_writerTurns l).trans ((reaches_carryAll _).trans
    ((reaches_readerTurns _).trans (reaches_creditAll _)))

theorem reaches_completeWithin (fuel : Nat) (l : Link) :
    Reaches Link.step (·.isMove = true) l (completeWithin fuel l) := by
  induction fuel generalizing l with
  | zero => exact .refl
  | succ fuel ih =>
    simp only [completeWithin]
    split
    · exact reaches_round l
    · exact (reaches_round l).trans (ih _)

/-- **Going on is moving.** -/
theorem reaches_complete (l : Link) :
    Reaches Link.step (·.isMove = true) l l.complete :=
  reaches_completeWithin _ l

end Moves

/-! ## The end of the rounds -/

section Rest

variable {n : Nat} {l l' : Link}

/-- Moves keep a link coupled, and make it lighter. -/
theorem coupled_lowers :
    Lowers Link.step (·.isMove = true) (Coupled n) weight where
  keeps _ hl hs := hl.move (move_of_step hs)
  lowers he hl hs := hl.lighter he (move_of_step hs)

/-- Nobody moves where nothing can become lighter. -/
theorem Coupled.quiet_of_zero (h : Coupled n l) (hzero : l.weight ≤ 0) :
    l.Quiet := by
  intro e he
  rw [← step_eq_move he]
  exact coupled_lowers.stuck h hzero he

/-- If nothing has moved on all connections, nothing has moved on each of
them. -/
theorem Coupled.foldl_still (h : Coupled n l) {f : Link → Nat → Link}
    (hf : ∀ l i, Reaches Link.step (·.isMove = true) l (f l i))
    {is : List Nat} (hsame : is.foldl f l = l) :
    ∀ i ∈ is, f l i = l := by
  induction is with
  | nil => simp
  | cons j is ih =>
    -- what was done on the first connection was not undone after that
    have hfirst : f l j = l := by
      apply coupled_lowers.still h (hf l j) (reaches_foldl hf is (f l j))
      show l.weight ≤ ((j :: is).foldl f l).weight
      exact Nat.le_of_eq (by rw [hsame])
    rw [List.foldl_cons, hfirst] at hsame
    intro i hi
    rcases List.mem_cons.1 hi with rfl | hmore
    · exact hfirst
    · exact ih hsame i hmore

theorem Coupled.carryRest_still (h : Coupled n l) {i : Nat}
    (hsame : l.carryRest i = l) :
    l.inFlight i = [] ∧ l.isDry i = false := by
  have hflight : (l.inFlight i).length = 0 := by
    by_cases hn : (l.inFlight i).length = 0
    · exact hn
    · obtain ⟨l', hs, hrest⟩ := carryRest_of_inFlight hn
      have hlt := h.lighter (e := .carry i _) rfl (move_of_step hs)
      have hle := coupled_lowers.le (h.move (move_of_step hs)) hrest
      rw [hsame] at hle
      omega
  refine ⟨List.eq_nil_of_length_eq_zero hflight, ?_⟩
  cases hdry : l.isDry i with
  | false => rfl
  | true =>
    have hlt := lighter_dry hdry
    simp only [carryRest, if_pos hflight, hdry, if_true] at hsame
    rw [hsame] at hlt
    omega

theorem Coupled.creditRest_still (h : Coupled n l) {i : Nat}
    (hsame : l.creditRest i = l) : l.freed i = 0 := by
  by_cases hn : l.freed i = 0
  · exact hn
  · have hlt := h.lighter_credit (Nat.pos_of_ne_zero hn) (Nat.le_refl _)
    simp only [creditRest, if_neg hn] at hsame
    rw [hsame] at hlt
    omega

/-- Neither side and no pipe has anything to do. -/
theorem Coupled.quiet (h : Coupled n l) (hw : l.writer.Quiet)
    (hr : l.reader.Quiet)
    (hcarry : ∀ i < n, l.inFlight i = [] ∧ l.isDry i = false)
    (hcredit : ∀ i < n, l.freed i = 0) : l.Quiet := by
  intro e he
  cases hm : l.move e with
  | none => rfl
  | some l' =>
    cases move_cases hm with
    | @send e w step plain =>
      cases e with
      | work i => cases (hw.1 i).symm.trans step
      | advance => cases hw.2.symm.trans step
      | _ => cases he
    | room i m => cases he
    | @receive e r step stays =>
      cases e with
      | work i => cases (hr.1 i).symm.trans step
      | advance => cases hr.2.symm.trans step
      | _ => cases he
    | @carry i m pos le =>
      rw [(hcarry i (h.lt_of_inFlight pos le)).1, List.length_nil] at le
      omega
    | @credit i m pos le =>
      rw [hcredit i (h.lt_of_freed pos le)] at le
      omega
    | @dry i dry =>
      rw [(hcarry i (h.lt_of_dry dry)).2] at dry
      cases dry

/-- **A round in which nothing becomes lighter** finds nothing to do: none
of its parts has changed anything. -/
theorem Coupled.round_still (h : Coupled n l)
    (hsame : l.round.weight = l.weight) : l.round = l ∧ l.Quiet := by
  have hle : l.weight ≤ l.round.weight := Nat.le_of_eq hsame.symm
  have hwriter : l.writerTurns = l :=
    coupled_lowers.still h (reaches_writerTurns l) ((reaches_carryAll _).trans
      ((reaches_readerTurns _).trans (reaches_creditAll _))) hle
  rw [round, hwriter] at hle ⊢
  have hcarry : l.carryAll = l :=
    coupled_lowers.still h (reaches_carryAll l)
      ((reaches_readerTurns _).trans (reaches_creditAll _)) hle
  rw [hcarry] at hle ⊢
  have hreader : l.readerTurns = l :=
    coupled_lowers.still h (reaches_readerTurns l) (reaches_creditAll _) hle
  rw [hreader] at hle ⊢
  have hcredit : l.creditAll = l :=
    coupled_lowers.eq_of_le h (reaches_creditAll l) hle
  have hmem {i : Nat} (hi : i < n) : i ∈ List.range l.connections := by
    rw [List.mem_range, connections, h.size]
    exact hi
  refine ⟨hcredit, h.quiet ?_ ?_ ?_ ?_⟩
  · have hquiet := h.writer.quiet_finishTurns
    rwa [show Writer.crew.finishTurns l.writer = l.writer from
      congrArg Link.writer hwriter] at hquiet
  · have hquiet := h.reader.quiet_finishTurns
    rwa [show Reader.crew.finishTurns l.reader = l.reader from
      congrArg Link.reader hreader] at hquiet
  · intro i hi
    exact h.carryRest_still
      (h.foldl_still reaches_carryRest hcarry i (hmem hi))
  · intro i hi
    exact h.creditRest_still
      (h.foldl_still reaches_creditRest hcredit i (hmem hi))

/-- **Rounds go on until nobody can move.** -/
theorem Coupled.quiet_completeWithin (h : Coupled n l) {fuel : Nat}
    (hle : l.weight ≤ fuel) : (completeWithin fuel l).Quiet := by
  induction fuel generalizing l with
  | zero => exact h.quiet_of_zero hle
  | succ fuel ih =>
    simp only [completeWithin]
    split
    · rename_i hsame
      obtain ⟨hround, hquiet⟩ := h.round_still hsame
      rwa [hround]
    · rename_i hless
      have hdown := coupled_lowers.le h (reaches_round l)
      exact ih (coupled_lowers.good h (reaches_round l)) (by omega)

theorem Coupled.quiet_complete (h : Coupled n l) : l.complete.Quiet :=
  h.quiet_completeWithin (Nat.le_refl _)

end Rest

end Stripe.Link
