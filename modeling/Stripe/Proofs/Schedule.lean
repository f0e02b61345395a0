import Stripe.Schedule
import Stripe.Proofs.Runs

/-!
# Turns are moves

The order in which a crew takes its turns is one that its moves leave open:
whatever the turns come to, moves lead there, one after the other and each
of them possible (`reaches_settle`, `reaches_callTurn`,
`reaches_finishTurns`).

And the turns end for no other reason than that nobody can move. This needs
what is true of every crew here (`Bounded`): each move makes the bound
smaller, so a bound on the number of turns is never what ends them
(`Bounded.settle_stops`, `Bounded.finishTurns_stops`).

`Drives` ties a crew to the system whose moves it orders.
-/

namespace Stripe.Crew

/-- Who moves. -/
inductive Move where
  | work (i : Nat)
  | call
deriving DecidableEq

section Runs

variable {σ : Type} {crew : Crew σ}

/-- A move, if it is possible. -/
def step (crew : Crew σ) (s : σ) : Move → Option σ
  | .work i => crew.work i s
  | .call => crew.call s

/-! ## Whatever the turns come to -/

theorem reaches_exhaust (i : Nat) (fuel : Nat) (s : σ) :
    Reaches crew.step (· ≠ .call) s (exhaust (crew.work i) fuel s) := by
  induction fuel generalizing s with
  | zero => exact .refl
  | succ fuel ih =>
    unfold exhaust
    cases hw : crew.work i s with
    | none => exact .refl
    | some s' =>
      have hmove : Reaches crew.step (· ≠ .call) s s' :=
        .step (e := .work i) nofun hw
      exact hmove.trans (ih s')

theorem reaches_takeTurns (fuel : Nat) (queue : List Nat) (s : σ) :
    Reaches crew.step (· ≠ .call) s (crew.takeTurns fuel queue s) := by
  induction fuel generalizing queue s with
  | zero => exact .refl
  | succ fuel ih =>
    unfold takeTurns
    cases crew.requeue queue s with
    | nil => exact .refl
    | cons i rest => exact (reaches_exhaust i (fuel + 1) s).trans (ih rest _)

/-- **The turns of the workers** are moves of theirs. -/
theorem reaches_settle (queue : List Nat) (s : σ) :
    Reaches crew.step (· ≠ .call) s (crew.settle queue s) :=
  reaches_takeTurns _ queue s

theorem reaches_drive (fuel meetings : Nat) (queue : List Nat) (s : σ) :
    Reaches crew.step (· = .call) s
      (crew.drive fuel meetings queue s).2 := by
  induction fuel generalizing meetings queue s with
  | zero => exact .refl
  | succ fuel ih =>
    unfold drive
    cases hc : crew.call s with
    | none => exact .refl
    | some s' =>
      have hmove : Reaches crew.step (· = .call) s s' := .step rfl hc
      cases crew.meets s with
      | false => exact hmove.trans (ih _ _ s')
      | true =>
        cases meetings with
        | zero => exact .refl
        | succ meetings => exact hmove.trans (ih _ _ s')

/-- **A turn of the caller** is moves of the caller. -/
theorem reaches_callTurn (s : σ) :
    Reaches crew.step (· = .call) s (crew.callTurn s).2 :=
  reaches_drive _ _ _ s

theorem reaches_round (s : σ) :
    Reaches crew.step (fun _ => True) s (crew.round s) :=
  ((reaches_callTurn s).mono fun _ _ => trivial).trans
    ((reaches_settle _ _).mono fun _ _ => trivial)

theorem reaches_alternate (fuel : Nat) (s : σ) :
    Reaches crew.step (fun _ => True) s (crew.alternate fuel s) := by
  induction fuel generalizing s with
  | zero => exact .refl
  | succ fuel ih =>
    simp only [alternate]
    split
    · exact (reaches_round s).trans (ih _)
    · exact reaches_round s

/-- **All turns** are moves. -/
theorem reaches_finishTurns (s : σ) :
    Reaches crew.step (fun _ => True) s (crew.finishTurns s) :=
  reaches_alternate _ s

end Runs

/-! ## Bounds -/

/-- In the states of a crew that are `Good`, a move lowers the bound and
leads to such a state again, and only its own workers move. -/
structure Bounded {σ : Type} (crew : Crew σ) (Good : σ → Prop) : Prop where
  moves : Lowers crew.step (fun _ => True) Good crew.bound
  known : ∀ {s i s'}, Good s → crew.work i s = some s' → i < crew.workers s

section Bounded

variable {σ : Type} {crew : Crew σ} {Good : σ → Prop}
  {Allowed : Move → Prop} {s s' : σ} {fuel : Nat}

theorem Bounded.good (hb : crew.Bounded Good) (hs : Good s)
    (h : Reaches crew.step Allowed s s') : Good s' :=
  hb.moves.good hs (h.mono fun _ _ => trivial)

theorem Bounded.le (hb : crew.Bounded Good) (hs : Good s)
    (h : Reaches crew.step Allowed s s') :
    crew.bound s' ≤ crew.bound s :=
  hb.moves.le hs (h.mono fun _ _ => trivial)

/-- Whoever has moved has lowered the bound. -/
theorem Bounded.lt (hb : crew.Bounded Good) (hs : Good s)
    (h : Reaches crew.step Allowed s s') (hne : s' ≠ s) :
    crew.bound s' < crew.bound s :=
  (hb.moves.eq_or_lt hs (h.mono fun _ _ => trivial)).resolve_left hne

/-- A worker moves until it cannot. -/
theorem Bounded.exhaust_stops (hb : crew.Bounded Good) (i : Nat)
    (hs : Good s) (hle : crew.bound s ≤ fuel) :
    crew.work i (exhaust (crew.work i) fuel s) = none := by
  induction fuel generalizing s with
  | zero => exact hb.moves.stuck hs hle (e := .work i) trivial
  | succ fuel ih =>
    unfold exhaust
    cases hw : crew.work i s with
    | none => exact hw
    | some s' =>
      have hlt := hb.moves.lowers (e := .work i) trivial hs hw
      exact ih (hb.moves.keeps (e := .work i) trivial hs hw) (by omega)

/-- The queue is of workers that can move. -/
theorem mem_requeue {queue : List Nat} {i : Nat}
    (h : i ∈ crew.requeue queue s) : (crew.work i s).isSome = true := by
  unfold requeue at h
  rcases List.mem_append.1 h with hkept | hnew
  · exact (List.mem_filter.1 hkept).2
  · obtain ⟨_, hcond⟩ := List.mem_filter.1 hnew
    exact (Bool.and_eq_true_iff.1 hcond).2

/-- No worker that can move is left out of the queue. -/
theorem Bounded.requeue_nil (hb : crew.Bounded Good) (hs : Good s)
    {queue : List Nat} (h : crew.requeue queue s = []) (i : Nat) :
    crew.work i s = none := by
  cases hw : crew.work i s with
  | none => rfl
  | some s' =>
    have hi := hb.known hs hw
    unfold requeue at h
    obtain ⟨hkept, hnew⟩ := List.append_eq_nil_iff.1 h
    have hno := List.filter_eq_nil_iff.1 hnew i (List.mem_range.2 hi)
    rw [hkept] at hno
    simp [hw] at hno

/-- **The workers take turns until none can move.** -/
theorem Bounded.takeTurns_stops (hb : crew.Bounded Good)
    (queue : List Nat) (hs : Good s) (hle : crew.bound s ≤ fuel) (i : Nat) :
    crew.work i (crew.takeTurns fuel queue s) = none := by
  induction fuel generalizing queue s with
  | zero => exact hb.moves.stuck hs hle (e := .work i) trivial
  | succ fuel ih =>
    unfold takeTurns
    cases hq : crew.requeue queue s with
    | nil => exact hb.requeue_nil hs hq i
    | cons j rest =>
      have hreach : Reaches crew.step (· ≠ .call) s
          (exhaust (crew.work j) (fuel + 1) s) :=
        reaches_exhaust j (fuel + 1) s
      have hstop := hb.exhaust_stops j hs hle
      -- the worker in front can move, and has
      have hmoved : exhaust (crew.work j) (fuel + 1) s ≠ s := by
        intro hsame
        have hcan := mem_requeue (i := j) (hq ▸ List.mem_cons_self)
        rw [hsame] at hstop
        rw [hstop] at hcan
        cases hcan
      have hlt := hb.lt hs hreach hmoved
      exact ih rest (hb.good hs hreach) (by omega)

theorem Bounded.settle_stops (hb : crew.Bounded Good) (queue : List Nat)
    (hs : Good s) (i : Nat) : crew.work i (crew.settle queue s) = none :=
  hb.takeTurns_stops queue hs (Nat.le_refl _) i

/-- The caller moves until it cannot, or until its next move would be a
meeting. -/
theorem Bounded.drive_stops (hb : crew.Bounded Good) (meetings : Nat)
    (queue : List Nat) (hs : Good s) (hle : crew.bound s ≤ fuel) :
    crew.call (crew.drive fuel meetings queue s).2 = none ∨
      crew.meets (crew.drive fuel meetings queue s).2 = true := by
  induction fuel generalizing meetings queue s with
  | zero => exact .inl (hb.moves.stuck hs hle (e := .call) trivial)
  | succ fuel ih =>
    unfold drive
    cases hc : crew.call s with
    | none => exact .inl hc
    | some s' =>
      have hlt := hb.moves.lowers (e := .call) trivial hs hc
      have hs' := hb.moves.keeps (e := .call) trivial hs hc
      cases hm : crew.meets s with
      | false => exact ih _ _ hs' (by omega)
      | true =>
        cases meetings with
        | zero => exact .inr hm
        | succ meetings => exact ih _ _ hs' (by omega)

theorem Bounded.callTurn_stops (hb : crew.Bounded Good) (hs : Good s) :
    crew.call (crew.callTurn s).2 = none ∨
      crew.meets (crew.callTurn s).2 = true :=
  hb.drive_stops _ _ hs (Nat.le_refl _)

/-- A caller that can move does so in its turn. -/
theorem Bounded.callTurn_moves (hb : crew.Bounded Good) (hs : Good s)
    (hc : (crew.call s).isSome = true) :
    crew.bound (crew.callTurn s).2 < crew.bound s := by
  obtain ⟨s', hs'⟩ := Option.isSome_iff_exists.1 hc
  have hlt := hb.moves.lowers (e := .call) trivial hs hs'
  have hgood := hb.moves.keeps (e := .call) trivial hs hs'
  obtain ⟨fuel, hfuel⟩ : ∃ fuel, crew.bound s = fuel + 1 :=
    ⟨crew.bound s - 1, by omega⟩
  obtain ⟨meetings, hmeetings⟩ : ∃ meetings, meetingLimit = meetings + 1 :=
    ⟨127, rfl⟩
  unfold callTurn
  rw [hmeetings, hfuel]
  unfold drive
  rw [hs']
  have hrest (meetings : Nat) (queue : List Nat) :
      crew.bound (crew.drive fuel meetings queue s').2 < fuel + 1 := by
    have hle := hb.le hgood (reaches_drive fuel meetings queue s')
    omega
  cases crew.meets s with
  | false => exact hrest _ _
  | true => exact hrest _ _

theorem Bounded.round_stops (hb : crew.Bounded Good) (hs : Good s)
    (i : Nat) : crew.work i (crew.round s) = none :=
  hb.settle_stops _ (hb.good hs (reaches_callTurn s)) i

/-- Somebody moves in a round after which the caller can move. -/
theorem Bounded.round_moves (hb : crew.Bounded Good) (hs : Good s)
    (hc : (crew.call (crew.round s)).isSome = true) :
    crew.bound (crew.round s) < crew.bound s := by
  by_cases hcall : (crew.call s).isSome = true
  · have hlt := hb.callTurn_moves hs hcall
    have hle := hb.le (hb.good hs (reaches_callTurn s))
      (reaches_settle (crew.callTurn s).1 (crew.callTurn s).2)
    exact Nat.lt_of_le_of_lt hle hlt
  · apply hb.lt hs (reaches_round s)
    intro hsame
    rw [hsame] at hc
    exact hcall hc

theorem Bounded.alternate_stops (hb : crew.Bounded Good) (hs : Good s)
    (hle : crew.bound s ≤ fuel) (m : Move) :
    crew.step (crew.alternate fuel s) m = none := by
  induction fuel generalizing s with
  | zero => exact hb.moves.stuck hs hle trivial
  | succ fuel ih =>
    simp only [alternate]
    split
    · rename_i hcan
      have hlt := hb.round_moves hs hcan
      exact ih (hb.good hs (reaches_round s)) (by omega)
    · rename_i hcannot
      cases m with
      | work i => exact hb.round_stops hs i
      | call => exact Option.not_isSome_iff_eq_none.1 hcannot

/-- **The caller and the workers take turns until nobody can move.** -/
theorem Bounded.finishTurns_stops (hb : crew.Bounded Good) (hs : Good s)
    (m : Move) : crew.step (crew.finishTurns s) m = none :=
  hb.alternate_stops hs (Nat.le_refl _) m

end Bounded

/-! ## Events -/

/-- The crew of a system that has other events as well, all of which keep
it `Good`: a move of the crew is an event of the system, one of those that
lower the bound. -/
structure Drives {σ ε : Type} (crew : Crew σ) (step : σ → ε → Option σ)
    (isMove : ε → Bool) (Good : σ → Prop) : Prop where
  event : ∀ {s m s'}, crew.step s m = some s' →
    ∃ e, isMove e = true ∧ step s e = some s'
  keeps : ∀ {s e s'}, Good s → step s e = some s' → Good s'
  lowers : ∀ {s e s'}, Good s → isMove e = true → step s e = some s' →
    crew.bound s' < crew.bound s
  known : ∀ {s i s'}, Good s → crew.work i s = some s' → i < crew.workers s

section Drives

variable {σ ε : Type} {crew : Crew σ} {step : σ → ε → Option σ}
  {isMove : ε → Bool} {Good : σ → Prop} {Moves : Move → Prop}
  {Allowed : ε → Prop} {s s' : σ}

theorem Drives.bounded (hd : crew.Drives step isMove Good) :
    crew.Bounded Good where
  moves :=
    { keeps := fun _ hs hm => by
        obtain ⟨e, _, he⟩ := hd.event hm
        exact hd.keeps hs he
      lowers := fun _ hs hm => by
        obtain ⟨e, hmove, he⟩ := hd.event hm
        exact hd.lowers hs hmove he }
  known := hd.known

/-- Moves of the crew are events of the system. -/
theorem Drives.reaches (hd : crew.Drives step isMove Good)
    (h : Reaches crew.step Moves s s') :
    Reaches step (isMove · = true) s s' := by
  refine h.lift (f := id) ?_
  intro s₁ m s₂ _ hm
  obtain ⟨e, hmove, he⟩ := hd.event hm
  exact .step hmove he

theorem Drives.good (hd : crew.Drives step isMove Good) (hs : Good s)
    (h : Reaches step Allowed s s') : Good s' :=
  h.keeps (fun _ => hd.keeps) hs

/-- **What the turns of the workers come to**: events of the system, until
no worker can move. -/
theorem Drives.settled (hd : crew.Drives step isMove Good) (hs : Good s)
    (queue : List Nat) :
    Reaches step (isMove · = true) s (crew.settle queue s) ∧
      Good (crew.settle queue s) ∧
      ∀ i, crew.work i (crew.settle queue s) = none := by
  have hreach : Reaches step (isMove · = true) s (crew.settle queue s) :=
    hd.reaches (reaches_settle queue s)
  exact ⟨hreach, hd.good hs hreach, hd.bounded.settle_stops queue hs⟩

/-- **What a turn of the caller comes to**: events of the system, until it
cannot move, or is to meet a worker. -/
theorem Drives.called (hd : crew.Drives step isMove Good) (hs : Good s) :
    Reaches step (isMove · = true) s (crew.callTurn s).2 ∧
      (crew.call (crew.callTurn s).2 = none ∨
        crew.meets (crew.callTurn s).2 = true) :=
  ⟨hd.reaches (reaches_callTurn s), hd.bounded.callTurn_stops hs⟩

/-- **What all turns come to**: events of the system, until nobody can
move. -/
theorem Drives.finished (hd : crew.Drives step isMove Good) (hs : Good s) :
    Reaches step (isMove · = true) s (crew.finishTurns s) ∧
      Good (crew.finishTurns s) ∧
      ∀ m, crew.step (crew.finishTurns s) m = none := by
  have hreach : Reaches step (isMove · = true) s (crew.finishTurns s) :=
    hd.reaches (reaches_finishTurns s)
  exact ⟨hreach, hd.good hs hreach, hd.bounded.finishTurns_stops hs⟩

end Drives

end Stripe.Crew
