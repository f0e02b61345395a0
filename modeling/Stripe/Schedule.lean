import Stripe.Run

/-!
# A caller and its workers

The reader and the writer are both a caller with some workers. Each of
them advances by moves; a move that has to wait is not possible yet. Which
of the possible moves comes next is left open by the moves themselves.

This module fixes one order. Workers that can move stand in a queue and
take turns; the one at the front moves as long as it can. A worker joins
the queue when it becomes able to move, and workers that become so at once
join in the order of their numbers. The caller moves as long as it can,
then the workers take turns until none can move, and so on until nobody
can. Each move makes `Crew.bound` smaller, so it is enough to try as often
as it says.

Some moves of a caller are meetings with a worker: something is handed over
to it or comes from it. A turn of the caller has at most
`Crew.meetingLimit` of them; then the workers get their turns, and after
that the caller goes on.
-/

namespace Stripe

/-- What the members of a list weigh together. -/
def total {α : Type} (weight : α → Nat) : List α → Nat
  | [] => 0
  | a :: l => weight a + total weight l

/-- The moves of a caller and its workers. -/
structure Crew (σ : Type) where
  workers : σ → Nat
  /-- A move of a worker. -/
  work : Nat → σ → Option σ
  /-- A move of the caller. -/
  call : σ → Option σ
  /-- No more moves can follow one another. -/
  bound : σ → Nat
  /-- The next move of the caller is a meeting with a worker. -/
  meets : σ → Bool

namespace Crew

variable {σ : Type}

/-- Moves as long as a move is possible, at most `fuel` times. -/
def exhaust (move : σ → Option σ) : (fuel : Nat) → σ → σ
  | 0, s => s
  | fuel + 1, s =>
    match move s with
    | none => s
    | some s => exhaust move fuel s

/-- The queue after the state has changed: who can no longer move leaves
it, and who has become able to move joins it. -/
def requeue (crew : Crew σ) (queue : List Nat) (s : σ) : List Nat :=
  let kept := queue.filter fun i => (crew.work i s).isSome
  kept ++ (List.range (crew.workers s)).filter fun i =>
    !kept.contains i && (crew.work i s).isSome

/-- The workers take turns, at most `fuel` of them; in its turn, a worker
moves as long as it can. -/
def takeTurns (crew : Crew σ) : (fuel : Nat) → List Nat → σ → σ
  | 0, _, s => s
  | fuel + 1, queue, s =>
    match crew.requeue queue s with
    | [] => s
    | i :: rest =>
      takeTurns crew fuel rest (exhaust (crew.work i) (fuel + 1) s)

/-- The workers take turns until none can move. -/
def settle (crew : Crew σ) (queue : List Nat) (s : σ) : σ :=
  crew.takeTurns (crew.bound s) queue s

/-- How many meetings the caller has in a turn. -/
def meetingLimit : Nat := 128

/-- The caller moves as long as it can, at most `fuel` times and with at
most `meetings` meetings; the workers that it wakes join the queue one by
one. -/
def drive (crew : Crew σ) : (fuel meetings : Nat) → List Nat → σ →
    List Nat × σ
  | 0, _, queue, s => (queue, s)
  | fuel + 1, meetings, queue, s =>
    match crew.call s, crew.meets s, meetings with
    | none, _, _ | some _, true, 0 => (queue, s)
    | some s, true, meetings + 1 =>
      drive crew fuel meetings (crew.requeue queue s) s
    | some s, false, meetings =>
      drive crew fuel meetings (crew.requeue queue s) s

/-- The turn of the caller: the workers that it wakes, in the order of
their turns, and the state after it. -/
def callTurn (crew : Crew σ) (s : σ) : List Nat × σ :=
  crew.drive (crew.bound s) meetingLimit [] s

/-- The caller has a turn, and then the workers have theirs. -/
def round (crew : Crew σ) (s : σ) : σ :=
  let (queue, s) := crew.callTurn s
  crew.settle queue s

/-- At most `fuel` rounds, as long as the caller can move. -/
def alternate (crew : Crew σ) : (fuel : Nat) → σ → σ
  | 0, s => s
  | fuel + 1, s =>
    let s := crew.round s
    if (crew.call s).isSome then alternate crew fuel s else s

/-- Goes on until nobody can move. -/
def finishTurns (crew : Crew σ) (s : σ) : σ :=
  crew.alternate (crew.bound s) s

end Crew
end Stripe
