/-!
# Runs

Two ways to follow a row of steps. An event may be impossible, and then
ends the run; a command is always carried out, and is replied to.
-/

namespace Stripe

/-- Follows a row of events; nothing if one of them is not possible. -/
def run {σ ε : Type} (step : σ → ε → Option σ) : σ → List ε → Option σ
  | s, [] => some s
  | s, e :: rest => (step s e).bind fun s => run step s rest

theorem run_append {σ ε : Type} (step : σ → ε → Option σ) (s : σ)
    (xs ys : List ε) :
    run step s (xs ++ ys) = (run step s xs).bind fun t => run step t ys := by
  induction xs generalizing s with
  | nil => rfl
  | cons x xs ih =>
    simp only [List.cons_append, run]
    cases step s x with
    | none => rfl
    | some t => exact ih t

/-- Carries out a row of commands: the reply to each, and the state after
it. -/
def history {σ γ ρ : Type} (perform : σ → γ → ρ × σ) : σ → List γ → List (ρ × σ)
  | _, [] => []
  | s, c :: rest =>
    let (r, s) := perform s c
    (r, s) :: history perform s rest

/-- What was replied was replied to a command, after those before it. -/
theorem mem_history {σ γ ρ : Type} {perform : σ → γ → ρ × σ} {s : σ}
    {cs : List γ} {r : ρ × σ} (h : r ∈ history perform s cs) :
    ∃ past c, past ++ [c] <+: cs ∧
      r = perform (past.foldl (fun s c => (perform s c).2) s) c := by
  induction cs generalizing s with
  | nil => cases h
  | cons c cs ih =>
    rcases List.mem_cons.1 h with rfl | hlater
    · exact ⟨[], c, ⟨cs, rfl⟩, rfl⟩
    · obtain ⟨past, d, hpast, rfl⟩ := ih hlater
      exact ⟨c :: past, d, (List.prefix_cons_inj c).2 hpast, rfl⟩

end Stripe
