import Stripe.Run
import Stripe.Word

/-!
# What a run brings

A record may be kept of a run, step by step (`kept`); `accompany` proves
what holds after every run, of its record and of the state that it has led
to. The record that is kept most often is what the steps have brought to a
user: `logged` puts it together, and `follow` is `accompany` for it.

Where only the last state counts, `Reaches` says that some events lead
there, and what kind of events they are. If events of that kind make a
state lighter (`Lowers`), runs of them end, and a state that is no lighter
is the same.
-/

namespace Stripe

/-- The record of a run. -/
def kept {σ ε κ : Type} (next : κ → σ → σ → ε → κ) (move : σ → ε → Option σ) :
    κ → σ → List ε → κ
  | k, _, [] => k
  | k, s, e :: es =>
    match move s e with
    | some s' => kept next move (next k s s' e) s' es
    | none => k

/-- The bytes that a user gets in the course of a run. -/
def logged {σ ε : Type} (g : σ → σ → Bytes) (move : σ → ε → Option σ) :
    σ → List ε → Bytes
  | _, [] => []
  | s, e :: es =>
    match move s e with
    | some s' => g s s' ++ logged g move s' es
    | none => []

section Runs

variable {σ ε κ : Type} {g : σ → σ → Bytes} {move : σ → ε → Option σ}
  {r : κ → σ → σ → ε → κ} {k : κ} {s₀ s s' : σ}

/-- What holds at first, and at every event goes on to hold, holds after
all events. `past` are the events so far, and `k` is the record of them. -/
theorem accompany {es : List ε} {P : List ε → κ → σ → Prop}
    (first : P [] k s₀)
    (next : ∀ past e k s s', past ++ [e] <+: es → P past k s →
      move s e = some s' → P (past ++ [e]) (r k s s' e) s')
    (hrun : run move s₀ es = some s) :
    P es (kept r move k s₀ es) s := by
  suffices hall : ∀ (rest past : List ε) (k : κ) (s₁ : σ),
      past ++ rest = es → P past k s₁ → run move s₁ rest = some s →
      P es (kept r move k s₁ rest) s from
    hall es [] k s₀ rfl first hrun
  intro rest
  induction rest with
  | nil =>
    intro past k s₁ hes h hrun
    cases hrun
    simpa [kept, ← hes] using h
  | cons e rest ih =>
    intro past k s₁ hes h hrun
    obtain ⟨s₂, hmove, hrest⟩ := Option.bind_eq_some_iff.1 hrun
    have hnext := next past e k s₁ s₂ ⟨rest, by simpa using hes⟩ h hmove
    have hlast := ih (past ++ [e]) _ s₂ (by simpa using hes) hnext hrest
    simpa [kept, hmove] using hlast

/-- The record of one run after another. -/
theorem kept_append {xs : List ε} (ys : List ε)
    (hrun : run move s₀ xs = some s) :
    kept r move k s₀ (xs ++ ys) = kept r move (kept r move k s₀ xs) s ys := by
  induction xs generalizing k s₀ with
  | nil =>
    cases hrun
    rfl
  | cons x xs ih =>
    obtain ⟨s₁, h₁, hrest⟩ := Option.bind_eq_some_iff.1 hrun
    simp only [List.cons_append, kept, h₁]
    exact ih hrest

theorem logged_append {xs : List ε} (ys : List ε)
    (hrun : run move s₀ xs = some s) :
    logged g move s₀ (xs ++ ys) =
      logged g move s₀ xs ++ logged g move s ys := by
  induction xs generalizing s₀ with
  | nil =>
    cases hrun
    rfl
  | cons x xs ih =>
    obtain ⟨s₁, h₁, hrest⟩ := Option.bind_eq_some_iff.1 hrun
    simp [logged, h₁, ih hrest]

theorem logged_concat {es : List ε} {e : ε}
    (hrun : run move s₀ es = some s) (hmove : move s e = some s') :
    logged g move s₀ (es ++ [e]) =
      logged g move s₀ es ++ g s s' := by
  rw [logged_append [e] hrun]
  simp [logged, hmove]

/-- The bytes that a user gets are a record. -/
theorem kept_log (log : Bytes) (es : List ε) :
    kept (fun log s s' _ => log ++ g s s') move log s₀ es =
      log ++ logged g move s₀ es := by
  induction es generalizing log s₀ with
  | nil => simp [kept, logged]
  | cons e es ih =>
    simp only [kept, logged]
    cases move s₀ e with
    | none => simp
    | some s₁ => simp [ih]

/-- What holds at first, and at every event goes on to hold, holds after
all events. `past` are the events so far, and `log` is what they have
brought to the user. -/
theorem follow {es : List ε} {P : List ε → Bytes → σ → Prop}
    (first : P [] [] s₀)
    (next : ∀ past e log s s', past ++ [e] <+: es → P past log s →
      move s e = some s' → P (past ++ [e]) (log ++ g s s') s')
    (hrun : run move s₀ es = some s) : P es (logged g move s₀ es) s := by
  have h := accompany (r := fun log s s' _ => log ++ g s s') first next
    hrun
  rwa [kept_log, List.nil_append] at h

end Runs

/-! ## Where events lead -/

/-- Events of which each is `Allowed` lead from one state to another
one. -/
def Reaches {σ ε : Type} (move : σ → ε → Option σ) (Allowed : ε → Prop)
    (s s' : σ) : Prop :=
  ∃ es, run move s es = some s' ∧ ∀ e ∈ es, Allowed e

section Reaches

variable {σ ε τ φ : Type} {move : σ → ε → Option σ} {Allowed : ε → Prop}
  {s s' s'' : σ}

theorem Reaches.refl : Reaches move Allowed s s :=
  ⟨[], rfl, by simp⟩

theorem Reaches.trans (h : Reaches move Allowed s s')
    (h' : Reaches move Allowed s' s'') : Reaches move Allowed s s'' := by
  obtain ⟨xs, hxs, hx⟩ := h
  obtain ⟨ys, hys, hy⟩ := h'
  refine ⟨xs ++ ys, by simp [run_append, hxs, hys], ?_⟩
  intro e he
  rcases List.mem_append.1 he with hfirst | hsecond
  · exact hx e hfirst
  · exact hy e hsecond

theorem Reaches.step {e : ε} (he : Allowed e) (hs : move s e = some s') :
    Reaches move Allowed s s' :=
  ⟨[e], by simp [run, hs], by simpa using he⟩

/-- What every event keeps holds where they lead. -/
theorem Reaches.keeps {P : σ → Prop} (h : Reaches move Allowed s s')
    (next : ∀ {s e s'}, Allowed e → P s → move s e = some s' → P s')
    (first : P s) : P s' := by
  obtain ⟨es, hrun, hall⟩ := h
  induction es generalizing s with
  | nil =>
    cases hrun
    exact first
  | cons e es ih =>
    obtain ⟨s₁, hs₁, hrest⟩ := Option.bind_eq_some_iff.1 hrun
    have he : Allowed e := hall e (by simp)
    exact ih (next he first hs₁) hrest fun d hd => hall d (by simp [hd])

/-- Events of one system are followed by another one. -/
theorem Reaches.lift {move' : τ → φ → Option τ} {Allowed' : φ → Prop}
    {f : σ → τ} (h : Reaches move Allowed s s')
    (next : ∀ {s e s'}, Allowed e → move s e = some s' →
      Reaches move' Allowed' (f s) (f s')) :
    Reaches move' Allowed' (f s) (f s') :=
  h.keeps (P := fun s₁ => Reaches move' Allowed' (f s) (f s₁))
    (fun he hbefore hs => hbefore.trans (next he hs)) .refl

theorem Reaches.mono {Allowed' : ε → Prop} (h : Reaches move Allowed s s')
    (hle : ∀ e, Allowed e → Allowed' e) : Reaches move Allowed' s s' :=
  h.imp fun _ ⟨hrun, hall⟩ => ⟨hrun, fun e he => hle e (hall e he)⟩

end Reaches

/-! ## Runs that end -/

/-- Whatever is `Allowed` keeps a state `Good`, and makes it lighter. -/
structure Lowers {σ ε : Type} (move : σ → ε → Option σ)
    (Allowed : ε → Prop) (Good : σ → Prop) (weight : σ → Nat) : Prop where
  keeps : ∀ {s e s'}, Allowed e → Good s → move s e = some s' → Good s'
  lowers : ∀ {s e s'}, Allowed e → Good s → move s e = some s' →
    weight s' < weight s

section Lowers

variable {σ ε : Type} {move : σ → ε → Option σ} {Allowed : ε → Prop}
  {Good : σ → Prop} {weight : σ → Nat} {s s' : σ}

theorem Lowers.good (hl : Lowers move Allowed Good weight) (hs : Good s)
    (h : Reaches move Allowed s s') : Good s' :=
  h.keeps hl.keeps hs

/-- Where something has happened, the state is lighter. -/
theorem Lowers.eq_or_lt (hl : Lowers move Allowed Good weight)
    (hs : Good s) (h : Reaches move Allowed s s') :
    s' = s ∨ weight s' < weight s := by
  have hall : Good s' ∧ (s' = s ∨ weight s' < weight s) := by
    refine h.keeps (P := fun s₁ => Good s₁ ∧
      (s₁ = s ∨ weight s₁ < weight s)) ?_ ⟨hs, .inl rfl⟩
    intro s₁ e s₂ he ⟨hgood, hbefore⟩ hstep
    refine ⟨hl.keeps he hgood hstep, .inr ?_⟩
    have hlt := hl.lowers he hgood hstep
    rcases hbefore with rfl | hless
    · exact hlt
    · exact Nat.lt_trans hlt hless
  exact hall.2

theorem Lowers.le (hl : Lowers move Allowed Good weight) (hs : Good s)
    (h : Reaches move Allowed s s') : weight s' ≤ weight s := by
  rcases hl.eq_or_lt hs h with rfl | hlt
  · exact Nat.le_refl _
  · exact Nat.le_of_lt hlt

/-- Nothing has happened where nothing has become lighter. -/
theorem Lowers.eq_of_le (hl : Lowers move Allowed Good weight)
    (hs : Good s) (h : Reaches move Allowed s s')
    (hle : weight s ≤ weight s') : s' = s :=
  (hl.eq_or_lt hs h).resolve_right (Nat.not_lt.2 hle)

/-- Nothing happens on the way to a state that is no lighter. -/
theorem Lowers.still (hl : Lowers move Allowed Good weight) (hs : Good s)
    {s₁ s₂ : σ} (hfirst : Reaches move Allowed s s₁)
    (hrest : Reaches move Allowed s₁ s₂) (hle : weight s ≤ weight s₂) :
    s₁ = s :=
  hl.eq_of_le hs hfirst
    (Nat.le_trans hle (hl.le (hl.good hs hfirst) hrest))

/-- Nothing can happen where the weight is zero. -/
theorem Lowers.stuck (hl : Lowers move Allowed Good weight) (hs : Good s)
    (hzero : weight s ≤ 0) {e : ε} (he : Allowed e) : move s e = none := by
  cases hm : move s e with
  | none => rfl
  | some s' =>
    have hlt := hl.lowers he hs hm
    omega

/-- A run is no longer than the weight allows. -/
theorem Lowers.run_bounded (hl : Lowers move Allowed Good weight)
    (hs : Good s) {es : List ε} (hall : ∀ e ∈ es, Allowed e)
    (hrun : run move s es = some s') : es.length + weight s' ≤ weight s := by
  induction es generalizing s with
  | nil =>
    cases hrun
    simp
  | cons e es ih =>
    obtain ⟨s₁, hstep, hrest⟩ := Option.bind_eq_some_iff.1 hrun
    have he : Allowed e := hall e (by simp)
    have hlt := hl.lowers he hs hstep
    have hle := ih (hl.keeps he hs hstep)
      (fun d hd => hall d (by simp [hd])) hrest
    simp only [List.length_cons]
    omega

end Lowers

end Stripe
