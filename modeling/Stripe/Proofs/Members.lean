import Stripe.Schedule

/-!
# One member of a list changes

The lanes of a reader or a writer change one at a time. What is counted
over all of them changes by what the one lane counts for.
-/

namespace Stripe

theorem mem_set_iff {α : Type} {l : List α} {i : Nat} {a b x : α}
    (h : l[i]? = some b) (hx : x ≠ b) :
    x ∈ l.set i a ↔ x = a ∨ x ∈ l := by
  induction l generalizing i with
  | nil => simp at h
  | cons c l ih =>
    cases i with
    | zero =>
      obtain rfl : c = b := by simpa using h
      simp [hx]
    | succ i =>
      have := ih (i := i) (by simpa using h)
      simp only [List.set_cons_succ, List.mem_cons, this]
      exact or_left_comm

theorem countP_set_eq {α : Type} {l : List α} {i : Nat} {a b : α}
    (p : α → Bool) (h : l[i]? = some b) :
    (l.set i a).countP p + (if p b then 1 else 0) =
      l.countP p + (if p a then 1 else 0) := by
  induction l generalizing i with
  | nil => simp at h
  | cons c l ih =>
    cases i with
    | zero =>
      obtain rfl : c = b := by simpa using h
      simp only [List.set_cons_zero, List.countP_cons]
      omega
    | succ i =>
      have := ih (i := i) (by simpa using h)
      simp only [List.set_cons_succ, List.countP_cons]
      omega

theorem total_set {α : Type} {weight : α → Nat} {l : List α} {i : Nat}
    {a : α} (h : l[i]? = some a) (b : α) :
    total weight (l.set i b) + weight a = total weight l + weight b := by
  induction l generalizing i with
  | nil => simp at h
  | cons c l ih =>
    cases i with
    | zero =>
      obtain rfl : c = a := by simpa using h
      simp only [List.set_cons_zero, total]
      omega
    | succ i =>
      have := ih (i := i) (by simpa using h)
      simp only [List.set_cons_succ, total]
      omega

@[simp] theorem total_append {α : Type} (weight : α → Nat) (l r : List α) :
    total weight (l ++ r) = total weight l + total weight r := by
  induction l with
  | nil => simp [total]
  | cons a l ih =>
    simp only [List.cons_append, total, ih]
    omega

theorem total_congr {α : Type} {f g : α → Nat} {l : List α}
    (h : ∀ a ∈ l, f a = g a) : total f l = total g l := by
  induction l with
  | nil => rfl
  | cons a l ih =>
    simp only [total]
    rw [h a (by simp), ih fun b hb => h b (by simp [hb])]

/-- What each member gives away is paid for by what it gets. -/
theorem total_exchange {α : Type} {f g p q : α → Nat} (k : Nat)
    {l : List α} (h : ∀ a ∈ l, p a + k * g a ≤ f a + k * q a) :
    total p l + k * total g l ≤ total f l + k * total q l := by
  induction l with
  | nil => simp [total]
  | cons a l ih =>
    have ha := h a (by simp)
    have hl := ih fun b hb => h b (by simp [hb])
    simp only [total, Nat.mul_add]
    omega

/-- The weights of the numbers below `n`, after one of them has changed. -/
theorem total_range_update {n i : Nat} (hi : i < n) {f g : Nat → Nat}
    (h : ∀ j, j ≠ i → g j = f j) :
    total g (List.range n) + f i = total f (List.range n) + g i := by
  induction n with
  | zero => omega
  | succ n ih =>
    rw [List.range_succ, total_append, total_append]
    simp only [total]
    by_cases hn : i = n
    · subst hn
      have hsame := total_congr (l := List.range i) fun j hj =>
        h j (Nat.ne_of_lt (List.mem_range.1 hj))
      omega
    · have := ih (by omega)
      rw [h n (Ne.symm hn)]
      omega

end Stripe
