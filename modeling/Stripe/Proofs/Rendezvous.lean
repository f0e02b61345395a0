import Mathlib.Data.Finset.Card
import Stripe.Run
import Stripe.Proofs.Handing

/-!
# The rendezvous

A barrier is looked at from outside: all that is known is which commands
the owner and the workers gave, in which order. From these alone it is told
who still holds a signal (`Holds`), who has acknowledged (`acknowledged`),
and at which polls the owner was there (`Polled`). `Reflects` says that the
barrier agrees with that after every command. Two results follow. The
owner is ready exactly when no worker holds its signal any more, and it
counts exactly those that have acknowledged (`rendezvous_exact`). And all
workers that are ever told anything are told the same (`one_verdict`).

A future that is polled again is the same command again, and one that is
dropped is a command that does not come again.
-/

namespace Stripe.Barrier

/-! ## What the commands tell -/

/-- A new barrier after a row of commands. -/
def after (workers : Nat) (cs : List Command) : Barrier :=
  cs.foldl (fun b c => (b.perform c).2) (make workers)

@[simp] theorem after_concat (workers : Nat) (cs : List Command)
    (c : Command) :
    after workers (cs ++ [c]) = ((after workers cs).perform c).2 := by
  simp [after]

/-- The command gives back the signal of worker `i`. -/
def Command.returns (i : Nat) : Command → Bool
  | .done j | .drop j => j == i
  | _ => false

/-- Worker `i` has not given its signal back. -/
def Holds (workers : Nat) (cs : List Command) (i : Nat) : Prop :=
  i < workers ∧ ∀ c ∈ cs, c.returns i = false

/-- The workers whose signals were first given back with an
acknowledgement. -/
def acknowledged (workers : Nat) (cs : List Command) : Finset Nat :=
  (Finset.range workers).filter fun i =>
    cs.find? (·.returns i) = some (.done i)

/-- The owner was polled after it had begun the rendezvous and before it
left, at a time when `P` held of the commands until then. -/
def Polled (P : List Command → Prop) (cs : List Command) : Prop :=
  ∃ past, past ++ [.poll] <+: cs ∧ .start ∈ past ∧ .release ∉ past ∧ P past

/-- The rendezvous was begun, and its owner was polled. -/
def Told (cs : List Command) : Prop := Polled (fun _ => True) cs

/-- The owner has left, and it was never polled in a rendezvous. -/
def Forsaken (cs : List Command) : Prop := .release ∈ cs ∧ ¬ Told cs

/-- The owner was polled when no worker held its signal, and was ready
then. -/
def Over (workers : Nat) (cs : List Command) : Prop :=
  Polled (fun past => ∀ i, ¬ Holds workers past i) cs

/-- The rendezvous was begun, and its owner has neither left nor been
ready. -/
def Awaited (workers : Nat) (cs : List Command) : Prop :=
  .start ∈ cs ∧ .release ∉ cs ∧ ¬ Over workers cs

/-! ## One more command -/

section Concat

variable {workers : Nat} {cs : List Command} {c : Command}

theorem holds_concat {i : Nat} : Holds workers (cs ++ [c]) i ↔
    Holds workers cs i ∧ c.returns i = false := by
  simp [Holds, or_imp, forall_and, and_assoc]

theorem mem_acknowledged_concat {i : Nat} :
    i ∈ acknowledged workers (cs ++ [c]) ↔
      i ∈ acknowledged workers cs ∨ Holds workers cs i ∧ c = .done i := by
  unfold acknowledged Holds
  simp only [Finset.mem_filter, Finset.mem_range, List.find?_append]
  cases hfind : cs.find? (·.returns i) with
  | some first =>
    have hmem := List.mem_of_find?_eq_some hfind
    have hback := List.find?_some hfind
    have hnot : ¬ ∀ c ∈ cs, c.returns i = false := by
      intro hall
      rw [hall first hmem] at hback
      cases hback
    simp [hnot]
  | none =>
    have hall : ∀ c ∈ cs, c.returns i = false := by
      simpa using List.find?_eq_none.1 hfind
    have hdone : [c].find? (·.returns i) = some (.done i) ↔
        c = .done i := by
      cases c <;> simp [Command.returns]
    rw [Option.none_or, hdone]
    simpa using fun _ _ => hall

/-- An acknowledgement of a worker that holds its signal is one more. -/
theorem card_acknowledged_done {i : Nat} (h : Holds workers cs i) :
    (acknowledged workers (cs ++ [.done i])).card =
      (acknowledged workers cs).card + 1 := by
  have hnot : i ∉ acknowledged workers cs := by
    intro hmem
    have hfind := (Finset.mem_filter.1 hmem).2
    have hback := h.2 _ (List.mem_of_find?_eq_some hfind)
    simp [Command.returns] at hback
  rw [← Finset.card_insert_of_notMem hnot]
  congr 1
  ext j
  rw [mem_acknowledged_concat, Finset.mem_insert, or_comm]
  constructor
  · rintro (⟨_, hj⟩ | hj)
    · exact .inl (Command.done.inj hj).symm
    · exact .inr hj
  · rintro (rfl | hj)
    · exact .inl ⟨h, rfl⟩
    · exact .inr hj

theorem card_acknowledged_le (workers : Nat) (cs : List Command) :
    (acknowledged workers cs).card ≤ workers :=
  (Finset.card_filter_le _ _).trans_eq (Finset.card_range workers)

/-- Who holds its signal has not acknowledged yet. -/
theorem card_acknowledged_lt {i : Nat} (h : Holds workers cs i) :
    (acknowledged workers cs).card < workers :=
  calc (acknowledged workers cs).card + 1
      = (acknowledged workers (cs ++ [.done i])).card :=
        (card_acknowledged_done h).symm
    _ ≤ workers := card_acknowledged_le workers _

theorem acknowledged_same (h : ∀ i, c = .done i → ¬ Holds workers cs i) :
    acknowledged workers (cs ++ [c]) = acknowledged workers cs := by
  ext i
  rw [mem_acknowledged_concat]
  exact or_iff_left fun ⟨hi, hc⟩ => h i hc hi

theorem polled_concat {P : List Command → Prop} :
    Polled P (cs ++ [c]) ↔ Polled P cs ∨
      c = .poll ∧ .start ∈ cs ∧ .release ∉ cs ∧ P cs := by
  unfold Polled
  constructor
  · rintro ⟨past, hpast, hrest⟩
    rcases List.prefix_concat_iff.1 hpast with heq | hearlier
    · obtain ⟨rfl, rfl⟩ := List.concat_inj.1 (by simpa using heq)
      exact .inr ⟨rfl, hrest⟩
    · exact .inl ⟨past, hearlier, hrest⟩
  · rintro (⟨past, hpast, hrest⟩ | ⟨rfl, hrest⟩)
    · exact ⟨past, hpast.trans (List.prefix_append cs [c]), hrest⟩
    · exact ⟨cs, List.prefix_rfl, hrest⟩

theorem Polled.later {P : List Command → Prop} (h : Polled P cs)
    (later : List Command) : Polled P (cs ++ later) := by
  obtain ⟨past, hpast, hrest⟩ := h
  exact ⟨past, hpast.trans (List.prefix_append cs later), hrest⟩

/-- An owner that has left is not polled any more. -/
theorem polled_append_iff {P : List Command → Prop} (h : .release ∈ cs)
    (later : List Command) : Polled P (cs ++ later) ↔ Polled P cs := by
  refine ⟨?_, fun hpolled => hpolled.later later⟩
  rintro ⟨past, hpast, hstart, hrelease, hP⟩
  rcases List.prefix_or_prefix_of_prefix hpast
    (List.prefix_append cs later) with hle | hge
  · exact ⟨past, hle, hstart, hrelease, hP⟩
  · exact absurd (by simpa using hge.subset h) hrelease

theorem Forsaken.later (h : Forsaken cs) (later : List Command) :
    Forsaken (cs ++ later) :=
  ⟨List.mem_append_left later h.1, (polled_append_iff h.1 later).not.2 h.2⟩

theorem Over.told (h : Over workers cs) : Told cs := by
  obtain ⟨past, hpast, hstart, hrelease, _⟩ := h
  exact ⟨past, hpast, hstart, hrelease, trivial⟩

end Concat

/-! ## What every command keeps -/

/-- Where the owner stands. -/
inductive Stage (workers : Nat) (cs : List Command) : Owner → Prop where
  | idle (unbegun : .start ∉ cs) (here : .release ∉ cs) :
      Stage workers cs .idle
  | begun (begun : .start ∈ cs) (here : .release ∉ cs)
      (untold : ¬ Told cs) : Stage workers cs .begun
  | waiting {received : Nat} (awaited : Awaited workers cs)
      (told : Told cs) : Stage workers cs (.waiting received)
  | released (left : .release ∈ cs ∨ Over workers cs) :
      Stage workers cs .released

/-- The barrier is what the commands have made of it. -/
structure Reflects (workers : Nat) (cs : List Command) (b : Barrier) :
    Prop where
  sane : b.Sane workers (Forsaken cs)
  stage : Stage workers cs b.owner
  sent : ∀ i, b.token i = .sent → Told cs
  held : ∀ i, b.held i = true ↔ Holds workers cs i
  inbox : b.inbox.length ≤ (acknowledged workers cs).card
  /-- No acknowledgement is lost as long as they are counted. -/
  received : ∀ n, b.owner.received? = some n →
    n + b.inbox.length = (acknowledged workers cs).card

theorem reflects_make (workers : Nat) :
    Reflects workers [] (make workers) := by
  refine ⟨sane_make workers _, .idle (by simp) (by simp), fun i hi => ?_,
    fun i => ?_, Nat.zero_le _, fun n hn => ?_⟩
  · rw [(sane_make workers False).token_waiting (.inl rfl)] at hi
    cases hi
  · by_cases hi : i < workers
    · simp [Barrier.held, make, Holds, hi]
    · simp [Barrier.held, make, Holds, hi]
  · cases hn
    simp [make, acknowledged]

section Step

variable {workers : Nat} {cs : List Command} {b : Barrier}

/-- The owner stays where it stands if a command does not concern it. -/
theorem Stage.stay {o : Owner} {c : Command} (h : Stage workers cs o)
    (hrelease : c ≠ .release) (hstart : c = .start → o ≠ .idle)
    (hpoll : c = .poll → ¬ Awaited workers cs) :
    Stage workers (cs ++ [c]) o := by
  have hhere (here : .release ∉ cs) : .release ∉ cs ++ [c] := by
    simp [here, hrelease.symm]
  have hpolled (ha : Awaited workers cs) (P : List Command → Prop) :
      Polled P (cs ++ [c]) ↔ Polled P cs := by
    rw [polled_concat]
    exact or_iff_left fun ⟨hc, _⟩ => hpoll hc ha
  cases h with
  | idle unbegun here =>
    have hne : c ≠ .start := fun hc => hstart hc rfl
    exact .idle (by simp [unbegun, hne.symm]) (hhere here)
  | begun begun here untold =>
    have ha : Awaited workers cs :=
      ⟨begun, here, fun hover => untold hover.told⟩
    exact .begun (List.mem_append_left _ begun) (hhere here)
      ((hpolled ha _).not.2 untold)
  | waiting awaited told =>
    obtain ⟨begun, here, unready⟩ := awaited
    exact .waiting ⟨List.mem_append_left _ begun, hhere here,
      (hpolled ⟨begun, here, unready⟩ _).not.2 unready⟩ (told.later _)
  | released left =>
    exact .released (left.imp (List.mem_append_left _) (Polled.later · _))

/-- A worker has done something at its own end of the barrier. -/
theorem Reflects.worker {i : Nat} {c : Command} {b' : Barrier}
    (h : Reflects workers cs b)
    (hc : c = .shouldStop i ∨ c = .done i ∨ c = .drop i)
    (touches : Touches workers i (Forsaken cs) b b')
    (held : b'.held i = true ↔ Holds workers cs i ∧ c.returns i = false)
    (inbox : (acknowledged workers (cs ++ [c])).card + b.inbox.length =
      (acknowledged workers cs).card + b'.inbox.length) :
    Reflects workers (cs ++ [c]) b' := by
  have hstage : Stage workers (cs ++ [c]) b.owner := by
    rcases hc with rfl | rfl | rfl <;>
      exact h.stage.stay (by simp) (by simp) (by simp)
  refine ⟨touches.sane.loosen (Forsaken.later · [c]),
    touches.owner ▸ hstage, fun j hj => ?_, fun j => ?_, ?_,
    fun n hn => ?_⟩
  · exact (h.sent j (touches.token j ▸ hj)).later [c]
  · rw [holds_concat]
    by_cases hj : j = i
    · subst hj
      exact held
    · have hother : c.returns j = false := by
        rcases hc with rfl | rfl | rfl <;>
          simp [Command.returns, Ne.symm hj]
      rw [touches.held j hj, h.held j]
      simp [hother]
  · have := h.inbox
    omega
  · have := h.received n (touches.owner ▸ hn)
    omega

theorem shouldStop_of_gone {i : Nat} (hi : b.held i = false) :
    b.shouldStop i = (.gone, b) := by
  unfold held at hi
  unfold shouldStop
  split
  · rfl
  · rename_i s hs
    rw [hs] at hi
    simp only at hi
    rw [hi]
    rfl

/-- A signal that was given back is not there any more. -/
theorem Reflects.absent {i : Nat} {c : Command} (h : Reflects workers cs b)
    (hc : c = .shouldStop i ∨ c = .done i ∨ c = .drop i)
    (hi : ¬ b.held i = true) : Reflects workers (cs ++ [c]) b := by
  have hgone : ¬ Holds workers cs i := (h.held i).not.1 hi
  refine h.worker hc (h.sane.refl i) (by simp [hi, hgone]) ?_
  rw [acknowledged_same]
  rintro j rfl hj
  rcases hc with hc | hc | hc <;> cases hc
  exact hgone hj

theorem Reflects.shouldStop (h : Reflects workers cs b) (i : Nat) :
    Reflects workers (cs ++ [.shouldStop i]) (b.shouldStop i).2 := by
  by_cases hi : b.held i = true
  · obtain ⟨_, htouch, hheld, hinbox⟩ := shouldStop_spec h.sane hi
    refine h.worker (.inl rfl) htouch ?_ ?_
    · simp [hheld, (h.held i).1 hi, Command.returns]
    · rw [acknowledged_same (by simp), hinbox]
  · rw [shouldStop_of_gone (by simpa using hi)]
    exact h.absent (.inl rfl) hi

theorem Reflects.giveBack {i : Nat} (h : Reflects workers cs b)
    (hi : b.held i = true) :
    Reflects workers (cs ++ [.drop i]) (b.giveBack i) := by
  obtain ⟨htouch, hheld⟩ := giveBack_spec h.sane hi
  refine h.worker (.inr (.inr rfl)) htouch ?_ ?_
  · simp [hheld, Command.returns]
  · rw [acknowledged_same (by simp)]
    rfl

/-- **There is room** for every acknowledgement that is still to come. -/
theorem Reflects.room {i : Nat} (h : Reflects workers cs b)
    (hi : b.held i = true) : b.inbox.length < b.capacity :=
  calc b.inbox.length
      ≤ (acknowledged workers cs).card := h.inbox
    _ < workers := card_acknowledged_lt ((h.held i).1 hi)
    _ ≤ b.capacity := h.sane.capacity

theorem Reflects.inbox_done {i : Nat} (h : Reflects workers cs b)
    (hi : b.held i = true) : (b.done i).inbox = b.inbox ++ [i] :=
  if_pos (h.room hi)

theorem Reflects.done {i : Nat} (h : Reflects workers cs b)
    (hi : b.held i = true) :
    Reflects workers (cs ++ [.done i]) (b.done i) := by
  obtain ⟨htouch, hheld, _⟩ := done_spec h.sane hi
  refine h.worker (.inr (.inl rfl)) htouch ?_ ?_
  · simp [hheld, Command.returns]
  · rw [card_acknowledged_done ((h.held i).1 hi), h.inbox_done hi,
      List.length_append]
    simp only [List.length_singleton]
    omega

/-! ## What the owner does -/

/-- The owner has done something, and every worker still holds its signal
or does not. -/
theorem Reflects.owner {c : Command} {b' : Barrier}
    (h : Reflects workers cs b) (hc : ∀ i, c.returns i = false)
    (sane : b'.Sane workers (Forsaken (cs ++ [c])))
    (stage : Stage workers (cs ++ [c]) b'.owner)
    (sent : ∀ i, b'.token i = .sent → Told (cs ++ [c]))
    (held : ∀ i, b'.held i = b.held i)
    (inbox : b'.inbox.length ≤ b.inbox.length)
    (received : ∀ n, b'.owner.received? = some n →
      n + b'.inbox.length = (acknowledged workers cs).card) :
    Reflects workers (cs ++ [c]) b' := by
  have hsame : acknowledged workers (cs ++ [c]) =
      acknowledged workers cs := by
    refine acknowledged_same fun i hi => ?_
    have := hc i
    simp [hi, Command.returns] at this
  refine ⟨sane, stage, sent, fun i => ?_, ?_, ?_⟩
  · rw [held, h.held, holds_concat]
    simp [hc]
  · rw [hsame]
    exact Nat.le_trans inbox h.inbox
  · rw [hsame]
    exact received

theorem Stage.awaited_iff {o : Owner} (h : Stage workers cs o) :
    Awaited workers cs ↔
      o = .begun ∨ ∃ received, o = .waiting received := by
  cases h with
  | idle unbegun here => simp [Awaited, unbegun]
  | begun begun here untold =>
    simpa [Awaited, begun, here] using fun h => untold (Over.told h)
  | waiting awaited told => simpa using awaited
  | released left =>
    simp only [Awaited, reduceCtorEq, exists_false, or_false, iff_false]
    rintro ⟨_, here, unready⟩
    exact left.elim here unready

/-- Nothing is decided before the owner is polled or leaves. -/
theorem Stage.undecided {o : Owner} (h : Stage workers cs o)
    (ho : o = .idle ∨ o = .begun) : .release ∉ cs ∧ ¬ Told cs := by
  cases h with
  | idle unbegun here =>
    refine ⟨here, ?_⟩
    rintro ⟨past, hpast, hstart, _⟩
    exact unbegun (hpast.subset (List.mem_append_left _ hstart))
  | begun begun here untold => exact ⟨here, untold⟩
  | waiting => simp at ho
  | released => simp at ho

theorem attended_iff : b.attended = true ↔ ∃ i, b.held i = true := by
  unfold attended Barrier.held
  rw [List.any_eq_true]
  constructor
  · rintro ⟨s, hs, hheld⟩
    obtain ⟨i, hi⟩ := List.mem_iff_getElem?.1 hs
    exact ⟨i, by rw [hi]; exact hheld⟩
  · rintro ⟨i, hi⟩
    split at hi
    · rename_i s hs
      exact ⟨s, List.mem_of_getElem? hs, hi⟩
    · cases hi

@[simp] theorem attended_set (inbox : List Nat) (owner : Owner) :
    attended { b with inbox, owner } = b.attended := rfl

@[simp] theorem workers_set (inbox : List Nat) (owner : Owner) :
    Barrier.workers { b with inbox, owner } = b.workers := rfl

/-- **Counting** takes every acknowledgement that has come in, and goes on
to wait if some worker is left. -/
theorem countAll_eq {fuel received : Nat} {inbox : List Nat}
    (hfuel : inbox.length < fuel)
    (hle : received + inbox.length ≤ b.workers)
    (hall : received + inbox.length = b.workers → b.attended = false) :
    countAll fuel { b with inbox, owner := .waiting received } =
      if b.attended then
        (.pending, { b with
          inbox := [], owner := .waiting (received + inbox.length) })
      else
        (.acknowledged (received + inbox.length),
          { b with inbox := [], owner := .released }) := by
  induction inbox generalizing fuel received with
  | nil =>
    obtain ⟨fuel, rfl⟩ := Nat.exists_eq_add_of_lt hfuel
    by_cases hatt : b.attended = true
    · simp [countAll, count, hatt]
    · simp [countAll, count, hatt]
  | cons a inbox ih =>
    obtain ⟨fuel, rfl⟩ := Nat.exists_eq_add_of_lt hfuel
    rw [List.length_cons] at *
    by_cases hlast : b.workers ≤ received + 1
    · -- the last of all workers has acknowledged
      obtain rfl := List.eq_nil_of_length_eq_zero (l := inbox) (by omega)
      have hnobody : b.attended = false := hall (by simp; omega)
      simp [countAll, count, hlast, hnobody]
    · -- the others are counted after this one
      have hrest := @ih (inbox.length + 1 + fuel) (received + 1)
        (by omega) (by omega) (fun heq => hall (by omega))
      rw [Nat.add_assoc received, Nat.add_comm 1] at hrest
      simpa only [countAll, count, workers_set, hlast, if_false]
        using hrest

/-- What polling the owner comes to. -/
inductive Polls (workers : Nat) (cs : List Command) (b : Barrier) :
    Rendezvous → Barrier → Prop where
  | gone (absent : ¬ Awaited workers cs) : Polls workers cs b .gone b
  | waits {b' : Barrier} {i : Nat} (awaited : Awaited workers cs)
      (someone : Holds workers cs i) (sane : b'.Sane workers (Forsaken cs))
      (held : ∀ i, b'.held i = b.held i) (empty : b'.inbox = [])
      (owner : b'.owner = .waiting (acknowledged workers cs).card) :
      Polls workers cs b .pending b'
  | ready {b' : Barrier} (awaited : Awaited workers cs)
      (nobody : ∀ i, ¬ Holds workers cs i)
      (sane : b'.Sane workers (Forsaken cs))
      (held : ∀ i, b'.held i = b.held i) (empty : b'.inbox = [])
      (owner : b'.owner = .released) :
      Polls workers cs b (.acknowledged (acknowledged workers cs).card) b'

/-- The tokens are sent, and the acknowledgements are counted. -/
theorem Reflects.counts {b' : Barrier} {received : Nat}
    (h : Reflects workers cs b) (ha : Awaited workers cs)
    (sane : b'.Sane workers (Forsaken cs))
    (held : ∀ i, b'.held i = b.held i) (inbox : b'.inbox = b.inbox)
    (owner : b'.owner = .waiting received)
    (hreceived : b.owner.received? = some received) :
    Polls workers cs b (countAll (b.inbox.length + 1) b').1
      (countAll (b.inbox.length + 1) b').2 := by
  have hcard := h.received received hreceived
  have hsize : b'.workers = workers := sane.size
  have hholds (i : Nat) : b'.held i = true ↔ Holds workers cs i := by
    rw [held, h.held]
  have hself : b' = { b' with
      inbox := b.inbox, owner := .waiting received } := by
    rw [← inbox, ← owner]
  have hset (o : Owner)
      (ho : ¬ (o = .idle ∨ o = .begun)) :
      Sane workers (Forsaken cs) { b' with inbox := [], owner := o } :=
    sane.goOn [] (by simp [owner, ho])
  rw [hself, countAll_eq (Nat.lt_succ_self _)]
  · by_cases hatt : b'.attended = true
    · obtain ⟨i, hi⟩ := attended_iff.1 hatt
      rw [if_pos hatt, hcard]
      exact .waits ha ((hholds i).1 hi) (hset _ (by simp)) held rfl rfl
    · rw [if_neg hatt, hcard]
      have hnobody (i : Nat) (hi : Holds workers cs i) : False :=
        hatt (attended_iff.2 ⟨i, (hholds i).2 hi⟩)
      exact .ready ha hnobody (hset _ (by simp)) held rfl rfl
  · rw [hcard, hsize]
    exact card_acknowledged_le workers cs
  · intro hall
    rw [hcard, hsize] at hall
    by_cases hatt : b'.attended = true
    · obtain ⟨i, hi⟩ := attended_iff.1 hatt
      have := card_acknowledged_lt ((hholds i).1 hi)
      omega
    · simpa using hatt

/-- **Polling the owner** finds whether any worker holds its signal. -/
theorem Reflects.polls (h : Reflects workers cs b) :
    Polls workers cs b b.poll.1 b.poll.2 := by
  have hawaited := h.stage.awaited_iff
  unfold Barrier.poll
  cases ho : b.owner with
  | idle => exact .gone (by simp [hawaited, ho])
  | released => exact .gone (by simp [hawaited, ho])
  | begun =>
    exact h.counts (hawaited.2 (.inl ho)) (sane_announce h.sane ho)
      (held_settle .sent b) rfl rfl (by rw [ho]; rfl)
  | waiting received =>
    exact h.counts (hawaited.2 (.inr ⟨received, ho⟩)) h.sane (fun _ => rfl)
      rfl ho (by rw [ho]; rfl)

theorem Reflects.poll (h : Reflects workers cs b) :
    Reflects workers (cs ++ [.poll]) b.poll.2 := by
  have hpolls := h.polls
  generalize b.poll.1 = r, b.poll.2 = b' at hpolls
  cases hpolls with
  | gone absent =>
    exact h.owner (fun _ => rfl) (h.sane.loosen (Forsaken.later · _))
      (h.stage.stay (by simp) (by simp) fun _ => absent) (fun i hi => (h.sent i hi).later _)
      (fun _ => rfl) (Nat.le_refl _) h.received
  | waits awaited someone sane held empty owner =>
    obtain ⟨begun, here, unready⟩ := awaited
    have told : Told (cs ++ [.poll]) :=
      polled_concat.2 (.inr ⟨rfl, begun, here, trivial⟩)
    have unready' : ¬ Over workers (cs ++ [.poll]) := by
      intro hover
      rcases polled_concat.1 hover with earlier | ⟨_, _, _, nobody⟩
      · exact unready earlier
      · exact nobody _ someone
    refine h.owner (fun _ => rfl) (sane.loosen (Forsaken.later · _)) ?_
      (fun _ _ => told) held (by simp [empty]) fun n hn => ?_
    · rw [owner]
      exact .waiting ⟨by simpa, by simpa, unready'⟩ told
    · rw [owner] at hn
      cases hn
      rw [empty]
      rfl
  | ready awaited nobody sane held empty owner =>
    obtain ⟨begun, here, _⟩ := awaited
    have hover : Over workers (cs ++ [.poll]) :=
      polled_concat.2 (.inr ⟨rfl, begun, here, nobody⟩)
    refine h.owner (fun _ => rfl) (sane.loosen (Forsaken.later · _))
      (owner ▸ .released (.inr hover)) (fun _ _ => hover.told) held
      (by simp [empty]) fun n hn => ?_
    rw [owner] at hn
    cases hn

theorem Stage.start (h : Stage workers cs b.owner) :
    Stage workers (cs ++ [.start]) b.start.owner := by
  unfold Barrier.start
  by_cases hidle : b.owner = .idle
  · obtain ⟨here, untold⟩ := h.undecided (.inl hidle)
    rw [if_pos hidle]
    exact .begun (by simp) (by simpa) (by simpa [Told, polled_concat])
  · rw [if_neg hidle]
    exact h.stay (by simp) (fun _ => hidle) (by simp)

theorem Reflects.start (h : Reflects workers cs b) :
    Reflects workers (cs ++ [.start]) b.start := by
  have hinbox : b.start.inbox = b.inbox := by
    unfold Barrier.start
    split <;> rfl
  have hreceived : b.start.owner.received? = b.owner.received? := by
    unfold Barrier.start
    by_cases hidle : b.owner = .idle
    · simp [hidle, Owner.received?]
    · simp [hidle]
  have hheld (i : Nat) : b.start.held i = b.held i := by
    unfold Barrier.start
    split <;> rfl
  refine h.owner (fun _ => rfl)
    (sane_start (h.sane.loosen (Forsaken.later · _))) h.stage.start
    (fun i hi => ?_) hheld (Nat.le_of_eq (congrArg _ hinbox)) ?_
  · exact (h.sent i (token_start b i ▸ hi)).later _
  · rw [hinbox, hreceived]
    exact h.received

theorem inbox_release (b : Barrier) : b.release.2.inbox = b.inbox := by
  unfold Barrier.release
  split <;> rfl

theorem Reflects.release (h : Reflects workers cs b) :
    Reflects workers (cs ++ [.release]) b.release.2 := by
  have hearly (ho : b.owner = .idle ∨ b.owner = .begun) :
      Forsaken (cs ++ [.release]) := by
    have untold := (h.stage.undecided ho).2
    exact ⟨by simp, by simpa [Told, polled_concat] using untold⟩
  obtain ⟨hsane, hheld, _, howner⟩ :=
    release_spec (h.sane.loosen (Forsaken.later · _)) hearly
  refine h.owner (fun _ => rfl) hsane (howner ▸ .released (.inl (by simp)))
    (fun i hi => ?_) hheld (by rw [inbox_release]) fun n hn => ?_
  · exact (h.sent i (token_release hi)).later _
  · rw [howner] at hn
    cases hn

/-- **Every command** does what the commands tell. -/
theorem Reflects.perform (h : Reflects workers cs b) (c : Command) :
    Reflects workers (cs ++ [c]) (b.perform c).2 := by
  cases c with
  | start => exact h.start
  | poll => exact h.poll
  | release => exact h.release
  | shouldStop i => exact h.shouldStop i
  | done i =>
    unfold Barrier.perform
    by_cases hi : b.held i = true
    · simp only [hi, if_true]
      exact h.done hi
    · simp only [hi]
      exact h.absent (.inr (.inl rfl)) hi
  | drop i =>
    unfold Barrier.perform
    by_cases hi : b.held i = true
    · simp only [hi, if_true]
      exact h.giveBack hi
    · simp only [hi]
      exact h.absent (.inr (.inr rfl)) hi

end Step

theorem reflects_after (workers : Nat) (cs : List Command) :
    Reflects workers cs (after workers cs) := by
  induction cs using List.reverseRecOn with
  | nil => exact reflects_make workers
  | append_singleton cs c ih =>
    rw [after_concat]
    exact ih.perform c

/-! ## Acknowledgements -/

/-- A poll has one of three replies. -/
theorem Polls.replies {workers : Nat} {cs : List Command} {b b' : Barrier}
    {r : Rendezvous} (h : Polls workers cs b r b') :
    (∀ n, r = .acknowledged n ↔ Awaited workers cs ∧
      (∀ i, ¬ Holds workers cs i) ∧ n = (acknowledged workers cs).card) ∧
    (r = .pending ↔ Awaited workers cs ∧ ∃ i, Holds workers cs i) ∧
    (r = .gone ↔ ¬ Awaited workers cs) := by
  cases h with
  | gone absent => simp [absent]
  | waits awaited someone =>
    have hnot : ¬ ∀ i, ¬ Holds workers cs i := fun h => h _ someone
    exact ⟨by simp [hnot], by simpa [awaited] using ⟨_, someone⟩,
      by simp [awaited]⟩
  | ready awaited nobody =>
    exact ⟨by simp [awaited, nobody, eq_comm], by simp [nobody],
      by simp [awaited]⟩

/-- **The rendezvous is exact.** After any commands of the owner and the
workers, a poll of the owner is ready exactly if the owner is there and no
worker holds its signal. It then tells how many workers have acknowledged,
those included that did so before the rendezvous was begun. It has to wait
exactly if some worker holds its signal. A worker can acknowledge exactly
if it holds its signal, and then there is room for the acknowledgement, so
that none is lost. -/
theorem rendezvous_exact (workers : Nat) (cs : List Command) :
    let b := after workers cs
    (∀ n, (b.perform .poll).1 = .rendezvous (.acknowledged n) ↔
      Awaited workers cs ∧ (∀ i, ¬ Holds workers cs i) ∧
        n = (acknowledged workers cs).card) ∧
    ((b.perform .poll).1 = .rendezvous .pending ↔
      Awaited workers cs ∧ ∃ i, Holds workers cs i) ∧
    ((b.perform .poll).1 = .rendezvous .gone ↔ ¬ Awaited workers cs) ∧
    ∀ i, ((b.perform (.done i)).1 = .done ↔ Holds workers cs i) ∧
      ((b.perform (.drop i)).1 = .dropped true ↔ Holds workers cs i) ∧
      (Holds workers cs i → b.inbox.length < b.capacity ∧
        (b.perform (.done i)).2.inbox = b.inbox ++ [i]) := by
  intro b
  have h : Reflects workers cs b := reflects_after workers cs
  have hreply (r : Rendezvous) :
      (b.perform .poll).1 = .rendezvous r ↔ b.poll.1 = r := by
    simp [Barrier.perform]
  obtain ⟨hready, hwaits, hgone⟩ := h.polls.replies
  simp only [hreply]
  refine ⟨hready, hwaits, hgone, fun i => ⟨?_, ?_, fun hi => ?_⟩⟩
  · rw [← h.held]
    by_cases hi : b.held i = true
    · simp [Barrier.perform, hi]
    · simp [Barrier.perform, hi]
  · rw [← h.held]
    by_cases hi : b.held i = true
    · simp [Barrier.perform, hi]
    · simp [Barrier.perform, hi]
  · have hheld := (h.held i).2 hi
    refine ⟨h.room hheld, ?_⟩
    simp only [Barrier.perform, hheld, if_true]
    exact h.inbox_done hheld

/-- One worker acknowledges before the rendezvous is begun, the other is
lost after the owner was polled. -/
example : ((after 2 [.done 0, .start, .poll, .drop 1]).perform .poll).1 =
    .rendezvous (.acknowledged 1) := rfl

/-! ## Verdicts -/

/-- What asking whether to stop comes to. -/
inductive Hears (workers : Nat) (cs : List Command) (i : Nat) :
    Verdict → Prop where
  | gone (returned : ¬ Holds workers cs i) : Hears workers cs i .gone
  | waits (holds : Holds workers cs i) (here : .release ∉ cs)
      (untold : ¬ Told cs) : Hears workers cs i .pending
  | told (holds : Holds workers cs i) (told : Told cs) :
      Hears workers cs i (.stop true)
  | lost (holds : Holds workers cs i) (forsaken : Forsaken cs) :
      Hears workers cs i (.stop false)

/-- **Asking whether to stop** tells what the owner has done. -/
theorem Reflects.hears {workers : Nat} {cs : List Command} {b : Barrier}
    (h : Reflects workers cs b) (i : Nat) :
    Hears workers cs i (b.shouldStop i).1 := by
  by_cases hi : b.held i = true
  · have holds := (h.held i).1 hi
    obtain ⟨s, hs, _⟩ := exists_of_held hi
    have hfits := h.sane.signals s (List.mem_of_getElem? hs)
    have htoken : b.token i = s.token := by simp [Barrier.token, hs]
    obtain ⟨judges, -⟩ := shouldStop_spec h.sane hi
    generalize (b.shouldStop i).1 = v at judges
    cases judges with
    | waits token =>
      obtain ⟨here, untold⟩ :=
        h.stage.undecided (hfits.waiting.1 (htoken ▸ token))
      exact .waits holds here untold
    | told token => exact .told holds (h.sent i token)
    | lost token => exact .lost holds (hfits.lost (htoken ▸ token))
  · rw [shouldStop_of_gone (by simpa using hi)]
    exact .gone ((h.held i).not.1 hi)

/-- A question has one answer. -/
theorem Hears.unique {workers i : Nat} {cs : List Command} {v w : Verdict}
    (hv : Hears workers cs i v) (hw : Hears workers cs i w) : v = w := by
  cases hv with
  | gone returned =>
    cases hw with
    | gone => rfl
    | waits holds | told holds | lost holds => exact absurd holds returned
  | waits holds here untold =>
    cases hw with
    | gone returned => exact absurd holds returned
    | waits => rfl
    | told _ told => exact absurd told untold
    | lost _ forsaken => exact absurd forsaken.1 here
  | told holds told =>
    cases hw with
    | gone returned => exact absurd holds returned
    | waits _ _ untold => exact absurd told untold
    | told => rfl
    | lost _ forsaken => exact absurd told forsaken.2
  | lost holds forsaken =>
    cases hw with
    | gone returned => exact absurd holds returned
    | waits _ here => exact absurd forsaken.1 here
    | told _ told => exact absurd told forsaken.2
    | lost => rfl

/-- What a worker was told once, it is told for good. -/
theorem Hears.later {workers i : Nat} {cs later : List Command}
    {told : Bool} (h : Hears workers cs i (.stop told))
    (holds : Holds workers (cs ++ later) i) :
    Hears workers (cs ++ later) i (.stop told) := by
  cases h with
  | told _ told => exact .told holds (told.later later)
  | lost _ forsaken => exact .lost holds (forsaken.later later)

theorem Command.verdict {b : Barrier} {c : Command} {v : Verdict}
    (h : (b.perform c).1 = .verdict v) :
    ∃ i, c = .shouldStop i ∧ (b.shouldStop i).1 = v := by
  cases c with
  | shouldStop i => exact ⟨i, rfl, Reply.verdict.inj h⟩
  | start => cases h
  | poll => cases h
  | release => cases h
  | done i =>
    by_cases hi : b.held i = true <;> simp [Barrier.perform, hi] at h
  | drop i =>
    by_cases hi : b.held i = true <;> simp [Barrier.perform, hi] at h

/-- **All workers get the same verdict.** Whenever a worker is told
anything in a run of the barrier, by any worker's question and however
often it was asked, it is told to stop if the owner was polled in a
rendezvous, even if it has left since, and not to stop if the owner has
left before that. A worker that holds its signal is told this from then on,
and has to wait as long as neither has come about. -/
theorem one_verdict (workers : Nat) (cs : List Command) :
    (∀ r ∈ history perform (make workers) cs, ∀ told,
      r.1 = .verdict (.stop told) →
        (told = true ↔ Told cs) ∧ (told = false ↔ Forsaken cs)) ∧
    ∀ i, let verdict cs := ((after workers cs).perform (.shouldStop i)).1
      (verdict cs = .verdict .gone ↔ ¬ Holds workers cs i) ∧
      (verdict cs = .verdict .pending ↔
        Holds workers cs i ∧ .release ∉ cs ∧ ¬ Told cs) ∧
      (verdict cs = .verdict (.stop true) ↔
        Holds workers cs i ∧ Told cs) ∧
      (verdict cs = .verdict (.stop false) ↔
        Holds workers cs i ∧ Forsaken cs) ∧
      ∀ told later, verdict cs = .verdict (.stop told) →
        Holds workers (cs ++ later) i →
          verdict (cs ++ later) = .verdict (.stop told) := by
  have hears (cs : List Command) (i : Nat) :
      Hears workers cs i ((after workers cs).shouldStop i).1 :=
    (reflects_after workers cs).hears i
  refine ⟨fun r hr told hverdict => ?_, fun i => ?_⟩
  · obtain ⟨past, c, ⟨later, rfl⟩, rfl⟩ := mem_history hr
    obtain ⟨i, rfl, heard⟩ := Command.verdict hverdict
    have hpast := heard ▸ hears past i
    rw [List.append_assoc]
    cases hpast with
    | told holds told =>
      have told : Told (past ++ ([.shouldStop i] ++ later)) := told.later _
      exact ⟨by simpa, by simpa [Forsaken] using fun _ => told⟩
    | lost holds forsaken =>
      have forsaken := forsaken.later ([.shouldStop i] ++ later)
      exact ⟨by simpa using forsaken.2, by simpa⟩
  · have hiff (cs : List Command) (v : Verdict) :
        ((after workers cs).perform (.shouldStop i)).1 = .verdict v ↔
          Hears workers cs i v := by
      simp only [Barrier.perform, Reply.verdict.injEq]
      exact ⟨fun h => h ▸ hears cs i, (hears cs i).unique⟩
    simp only [hiff]
    refine ⟨?_, ?_, ?_, ?_, fun told later now holds => now.later holds⟩
    · exact ⟨fun (.gone returned) => returned, .gone⟩
    · exact ⟨fun (.waits holds here untold) => ⟨holds, here, untold⟩,
        fun ⟨holds, here, untold⟩ => .waits holds here untold⟩
    · exact ⟨fun (.told holds told) => ⟨holds, told⟩,
        fun ⟨holds, told⟩ => .told holds told⟩
    · exact ⟨fun (.lost holds forsaken) => ⟨holds, forsaken⟩,
        fun ⟨holds, forsaken⟩ => .lost holds forsaken⟩

end Stripe.Barrier
