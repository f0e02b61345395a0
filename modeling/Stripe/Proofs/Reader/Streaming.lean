import Stripe.Proofs.Reader.Success

/-!
# Reading the stream to its end

A user who reads comes to the end of the stream exactly on good inputs
(`reads_exactly`). What is said of a reader that gets good inputs holds
along every run (`fares_run`), however the inputs are cut and whichever
moves come first, and the moves that can follow one another are limited
(`strides_le`).
-/

namespace Stripe.Reader

open Segment Transmission

/-- What arrives is at any time the beginning of the inputs. -/
def Brings (n : Nat) (inputs : Nat → Inlet) (es : List Event) : Prop :=
  ∀ past, past <+: es → ∀ i < n, (arrived past i).Before (inputs i)

/-- The reader is not called again after it was asked for the message. -/
def Orderly (es : List Event) : Prop :=
  ∀ past e, past ++ [e] <+: es → e.isCall = true → .message ∉ past

/-- A read call, or something that is not a call. Nobody stops the reader
or lets go of a call. -/
def Event.isReading : Event → Bool
  | .message => false
  | e => e.isPlain

theorem Event.isPlain_of_reading {e : Event} (h : e.isReading = true) :
    e.isPlain = true := by
  cases e <;> first | rfl | cases h

theorem orderly_of_reading {es : List Event}
    (h : ∀ e ∈ es, e.isReading = true) : Orderly es := by
  intro past e hfront _ hmem
  have := h .message (hfront.subset (by simp [hmem]))
  cases this

/-- Bytes or a failure arrive. -/
def Event.isArrival : Event → Bool
  | .feed .. | .fault .. => true
  | _ => false

theorem tape_arrived_append (front : List Event) {back : List Event}
    (h : ∀ e ∈ back, e.isArrival = false) (i : Nat) :
    (arrived (front ++ back) i).tape = (arrived front i).tape := by
  induction back generalizing front with
  | nil => simp
  | cons e back ih =>
    rw [show front ++ e :: back = (front ++ [e]) ++ back by simp,
      ih (front ++ [e]) fun e' h' => h e' (by simp [h']), arrived_append]
    have he := h e (by simp)
    cases e with
    | feed j bs => cases he
    | fault j cause => cases he
    | close j => simp only [Event.brings]; split <;> rfl
    | _ => rfl

/-- What has arrived in the end was brought, if nothing arrives on a
connection after it was closed. -/
theorem brings_arrived (n : Nat) (front : List Event) {back : List Event}
    (hopen : ∀ i, .close i ∉ front)
    (hback : ∀ e ∈ back, e.isArrival = false) :
    Brings n (arrived front) (front ++ back) := by
  intro past hpast i _
  have hwhole := tape_arrived_append front hback i
  refine ⟨hwhole ▸ arrived_front hpast i, fun hend => ?_⟩
  rcases List.prefix_or_prefix_of_prefix hpast
    (List.prefix_append front back) with hfront | ⟨past', rfl⟩
  · exact absurd (hfront.subset (close_mem hend)) (hopen i)
  · have hle := (List.prefix_append_right_inj front).1 hpast
    exact tape_arrived_append front (fun e he => hback e (hle.subset he)) i

/-! ## Along a run -/

section Run

variable {n : Nat} {config : Config} {inputs : Nat → Inlet}
  {plan : Nat → List Segment} {message : Bytes} {r₀ r : Reader}
  {es : List Event}

theorem Promises.of_brings (hb : Brings n inputs es)
    (hn : n < Intake.countLimit) (hsize : message.length ≤ maxCount)
    (hy : Yields n config.maxPayloadLen inputs plan message)
    {past : List Event} (hpast : past <+: es) :
    Promises n config.maxPayloadLen (arrived past) plan message :=
  ⟨hn, hsize, inputs, hy, hb past hpast⟩

theorem fares_make (h : make n config = .ok r₀) :
    Fares n config.maxPayloadLen plan message False (arrived [])
      (fun _ => []) [] r₀ := by
  have hserves := serves_make h
  have hset := settled_make h
  obtain ⟨_, _, rfl⟩ := make_eq_ok h
  exact ⟨hserves, hset.unharmed rfl, .inl rfl, by simp, by simp, by simp⟩

/-- A stride is one or two events to a reader with good inputs. -/
theorem Fares.stride {maxPayload : Nat} {asked : Prop}
    {input : Nat → Inlet} {rows : Nat → List Segment} {log : Bytes}
    {r r' : Reader} (h : Fares n maxPayload plan message asked input rows
      log r) {e : Event}
    (hp : Promises n maxPayload (fun i => e.brings i (input i)) plan message)
    (he : e.isPlain = true) (hcall : e.isCall = true → ¬ asked)
    (hs : r.stride e = some r') :
    ∃ rows', Fares n maxPayload plan message (asked ∨ e = .message)
      (fun i => e.brings i (input i)) rows' (log ++ gained r r') r' := by
  rcases stride_cases hs with ⟨hstep, _⟩ | ⟨r₁, h₁, h₂, hwhich⟩
  · obtain ⟨rows', _, h'⟩ := h.step hp he hcall hstep
    exact ⟨rows', h'⟩
  · obtain ⟨rows₁, _, h'⟩ := h.step hp he hcall h₁
    obtain ⟨hnil, hgain⟩ := gained_stride h₁ hwhich h₂
    rw [hnil, List.append_nil] at h'
    rw [← hgain]
    -- the second move is one of the same worker, or of the call
    rcases hwhich with ⟨i, rfl, _⟩ | ⟨rfl, _⟩
    · obtain ⟨rows₂, _, h''⟩ := h'.step hp he (by simp [Event.isCall]) h₂
      exact ⟨rows₂, by simpa [Event.brings] using h''⟩
    · obtain ⟨rows₂, _, h''⟩ := h'.step hp he (by simp [Event.isCall]) h₂
      exact ⟨rows₂, by simpa [Event.brings] using h''⟩

/-- **A reader with good inputs fares well along every run.** -/
theorem fares_run (hmake : make n config = .ok r₀)
    (hes : ∀ e ∈ es, e.isPlain = true) (horder : Orderly es)
    (hp : ∀ past, past <+: es →
      Promises n config.maxPayloadLen (arrived past) plan message)
    (hrun : run stride r₀ es = some r) :
    ∃ rows, Fares n config.maxPayloadLen plan message (.message ∈ es)
      (arrived es) rows (obtained stride r₀ es) r := by
  refine follow (P := fun past log r => ∃ rows, Fares n
    config.maxPayloadLen plan message (.message ∈ past) (arrived past) rows
    log r) ⟨_, by simpa using fares_make hmake⟩ ?_ hrun
  rintro past e log r r' hfront ⟨rows, h⟩ hmove
  have hp' := hp _ hfront
  rw [arrived_concat] at hp' ⊢
  obtain ⟨rows', h'⟩ := h.stride hp' (hes e (hfront.subset (by simp)))
    (horder past e hfront) hmove
  exact ⟨rows', by simpa [eq_comm] using h'⟩

/-- What was returned to the user is the beginning of the message. -/
theorem Fares.log_front {maxPayload : Nat} {asked : Prop}
    {input : Nat → Inlet} {rows : Nat → List Segment} {log : Bytes}
    (h : Fares n maxPayload plan message asked input rows log r)
    (hp : Promises n maxPayload input plan message) : log <+: message := by
  obtain ⟨out, hinv, hlog⟩ := h.serves
  rcases h.going with hgo | ⟨_, _, hall, _⟩
  · have hout : log <+: out := by
      rw [hlog hgo]
      exact List.prefix_append _ _
    refine hout.trans ?_
    obtain ⟨future, htiles, _⟩ := hp.promised fun i hi => hinv.front hp hi
    match hm : r.mode with
    | none =>
      rw [(hinv.unstarted hm).2.2.1]
      exact List.nil_prefix
    | some .stream => exact Streams.front (hinv.stored hgo _ hm) htiles
    | some .collect =>
      rw [(hinv.stored hgo _ hm).2]
      exact List.nil_prefix
  · exact hall ▸ List.prefix_rfl

/-- **The moves that can follow one another are limited.** -/
theorem strides_le (hmake : make n config = .ok r₀)
    (hes : ∀ e ∈ es, e.isPlain = true) (hrun : run stride r₀ es = some r)
    {moves : List Event} (hmoves : ∀ e ∈ moves, e.isMove = true)
    {r' : Reader} (hrun' : run stride r moves = some r') :
    moves.length ≤ r.weight := by
  obtain ⟨rows, ⟨out, hinv, _⟩, _⟩ := serves_run hmake hes hrun
  suffices hall : ∀ (moves : List Event) (r : Reader)
      (input : Nat → Inlet) (rows : Nat → List Segment) (out : Bytes),
      (∀ e ∈ moves, e.isMove = true) →
      Inv n config.maxPayloadLen input rows out r →
      run stride r moves = some r' → moves.length + r'.weight ≤ r.weight by
    have := hall moves r _ rows out hmoves hinv hrun'
    omega
  intro moves
  induction moves with
  | nil =>
    intro r input rows out _ _ hrun
    cases hrun
    simp
  | cons e moves ih =>
    intro r input rows out hmoves hinv hrun
    obtain ⟨r₁, hstride, hrest⟩ := Option.bind_eq_some_iff.1 hrun
    have he := hmoves e (by simp)
    have hlater (r₁ : Reader) {rows : Nat → List Segment} {out : Bytes}
        {input : Nat → Inlet} (hinv₁ : Inv n config.maxPayloadLen input
          rows out r₁) (hrest : run stride r₁ moves = some r') :=
      ih r₁ input rows out (fun e' h' => hmoves e' (by simp [h'])) hinv₁
        hrest
    simp only [List.length_cons]
    rcases stride_cases hstride with ⟨hstep, _⟩ | ⟨r₂, h₁, h₂, _⟩
    · obtain ⟨_, _, hinv₁⟩ := hinv.step hstep
      have hlt := hinv.weight_lt he hstep
      have := hlater r₁ hinv₁ hrest
      omega
    · obtain ⟨_, _, hinv₂⟩ := hinv.step h₁
      obtain ⟨_, _, hinv₁⟩ := hinv₂.step h₂
      have hlt₁ := hinv.weight_lt he h₁
      have hlt₂ := hinv₂.weight_lt he h₂
      have := hlater r₁ hinv₁ hrest
      omega

end Run

/-! ## The end of the stream -/

theorem answer_of_over {r r' : Reader} (h : r.advance = some r')
    (hover : r'.call = none) : ∃ a, r'.answer = some a := by
  cases advance_cases h with
  | stop call stopped => exact ⟨_, rfl⟩
  | look call going => cases hover
  | message call completed =>
    rcases takeMessage_cases r with ⟨e, _, he⟩ | ⟨m, _, he⟩
    · exact he ▸ ⟨_, rfl⟩
    · exact he ▸ ⟨_, rfl⟩
  | hole call completed nobody => exact ⟨_, rfl⟩
  | collecting call completed somebody => cases hover
  | broken call next => exact ⟨_, rfl⟩
  | @ready extent live bs t call next =>
    cases extent with
    | upTo max => exact ⟨_, rfl⟩
    | toEnd out count => cases hover
    | remainder out => cases hover
  | @finished extent live t call next => cases extent <;> exact ⟨_, rfl⟩
  | gap call next nobody => exact ⟨_, rfl⟩
  | pending call next somebody => cases hover
  | wake call woken => cases hover
  | stir call stopped => cases hover

/-- A call that is over has come to the end of the stream, has brought
bytes, or has failed. -/
theorem over_of_advance {r r' : Reader} (ha : r.advance = some r')
    (hover : r'.call = none) : Ends r r' ∨ gained r r' ≠ [] ∨
      ∃ a, r'.answer = some a ∧ a.isFailure = true := by
  have hbusy : r.call.isSome = true := by
    cases hc : r.call with
    | none => simp [advance_eq_none_iff.2 (.inl hc)] at ha
    | some call => rfl
  obtain ⟨a, hans⟩ := answer_of_over ha hover
  cases hfail : a.isFailure with
  | true => exact .inr (.inr ⟨a, hans, hfail⟩)
  | false =>
    cases hend : a.isEnd with
    | true => exact .inl ⟨hbusy, hover, a, hans, hend⟩
    | false =>
      obtain ⟨call, hcall⟩ := Option.isSome_iff_exists.1 hbusy
      cases a with
      | bytes bs =>
        refine .inr (.inl ?_)
        simpa [gained, hcall, hover, hans, Answer.yield, Answer.isEnd]
          using hend
      | appended count out => cases hend
      | message m => cases hend
      | failed e => cases hfail
      | interrupted e out => cases hfail

/-- In strides, too, the last move of a call is one of the call. -/
theorem over_cases {r r' : Reader} {e : Event} (he : e.isPlain = true)
    (hs : r.stride e = some r') (hbusy : r.call.isSome = true)
    (hover : r'.call = none) :
    e = .advance ∧ (Ends r r' ∨ gained r r' ≠ [] ∨
      ∃ a, r'.answer = some a ∧ a.isFailure = true) := by
  rcases stride_cases hs with ⟨hstep, _⟩ |
    ⟨r₁, h₁, h₂, ⟨i, rfl, _⟩ | ⟨rfl, hwhich⟩⟩
  · obtain rfl := eq_advance_of_ends he hstep hbusy hover
    exact ⟨rfl, over_of_advance hstep hover⟩
  · rw [(call_of_work h₂).1, (call_of_work h₁).1] at hover
    rw [hover] at hbusy
    cases hbusy
  · obtain ⟨_, hgain⟩ := gained_stride h₁ (.inr ⟨rfl, hwhich⟩) h₂
    refine ⟨rfl, ?_⟩
    rcases over_of_advance h₂ hover with ⟨_, hend⟩ | hbytes | hfail
    · exact .inl ⟨hbusy, hend⟩
    · exact .inr (.inl (hgain ▸ hbytes))
    · exact .inr (.inr hfail)

/-- **A user who reads comes to the end of the stream exactly on good
inputs**, however the inputs are cut and whichever moves come first, as
long as a failure is recorded as soon as it is found.

A call that comes to the end has read the message of good inputs. If the
inputs are good, nothing fails and what was read is the beginning of the
message; a call that is over has brought bytes or has come to the end, and
then all of the message was read. Once all of the inputs have arrived, no
call waits for ever: the moves that can follow one another are limited,
and when there are none the call is over. -/
theorem reads_exactly {n : Nat} {config : Config} {r₀ r : Reader}
    {es : List Event} (hmake : make n config = .ok r₀)
    (hn : n < Intake.countLimit) (hes : ∀ e ∈ es, e.isReading = true)
    (hrun : run stride r₀ es = some r) :
    (∀ e r', e.isReading = true → r.stride e = some r' → Ends r r' →
      Good n config.maxPayloadLen (arrived es)
        (obtained stride r₀ (es ++ [e]))) ∧
    (∀ inputs message, Good n config.maxPayloadLen inputs message →
      message.length ≤ maxCount → Brings n inputs es →
      r.failure = none ∧ r.cancelled = false ∧
      (∀ a, r.answer = some a → a.isFailure = false) ∧
      obtained stride r₀ es <+: message ∧
      (∀ e r', e.isReading = true → r.stride e = some r' →
        r.call.isSome = true → r'.call = none →
        (gained r r' ≠ [] ∨ Ends r r') ∧
          (Ends r r' → obtained stride r₀ (es ++ [e]) = message)) ∧
      ((∀ i < n, (arrived es i).tape = (inputs i).tape) → r.Quiet →
        r.call = none)) ∧
    (∀ moves r', (∀ e ∈ moves, e.isMove = true) →
      run stride r moves = some r' → moves.length ≤ r.weight) := by
  have hplain : ∀ e ∈ es, e.isPlain = true := fun e he =>
    Event.isPlain_of_reading (hes e he)
  have hadd {e : Event} {r' : Reader} (hs : r.stride e = some r') :
      obtained stride r₀ (es ++ [e]) =
        obtained stride r₀ es ++ gained r r' :=
    logged_concat hrun hs
  refine ⟨fun e r' he hs hend => ?_, fun inputs message hgood hsize hbrings =>
    ?_, fun moves r' hmoves hrun' => strides_le hmake hplain hrun hmoves hrun'⟩
  · obtain ⟨rows, hserves, hset⟩ := serves_run hmake hplain hrun
    obtain ⟨_, hy⟩ := hserves.stride_ends hset
      (Event.isPlain_of_reading he) hs hend
    rw [hadd hs]
    exact ⟨rows, hy⟩
  · obtain ⟨plan, hy⟩ := hgood
    have hp (past : List Event) (hpast : past <+: es) :=
      Promises.of_brings hbrings hn hsize hy hpast
    have hpes := hp es List.prefix_rfl
    obtain ⟨rows, hfares⟩ := fares_run hmake hplain
      (orderly_of_reading hes) hp hrun
    have hgo : r.cancelled = false := by
      rcases hfares.going with hgo | ⟨hasked, _⟩
      · exact hgo
      · cases hes _ hasked
    refine ⟨hfares.unharmed.1, hgo, hfares.success, hfares.log_front hpes,
      fun e r' he hs hbusy hover => ?_, fun hall hq => ?_⟩
    · have hplain' := Event.isPlain_of_reading he
      obtain ⟨rfl, hcases⟩ := over_cases hplain' hs hbusy hover
      refine ⟨?_, fun hend => ?_⟩
      · rcases hcases with hend | hbytes | ⟨a, hans, hfail⟩
        · exact .inr hend
        · exact .inl hbytes
        · obtain ⟨_, hfares'⟩ := hfares.stride (e := .advance) hpes rfl
            (by simp [Event.isCall]) hs
          rw [hfares'.success a hans] at hfail
          cases hfail
      · -- the inputs make one message only
        obtain ⟨rows, hserves, hset⟩ := serves_run hmake hplain hrun
        obtain ⟨_, hy'⟩ := hserves.stride_ends hset rfl hs hend
        have hgood : Good n config.maxPayloadLen inputs
            (obtained stride r₀ es ++ gained r r') :=
          Good.later ⟨rows, hy'⟩ fun i hi =>
            (hbrings es List.prefix_rfl i hi).front
        rw [hadd hs, hgood.unique ⟨plan, hy⟩]
    · refine (hfares.quiet hpes (fun i hi => ?_) hq).1
      exact (hy.carries i hi).later (hall i hi ▸ List.prefix_rfl)

/-- One connection brings two bytes, and a user reads to the end. -/
def shortEvents : List Event :=
  [.feed 0 (encodeAll [.control 1, .data [104, 105] 0 .none, .terminal 2]),
   .readToEnd [], .work 0, .work 0, .work 0, .work 0, .advance]

/-- The user gets the two bytes, since they are what the connection
brings. -/
theorem reads_exactly_short : ∃ r₀ r r', make 1 .standard = .ok r₀ ∧
    run stride r₀ shortEvents = some r ∧ r.stride .advance = some r' ∧
    Good 1 Config.standard.maxPayloadLen (arrived shortEvents) [104, 105] ∧
    r.failure = none ∧ Ends r r' ∧
    obtained stride r₀ (shortEvents ++ [.advance]) = [104, 105] := by
  refine ⟨_, _, _, rfl, rfl, rfl, ?_⟩
  obtain ⟨honly, hif, _⟩ := @reads_exactly 1 .standard _ _ shortEvents rfl
    (by decide) (by decide) rfl
  have hgood := honly .advance _ rfl rfl ⟨rfl, rfl, _, rfl, rfl⟩
  have hbrings : Brings 1 (arrived shortEvents) (shortEvents ++ []) :=
    brings_arrived 1 shortEvents (by simp [shortEvents]) (by simp)
  obtain ⟨hfail, _, _, _, hend, _⟩ :=
    hif (arrived shortEvents) [104, 105] hgood (by decide) hbrings
  exact ⟨hgood, hfail, ⟨rfl, rfl, _, rfl, rfl⟩,
    (hend .advance _ rfl rfl rfl rfl).2 ⟨rfl, rfl, _, rfl, rfl⟩⟩

end Stripe.Reader
