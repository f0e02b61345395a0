import Stripe.Proofs.Writer.Waiting

/-!
# A source that fails

`sendFrom` sends what a source yields and then finishes the writer. If the
source fails, the call comes to a failure first: that of the source, or an
earlier one. It records it, which stops the writer, and only then goes on
to finish (`Drains.step`). At that point no worker was told to stop, so the
rows of all workers are open, and from then on nothing is written
(`Unended`). What was recorded first stays so (`Inv.failure_kept`), and
`finish` tells it.
-/

namespace Stripe.Writer

open Segment Handoff Barrier

/-- The first failure of a source. -/
def firstFault : List Inlet.Item → Option IoError
  | [] => none
  | .fault cause :: _ => some cause
  | .chunk _ :: rest => firstFault rest

/-- The wires carry the beginning of rows without a terminal segment, whose
control segments announce `n` connections. -/
def Unended (n : Nat) (w : Writer) : Prop :=
  ∃ rows : Nat → List Segment, ∀ i < n,
    w.wire i <+: encodeAll (rows i) ∧ Open (rows i) ∧
    ∀ s ∈ rows i, s.WellFormed ∧
      (s.isControl = true → s = .control (.ofNat n))

/-- A call sends what a source yields, and is to finish the writer after
that. The source has yet to fail with `cause`, or something has failed, was
recorded, and the writer is being finished. -/
inductive Drains (cause : IoError) (w : Writer) : Prop where
  | sending {c : Call} {source : List Inlet.Item} {count : Nat}
      (call : w.call = some c)
      (job : c.job? = some (.copy source count false true))
      (ahead : firstFault source = some cause) (isOpen : w.stage ≠ .closed) :
      Drains cause w
  | closing {e : Error} (ruined : w.Ruined) (stopped : w.cancelled = true)
      (failure : w.failure = some e) (closes : w.Closes (some e)) :
      Drains cause w

section Unfinished

variable {n : Nat} {es : List Event} {k : Record} {loose : Prop}
  {rows done : Nat → List Segment} {fed : List Segment} {w w' : Writer}
  {e : Event} {cause : IoError}

/-! ## The source -/

/-- **A source that will fail** fails before a segment is full, or fills
it and has yet to fail. -/
theorem fill_of_fault {max : Nat} {source rest : List Inlet.Item}
    {bytes : Bytes} {failed : Option IoError} (hm : 0 < max)
    (ha : firstFault source = some cause)
    (hf : fill max source = (bytes, rest, failed)) :
    failed = some cause ∨
      failed = none ∧ bytes.length = max ∧ firstFault rest = some cause := by
  induction source generalizing max bytes rest failed with
  | nil => cases ha
  | cons item source ih =>
    cases item with
    | fault cause' =>
      rw [fill, if_neg (by omega)] at hf
      cases hf
      exact .inl ha
    | chunk bs =>
      simp only [fill] at hf
      split at hf
      · rename_i hlt
        generalize hg : fill (max - bs.length) source = r at hf
        obtain ⟨more, rest', failed'⟩ := r
        cases hf
        refine (ih (by omega) ha hg).imp_right ?_
        rintro ⟨hnone, hlen, hrest⟩
        refine ⟨hnone, ?_, hrest⟩
        rw [List.length_append, hlen]
        omega
      · rename_i hge
        cases hf
        refine .inr ⟨rfl, ?_, ha⟩
        rw [List.length_take]
        omega

/-! ## The first failure -/

theorem failure_fail {f : Error} (hf : w.failure = some f) (e : Error) :
    (w.fail e).failure = some f := by
  simp [Writer.fail, hf]

theorem failure_reject {f : Error} (hf : w.failure = some f) (e : Error)
    (job : Job) : (w.reject e job).failure = some f := by
  generalize hr : w.reject e job = w'
  cases reject_cases hr with
  | turn => exact failure_fail hf _
  | close stage => exact hf
  | fails e' => exact hf

theorem failure_shutLane {f : Error} (hf : w.failure = some f) (i : Nat) :
    (w.shutLane i).failure = some f := by
  unfold Writer.shutLane
  split
  · exact hf
  · exact failure_fail hf _
  · rename_i c phase _ hl
    cases hc : c.shutdown.1 with
    | none => simpa [hc, setLane] using hf
    | some cause =>
      simp only [hc]
      split
      · exact hf
      · exact failure_fail (w := w.setLane i ⟨c.shutdown.2, phase⟩) hf _

/-- **What was recorded first** stays so, whatever happens. -/
theorem Inv.failure_kept (h : Inv n loose rows done fed w) {f : Error}
    (hf : w.failure = some f) (hs : w.step e = some w') :
    w'.failure = some f := by
  cases step_cases hs with
  | work work =>
    cases h.worked work with
    | failed lane part going write => exact failure_fail hf _
    | unflushed lane flush => exact failure_fail hf _
    | @written c c' phase s rest lane part going write =>
      cases phase with
      | writing u r last => cases last <;> exact hf
      | _ => exact hf
    | _ => exact hf
  | advance advance =>
    cases advance_cases h.maxLen advance with
    | late call stage => exact failure_reject hf _ _
    | abort call stopped => exact failure_reject hf _ _
    | @alone s job r h' call going send fails waits =>
      exact failure_reject (w := { w with handoff := h' }) hf _ _
    | proceed call proceeds =>
      cases proceeds with
      | broken fill => exact failure_reject hf _ _
      | _ => exact hf
    | shut call lt => exact failure_shutLane hf _
    | _ => exact hf
  | begin idle begins => exact hf
  | abandon busy => exact (failure_abandon w).trans hf
  | cancel => exact hf
  | drop => exact (failure_drop w).trans hf
  | room i m => exact hf

/-- So it is in every run. -/
theorem Reached.failure_kept (h : Reached n es k loose rows done w)
    {f : Error} (hf : w.failure = some f) {more : List Event}
    (hrun : run Writer.step w more = some w') : w'.failure = some f :=
  (h.always (P := fun v => v.failure = some f) hf
    (fun _ _ hv hf hs => hv.inv.failure_kept hf hs) hrun).1

/-! ## The wires -/

/-- Before the writer is finished, no worker was handed a terminal
segment. -/
theorem Inv.unended (h : Inv n loose rows done fed w)
    (hs : w.stage ≠ .closed) (hmax : w.config.maxSegmentLen < UInt64.size) :
    w.Unended n := by
  have hopen (i : Nat) (hi : i < n) : Open (rows i) :=
    (h.shaped hi).resolve_right fun ⟨htold, _⟩ => hs (h.closed_of_told htold)
  refine ⟨rows, fun i hi => ⟨h.front hi, hopen i hi, fun s hmem => ?_⟩⟩
  rcases h.feeds.proper (h.mem_fed hi hmem (hopen i hi s hmem)) with
    rfl | ⟨_, hle, offset, he⟩
  · exact ⟨wellFormed_control _, fun _ => rfl⟩
  · refine ⟨?_, fun hc => ?_⟩
    · rw [he]
      exact wellFormed_data (Nat.lt_of_le_of_lt hle hmax) offset
    · rw [he, isControl_data] at hc
      cases hc

theorem Unended.of_wire (hu : w.Unended n)
    (hw : ∀ i, w'.wire i = w.wire i) : w'.Unended n := by
  obtain ⟨rows, hrows⟩ := hu
  exact ⟨rows, fun i hi => (hw i).symm ▸ hrows i hi⟩

/-- **No terminal segment** is found at the front of a wire. -/
theorem Unended.isOpen (hu : w.Unended n) {i : Nat} (hi : i < n)
    {got : List Segment} (hgot : ∀ s ∈ got, s.WellFormed)
    (hfront : encodeAll got <+: w.wire i) : Open got := by
  obtain ⟨rows, hrows⟩ := hu
  obtain ⟨hwire, hopen, hwf⟩ := hrows i hi
  have hle := front_of_encodeAll hgot (fun s hs => (hwf s hs).1)
    (hfront.trans hwire)
  exact fun s hs => hopen s (hle.subset hs)

/-- A control segment at the front of a wire announces `n`. -/
theorem Unended.control (hu : w.Unended n) {i : Nat} (hi : i < n)
    {got : List Segment} (hgot : ∀ s ∈ got, s.WellFormed)
    (hfront : encodeAll got <+: w.wire i) {s : Segment} (hs : s ∈ got)
    (hc : s.isControl = true) : s = .control (.ofNat n) := by
  obtain ⟨rows, hrows⟩ := hu
  obtain ⟨hwire, _, hwf⟩ := hrows i hi
  have hle := front_of_encodeAll hgot (fun s hs => (hwf s hs).1)
    (hfront.trans hwire)
  exact (hwf s (hle.subset hs)).2 hc

/-! ## The call -/

/-- Something has failed, and was recorded: the call goes on to finish the
writer. -/
theorem drains_reject {v : Writer} {source : List Inlet.Item} {count : Nat}
    {ended : Bool} (err : Error) (hrun : v.stage = .running)
    (hcalm : Phase.flushing ∉ v.phases) :
    (v.reject err (.copy source count ended true)).Drains cause := by
  have hclosed : (v.reject err (.copy source count ended true)).stage =
      .running := hrun
  refine .closing ⟨by simp [hclosed], .inl rfl, hcalm⟩ rfl rfl ?_
  exact .opening rfl hclosed rfl

/-- The call makes a move. -/
theorem Drains.advance (hd : w.Drains cause)
    (h : Inv n loose rows done fed w) (ha : w.advance = some w') :
    w'.Drains cause := by
  cases hd with
  | closing ruined stopped failure closes =>
    have hs : w.step .advance = some w' := ha
    exact .closing (ruined.step h hs).1 ((h.onward hs).cancelled stopped)
      (h.failure_kept failure hs) (closes.advance ruined h ha)
  | @sending c source count call job ahead isOpen =>
    have hcalm := h.calm isOpen
    have hsame {c' : Call} {job' : Job} (call' : w.call = some c')
        (hjob : c'.job? = some job') :
        job' = .copy source count false true := by
      rw [call] at call'
      obtain rfl := Option.some.inj call'
      exact Option.some.inj (hjob.symm.trans job)
    have hno {c' : Call} (call' : w.call = some c')
        (hjob : c'.job? = none) : False := by
      rw [call] at call'
      obtain rfl := Option.some.inj call'
      rw [job] at hjob
      cases hjob
    cases advance_cases h.maxLen ha with
    | start call' stage =>
      obtain rfl := hsame call' rfl
      exact .sending rfl rfl ahead (by simp [setCall, Writer.start])
    | resume call' stage =>
      obtain rfl := hsame call' rfl
      exact .sending rfl rfl ahead isOpen
    | late call' stage => exact absurd stage isOpen
    | abort call' stopped =>
      obtain rfl := hsame call' rfl
      exact drains_reject _ (h.calling.offering _ _ call').1 hcalm
    | @hand s job i h' call' going send =>
      obtain rfl := hsame call' rfl
      exact .sending rfl rfl ahead isOpen
    | @alone s job r h' call' going send fails waits =>
      obtain rfl := hsame call' rfl
      exact drains_reject _ (h.calling.offering _ _ call').1 hcalm
    | @proceed job' _ call' proceeds =>
      obtain rfl := hsame call' rfl
      cases proceeds with
      | broken fill =>
        exact drains_reject _ (h.calling.working _ call') hcalm
      | drained fill =>
        rcases fill_of_fault h.maxLen ahead fill with hf | ⟨_, hlen, _⟩
        · cases hf
        · exact absurd hlen (Nat.ne_of_lt h.maxLen)
      | cut pos fill =>
        rcases fill_of_fault h.maxLen ahead fill with hf | ⟨_, hlen, hrest⟩
        · cases hf
        · rw [hlen, decide_eq_false (Nat.lt_irrefl _)]
          exact .sending rfl rfl hrest isOpen
    | announce call' owner => exact (hno call' rfl).elim
    | tally call' owner count => exact (hno call' rfl).elim
    | settle call' owner count => exact (hno call' rfl).elim
    | shut call' lt => exact (hno call' rfl).elim
    | conclude call' le => exact (hno call' rfl).elim

/-- **A call whose source will fail** goes on to fail. -/
theorem Drains.step (hd : w.Drains cause) (h : Inv n loose rows done fed w)
    (he : e.isPatient = true) (hs : w.step e = some w') :
    w'.Drains cause := by
  by_cases hadv : e = .advance
  · subst hadv
    exact hd.advance h hs
  cases hd with
  | closing ruined stopped failure closes =>
    exact .closing (ruined.step h hs).1 ((h.onward hs).cancelled stopped)
      (h.failure_kept failure hs) (closes.step ruined h he hs)
  | sending call job ahead isOpen =>
    obtain ⟨hcall, _, hstage⟩ := h.aside he hadv hs
    exact .sending (hcall.trans call) job ahead (hstage ▸ isOpen)

/-- **No wire carries a terminal segment** in the meantime. -/
theorem Drains.unended (hd : w.Drains cause)
    (h : Inv n loose rows done fed w) (hu : w.Unended n)
    (hmax : w.config.maxSegmentLen < UInt64.size)
    (he : e.isPatient = true) (hs : w.step e = some w') :
    w'.Unended n := by
  by_cases hadv : e = .advance
  · subst hadv
    exact hu.of_wire fun i => (spares_advance h.maxLen hs).wire i
  cases hd with
  | closing ruined stopped failure closes =>
    exact hu.of_wire fun i => h.frozen stopped hs i
  | sending call job ahead isOpen =>
    obtain ⟨_, _, hstage⟩ := h.aside he hadv hs
    obtain ⟨_, _, _, h'⟩ := h.step hs
    exact h'.unended (hstage ▸ isOpen) ((h.onward hs).config ▸ hmax)

/-- **At rest** the call is over, or waits for a connection. -/
theorem Drains.at_rest (hd : w.Drains cause)
    (h : Reached n es k loose rows done w) (ht : w.Tight) (hq : w.Quiet) :
    w.call = none ∨ w.Blocked := by
  cases hd with
  | closing ruined stopped failure closes =>
    exact .inl (ruined.at_rest h hq)
  | @sending c source count call job ahead isOpen =>
    cases awaits_of_rest call hq.2 with
    | offering going pending => exact .inr (h.blocked ht hq call)
    | stopping announced count => cases job

/-- **When the call is over**, it has told the first failure. -/
theorem Drains.ended (hd : w.Drains cause) (hover : w.call = none) :
    ∃ err, w.failure = some err ∧ w.cancelled = true ∧
      w.answer = some (.failed err) := by
  cases hd with
  | sending call job ahead isOpen =>
    rw [hover] at call
    cases call
  | @closing err ruined stopped failure closes =>
    exact ⟨err, failure, stopped, closes.told hover⟩

/-- **The call meets the failure of its source**, and records it unless
there is an earlier one. -/
theorem Drains.meets (hd : w.Drains cause)
    (h : Inv n loose rows done fed w) {source : List Inlet.Item}
    {count : Nat} (hc : w.call = some (.working
      (.copy source count false true)))
    (hf : (fill w.config.maxSegmentLen source).2.2.isSome = true)
    (ha : w.advance = some w') :
    w'.failure = some (w.failure.getD (.source cause)) := by
  cases hd with
  | sending call job ahead isOpen =>
    rw [hc] at call
    obtain rfl := Option.some.inj call
    cases job
    generalize hfill : fill w.config.maxSegmentLen source = r at hf
    obtain ⟨bytes, rest, failed⟩ := r
    rcases fill_of_fault h.maxLen ahead hfill with rfl | ⟨rfl, _⟩
    · simp only [Writer.advance, hc, proceed, cut, hfill, reject,
        Option.some.injEq] at ha
      rw [← ha]
      rfl
    · cases hf
  | closing ruined stopped failure closes =>
    cases closes with
    | opening call | working call | stopping call | shutting call
    | ended call =>
      rw [hc] at call
      cases call

end Unfinished

end Stripe.Writer
