import Stripe.Stats
import Stripe.Proofs.Tiling
import Stripe.Proofs.Wire

/-!
# The segments of all connections

`rows i` is the row of segments that connection `i` has carried. A row is
*ended* by its terminal segment, and *open* before. `Good` says what all
connections together must carry to make a transfer of a message, and
`Stats.tally` is what the statistics of these rows are.

Rows grow by one segment at a time (`addTo`), and everything that is
computed from them here follows: `pieces_addTo`, `tally_addTo`.
-/

namespace Stripe

namespace Segment

/-- No terminal segment was carried. -/
def Open (row : List Segment) : Prop := ∀ s ∈ row, s.isTerminal = false

/-- The last segment of the row is terminal, and no other one is. -/
def Ended (row : List Segment) : Prop :=
  ∃ init s, row = init ++ [s] ∧ Open init ∧ s.isTerminal = true

/-- Segment `s` comes after the others on connection `i`. -/
def addTo (i : Nat) (s : Segment) (rows : Nat → List Segment) :
    Nat → List Segment :=
  fun j => if j = i then rows j ++ [s] else rows j

/-- The segments of the first `n` connections. -/
def gathered (n : Nat) (rows : Nat → List Segment) : List Segment :=
  (List.range n).flatMap rows

/-- The segments of a row that carry bytes. -/
def dataOf (row : List Segment) : List Segment :=
  row.filter fun s => !s.isEmpty

/-- The segments that carry bytes, of the first `n` connections. -/
def pieces (n : Nat) (rows : Nat → List Segment) : List Segment :=
  (List.range n).flatMap fun i => dataOf (rows i)

/-! ## The segments of a sender -/

@[simp] theorem isControl_control (count : UInt64) :
    (control count).isControl = true := by
  show Flags.contains .endOfDataCount .endOfDataCount = true
  decide

@[simp] theorem isTerminal_control (count : UInt64) :
    (control count).isTerminal = false := by
  show Flags.contains .endOfDataCount .endOfData = false
  decide

@[simp] theorem isControl_terminal (cursor : UInt64) :
    (terminal cursor).isControl = false := by
  show Flags.contains .endOfData .endOfDataCount = false
  decide

@[simp] theorem isTerminal_terminal (cursor : UInt64) :
    (terminal cursor).isTerminal = true := by
  show Flags.contains .endOfData .endOfData = true
  decide

@[simp] theorem isControl_data (bs : Bytes) (offset : UInt64) :
    (data bs offset .none).isControl = false := by
  show Flags.contains .none .endOfDataCount = false
  decide

@[simp] theorem isTerminal_data (bs : Bytes) (offset : UInt64) :
    (data bs offset .none).isTerminal = false := by
  show Flags.contains .none .endOfData = false
  decide

@[simp] theorem isEmpty_control (count : UInt64) :
    (control count).isEmpty = true := rfl

@[simp] theorem isEmpty_terminal (cursor : UInt64) :
    (terminal cursor).isEmpty = true := rfl

@[simp] theorem isEmpty_data (bs : Bytes) (offset : UInt64) :
    (data bs offset .none).isEmpty = bs.isEmpty := rfl

theorem wellFormed_control (count : UInt64) :
    (control count).WellFormed := by
  show 0 = Header.payloadLength _
  unfold Header.payloadLength
  split <;> rfl

theorem wellFormed_terminal (cursor : UInt64) :
    (terminal cursor).WellFormed := by
  simp [WellFormed, Header.payloadLength, Header.hasPayload, terminal]

/-! ## Open and ended rows -/

@[simp] theorem open_nil : Open [] := by simp [Open]

@[simp] theorem open_append {l r : List Segment} :
    Open (l ++ r) ↔ Open l ∧ Open r := by
  simp only [Open, List.mem_append, or_imp, forall_and]

@[simp] theorem open_singleton {s : Segment} :
    Open [s] ↔ s.isTerminal = false := by
  simp [Open]

theorem Open.not_ended {row : List Segment} (h : Open row) : ¬ Ended row := by
  rintro ⟨init, s, rfl, _, hs⟩
  simp [hs] at h

theorem Open.add {row : List Segment} (h : Open row) (s : Segment) :
    (s.isTerminal = false → Open (row ++ [s])) ∧
      (s.isTerminal = true → Ended (row ++ [s])) :=
  ⟨fun hs => open_append.2 ⟨h, open_singleton.2 hs⟩,
    fun hs => ⟨row, s, rfl, h, hs⟩⟩

/-- An ended row is not the front of another one that is open or ended. -/
theorem Ended.eq_of_front {l r : List Segment} (hl : Ended l)
    (hr : Open r ∨ Ended r) (h : l <+: r) : l = r := by
  obtain ⟨init, s, rfl, _, hs⟩ := hl
  obtain ⟨more, rfl⟩ := h
  rcases hr with hr | ⟨init', u, he, hopen, _⟩
  · exact absurd (hr s (by simp)) (by simp [hs])
  · rcases List.eq_nil_or_concat more with rfl | ⟨m, v, rfl⟩
    · rw [List.append_nil]
    · -- the terminal segment would stand before the last one
      rw [List.concat_eq_append, ← List.append_assoc] at he
      obtain ⟨hinit, _⟩ := List.append_inj' he rfl
      rw [← hinit] at hopen
      exact absurd (hopen s (by simp)) (by simp [hs])

/-- A control segment carries no bytes. -/
theorem isEmpty_of_control {s : Segment} (h : s.WellFormed)
    (hc : s.isControl = true) : s.isEmpty = true := by
  have hno : s.header.hasPayload = false := by
    simp only [isControl] at hc
    simp [Header.hasPayload, hc]
  rw [WellFormed, Header.payloadLength, hno, if_neg (by simp)] at h
  simpa [isEmpty] using List.eq_nil_of_length_eq_zero h

/-! ## One more segment -/

@[simp] theorem addTo_self (i : Nat) (s : Segment)
    (rows : Nat → List Segment) : addTo i s rows i = rows i ++ [s] := by
  simp [addTo]

theorem addTo_of_ne {i j : Nat} (h : j ≠ i) (s : Segment)
    (rows : Nat → List Segment) : addTo i s rows j = rows j := by
  simp [addTo, h]

theorem front_addTo (i : Nat) (s : Segment) (rows : Nat → List Segment)
    (j : Nat) : rows j <+: addTo i s rows j := by
  unfold addTo
  split
  · exact List.prefix_append _ _
  · exact List.prefix_rfl

theorem mem_addTo {i j : Nat} {s u : Segment}
    {rows : Nat → List Segment} :
    u ∈ addTo i s rows j ↔ u ∈ rows j ∨ j = i ∧ u = s := by
  by_cases h : j = i
  · subst h
    simp
  · simp [addTo_of_ne h, h]

/-- A row ends with the terminal segment that is added to it. -/
theorem ended_addTo {i j : Nat} {s : Segment}
    {rows : Nat → List Segment} (h : Open (rows i)) :
    Ended (addTo i s rows j) ↔
      Ended (rows j) ∨ s.isTerminal = true ∧ j = i := by
  by_cases hj : j = i
  · subst hj
    rw [addTo_self]
    constructor
    · intro hend
      refine .inr ⟨?_, rfl⟩
      cases ht : s.isTerminal with
      | true => rfl
      | false => exact absurd hend ((h.add s).1 ht).not_ended
    · rintro (hend | ⟨ht, _⟩)
      · exact absurd hend h.not_ended
      · exact (h.add s).2 ht
  · simp [addTo_of_ne hj, hj]

@[simp] theorem dataOf_append (l r : List Segment) :
    dataOf (l ++ r) = dataOf l ++ dataOf r := by
  simp [dataOf]

theorem dataOf_singleton (s : Segment) :
    dataOf [s] = if s.isEmpty then [] else [s] := by
  cases h : s.isEmpty <;> simp [dataOf, h]

/-- Segments without bytes add nothing to the stream. -/
theorem joined_dataOf (l : List Segment) : joined (dataOf l) = joined l := by
  induction l with
  | nil => rfl
  | cons s l ih =>
    rw [← List.singleton_append, dataOf_append, joined_append,
      joined_append, ih, dataOf_singleton]
    split
    · rename_i hs
      have hnil : s.payload = [] := by simpa [isEmpty] using hs
      simp [hnil]
    · rfl

@[simp] theorem gathered_zero (rows : Nat → List Segment) :
    gathered 0 rows = [] := rfl

theorem gathered_succ (n : Nat) (rows : Nat → List Segment) :
    gathered (n + 1) rows = gathered n rows ++ rows n := by
  simp [gathered, List.range_succ]

theorem mem_gathered {n : Nat} {rows : Nat → List Segment} {s : Segment} :
    s ∈ gathered n rows ↔ ∃ i < n, s ∈ rows i := by
  simp [gathered]

theorem gathered_congr {n : Nat} {rows rows' : Nat → List Segment}
    (h : ∀ i < n, rows i = rows' i) : gathered n rows = gathered n rows' := by
  induction n with
  | zero => rfl
  | succ n ih =>
    rw [gathered_succ, gathered_succ, h n (by omega),
      ih fun i hi => h i (by omega)]

/-- **The segments after one more.** -/
theorem gathered_addTo {n i : Nat} (hi : i < n) (s : Segment)
    (rows : Nat → List Segment) :
    (gathered n (addTo i s rows)).Perm (gathered n rows ++ [s]) := by
  induction n with
  | zero => omega
  | succ n ih =>
    rw [gathered_succ, gathered_succ]
    by_cases h : i = n
    · subst h
      rw [addTo_self, ← List.append_assoc,
        gathered_congr fun j hj => addTo_of_ne (by omega) s rows]
    · rw [addTo_of_ne (Ne.symm h)]
      refine ((ih (by omega)).append_right _).trans ?_
      simp only [List.append_assoc]
      exact List.perm_append_comm.append_left _

theorem pieces_eq (n : Nat) (rows : Nat → List Segment) :
    pieces n rows = dataOf (gathered n rows) :=
  List.filter_flatMap.symm

theorem pieces_succ (n : Nat) (rows : Nat → List Segment) :
    pieces (n + 1) rows = pieces n rows ++ dataOf (rows n) := by
  rw [pieces_eq, pieces_eq, gathered_succ, dataOf_append]

theorem mem_pieces {n : Nat} {rows : Nat → List Segment} {s : Segment} :
    s ∈ pieces n rows ↔ (∃ i < n, s ∈ rows i) ∧ s.payload ≠ [] := by
  rw [pieces_eq, ← mem_gathered]
  simp [dataOf, isEmpty]

theorem pieces_congr {n : Nat} {rows rows' : Nat → List Segment}
    (h : ∀ i < n, rows i = rows' i) : pieces n rows = pieces n rows' := by
  rw [pieces_eq, pieces_eq, gathered_congr h]

/-- The pieces after one more segment. -/
theorem pieces_addTo {n i : Nat} (hi : i < n) (s : Segment)
    (rows : Nat → List Segment) :
    (pieces n (addTo i s rows)).Perm (pieces n rows ++ dataOf [s]) := by
  rw [pieces_eq, pieces_eq, ← dataOf_append]
  exact (gathered_addTo hi s rows).filter _

/-- Of two families of rows, one ahead of the other, the pieces of the one
are among those of the other. -/
theorem pieces_of_front {n : Nat} {rows rows' : Nat → List Segment}
    (h : ∀ i < n, rows i <+: rows' i) :
    ∃ more, (pieces n rows').Perm (pieces n rows ++ more) := by
  induction n with
  | zero => exact ⟨[], .refl _⟩
  | succ n ih =>
    obtain ⟨more, hmore⟩ := ih fun i hi => h i (by omega)
    obtain ⟨tail, htail⟩ := h n (by omega)
    refine ⟨more ++ dataOf tail, ?_⟩
    rw [pieces_succ, pieces_succ, ← htail, dataOf_append]
    refine (hmore.append_right _).trans ?_
    simp only [List.append_assoc]
    refine List.Perm.append_left _ ?_
    rw [← List.append_assoc, ← List.append_assoc]
    exact List.perm_append_comm.append_right _

theorem Tiles.perm {segs segs' : List Segment} {m : Bytes}
    (h : Tiles segs m) (hp : segs.Perm segs') : Tiles segs' m := by
  obtain ⟨row, hrow, hrest⟩ := h
  exact ⟨row, hrow.trans hp, hrest⟩

/-- **Segments tile at most one message.** -/
theorem Tiles.unique {segs : List Segment} {m m' : Bytes}
    (h : Tiles segs m) (h' : Tiles segs m') : m = m' := by
  obtain ⟨row, hrow, hchain, rfl⟩ := h
  obtain ⟨row', hrow', hchain', rfl⟩ := h'
  have hperm : (row ++ []).Perm row' := by
    simpa using hrow.trans hrow'.symm
  obtain ⟨back, rfl, hback, _⟩ := hchain'.exists_back hchain hperm
  rw [← hback.nil_eq, List.append_nil]

/-! ## Inputs that make a transfer -/

/-- A connection carries `row` up to its first terminal segment. What comes
after that does not matter. -/
structure Carries (maxPayload : Nat) (input : Inlet)
    (row : List Segment) : Prop where
  wf : ∀ s ∈ row, s.WellFormed
  le : ∀ s ∈ row, s.length ≤ maxPayload
  ended : Ended row
  tape : ∃ rest, input.tape = Tape.clean (encodeAll row) ++ rest

/-- The connections carry `rows`, and these make a transfer of
`message`. -/
structure Yields (n maxPayload : Nat) (inputs : Nat → Inlet)
    (rows : Nat → List Segment) (message : Bytes) : Prop where
  carries : ∀ i < n, Carries maxPayload (inputs i) (rows i)
  control : ∀ i < n, ∀ s ∈ rows i, s.isControl = true →
    s.header.byteCount = 0 ∧ s.offset = n
  announced : ∃ i < n, ∃ s ∈ rows i, s.isControl = true
  tiles : Tiles (pieces n rows) message

/-- **The connections make a transfer of `message`**: each of them carries
segments up to a terminal one, the control segments announce the number of
connections and no payload, there is one, and the payloads tile the
message. -/
def Good (n maxPayload : Nat) (inputs : Nat → Inlet) (message : Bytes) :
    Prop :=
  ∃ rows, Yields n maxPayload inputs rows message

/-- What was decoded from the front of a connection is the front of what
it carries. -/
theorem Carries.front {maxPayload : Nat} {input : Inlet}
    {row got : List Segment} (h : Carries maxPayload input row)
    (hwf : ∀ s ∈ got, s.WellFormed) (hgot : Open got ∨ Ended got)
    (htape : Tape.clean (encodeAll got) <+: input.tape) : got <+: row := by
  obtain ⟨rest, hrest⟩ := h.tape
  obtain ⟨more, hmore⟩ := htape
  rcases encodeAll_comparable hwf h.wf (hmore.trans hrest) with hp | hp
  · exact hp
  · exact h.ended.eq_of_front hgot hp ▸ List.prefix_rfl

theorem Carries.unique {maxPayload : Nat} {input : Inlet}
    {row row' : List Segment} (h : Carries maxPayload input row)
    (h' : Carries maxPayload input row') : row = row' := by
  obtain ⟨rest, hrest⟩ := h.tape
  exact h.ended.eq_of_front (.inr h'.ended)
    (h'.front h.wf (.inr h.ended) ⟨rest, hrest.symm⟩)

theorem Carries.later {maxPayload : Nat} {c input : Inlet}
    {row : List Segment} (h : Carries maxPayload c row)
    (hfront : c.tape <+: input.tape) : Carries maxPayload input row := by
  obtain ⟨rest, hrest⟩ := h.tape
  obtain ⟨more, hmore⟩ := hfront
  exact { h with tape := ⟨rest ++ more, by
    rw [← hmore, hrest, List.append_assoc]⟩ }

/-- What arrives later does not matter. -/
theorem Good.later {n maxPayload : Nat} {inputs inputs' : Nat → Inlet}
    {message : Bytes} (h : Good n maxPayload inputs message)
    (hfront : ∀ i < n, (inputs i).tape <+: (inputs' i).tape) :
    Good n maxPayload inputs' message := by
  obtain ⟨rows, hy⟩ := h
  exact ⟨rows, { hy with
    carries := fun i hi => (hy.carries i hi).later (hfront i hi) }⟩

/-- **The connections make a transfer of at most one message.** -/
theorem Good.unique {n maxPayload : Nat} {inputs : Nat → Inlet}
    {message message' : Bytes} (h : Good n maxPayload inputs message)
    (h' : Good n maxPayload inputs message') : message = message' := by
  obtain ⟨rows, hy⟩ := h
  obtain ⟨rows', hy'⟩ := h'
  have heq : pieces n rows = pieces n rows' := pieces_congr fun i hi =>
    (hy.carries i hi).unique (hy'.carries i hi)
  exact (heq ▸ hy.tiles).unique hy'.tiles

end Segment

/-! ## Statistics -/

namespace ConnectionStats

open Segment

/-- A segment has passed. -/
def record (s : Segment) (c : ConnectionStats) : ConnectionStats :=
  let c :=
    if s.isControl then c.recordControl
    else if s.isEmpty then c
    else c.recordSegment s.length
  if s.isTerminal then c.recordTerminal else c

/-- The statistics of a connection that has carried `row`. -/
def tally (id : Nat) (row : List Segment) : ConnectionStats :=
  row.foldl (fun c s => c.record s) (fresh id)

@[simp] theorem tally_nil (id : Nat) : tally id [] = fresh id := rfl

@[simp] theorem tally_append (id : Nat) (row : List Segment)
    (s : Segment) : tally id (row ++ [s]) = (tally id row).record s := by
  simp [tally]

theorem control_record (s : Segment) (c : ConnectionStats) :
    (c.record s).control = c.control + if s.isControl then 1 else 0 := by
  unfold record
  cases s.isControl <;> cases s.isEmpty <;> cases s.isTerminal <;> rfl

theorem terminated_record (s : Segment) (c : ConnectionStats) :
    (c.record s).terminated = (c.terminated || s.isTerminal) := by
  unfold record
  cases s.isControl <;> cases s.isEmpty <;> cases s.isTerminal <;>
    simp [recordControl, recordSegment, recordTerminal]

/-- **The control segments of a connection** are those of its row. -/
theorem control_tally (id : Nat) (row : List Segment) :
    (tally id row).control = row.countP (·.isControl) := by
  suffices hall : ∀ c : ConnectionStats,
      (row.foldl (fun c s => c.record s) c).control =
        c.control + row.countP (·.isControl) from
    (hall (fresh id)).trans (Nat.zero_add _)
  induction row with
  | nil => simp
  | cons s row ih =>
    intro c
    rw [List.foldl_cons, ih, control_record, List.countP_cons]
    omega

/-- **A connection is ended** by a terminal segment of its row. -/
theorem terminated_tally (id : Nat) (row : List Segment) :
    (tally id row).terminated = row.any (·.isTerminal) := by
  suffices hall : ∀ c : ConnectionStats,
      (row.foldl (fun c s => c.record s) c).terminated =
        (c.terminated || row.any (·.isTerminal)) from
    (hall (fresh id)).trans (Bool.false_or _)
  induction row with
  | nil => simp
  | cons s row ih =>
    intro c
    rw [List.foldl_cons, ih, terminated_record, List.any_cons,
      Bool.or_assoc]

end ConnectionStats

namespace Stats

open Segment

/-- A segment has passed on connection `i`. -/
def record (i : Nat) (s : Segment) (t : Stats) : Stats :=
  let t :=
    if s.isControl then t.recordControl i
    else if s.isEmpty then t
    else t.recordSegment i s.length
  if s.isTerminal then t.recordTerminal i else t

/-- The statistics of `n` connections that have carried `rows`. -/
def tally (n : Nat) (rows : Nat → List Segment) : Stats where
  totalBytes := (joined (pieces n rows)).length
  totalSegments := (pieces n rows).length
  connections := (List.range n).map fun i =>
    ConnectionStats.tally i (rows i)

theorem tally_nil (n : Nat) : tally n (fun _ => []) = ofConnections n := by
  have h : pieces n (fun _ => []) = [] := by
    rw [List.eq_nil_iff_forall_not_mem]
    intro s hs
    simpa using (mem_pieces.1 hs).1
  simp [tally, ofConnections, h]

theorem tally_congr {n : Nat} {rows rows' : Nat → List Segment}
    (h : ∀ i < n, rows i = rows' i) : tally n rows = tally n rows' := by
  have hconn : (List.range n).map (fun i => ConnectionStats.tally i (rows i)) =
      (List.range n).map fun i => ConnectionStats.tally i (rows' i) :=
    List.map_congr_left fun i hi => by rw [h i (List.mem_range.1 hi)]
  simp only [tally, pieces_congr h, hconn]

theorem modify_tally {n : Nat} (rows : Nat → List Segment) (i : Nat)
    (s : Segment) :
    ((List.range n).map fun j => ConnectionStats.tally j (rows j)).modify i
        (·.record s) =
      (List.range n).map fun j =>
        ConnectionStats.tally j (addTo i s rows j) := by
  apply List.ext_getElem (by simp)
  intro j hj _
  simp only [List.length_modify, List.length_map, List.length_range] at hj
  simp only [List.getElem_modify, List.getElem_map, List.getElem_range]
  by_cases h : i = j
  · subst h
    simp
  · rw [if_neg h, addTo_of_ne (Ne.symm h)]

theorem connections_record (i : Nat) (s : Segment) (t : Stats) :
    (t.record i s).connections = t.connections.modify i (·.record s) := by
  have hid : t.connections = t.connections.modify i id := by simp
  unfold record ConnectionStats.record
  cases s.isControl <;> cases s.isEmpty <;> cases s.isTerminal <;>
    simp [recordControl, recordSegment, recordTerminal,
      List.modify_modify_eq, Function.comp_def]
  -- a segment without bytes or flags leaves no trace
  exact hid

theorem totals_record (i : Nat) (s : Segment) (t : Stats)
    (hs : s.isControl = true → s.isEmpty = true) :
    (t.record i s).totalBytes =
        t.totalBytes + (joined (dataOf [s])).length ∧
      (t.record i s).totalSegments =
        t.totalSegments + (dataOf [s]).length := by
  rw [dataOf_singleton]
  unfold record
  cases hc : s.isControl <;> cases he : s.isEmpty <;>
    cases s.isTerminal <;>
    simp_all [recordControl, recordSegment, recordTerminal, length]

/-- **The statistics after one more segment.** -/
theorem tally_addTo {n i : Nat} (hi : i < n) {s : Segment}
    (hs : s.isControl = true → s.isEmpty = true)
    (rows : Nat → List Segment) :
    tally n (addTo i s rows) = (tally n rows).record i s := by
  obtain ⟨hbytes, hsegs⟩ := totals_record i s (tally n rows) hs
  have hconn := connections_record i s (tally n rows)
  have hp := pieces_addTo hi s rows
  have hlen := hp.length_eq
  have hjoin := length_joined_perm hp
  rw [List.length_append] at hlen
  rw [joined_append, List.length_append] at hjoin
  generalize (tally n rows).record i s = t at hbytes hsegs hconn
  obtain ⟨bytes, segs, conns⟩ := t
  simp only [tally] at hbytes hsegs hconn ⊢
  rw [hbytes, hsegs, hconn, hlen, hjoin, modify_tally]

theorem control_tally (n : Nat) (rows : Nat → List Segment) :
    (tally n rows).control =
      (gathered n rows).countP (·.isControl) := by
  have hsum (m : Nat) : ((List.range n).map fun i =>
        ConnectionStats.tally i (rows i)).foldr
          (fun c k => c.control + k) m =
      (gathered n rows).countP (·.isControl) + m := by
    induction n generalizing m with
    | zero => simp
    | succ n ih =>
      rw [List.range_succ, List.map_append, List.foldr_append, ih,
        gathered_succ, List.countP_append]
      simp only [List.map_cons, List.map_nil, List.foldr_cons,
        List.foldr_nil, ConnectionStats.control_tally]
      omega
  simpa [control, tally] using hsum 0

/-- All connections are ended if all of their rows are. -/
theorem terminated_tally {n : Nat} {rows : Nat → List Segment}
    (h : ∀ i < n, Ended (rows i)) : (tally n rows).terminated = n := by
  have hall : (tally n rows).connections.countP (·.terminated) =
      (tally n rows).connections.length := by
    rw [List.countP_eq_length]
    intro c hc
    obtain ⟨i, hi, rfl⟩ := List.mem_map.1 hc
    obtain ⟨init, s, hrow, _, hs⟩ := h i (List.mem_range.1 hi)
    rw [ConnectionStats.terminated_tally, hrow, List.any_append]
    simp [hs]
  rw [terminated, hall]
  simp [tally]

end Stats
end Stripe
