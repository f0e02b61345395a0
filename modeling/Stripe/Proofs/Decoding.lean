import Stripe.Proofs.Reading

/-!
# Rows of segments are restored

A row of segments is written by write calls that take some bytes each
(`Written`, `WrittenAll`), and read back in chunks that were cut anywhere.
`stream_restored` says that the same row comes out, header by header and
payload by payload, whatever the flags and the lengths. If the bytes are
cut short, the segments that are whole come out, and the failure that
follows tells how far the next one has come.
-/

namespace Stripe

open Segment

/-! ## Reading a segment -/

section Reading

variable (id : Nat) {maxPayload : Nat} {s : Segment}

/-- How reading fails where only the first `left` bytes of a segment have
come. -/
def Segment.shortfall (s : Segment) (left : Nat) : Error :=
  if left < Header.size then .framing Header.size left
  else .truncatedPayload s.header.byteCount.toNat (left - Header.size)

/-- The beginning of a segment is too short, and tells how much of it has
come. -/
theorem Segment.short_of_cut {part missing : Bytes} (hs : s.WellFormed)
    (hle : s.length ≤ maxPayload) (hpart : s.encode = part ++ missing)
    (hne : missing ≠ []) :
    Short maxPayload part (s.shortfall part.length) := by
  unfold shortfall
  split
  · rename_i hlt
    exact .header hlt
  · rename_i hge
    -- the header has come, and a part of the payload
    rw [encode_eq hs] at hpart
    obtain ⟨got, rfl⟩ : s.header.encode <+: part := by
      refine List.prefix_of_prefix_length_le ⟨_, hpart⟩
        (List.prefix_append part missing) ?_
      rw [Header.length_encode]
      omega
    rw [List.append_assoc] at hpart
    obtain ⟨_, hpayload⟩ := List.append_inj hpart rfl
    have hpos := List.length_pos_iff.2 hne
    have hlen := congrArg List.length hpayload
    rw [List.length_append] at hlen
    have has : s.header.hasPayload = true := by
      by_cases hno : s.header.hasPayload = true
      · exact hno
      · rw [hs, Header.payloadLength, if_neg hno] at hlen
        omega
    have hcount := length_eq_byteCount hs has
    rw [List.length_append, Header.length_encode, Nat.add_sub_cancel_left]
    simp only [length] at hcount hle
    exact .payload has (by omega) (by omega) rfl

/-- A segment that has arrived is read to its end. -/
theorem readSegment_of_front {c : Inlet} {rest : Tape} (hs : s.WellFormed)
    (hle : s.length ≤ maxPayload)
    (front : c.tape = Tape.clean s.encode ++ rest) :
    ∃ c', readSegment id maxPayload c = (some (.ok s), c') ∧
      c'.tape = rest ∧ c'.ended = c.ended := by
  obtain ⟨w, tail, rfl, hstop⟩ := rest.exists_stop
  rw [← List.append_assoc, ← Tape.clean_append] at front
  obtain ⟨hresult, hleft⟩ :=
    (readSegment_spec id maxPayload hstop front).of_decides
      (.whole hs hle rfl)
  exact ⟨_, Prod.ext hresult rfl, hleft, ended_readSegment id maxPayload c⟩

/-- **A segment that was cut short** is not read. -/
theorem readSegment_of_cut {c : Inlet} {part missing : Bytes}
    (hs : s.WellFormed) (hle : s.length ≤ maxPayload)
    (hend : c.ended = true) (hpart : s.encode = part ++ missing)
    (hne : missing ≠ []) (htape : c.tape = Tape.clean part) :
    (readSegment id maxPayload c).1 =
      some (.error (s.shortfall part.length)) := by
  rw [← List.append_nil (Tape.clean part)] at htape
  have hreads := readSegment_spec id maxPayload Tape.stops_nil htape
  rw [hend] at hreads
  exact (hreads.of_short (short_of_cut hs hle hpart hne)).1

end Reading

/-! ## Reading a row -/

/-- The first `cut` bytes of a row of segments hold the segments `got`, and
what is left of them ends a reader with `e`. -/
structure CutAt (segs : List Segment) (cut : Nat) (got : List Segment)
    (e : Error) : Prop where
  front : got <+: segs
  /-- The segments are those that end within the bytes. -/
  whole : ∀ segs' , segs' <+: segs →
    (segs' <+: got ↔ (encodeAll segs').length ≤ cut)
  header : cut - (encodeAll got).length < Header.size →
    e = .framing Header.size (cut - (encodeAll got).length)
  payload : Header.size ≤ cut - (encodeAll got).length →
    ∃ s, segs[got.length]? = some s ∧
      e = .truncatedPayload s.header.byteCount.toNat
        (cut - (encodeAll got).length - Header.size)

theorem CutAt.cons {s : Segment} {segs got : List Segment} {cut : Nat}
    {e : Error} (hle : s.encode.length ≤ cut)
    (h : CutAt segs (cut - s.encode.length) got e) :
    CutAt (s :: segs) cut (s :: got) e := by
  have hleft : cut - (encodeAll (s :: got)).length =
      cut - s.encode.length - (encodeAll got).length := by
    rw [encodeAll_cons, List.length_append]
    omega
  refine ⟨(List.prefix_cons_inj s).2 h.front, ?_, ?_, ?_⟩
  · intro segs' hfront
    cases segs' with
    | nil => simp
    | cons t segs' =>
      obtain ⟨rfl, hrest⟩ := List.cons_prefix_cons.1 hfront
      rw [List.prefix_cons_inj, h.whole segs' hrest, encodeAll_cons,
        List.length_append]
      omega
  · rw [hleft]
    exact h.header
  · rw [hleft]
    exact h.payload

theorem cutAt_nil : CutAt [] 0 [] (.framing Header.size 0) := by
  refine ⟨List.prefix_rfl, ?_, fun _ => rfl, fun h => ?_⟩
  · intro segs' hfront
    simp [List.prefix_nil.1 hfront]
  · simp [Header.size] at h

/-- The bytes end within the first segment. -/
theorem cutAt_short {s : Segment} {segs : List Segment} {cut : Nat}
    (hlt : cut < s.encode.length) :
    CutAt (s :: segs) cut [] (s.shortfall cut) := by
  refine ⟨List.nil_prefix, ?_, ?_, ?_⟩
  · intro segs' hfront
    cases segs' with
    | nil => simp
    | cons t segs' =>
      obtain ⟨rfl, _⟩ := List.cons_prefix_cons.1 hfront
      simp only [List.prefix_nil, reduceCtorEq, encodeAll_cons,
        List.length_append, false_iff]
      omega
  · intro hheader
    exact if_pos hheader
  · intro hpayload
    exact ⟨s, rfl, if_neg (Nat.not_lt.2 hpayload)⟩

/-- **A row that was cut anywhere**: the segments that are whole are read,
and then there is a failure. -/
theorem readMany_of_cut (id : Nat) {maxPayload count cut : Nat}
    {segs : List Segment} {c : Inlet}
    (hsegs : ∀ s ∈ segs, s.WellFormed ∧ s.length ≤ maxPayload)
    (hcount : segs.length < count) (hcut : cut ≤ (encodeAll segs).length)
    (hend : c.ended = true)
    (htape : c.tape = Tape.clean ((encodeAll segs).take cut)) :
    ∃ got e, (readMany (readSegment id maxPayload) count c).1 =
      got.map .ok ++ [.error e] ∧ CutAt segs cut got e := by
  induction segs generalizing count cut c with
  | nil =>
    obtain ⟨count, rfl⟩ := Nat.exists_eq_add_of_lt hcount
    obtain rfl : cut = 0 := by simpa using hcut
    -- nothing has come, so the failure is that of any segment
    have hpart : (terminal 0).encode = [] ++ (terminal 0).encode := rfl
    have hread := readSegment_of_cut id (s := terminal 0) rfl
      (Nat.zero_le maxPayload) hend hpart
      (Outgoing.bytes_ofSegment_ne_nil _) (by simpa using htape)
    refine ⟨[], _, ?_, cutAt_nil⟩
    simp only [readMany]
    generalize readSegment id maxPayload c = r at hread
    obtain ⟨result, c'⟩ := r
    cases hread
    rfl
  | cons s segs ih =>
    obtain ⟨hwf, hle⟩ := hsegs s (by simp)
    cases count with
    | zero => omega
    | succ count =>
      rcases Nat.lt_or_ge cut s.encode.length with hlt | hge
      · have hpart : (encodeAll (s :: segs)).take cut =
            s.encode.take cut := by
          rw [encodeAll_cons, List.take_append_of_le_length (by omega)]
        have hread := readSegment_of_cut id hwf hle hend
          (List.take_append_drop cut s.encode).symm
          (by simpa using hlt) (hpart ▸ htape)
        rw [List.length_take, Nat.min_eq_left (Nat.le_of_lt hlt)] at hread
        refine ⟨[], _, ?_, cutAt_short hlt⟩
        simp only [readMany]
        generalize readSegment id maxPayload c = r at hread
        obtain ⟨result, c'⟩ := r
        cases hread
        rfl
      · have hwhole : (encodeAll (s :: segs)).take cut =
            s.encode ++ (encodeAll segs).take (cut - s.encode.length) := by
          rw [encodeAll_cons, List.take_append,
            List.take_of_length_le hge]
        rw [hwhole, Tape.clean_append] at htape
        obtain ⟨c', hread, hrest, hended⟩ :=
          readSegment_of_front id hwf hle htape
        rw [encodeAll_cons, List.length_append] at hcut
        obtain ⟨got, e, hmany, hat⟩ := ih
          (fun t ht => hsegs t (List.mem_cons_of_mem _ ht))
          (Nat.lt_of_succ_lt_succ hcount) (by omega) (hended.trans hend)
          hrest
        refine ⟨s :: got, e, ?_, hat.cons hge⟩
        simp only [readMany, hread, hmany, List.map_cons, List.cons_append]

/-- Nothing but a whole row is cut at its end. -/
theorem CutAt.all {segs got : List Segment} {e : Error}
    (h : CutAt segs (encodeAll segs).length got e) :
    got = segs ∧ e = .framing Header.size 0 := by
  have hall : segs <+: got :=
    (h.whole segs List.prefix_rfl).2 (Nat.le_refl _)
  obtain rfl : got = segs := h.front.eq_of_length_le hall.length_le
  have hnone : (encodeAll got).length - (encodeAll got).length = 0 :=
    Nat.sub_self _
  have he := h.header (by rw [hnone]; decide)
  rw [hnone] at he
  exact ⟨rfl, he⟩

/-- **Segments are restored from a connection.** A row of segments, whose
length fields tell the lengths of their payloads, was written to a
connection by write calls that took any number of bytes each. Whoever
reads the bytes, cut into any chunks, reads exactly that row, and then
finds that the connection has ended before a header. If the bytes were
cut short anywhere, exactly the segments that end before the cut are read,
and the failure that follows tells how many bytes of a header were left,
or the announced length of a payload and how many bytes of it were left.
An outlet on which nothing fails or blocks takes all bytes, whatever the
most bytes are that one call takes. -/
theorem stream_restored {maxPayload : Nat} {segs : List Segment}
    (hsegs : ∀ s ∈ segs, s.WellFormed ∧ s.length ≤ maxPayload) :
    (∀ c c', WrittenAll segs c c' → ∃ bytes, c'.wire = c.wire ++ bytes ∧
      ∀ (id count : Nat) (chunks : List Bytes), segs.length < count →
        (chunks.flatten = bytes →
          (readMany (readSegment id maxPayload) count
            (.script (chunks.map .chunk))).1 =
              segs.map .ok ++ [.error (.framing Header.size 0)]) ∧
        ∀ cut, cut ≤ bytes.length → chunks.flatten = bytes.take cut →
          ∃ got e, (readMany (readSegment id maxPayload) count
            (.script (chunks.map .chunk))).1 =
              got.map .ok ++ [.error e] ∧ CutAt segs cut got e) ∧
    (∀ c : Outlet, c.Ready →
      (writeSegments segs c).1 = segs.map (fun _ => .done) ∧
        WrittenAll segs c (writeSegments segs c).2) := by
  refine ⟨?_, fun c hc => writeSegments_of_ready hc segs⟩
  intro c c' hw
  refine ⟨encodeAll segs, hw.wire, ?_⟩
  intro id count chunks hcount
  have hcut (cut : Nat) (hle : cut ≤ (encodeAll segs).length)
      (hchunks : chunks.flatten = (encodeAll segs).take cut) :=
    readMany_of_cut id (c := .script (chunks.map .chunk)) hsegs
      hcount hle rfl (by rw [Inlet.tape_chunks, hchunks])
  refine ⟨fun hchunks => ?_, hcut⟩
  obtain ⟨got, e, hmany, hat⟩ := hcut _ (Nat.le_refl _)
    (by rw [hchunks, List.take_length])
  obtain ⟨rfl, rfl⟩ := hat.all
  exact hmany

/-- A control segment, a payload at the last offset there is, and a
terminal segment that brings a byte. -/
def threeSegments : List Segment :=
  [.control 2, .data [1, 2, 3, 4] (.ofNat maxCount) .none,
    .data [5] 4 .endOfData]

/-- The segments are written five bytes at a time, and restored; of their
first 36 bytes, only the first segment is. -/
theorem stream_restored_three : ∃ c' bytes : _,
    WrittenAll threeSegments { Outlet.unlimited with maxWrite := some 5 } c' ∧
    c'.wire = bytes ∧
    (readMany (readSegment 0 4) 9
      (.script [.chunk (bytes.take 20), .chunk (bytes.drop 20)])).1 =
        threeSegments.map .ok ++ [.error (.framing 17 0)] ∧
    (readMany (readSegment 0 4) 9 (.script [.chunk (bytes.take 36)])).1 =
      [.ok (.control 2), .error (.truncatedPayload 4 2)] ∧
    CutAt threeSegments 36 [.control 2] (.truncatedPayload 4 2) := by
  have hready : Outlet.Ready { Outlet.unlimited with maxWrite := some 5 } :=
    ⟨⟨rfl, rfl, rfl, by decide⟩, rfl⟩
  have hsegs : ∀ s ∈ threeSegments, s.WellFormed ∧ s.length ≤ 4 := by
    decide
  obtain ⟨hread, hwrite⟩ := stream_restored hsegs
  obtain ⟨_, hw⟩ := hwrite _ hready
  obtain ⟨bytes, hwire, hchunks⟩ := hread _ _ hw
  obtain rfl : encodeAll threeSegments = bytes := by
    rw [hw.wire] at hwire
    exact List.append_cancel_left hwire
  obtain ⟨got, e, hgot, hat⟩ :=
    (hchunks 0 9 [(encodeAll threeSegments).take 36] (by decide)).2 36
      (by decide) (by simp)
  have hcomputed : (readMany (readSegment 0 4) 9
      (.script [.chunk ((encodeAll threeSegments).take 36)])).1 =
        [.ok (.control 2), .error (.truncatedPayload 4 2)] := rfl
  refine ⟨_, _, hw, hwire, ?_, hcomputed, ?_⟩
  · exact (hchunks 0 9 [(encodeAll threeSegments).take 20,
      (encodeAll threeSegments).drop 20] (by decide)).1
        (by simp [List.take_append_drop])
  · -- what the theorem tells of the cut is what was computed
    have hlist : got.map Except.ok ++ [.error e] =
        [Segment.control 2].map .ok ++ [.error (.truncatedPayload 4 2)] :=
      hgot.symm.trans hcomputed
    obtain ⟨hsame, hfails⟩ := List.append_inj' hlist rfl
    obtain rfl : got = [.control 2] :=
      (List.map_inj_right fun _ _ => Except.ok.inj).1 hsame
    cases hfails
    exact hat

end Stripe
