import Stripe.Proofs.Sending

/-!
# What one read accepts

A row of bytes may open with a whole segment, or with the header of a
payload that is too long. Both are told by these bytes alone, whatever
follows them (`Decides`). Otherwise the row is too short, and how reading
fails depends on how the row ends (`Short`).

`readSegment_spec` says that one read finds out just this, and takes no
byte that it does not need. It speaks of the tape, so the way in which the
bytes were cut into chunks does not matter. `accepts_grammar` is the same
for a connection that carries a given row of bytes: what is accepted are
the written forms of segments.
-/

namespace Stripe

open Segment

/-! ## Tapes that go on without a byte -/

namespace Tape

/-- The tape does not go on with a byte: it ends, or there is a failure. -/
def Stops (tail : Tape) : Prop := ∀ b rest, tail ≠ .ok b :: rest

theorem stops_nil : Stops [] := by
  intro b rest h
  cases h

theorem stops_error (cause : IoError) (later : Tape) :
    Stops (.error cause :: later) := by
  intro b rest h
  cases h

/-- Every tape is a row of bytes, and then stops. -/
theorem exists_stop (t : Tape) : ∃ w tail, t = clean w ++ tail ∧
    tail.Stops := by
  induction t with
  | nil => exact ⟨[], [], rfl, stops_nil⟩
  | cons x t ih =>
    cases x with
    | error cause => exact ⟨[], _, rfl, stops_error cause t⟩
    | ok b =>
      obtain ⟨w, tail, rfl, hstop⟩ := ih
      exact ⟨b :: w, tail, rfl, hstop⟩

/-- Bytes at the front of a tape are the first ones of the row with which
it begins. -/
theorem Stops.front {tail x : Tape} (hs : tail.Stops) {v bs : Bytes}
    (e : clean v ++ tail = clean bs ++ x) :
    ∃ v', v = bs ++ v' ∧ x = clean v' ++ tail := by
  induction bs generalizing v with
  | nil => exact ⟨v, rfl, e.symm⟩
  | cons b bs ih =>
    cases v with
    | nil => exact absurd e (hs b _)
    | cons a v =>
      obtain ⟨hab, hrest⟩ := List.cons.inj e
      obtain ⟨v', rfl, hx⟩ := ih hrest
      cases hab
      exact ⟨v', rfl, hx⟩

/-- A row that is followed by nothing is empty where the tape stops. -/
theorem Stops.nil_front {tail x : Tape} (hx : x.Stops) {v : Bytes}
    (e : clean v ++ tail = x) : v = [] ∧ tail = x := by
  cases v with
  | nil => exact ⟨rfl, e⟩
  | cons a v => exact absurd e.symm (hx a _)

end Tape

/-! ## What the bytes tell -/

namespace Segment

/-- The bytes `w` tell what a reader returns, whatever follows them, and
`rest` of them is left. -/
inductive Decides (maxPayload : Nat) (w : Bytes) :
    Except Error Segment → (rest : Bytes) → Prop where
  | whole {s : Segment} {rest : Bytes} (wf : s.WellFormed)
      (le : s.length ≤ maxPayload) (bytes : w = s.encode ++ rest) :
      Decides maxPayload w (.ok s) rest
  | oversized {h : Header} {rest : Bytes} (has : h.hasPayload = true)
      (lt : maxPayload < h.byteCount.toNat)
      (bytes : w = h.encode ++ rest) :
      Decides maxPayload w
        (.error (.oversizedPayload h.byteCount.toNat maxPayload)) rest

/-- The bytes `w` are the beginning of a segment that is not whole. A
reader that finds the end of its connection behind them fails so. -/
inductive Short (maxPayload : Nat) (w : Bytes) : Error → Prop where
  | header (lt : w.length < Header.size) :
      Short maxPayload w (.framing Header.size w.length)
  | payload {h : Header} {got : Bytes} (has : h.hasPayload = true)
      (le : h.byteCount.toNat ≤ maxPayload)
      (lt : got.length < h.byteCount.toNat)
      (bytes : w = h.encode ++ got) :
      Short maxPayload w (.truncatedPayload h.byteCount.toNat got.length)

variable {maxPayload : Nat} {w rest rest' : Bytes} {e e' : Error}
  {result result' : Except Error Segment}

theorem header_bytes_inj {h k : Header} {x y : Bytes}
    (e : h.encode ++ x = k.encode ++ y) : h = k ∧ x = y := by
  obtain ⟨he, hxy⟩ := List.append_inj e (by simp)
  exact ⟨header_encode_inj he, hxy⟩

theorem length_eq_byteCount {s : Segment} (hs : s.WellFormed)
    (has : s.header.hasPayload = true) :
    s.length = s.header.byteCount.toNat := by
  rw [length, hs, Header.payloadLength, if_pos has]

theorem Decides.size_le (h : Decides maxPayload w result rest) :
    Header.size ≤ w.length := by
  cases h with
  | @whole s rest wf le bytes =>
    have := s.size_le_length_encode
    rw [bytes, List.length_append]
    omega
  | oversized has lt bytes =>
    rw [bytes, List.length_append, Header.length_encode]
    omega

/-- The header of a segment whose length field is `n` is not that of a
whole segment with a payload of another length. -/
theorem Decides.eq_of_header (h : Decides maxPayload w result rest)
    {k : Header} {x : Bytes} (has : k.hasPayload = true)
    (bytes : w = k.encode ++ x) :
    (k.byteCount.toNat ≤ maxPayload ∧ k.byteCount.toNat ≤ x.length) ∨
      maxPayload < k.byteCount.toNat ∧ rest = x ∧
        result = .error (.oversizedPayload k.byteCount.toNat maxPayload) := by
  cases h with
  | @whole s rest wf le hw =>
    rw [bytes, encode_eq wf, List.append_assoc] at hw
    obtain ⟨rfl, rfl⟩ := header_bytes_inj hw
    have hlen := length_eq_byteCount wf has
    simp only [List.length_append]
    simp only [length] at hlen le
    omega
  | oversized has' lt hw =>
    rw [bytes] at hw
    obtain ⟨rfl, rfl⟩ := header_bytes_inj hw
    exact .inr ⟨lt, rfl, rfl⟩

/-- Bytes that are too short tell nothing. -/
theorem Decides.not_short (h : Decides maxPayload w result rest) :
    ¬ Short maxPayload w e := by
  intro hs
  cases hs with
  | header lt =>
    have := h.size_le
    omega
  | payload has le lt bytes =>
    rcases h.eq_of_header has bytes with ⟨_, hle⟩ | ⟨hlt, _⟩
    · omega
    · omega

/-- Bytes tell one thing only. -/
theorem Decides.unique (h : Decides maxPayload w result rest)
    (h' : Decides maxPayload w result' rest') :
    result = result' ∧ rest = rest' := by
  cases h with
  | @whole s rest wf le bytes =>
    cases h' with
    | @whole s' rest' wf' le' bytes' =>
      have e : Tape.clean s.encode ++ Tape.clean rest =
          Tape.clean s'.encode ++ Tape.clean rest' := by
        rw [← Tape.clean_append, ← Tape.clean_append, ← bytes, bytes']
      obtain ⟨rfl, hrest⟩ := encode_append_inj wf wf' e
      exact ⟨rfl, Tape.clean_inj hrest⟩
    | oversized has lt bytes' =>
      rw [encode_eq wf, List.append_assoc] at bytes
      obtain ⟨rfl, _⟩ := header_bytes_inj (bytes.symm.trans bytes')
      have := length_eq_byteCount wf has
      omega
  | oversized has lt bytes =>
    rcases h'.eq_of_header has bytes with ⟨hle, _⟩ | ⟨_, rfl, rfl⟩
    · omega
    · exact ⟨rfl, rfl⟩

theorem Short.unique (h : Short maxPayload w e)
    (h' : Short maxPayload w e') : e = e' := by
  cases h with
  | header lt =>
    cases h' with
    | header lt' => rfl
    | payload has le lt' bytes =>
      rw [bytes, List.length_append, Header.length_encode] at lt
      omega
  | payload has le lt bytes =>
    cases h' with
    | header lt' =>
      rw [bytes, List.length_append, Header.length_encode] at lt'
      omega
    | payload has' le' lt' bytes' =>
      obtain ⟨rfl, rfl⟩ := header_bytes_inj (bytes.symm.trans bytes')
      rfl

end Segment

/-! ## One read -/

/-- What reading has returned where decoding stands. -/
def Decoder.Progress.result? : Progress → Option (Except Error Segment)
  | .more _ => none
  | .done s => some (.ok s)
  | .failed e => some (.error e)

theorem readSegment_eq (id maxPayload : Nat) (c : Inlet) :
    readSegment id maxPayload c =
      ((Decoder.run id maxPayload (c.weight + 1) .start c).1.result?,
        (Decoder.run id maxPayload (c.weight + 1) .start c).2) := by
  unfold readSegment
  generalize Decoder.run id maxPayload (c.weight + 1) .start c = r
  obtain ⟨p, c'⟩ := r
  cases p <;> rfl

/-- What a read comes to on connection `id`, which delivers the bytes `w`
and then goes on as `tail` does, or ends. The tape in the last place is
what it leaves. -/
inductive Reads (id maxPayload : Nat) (w : Bytes) :
    (tail : Tape) → (ended : Bool) → Option (Except Error Segment) →
      Tape → Prop where
  | decided {tail : Tape} {ended : Bool} {result : Except Error Segment}
      {rest : Bytes} (decides : Decides maxPayload w result rest) :
      Reads id maxPayload w tail ended (some result)
        (Tape.clean rest ++ tail)
  | fault {cause : IoError} {later : Tape} {ended : Bool} {e : Error}
      (short : Short maxPayload w e) :
      Reads id maxPayload w (.error cause :: later) ended
        (some (.error (.transport id cause))) later
  | ended {e : Error} (short : Short maxPayload w e) :
      Reads id maxPayload w [] true (some (.error e)) []
  | waits {e : Error} (short : Short maxPayload w e) :
      Reads id maxPayload w [] false none []

namespace Decoder

variable {id maxPayload : Nat}

/-- A decoder that asks for more holds the beginning of a segment. -/
theorem Valid.short {d : Decoder} (h : d.Valid maxPayload) :
    Short maxPayload d.held d.cutShort := by
  cases d with
  | header got => exact .header h
  | payload k got =>
    obtain ⟨has, le, lt⟩ := h
    exact .payload has le (by simpa using lt) rfl

theorem Makes.decides {bs v : Bytes} {p : Progress}
    (h : Makes maxPayload bs p) :
    (∃ d, p = .more d ∧ d.Valid maxPayload ∧ d.held = bs) ∨
      ∃ result, p.result? = some result ∧
        Decides maxPayload (bs ++ v) result v := by
  cases h with
  | more valid held => exact .inl ⟨_, rfl, valid, held⟩
  | done wf le held =>
    exact .inr ⟨_, rfl, .whole wf le (by rw [held])⟩
  | oversized has lt held =>
    exact .inr ⟨_, rfl, .oversized has lt (by rw [held])⟩

/-- **A decoder reads on** until what it holds decides, or the tape
stops. The bytes `v` are still to come before that. -/
theorem run_reads {fuel : Nat} {d : Decoder} {c : Inlet} {v : Bytes}
    {tail : Tape} (hfuel : c.weight < fuel) (hv : d.Valid maxPayload)
    (hstop : tail.Stops) (htape : c.tape = Tape.clean v ++ tail) :
    Reads id maxPayload (d.held ++ v) tail c.ended
      (run id maxPayload fuel d c).1.result?
      (run id maxPayload fuel d c).2.tape := by
  induction fuel generalizing d c v with
  | zero => omega
  | succ fuel ih =>
    unfold run
    cases hadv : d.advance id maxPayload c with
    | none =>
      obtain ⟨hnil, hopen⟩ := (advance_eq_none_iff hv).1 hadv
      obtain ⟨rfl, rfl⟩ :=
        Tape.stops_nil.nil_front (htape.symm.trans hnil)
      show Reads id maxPayload (d.held ++ []) [] c.ended none c.tape
      rw [List.append_nil, hopen, hnil]
      exact .waits hv.short
    | some r =>
      obtain ⟨p, c₁⟩ := r
      cases advance_spec hv hadv with
      | took pos makes tape ended weight =>
        obtain ⟨v', rfl, hleft⟩ := hstop.front (htape.symm.trans tape)
        have hpos := List.length_pos_iff.2 pos
        rw [← List.append_assoc]
        rcases makes.decides (v := v') with
          ⟨d', rfl, valid, held⟩ | ⟨result, hresult, decides⟩
        · have hrest := ih (by omega) valid hleft
          rw [held, ended] at hrest
          exact hrest
        · cases p with
          | more d' => cases hresult
          | done s =>
            cases hresult
            show Reads _ _ _ _ _ _ c₁.tape
            rw [hleft]
            exact .decided decides
          | failed e =>
            cases hresult
            show Reads _ _ _ _ _ _ c₁.tape
            rw [hleft]
            exact .decided decides
      | fault tape ended weight =>
        obtain ⟨rfl, rfl⟩ := (Tape.stops_error _ _).nil_front
          (htape.symm.trans tape)
        rw [List.append_nil]
        exact .fault hv.short
      | cut tape ended tape' ended' weight =>
        obtain ⟨rfl, rfl⟩ :=
          Tape.stops_nil.nil_front (htape.symm.trans tape)
        show Reads _ _ _ _ _ _ c₁.tape
        rw [List.append_nil, ended, tape']
        exact .ended hv.short

end Decoder

/-- **One read** of a connection that delivers the bytes `w` first. -/
theorem readSegment_spec (id maxPayload : Nat) {c : Inlet} {w : Bytes}
    {tail : Tape} (hstop : tail.Stops)
    (htape : c.tape = Tape.clean w ++ tail) :
    Reads id maxPayload w tail c.ended (readSegment id maxPayload c).1
      (readSegment id maxPayload c).2.tape := by
  rw [readSegment_eq]
  exact Decoder.run_reads (Nat.lt_succ_self _)
    (Decoder.valid_start maxPayload) hstop htape

/-- Bytes that decide are read alike, whatever follows them. -/
theorem Reads.of_decides {id maxPayload : Nat} {w rest : Bytes}
    {tail left : Tape} {ended : Bool} {result : Except Error Segment}
    {r : Option (Except Error Segment)}
    (h : Reads id maxPayload w tail ended r left)
    (hd : Decides maxPayload w result rest) :
    r = some result ∧ left = Tape.clean rest ++ tail := by
  cases h with
  | decided decides =>
    obtain ⟨rfl, rfl⟩ := decides.unique hd
    exact ⟨rfl, rfl⟩
  | fault short => exact absurd short hd.not_short
  | ended short => exact absurd short hd.not_short
  | waits short => exact absurd short hd.not_short

/-- Bytes that are too short, and end. -/
theorem Reads.of_short {id maxPayload : Nat} {w : Bytes} {left : Tape}
    {e : Error} {r : Option (Except Error Segment)}
    (h : Reads id maxPayload w [] true r left)
    (hs : Short maxPayload w e) : r = some (.error e) ∧ left = [] := by
  cases h with
  | decided decides => exact absurd hs decides.not_short
  | ended short =>
    obtain rfl := short.unique hs
    exact ⟨rfl, rfl⟩

/-- Bytes that are too short, where the connection fails behind them. -/
theorem Reads.of_fault {id maxPayload : Nat} {w : Bytes}
    {later left : Tape} {cause : IoError} {ended : Bool} {e : Error}
    {r : Option (Except Error Segment)}
    (h : Reads id maxPayload w (.error cause :: later) ended r left)
    (hs : Short maxPayload w e) :
    r = some (.error (.transport id cause)) ∧ left = later := by
  cases h with
  | decided decides => exact absurd hs decides.not_short
  | fault short => exact ⟨rfl, rfl⟩

/-! ## Connections that carry bytes -/

namespace Inlet

theorem ended_read (max : Nat) (c : Inlet) :
    (c.read max).2.ended = c.ended := by
  obtain ⟨items, ended⟩ := c
  simp only [read]
  induction items with
  | nil => rfl
  | cons item items ih =>
    cases item with
    | fault cause => rfl
    | chunk bs =>
      cases bs with
      | nil => exact ih
      | cons b bs => rfl

/-- The tape of chunks does not tell where they were cut. -/
theorem tape_chunks (chunks : List Bytes) :
    (script (chunks.map .chunk)).tape = Tape.clean chunks.flatten := by
  induction chunks with
  | nil => rfl
  | cons chunk chunks ih =>
    show Tape.clean chunk ++ tape (.script (chunks.map .chunk)) = _
    rw [ih, ← Tape.clean_append, List.flatten_cons]

/-- A tape without a failure is what was not read yet. -/
theorem content_of_tape {c : Inlet} {w : Bytes}
    (h : c.tape = Tape.clean w) : c.content = w := by
  rw [content_eq, h, Tape.bytes_clean]

end Inlet

theorem Decoder.ended_advance {id maxPayload : Nat} {d : Decoder}
    {c c' : Inlet} {p : Progress}
    (h : d.advance id maxPayload c = some (p, c')) : c'.ended = c.ended := by
  have hread := c.ended_read d.wants
  unfold advance at h
  generalize c.read d.wants = r at h hread
  obtain ⟨outcome, left⟩ := r
  cases outcome <;> cases h <;> exact hread

theorem Decoder.ended_run {id maxPayload fuel : Nat} {d : Decoder}
    {c : Inlet} : (run id maxPayload fuel d c).2.ended = c.ended := by
  induction fuel generalizing d c with
  | zero => rfl
  | succ fuel ih =>
    unfold run
    cases hadv : d.advance id maxPayload c with
    | none => rfl
    | some r =>
      obtain ⟨p, c₁⟩ := r
      have hended := ended_advance hadv
      cases p with
      | more d' => exact ih.trans hended
      | done s => exact hended
      | failed e => exact hended

theorem ended_readSegment (id maxPayload : Nat) (c : Inlet) :
    (readSegment id maxPayload c).2.ended = c.ended := by
  rw [readSegment_eq]
  exact Decoder.ended_run

/-! ## The grammar of a wire -/

/-- A header at the front of the bytes `w` announces a payload of `count`
bytes. -/
def Header.Leads (w : Bytes) (count : Nat) : Prop :=
  ∃ h : Header, h.hasPayload = true ∧ h.byteCount.toNat = count ∧
    h.encode <+: w

namespace Segment

/-- What a reader makes of a connection that carries the bytes `w` and
then ends, and what it leaves of them. -/
inductive Parses (maxPayload : Nat) (w : Bytes) :
    Except Error Segment → (rest : Bytes) → Prop where
  | decided {result : Except Error Segment} {rest : Bytes}
      (decides : Decides maxPayload w result rest) :
      Parses maxPayload w result rest
  | short {e : Error} (short : Short maxPayload w e) :
      Parses maxPayload w (.error e) []

variable {maxPayload : Nat} {w rest rest' : Bytes}
  {result result' : Except Error Segment}

theorem Parses.unique (h : Parses maxPayload w result rest)
    (h' : Parses maxPayload w result' rest') :
    result = result' ∧ rest = rest' := by
  cases h with
  | decided decides =>
    cases h' with
    | decided decides' => exact decides.unique decides'
    | short short' => exact absurd short' decides.not_short
  | short short =>
    cases h' with
    | decided decides' => exact absurd short decides'.not_short
    | short short' =>
      obtain rfl := short.unique short'
      exact ⟨rfl, rfl⟩

/-- However the bytes of a connection were cut into chunks, the first read
makes the same of them. -/
theorem exists_parses (maxPayload : Nat) (w : Bytes) :
    ∃ result rest, Parses maxPayload w result rest ∧
      ∀ (id : Nat) (chunks : List Bytes), chunks.flatten = w →
        ∃ c, readSegment id maxPayload (.script (chunks.map .chunk)) =
          (some result, c) ∧ c.content = rest := by
  have hreads (id : Nat) (chunks : List Bytes) (hw : chunks.flatten = w) :=
    readSegment_spec id maxPayload (c := .script (chunks.map .chunk))
      Tape.stops_nil (by rw [Inlet.tape_chunks, hw, List.append_nil])
  have hfirst := hreads 0 [w] (by simp)
  generalize (readSegment 0 maxPayload _).1 = r,
    (readSegment 0 maxPayload _).2.tape = left at hfirst
  cases hfirst with
  | @decided _ _ result rest decides =>
    refine ⟨result, rest, .decided decides, ?_⟩
    intro id chunks hw
    obtain ⟨hr, hleft⟩ := (hreads id chunks hw).of_decides decides
    rw [List.append_nil] at hleft
    exact ⟨_, Prod.ext hr rfl, Inlet.content_of_tape hleft⟩
  | @ended e short =>
    refine ⟨.error e, [], .short short, ?_⟩
    intro id chunks hw
    obtain ⟨hr, hleft⟩ := (hreads id chunks hw).of_short short
    exact ⟨_, Prod.ext hr rfl, Inlet.content_of_tape hleft⟩

theorem Parses.ok_iff (h : Parses maxPayload w result rest)
    (s : Segment) (rest' : Bytes) :
    result = .ok s ∧ rest = rest' ↔
      s.WellFormed ∧ s.length ≤ maxPayload ∧ w = s.encode ++ rest' := by
  constructor
  · rintro ⟨rfl, rfl⟩
    cases h with
    | decided decides =>
      cases decides with
      | whole wf le bytes => exact ⟨wf, le, bytes⟩
  · rintro ⟨wf, le, bytes⟩
    exact h.unique (.decided (.whole wf le bytes))

theorem Parses.framing_iff (h : Parses maxPayload w result rest)
    (expected got : Nat) :
    result = .error (.framing expected got) ↔
      expected = Header.size ∧ got = w.length ∧ got < Header.size := by
  constructor
  · rintro rfl
    cases h with
    | decided decides => cases decides
    | short short =>
      cases short with
      | header lt => exact ⟨rfl, rfl, lt⟩
  · rintro ⟨rfl, rfl, lt⟩
    exact (h.unique (.short (.header lt))).1

theorem Parses.oversized_iff (h : Parses maxPayload w result rest)
    (count max : Nat) :
    result = .error (.oversizedPayload count max) ↔
      max = maxPayload ∧ maxPayload < count ∧ Header.Leads w count := by
  constructor
  · rintro rfl
    cases h with
    | decided decides =>
      cases decides with
      | oversized has lt bytes =>
        exact ⟨rfl, lt, _, has, rfl, _, bytes.symm⟩
    | short short => cases short
  · rintro ⟨rfl, lt, k, has, rfl, more, bytes⟩
    exact (h.unique (.decided (.oversized has lt bytes.symm))).1

/-- A payload that is too long is not touched. -/
theorem Parses.oversized_rest (h : Parses maxPayload w result rest)
    {count max : Nat} (he : result = .error (.oversizedPayload count max)) :
    Header.size ≤ w.length ∧ rest = w.drop Header.size := by
  subst he
  cases h with
  | decided decides =>
    have hsize := decides.size_le
    cases decides with
    | @oversized k _ has lt bytes =>
      rw [bytes, List.drop_left' k.length_encode]
      exact ⟨bytes ▸ hsize, rfl⟩
  | short short => cases short

theorem Parses.truncated_iff (h : Parses maxPayload w result rest)
    (expected got : Nat) :
    result = .error (.truncatedPayload expected got) ↔
      expected ≤ maxPayload ∧ got < expected ∧
        w.length = Header.size + got ∧ Header.Leads w expected := by
  constructor
  · rintro rfl
    cases h with
    | decided decides => cases decides
    | short short =>
      cases short with
      | payload has le lt bytes =>
        refine ⟨le, lt, ?_, _, has, rfl, _, bytes.symm⟩
        rw [bytes, List.length_append, Header.length_encode]
  · rintro ⟨le, lt, hlen, k, has, rfl, more, bytes⟩
    obtain rfl : more.length = got := by
      rw [← bytes, List.length_append, Header.length_encode] at hlen
      omega
    exact (h.unique (.short (.payload has le lt bytes.symm))).1

/-- A segment that may be on a wire carries as many bytes as its header
says, or is one that carries none. -/
theorem admitted_iff (maxPayload : Nat) (s : Segment) :
    s.WellFormed ∧ s.length ≤ maxPayload ↔
      s.isControl = false ∧ s.length = s.header.byteCount.toNat ∧
          s.header.byteCount.toNat ≤ maxPayload ∨
        (s.isControl = true ∨ s.header.byteCount = 0) ∧
          s.payload = [] := by
  have hzero : s.header.byteCount = 0 ↔ s.header.byteCount.toNat = 0 := by
    rw [← UInt64.toNat_inj]
    rfl
  have hhas : s.header.hasPayload = true ↔
      s.isControl = false ∧ 0 < s.header.byteCount.toNat := by
    simp [Header.hasPayload, isControl, UInt64.lt_iff_toNat_lt]
  rw [hzero, ← List.length_eq_zero_iff, WellFormed, Header.payloadLength]
  simp only [hhas, length]
  cases s.isControl with
  | true =>
    simp only [Bool.true_eq_false, false_and, if_false, true_or, true_and,
      false_or]
    omega
  | false =>
    simp only [true_and, Bool.false_eq_true, false_or]
    split <;> omega

end Segment

/-- **What is accepted from a connection that carries the bytes `w`.** The
answer, and what is left of the bytes, do not depend on how these were cut
into chunks. A segment is the answer exactly if the bytes begin with its
written form and its header admits its payload. Otherwise there are fewer
bytes than a header has, or a header announces a payload that is too long,
of which nothing is read, or one of which some bytes are missing.

A connection that fails behind these bytes gives the same answer if they
hold a whole segment or a header that is refused, and otherwise that
failure. -/
theorem accepts_grammar (id maxPayload : Nat) (w : Bytes) :
    ∃ (result : Except Error Segment) (rest : Bytes),
      (∀ (id : Nat) (chunks : List Bytes), chunks.flatten = w →
        ∃ c, readSegment id maxPayload (.script (chunks.map .chunk)) =
          (some result, c) ∧ c.content = rest) ∧
      (∀ s rest', result = .ok s ∧ rest = rest' ↔
        (s.isControl = false ∧ s.length = s.header.byteCount.toNat ∧
            s.header.byteCount.toNat ≤ maxPayload ∨
          (s.isControl = true ∨ s.header.byteCount = 0) ∧
            s.payload = []) ∧
        w = s.encode ++ rest') ∧
      (∀ s, result = .ok s → ∃ c,
        writeSegment s .unlimited = (.done, c) ∧ w = c.wire ++ rest) ∧
      (∀ expected got, result = .error (.framing expected got) ↔
        expected = Header.size ∧ got = w.length ∧ got < Header.size) ∧
      (∀ count max, result = .error (.oversizedPayload count max) ↔
        max = maxPayload ∧ maxPayload < count ∧ Header.Leads w count) ∧
      (∀ count max, result = .error (.oversizedPayload count max) →
        Header.size ≤ w.length ∧ rest = w.drop Header.size) ∧
      (∀ expected got,
        result = .error (.truncatedPayload expected got) ↔
          expected ≤ maxPayload ∧ got < expected ∧
            w.length = Header.size + got ∧ Header.Leads w expected) ∧
      (∀ (c : Inlet) (cause : IoError) (later : Tape),
        c.tape = Tape.clean w ++ .error cause :: later →
        ((∃ s, result = .ok s) ∨
            (∃ count max, result = .error (.oversizedPayload count max)) →
          (readSegment id maxPayload c).1 = some result ∧
          (readSegment id maxPayload c).2.tape =
            Tape.clean rest ++ .error cause :: later) ∧
        ((∀ s, result ≠ .ok s) →
            (∀ count max, result ≠ .error (.oversizedPayload count max)) →
          (readSegment id maxPayload c).1 =
            some (.error (.transport id cause)) ∧
          (readSegment id maxPayload c).2.tape = later)) := by
  obtain ⟨result, rest, h, hchunks⟩ := exists_parses maxPayload w
  have hok (s : Segment) (rest' : Bytes) := h.ok_iff s rest'
  refine ⟨result, rest, hchunks, ?_, ?_, h.framing_iff, h.oversized_iff,
    fun _ _ => h.oversized_rest, h.truncated_iff, ?_⟩
  · intro s rest'
    rw [hok, ← admitted_iff, and_assoc]
  · intro s hs
    obtain ⟨_, _, hw⟩ := (hok s rest).1 ⟨hs, rfl⟩
    obtain ⟨c, hrun, hwritten, _⟩ := Outgoing.run_of_ready
      (c := .unlimited) ⟨⟨rfl, rfl, rfl, by decide⟩, rfl⟩
      (Outgoing.bytes_ofSegment_ne_nil s) (Nat.le_refl s.encode.length)
    refine ⟨c, hrun, ?_⟩
    rw [hw, hwritten.wire (Outgoing.bytes_ofSegment_ne_nil s)]
    rfl
  · intro c cause later htape
    have hreads := readSegment_spec id maxPayload
      (Tape.stops_error cause later) htape
    cases h with
    | decided decides =>
      refine ⟨fun _ => hreads.of_decides decides, ?_⟩
      intro hno hnot
      cases decides with
      | whole wf le bytes => exact absurd rfl (hno _)
      | oversized has lt bytes => exact absurd rfl (hnot _ _)
    | short short =>
      refine ⟨?_, fun _ _ => hreads.of_fault short⟩
      rintro (⟨s, hs⟩ | ⟨count, max, he⟩)
      · cases hs
      · cases he
        cases short

/-- A control segment may name a length, but has no payload. -/
example : (readSegment 0 4 (.script [.chunk
    ((⟨.endOfDataCount, 5, 3⟩ : Header).encode ++ [1, 2])])).1 =
      some (.ok ⟨⟨.endOfDataCount, 5, 3⟩, []⟩) := rfl

end Stripe
