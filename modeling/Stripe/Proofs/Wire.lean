import Stripe.Decoder

/-!
# Segments on a wire

What a connection delivers is a *tape*: bytes, and failures at the places
where a read fails. How the bytes were cut into chunks is forgotten. The
main statements say that the encoded form of a segment can be told from
what follows it (`encode_append_inj`), and that one read call of a decoder
moves the next bytes of the tape into the decoder and does nothing else
(`advance_spec`). So what a worker decodes is decided by its tape alone.
-/

namespace Stripe

/-- What a connection delivers, one byte or one failure after the other. -/
abbrev Tape := List (Except IoError UInt8)

/-- A tape of bytes without a failure. -/
def Tape.clean (bs : Bytes) : Tape := bs.map .ok

namespace Tape

@[simp] theorem clean_nil : clean [] = [] := rfl

@[simp] theorem clean_append (as bs : Bytes) :
    clean (as ++ bs) = clean as ++ clean bs := by
  simp [clean]

@[simp] theorem length_clean (bs : Bytes) : (clean bs).length = bs.length := by
  simp [clean]

@[simp] theorem clean_eq_nil {bs : Bytes} : clean bs = [] ↔ bs = [] := by
  simp [clean]

/-- Of two rows of bytes at the front of one tape, the longer one goes on
as the tape does. -/
theorem exists_missing {as bs : Bytes} {x y : Tape}
    (e : clean as ++ x = clean bs ++ y) (hle : as.length ≤ bs.length) :
    ∃ missing, clean bs = clean as ++ clean missing ∧
      x = clean missing ++ y := by
  have hcut := List.take_append_drop as.length bs
  have htake : clean as ++ x =
      clean (bs.take as.length) ++ (clean (bs.drop as.length) ++ y) := by
    rw [← List.append_assoc, ← clean_append, hcut]
    exact e
  obtain ⟨hfront, hback⟩ := List.append_inj htake (by simp; omega)
  refine ⟨bs.drop as.length, ?_, hback⟩
  rw [hfront, ← clean_append, hcut]

/-- The bytes on a tape. -/
def bytes (t : Tape) : Bytes := t.filterMap Except.toOption

@[simp] theorem bytes_append (x y : Tape) :
    bytes (x ++ y) = bytes x ++ bytes y := List.filterMap_append

@[simp] theorem bytes_clean (bs : Bytes) : bytes (clean bs) = bs := by
  induction bs with
  | nil => rfl
  | cons b bs ih => exact congrArg (b :: ·) ih

theorem clean_inj {as bs : Bytes} (h : clean as = clean bs) : as = bs := by
  simpa using congrArg bytes h

end Tape

/-! ## Encoded segments -/

namespace Segment

/-- A row of segments as it stands on a wire. -/
def encodeAll (segs : List Segment) : Bytes := segs.flatMap encode

@[simp] theorem encodeAll_nil : encodeAll [] = [] := rfl

@[simp] theorem encodeAll_cons (s : Segment) (segs : List Segment) :
    encodeAll (s :: segs) = s.encode ++ encodeAll segs := rfl

@[simp] theorem encodeAll_append (l r : List Segment) :
    encodeAll (l ++ r) = encodeAll l ++ encodeAll r := by
  simp [encodeAll]

theorem wirePayload_eq {s : Segment} (h : s.WellFormed) :
    s.wirePayload = s.payload := by
  unfold wirePayload
  split
  · rfl
  · rename_i hp
    have hz : s.payload.length = 0 := by
      rw [h, Header.payloadLength, if_neg hp]
    exact (List.eq_nil_of_length_eq_zero hz).symm

theorem encode_eq {s : Segment} (h : s.WellFormed) :
    s.encode = s.header.encode ++ s.payload := by
  rw [encode, wirePayload_eq h]

theorem size_le_length_encode (s : Segment) :
    Header.size ≤ s.encode.length := by
  simp [encode]

theorem length_encode_le (s : Segment) :
    s.encode.length ≤ Header.size + s.length := by
  unfold encode wirePayload
  rw [List.length_append, Header.length_encode]
  split
  · exact Nat.le_refl _
  · simp

theorem header_encode_inj {h k : Header} (e : h.encode = k.encode) : h = k := by
  have hd := Header.decode_encode h []
  rw [e, Header.decode_encode k []] at hd
  exact (Option.some.inj hd).symm

/-- Two headers at the front of one tape are the same, and so is what
follows them. -/
theorem header_append_inj {h k : Header} {x y : Tape}
    (e : Tape.clean h.encode ++ x = Tape.clean k.encode ++ y) :
    h = k ∧ x = y := by
  obtain ⟨he, hxy⟩ := List.append_inj e (by simp)
  exact ⟨header_encode_inj (Tape.clean_inj he), hxy⟩

/-- **Segments have no proper prefix in common**: two well-formed segments
at the front of one tape are the same, and so is what follows them. -/
theorem encode_append_inj {s t : Segment} {x y : Tape}
    (hs : s.WellFormed) (ht : t.WellFormed)
    (e : Tape.clean s.encode ++ x = Tape.clean t.encode ++ y) :
    s = t ∧ x = y := by
  obtain ⟨h, p⟩ := s
  obtain ⟨k, q⟩ := t
  simp only [encode_eq hs, encode_eq ht, Tape.clean_append,
    List.append_assoc] at e
  obtain ⟨rfl, hpq⟩ := header_append_inj e
  -- the header decides how long the payload is
  have hlen : p.length = q.length := Eq.trans hs (Eq.symm ht)
  obtain ⟨hp, hxy⟩ := List.append_inj hpq (by simp [hlen])
  rw [Tape.clean_inj hp]
  exact ⟨rfl, hxy⟩

/-- Of two rows of well-formed segments at the front of one tape, one
continues the other. -/
theorem encodeAll_comparable {l r : List Segment} {x y : Tape}
    (hl : ∀ s ∈ l, s.WellFormed) (hr : ∀ s ∈ r, s.WellFormed)
    (e : Tape.clean (encodeAll l) ++ x = Tape.clean (encodeAll r) ++ y) :
    l <+: r ∨ r <+: l := by
  induction l generalizing r with
  | nil => exact .inl ⟨_, rfl⟩
  | cons s l ih =>
    cases r with
    | nil => exact .inr ⟨_, rfl⟩
    | cons t r =>
      simp only [encodeAll_cons, Tape.clean_append, List.append_assoc] at e
      obtain ⟨rfl, hrest⟩ :=
        encode_append_inj (hl s (by simp)) (hr t (by simp)) e
      rcases ih (fun u hu => hl u (by simp [hu]))
        (fun u hu => hr u (by simp [hu])) hrest with h | h
      · exact .inl ((List.prefix_cons_inj s).2 h)
      · exact .inr ((List.prefix_cons_inj s).2 h)

/-- A row that continues another one takes more bytes. -/
theorem eq_of_front {l r : List Segment} (h : l <+: r)
    (hle : (encodeAll r).length ≤ (encodeAll l).length) : l = r := by
  obtain ⟨more, rfl⟩ := h
  cases more with
  | nil => exact (List.append_nil l).symm
  | cons s more =>
    have hpos := size_le_length_encode s
    simp only [encodeAll_append, encodeAll_cons, List.length_append,
      Header.size] at hle hpos
    omega

/-- **What is read from a row** is the beginning of it. -/
theorem front_of_encodeAll {l r : List Segment}
    (hl : ∀ s ∈ l, s.WellFormed) (hr : ∀ s ∈ r, s.WellFormed)
    (h : encodeAll l <+: encodeAll r) : l <+: r := by
  have hle := h.length_le
  obtain ⟨more, hmore⟩ := h
  have e : Tape.clean (encodeAll l) ++ Tape.clean more =
      Tape.clean (encodeAll r) ++ [] := by
    rw [← Tape.clean_append, hmore, List.append_nil]
  rcases encodeAll_comparable hl hr e with hfront | hback
  · exact hfront
  · exact eq_of_front hback hle ▸ List.prefix_rfl

end Segment

/-! ## Reading from a connection -/

namespace Inlet

/-- What an item is on the tape. -/
def Item.tape : Item → Tape
  | .chunk bs => Tape.clean bs
  | .fault cause => [.error cause]

/-- What a connection delivers before nothing arrives any more. -/
def tape (c : Inlet) : Tape := c.items.flatMap Item.tape

@[simp] theorem tape_empty : empty.tape = [] := rfl

@[simp] theorem tape_feed (bs : Bytes) (c : Inlet) :
    (c.feed bs).tape = c.tape ++ Tape.clean bs := by
  simp [tape, feed, Item.tape]

@[simp] theorem tape_fail (cause : IoError) (c : Inlet) :
    (c.fail cause).tape = c.tape ++ [.error cause] := by
  simp [tape, fail, Item.tape]

@[simp] theorem tape_finish (c : Inlet) : c.finish.tape = c.tape := rfl

@[simp] theorem ended_feed (bs : Bytes) (c : Inlet) :
    (c.feed bs).ended = c.ended := rfl

@[simp] theorem ended_fail (cause : IoError) (c : Inlet) :
    (c.fail cause).ended = c.ended := rfl

@[simp] theorem ended_finish (c : Inlet) : c.finish.ended = true := rfl

/-- What was not read yet are the bytes on the tape. -/
theorem content_eq (c : Inlet) : c.content = c.tape.bytes := by
  obtain ⟨items, ended⟩ := c
  simp only [content, tape]
  induction items with
  | nil => rfl
  | cons item items ih =>
    rw [List.flatMap_cons, List.flatMap_cons, Tape.bytes_append, ih]
    cases item with
    | chunk bs => rw [Item.bytes, Item.tape, Tape.bytes_clean]
    | fault cause => rfl

theorem unread_le (c : Inlet) : c.unread ≤ c.tape.length := by
  rw [unread, content_eq]
  exact List.length_filterMap_le _ _

/-- What has arrived is the beginning of `input`, and all of it if nothing
arrives any more. -/
structure Before (c input : Inlet) : Prop where
  front : c.tape <+: input.tape
  whole : c.ended = true → c.tape = input.tape

/-- What a read call with room for `max` bytes does to a connection. -/
inductive Reads (max : Nat) (c : Inlet) : Outcome → Inlet → Prop where
  | bytes {bs : Bytes} {c' : Inlet} (pos : bs ≠ []) (le : bs.length ≤ max)
      (tape : c.tape = Tape.clean bs ++ c'.tape) (ended : c'.ended = c.ended)
      (weight : c'.weight + bs.length ≤ c.weight) :
      Reads max c (.bytes bs) c'
  | failed {cause : IoError} {c' : Inlet}
      (tape : c.tape = .error cause :: c'.tape) (ended : c'.ended = c.ended)
      (weight : c'.weight < c.weight) : Reads max c (.failed cause) c'
  | ended {c' : Inlet} (tape : c.tape = []) (tape' : c'.tape = [])
      (ended : c.ended = true) (ended' : c'.ended = true)
      (weight : c'.weight ≤ c.weight) : Reads max c .ended c'
  | blocked {c' : Inlet} (tape : c.tape = []) (ended : c.ended = false) :
      Reads max c .blocked c'

@[simp] theorem tape_cons (item : Item) (items : List Item) (e : Bool) :
    tape ⟨item :: items, e⟩ = item.tape ++ tape ⟨items, e⟩ := rfl

@[simp] theorem weight_cons (item : Item) (items : List Item) (e : Bool) :
    weight ⟨item :: items, e⟩ =
      item.bytes.length + 1 + weight ⟨items, e⟩ := by
  simp only [weight, unread, content, List.flatMap_cons, List.length_append,
    List.length_cons]
  omega

/-- An empty chunk at the front does not change what a read does. -/
theorem Reads.skip {max : Nat} {items : List Item} {e : Bool} {o : Outcome}
    {c' : Inlet} (h : Reads max ⟨items, e⟩ o c') :
    Reads max ⟨.chunk [] :: items, e⟩ o c' := by
  have hweight : weight ⟨items, e⟩ ≤ weight ⟨.chunk [] :: items, e⟩ := by
    simp [Item.bytes]
  cases h with
  | bytes pos le tape ended weight =>
    exact .bytes pos le tape ended (Nat.le_trans weight hweight)
  | failed tape ended weight =>
    exact .failed tape ended (Nat.lt_of_lt_of_le weight hweight)
  | ended tape tape' ended ended' weight =>
    exact .ended tape tape' ended ended' (Nat.le_trans weight hweight)
  | blocked tape ended => exact .blocked tape ended

theorem readItems_spec {max : Nat} (hm : 0 < max) (e : Bool)
    (items : List Item) :
    Reads max ⟨items, e⟩ (readItems max e items).1
      (readItems max e items).2 := by
  induction items with
  | nil =>
    cases e
    · exact .blocked rfl rfl
    · exact .ended rfl rfl rfl rfl (Nat.le_refl _)
  | cons item items ih =>
    match item with
    | .fault cause =>
      exact .failed rfl rfl (by simp [readItems])
    | .chunk [] => exact ih.skip
    | .chunk (b :: bs) =>
      have hcut := List.take_append_drop max (b :: bs)
      refine .bytes (by simp; omega) (List.length_take_le _ _) ?_ rfl ?_
      · simp only [readItems, tape_cons, Item.tape]
        rw [← List.append_assoc, ← Tape.clean_append, hcut]
      · have hlen := congrArg List.length hcut
        rw [List.length_append] at hlen
        simp only [readItems, weight_cons, Item.bytes]
        omega

theorem read_spec {max : Nat} (hm : 0 < max) (c : Inlet) :
    Reads max c (c.read max).1 (c.read max).2 :=
  readItems_spec hm c.ended c.items

end Inlet

/-! ## Decoding -/

namespace Decoder

/-- Something is missing, and a payload that is being read was admitted. -/
def Valid (maxPayload : Nat) : Decoder → Prop
  | header got => got.length < Header.size
  | payload h got => h.hasPayload = true ∧ h.byteCount.toNat ≤ maxPayload ∧
      got.size < h.byteCount.toNat

@[simp] theorem held_start : start.held = [] := rfl

theorem valid_start (maxPayload : Nat) : start.Valid maxPayload := by
  simp [start, Valid, Header.size]

theorem wants_pos {maxPayload : Nat} {d : Decoder} (h : d.Valid maxPayload) :
    0 < d.wants := by
  cases d with
  | header got => simp only [Valid] at h; simp only [wants]; omega
  | payload k got => simp only [Valid] at h; simp only [wants]; omega

/-- A decoder that stands at the front of a segment holds less than all of
it. -/
theorem length_held_lt {maxPayload : Nat} {d : Decoder} {s : Segment}
    {x y : Tape} (hv : d.Valid maxPayload) (hs : s.WellFormed)
    (e : Tape.clean d.held ++ x = Tape.clean s.encode ++ y) :
    d.held.length < s.encode.length := by
  cases d with
  | header got => exact Nat.lt_of_lt_of_le hv s.size_le_length_encode
  | payload h got =>
    obtain ⟨hhas, _, hlt⟩ := hv
    simp only [held, Segment.encode_eq hs, Tape.clean_append,
      List.append_assoc] at e
    obtain ⟨rfl, _⟩ := Segment.header_append_inj e
    have hlen : s.payload.length = s.header.byteCount.toNat := by
      rw [hs, Header.payloadLength, if_pos hhas]
    simp only [held, Segment.encode_eq hs, List.length_append,
      Array.length_toList]
    omega

/-- **A decoder at the front of a segment**: what is missing comes next. -/
theorem held_front {maxPayload : Nat} {d : Decoder} {s : Segment}
    {x y : Tape} (hv : d.Valid maxPayload) (hs : s.WellFormed)
    (e : Tape.clean d.held ++ x = Tape.clean s.encode ++ y) :
    ∃ missing, missing ≠ [] ∧ x = Tape.clean missing ++ y := by
  have hlt := length_held_lt hv hs e
  obtain ⟨missing, hall, hx⟩ := Tape.exists_missing e (by omega)
  refine ⟨missing, ?_, hx⟩
  rintro rfl
  have hlen := congrArg List.length hall
  simp at hlen
  omega

/-- What a decoder makes of the bytes that it holds. -/
inductive Makes (maxPayload : Nat) (bs : Bytes) : Progress → Prop where
  | more {d : Decoder} (valid : d.Valid maxPayload) (held : d.held = bs) :
      Makes maxPayload bs (.more d)
  | done {s : Segment} (wf : s.WellFormed) (le : s.length ≤ maxPayload)
      (held : s.encode = bs) : Makes maxPayload bs (.done s)
  | oversized {h : Header} (has : h.hasPayload = true)
      (lt : maxPayload < h.byteCount.toNat) (held : h.encode = bs) :
      Makes maxPayload bs
        (.failed (.oversizedPayload h.byteCount.toNat maxPayload))

theorem opened_spec (maxPayload : Nat) (h : Header) :
    Makes maxPayload h.encode (opened maxPayload h) := by
  unfold opened
  split
  · rename_i hp
    have hno : h.hasPayload = false := by simpa using hp
    refine .done ?_ (by simp [Segment.length]) ?_
    · simp [Segment.WellFormed, Header.payloadLength, hno]
    · simp [Segment.encode, Segment.wirePayload, hno]
  · rename_i hp
    have hyes : h.hasPayload = true := by simpa using hp
    split
    · rename_i hlt
      exact .oversized hyes hlt rfl
    · rename_i hle
      have hpos : 0 < h.byteCount.toNat := by
        simp only [Header.hasPayload, Bool.and_eq_true, decide_eq_true_eq]
          at hyes
        exact UInt64.lt_iff_toNat_lt.1 hyes.2
      exact .more ⟨hyes, by omega, by simpa using hpos⟩ (by simp [held])

/-- Bytes that were asked for are added to those that a decoder holds. -/
theorem push_spec {maxPayload : Nat} {d : Decoder} {bs : Bytes}
    (hv : d.Valid maxPayload) (hle : bs.length ≤ d.wants) :
    Makes maxPayload (d.held ++ bs) (d.push maxPayload bs) := by
  cases d with
  | header got =>
    simp only [Valid] at hv
    simp only [wants] at hle
    simp only [push, held]
    cases hd : Header.decode? (got ++ bs) with
    | none =>
      exact .more (Header.decode?_eq_none_iff.1 hd) rfl
    | some h =>
      have hall : (got ++ bs).take Header.size = got ++ bs :=
        List.take_of_length_le (by simp; omega)
      have henc := Header.encode_decode hd
      rw [hall] at henc
      rw [henc]
      exact opened_spec maxPayload h
  | payload h got =>
    obtain ⟨hhas, hmax, hlt⟩ := hv
    simp only [wants] at hle
    simp only [push, held]
    have hsize : (got.appendList bs).size = got.size + bs.length := by
      simp [← Array.length_toList]
    split
    · rename_i hless
      exact .more ⟨hhas, hmax, hless⟩ (by simp [held])
    · rename_i hfull
      have heq : (got.appendList bs).toList.length = h.byteCount.toNat := by
        rw [Array.length_toList]
        omega
      refine .done ?_ (Nat.le_trans (Nat.le_of_eq heq) hmax) ?_
      · rw [Segment.WellFormed, Header.payloadLength, if_pos hhas]
        exact heq
      · simp [Segment.encode, Segment.wirePayload, hhas]

/-- What a read call of a decoder does to it and to its connection. -/
inductive Advances (id maxPayload : Nat) (d : Decoder) (c : Inlet) :
    Progress → Inlet → Prop where
  | took {bs : Bytes} {p : Progress} {c' : Inlet} (pos : bs ≠ [])
      (makes : Makes maxPayload (d.held ++ bs) p)
      (tape : c.tape = Tape.clean bs ++ c'.tape) (ended : c'.ended = c.ended)
      (weight : c'.weight + bs.length ≤ c.weight) :
      Advances id maxPayload d c p c'
  | fault {cause : IoError} {c' : Inlet}
      (tape : c.tape = .error cause :: c'.tape) (ended : c'.ended = c.ended)
      (weight : c'.weight < c.weight) :
      Advances id maxPayload d c (.failed (.transport id cause)) c'
  | cut {c' : Inlet} (tape : c.tape = []) (ended : c.ended = true)
      (tape' : c'.tape = []) (ended' : c'.ended = true)
      (weight : c'.weight ≤ c.weight) :
      Advances id maxPayload d c (.failed d.cutShort) c'

/-- **One read call of a decoder**: it moves the next bytes of the tape
into the decoder, or meets a failure or the end of the tape. -/
theorem advance_spec {id maxPayload : Nat} {d : Decoder} {c : Inlet}
    {p : Progress} {c' : Inlet} (hv : d.Valid maxPayload)
    (h : d.advance id maxPayload c = some (p, c')) :
    Advances id maxPayload d c p c' := by
  have hr := Inlet.read_spec (wants_pos hv) c
  unfold advance at h
  generalize c.read d.wants = r at h hr
  obtain ⟨outcome, left⟩ := r
  cases hr with
  | bytes pos le tape ended weight =>
    cases h
    exact .took pos (push_spec hv le) tape ended weight
  | failed tape ended weight =>
    cases h
    exact .fault tape ended weight
  | ended tape tape' ended ended' weight =>
    cases h
    exact .cut tape ended tape' ended' weight
  | blocked tape ended => cases h

/-- What a read call comes to, of a decoder that stands at the front of the
segment `s`. `later` is what has not arrived of the segment and of the
`rest` that follows it. -/
inductive Fronts (maxPayload : Nat) (s : Segment) (later rest : Tape)
    (d : Decoder) (c : Inlet) : Progress → Inlet → Prop where
  | more {d' : Decoder} {c' : Inlet} (valid : d'.Valid maxPayload)
      (front : Tape.clean d'.held ++ (c'.tape ++ later) =
        Tape.clean s.encode ++ rest)
      (ended : c'.ended = c.ended) (weight : c'.weight < c.weight) :
      Fronts maxPayload s later rest d c (.more d') c'
  | done {c' : Inlet} (tape : c'.tape ++ later = rest)
      (ended : c'.ended = c.ended) (weight : c'.weight < c.weight) :
      Fronts maxPayload s later rest d c (.done s) c'
  | cut {c' : Inlet} (tape : c.tape = []) (ended : c.ended = true)
      (tape' : c'.tape = []) (ended' : c'.ended = true) :
      Fronts maxPayload s later rest d c (.failed d.cutShort) c'

/-- **A read call at the front of a segment** takes some of it, or what is
left of it, or finds that no more arrives. -/
theorem advance_front {id maxPayload : Nat} {s : Segment} {later rest : Tape}
    {d : Decoder} {c : Inlet} {p : Progress} {c' : Inlet}
    (hv : d.Valid maxPayload) (hs : s.WellFormed)
    (hle : s.length ≤ maxPayload)
    (front : Tape.clean d.held ++ (c.tape ++ later) =
      Tape.clean s.encode ++ rest)
    (h : d.advance id maxPayload c = some (p, c')) :
    Fronts maxPayload s later rest d c p c' := by
  obtain ⟨missing, hne, hmissing⟩ := held_front hv hs front
  obtain ⟨b, bs, rfl⟩ := List.exists_cons_of_ne_nil hne
  cases advance_spec hv h with
  | fault tape ended weight =>
    rw [tape] at hmissing
    cases hmissing
  | cut tape ended tape' ended' weight => exact .cut tape ended tape' ended'
  | @took taken p c' pos makes tape ended weight =>
    have hpos := List.length_pos_iff.2 pos
    rw [tape, List.append_assoc, ← List.append_assoc,
      ← Tape.clean_append] at front
    cases makes with
    | more valid held =>
      exact .more valid (held ▸ front) ended (by omega)
    | done wf le held =>
      rw [← held] at front
      obtain ⟨rfl, htape⟩ := Segment.encode_append_inj wf hs front
      exact .done htape ended (by omega)
    | @oversized k has lt held =>
      -- a payload that is too long is not that of the segment
      rw [← held, Segment.encode_eq hs, Tape.clean_append,
        List.append_assoc] at front
      obtain ⟨rfl, _⟩ := Segment.header_append_inj front
      have hlen : s.length = s.header.byteCount.toNat := by
        rw [Segment.length, hs, Header.payloadLength, if_pos has]
      omega

/-- A decoder waits only where nothing more has arrived. -/
theorem advance_eq_none_iff {id maxPayload : Nat} {d : Decoder} {c : Inlet}
    (hv : d.Valid maxPayload) :
    d.advance id maxPayload c = none ↔ c.tape = [] ∧ c.ended = false := by
  have hr := Inlet.read_spec (wants_pos hv) c
  unfold advance
  generalize c.read d.wants = r at hr
  obtain ⟨outcome, left⟩ := r
  cases hr with
  | bytes pos le tape ended weight => simp [tape, pos]
  | failed tape ended weight => simp [tape]
  | ended tape tape' ended ended' weight => simp [ended]
  | blocked tape ended => simp [tape, ended]

end Decoder
end Stripe
