import Stripe.Inlet
import Stripe.Segment

/-!
# Decoding segments as their bytes come in

A decoder holds the part of a segment that has been read: some bytes of
the header, or the header and some bytes of the payload. It asks for what
is missing (`wants`), and one read call either leaves it waiting for more,
completes the segment, or shows that there is none.

`readSegment` runs a decoder on a connection until one of these is final.
-/

namespace Stripe

inductive Decoder where
  /-- The bytes of a header that were read. -/
  | header (got : Bytes)
  /-- A header, and the bytes of its payload that were read. -/
  | payload (header : Header) (got : Array UInt8)
deriving DecidableEq

namespace Decoder

/-- Where decoding stands after a read call. -/
inductive Progress where
  | more (d : Decoder)
  | done (s : Segment)
  | failed (e : Error)
deriving DecidableEq

/-- Nothing was read yet. -/
def start : Decoder := header []

/-- What a decoder has taken of a segment, as it stood on the wire. -/
def held : Decoder → Bytes
  | header got => got
  | payload h got => h.encode ++ got.toList

/-- How many bytes are missing from the part that is being read. -/
def wants : Decoder → Nat
  | header got => Header.size - got.length
  | payload h got => h.byteCount.toNat - got.size

/-- A header is known. Its payload is read next, if there is one and it is
not too long. -/
def opened (maxPayload : Nat) (h : Header) : Progress :=
  if !h.hasPayload then .done ⟨h, []⟩
  else if maxPayload < h.byteCount.toNat then
    .failed (.oversizedPayload h.byteCount.toNat maxPayload)
  else .more (payload h #[])

/-- Takes `bytes`, at most as many as are wanted. -/
def push (maxPayload : Nat) (bytes : Bytes) : Decoder → Progress
  | header got =>
    match Header.decode? (got ++ bytes) with
    | none => .more (header (got ++ bytes))
    | some h => opened maxPayload h
  | payload h got =>
    let got := got.appendList bytes
    if got.size < h.byteCount.toNat then .more (payload h got)
    else .done ⟨h, got.toList⟩

/-- The connection ended here. -/
def cutShort : Decoder → Error
  | header got => .framing Header.size got.length
  | payload h got => .truncatedPayload h.byteCount.toNat got.size

/-- One read call on connection `id`; nothing if the call has to wait. -/
def advance (id maxPayload : Nat) (d : Decoder) (c : Inlet) :
    Option (Progress × Inlet) :=
  match c.read d.wants with
  | (.blocked, _) => none
  | (.bytes bytes, c) => some (d.push maxPayload bytes, c)
  | (.failed cause, c) => some (.failed (.transport id cause), c)
  | (.ended, c) => some (.failed d.cutShort, c)

/-- Read calls until the segment is complete, there is none, or a call has
to wait; at most `fuel` of them. -/
def run (id maxPayload : Nat) : (fuel : Nat) → Decoder → Inlet →
    Progress × Inlet
  | 0, d, c => (.more d, c)
  | fuel + 1, d, c =>
    match d.advance id maxPayload c with
    | none => (.more d, c)
    | some (.more d, c) => run id maxPayload fuel d c
    | some (p, c) => (p, c)

end Decoder

/-- Reads one segment from connection `id`; nothing if it has to wait for
more bytes. -/
def readSegment (id maxPayload : Nat) (c : Inlet) :
    Option (Except Error Segment) × Inlet :=
  match Decoder.run id maxPayload (c.weight + 1) .start c with
  | (.done s, c) => (some (.ok s), c)
  | (.failed e, c) => (some (.error e), c)
  | (.more _, c) => (none, c)

/-- Reads one header from connection `id`, by at most `fuel` read calls. -/
def readHeaderWithin (id : Nat) : (fuel : Nat) → Decoder → Inlet →
    Option (Except Error Header) × Inlet
  | 0, _, c => (none, c)
  | fuel + 1, d, c =>
    match d.advance id maxCount c with
    | none => (none, c)
    | some (.more (.header got), c) => readHeaderWithin id fuel (.header got) c
    | some (.more (.payload h _), c) => (some (.ok h), c)
    | some (.done s, c) => (some (.ok s.header), c)
    | some (.failed e, c) => (some (.error e), c)

/-- Reads one header from connection `id` and leaves its payload unread;
nothing if it has to wait for more bytes. -/
def readHeader (id : Nat) (c : Inlet) : Option (Except Error Header) × Inlet :=
  readHeaderWithin id (c.weight + 1) .start c

/-- Repeats a read until it fails or has to wait, at most `count` times. -/
def readMany {α : Type} (read : Inlet → Option (Except Error α) × Inlet) :
    (count : Nat) → Inlet → List (Except Error α) × Inlet
  | 0, c => ([], c)
  | count + 1, c =>
    match read c with
    | (none, c) => ([], c)
    | (some (.error e), c) => ([.error e], c)
    | (some (.ok a), c) =>
      let (rest, c) := readMany read count c
      (.ok a :: rest, c)

end Stripe
