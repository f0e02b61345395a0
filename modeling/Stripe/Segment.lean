import Stripe.Header

/-!
# Segments

A segment is a header and its payload. A data segment carries the bytes
of the stream from its offset on, the control segment announces the number
of connections, and a terminal segment ends a connection.
-/

namespace Stripe

structure Segment where
  header : Header
  payload : Bytes
deriving DecidableEq, Inhabited

namespace Segment

/-- A data segment that carries `payload` at `offset`. -/
def data (payload : Bytes) (offset : UInt64) (flags : Flags) : Segment :=
  ⟨⟨flags, .ofNat payload.length, offset⟩, payload⟩

/-- The control segment that announces `count` connections. -/
def control (count : UInt64) : Segment := ⟨.announce count, []⟩

/-- The terminal segment of a connection, sent at `cursor`. -/
def terminal (cursor : UInt64) : Segment := ⟨⟨.endOfData, 0, cursor⟩, []⟩

/-- Where the payload starts in the stream. -/
def offset (s : Segment) : Nat := s.header.offsetCount.toNat

def length (s : Segment) : Nat := s.payload.length

/-- The first position after the payload. -/
def stop (s : Segment) : Nat := s.offset + s.length

def isEmpty (s : Segment) : Bool := s.payload.isEmpty

/-- The payloads of a row of segments, joined. -/
def joined (segs : List Segment) : Bytes := segs.flatMap payload

def isControl (s : Segment) : Bool := s.header.isControl

def isTerminal (s : Segment) : Bool := s.header.isTerminal

/-- The first `n` bytes as a segment of their own, and what is left. The
rest starts where the front ends. -/
def splitFront (s : Segment) (n : Nat) : Segment × Segment :=
  let front := s.payload.take n
  let rest := s.payload.drop n
  (data front s.header.offsetCount .none,
    ⟨⟨s.header.flags, .ofNat rest.length,
      s.header.offsetCount + .ofNat front.length⟩, rest⟩)

/-- The payload as it follows the header on the wire. -/
def wirePayload (s : Segment) : Bytes :=
  if s.header.hasPayload then s.payload else []

/-- The bytes of a segment on the wire. -/
def encode (s : Segment) : Bytes := s.header.encode ++ s.wirePayload

/-- The length field tells the length of the payload. A control segment
has no payload, whatever its length field. -/
def WellFormed (s : Segment) : Prop :=
  s.payload.length = s.header.payloadLength

instance (s : Segment) : Decidable s.WellFormed :=
  inferInstanceAs (Decidable (_ = _))

@[simp] theorem length_control (n : UInt64) : (control n).length = 0 := rfl

@[simp] theorem length_terminal (n : UInt64) : (terminal n).length = 0 := rfl

@[simp] theorem length_data (bs : Bytes) (o : UInt64) (f : Flags) :
    (data bs o f).length = bs.length := rfl

@[simp] theorem offset_data (bs : Bytes) (o : UInt64) (f : Flags) :
    (data bs o f).offset = o.toNat := rfl

@[simp] theorem encode_control (n : UInt64) :
    (control n).encode = (Header.announce n).encode := by
  unfold encode wirePayload
  split <;> simp [control]

@[simp] theorem encode_terminal (n : UInt64) :
    (terminal n).encode = (⟨.endOfData, 0, n⟩ : Header).encode := by
  unfold encode wirePayload
  split <;> simp [terminal]

theorem splitFront_payload (s : Segment) (n : Nat) :
    (s.splitFront n).1.payload ++ (s.splitFront n).2.payload = s.payload :=
  List.take_append_drop n s.payload

end Segment
end Stripe
