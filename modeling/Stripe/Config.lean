import Stripe.Error

/-!
# Settings of a transfer

The sender cuts the stream into segments of at most `maxSegmentLen` bytes;
the receiver refuses payloads above `maxPayloadLen`. `validate` admits the
settings under which both sides can work.
-/

namespace Stripe

structure Config where
  /-- The most bytes that the sender puts into one segment. -/
  maxSegmentLen : Nat
  /-- The largest payload that the receiver takes. -/
  maxPayloadLen : Nat
  /-- The size with which the buffer of a collected message starts. -/
  initialBufferCapacity : Nat
  /-- How many segments of a connection enter its measured rate. -/
  statsWindowSize : Nat
deriving DecidableEq

namespace Config

/-- The least size of the buffer of a collected message. -/
def minBufferCapacity : Nat := 2

def standard : Config where
  maxSegmentLen := 64 * 1024
  maxPayloadLen := 16 * 1024 * 1024
  initialBufferCapacity := minBufferCapacity
  statsWindowSize := 100

/-- Small segments and buffers, for small machines. -/
def lowSpec : Config where
  maxSegmentLen := 16 * 1024
  maxPayloadLen := 1024 * 1024
  initialBufferCapacity := 64 * 1024
  statsWindowSize := 50

/-- Large segments and buffers, for large machines. -/
def highPerformance : Config where
  maxSegmentLen := 1024 * 1024
  maxPayloadLen := 64 * 1024 * 1024
  initialBufferCapacity := 8 * 1024 * 1024
  statsWindowSize := 200

instance : Inhabited Config := ⟨standard⟩

/-- Segments hold at least one byte, and the receiver takes every segment
that the sender makes. -/
def validate (c : Config) : Except Error Unit :=
  if c.maxSegmentLen = 0 then
    .error (.invalidConfig "max_segment_len은 1 이상이어야 함")
  else if c.maxPayloadLen < c.maxSegmentLen then
    .error (.invalidConfig
      s!"max_payload_len({c.maxPayloadLen})이 max_segment_len({c.maxSegmentLen})보다 작음")
  else .ok ()

/-- How many data segments a stream of `len` bytes is cut into: the
quotient, rounded up. -/
def segmentsFor (c : Config) (len : Nat) : Nat :=
  len / c.maxSegmentLen + if len % c.maxSegmentLen = 0 then 0 else 1

theorem validate_eq_ok_iff {c : Config} :
    c.validate = .ok () ↔
      0 < c.maxSegmentLen ∧ c.maxSegmentLen ≤ c.maxPayloadLen := by
  unfold validate
  split
  · simp; omega
  · split
    · simp; omega
    · simp; omega

end Config
end Stripe
