import Stripe.Word
import Stripe.Flags
import Stripe.Error

/-!
# Segment headers

Every segment starts with seventeen bytes: the flags, the length of the
payload, and the offset of the payload in the stream. On a control header
the last field is the number of connections instead.

`decode_encode` and `encode_decode` say that the seventeen bytes and the
header determine each other.
-/

namespace Stripe

structure Header where
  flags : Flags
  byteCount : UInt64
  offsetCount : UInt64
deriving DecidableEq, Inhabited

namespace Header

/-- The length of an encoded header. -/
def size : Nat := 17

/-- The control header that announces `count` connections. -/
def announce (count : UInt64) : Header := ⟨.endOfDataCount, 0, count⟩

def isControl (h : Header) : Bool := h.flags.contains .endOfDataCount

def isTerminal (h : Header) : Bool := h.flags.contains .endOfData

/-- A payload follows the header. A control header has none, whatever its
length field says. -/
def hasPayload (h : Header) : Bool := !h.isControl && 0 < h.byteCount

/-- The number of payload bytes that follow the header. -/
def payloadLength (h : Header) : Nat :=
  if h.hasPayload then h.byteCount.toNat else 0

def encode (h : Header) : Bytes :=
  h.flags.bits :: (Word.bytes 8 h.byteCount.toNat ++
    Word.bytes 8 h.offsetCount.toNat)

/-- The header at the front of `bs`; bytes after it are left alone. -/
def decode? : Bytes → Option Header
  | [] => none
  | flags :: bs =>
    if bs.length < 16 then none
    else some ⟨⟨flags⟩, .ofNat (Word.ofBytes (bs.take 8)),
      .ofNat (Word.ofBytes ((bs.drop 8).take 8))⟩

/-- The header at the front of `bs`, which may be too short for one. -/
def decode (bs : Bytes) : Except Error Header :=
  match decode? bs with
  | some h => .ok h
  | none => .error (.framing size bs.length)

/-- All fields of a header, by name. -/
def describe (h : Header) : String :=
  "Header \x7b flags: " ++ h.flags.describe ++ ", byte_count: " ++
    toString h.byteCount.toNat ++ ", offset_count: " ++
    toString h.offsetCount.toNat ++ " \x7d"

@[simp] theorem length_encode (h : Header) : h.encode.length = size := by
  simp [encode, size]

theorem ofNat_ofBytes_bytes (n : UInt64) :
    UInt64.ofNat (Word.ofBytes (Word.bytes 8 n.toNat)) = n := by
  have hn := n.toNat_lt
  apply UInt64.toNat_inj.1
  rw [Word.ofBytes_bytes, Word.limit_eight, Nat.mod_eq_of_lt hn]
  exact UInt64.toNat_ofNat_of_lt hn

/-- Decoding undoes encoding, whatever follows. -/
theorem decode_encode (h : Header) (rest : Bytes) :
    decode? (h.encode ++ rest) = some h := by
  have hl : ∀ n : Nat, (Word.bytes 8 n).length = 8 := Word.length_bytes 8
  simp only [encode, List.cons_append, List.append_assoc, decode?]
  rw [if_neg (by simp [hl]; omega)]
  rw [List.take_left' (hl _), List.drop_left' (hl _), List.take_left' (hl _)]
  simp only [ofNat_ofBytes_bytes]

theorem decode?_eq_none_iff {bs : Bytes} :
    decode? bs = none ↔ bs.length < size := by
  cases bs with
  | nil => simp [decode?, size]
  | cons flags bs => simp [decode?, size]; omega

/-- A decoded header is written as the bytes that it was decoded from. -/
theorem encode_decode {bs : Bytes} {h : Header} (hd : decode? bs = some h) :
    bs.take size = h.encode := by
  cases bs with
  | nil => simp [decode?] at hd
  | cons flags bs =>
    simp only [decode?] at hd
    split at hd
    · simp at hd
    · rename_i hlen
      have word (ws : Bytes) (hw : ws.length = 8) :
          Word.bytes 8 (UInt64.ofNat (Word.ofBytes ws)).toNat = ws := by
        have hlt := Word.ofBytes_lt ws
        have hm : (UInt64.ofNat (Word.ofBytes ws)).toNat = Word.ofBytes ws := by
          rw [hw, Word.limit_eight] at hlt
          exact UInt64.toNat_ofNat_of_lt hlt
        have := Word.bytes_ofBytes ws
        rwa [hm, ← hw]
      cases hd
      have h1 : (bs.take 8).length = 8 := by simp; omega
      have h2 : ((bs.drop 8).take 8).length = 8 := by simp; omega
      simp only [encode, word _ h1, word _ h2, size, List.take_succ_cons]
      rw [show (16 : Nat) = 8 + 8 from rfl, List.take_add]

end Header
end Stripe
