import Stripe.Inlet

/-!
# Checksums of what was passed on

The checksum is the cyclic redundancy code CRC-32, in its reflected form.
`serial` is its definition, bit by bit over a whole text. `Checksum` keeps
the register between two parts of a text, so that the parts may be added
one after the other (`add_append`), and takes a byte at a time.

A `Source` is what can be read from into the buffer of a caller. A `Tap` is a
source around another one, and adds what each read puts into the buffer.
-/

namespace Stripe

/-- The register of a checksum under way. -/
structure Checksum where
  register : UInt32
deriving DecidableEq

namespace Checksum

/-- The polynomial, without its leading term, lowest power first. -/
def polynomial : UInt32 := 0xEDB88320

/-- Shifts one bit out and reduces. -/
def shift (r : UInt32) : UInt32 :=
  if r &&& 1 = 1 then (r >>> 1) ^^^ polynomial else r >>> 1

/-- Takes one bit of the text. -/
def feedBit (r : UInt32) (bit : Bool) : UInt32 :=
  if (r &&& 1 == 1) == bit then r >>> 1 else (r >>> 1) ^^^ polynomial

/-- The bits of a byte, lowest first. -/
def bitsOf (b : UInt8) : List Bool :=
  (List.range 8).map fun i => b.toNat.testBit i

/-- The checksum of a whole text, bit by bit. -/
def serial (bytes : Bytes) : UInt32 :=
  (bytes.flatMap bitsOf).foldl feedBit 0xFFFFFFFF ^^^ 0xFFFFFFFF

/-- Takes one byte of the text. -/
def addByte (r : UInt32) (b : UInt8) : UInt32 :=
  Nat.repeat shift 8 (r ^^^ b.toUInt32)

/-- The checksum of no byte. -/
def start : Checksum := ⟨0xFFFFFFFF⟩

def add (bytes : Bytes) (c : Checksum) : Checksum :=
  ⟨bytes.foldl addByte c.register⟩

/-- The checksum of the bytes added so far. -/
def value (c : Checksum) : UInt32 := c.register ^^^ 0xFFFFFFFF

def hexDigit (n : Nat) : Char := Nat.digitChar (n % 16)

/-- The value as eight hexadecimal digits. -/
def text (c : Checksum) : String :=
  String.ofList ((List.range 8).map fun i =>
    hexDigit (c.value.toNat >>> (4 * (7 - i))))

@[simp] theorem add_nil (c : Checksum) : c.add [] = c := rfl

/-- Parts of a text may be added one after the other. -/
theorem add_append (xs ys : Bytes) (c : Checksum) :
    c.add (xs ++ ys) = (c.add xs).add ys := by
  simp [add, List.foldl_append]

end Checksum

/-! ## Sources -/

/-- The buffer of a caller: what stands in it, and how much more fits. -/
structure Buffer where
  filled : Bytes
  room : Nat
deriving DecidableEq

namespace Buffer

def empty (room : Nat) : Buffer := ⟨[], room⟩

def put (bytes : Bytes) (b : Buffer) : Buffer :=
  ⟨b.filled ++ bytes, b.room - bytes.length⟩

end Buffer

/-- What one poll of a source comes to. -/
inductive Poll where
  | ready
  | failed (cause : IoError)
  | pending
deriving DecidableEq

/-- What can be read from. A poll leaves the caller its buffer, with bytes
behind those that stood in it if the poll is ready. -/
class Source (σ : Type) where
  poll : Buffer → σ → (Poll × Buffer) × σ
  puts (b : Buffer) (s : σ) : ∃ got : Bytes, got.length ≤ b.room ∧
    (poll b s).1.2 = b.put got ∧ ((poll b s).1.1 ≠ .ready → got = [])

/-- What a read call answers to a caller. At the end it is ready, and has
put nothing. -/
def Inlet.Outcome.poll : Outcome → Poll
  | .bytes _ | .ended => .ready
  | .failed cause => .failed cause
  | .blocked => .pending

/-- A read call that is not ready returns nothing. -/
theorem Inlet.Outcome.taken_eq_nil {o : Outcome} (h : o.poll ≠ .ready) :
    o.taken = [] := by
  cases o with
  | bytes => exact absurd rfl h
  | failed | ended | blocked => rfl

instance : Source Inlet where
  poll b c :=
    let (outcome, c) := c.read b.room
    ((outcome.poll, b.put outcome.taken), c)
  puts b c := ⟨_, c.length_taken_le b.room, rfl, Inlet.Outcome.taken_eq_nil⟩

/-! ## Taps -/

/-- A source with the checksum of what was read from it. -/
structure Tap (σ : Type) where
  inner : σ
  checksum : Checksum
deriving DecidableEq

namespace Tap

variable {σ : Type}

def ofInlet (c : Inlet) : Tap Inlet := ⟨c, .start⟩

/-- A poll. If it is ready, the bytes behind those that the caller had
enter the checksum. -/
def poll [Source σ] (b : Buffer) (t : Tap σ) : (Poll × Buffer) × Tap σ :=
  let (answer, inner) := Source.poll b t.inner
  let checksum := match answer.1 with
    | .ready => t.checksum.add (answer.2.filled.drop b.filled.length)
    | .failed _ | .pending => t.checksum
  (answer, ⟨inner, checksum⟩)

instance [Source σ] : Source (Tap σ) where
  poll := poll
  puts b t := Source.puts b t.inner

/-- Polls until one returns nothing or fails, at most `fuel` of them: what
each poll before the end comes to, and the checksum after it. Each of them
has an empty buffer with room for `max` bytes. -/
def readWithin [Source σ] (max : Nat) : (fuel : Nat) → Tap σ →
    List (Except IoError Nat × Checksum) × Tap σ
  | 0, t => ([], t)
  | fuel + 1, t =>
    match t.poll (.empty max) with
    | ((.failed cause, _), t) => ([(.error cause, t.checksum)], t)
    | ((.pending, _), t) => ([], t)
    | ((.ready, b), t) =>
      let count := b.filled.length
      if count = 0 then ([], t)
      else
        let (rest, last) := readWithin max fuel t
        ((.ok count, t.checksum) :: rest, last)

/-- Polls until one returns nothing or fails. -/
def readAll (max : Nat) (t : Tap Inlet) :
    List (Except IoError Nat × Checksum) × Tap Inlet :=
  t.readWithin max (t.inner.weight + 1)

end Tap
end Stripe
