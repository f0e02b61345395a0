/-!
# Header flags

A header opens with one byte of flags. Two of them carry meaning: the
control flag announces the number of connections, the terminal flag says
that a connection has delivered all it will deliver. The others are
carried along unread.
-/

namespace Stripe

/-- The flag byte of a header. -/
structure Flags where
  bits : UInt8
deriving DecidableEq, Inhabited

namespace Flags

def none : Flags := ⟨0⟩

/-- Carried for old peers, without effect. -/
def endOfRecord : Flags := ⟨128⟩

/-- The header announces the number of connections in its offset field. -/
def endOfDataCount : Flags := ⟨64⟩

/-- Carried for old peers, without effect. -/
def suspectErrors : Flags := ⟨32⟩

/-- Carried for old peers, without effect. -/
def restartMarker : Flags := ⟨16⟩

/-- The connection delivers nothing after this segment. -/
def endOfData : Flags := ⟨8⟩

/-- A hint that the sender closes the connection after this header. -/
def senderCloses : Flags := ⟨4⟩

/-- Every bit of `g` is set in `f`. -/
def contains (f g : Flags) : Bool := f.bits &&& g.bits == g.bits

def union (f g : Flags) : Flags := ⟨f.bits ||| g.bits⟩

def isEmpty (f : Flags) : Bool := f.bits == 0

/-- The flags that have a name, in the order in which they are listed. -/
def named : List (Flags × String) :=
  [(endOfRecord, "END_OF_RECORD"),
   (endOfDataCount, "END_OF_DATA_COUNT"),
   (suspectErrors, "SUSPECT_ERRORS"),
   (restartMarker, "RESTART_MARKER"),
   (endOfData, "END_OF_DATA"),
   (senderCloses, "SENDER_CLOSES_CONNECTION")]

/-- The bits of `f` that have no name. -/
def unnamed (f : Flags) : UInt8 :=
  f.bits &&& ~~~ named.foldl (fun acc entry => acc ||| entry.1.bits) 0

/-- Two lower-case hexadecimal digits. -/
def hexByte (b : UInt8) : String :=
  String.ofList [Nat.digitChar (b.toNat / 16), Nat.digitChar (b.toNat % 16)]

/-- The names of the flags that are set, then the bits that have none. -/
def describe (f : Flags) : String :=
  if f.isEmpty then "Flags(NONE)"
  else
    let names := (named.filter fun entry => f.contains entry.1).map (·.2)
    let known := String.intercalate " | " names
    if f.unnamed == 0 then "Flags(" ++ known ++ ")"
    else "Flags(" ++ known ++ " | 0x" ++ hexByte f.unnamed ++ ")"

@[simp] theorem contains_self (f : Flags) : f.contains f = true := by
  simp [contains]

@[simp] theorem isEmpty_iff (f : Flags) : f.isEmpty = true ↔ f = none := by
  cases f; simp [isEmpty, none]

end Flags
end Stripe
