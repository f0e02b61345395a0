/-!
# Addresses of connections

An address is a host and the number of a service there. Hosts of the
fourth version are four decimal numbers; hosts of the sixth version are
eight groups of sixteen bits, of which one run of zero groups may be left
out, and stand in brackets, with a scope if they have one. `Address.parse`
reads an address and `Address.text` writes one, in its shortest form.
-/

namespace Stripe

inductive Host where
  /-- Four numbers below 256. -/
  | v4 (a b c d : Nat)
  /-- Eight numbers below 65536, and a scope. -/
  | v6 (groups : List Nat) (scope : Nat)
deriving DecidableEq

structure Address where
  host : Host
  service : Nat
deriving DecidableEq

namespace Address

/-! ## Reading -/

/-- Reads from the front of a text; nothing is read if it fails. -/
abbrev Rule (α : Type) := List Char → Option (α × List Char)

def digit? (radix : Nat) (c : Char) : Option Nat :=
  let value :=
    if '0' ≤ c && c ≤ '9' then c.toNat - '0'.toNat
    else if 'a' ≤ c && c ≤ 'z' then c.toNat - 'a'.toNat + 10
    else if 'A' ≤ c && c ≤ 'Z' then c.toNat - 'A'.toNat + 10
    else radix
  if value < radix then some value else none

/-- The digits at the front of a text, and the text behind them. -/
def digits (radix : Nat) : List Char → List Nat × List Char
  | [] => ([], [])
  | c :: cs =>
    match digit? radix c with
    | none => ([], c :: cs)
    | some d =>
      let (ds, rest) := digits radix cs
      (d :: ds, rest)

/-- How a number is written: its radix, the most digits it may have, if
there is a limit, whether it may begin with a zero that is not its only
digit, and the number below which it lies. -/
structure Numeral where
  radix : Nat
  maxDigits : Option Nat
  leadingZero : Bool
  limit : Nat

/-- A part of a host of the fourth version. -/
def octet : Numeral := ⟨10, some 3, false, UInt8.size⟩

/-- A group of a host of the sixth version. -/
def group : Numeral := ⟨16, some 4, true, UInt16.size⟩

def serviceNumeral : Numeral := ⟨10, none, true, UInt16.size⟩

def scopeNumeral : Numeral := ⟨10, none, true, UInt32.size⟩

def number (n : Numeral) : Rule Nat := fun cs =>
  let (ds, rest) := digits n.radix cs
  let value := ds.foldl (fun acc d => acc * n.radix + d) 0
  let tooLong := n.maxDigits.any fun limit => limit < ds.length
  let padded := !n.leadingZero && ds.head? == some 0 && 1 < ds.length
  if ds.isEmpty || tooLong || padded || n.limit ≤ value then none
  else some (value, rest)

def char (c : Char) : Rule Unit
  | d :: cs => if c = d then some ((), cs) else none
  | [] => none

/-- What follows a separator. -/
def after {α : Type} (separator : Char) (rule : Rule α) : Rule α := fun cs => do
  let (_, cs) ← char separator cs
  rule cs

def hostV4 : Rule (Nat × Nat × Nat × Nat) := fun cs => do
  let (a, cs) ← number octet cs
  let (b, cs) ← after '.' (number octet) cs
  let (c, cs) ← after '.' (number octet) cs
  let (d, cs) ← after '.' (number octet) cs
  return ((a, b, c, d), cs)

/-- Groups of a host of the sixth version, at most so many, and whether the
last two were written as a host of the fourth version. Between groups
stands a colon. -/
def groups : (limit : Nat) → (first : Bool) → List Char →
    List Nat × Bool × List Char
  | 0, _, cs => ([], false, cs)
  | limit + 1, first, cs =>
    let apart {α : Type} (rule : Rule α) : Rule α :=
      if first then rule else after ':' rule
    let embedded := if limit = 0 then none else apart hostV4 cs
    match embedded with
    | some ((a, b, c, d), cs) => ([a * 256 + b, c * 256 + d], true, cs)
    | none =>
      match apart (number group) cs with
      | none => ([], false, cs)
      | some (g, cs) =>
        let (gs, ended, cs) := groups limit false cs
        (g :: gs, ended, cs)

def hostV6 : Rule (List Nat) := fun cs =>
  let (head, ended, cs) := groups 8 true cs
  if head.length = 8 then some (head, cs)
  else if ended then none
  else do
    let (_, cs) ← char ':' cs
    let (_, cs) ← char ':' cs
    let (tail, _, cs) := groups (7 - head.length) true cs
    let zeros := List.replicate (8 - head.length - tail.length) 0
    return (head ++ zeros ++ tail, cs)

def serviceRule : Rule Nat := after ':' (number serviceNumeral)

def addressV4 : Rule Address := fun cs => do
  let ((a, b, c, d), cs) ← hostV4 cs
  let (service, cs) ← serviceRule cs
  return (⟨.v4 a b c d, service⟩, cs)

def addressV6 : Rule Address := fun cs => do
  let (_, cs) ← char '[' cs
  let (gs, cs) ← hostV6 cs
  let (scope, cs) := (after '%' (number scopeNumeral) cs).getD (0, cs)
  let (_, cs) ← char ']' cs
  let (service, cs) ← serviceRule cs
  return (⟨.v6 gs scope, service⟩, cs)

/-- Reads a whole text as an address. -/
def parse (s : String) : Option Address :=
  match (addressV4 s.toList).or (addressV6 s.toList) with
  | some (address, []) => some address
  | _ => none

/-! ## Writing -/

def textV4 (a b c d : Nat) : String := s!"{a}.{b}.{c}.{d}"

/-- A group, in base sixteen and without leading zeros. -/
def groupText (g : Nat) : String := String.ofList (Nat.toDigits 16 g)

def groupsText (gs : List Nat) : String :=
  String.intercalate ":" (gs.map groupText)

/-- How many zero groups stand at the front. -/
def zerosAhead (gs : List Nat) : Nat := (gs.takeWhile (· = 0)).length

/-- The first of the longest runs of zero groups: where it starts and how
long it is, if `start` groups were passed. -/
def longestZeros : (start : Nat) → List Nat → Nat × Nat
  | start, [] => (start, 0)
  | start, g :: gs =>
    let here := zerosAhead (g :: gs)
    let later := longestZeros (start + 1) gs
    if here < later.2 then later else (start, here)

/-- The longest run of zero groups is left out, if it is longer than one
group. A host that stands for one of the fourth version ends like it. -/
def textV6 (gs : List Nat) : String :=
  match gs with
  | [0, 0, 0, 0, 0, 65535, ab, cd] =>
    "::ffff:" ++ textV4 (ab / 256) (ab % 256) (cd / 256) (cd % 256)
  | _ =>
    let (start, count) := longestZeros 0 gs
    if 1 < count then
      groupsText (gs.take start) ++ "::" ++ groupsText (gs.drop (start + count))
    else groupsText gs

def text (a : Address) : String :=
  match a.host with
  | .v4 w x y z => textV4 w x y z ++ ":" ++ toString a.service
  | .v6 gs 0 => "[" ++ textV6 gs ++ "]:" ++ toString a.service
  | .v6 gs scope =>
    "[" ++ textV6 gs ++ "%" ++ toString scope ++ "]:" ++ toString a.service

end Address
end Stripe
