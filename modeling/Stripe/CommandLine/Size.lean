import Stripe.Error

/-!
# Sizes on a command line

A size is written in decimal digits, with or without a plus sign, and is
at most `maxCount`. The first character that makes a text no size decides
why it is none.
-/

namespace Stripe.CommandLine

/-- Why a text is not a size. -/
inductive SizeError where
  | empty
  | invalidDigit
  | overflow
deriving DecidableEq

/-- The size that digits add to `value`. -/
def sizeFrom (value : Nat) : List Char → Except SizeError Nat
  | [] => .ok value
  | c :: cs =>
    if !c.isDigit then .error .invalidDigit
    else
      let value := value * 10 + (c.toNat - '0'.toNat)
      if maxCount < value then .error .overflow else sizeFrom value cs

/-- Reads a size. -/
def size (s : String) : Except SizeError Nat :=
  match s.toList with
  | [] => .error .empty
  | ['+'] => .error .invalidDigit
  | '+' :: cs => sizeFrom 0 cs
  | cs => sizeFrom 0 cs

end Stripe.CommandLine
