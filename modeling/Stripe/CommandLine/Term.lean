import Stripe.Error
import Stripe.Quoted

/-!
# Failures as terms

A program that fails at its start reports the failure as a term: the word
for the cause, then the values that belong to it by name.
-/

namespace Stripe.CommandLine

/-- A cause and the values that belong to it. -/
def term (name : String) (fields : List (String × String)) : String :=
  let written := fields.map fun field => field.1 ++ ": " ++ field.2
  name ++ " \x7b " ++ String.intercalate ", " written ++ " \x7d"

/-- The values that belong to a failure, by name. -/
def errorFields : Error → List (String × String)
  | .framing expected got | .truncatedPayload expected got =>
    [("expected", toString expected), ("got", toString got)]
  | .oversizedPayload byteCount max =>
    [("byte_count", toString byteCount), ("max", toString max)]
  | .duplicateOffset offset => [("offset", toString offset)]
  | .conflictingEodCount existing got =>
    [("existing", toString existing), ("got", toString got)]
  | .eodCountMismatch announced connections =>
    [("announced", toString announced), ("connections", toString connections)]
  | .invalidEodCount count => [("count", toString count)]
  | .overlappingSegment offset existing =>
    [("offset", toString offset), ("existing", toString existing)]
  | .offsetBelowCursor offset cursor =>
    [("offset", toString offset), ("cursor", toString cursor)]
  | .gap cursor next =>
    [("cursor", toString cursor), ("next", Error.offsetText next)]
  | .unexpectedPayload byteCount => [("byte_count", toString byteCount)]
  | .transport connection cause =>
    [("conn_id", toString connection), ("kind", cause.kind.name),
     ("message", Quoted.quote cause.message)]
  | .source cause =>
    [("kind", cause.kind.name), ("message", Quoted.quote cause.message)]
  | .bufferOverflow maxSize => [("max_size", toString maxSize)]
  | .invalidConfig _ | .cancelled | .noConnections | .writerClosed
  | .channelError => []

/-- A failure as a term. -/
def errorTerm (e : Error) : String :=
  match e, errorFields e with
  | .invalidConfig text, _ => e.name ++ "(" ++ Quoted.quote text ++ ")"
  | _, [] => e.name
  | _, fields => term e.name fields

end Stripe.CommandLine
