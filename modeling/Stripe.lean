import Stripe.Reader.Session
import Stripe.Writer.Session
import Stripe.Transfer
import Stripe.Checksum
import Stripe.Cancellation
import Stripe.Main
import Stripe.Proofs.Checksum.Passing
import Stripe.Proofs.Priority
import Stripe.Proofs.Reader.Completion
import Stripe.Proofs.Reader.Session
import Stripe.Proofs.Reader.Agreement
import Stripe.Proofs.Reader.Waiting
import Stripe.Proofs.Reader.Frozen
import Stripe.Proofs.Decoding
import Stripe.Proofs.Handing
import Stripe.Proofs.Ledger
import Stripe.Proofs.Link.Transfer
import Stripe.Proofs.Link.Passage
import Stripe.Proofs.Link.Plan
import Stripe.Proofs.Link.Progress
import Stripe.Proofs.Link.RoundTrip
import Stripe.Proofs.Link.Unfinished
import Stripe.Proofs.Rendezvous
import Stripe.Proofs.Transmission.Counters
import Stripe.Proofs.Transmission.Failures
import Stripe.Proofs.Transmission.Growth
import Stripe.Proofs.Transmission.Placements
import Stripe.Proofs.Writer.Blame
import Stripe.Proofs.Writer.Closing
import Stripe.Proofs.Writer.Counting
import Stripe.Proofs.Writer.Cutting
import Stripe.Proofs.Writer.Finished
import Stripe.Proofs.Writer.Halt
import Stripe.Proofs.Writer.Session
import Stripe.Proofs.Writer.Truncation
