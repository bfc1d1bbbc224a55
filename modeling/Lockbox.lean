import Lockbox.Main
import Lockbox.Proofs.AllAtOnce
import Lockbox.Proofs.Allowance
import Lockbox.Proofs.Atomicity
import Lockbox.Proofs.Attempts
import Lockbox.Proofs.Binding
import Lockbox.Proofs.Bookkeeping
import Lockbox.Proofs.Delivery
import Lockbox.Proofs.Directories
import Lockbox.Proofs.Ending
import Lockbox.Proofs.Extraction
import Lockbox.Proofs.FailStop
import Lockbox.Proofs.Failures
import Lockbox.Proofs.FileRoundTrip
import Lockbox.Proofs.FileWork
import Lockbox.Proofs.Forward
import Lockbox.Proofs.Framing
import Lockbox.Proofs.Grammar
import Lockbox.Proofs.Labels
import Lockbox.Proofs.Leniency
import Lockbox.Proofs.Listing
import Lockbox.Proofs.Naming
import Lockbox.Proofs.Nonces
import Lockbox.Proofs.Pace
import Lockbox.Proofs.Passing
import Lockbox.Proofs.Places
import Lockbox.Proofs.Questions
import Lockbox.Proofs.Recovery
import Lockbox.Proofs.Rejected
import Lockbox.Proofs.RoundTrip
import Lockbox.Proofs.Sizes
import Lockbox.Proofs.Sources
import Lockbox.Proofs.StepByStep
import Lockbox.Proofs.Tampering
import Lockbox.Proofs.Truncation
import Lockbox.Proofs.WrittenHead
