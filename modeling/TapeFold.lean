import TapeFold.Main
import TapeFold.Proofs.Simulation
import TapeFold.Proofs.Action
import TapeFold.Proofs.Stretch
import TapeFold.Proofs.Unchecked
import TapeFold.Proofs.Outline
import TapeFold.Proofs.Linking
import TapeFold.Proofs.Frame
import TapeFold.Proofs.Clock
import TapeFold.Proofs.Marking
import TapeFold.Proofs.Shortcut
import TapeFold.Proofs.Folding
import TapeFold.Proofs.Refinement
import TapeFold.Proofs.Runs
import TapeFold.Proofs.Unobservable
import TapeFold.Proofs.Compiled
import TapeFold.Proofs.Equivalence
import TapeFold.Proofs.Cost
import TapeFold.Proofs.Nesting
import TapeFold.Proofs.Brackets
import TapeFold.Proofs.WellFormed
import TapeFold.Proofs.Orderly
import TapeFold.Proofs.Safety
import TapeFold.Proofs.Resumption
import TapeFold.Proofs.Lockstep
import TapeFold.Proofs.Allocation
import TapeFold.Proofs.Truncation
import TapeFold.Proofs.Faults
import TapeFold.Proofs.Recompilation
import TapeFold.Proofs.Compaction
import TapeFold.Proofs.Exchange
import TapeFold.Proofs.Laziness
import TapeFold.Proofs.Streaming
import TapeFold.Proofs.Numerals
import TapeFold.Proofs.Source
import TapeFold.Proofs.Options
import TapeFold.Proofs.Reports
import TapeFold.Proofs.Invocation
import TapeFold.Proofs.Addressing
import TapeFold.Proofs.Scanning
import TapeFold.Proofs.ClosedForm
import TapeFold.Proofs.Detection
import TapeFold.Proofs.Composition
import TapeFold.Proofs.Sweeps
import TapeFold.Proofs.Refusals
import TapeFold.Proofs.Sizes
import TapeFold.Proofs.Cancellation
import TapeFold.Proofs.Documents
