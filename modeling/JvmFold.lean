import JvmFold.ClassFile.Builder
import JvmFold.Fold.Run
import JvmFold.Proofs.Analysis.Balance
import JvmFold.Proofs.Analysis.Overlap
import JvmFold.Proofs.Analysis.Recorded
import JvmFold.Proofs.Body.Weaving
import JvmFold.Proofs.Decimal.Layout
import JvmFold.Proofs.Splice.Sound
import JvmFold.Proofs.Body.Alignment
import JvmFold.Proofs.Analysis.InitOrder
import JvmFold.Proofs.Analysis.Lowering
import JvmFold.Proofs.Body.RoundTrip
import JvmFold.Proofs.Machine.Calls
import JvmFold.Proofs.Rebuild.Fidelity
import JvmFold.Proofs.Run.Following
import JvmFold.Proofs.Run.Settling
import JvmFold.Proofs.Analysis.Identity
import JvmFold.Proofs.Analysis.Stale
import JvmFold.Proofs.Evaluation.Memo
import JvmFold.Proofs.Run.Visits
import JvmFold.Proofs.ClassFile.NormalForm
import JvmFold.Proofs.Machine.Statics
import JvmFold.Proofs.Initializer.Pruning
import JvmFold.Proofs.Run.Fixpoint
import JvmFold.Proofs.Machine.Lifecycle
import JvmFold.Proofs.Universe.Reencoding
import JvmFold.Proofs.Pool.Additions
import JvmFold.Proofs.Analysis.Blocks
import JvmFold.Proofs.Splice.FramePlaces
import JvmFold.Proofs.Evaluation.Dispatch
import JvmFold.Proofs.Machine.Lasting
import JvmFold.Proofs.Analysis.Recurrence
import JvmFold.Proofs.Universe.Ways
import JvmFold.Proofs.Pool.Spelling
import JvmFold.Proofs.Machine.Budget
import JvmFold.Proofs.Universe.Resolution
import JvmFold.Proofs.Universe.Assignable
import JvmFold.Proofs.Run.Passes
import JvmFold.Proofs.Output.AllOrNothing
import JvmFold.Proofs.Machine.Depth
import JvmFold.Proofs.Rebuild.Nesting
import JvmFold.Proofs.Run.Accounting
import JvmFold.Proofs.Machine.Closed
import JvmFold.Proofs.Rebuild.Shape
import JvmFold.Proofs.Splice.Specification
import JvmFold.Proofs.Machine.Slots
import JvmFold.Proofs.Pool.Counting
import JvmFold.Proofs.Body.Literals
import JvmFold.Proofs.Body.Parameters
import JvmFold.Proofs.Recipe.Flattening
import JvmFold.Proofs.Config.Scanning
import JvmFold.Proofs.Universe.Precedence
import JvmFold.Proofs.Machine.Canonical
import JvmFold.Proofs.Bytes.Positions
import JvmFold.Proofs.Machine.Nested
import JvmFold.Proofs.Natives.Copying
import JvmFold.Proofs.Natives.Division
import JvmFold.Proofs.Natives.Integers
import JvmFold.Proofs.Natives.Replacement
import JvmFold.Proofs.Natives.Reversal
