import StackCode.Evaluation
import StackCode.Main
import StackCode.Proofs.Depth
import StackCode.Proofs.Push
import StackCode.Proofs.Bookkeeping
import StackCode.Proofs.Operations
import StackCode.Proofs.Tokens
import StackCode.Proofs.Fusion
import StackCode.Proofs.FailureCodes
import StackCode.Proofs.Verification
import StackCode.Proofs.Effect
import StackCode.Proofs.FusionEffect
import StackCode.Proofs.FoldingEffect
import StackCode.Proofs.Meaning
import StackCode.Proofs.Steadiness
import StackCode.Proofs.Refusal
import StackCode.Proofs.Pushes
import StackCode.Proofs.Uninterpreted
import StackCode.Proofs.Acceptance
import StackCode.Proofs.DepthRange
import StackCode.Proofs.StackPointer
import StackCode.Proofs.Checking
import StackCode.Proofs.StackCost
import StackCode.Proofs.Selector
import StackCode.Proofs.FusionBlocks
import StackCode.Proofs.Sealing
import StackCode.Proofs.ShapeText
import StackCode.Proofs.Formula
import StackCode.Proofs.AffineFolding
import StackCode.Proofs.NormalForm
import StackCode.Proofs.CallingConvention
import StackCode.Proofs.MachineZero
import StackCode.Proofs.GroundFolding
import StackCode.Proofs.References
import StackCode.Proofs.OwnRoutines
import StackCode.Proofs.NamedOperators
import StackCode.Proofs.Statistics
import StackCode.Proofs.Delimiters
import StackCode.Proofs.DisplayWidth
import StackCode.Proofs.Tables
