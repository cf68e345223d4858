import Inversion.Instruction.Form
import Inversion.Assembly.Printer
import Inversion.Assembly.Parser
import Inversion.Rule.Library
import Inversion.Document
import Inversion.Patching.Form
import Inversion.Evaluation
import Inversion.Gravity.Dispatch
import Inversion.Hook.Manager
import Inversion.Cursor.Editing
import Inversion.CommandLine.Directory
import Inversion.Main
import Inversion.Proofs.Exchange
import Inversion.Proofs.Window
import Inversion.Proofs.Pass
import Inversion.Proofs.Soundness
import Inversion.Proofs.Capture
import Inversion.Proofs.Frame
import Inversion.Proofs.Output
import Inversion.Proofs.Resumption
import Inversion.Proofs.Recipe
import Inversion.Proofs.Visit
import Inversion.Proofs.Greedy
import Inversion.Proofs.Packing
import Inversion.Proofs.Stepping
import Inversion.Proofs.Filling
import Inversion.Proofs.Batch
import Inversion.Proofs.Relabelling
import Inversion.Proofs.Mirror
import Inversion.Proofs.Negation
import Inversion.Proofs.Budget
import Inversion.Proofs.Branching
import Inversion.Proofs.Splitting
import Inversion.Proofs.Cursor.Session
import Inversion.Proofs.Cursor.Idle
import Inversion.Proofs.Cursor.Removal
import Inversion.Proofs.Arithmetic.Patch
import Inversion.Proofs.Arithmetic.Neutrality
import Inversion.Proofs.Arithmetic.Coverage
import Inversion.Proofs.Hook.Activation
import Inversion.Proofs.Hook.Lifecycle
import Inversion.Proofs.Hook.Rollback
import Inversion.Proofs.Gravity.Callback
import Inversion.Proofs.Gravity.Round
import Inversion.Proofs.Gravity.Bound
import Inversion.Proofs.Gravity.Delivery
import Inversion.Proofs.Gravity.Replay
import Inversion.Proofs.Gravity.Subscription
import Inversion.Proofs.Assembly.Strictness
import Inversion.Proofs.Assembly.RoundTrip
import Inversion.Proofs.Document.Compilation
import Inversion.Proofs.Document.RoundTrip
