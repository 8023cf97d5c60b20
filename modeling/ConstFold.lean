import ConstFold.Host.Listing
import ConstFold.Proofs.Allocation
import ConstFold.Proofs.Bindings
import ConstFold.Proofs.CallSites
import ConstFold.Proofs.Closure
import ConstFold.Proofs.Equivariance
import ConstFold.Proofs.Exits
import ConstFold.Proofs.Frame
import ConstFold.Proofs.Interning
import ConstFold.Proofs.Knowledge
import ConstFold.Proofs.Limits
import ConstFold.Proofs.OperatorTable
import ConstFold.Proofs.Precedence
import ConstFold.Proofs.Queueing
import ConstFold.Proofs.ReadBack
import ConstFold.Proofs.Refolding
import ConstFold.Proofs.Renaming
import ConstFold.Proofs.Replacements
import ConstFold.Proofs.Reporting
import ConstFold.Proofs.Sessions
import ConstFold.Proofs.SharedNames
import ConstFold.Proofs.Termination
import ConstFold.Proofs.TextOrder
import ConstFold.Proofs.Visibility
import ConstFold.Proofs.Warnings
import ConstFold.Replacement
import ConstFold.Symbol.Pool
