import ConstFold.Lowering
import ConstFold.Report

/-!
# Folding a host's tree

The whole job: lower a root, fold the calls under it, and tell the host which of its nodes to
replace by which constants.
-/

set_option autoImplicit false

namespace ConstFold

variable {ν : Type}

/-- A host node, the node that takes its place, and the constant that node stands for. -/
structure Replacement (ν : Type) where
  source : ν
  target : ν
  value : Literal
  deriving DecidableEq, Repr, Inhabited

/-- What a host is to replace, and the warnings about calls that stay. -/
structure HostReport (ν : Type) where
  replacements : List (Replacement ν)
  diagnostics : List Diagnostic
  deriving DecidableEq, Repr, Inhabited

/-- Whether the host's tree stays as it is. -/
def HostReport.isUnchanged (report : HostReport ν) : Bool := report.replacements.isEmpty

/-- The replacement of the host node behind a spliced call. -/
def Host.replacement? (host : Host ν) (lowered : Lowered ν) (splice : Splice) :
    Option (Replacement ν) :=
  (lowered.origin? splice.call).map fun source =>
    { source, target := host.literalFor splice.value source, value := splice.value }

/-- Fold the calls under a root of a host's tree. -/
def Host.fold (host : Host ν) (policy : Policy) (root : ν) : Except Fault (HostReport ν) := do
  let lowered ← host.lower policy SymbolTable.initial root
  let report ← (lowered.context policy).foldCalls lowered.root
  return {
    replacements := report.splices.filterMap (host.replacement? lowered)
    diagnostics := report.diagnostics }

end ConstFold
