import ConstFold.Arena
import ConstFold.Failure

/-!
# Call sites

A call site records what became of one call that was considered for folding: the constant it folded
to, or the failure that stopped it.
-/

set_option autoImplicit false

namespace ConstFold

/-- The record of one call. -/
structure CallSite where
  node : NodeId
  callee : Name
  stage : Stage := .candidate
  value : Option Literal := none
  cause : Option Failure := none
  deriving DecidableEq, Repr, Inhabited

namespace CallSite

/-- Step to the next stage, if it can follow. -/
def advance (site : CallSite) (next : Stage) : Except Fault CallSite :=
  if site.stage.canAdvanceTo next then .ok { site with stage := next }
  else .error (.invalidTransition site.stage next)

/-- End as folded to a constant. -/
def fold (site : CallSite) (value : Literal) : Except Fault CallSite :=
  return { ← site.advance .folded with value := some value }

/-- End as left unfolded, with the failure that was the cause if there was one. -/
def leaveUnfolded (site : CallSite) (cause : Option Failure) : Except Fault CallSite :=
  return { ← site.advance .leftUnfolded with cause := cause }

end CallSite

end ConstFold
