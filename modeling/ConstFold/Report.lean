import ConstFold.CallSite
import ConstFold.Diagnostic.Queue
import ConstFold.Evaluator.Session

/-!
# Folding the calls under a node

Every call under a root is met after its operands. A call is a candidate when it calls an eligible
function of the library without a receiver, or when its callee names a comparison. A candidate whose
operands are all constants is called; if a constant other than unit comes back, the call is spliced,
which makes the splices within it obsolete. Calls that failed with a reportable failure are warned
about if the policy asks for it.
-/

set_option autoImplicit false

namespace ConstFold

/-- A call and the constant that takes its place. -/
structure Splice where
  call : NodeId
  value : Literal
  deriving DecidableEq, Repr, Inhabited

/-- What became of the calls under a root: the sites in the order of their completion, the outermost
folded calls, and the warnings. -/
structure Report where
  sites : List CallSite
  splices : List Splice
  diagnostics : List Diagnostic
  deriving DecidableEq, Repr, Inhabited

namespace Report

/-- The first site of a node. -/
def site? (report : Report) (node : NodeId) : Option CallSite :=
  report.sites.find? fun site => site.node = node

/-- How many sites were folded. -/
def foldedCount (report : Report) : Nat :=
  report.sites.countP fun site => site.stage = .folded

/-- Whether the program stays as it is. -/
def isUnchanged (report : Report) : Bool := report.splices.isEmpty

end Report

/-- The state of a walk over the nodes under a root. -/
structure Walk where
  sites : Array CallSite := #[]
  splices : Array Splice := #[]
  queue : Queue := Queue.empty
  machine : Machine := {}
  deriving DecidableEq, Repr, Inhabited

/-- A step of a walk. -/
abbrev Walking := EStateM Fault Walk

namespace Walking

/-- Go on with a result, or stop on the fault. -/
def ofResult {α : Type} : Except Fault α → Walking α
  | .ok value => pure value
  | .error fault => throw fault

/-- Make a request of the evaluator. -/
def attempt {α : Type} (request : Attempt α) : Walking α := fun walk =>
  match request walk.machine with
  | .ok value machine => .ok value { walk with machine := machine }
  | .error fault machine => .error fault { walk with machine := machine }

/-- Record a finished site. -/
def record (site : CallSite) : Walking Unit :=
  modify fun walk => { walk with sites := walk.sites.push site }

/-- Record a splice in place of those recorded since `mark`. -/
def splice (mark : Nat) (splice : Splice) : Walking Unit :=
  modify fun walk => { walk with splices := (walk.splices.take mark).push splice }

/-- Offer a diagnostic to the queue. -/
def warn (diagnostic : Diagnostic) : Walking Unit :=
  modify fun walk => { walk with queue := (walk.queue.add diagnostic).2 }

end Walking

open Walking

/-- The operands of a call, when each of them is a constant. -/
def operands? (receiver : Option (Option Literal)) (args : List (Option Literal)) :
    Option (Option Literal × List Literal) := do
  let receiver ← receiver.mapM id
  let args ← args.mapM id
  return (receiver, args)

namespace Context

/-- Whether a call is considered for folding. -/
def isCandidate (ctx : Context) (callee : Name) (hasReceiver : Bool) : Bool :=
  let name := ctx.text callee
  (!hasReceiver && ctx.library.contains callee && ctx.policy.isEligible name) ||
    (Operator.ofName? name).any Operator.isComparison

/-- The warning about a call that failed. -/
def fallbackWarning (ctx : Context) (callee : Name) (failure : Failure) (code : Code)
    (span : Span) : Diagnostic where
  code := code
  message := s!"call to `{ctx.text callee}` was left unfolded: {failure.message}"
  span := span
  notes := [code.description, "the call is compiled unchanged and evaluated at runtime"]

/-- Warn about a call that failed, if the policy asks for it and the failure is a reportable one. -/
def reportFallback (ctx : Context) (node : NodeId) (callee : Name) (failure : Failure) :
    Walking Unit := do
  if ctx.policy.fallback.emitsWarnings then
    if let some code := failure.code? then
      let span ← ofResult (ctx.arena.span node)
      warn (ctx.fallbackWarning callee failure code span)

/-- Fold a candidate whose operands have been walked. Gives the constant it folded to. -/
def foldCandidate (ctx : Context) (mark : Nat) (node : NodeId) (callee : Name)
    (operands : Option (Option Literal × List Literal)) : Walking (Option Literal) := do
  let site ← ofResult (CallSite.advance { node, callee } .argsEvaluated)
  match operands with
  | none =>
    record (← ofResult (site.leaveUnfolded none))
    return none
  | some (receiver, args) =>
    let site ← ofResult (site.advance .readyToFold)
    match ← attempt (ctx.call callee receiver args) with
    | .ok value =>
      if value.isSpliceable then
        splice mark { call := node, value }
        record (← ofResult (site.fold value))
        return some value
      else
        record (← ofResult (site.leaveUnfolded none))
        return none
    | .error failure =>
      ctx.reportFallback node callee failure
      record (← ofResult (site.leaveUnfolded (some failure)))
      return none

/-- Walk one layer of an expression, given a walk for its children. Gives the constant of a literal
or of a folded call. -/
def walkShape (ctx : Context) (walk : NodeId → Walking (Option Literal)) (node : NodeId) :
    Shape Name NodeId → Walking (Option Literal)
  | .literal value => return some value
  | .call callee receiver args => do
    let mark := (← get).splices.size
    let receiverValue ← receiver.mapM walk
    let argValues ← args.mapM walk
    if ctx.isCandidate callee receiver.isSome then
      ctx.foldCandidate mark node callee (operands? receiverValue argValues)
    else
      return none
  | shape => do
    shape.children.forM fun child => discard (walk child)
    return none

/-- Walk one node, given a walk for its children. -/
def walkNode (ctx : Context) (walk : NodeId → Walking (Option Literal)) (node : NodeId) :
    Walking (Option Literal) := do
  ctx.walkShape walk node (← ofResult (ctx.arena.shape node))

/-- Walk a node with at most `nesting` nodes nested within each other. -/
def walkWithin (ctx : Context) : Nat → NodeId → Walking (Option Literal)
  | 0, _ => throw .unfinished
  | nesting + 1, node => ctx.walkNode (ctx.walkWithin nesting) node

/-- Fold the calls under a root. Nodes that nest deeper than the arena is large lie on a cycle, and
there is no end to them. -/
def foldCalls (ctx : Context) (root : NodeId) : Except Fault Report :=
  match ctx.walkWithin (ctx.arena.size + 1) root {} with
  | .ok _ walk =>
    .ok {
      sites := walk.sites.toList
      splices := walk.splices.toList
      diagnostics := walk.queue.flush.1 }
  | .error fault _ => .error fault

end Context

end ConstFold
