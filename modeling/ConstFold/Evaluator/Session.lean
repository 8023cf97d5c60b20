import ConstFold.Evaluator

/-!
# Evaluation sessions

The requests that can be made of an evaluator, and sequences of them against one machine. At this
boundary a `return` is an ordinary value and a failure is an answer; only a fault ends a session.
-/

set_option autoImplicit false

namespace ConstFold

/-- What an attempt to evaluate comes to. -/
abbrev Outcome := Except Failure Literal

/-- An attempt that a fault may end. -/
abbrev Attempt := EStateM Fault Machine

/-- The result of folding a node: the constant it reduces to, or the node that stays. -/
inductive Reduction where
  | reduced (value : Literal)
  | unevaluated (node : NodeId)
  deriving DecidableEq, Repr, Inhabited

/-- Whether a node was reduced. -/
def Reduction.isReduced : Reduction → Bool
  | .reduced _ => true
  | .unevaluated _ => false

/-- The constant a node was reduced to. -/
def Reduction.literal? : Reduction → Option Literal
  | .reduced value => some value
  | .unevaluated _ => none

/-- What an outcome means for a node: a failure leaves it as it is. -/
def Reduction.ofOutcome (node : NodeId) : Outcome → Reduction
  | .ok value => .reduced value
  | .error _ => .unevaluated node

/-- Run an evaluation up to the boundary of a function. -/
def Eval.settle (evaluation : Eval Literal) : Attempt Outcome := fun machine =>
  match evaluation machine with
  | .ok value machine => .ok (.ok value) machine
  | .error (.returned value) machine => .ok (.ok value) machine
  | .error (.failed failure) machine => .ok (.error failure) machine
  | .error (.crashed fault) machine => .error fault machine

namespace Context

/-- Evaluate a node in the machine's environment. -/
def reduce (ctx : Context) (id : NodeId) : Attempt Outcome :=
  (ctx.eval id).settle

/-- Evaluate the body of a function on constants, in an environment of its own. -/
def applyDefinition (ctx : Context) (definition : Definition) (args : List Literal) :
    Attempt Outcome :=
  (ctx.evalBody ctx.eval definition args).settle

/-- Call a callee on constants. -/
def call (ctx : Context) (callee : Name) (receiver : Option Literal) (args : List Literal) :
    Attempt Outcome :=
  (ctx.evalCall ctx.eval callee receiver args).settle

end Context

/-- A request to an evaluator. -/
inductive Request where
  | env (step : Env.Step)
  | renewEnv (bindings : List (Name × Literal))
  | lookup (name : Name)
  | fold (node : NodeId)
  | reduce (node : NodeId)
  | foldDefinition (definition : Definition) (args : List Literal)
  | applyDefinition (definition : Definition) (args : List Literal)
  | call (callee : Name) (receiver : Option Literal) (args : List Literal)
  | iterationCap
  deriving DecidableEq, Repr

/-- The answer to a request. -/
inductive Reply where
  | done
  | binding (value : Option Literal)
  | reduction (result : Reduction)
  | outcome (result : Outcome)
  | cap (value : UInt32)
  deriving Repr

namespace Context

/-- Answer one request. -/
def answer (ctx : Context) : Request → Attempt Reply
  | .env step => do
    modify fun machine => { machine with env := machine.env.step step }
    return .done
  | .renewEnv bindings => do
    modify fun machine => { machine with env := Env.ofBindings bindings }
    return .done
  | .lookup name => return .binding ((← get).env.lookup name)
  | .fold node => return .reduction (.ofOutcome node (← ctx.reduce node))
  | .reduce node => return .outcome (← ctx.reduce node)
  | .foldDefinition definition args =>
    return .reduction (.ofOutcome definition.body (← ctx.applyDefinition definition args))
  | .applyDefinition definition args => return .outcome (← ctx.applyDefinition definition args)
  | .call callee receiver args => return .outcome (← ctx.call callee receiver args)
  | .iterationCap => return .cap ctx.policy.iterationCap

/-- Answer requests in order on one machine. Every answer comes with the environment it leaves; a
fault is the last answer. -/
def serve (ctx : Context) : Machine → List Request → List (Except Fault Reply × Env)
  | _, [] => []
  | machine, request :: rest =>
    match ctx.answer request machine with
    | .ok reply machine => (.ok reply, machine.env) :: ctx.serve machine rest
    | .error fault machine => [(.error fault, machine.env)]

end Context

end ConstFold
