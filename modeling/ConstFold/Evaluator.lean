import ConstFold.Env
import ConstFold.Library
import ConstFold.Operator
import ConstFold.Policy

/-!
# Evaluation

An expression is evaluated against an environment, bottom-up and from left to right. An evaluation
ends early in one of three ways: a `return` unwinds to the function it belongs to, a failure gives
up the constant, and a fault is misuse of the library. Binding a variable is the one place that goes
on after a failure: the variable is then forgotten, unless the failure halts the evaluation.

The rules for one node (`evalNode`) are written against an evaluator for its children, and
`evalWithin` ties the knot for a bounded nesting of nodes. `Context.maxNesting` is a bound that no
expression of an ordered arena reaches: within one function body children come before their parents,
and function bodies nest no deeper than the policy allows.
-/

set_option autoImplicit false

namespace ConstFold

/-- What an evaluation refers to and never changes. -/
structure Context where
  arena : Arena
  library : Library
  symbols : SymbolTable
  policy : Policy
  deriving DecidableEq, Repr, Inhabited

/-- How an evaluation ends early. -/
inductive Exit where
  | returned (value : Literal)
  | failed (failure : Failure)
  | crashed (fault : Fault)
  deriving DecidableEq, Repr, Inhabited

/-- What an evaluation changes: the environment and the number of function bodies being
evaluated. -/
structure Machine where
  env : Env := Env.empty
  depth : UInt32 := 0
  deriving DecidableEq, Repr, Inhabited

/-- An evaluation. An early exit keeps the changes made before it. -/
abbrev Eval := EStateM Exit Machine

/-- One function body more; the count stays at its largest value. -/
def deeper (depth : UInt32) : UInt32 :=
  if depth.toNat + 1 < UInt32.size then depth + 1 else depth

/-- One function body less; the count stays at zero. -/
def shallower (depth : UInt32) : UInt32 :=
  if 0 < depth then depth - 1 else depth

namespace Eval

/-- Give up the constant. -/
def fail {α : Type} (failure : Failure) : Eval α := throw (.failed failure)

/-- Give up because the constant cannot be known. -/
def giveUp {α : Type} (reason : Inconclusive) : Eval α := fail (.inconclusive reason)

/-- Go on with a result, or give up. -/
def ofResult {α : Type} : Except Failure α → Eval α
  | .ok value => pure value
  | .error failure => fail failure

/-- Go on with what was found in the arena, or stop on the fault. -/
def ofLookup {α : Type} : Except Fault α → Eval α
  | .ok value => pure value
  | .error fault => throw (.crashed fault)

/-- Change the environment. -/
def modifyEnv (change : Env → Env) : Eval Unit :=
  modify fun machine => { machine with env := change machine.env }

/-- Evaluate in a scope of its own, which is closed however the evaluation ends. -/
def inScope {α : Type} (body : Eval α) : Eval α := fun machine =>
  match body { machine with env := machine.env.push } with
  | .ok value machine => .ok value { machine with env := machine.env.pop }
  | .error exit machine => .error exit { machine with env := machine.env.pop }

/-- Evaluate a function body in an environment of its own. A `return` ends here, and the caller's
environment is as it was. -/
def inFrame (bindings : List (Name × Literal)) (body : Eval Literal) : Eval Literal :=
  fun machine =>
    let resume (callee : Machine) : Machine :=
      { env := machine.env, depth := shallower callee.depth }
    match body { env := Env.ofBindings bindings, depth := deeper machine.depth } with
    | .ok value callee => .ok value (resume callee)
    | .error (.returned value) callee => .ok value (resume callee)
    | .error exit callee => .error exit (resume callee)

/-- Evaluate what a variable is bound to. There is no value when the evaluation failed in a way that
does not halt it. -/
def bound (value : Eval Literal) : Eval (Option Literal) := fun machine =>
  match value machine with
  | .ok value machine => .ok (some value) machine
  | .error (.failed failure) machine =>
    if failure.halts then .error (.failed failure) machine else .ok none machine
  | .error exit machine => .error exit machine

/-- The truth value of a condition. -/
def truth (condition : Eval Literal) : Eval Bool := do
  match (← condition).asBool? with
  | some holds => return holds
  | none => giveUp .condition

/-- Run the body of a loop while its condition holds, at most `left` times more. The value is that
of the last round, or `last` if there is none. -/
def rounds (cap : UInt32) (condition body : Eval Literal) : Nat → Literal → Eval Literal
  | left, last => do
    if ← truth condition then
      match left with
      | 0 => fail (.iterationCap cap)
      | left + 1 => rounds cap condition body left (← body)
    else
      return last

end Eval

open Eval

/-- Evaluate the arms of a conditional in order: the first whose condition holds decides, and
without one the alternative does. -/
def evalArms (eval : NodeId → Eval Literal) (otherwise : Option NodeId) :
    List (Arm NodeId) → Eval Literal
  | [] =>
    match otherwise with
    | some result => eval result
    | none => return .unit
  | arm :: rest => do
    if ← truth (eval arm.condition) then eval arm.result
    else evalArms eval otherwise rest

/-- Evaluate one statement. Declarations and assignments have the unit value. -/
def evalStmt (eval : NodeId → Eval Literal) : Stmt Name NodeId → Eval Literal
  | .expr value => eval value
  | .declare name none => do
    modifyEnv (·.forget name)
    return .unit
  | .declare name (some init) => do
    match ← bound (eval init) with
    | some value => modifyEnv (·.define name value)
    | none => modifyEnv (·.forget name)
    return .unit
  | .assign name value => do
    match ← bound (eval value) with
    | some value => modifyEnv (·.assign name value)
    | none => modifyEnv (·.forget name)
    return .unit

/-- Evaluate statements in order. The value is that of the last one, or `last` if there is none. -/
def evalStmts (eval : NodeId → Eval Literal) : Literal → List (Stmt Name NodeId) → Eval Literal
  | last, [] => return last
  | _, stmt :: rest => do
    evalStmts eval (← evalStmt eval stmt) rest

namespace Context

/-- The text of a name. -/
def text (ctx : Context) (name : Name) : String := ctx.symbols.text name

/-- Evaluate the body of a function on constants, when their number and the nesting allow it. -/
def evalBody (ctx : Context) (eval : NodeId → Eval Literal) (definition : Definition)
    (args : List Literal) : Eval Literal := do
  if definition.params.length ≠ args.length then
    giveUp (.arity (ctx.text definition.name) definition.params.length args.length)
  else if ctx.policy.maxCallDepth ≤ (← get).depth then
    fail (.callDepth ctx.policy.maxCallDepth)
  else
    inFrame (definition.params.zip args) (eval definition.body)

/-- Apply a built-in operator by name. A name that is none, called without a receiver, is a function
nothing is known about. -/
def evalOperator (name : String) (receiver : Option Literal) (args : List Literal) :
    Except Failure Literal :=
  let operands := receiver.toList ++ args
  match Operator.ofName? name with
  | some op => op.apply operands
  | none =>
    if receiver.isNone then .error (.inconclusive (.ineligible name))
    else .error (.unsupported name (operands.map Literal.ty))

/-- Call a callee on constants. Without a receiver a function of the library takes precedence over
an operator of the same name. -/
def evalCall (ctx : Context) (eval : NodeId → Eval Literal) (callee : Name)
    (receiver : Option Literal) (args : List Literal) : Eval Literal :=
  let name := ctx.text callee
  match receiver, ctx.library.get? callee with
  | none, some definition =>
    if ctx.policy.isEligible name then ctx.evalBody eval definition args
    else giveUp (.ineligible name)
  | _, _ => ofResult (evalOperator name receiver args)

/-- Evaluate one layer of an expression, given an evaluator for its children. -/
def evalShape (ctx : Context) (eval : NodeId → Eval Literal) :
    Shape Name NodeId → Eval Literal
  | .literal value => return value
  | .var name => do
    match (← get).env.lookup name with
    | some value => return value
    | none => giveUp (.unbound (ctx.text name))
  | .call callee receiver args => do
    let receiver ← receiver.mapM eval
    let args ← args.mapM eval
    ctx.evalCall eval callee receiver args
  | .conditional arms otherwise => evalArms eval otherwise arms
  | .loop condition body =>
    let cap := ctx.policy.iterationCap
    rounds cap (eval condition) (eval body) cap.toNat .unit
  | .block stmts => inScope (evalStmts eval .unit stmts)
  | .ret value => do throw (.returned (← eval value))
  | .foreign _ => giveUp .foreign

/-- Evaluate one node, given an evaluator for its children. -/
def evalNode (ctx : Context) (eval : NodeId → Eval Literal) (id : NodeId) : Eval Literal := do
  ctx.evalShape eval (← ofLookup (ctx.arena.shape id))

/-- Evaluate a node with at most `nesting` nodes nested within each other. -/
def evalWithin (ctx : Context) : Nat → NodeId → Eval Literal
  | 0, _ => throw (.crashed .unfinished)
  | nesting + 1, id => ctx.evalNode (ctx.evalWithin nesting) id

/-- How many nodes may be nested within each other during an evaluation. An ordered arena needs at
most its size for every function body, and there is room for arenas whose references run forward. -/
def maxNesting (ctx : Context) : Nat :=
  (ctx.policy.maxCallDepth.toNat + 1) * (ctx.arena.size + 1) + UInt32.size

/-- Evaluate a node. -/
def eval (ctx : Context) (id : NodeId) : Eval Literal :=
  ctx.evalWithin ctx.maxNesting id

end Context

end ConstFold
