import ConstFold.Evaluator
import ConstFold.Host

/-!
# Lowering a host's tree into an arena

The tree under a root is lowered children first, so that every node comes after its children, and so
are the bodies of the eligible functions it calls, directly or through others. A function is asked
for once, by the name of a call without a receiver, and the functions still to be asked for are
taken newest first.
-/

set_option autoImplicit false

namespace ConstFold

variable {ν : Type}

/-- The state of lowering: what has been built, the host node behind every arena node, the names of
the functions met so far, those still to be asked for with their texts, and the texts already asked
for. -/
structure Lowering (ν : Type) where
  symbols : SymbolTable
  arena : Arena := {}
  library : Library := {}
  origins : Array ν := #[]
  requested : List Name := []
  pending : List (Name × String) := []
  asked : Array String := #[]

/-- Put an eligible function on the list of those to ask for, unless it was put there before. -/
def Lowering.request (policy : Policy) (name : Name) (text : String) (state : Lowering ν) :
    Lowering ν :=
  if policy.isEligible text && !state.requested.contains name then
    { state with requested := name :: state.requested, pending := (name, text) :: state.pending }
  else
    state

/-- A step of lowering. -/
abbrev Lower (ν : Type) := EStateM Fault (Lowering ν)

/-- A root and the functions it can reach, lowered. -/
structure Lowered (ν : Type) where
  symbols : SymbolTable
  arena : Arena
  library : Library
  root : NodeId
  origins : Array ν
  asked : Array String
  deriving DecidableEq, Repr

/-- The host node an arena node was lowered from. -/
def Lowered.origin? (lowered : Lowered ν) (id : NodeId) : Option ν :=
  lowered.origins[id.index]?

/-- The context for evaluating what was lowered. -/
def Lowered.context (lowered : Lowered ν) (policy : Policy) : Context where
  arena := lowered.arena
  library := lowered.library
  symbols := lowered.symbols
  policy := policy

namespace Lower

/-- The name of a text. -/
def intern (text : String) : Lower ν Name := do
  match (← get).symbols.intern text with
  | .ok (name, symbols) =>
    modify fun state => { state with symbols := symbols }
    return name
  | .error fault => throw fault

/-- Add to the arena. -/
def build {α : Type} (addition : Build α) : Lower ν α := fun state =>
  match addition state.arena with
  | .ok value arena => .ok value { state with arena := arena }
  | .error fault arena => .error fault { state with arena := arena }

/-- The name of a text in a layer. The callee of a call without a receiver is requested. -/
def nameIn (policy : Policy) (view : Shape String ν) (text : String) : Lower ν Name := do
  let name ← intern text
  if view.freeCallee?.isSome then
    modify (·.request policy name text)
  return name

/-- Lower one node, given the lowering of its children. -/
def node (host : Host ν) (policy : Policy) (lower : ν → Lower ν NodeId) (node : ν) :
    Lower ν NodeId := do
  let view := host.view node
  let shape ← view.traverse (nameIn policy view) lower
  let id ← build (Arena.add shape (host.span node))
  modify fun state => { state with origins := state.origins.push node }
  return id

/-- Lower a tree with at most `nesting` nodes nested within each other. -/
def within (host : Host ν) (policy : Policy) : Nat → ν → Lower ν NodeId
  | 0, _ => throw .unfinished
  | nesting + 1, node => Lower.node host policy (within host policy nesting) node

/-- Lower the tree under a node. -/
def tree (host : Host ν) (policy : Policy) (node : ν) : Lower ν NodeId :=
  within host policy (host.height node + 1) node

/-- Lower a function and define it under a name. -/
def function (host : Host ν) (policy : Policy) (name : Name) (found : HostFunction ν) :
    Lower ν Unit := do
  let params ← found.params.mapM intern
  let body ← tree host policy found.body
  let definition : Definition := { name, params, body, span := host.span found.body }
  modify fun state => { state with library := state.library.define definition }

/-- Ask for the newest of the names still to be asked for, and lower its function if it has one.
Tells whether there was a name. -/
def askNext (host : Host ν) (policy : Policy) : Lower ν Bool := do
  match (← get).pending with
  | [] => return false
  | (name, text) :: rest =>
    modify fun state => { state with pending := rest, asked := state.asked.push text }
    if let some found := host.function text then
      function host policy name found
    return true

end Lower

/-- Ask for one name after the other until none is left. There is no end to it if the functions go
on calling new ones. -/
def Lowering.drain (host : Host ν) (policy : Policy) (state : Lowering ν) :
    Option (EStateM.Result Fault (Lowering ν) Unit) :=
  match Lower.askNext host policy state with
  | .ok true state => state |>.drain host policy
  | .ok false state => some (.ok () state)
  | .error fault state => some (.error fault state)
partial_fixpoint

namespace Lower

/-- Lower the functions still to be asked for. -/
def functions (host : Host ν) (policy : Policy) : Lower ν Unit := fun state =>
  (state.drain host policy).getD (.error .unfinished state)

/-- Lower a root and the functions it can reach. -/
def program (host : Host ν) (policy : Policy) (root : ν) : Lower ν NodeId := do
  let id ← tree host policy root
  functions host policy
  return id

end Lower

/-- Lower a root and the functions it can reach, with names from a given symbol table. -/
def Host.lower (host : Host ν) (policy : Policy) (symbols : SymbolTable) (root : ν) :
    Except Fault (Lowered ν) :=
  match Lower.program host policy root { symbols := symbols } with
  | .ok id state =>
    .ok {
      symbols := state.symbols
      arena := state.arena
      library := state.library
      root := id
      origins := state.origins
      asked := state.asked }
  | .error fault _ => .error fault

end ConstFold
