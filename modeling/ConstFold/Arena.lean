import ConstFold.Shape
import ConstFold.Span
import ConstFold.Symbol

/-!
# Expression arenas

An arena stores expressions as numbered nodes that never change. The argument lists, statements and
arms of all nodes lie end to end in three side tables, and a node refers to its own by a range.
Additions only ever append, and an addition that fails may leave entries behind to which nothing
refers. Child references are not checked when a node is added; following one that leads nowhere is a
fault.
-/

set_option autoImplicit false

namespace ConstFold

/-- The number of a node in an arena. -/
structure NodeId where
  index : Nat
  deriving DecidableEq, Repr, Inhabited

/-- The written form of a node number. -/
def NodeId.render (id : NodeId) : String :=
  s!"ExprId({id.index})"

/-- A stretch of a side table with entries of type `α`. -/
structure Range (α : Type) where
  start : Nat
  length : Nat
  deriving DecidableEq, Repr

namespace Range

variable {α : Type}

/-- The range without entries at the start of a table. -/
def empty : Range α := ⟨0, 0⟩

instance : Inhabited (Range α) := ⟨empty⟩

/-- Whether a range has no entries. -/
def isEmpty (range : Range α) : Bool := range.length == 0

/-- The entries of a table that a range covers, when it lies inside the table. -/
def read (range : Range α) (table : Array α) : Except Fault (List α) :=
  if range.start + range.length ≤ table.size then
    .ok (table.extract range.start (range.start + range.length)).toList
  else
    .error .outOfBounds

end Range

/-- A kind of side-table entry: the word for its entries in messages and the name of its ranges. -/
class Entry (α : Type) where
  plural : String
  rangeName : String

instance : Entry NodeId where
  plural := "arguments"
  rangeName := "ExprRange"

instance : Entry (Stmt Name NodeId) where
  plural := "statements"
  rangeName := "StmtRange"

instance : Entry (Arm NodeId) where
  plural := "branches"
  rangeName := "BranchRange"

/-- The written form of a range. -/
def Range.render {α : Type} [Entry α] (range : Range α) : String :=
  s!"{Entry.rangeName α}({range.start}..+{range.length})"

/-- A node as it is stored, with ranges in place of lists. -/
inductive Node where
  | literal (value : Literal)
  | var (name : Name)
  | call (callee : Name) (receiver : Option NodeId) (args : Range NodeId)
  | conditional (arms : Range (Arm NodeId)) (otherwise : Option NodeId)
  | loop (condition body : NodeId)
  | block (stmts : Range (Stmt Name NodeId))
  | ret (value : NodeId)
  | foreign (children : Range NodeId)
  deriving DecidableEq, Repr

instance : Inhabited Node := ⟨.literal .unit⟩

/-- Where the side-table entries of a node start, when it has a range. -/
def Node.listStart? : Node → Option Nat
  | .call _ _ args => some args.start
  | .conditional arms _ => some arms.start
  | .block stmts => some stmts.start
  | .foreign children => some children.start
  | _ => none

/-- Nodes, their spans and the side tables for their lists. -/
structure Arena where
  nodes : Array Node := #[]
  spans : Array Span := #[]
  args : Array NodeId := #[]
  stmts : Array (Stmt Name NodeId) := #[]
  arms : Array (Arm NodeId) := #[]
  deriving DecidableEq, Repr, Inhabited

namespace Arena

/-- The arena without nodes. -/
def empty : Arena := {}

/-- How many nodes an arena has. -/
def size (arena : Arena) : Nat := arena.nodes.size

/-- Whether an arena has no nodes. -/
def isEmpty (arena : Arena) : Bool := arena.nodes.isEmpty

/-- The largest number of a node or of the start of a range. -/
def maxIndex : Nat := UInt32.size - 1

/-- The largest length of a range. -/
def maxLength : Nat := UInt16.size - 1

/-- A stored node. -/
def node (arena : Arena) (id : NodeId) : Except Fault Node :=
  match arena.nodes[id.index]? with
  | some node => .ok node
  | none => .error .outOfBounds

/-- The span of a node. -/
def span (arena : Arena) (id : NodeId) : Except Fault Span :=
  match arena.spans[id.index]? with
  | some span => .ok span
  | none => .error .outOfBounds

/-- A stored node with its ranges read out. -/
def resolve (arena : Arena) : Node → Except Fault (Shape Name NodeId)
  | .literal value => return .literal value
  | .var name => return .var name
  | .call callee receiver args => return .call callee receiver (← args.read arena.args)
  | .conditional arms otherwise => return .conditional (← arms.read arena.arms) otherwise
  | .loop condition body => return .loop condition body
  | .block stmts => return .block (← stmts.read arena.stmts)
  | .ret value => return .ret value
  | .foreign children => return .foreign (← children.read arena.args)

/-- The layer of an expression that a node stands for. -/
def shape (arena : Arena) (id : NodeId) : Except Fault (Shape Name NodeId) := do
  arena.resolve (← arena.node id)

/-- Whether the layer of a node can be read and the children of the node come before it. -/
def isOrderedAt (arena : Arena) (id : NodeId) : Bool :=
  match arena.shape id with
  | .ok shape => shape.children.all fun child => child.index < id.index
  | .error _ => false

/-- An arena in which every range lies inside its side table and every node comes after its
children. -/
def Ordered (arena : Arena) : Prop :=
  ∀ index < arena.size, arena.isOrderedAt ⟨index⟩ = true

instance (arena : Arena) : Decidable arena.Ordered :=
  inferInstanceAs (Decidable (∀ index < arena.size, arena.isOrderedAt ⟨index⟩ = true))

end Arena

/-- An addition to an arena. A fault leaves behind what was appended before it. -/
abbrev Build := EStateM Fault Arena

namespace Arena

/-- The range of the last entries of a table, when its numbers fit. -/
def rangeFrom {α : Type} [Entry α] (start length : Nat) : Except Fault (Range α) :=
  if maxIndex < start then .error (.arenaFull (Entry.plural α) start)
  else if maxLength < length then .error (.listTooLong (Entry.plural α) length)
  else .ok ⟨start, length⟩

/-- Append an argument list. -/
def addArgs (items : List NodeId) : Build (Range NodeId) := do
  let start := (← get).args.size
  modify fun arena => { arena with args := arena.args ++ items }
  MonadExcept.ofExcept (rangeFrom start items.length)

/-- Append the statements of a block. -/
def addStmts (items : List (Stmt Name NodeId)) : Build (Range (Stmt Name NodeId)) := do
  let start := (← get).stmts.size
  modify fun arena => { arena with stmts := arena.stmts ++ items }
  MonadExcept.ofExcept (rangeFrom start items.length)

/-- Append the arms of a conditional. -/
def addArms (items : List (Arm NodeId)) : Build (Range (Arm NodeId)) := do
  let start := (← get).arms.size
  modify fun arena => { arena with arms := arena.arms ++ items }
  MonadExcept.ofExcept (rangeFrom start items.length)

/-- Append a node whose lists are already stored. -/
def addNode (node : Node) (span : Span) : Build NodeId := do
  let arena ← get
  if maxIndex < arena.size then
    throw (.arenaFull "expressions" arena.size)
  else
    set { arena with nodes := arena.nodes.push node, spans := arena.spans.push span }
    return ⟨arena.size⟩

/-- Adding a node gives it the next number, unless the arena is full. -/
theorem addNode_apply (node : Node) (span : Span) (arena : Arena) :
    addNode node span arena =
      if maxIndex < arena.size then .error (.arenaFull "expressions" arena.size) arena
      else .ok ⟨arena.size⟩
        { arena with nodes := arena.nodes.push node, spans := arena.spans.push span } := by
  change (if maxIndex < arena.size then _ else _ : Build NodeId) arena = _
  split <;> rfl

/-- Store the lists of a layer in the side tables. -/
def store : Shape Name NodeId → Build Node
  | .literal value => return .literal value
  | .var name => return .var name
  | .call callee receiver args => return .call callee receiver (← addArgs args)
  | .conditional arms otherwise => return .conditional (← addArms arms) otherwise
  | .loop condition body => return .loop condition body
  | .block stmts => return .block (← addStmts stmts)
  | .ret value => return .ret value
  | .foreign children => return .foreign (← addArgs children)

/-- Append a layer of an expression: its lists first, then the node. -/
def add (shape : Shape Name NodeId) (span : Span) : Build NodeId := do
  addNode (← store shape) span

/-- Append the call of a binary operator, with the left operand as receiver. -/
def addBinary (op : Name) (left right : NodeId) : Build NodeId :=
  add (.call op (some left) [right]) Span.nowhere

end Arena

end ConstFold
