import ConstFold.Literal

/-!
# The shape of an expression

A shape is one layer of an expression: what kind of node it is, with names of type `ν` and children
of type `α` in its places. The same layer describes the nodes of a host's tree, where names are
texts, and those of an arena, where names and children are numbers.

Evaluation, folding and lowering all meet the children of a node in the order of `children`.
-/

set_option autoImplicit false

namespace ConstFold

/-- A statement of a block. -/
inductive Stmt (ν α : Type) where
  | expr (value : α)
  | declare (name : ν) (init : Option α)
  | assign (name : ν) (value : α)
  deriving DecidableEq, Repr

/-- An arm of a conditional. -/
structure Arm (α : Type) where
  condition : α
  result : α
  deriving DecidableEq, Repr

/-- One layer of an expression. A call of a method or operator has a receiver. A foreign node is one
that cannot be evaluated; its children are listed because calls within them can still be folded. -/
inductive Shape (ν α : Type) where
  | literal (value : Literal)
  | var (name : ν)
  | call (callee : ν) (receiver : Option α) (args : List α)
  | conditional (arms : List (Arm α)) (otherwise : Option α)
  | loop (condition body : α)
  | block (stmts : List (Stmt ν α))
  | ret (value : α)
  | foreign (children : List α)
  deriving DecidableEq, Repr

instance {ν α : Type} : Inhabited (Shape ν α) := ⟨.literal .unit⟩

variable {ν ν' α β : Type}

/-- The expression a statement evaluates. -/
def Stmt.child? : Stmt ν α → Option α
  | .expr value => some value
  | .declare _ init => init
  | .assign _ value => some value

/-- The expressions of an arm, condition first. -/
def Arm.children (arm : Arm α) : List α := [arm.condition, arm.result]

/-- The children of a node, in the order in which they are met. -/
def Shape.children : Shape ν α → List α
  | .literal _ => []
  | .var _ => []
  | .call _ receiver args => receiver.toList ++ args
  | .conditional arms otherwise => arms.flatMap Arm.children ++ otherwise.toList
  | .loop condition body => [condition, body]
  | .block stmts => stmts.filterMap Stmt.child?
  | .ret value => [value]
  | .foreign children => children

/-- The callee of a call without a receiver. -/
def Shape.freeCallee? : Shape ν α → Option ν
  | .call callee none _ => some callee
  | _ => none

/-- The word for a kind of node. -/
def Shape.label : Shape ν α → String
  | .literal _ => "literal"
  | .var _ => "variable"
  | .call .. => "call"
  | .conditional .. => "conditional"
  | .loop .. => "loop"
  | .block _ => "block"
  | .ret _ => "return"
  | .foreign _ => "opaque"

/-- Replace the name and the child of a statement. -/
def Stmt.map (onName : ν → ν') (onChild : α → β) : Stmt ν α → Stmt ν' β
  | .expr value => .expr (onChild value)
  | .declare name init => .declare (onName name) (init.map onChild)
  | .assign name value => .assign (onName name) (onChild value)

/-- Replace the expressions of an arm. -/
def Arm.map (onChild : α → β) (arm : Arm α) : Arm β where
  condition := onChild arm.condition
  result := onChild arm.result

/-- Replace the names and children of a node. -/
def Shape.map (onName : ν → ν') (onChild : α → β) : Shape ν α → Shape ν' β
  | .literal value => .literal value
  | .var name => .var (onName name)
  | .call callee receiver args => .call (onName callee) (receiver.map onChild) (args.map onChild)
  | .conditional arms otherwise =>
    .conditional (arms.map (Arm.map onChild)) (otherwise.map onChild)
  | .loop condition body => .loop (onChild condition) (onChild body)
  | .block stmts => .block (stmts.map (Stmt.map onName onChild))
  | .ret value => .ret (onChild value)
  | .foreign children => .foreign (children.map onChild)

/-- Replacing the child of a statement replaces the expression it evaluates. -/
@[simp] theorem Stmt.child?_map (onName : ν → ν') (onChild : α → β) (stmt : Stmt ν α) :
    (stmt.map onName onChild).child? = stmt.child?.map onChild := by
  cases stmt <;> rfl

/-- Replacing the expressions of an arm keeps the condition first. -/
@[simp] theorem Arm.children_map (onChild : α → β) (arm : Arm α) :
    (arm.map onChild).children = arm.children.map onChild := rfl

/-- Replacing children replaces them in the order in which they are met. -/
@[simp] theorem Shape.children_map (onName : ν → ν') (onChild : α → β) (shape : Shape ν α) :
    (shape.map onName onChild).children = shape.children.map onChild := by
  cases shape with
  | literal value => rfl
  | var name => rfl
  | call callee receiver args => cases receiver <;> simp [Shape.map, Shape.children]
  | conditional arms otherwise =>
    have harms : (arms.map (Arm.map onChild)).flatMap Arm.children =
        (arms.flatMap Arm.children).map onChild := by
      induction arms with
      | nil => rfl
      | cons arm rest ih => simp [ih]
    cases otherwise <;> simp [Shape.map, Shape.children, harms]
  | loop condition body => rfl
  | block stmts =>
    simp only [Shape.map, Shape.children]
    induction stmts with
    | nil => rfl
    | cons stmt rest ih =>
      cases hc : stmt.child? <;> simp [hc, ih]
  | ret value => rfl
  | foreign children => rfl

section Traverse

variable {m : Type → Type} [Monad m]

/-- Replace the name and the child of a statement, the name first. -/
def Stmt.traverse (onName : ν → m ν') (onChild : α → m β) : Stmt ν α → m (Stmt ν' β)
  | .expr value => return .expr (← onChild value)
  | .declare name init => return .declare (← onName name) (← init.mapM onChild)
  | .assign name value => return .assign (← onName name) (← onChild value)

/-- Replace the expressions of an arm, the condition first. -/
def Arm.traverse (onChild : α → m β) (arm : Arm α) : m (Arm β) :=
  return { condition := ← onChild arm.condition, result := ← onChild arm.result }

/-- Replace the names and children of a node, children in the order in which they are met and each
name before the children that follow it. -/
def Shape.traverse (onName : ν → m ν') (onChild : α → m β) : Shape ν α → m (Shape ν' β)
  | .literal value => return .literal value
  | .var name => return .var (← onName name)
  | .call callee receiver args =>
    return .call (← onName callee) (← receiver.mapM onChild) (← args.mapM onChild)
  | .conditional arms otherwise =>
    return .conditional (← arms.mapM (Arm.traverse onChild)) (← otherwise.mapM onChild)
  | .loop condition body => return .loop (← onChild condition) (← onChild body)
  | .block stmts => return .block (← stmts.mapM (Stmt.traverse onName onChild))
  | .ret value => return .ret (← onChild value)
  | .foreign children => return .foreign (← children.mapM onChild)

end Traverse

end ConstFold
