import ConstFold.Shape
import ConstFold.Span

/-!
# Hosts

A host owns the tree in which calls are folded. It shows its nodes one layer at a time, resolves
functions by name and builds the nodes that replace folded calls. Its nodes unfold to finite trees,
of which `height` is a measure. It may resolve any number of functions.
-/

set_option autoImplicit false

namespace ConstFold

/-- A function of a host. -/
structure HostFunction (ν : Type) where
  params : List String
  body : ν
  deriving DecidableEq, Repr, Inhabited

/-- A tree with nodes of type `ν`, the functions it may call, and the means to replace nodes. -/
structure Host (ν : Type) where
  /-- The layer of a node. -/
  view : ν → Shape String ν
  /-- The source location of a node. -/
  span : ν → Span
  /-- The function of a name. -/
  function : String → Option (HostFunction ν)
  /-- The node that replaces a node by a constant. -/
  literalFor : Literal → ν → ν
  /-- A bound on the nesting under a node. -/
  height : ν → Nat
  height_lt : ∀ node, ∀ child ∈ (view node).children, height child < height node

end ConstFold
