import ConstFold.Host
import ConstFold.Policy
import Mathlib.Logic.Relation

/-!
# The trees of a host

The nodes of a host unfold to finite trees, so a quantity of a node can be defined by recursion over
the layers below it: `Host.foldTree` is this recursion and `Host.foldTree_eq` its equation. Two
instances describe what lowering is to build: the tree under a node as a value (`Host.unfold`), and
the nodes of the tree in the order in which they are completed (`Host.postorder`).

`Host.Reaches` is the least set of names that contains the eligible functions called in the tree of
a root and, with every function of the host, those called in its body.
-/

set_option autoImplicit false

namespace ConstFold

open Relation

/-- Two ways to replace the children of a node agree if they agree on the children it has. -/
theorem Shape.map_congr {ν α β : Type} {left right : α → β} {shape : Shape ν α}
    (h : ∀ child ∈ shape.children, left child = right child) :
    shape.map id left = shape.map id right := by
  have hoption : ∀ item : Option α, (∀ child ∈ item, left child = right child) →
      item.map left = item.map right := by
    intro item hitem
    cases item with
    | none => rfl
    | some child => simp [hitem child rfl]
  cases shape with
  | literal value => rfl
  | var name => rfl
  | call callee receiver args =>
    have hreceiver := hoption receiver fun child hchild =>
      h child (by simp [Shape.children, Option.mem_def.1 hchild])
    have hargs : args.map left = args.map right :=
      List.map_congr_left fun child hchild => h child (List.mem_append_right _ hchild)
    simp only [Shape.map, hreceiver, hargs]
  | conditional arms otherwise =>
    have hotherwise := hoption otherwise fun child hchild =>
      h child (by simp [Shape.children, Option.mem_def.1 hchild])
    have harms : arms.map (Arm.map left) = arms.map (Arm.map right) := by
      refine List.map_congr_left fun arm harm => ?_
      have hmem : ∀ child ∈ arm.children, left child = right child := fun child hchild =>
        h child (List.mem_append_left _ (List.mem_flatMap.2 ⟨arm, harm, hchild⟩))
      simp only [Arm.map, hmem arm.condition (by simp [Arm.children]),
        hmem arm.result (by simp [Arm.children])]
    simp only [Shape.map, hotherwise, harms]
  | loop condition body =>
    simp only [Shape.map, h condition (by simp [Shape.children]), h body (by simp [Shape.children])]
  | block stmts =>
    have hstmts : stmts.map (Stmt.map id left) = stmts.map (Stmt.map id right) := by
      refine List.map_congr_left fun stmt hstmt => ?_
      have hmem : ∀ child ∈ stmt.child?, left child = right child := fun child hchild =>
        h child (List.mem_filterMap.2 ⟨stmt, hstmt, hchild⟩)
      cases stmt with
      | expr value => simp only [Stmt.map, hmem value rfl]
      | declare name init => simp only [Stmt.map, hoption init hmem]
      | assign name value => simp only [Stmt.map, hmem value rfl]
    simp only [Shape.map, hstmts]
  | ret value => simp only [Shape.map, h value (by simp [Shape.children])]
  | «foreign» children => exact congrArg Shape.foreign (List.map_congr_left h)

/-- A finite tree: one layer with its location, and trees in the places of the layer. -/
inductive Tree where
  | node (span : Span) (layer : Shape String Tree)

instance : Inhabited Tree := ⟨.node Span.nowhere (.literal .unit)⟩

namespace Host

variable {ν β : Type} (host : Host ν)

/-- `child` stands in one of the places of the node `parent`. -/
def Child (child parent : ν) : Prop := child ∈ (host.view parent).children

/-- The tree of `root` contains `node`. -/
def InTree (root node : ν) : Prop := ReflTransGen host.Child node root

/-- The children of a node cannot be followed for ever. -/
theorem wellFounded_child : WellFounded host.Child :=
  Subrelation.wf (fun {child parent} hchild => host.height_lt parent child hchild)
    (InvImage.wf host.height Nat.lt_wfRel.wf)

/-! ## Recursion over the layers of a tree -/

section FoldTree

variable [Inhabited β] (layer : ν → Shape String β → β)

/-- Recursion over at most `nesting` layers. -/
def foldWithin : Nat → ν → β
  | 0, _ => default
  | nesting + 1, node => layer node ((host.view node).map id (foldWithin nesting))

/-- Recursion over the layers of the tree under a node: `layer` says what a node comes to when its
children have been replaced by what they come to. -/
def foldTree (node : ν) : β := host.foldWithin layer (host.height node + 1) node

/-- Any two bounds above the height of a node give the same result. -/
theorem foldWithin_eq {left right : Nat} {node : ν} (hleft : host.height node < left)
    (hright : host.height node < right) :
    host.foldWithin layer left node = host.foldWithin layer right node := by
  induction left generalizing right node with
  | zero => omega
  | succ left ih =>
    obtain ⟨right, rfl⟩ : ∃ n, right = n + 1 := ⟨right - 1, by omega⟩
    refine congrArg (layer node) (Shape.map_congr fun child hchild => ?_)
    have hheight := host.height_lt node child hchild
    exact ih (by omega) (by omega)

/-- The recursion applies `layer` to a node with the results of its children. -/
theorem foldTree_eq (node : ν) :
    host.foldTree layer node = layer node ((host.view node).map id (host.foldTree layer)) := by
  refine congrArg (layer node) (Shape.map_congr fun child hchild => ?_)
  exact host.foldWithin_eq layer (host.height_lt node child hchild) (Nat.lt_succ_self _)

end FoldTree

/-- The tree under a node. -/
def unfold : ν → Tree := host.foldTree fun node layer => .node (host.span node) layer

/-- The tree under a node has its location, and the trees of its children. -/
theorem unfold_eq (node : ν) :
    host.unfold node = .node (host.span node) ((host.view node).map id host.unfold) :=
  host.foldTree_eq _ node

/-- The nodes of the tree under a node, children before parents and in the order in which they are
met. A node that stands in several places is listed for each. -/
def postorder : ν → List ν := host.foldTree fun node layer => layer.children.flatten ++ [node]

/-- A node is listed after the nodes of its children's trees. -/
theorem postorder_eq (node : ν) :
    host.postorder node = (host.view node).children.flatMap host.postorder ++ [node] := by
  have h := host.foldTree_eq (fun node layer => layer.children.flatten ++ [node]) node
  rw [Shape.children_map] at h
  exact h

/-- The listed nodes are those of the tree. -/
theorem mem_postorder_iff {root node : ν} : node ∈ host.postorder root ↔ host.InTree root node := by
  induction root using host.wellFounded_child.induction with
  | _ root ih =>
    rw [postorder_eq, List.mem_append, List.mem_flatMap, List.mem_singleton]
    constructor
    · rintro (⟨child, hchild, hnode⟩ | rfl)
      · exact ((ih child hchild).1 hnode).tail hchild
      · exact .refl
    · intro hnode
      rcases hnode.cases_tail with rfl | ⟨child, hrest, hchild⟩
      · exact .inr rfl
      · exact .inl ⟨child, hchild, (ih child hchild).2 hrest⟩

/-! ## Functions that can be called -/

variable (policy : Policy)

/-- The eligible function that a node calls without a receiver. -/
def asks (node : ν) : Option String := (host.view node).freeCallee?.filter policy.isEligible

/-- An eligible function is called without a receiver in the tree of a node. -/
def Calls (root : ν) (name : String) : Prop :=
  ∃ node, host.InTree root node ∧ (host.view node).freeCallee? = some name ∧
    policy.isEligible name = true

/-- The eligible functions that a root calls, directly or through functions of the host. -/
inductive Reaches (root : ν) : String → Prop where
  | call {name : String} : host.Calls policy root name → Reaches root name
  | body {caller name : String} {found : HostFunction ν} : Reaches root caller →
      host.function caller = some found → host.Calls policy found.body name → Reaches root name

variable {host policy}

/-- A node asks for a function exactly if it calls it without a receiver and its name is
eligible. -/
theorem asks_eq_some_iff {node : ν} {name : String} :
    host.asks policy node = some name ↔
      (host.view node).freeCallee? = some name ∧ policy.isEligible name = true :=
  Option.filter_eq_some_iff

/-- The functions called in a tree are those that one of the listed nodes asks for. -/
theorem calls_iff {root : ν} {name : String} :
    host.Calls policy root name ↔
      ∃ node ∈ host.postorder root, host.asks policy node = some name := by
  simp only [Calls, mem_postorder_iff, asks_eq_some_iff]

/-- A reached function is eligible. -/
theorem Reaches.isEligible {root : ν} {name : String} (h : host.Reaches policy root name) :
    policy.isEligible name = true := by
  cases h with
  | call hcall => exact hcall.choose_spec.2.2
  | body _ _ hcall => exact hcall.choose_spec.2.2

end Host

end ConstFold
