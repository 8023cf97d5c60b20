import ConstFold.Evaluator
import Mathlib.Data.Finset.Card
import Mathlib.Logic.Relation

/-!
# Well-formed arenas

The child references of an arena form a graph. An arena is well formed when every node can be read,
every reference leads to a node and no node lies below itself. References may run forward: a node
may come before its children. An ordered arena, in which every node comes after its children, is
well formed (`Arena.Ordered.wellFormed`).

What evaluation needs of a well-formed arena is a bound on its nesting: `Arena.height` falls from a
node to its children and stays below the size of the arena.
-/

set_option autoImplicit false

namespace ConstFold

open Relation

namespace Arena

/-- `child` stands in one of the places of the node `parent`. -/
def Child (arena : Arena) (child parent : NodeId) : Prop :=
  ∃ shape, arena.shape parent = .ok shape ∧ child ∈ shape.children

/-- The tree of `root` contains `id`: child references lead from `root` to `id`. -/
def InTree (arena : Arena) (root id : NodeId) : Prop :=
  ReflTransGen arena.Child id root

/-- No node lies below itself. -/
def Acyclic (arena : Arena) : Prop :=
  ∀ id, ¬ TransGen arena.Child id id

/-- An arena whose nodes can all be read and have locations, whose references lead to nodes and in
which no node lies below itself. -/
structure WellFormed (arena : Arena) : Prop where
  readable : ∀ id : NodeId, id.index < arena.size → ∃ shape, arena.shape id = .ok shape
  inBounds : ∀ {child parent : NodeId}, arena.Child child parent → child.index < arena.size
  acyclic : arena.Acyclic
  located : arena.spans.size = arena.nodes.size

variable {arena : Arena}

/-- A node with a layer lies in the arena. -/
theorem lt_size_of_shape {id : NodeId} {shape : Shape Name NodeId}
    (h : arena.shape id = .ok shape) : id.index < arena.size := by
  by_contra hsize
  have hnone : arena.nodes[id.index]? = none :=
    Array.getElem?_eq_none (Nat.le_of_not_lt hsize)
  have herror : arena.shape id = .error .outOfBounds := by
    simp only [Arena.shape, Arena.node, hnone]
    rfl
  rw [herror] at h
  cases h

/-- A node of an arena with as many locations as nodes has a location. -/
theorem span_eq_ok (hlocated : arena.spans.size = arena.nodes.size) {id : NodeId}
    (h : id.index < arena.size) : ∃ span, arena.span id = .ok span := by
  have hspan : id.index < arena.spans.size := by
    rw [hlocated]
    exact h
  refine ⟨arena.spans[id.index], ?_⟩
  simp only [Arena.span, Array.getElem?_eq_getElem hspan]

/-- The nodes of an arena that lie below a given one. -/
noncomputable def below (arena : Arena) (id : NodeId) : Finset Nat :=
  haveI := Classical.decPred fun index : Nat => TransGen arena.Child ⟨index⟩ id
  (Finset.range arena.size).filter fun index => TransGen arena.Child ⟨index⟩ id

/-- The nodes below a node are those that child references lead to from it. -/
theorem mem_below {id : NodeId} {index : Nat} :
    index ∈ arena.below id ↔ index < arena.size ∧ TransGen arena.Child ⟨index⟩ id := by
  simp [below]

/-- How many nodes lie below a node. -/
noncomputable def height (arena : Arena) (id : NodeId) : Nat :=
  (arena.below id).card

/-- The height falls from a node to its children, which lie below the node and not below
themselves. -/
theorem WellFormed.height_lt (h : arena.WellFormed) {child parent : NodeId}
    (hchild : arena.Child child parent) : arena.height child < arena.height parent := by
  have hsubset : arena.below child ⊆ arena.below parent := by
    intro index hindex
    rw [mem_below] at hindex ⊢
    exact ⟨hindex.1, hindex.2.tail hchild⟩
  have hmem : child.index ∈ arena.below parent :=
    mem_below.2 ⟨h.inBounds hchild, .single hchild⟩
  have hnot : child.index ∉ arena.below child := fun hself =>
    h.acyclic child (mem_below.1 hself).2
  exact Finset.card_lt_card ⟨hsubset, fun hback => hnot (hback hmem)⟩

/-- A node lies below fewer nodes than the arena has. -/
theorem WellFormed.height_lt_size (h : arena.WellFormed) {id : NodeId}
    (hid : id.index < arena.size) : arena.height id < arena.size := by
  have hsubset : arena.below id ⊆ (Finset.range arena.size).erase id.index := by
    intro index hindex
    rw [mem_below] at hindex
    refine Finset.mem_erase.2 ⟨?_, Finset.mem_range.2 hindex.1⟩
    rintro rfl
    exact h.acyclic id hindex.2
  have hcard := Finset.card_le_card hsubset
  rw [Finset.card_erase_of_mem (Finset.mem_range.2 hid), Finset.card_range] at hcard
  unfold height
  omega

/-- Child references cannot be followed for ever. -/
theorem WellFormed.wellFounded (h : arena.WellFormed) : WellFounded arena.Child :=
  Subrelation.wf (fun hchild => h.height_lt hchild) (InvImage.wf arena.height Nat.lt_wfRel.wf)

/-- The tree of a stored root is stored. -/
theorem WellFormed.lt_size_of_inTree (h : arena.WellFormed) {root id : NodeId}
    (hroot : root.index < arena.size) (hid : arena.InTree root id) : id.index < arena.size := by
  cases hid.cases_head with
  | inl heq => rw [heq]; exact hroot
  | inr hstep =>
    obtain ⟨_, hchild, _⟩ := hstep
    exact h.inBounds hchild

/-- A child is among the children of the layer. -/
theorem Child.mem_children {child parent : NodeId} {shape : Shape Name NodeId}
    (h : arena.Child child parent) (hshape : arena.shape parent = .ok shape) :
    child ∈ shape.children := by
  obtain ⟨shape', hshape', hmem⟩ := h
  rw [hshape] at hshape'
  cases hshape'
  exact hmem

/-- A child of a node in a tree is in the tree. -/
theorem InTree.child {root id child : NodeId} (hid : arena.InTree root id)
    (hchild : arena.Child child id) : arena.InTree root child :=
  ReflTransGen.head hchild hid

/-- A node is in order if it has a layer and its children come before it. -/
theorem isOrderedAt_iff {id : NodeId} :
    arena.isOrderedAt id = true ↔
      ∃ shape, arena.shape id = .ok shape ∧ ∀ child ∈ shape.children, child.index < id.index := by
  unfold isOrderedAt
  cases arena.shape id with
  | error fault => simp
  | ok shape => simp

/-- In an ordered arena a child comes before its parent. -/
theorem Ordered.index_lt (h : arena.Ordered) {child parent : NodeId}
    (hchild : arena.Child child parent) : child.index < parent.index := by
  obtain ⟨shape, hshape, hmem⟩ := hchild
  obtain ⟨shape', hshape', hlt⟩ :=
    isOrderedAt_iff.1 (h parent.index (lt_size_of_shape hshape))
  rw [hshape] at hshape'
  cases hshape'
  exact hlt child hmem

/-- In an ordered arena the nodes of a tree come no later than its root. -/
theorem Ordered.index_le_of_inTree (h : arena.Ordered) {root id : NodeId}
    (hid : arena.InTree root id) : id.index ≤ root.index := by
  induction hid using ReflTransGen.head_induction_on with
  | refl => exact Nat.le_refl _
  | head hchild _ ih => exact Nat.le_of_lt (Nat.lt_of_lt_of_le (h.index_lt hchild) ih)

/-- An arena in which every node comes after its children is well formed. -/
theorem Ordered.wellFormed (h : arena.Ordered) (hlocated : arena.spans.size = arena.nodes.size) :
    arena.WellFormed where
  readable id hid := by
    obtain ⟨shape, hshape, _⟩ := isOrderedAt_iff.1 (h id.index hid)
    exact ⟨shape, hshape⟩
  inBounds hchild := by
    obtain ⟨shape, hshape, _⟩ := id hchild
    exact Nat.lt_trans (h.index_lt hchild) (lt_size_of_shape hshape)
  acyclic id hcycle := by
    have hlt : ∀ {a b : NodeId}, TransGen arena.Child a b → a.index < b.index := by
      intro a b hab
      induction hab with
      | single hchild => exact h.index_lt hchild
      | tail _ hchild ih => exact Nat.lt_trans ih (h.index_lt hchild)
    exact Nat.lt_irrefl _ (hlt hcycle)
  located := hlocated

end Arena

/-- The library of a list holds the definitions of the list only. -/
theorem Library.mem_of_get?_ofList {definitions : List Definition} {name : Name}
    {found : Definition} (h : (Library.ofList definitions).get? name = some found) :
    found ∈ definitions := by
  have hfold : ∀ (definitions : List Definition) (library : Library),
      (definitions.foldl Library.define library).get? name = some found →
        found ∈ definitions ∨ library.get? name = some found := by
    intro definitions
    induction definitions with
    | nil => exact fun library hget => .inr hget
    | cons definition rest ih =>
      intro library hget
      rcases ih (library.define definition) hget with hmem | hdefine
      · exact .inl (List.mem_cons_of_mem _ hmem)
      · rw [Library.get?_define] at hdefine
        split at hdefine
        · exact .inl (by simp_all)
        · exact .inr hdefine
  rcases hfold definitions Library.empty h with hmem | hempty
  · exact hmem
  · cases hempty

/-- A context whose arena is well formed and holds the bodies of the library's functions. -/
structure Context.WellFormed (ctx : Context) : Prop where
  arena : ctx.arena.WellFormed
  bodies : ∀ name definition, ctx.library.get? name = some definition →
    definition.body.index < ctx.arena.size

/-- A context with a list of functions, in whose arena every node comes after its children. -/
theorem Context.WellFormed.of_ordered {ctx : Context} {definitions : List Definition}
    (hordered : ctx.arena.Ordered) (hlocated : ctx.arena.spans.size = ctx.arena.nodes.size)
    (hlibrary : ctx.library = Library.ofList definitions)
    (hbodies : ∀ definition ∈ definitions, definition.body.index < ctx.arena.size) :
    ctx.WellFormed where
  arena := hordered.wellFormed hlocated
  bodies name definition hget := by
    rw [hlibrary] at hget
    exact hbodies definition (Library.mem_of_get?_ofList hget)

end ConstFold
