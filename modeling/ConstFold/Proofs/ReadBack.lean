import ConstFold.Proofs.Worklist

/-!
# Reading a lowered program back

A lowered program can be read back: follow the node numbers, read out the ranges and look up the
names. The main statement is `Host.readBack_lower`: what is read back from a node is the tree that
unfolds from the host node it was lowered from. So lowering loses nothing, and the origins of nodes
are in step with the nodes.
-/

set_option autoImplicit false

namespace ConstFold

variable {ν : Type}

namespace Lowered

/-- Read the tree under a node with at most `nesting` nodes nested within each other. -/
def readWithin (lowered : Lowered ν) : Nat → NodeId → Except Fault Tree
  | 0, _ => throw .unfinished
  | nesting + 1, id => do
    let shape ← lowered.arena.shape id
    let span ← lowered.arena.span id
    let layer ← shape.traverse (fun name => pure (lowered.symbols.text name))
      (lowered.readWithin nesting)
    return .node span layer

/-- Read the tree under a node of an arena in which children come before their parents. -/
def readBack (lowered : Lowered ν) (id : NodeId) : Except Fault Tree :=
  lowered.readWithin (id.index + 1) id

namespace Mirrors

variable {host : Host ν} {policy : Policy} {root : ν} {lowered : Lowered ν}

/-- A node reads back as the tree of its origin. -/
theorem readWithin_eq (h : lowered.Mirrors host policy root) {nesting : Nat} {node : ν}
    {id : NodeId} (horigin : lowered.origin? id = some node) (hnesting : id.index < nesting) :
    lowered.readWithin nesting id = .ok (host.unfold node) := by
  induction nesting generalizing node id with
  | zero => omega
  | succ nesting ih =>
    obtain ⟨shape, hshape, hspan, hmatches⟩ := h.layer horigin
    have hchildren : ∀ (child : ν) (number : NodeId),
        lowered.origin? number = some child ∧ number.index < id.index →
        lowered.readWithin nesting number = .ok (host.unfold child) :=
      fun child number hchild => ih hchild.1 (by omega)
    have hlayer := (hmatches.imp (fun _ _ hname => hname.text_eq) hchildren).traverse_eq_ok
    rw [host.unfold_eq]
    simp only [readWithin, hshape, hspan, hlayer, bind, Except.bind]
    rfl

/-- A node reads back as the tree under its origin. -/
theorem readBack_eq (h : lowered.Mirrors host policy root) {node : ν} {id : NodeId}
    (horigin : lowered.origin? id = some node) : lowered.readBack id = .ok (host.unfold node) :=
  h.readWithin_eq horigin (Nat.lt_succ_self _)

/-- Exactly the nodes of the arena have an origin. -/
theorem origin?_eq_none_iff (h : lowered.Mirrors host policy root) (id : NodeId) :
    lowered.origin? id = none ↔ lowered.arena.size ≤ id.index := by
  rw [← h.size]
  exact Array.getElem?_eq_none_iff

/-- The children of a node have the children of its origin as origins. -/
theorem children_origin (h : lowered.Mirrors host policy root) {node : ν} {id : NodeId}
    (horigin : lowered.origin? id = some node) :
    ∃ shape, lowered.arena.shape id = .ok shape ∧
      shape.children.map lowered.origin? = (host.view node).children.map some := by
  obtain ⟨shape, hshape, -, hmatches⟩ := h.layer horigin
  exact ⟨shape, hshape, map_eq_map_of_forall₂ (hmatches.children.imp fun _ _ hchild => hchild.1)⟩

/-- A definition reads back as the function of the host that has its name. -/
theorem definition_eq (h : lowered.Mirrors host policy root) {callee : Name}
    {definition : Definition} (hget : lowered.library.get? callee = some definition) :
    definition.name = callee ∧
      ∃ found, host.function (lowered.symbols.text callee) = some found ∧
        definition.params.map lowered.symbols.text = found.params ∧
        definition.span = host.span found.body ∧
        lowered.origin? definition.body = some found.body := by
  obtain ⟨hname, text, -, found, hfound, hdescribes⟩ := h.defined callee definition hget
  refine ⟨hname, found, ?_, hdescribes.params_eq, hdescribes.span, hdescribes.body⟩
  rw [← hname, hdescribes.name.text_eq]
  exact hfound

end Mirrors

end Lowered

/-- Lowering succeeds for programs that fit. What is read back from the root of a lowered program is
the tree of the host's root, every definition reads back as the function of the host that has its
name, and a node of the arena reads back as the tree of its origin, of which its children have the
children as origins. Only nodes of the arena have an origin. -/
theorem Host.readBack_lower (host : Host ν) (policy : Policy) (root : ν) {symbols : SymbolTable}
    (hsymbols : symbols.Reachable) :
    (host.Fits policy symbols root → ∃ lowered, host.lower policy symbols root = .ok lowered) ∧
    ∀ lowered, host.lower policy symbols root = .ok lowered →
      (lowered.origin? lowered.root = some root ∧
        lowered.readBack lowered.root = .ok (host.unfold root)) ∧
      (∀ callee definition, lowered.library.get? callee = some definition →
        definition.name = callee ∧
        ∃ found, host.function (lowered.symbols.text callee) = some found ∧
          definition.params.map lowered.symbols.text = found.params ∧
          definition.span = host.span found.body ∧
          lowered.origin? definition.body = some found.body ∧
          lowered.readBack definition.body = .ok (host.unfold found.body)) ∧
      ∀ id, (lowered.origin? id = none ↔ lowered.arena.size ≤ id.index) ∧
        ∀ node, lowered.origin? id = some node →
          lowered.readBack id = .ok (host.unfold node) ∧
          ∃ shape, lowered.arena.shape id = .ok shape ∧
            shape.children.map lowered.origin? = (host.view node).children.map some := by
  refine ⟨Host.exists_lower_eq hsymbols, fun lowered hlower => ?_⟩
  have hmirrors := Host.mirrors_of_lower hsymbols hlower
  refine ⟨⟨hmirrors.origin_root, hmirrors.readBack_eq hmirrors.origin_root⟩, ?_, fun id =>
    ⟨hmirrors.origin?_eq_none_iff id, fun node hnode =>
      ⟨hmirrors.readBack_eq hnode, hmirrors.children_origin hnode⟩⟩⟩
  intro callee definition hget
  obtain ⟨hname, found, hfound, hparams, hspan, hbody⟩ := hmirrors.definition_eq hget
  exact ⟨hname, found, hfound, hparams, hspan, hbody, hmirrors.readBack_eq hbody⟩

/-- A tree without a location. -/
def bareTree (layer : Shape String Tree) : Tree := .node Span.nowhere layer

/-- The root of the listing: a call with the call of the function on one as both arguments. -/
def countdownTree : Tree :=
  let down := bareTree (.call "evalDown" none [bareTree (.literal (.int 1))])
  bareTree (.foreign [bareTree (.call "evalOther" none [down, down])])

/-- The body of the function, which calls itself on a smaller number unless it is zero. -/
def countdownBody : Tree :=
  let n := bareTree (.var "n")
  let zero := bareTree (.literal (.int 0))
  let smaller := bareTree (.call "minus" (some n) [bareTree (.literal (.int 1))])
  bareTree (.conditional [⟨bareTree (.call "equals" (some n) [zero]), zero⟩]
    (some (bareTree (.call "evalDown" none [smaller]))))

/-- The root and the body of the function are read back with the names of the listing, and the
definition with its parameter. -/
theorem readBack_countdown :
    SymbolTable.initial.Reachable ∧ countdownHost.Fits {} SymbolTable.initial (.entry 9) ∧
    countdownHost.lower {} SymbolTable.initial (.entry 9) = .ok countdownProgram ∧
    countdownProgram.readBack countdownProgram.root = .ok countdownTree ∧
    countdownProgram.library.get? ⟨2⟩ = some { name := ⟨2⟩, params := [⟨3⟩], body := ⟨14⟩ } ∧
    countdownHost.function (countdownProgram.symbols.text ⟨2⟩) =
      some { params := ["n"], body := .entry 6 } ∧
    [(⟨3⟩ : Name)].map countdownProgram.symbols.text = ["n"] ∧
    countdownProgram.readBack ⟨14⟩ = .ok countdownBody := by
  obtain ⟨-, hreads⟩ := Host.readBack_lower countdownHost {} (.entry 9) .initial
  obtain ⟨⟨-, hroot⟩, hdefinitions, -⟩ := hreads countdownProgram lower_countdown
  have hget : countdownProgram.library.get? ⟨2⟩ =
      some { name := ⟨2⟩, params := [⟨3⟩], body := ⟨14⟩ } := by decide +kernel
  have hfunction : countdownHost.function (countdownProgram.symbols.text ⟨2⟩) =
      some { params := ["n"], body := .entry 6 } := by decide +kernel
  obtain ⟨-, found, hfound, hparams, -, -, hbody⟩ := hdefinitions ⟨2⟩ _ hget
  obtain rfl := Option.some.inj (hfound.symm.trans hfunction)
  exact ⟨.initial, fits_countdown, lower_countdown, hroot, hget, hfunction, hparams, hbody⟩

end ConstFold
