import ConstFold.Proofs.Composition
import ConstFold.Proofs.Folding
import ConstFold.Proofs.Traversal

/-!
# What folding reads of a context

Folding the calls of an arena consults the library only for the callees that occur in calls without
a receiver, and the symbol table only for the names that occur in nodes. Two contexts that treat
these alike (`Context.Agrees`) give the same report for every root.
-/

set_option autoImplicit false

namespace ConstFold

open Eval

/-- A definition of another name changes nothing for a name. -/
theorem Library.get?_foldl_define {definitions : List Definition} {name : Name} (library : Library)
    (h : ∀ definition ∈ definitions, definition.name ≠ name) :
    (definitions.foldl define library).get? name = library.get? name := by
  induction definitions generalizing library with
  | nil => rfl
  | cons definition rest ih =>
    have hne : name ≠ definition.name := (h definition List.mem_cons_self).symm
    rw [List.foldl_cons, ih _ fun other hother => h other (List.mem_cons_of_mem _ hother),
      get?_define, if_neg hne]

/-- A definition is an old one or one of those added. -/
theorem Library.mem_of_get?_foldl_define {definitions : List Definition} {name : Name}
    {library : Library} {found : Definition}
    (h : (definitions.foldl define library).get? name = some found) :
    library.get? name = some found ∨ (found ∈ definitions ∧ found.name = name) := by
  induction definitions generalizing library with
  | nil => exact .inl h
  | cons definition rest ih =>
    rcases ih h with hold | ⟨hmem, hname⟩
    · rw [get?_define] at hold
      split at hold
      · next hname =>
        cases hold
        exact .inr ⟨List.mem_cons_self, hname.symm⟩
      · exact .inl hold
    · exact .inr ⟨List.mem_cons_of_mem _ hmem, hname⟩

namespace Context

/-- Two contexts with one arena and one policy that give the names in the arena the same texts and
treat calls without a receiver alike. -/
structure Agrees (ctx ctx' : Context) : Prop where
  arena : ctx'.arena = ctx.arena
  policy : ctx'.policy = ctx.policy
  text : ∀ {id : NodeId} {shape : Shape Name NodeId}, ctx.arena.shape id = .ok shape →
    ∀ name ∈ shape.names, ctx'.text name = ctx.text name
  evalCall : ∀ {id : NodeId} {callee : Name} {args : List NodeId},
    ctx.arena.shape id = .ok (.call callee none args) →
    ∀ (eval : NodeId → Eval Literal) (values : List Literal),
      ctx'.evalCall eval callee none values = ctx.evalCall eval callee none values
  isCandidate : ∀ {id : NodeId} {callee : Name} {args : List NodeId},
    ctx.arena.shape id = .ok (.call callee none args) →
    ctx'.isCandidate callee false = ctx.isCandidate callee false

variable {ctx ctx' : Context}

namespace Agrees

/-- Evaluating a layer, when children are evaluated alike. -/
theorem evalShape_eq (h : ctx.Agrees ctx') {id : NodeId} {shape : Shape Name NodeId}
    (hshape : ctx.arena.shape id = .ok shape) (eval : NodeId → Eval Literal) :
    ctx'.evalShape eval shape = ctx.evalShape eval shape := by
  cases shape with
  | var name =>
    have htext := h.text hshape name (List.mem_singleton_self name)
    simp only [evalShape, htext]
  | call callee receiver args =>
    have htext := h.text hshape callee (List.mem_singleton_self callee)
    cases receiver with
    | none => simp only [evalShape, Option.mapM_none, pure_bind, h.evalCall hshape]
    | some child =>
      simp only [evalShape, Option.mapM_some, bind_map_left, Context.evalCall, htext]
  | loop condition body => simp only [evalShape, h.policy]
  | literal value => rfl
  | conditional arms otherwise => rfl
  | block stmts => rfl
  | ret value => rfl
  | «foreign» children => rfl

/-- Nodes are evaluated alike within any nesting. -/
theorem evalWithin_eq (h : ctx.Agrees ctx') (nesting : Nat) :
    ctx'.evalWithin nesting = ctx.evalWithin nesting := by
  induction nesting with
  | zero => rfl
  | succ nesting ih =>
    funext id
    simp only [evalWithin, evalNode, h.arena, ih]
    cases hshape : ctx.arena.shape id with
    | error fault => rfl
    | ok shape => simp only [ofLookup, pure_bind, h.evalShape_eq hshape]

/-- Nodes are evaluated alike. -/
theorem eval_eq (h : ctx.Agrees ctx') : ctx'.eval = ctx.eval := by
  have hnesting : ctx'.maxNesting = ctx.maxNesting := by simp only [maxNesting, h.policy, h.arena]
  rw [eval_def, eval_def, hnesting, h.evalWithin_eq]

/-- Calls as they stand in the arena are evaluated alike on any values. -/
theorem call_eq (h : ctx.Agrees ctx') {id : NodeId} {callee : Name} {receiver : Option NodeId}
    {args : List NodeId} (hshape : ctx.arena.shape id = .ok (.call callee receiver args))
    {value : Option Literal} (hvalue : value.isSome = receiver.isSome) (values : List Literal) :
    ctx'.call callee value values = ctx.call callee value values := by
  unfold call
  rw [h.eval_eq]
  cases receiver with
  | none =>
    cases value with
    | none => rw [h.evalCall hshape]
    | some value => cases hvalue
  | some child =>
    have htext := h.text hshape callee (List.mem_singleton_self callee)
    cases value with
    | none => cases hvalue
    | some value => simp only [Context.evalCall, htext]

/-- Folding a candidate whose operands are constants, if at all, in the places of the operands. -/
theorem foldCandidate_eq (h : ctx.Agrees ctx') {id : NodeId} {callee : Name}
    {receiver : Option NodeId} {args : List NodeId}
    (hshape : ctx.arena.shape id = .ok (.call callee receiver args)) (mark : Nat)
    (value : Option (Option Literal)) (hvalue : value.isSome = receiver.isSome)
    (values : List (Option Literal)) :
    ctx'.foldCandidate mark id callee (operands? value values) =
      ctx.foldCandidate mark id callee (operands? value values) := by
  have htext := h.text hshape callee (List.mem_singleton_self callee)
  cases hoperands : operands? value values with
  | none => rfl
  | some operands =>
    obtain ⟨constant, constants⟩ := operands
    have hconstant : constant.isSome = receiver.isSome := by
      simp only [operands?, Option.bind_eq_bind, Option.bind_eq_some_iff] at hoperands
      obtain ⟨_, hreceiver, _, _, heq⟩ := hoperands
      cases heq
      rw [← hvalue]
      cases value with
      | none =>
        cases hreceiver
        rfl
      | some inner =>
        cases inner with
        | none => cases hreceiver
        | some inner =>
          cases hreceiver
          rfl
    simp only [foldCandidate, h.call_eq hshape hconstant, reportFallback, fallbackWarning, htext,
      h.policy, h.arena]

/-- Walking one layer is the same, given the walks of the children. -/
theorem walkShape_eq (h : ctx.Agrees ctx') {id : NodeId} {shape : Shape Name NodeId}
    (hshape : ctx.arena.shape id = .ok shape) (walk : NodeId → Walking (Option Literal)) :
    ctx'.walkShape walk id shape = ctx.walkShape walk id shape := by
  cases shape with
  | call callee receiver args =>
    have htext := h.text hshape callee (List.mem_singleton_self callee)
    cases receiver with
    | none =>
      have hfold := fun mark => h.foldCandidate_eq hshape mark none rfl
      simp only [walkShape, Option.mapM_none, pure_bind, Option.isSome_none, h.isCandidate hshape,
        hfold]
    | some child =>
      have hcandidate : ctx'.isCandidate callee true = ctx.isCandidate callee true := by
        simp only [Context.isCandidate, htext, Bool.not_true, Bool.false_and]
      have hfold := fun mark value => h.foldCandidate_eq hshape mark (some value) rfl
      simp only [walkShape, Option.mapM_some, bind_map_left, Option.isSome_some, hcandidate, hfold]
  | literal value => rfl
  | var name => rfl
  | conditional arms otherwise => rfl
  | loop condition body => rfl
  | block stmts => rfl
  | ret value => rfl
  | «foreign» children => rfl

/-- Walking is the same within any nesting. -/
theorem walkWithin_eq (h : ctx.Agrees ctx') (nesting : Nat) :
    ctx'.walkWithin nesting = ctx.walkWithin nesting := by
  induction nesting with
  | zero => rfl
  | succ nesting ih =>
    funext id
    -- The two continuations are not compared when the node cannot be read.
    have hfault : ∀ (fault : Fault) (next : Shape Name NodeId → Walking (Option Literal)),
        Walking.ofResult (.error fault) >>= next = throw fault := fun _ _ => rfl
    simp only [walkWithin, walkNode, h.arena, ih]
    cases hshape : ctx.arena.shape id with
    | error fault => rw [hfault, hfault]
    | ok shape => simp only [Walking.ofResult, pure_bind, h.walkShape_eq hshape]

/-- Contexts that agree give the same report for every root. -/
theorem foldCalls_eq (h : ctx.Agrees ctx') (root : NodeId) :
    ctx'.foldCalls root = ctx.foldCalls root := by
  simp only [foldCalls, h.walkWithin_eq, h.arena]

end Agrees

end Context

end ConstFold
