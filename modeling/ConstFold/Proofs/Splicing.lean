import ConstFold.Proofs.Folding

/-!
# Replacing folded calls by their constants

A call that folds has the same constant wherever it is evaluated: its operands are constants too,
and a call on constants does not read the environment. So its node can be replaced by a literal, and
an evaluation does not notice, as long as it meets the node only outside of function bodies: within
one the call may be too deeply nested, the literal is not.

`Context.Separated` says that no function body reaches the tree of a root. The main statement is
`Context.WellFormed.reduce_splice`: under a separated root any of the folded calls can be replaced.
-/

set_option autoImplicit false

namespace ConstFold

open Eval Relation

/-! ## Replacing nodes -/

namespace Arena

/-- The arena in which the nodes of spliced calls are literals. -/
def splice (arena : Arena) (splices : List Splice) : Arena :=
  { arena with
    nodes := arena.nodes.mapIdx fun index node =>
      match splices.find? (·.call = ⟨index⟩) with
      | some splice => .literal splice.value
      | none => node }

variable {arena : Arena} {splices : List Splice} {id : NodeId}

/-- Splicing adds no node and removes none. -/
@[simp] theorem size_splice (arena : Arena) (splices : List Splice) :
    (arena.splice splices).size = arena.size := by
  simp [splice, size]

/-- A spliced node is the literal of its splice, and other nodes stay. -/
theorem node_splice (arena : Arena) (splices : List Splice) (id : NodeId) :
    (arena.splice splices).node id =
      match splices.find? (·.call = id) with
      | some splice => (arena.node id).map fun _ => .literal splice.value
      | none => arena.node id := by
  simp only [node, splice, Array.getElem?_mapIdx]
  cases arena.nodes[id.index]? with
  | none => cases splices.find? (·.call = id) <;> rfl
  | some node => cases splices.find? (·.call = id) <;> rfl

/-- A node that is not spliced keeps its layer. -/
theorem shape_splice_of_none (h : splices.find? (·.call = id) = none) :
    (arena.splice splices).shape id = arena.shape id := by
  simp only [shape, node_splice, h]
  cases arena.node id with
  | error fault => rfl
  | ok node => cases node <;> rfl

/-- The layer of a spliced node is its literal. -/
theorem shape_splice_of_some {splice : Splice} (h : splices.find? (·.call = id) = some splice)
    (hid : id.index < arena.size) :
    (arena.splice splices).shape id = .ok (.literal splice.value) := by
  have hnode : arena.node id = .ok (arena.nodes[id.index]) := by
    simp only [node, Array.getElem?_eq_getElem hid]
  simp only [shape, node_splice, h, hnode]
  rfl

/-- A replaced node has no children, any other keeps its own. -/
theorem Child.of_splice {child parent : NodeId} (h : (arena.splice splices).Child child parent) :
    arena.Child child parent := by
  obtain ⟨shape, hshape, hmem⟩ := h
  have hparent := lt_size_of_shape hshape
  rw [size_splice] at hparent
  cases hfind : splices.find? (·.call = parent) with
  | none =>
    rw [shape_splice_of_none hfind] at hshape
    exact ⟨shape, hshape, hmem⟩
  | some splice =>
    rw [shape_splice_of_some hfind hparent] at hshape
    cases hshape
    cases hmem

/-- An arena stays well-formed when calls are spliced, since references only go away. -/
theorem WellFormed.splice (h : arena.WellFormed) (splices : List Splice) :
    (arena.splice splices).WellFormed where
  readable id hid := by
    rw [size_splice] at hid
    cases hfind : splices.find? (·.call = id) with
    | none =>
      rw [shape_splice_of_none hfind]
      exact h.readable id hid
    | some splice => exact ⟨_, shape_splice_of_some hfind hid⟩
  inBounds hchild := by
    rw [size_splice]
    exact h.inBounds hchild.of_splice
  acyclic node hcycle := by
    have hmono : ∀ child parent, (arena.splice splices).Child child parent →
        arena.Child child parent := fun _ _ hchild => hchild.of_splice
    exact h.acyclic node (TransGen.mono hmono node node hcycle)
  located := by simpa [Arena.splice] using h.located

end Arena

namespace Context

/-- The context in which the nodes of spliced calls are literals. -/
def splice (ctx : Context) (splices : List Splice) : Context :=
  { ctx with arena := ctx.arena.splice splices }

variable {ctx : Context} {folding : NodeId → Folding}

/-- A context stays well-formed when calls are spliced. -/
theorem WellFormed.splice (h : ctx.WellFormed) (splices : List Splice) :
    (ctx.splice splices).WellFormed where
  arena := h.arena.splice splices
  bodies name definition hget := by
    have hbody := h.bodies name definition hget
    simpa [Context.splice] using hbody

/-! ## The constant of a node -/

/-- A site has a value only if a fresh evaluator gives it for the call on its operands. -/
theorem value_settledSite {node : NodeId} {callee : Name}
    {operands : Option (Option Literal × List Literal)} {value : Literal}
    (h : (ctx.settledSite node callee operands).value = some value) :
    ∃ receiver args after, operands = some (receiver, args) ∧
      ctx.call callee receiver args {} = .ok (.ok value) after := by
  unfold settledSite at h
  cases operands with
  | none => cases h
  | some pair =>
    obtain ⟨receiver, args⟩ := pair
    refine ⟨receiver, args, ?_⟩
    cases hcall : ctx.call callee receiver args {} with
    | error fault after => simp [hcall] at h
    | ok outcome after =>
      cases outcome with
      | error failure => simp [hcall] at h
      | ok result =>
        by_cases hresult : result.isSpliceable = true
        · simp only [hcall, hresult, if_true, Option.some.injEq] at h
          exact ⟨after, rfl, by rw [h]⟩
        · simp [hcall, hresult] at h

/-- A call that reaches a value reaches it in every environment. -/
theorem evalCall_eq_of_call {callee : Name} {receiver : Option Literal} {args : List Literal}
    {machine after : Machine} {value : Literal}
    (h : ctx.call callee receiver args machine = .ok (.ok value) after) (env : Env) :
    ctx.evalCall ctx.eval callee receiver args ⟨env, machine.depth⟩ =
      .ok value ⟨env, machine.depth⟩ := by
  obtain ⟨result, hreturned, hrun⟩ :=
    ctx.detached_evalCall ctx.maxNesting callee receiver args machine.depth
  rw [← eval_def] at hrun
  rw [call, settle_apply, hrun machine.env] at h
  rw [hrun env]
  cases result with
  | ok result =>
    cases h
    rfl
  | error exit =>
    cases exit with
    | returned result => exact absurd rfl (hreturned result)
    | failed failure => cases h
    | crashed fault => cases h

/-- Constants are evaluated to themselves, one after the other. -/
theorem mapM_eq_of_values {eval : NodeId → Eval Literal} {value : NodeId → Option Literal}
    {machine : Machine} {children : List NodeId} {values : List Literal}
    (hvalues : (children.map value).mapM id = some values)
    (heval : ∀ child ∈ children, ∀ result, value child = some result →
      eval child machine = .ok result machine) :
    children.mapM eval machine = .ok values machine := by
  induction children generalizing values with
  | nil =>
    cases hvalues
    rfl
  | cons child rest ih =>
    simp only [List.map_cons, List.mapM_cons, id_eq, Option.bind_eq_bind,
      Option.bind_eq_some_iff] at hvalues
    obtain ⟨result, hresult, results, hresults, hcons⟩ := hvalues
    cases hcons
    have hrest := ih hresults fun other hother => heval other (List.mem_cons_of_mem _ hother)
    rw [List.mapM_cons, bind_apply, heval child List.mem_cons_self result hresult]
    simp only [bind_apply, hrest]
    rfl

/-- A call whose operands come to constants is evaluated as the callee on these constants. -/
theorem evalShape_call_of_values {eval : NodeId → Eval Literal} {value : NodeId → Option Literal}
    {machine : Machine} {callee : Name} {receiver : Option NodeId} {args : List NodeId}
    {receiverValue : Option Literal} {argValues : List Literal}
    (hoperands : operands? (receiver.map value) (args.map value) = some (receiverValue, argValues))
    (heval : ∀ child ∈ receiver.toList ++ args, ∀ result, value child = some result →
      eval child machine = .ok result machine) :
    ctx.evalShape eval (.call callee receiver args) machine =
      ctx.evalCall eval callee receiverValue argValues machine := by
  simp only [operands?, Option.bind_eq_bind, Option.bind_eq_some_iff] at hoperands
  obtain ⟨_, hreceiver, _, hargs, heq⟩ := hoperands
  cases heq
  have hrunArgs : args.mapM eval machine = .ok argValues machine :=
    mapM_eq_of_values hargs fun child hmem => heval child (List.mem_append_right _ hmem)
  have hrunReceiver : receiver.mapM eval machine = .ok receiverValue machine := by
    cases receiver with
    | none =>
      cases hreceiver
      rfl
    | some child =>
      obtain ⟨result, hresult, hsome⟩ := Option.map_eq_some_iff.1 hreceiver
      cases hsome
      have hchild := heval child (by simp) result hresult
      show (eval child >>= fun head => pure (some head)) machine = _
      rw [bind_apply, hchild]
      rfl
  simp only [Context.evalShape, bind_apply, hrunReceiver, hrunArgs]

/-- Outside of function bodies a node that has a constant is evaluated to it, in every
environment. -/
theorem WellFormed.eval_of_value (h : ctx.WellFormed) (hfolding : ctx.unroll folding = folding)
    {node : NodeId} {value : Literal} (hvalue : (folding node).value = some value) (env : Env) :
    ctx.eval node ⟨env, 0⟩ = .ok value ⟨env, 0⟩ := by
  induction node using h.arena.wellFounded.induction generalizing value with
  | _ node ih =>
    cases hshape : ctx.arena.shape node with
    | error fault =>
      rw [← hfolding] at hvalue
      simp only [unroll, hshape] at hvalue
      cases hvalue
    | ok shape =>
      rw [← hfolding, ctx.unroll_of_shape folding hshape] at hvalue
      rw [h.eval_eq_evalShape hshape]
      cases shape with
      | literal result =>
        cases hvalue
        rfl
      | call callee receiver args =>
        have hchildren : ∀ child ∈ receiver.toList ++ args, ∀ result,
            (folding child).value = some result →
            ctx.eval child ⟨env, 0⟩ = .ok result ⟨env, 0⟩ :=
          fun child hmem result hresult => ih child ⟨_, hshape, hmem⟩ hresult
        obtain ⟨site, hsite, hvalue⟩ := Option.bind_eq_some_iff.1 hvalue
        simp only [siteOf, Option.ite_none_right_eq_some, Option.some.injEq] at hsite
        rw [← hsite.2] at hvalue
        obtain ⟨receiverValue, argValues, after, hoperands, hcall⟩ := value_settledSite hvalue
        rw [evalShape_call_of_values hoperands hchildren]
        exact evalCall_eq_of_call hcall env
      | var name => cases hvalue
      | conditional arms otherwise => cases hvalue
      | loop condition body => cases hvalue
      | block stmts => cases hvalue
      | ret result => cases hvalue
      | «foreign» children => cases hvalue

/-! ## Evaluation after replacing -/

/-- No function body reaches the tree of a root: what lies behind the root stays there. -/
structure Separated (ctx : Context) (root : NodeId) : Prop where
  front : ∀ {node : NodeId}, ctx.arena.InTree root node → node.index ≤ root.index
  closed : ∀ {child parent : NodeId}, ctx.arena.Child child parent →
    root.index < parent.index → root.index < child.index
  bodies : ∀ name definition, ctx.library.get? name = some definition →
    root.index < definition.body.index

/-- Two evaluations that are one. -/
def Same (α : Type) (pair : Bool → Eval α) : Prop := pair true = pair false

/-- Evaluations built alike from the same ones are the same. -/
theorem same_compositional : Compositional Same where
  pure _ := rfl
  bind := by
    intro α β first next hfirst hnext
    have hfun : next true = next false := funext hnext
    show first true >>= next true = first false >>= next false
    rw [hfirst, hfun]
  fail _ := rfl
  returned _ := rfl
  read _ _ := rfl
  inScope hbody := congrArg Eval.inScope hbody
  bound hvalue := congrArg Eval.bound hvalue
  forget _ := rfl
  define _ _ := rfl
  assign _ _ := rfl

/-- The context before and after replacing. -/
def beforeOrAfter (ctx : Context) (splices : List Splice) (before : Bool) : Context :=
  bif before then ctx else ctx.splice splices

/-- Replacing changes neither the names nor the library nor the policy. -/
theorem beforeOrAfter_alike (ctx : Context) (splices : List Splice) (before : Bool) :
    (ctx.beforeOrAfter splices before).Alike ctx := by
  cases before <;> exact ⟨rfl, rfl, rfl⟩

/-- Function bodies are called alike before and after replacing. -/
theorem evalBody_beforeOrAfter (ctx : Context) (splices : List Splice)
    (eval : Bool → NodeId → Eval Literal) (definition : Definition) (args : List Literal) :
    (fun b => (ctx.beforeOrAfter splices b).evalBody (eval b) definition args) =
      fun b => ctx.evalBody (eval b) definition args := by
  funext b
  cases b <;> rfl

/-- Replacing leaves the bound on rounds. -/
theorem iterationCap_beforeOrAfter (ctx : Context) (splices : List Splice) (before : Bool) :
    (ctx.beforeOrAfter splices before).policy.iterationCap = ctx.policy.iterationCap := by
  cases before <;> rfl

variable {root : NodeId} {splices : List Splice}

/-- Behind the root nothing is replaced, so nothing changes there. -/
theorem Separated.evalWithin_splice (h : ctx.Separated root)
    (hsplices : ∀ splice ∈ splices, splice.call.index ≤ root.index) (nesting : Nat) {node : NodeId}
    (hnode : root.index < node.index) :
    ctx.evalWithin nesting node = (ctx.splice splices).evalWithin nesting node := by
  induction nesting generalizing node with
  | zero => rfl
  | succ nesting ih =>
    have hfind : splices.find? (·.call = node) = none := by
      rw [List.find?_eq_none]
      intro splice hmem heq
      have hle := hsplices splice hmem
      rw [of_decide_eq_true heq] at hle
      omega
    have hsame : (ctx.splice splices).arena.shape node = ctx.arena.shape node :=
      Arena.shape_splice_of_none hfind
    cases hshape : ctx.arena.shape node with
    | error fault =>
      simp only [evalWithin, evalNode, hsame, hshape]
      rfl
    | ok shape =>
      rw [hshape] at hsame
      rw [ctx.evalWithin_succ_of_shape hshape, (ctx.splice splices).evalWithin_succ_of_shape hsame]
      have hall : Same Literal fun b => (ctx.beforeOrAfter splices b).evalShape
          ((ctx.beforeOrAfter splices b).evalWithin nesting) shape := by
        refine same_compositional.evalShape ctx (ctx.beforeOrAfter splices)
          (ctx.beforeOrAfter_alike splices)
          (fun child hmem => ih (h.closed ⟨shape, hshape, hmem⟩ hnode)) ?_ ?_
        · intro callee receiver args
          refine same_compositional.evalCall ctx (ctx.beforeOrAfter splices)
            (ctx.beforeOrAfter_alike splices) callee receiver args fun definition hget => ?_
          rw [evalBody_beforeOrAfter]
          have hbody := ih (h.bodies callee definition hget)
          show ctx.evalBody (ctx.evalWithin nesting) definition args =
            ctx.evalBody ((ctx.splice splices).evalWithin nesting) definition args
          simp only [evalBody, hbody]
        · intro condition body hcondition hbody
          simp only [iterationCap_beforeOrAfter]
          apply same_compositional.rounds _ hcondition hbody
      exact hall

/-- Nodes behind the root evaluate as before, since nothing they reach is replaced. -/
theorem Separated.eval_splice (h : ctx.Separated root)
    (hsplices : ∀ splice ∈ splices, splice.call.index ≤ root.index) {node : NodeId}
    (hnode : root.index < node.index) : ctx.eval node = (ctx.splice splices).eval node := by
  have hnesting : (ctx.splice splices).maxNesting = ctx.maxNesting := by
    simp [maxNesting, splice]
  rw [eval_def, eval_def, hnesting]
  exact h.evalWithin_splice hsplices ctx.maxNesting hnode

/-- The constant that a candidate folds to is the constant of its node. -/
theorem value_of_foldedAt (hfolding : ctx.unroll folding = folding) {node : NodeId} {value : Literal}
    (h : ctx.foldedAt folding node = some value) : (folding node).value = some value := by
  unfold foldedAt siteAt at h
  cases hshape : ctx.arena.shape node with
  | error fault =>
    rw [hshape] at h
    cases h
  | ok shape =>
    rw [hshape] at h
    rw [← hfolding, ctx.unroll_of_shape folding hshape]
    cases shape with
    | literal result => cases h
    | call callee receiver args => exact h
    | var name => exact h
    | conditional arms otherwise => exact h
    | loop condition body => exact h
    | block stmts => exact h
    | ret result => exact h
    | «foreign» children => exact h

/-- The context is well-formed before and after replacing. -/
theorem WellFormed.beforeOrAfter (h : ctx.WellFormed) (splices : List Splice) (before : Bool) :
    (ctx.beforeOrAfter splices before).WellFormed := by
  cases before
  · exact h.splice splices
  · exact h

/-- Evaluation leaves the number of bodies as it was, before and after replacing. -/
theorem keepsDepth_beforeOrAfter (ctx : Context) (splices : List Splice) (node : NodeId) :
    KeepsDepth Bool Literal fun b => (ctx.beforeOrAfter splices b).eval node := by
  intro b machine
  simp only [eval_def]
  exact depth_evalWithin _ _ node machine

/-- A replaced call comes to its constant, as it did before. -/
theorem WellFormed.settled_replaced (h : ctx.WellFormed) (hfolding : ctx.unroll folding = folding)
    {node : NodeId} (hid : node.index < ctx.arena.size) {splice : Splice}
    (hfind : splices.find? (·.call = node) = some splice)
    (hfolded : ctx.foldedAt folding node = some splice.value) :
    Settled 0 Literal fun b => (ctx.beforeOrAfter splices b).eval node := by
  refine ⟨ctx.keepsDepth_beforeOrAfter splices node, ?_,
    fun machine _ => h.not_crashes_eval hid machine⟩
  rintro ⟨env, depth⟩ hdepth
  cases hdepth
  have hbefore := h.eval_of_value hfolding (value_of_foldedAt hfolding hfolded) env
  have hafter := (h.splice splices).eval_eq_evalShape (Arena.shape_splice_of_some hfind hid) ⟨env, 0⟩
  exact hbefore.trans hafter.symm

/-- No call is replaced in a function body, which lies outside of the tree. -/
theorem WellFormed.settled_evalBody_beforeOrAfter (h : ctx.WellFormed)
    (hseparated : ctx.Separated root)
    (hsplices : ∀ splice ∈ splices, splice.call.index ≤ root.index) {callee : Name}
    {definition : Definition} (hget : ctx.library.get? callee = some definition)
    (args : List Literal) :
    Settled 0 Literal fun b => (ctx.beforeOrAfter splices b).evalBody
      (ctx.beforeOrAfter splices b).eval definition args := by
  have hsame := hseparated.eval_splice hsplices (hseparated.bodies callee definition hget)
  have hkeeps := ctx.keepsDepth_beforeOrAfter splices definition.body
  rw [evalBody_beforeOrAfter]
  refine Settled.evalBody ctx hkeeps (fun _ => ⟨hkeeps, ?_, ?_⟩) args
  · intro machine _
    exact congrFun hsame machine
  · intro machine _
    exact h.not_crashes_eval (h.bodies callee definition hget) machine

/-- A node of the tree is evaluated in the same way before and after replacing, outside of function
bodies. The induction follows the child references: a replaced node is evaluated to its constant,
and any other has kept its children. -/
theorem WellFormed.settled_beforeOrAfter (h : ctx.WellFormed) (hroot : root.index < ctx.arena.size)
    (hseparated : ctx.Separated root) (hfolding : ctx.unroll folding = folding)
    (hsplices : ∀ splice ∈ splices, splice ∈ (folding root).splices) {node : NodeId}
    (hnode : ctx.arena.InTree root node) :
    Settled 0 Literal fun b => (ctx.beforeOrAfter splices b).eval node := by
  have hfolded := fun splice hmem => (h.mem_splices_iff hfolding hroot).1 (hsplices splice hmem)
  have hfront : ∀ splice ∈ splices, splice.call.index ≤ root.index :=
    fun splice hmem => hseparated.front (hfolded splice hmem).1.inTree
  induction node using h.arena.wellFounded.induction with
  | _ node ih =>
    have hid := h.arena.lt_size_of_inTree hroot hnode
    cases hfind : splices.find? (·.call = node) with
    | some splice =>
      obtain rfl : splice.call = node := by simpa using List.find?_some hfind
      exact h.settled_replaced hfolding hid hfind
        (hfolded splice (List.mem_of_find?_eq_some hfind)).2
    | none =>
      obtain ⟨shape, hshape⟩ := h.arena.readable node hid
      have hshapes : ∀ b, (ctx.beforeOrAfter splices b).arena.shape node = .ok shape := by
        intro b
        cases b
        · exact (Arena.shape_splice_of_none hfind).trans hshape
        · exact hshape
      have heval : (fun b => (ctx.beforeOrAfter splices b).eval node) = fun b =>
          (ctx.beforeOrAfter splices b).evalShape (ctx.beforeOrAfter splices b).eval shape := by
        funext b machine
        exact (h.beforeOrAfter splices b).eval_eq_evalShape (hshapes b) machine
      rw [heval]
      apply (settled_compositional 0).evalShape ctx (ctx.beforeOrAfter splices)
        (ctx.beforeOrAfter_alike splices)
      · intro child hmem
        have hchild : ctx.arena.Child child node := ⟨shape, hshape, hmem⟩
        exact ih child hchild (hnode.child hchild)
      · intro callee receiver args
        exact (settled_compositional 0).evalCall ctx (ctx.beforeOrAfter splices)
          (ctx.beforeOrAfter_alike splices) callee receiver args fun definition hget =>
            h.settled_evalBody_beforeOrAfter hseparated hfront hget args
      · intro condition body hcondition hbody
        simp only [iterationCap_beforeOrAfter]
        apply (settled_compositional 0).rounds _ hcondition hbody

/-- Under a separated root any of the folded calls can be replaced by their constants. -/
theorem WellFormed.reduce_splice (h : ctx.WellFormed) (hroot : root.index < ctx.arena.size)
    (hseparated : ctx.Separated root) (hfolding : ctx.unroll folding = folding)
    (hsplices : ∀ splice ∈ splices, splice ∈ (folding root).splices) {node : NodeId}
    (hnode : ctx.arena.InTree root node) (env : Env) :
    ∃ outcome final, ctx.reduce node { env := env } = .ok outcome final ∧
      (ctx.splice splices).reduce node { env := env } = .ok outcome final := by
  have hsettled := h.settled_beforeOrAfter hroot hseparated hfolding hsplices hnode
  have hagree : ctx.eval node { env := env } = (ctx.splice splices).eval node { env := env } :=
    hsettled.agree { env := env } rfl
  have hsound : ¬ Crashes (ctx.eval node { env := env }) := hsettled.sound { env := env } rfl
  rw [reduce_apply, reduce_apply, ← hagree]
  cases hrun : ctx.eval node { env := env } with
  | ok value final => exact ⟨.ok value, final, rfl, rfl⟩
  | error exit final =>
    cases exit with
    | returned value => exact ⟨.ok value, final, rfl, rfl⟩
    | failed failure => exact ⟨.error failure, final, rfl, rfl⟩
    | crashed fault => exact absurd ⟨fault, final, hrun⟩ hsound

end Context

end ConstFold
