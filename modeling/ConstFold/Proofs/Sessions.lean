import ConstFold.Proofs.Termination

/-!
# Requests do not influence each other

An evaluator that is used again keeps one thing from the requests before: the count of the function
bodies being evaluated. Every request leaves the count as it found it, also one that fails
(`Context.depth_answer`), so every answer is that of a fresh evaluator.

The count is kept with saturating arithmetic. `Context.counted` is an evaluator that counts exactly
and for which it is a fault to enter a function body beyond the limit, to count too far or to leave
a body that was not entered. It is the same evaluator, whichever fault that is
(`Context.counted_eq_eval`), so none of this ever happens.

The main statement is `Context.WellFormed.requests_independent`.
-/

set_option autoImplicit false

namespace ConstFold

open Eval

/-! ## What a request leaves behind -/

/-- The machine that an attempt leaves, however it ends. -/
def machineLeft {α : Type} : EStateM.Result Fault Machine α → Machine
  | .ok _ machine => machine
  | .error _ machine => machine

/-- Settling an evaluation at the boundary leaves the number of bodies as it was. -/
theorem depth_settle {evaluation : Eval Literal}
    (h : ∀ machine, (machineAfter (evaluation machine)).depth = machine.depth) (machine : Machine) :
    (machineLeft (evaluation.settle machine)).depth = machine.depth := by
  have hrun := h machine
  rw [settle_apply]
  cases hend : evaluation machine with
  | ok value final =>
    rw [hend] at hrun
    exact hrun
  | error exit final =>
    rw [hend] at hrun
    cases exit <;> exact hrun

/-- Wrapping the value of an attempt changes nothing else. -/
theorem attempt_bind_pure {α β : Type} (attempt : Attempt α) (wrap : α → β) (machine : Machine) :
    (attempt >>= fun value => pure (wrap value)) machine =
      match attempt machine with
      | .ok value machine => .ok (wrap value) machine
      | .error fault machine => .error fault machine := by
  show EStateM.bind attempt _ machine = _
  unfold EStateM.bind
  cases attempt machine <;> rfl

/-- Wrapping up what an attempt gives leaves the same machine. -/
theorem machineLeft_bind_pure {α β : Type} (attempt : Attempt α) (wrap : α → β)
    (machine : Machine) :
    machineLeft ((attempt >>= fun value => pure (wrap value)) machine) =
      machineLeft (attempt machine) := by
  rw [attempt_bind_pure]
  cases attempt machine <;> rfl

namespace Context

variable (ctx : Context)

/-- Evaluating a node leaves the number of bodies as it was. -/
theorem depth_eval (id : NodeId) (machine : Machine) :
    (machineAfter (ctx.eval id machine)).depth = machine.depth := by
  rw [eval_def]
  exact ctx.depth_evalWithin _ id machine

/-- Evaluating a body leaves the number of bodies as it was. -/
theorem depth_evalBody (definition : Definition) (args : List Literal) (machine : Machine) :
    (machineAfter (ctx.evalBody ctx.eval definition args machine)).depth = machine.depth := by
  have hall : KeepsDepth Unit Literal fun _ => ctx.evalBody ctx.eval definition args :=
    KeepsDepth.evalBody (fun _ => ctx) (fun _ => ctx.depth_eval definition.body) args
  exact hall () machine

/-- Evaluating a call leaves the number of bodies as it was. -/
theorem depth_evalCall (callee : Name) (receiver : Option Literal) (args : List Literal)
    (machine : Machine) :
    (machineAfter (ctx.evalCall ctx.eval callee receiver args machine)).depth = machine.depth := by
  have hall : KeepsDepth Unit Literal fun _ => ctx.evalCall ctx.eval callee receiver args :=
    keepsDepth_compositional.evalCall ctx (fun _ => ctx) (fun _ => .refl ctx) callee receiver args
      fun definition _ _ => ctx.depth_evalBody definition args
  exact hall () machine

/-- A request leaves the count as it found it. -/
theorem depth_answer (request : Request) (machine : Machine) :
    (machineLeft (ctx.answer request machine)).depth = machine.depth := by
  have hreduce := fun id => depth_settle (ctx.depth_eval id) machine
  have happly := fun definition args => depth_settle (ctx.depth_evalBody definition args) machine
  cases request with
  | env step => rfl
  | renewEnv bindings => rfl
  | lookup name => rfl
  | fold node =>
    rw [answer, machineLeft_bind_pure]
    exact hreduce node
  | reduce node =>
    rw [answer, machineLeft_bind_pure]
    exact hreduce node
  | foldDefinition definition args =>
    rw [answer, machineLeft_bind_pure]
    exact happly definition args
  | applyDefinition definition args =>
    rw [answer, machineLeft_bind_pure]
    exact happly definition args
  | call callee receiver args =>
    rw [answer, machineLeft_bind_pure]
    exact depth_settle (ctx.depth_evalCall callee receiver args) machine
  | iterationCap => rfl

/-! ## Requests one after the other -/

/-- Make requests of one evaluator, each in an environment of its own. The evaluator keeps the count
from one request to the next. -/
def serveEach (ctx : Context) :
    UInt32 → List (Env × Request) → List (EStateM.Result Fault Machine Reply)
  | _, [] => []
  | depth, (env, request) :: rest =>
    let ending := ctx.answer request ⟨env, depth⟩
    ending :: ctx.serveEach (machineLeft ending).depth rest

/-- Make requests of fresh evaluators, each in the environment that the one before left. -/
def serveFresh (ctx : Context) : Env → List Request → List (Except Fault Reply × Env)
  | _, [] => []
  | env, request :: rest =>
    match ctx.answer request { env := env } with
    | .ok reply machine => (.ok reply, machine.env) :: ctx.serveFresh machine.env rest
    | .error fault machine => [(.error fault, machine.env)]

/-- A reused evaluator answers each request as a fresh one does in the same environment. -/
theorem serveEach_eq_map (steps : List (Env × Request)) :
    ctx.serveEach 0 steps = steps.map fun step => ctx.answer step.2 { env := step.1 } := by
  induction steps with
  | nil => rfl
  | cons step rest ih =>
    obtain ⟨env, request⟩ := step
    have hdepth : (machineLeft (ctx.answer request ⟨env, 0⟩)).depth = 0 :=
      ctx.depth_answer request ⟨env, 0⟩
    simp only [serveEach, hdepth, ih, List.map_cons]

/-- A reused evaluator answers as fresh ones do that hand their environment on. -/
theorem serve_eq_serveFresh (env : Env) (requests : List Request) :
    ctx.serve { env := env } requests = ctx.serveFresh env requests := by
  induction requests generalizing env with
  | nil => rfl
  | cons request rest ih =>
    have hdepth := ctx.depth_answer request { env := env }
    unfold serve serveFresh
    cases hrun : ctx.answer request { env := env } with
    | error fault machine => rfl
    | ok reply machine =>
      rw [hrun] at hdepth
      obtain ⟨final, depth⟩ := machine
      cases hdepth
      exact congrArg _ (ih final)

/-- The nodes that a request refers to lie in the arena. -/
def Admits (ctx : Context) : Request → Prop
  | .fold node => node.index < ctx.arena.size
  | .reduce node => node.index < ctx.arena.size
  | .foldDefinition definition _ => definition.body.index < ctx.arena.size
  | .applyDefinition definition _ => definition.body.index < ctx.arena.size
  | _ => True

variable {ctx}

/-- An attempt without a fault has none when its value is wrapped. -/
theorem exists_bind_pure_eq {α β : Type} {attempt : Attempt α} {machine : Machine}
    (h : ∃ value final, attempt machine = .ok value final) (wrap : α → β) :
    ∃ result final, (attempt >>= fun value => pure (wrap value)) machine = .ok result final := by
  obtain ⟨value, final, hrun⟩ := h
  exact ⟨wrap value, final, by rw [attempt_bind_pure, hrun]⟩

/-- Requests about nodes of the arena are answered. -/
theorem WellFormed.exists_answer_eq (h : ctx.WellFormed) {request : Request}
    (hrequest : ctx.Admits request) (machine : Machine) :
    ∃ reply final, ctx.answer request machine = .ok reply final := by
  cases request with
  | env step => exact ⟨_, _, rfl⟩
  | renewEnv bindings => exact ⟨_, _, rfl⟩
  | lookup name => exact ⟨_, _, rfl⟩
  | fold node =>
    exact exists_bind_pure_eq (exists_settle_eq (h.not_crashes_eval hrequest machine)) _
  | reduce node =>
    exact exists_bind_pure_eq (exists_settle_eq (h.not_crashes_eval hrequest machine)) _
  | foldDefinition definition args =>
    exact exists_bind_pure_eq (exists_settle_eq (h.not_crashes_evalBody hrequest args machine)) _
  | applyDefinition definition args =>
    exact exists_bind_pure_eq (exists_settle_eq (h.not_crashes_evalBody hrequest args machine)) _
  | call callee receiver args =>
    exact exists_bind_pure_eq
      (exists_settle_eq (h.not_crashes_evalCall callee receiver args machine)) _
  | iterationCap => exact ⟨_, _, rfl⟩

end Context

/-! ## Counting without saturation -/

/-- Evaluate a function body in an environment of its own, counting exactly. It is the given fault
to enter more bodies than `limit` or than can be counted, and to leave a body when none is
counted. -/
def countedFrame (violation : Fault) (limit : UInt32) (bindings : List (Name × Literal))
    (body : Eval Literal) : Eval Literal := fun machine =>
  if machine.depth.toNat + 1 < UInt32.size ∧ machine.depth + 1 ≤ limit then
    let ending := body { env := Env.ofBindings bindings, depth := machine.depth + 1 }
    let callee := machineAfter ending
    if 0 < callee.depth then
      endingAt { env := machine.env, depth := callee.depth - 1 } (frameResult ending)
    else
      .error (.crashed violation) callee
  else
    .error (.crashed violation) machine

/-- Below the limit, and if the body keeps the count, counting exactly makes no difference. -/
theorem countedFrame_eq_inFrame (violation : Fault) {limit : UInt32}
    (bindings : List (Name × Literal)) {body : Eval Literal} {machine : Machine}
    (hdepth : machine.depth < limit)
    (hkeeps : ∀ machine, (machineAfter (body machine)).depth = machine.depth) :
    countedFrame violation limit bindings body machine = inFrame bindings body machine := by
  obtain ⟨env, depth⟩ := machine
  have hlt : depth.toNat < limit.toNat := UInt32.lt_iff_toNat_lt.1 hdepth
  have hroom : depth.toNat + 1 < UInt32.size := by
    have := limit.toNat_lt_size
    omega
  have hdeeper : deeper depth = depth + 1 := if_pos hroom
  have hcount := toNat_deeper hdepth
  rw [hdeeper] at hcount
  have hlimit : depth + 1 ≤ limit := by
    rw [UInt32.le_iff_toNat_le, hcount]
    exact hlt
  have hpos : 0 < depth + 1 := by
    rw [UInt32.lt_iff_toNat_lt, hcount]
    exact Nat.succ_pos _
  have hcallee := hkeeps { env := Env.ofBindings bindings, depth := depth + 1 }
  rw [inFrame_eq_endingAt hdepth env hkeeps, hdeeper]
  simp only [countedFrame, hroom, hlimit, and_self, if_true, hcallee, hpos, UInt32.add_sub_cancel]

namespace Context

/-- Evaluate the body of a function on constants, counting exactly. -/
def countedBody (ctx : Context) (violation : Fault) (eval : NodeId → Eval Literal)
    (definition : Definition) (args : List Literal) : Eval Literal := do
  if definition.params.length ≠ args.length then
    giveUp (.arity (ctx.text definition.name) definition.params.length args.length)
  else if ctx.policy.maxCallDepth ≤ (← get).depth then
    fail (.callDepth ctx.policy.maxCallDepth)
  else
    countedFrame violation ctx.policy.maxCallDepth (definition.params.zip args)
      (eval definition.body)

/-- Call a callee on constants, counting exactly. -/
def countedCall (ctx : Context) (violation : Fault) (eval : NodeId → Eval Literal) (callee : Name)
    (receiver : Option Literal) (args : List Literal) : Eval Literal :=
  match receiver, ctx.library.get? callee with
  | none, some definition =>
    if ctx.policy.isEligible (ctx.text callee) then ctx.countedBody violation eval definition args
    else giveUp (.ineligible (ctx.text callee))
  | _, _ => ofResult (evalOperator (ctx.text callee) receiver args)

/-- Evaluate one layer of an expression. Only calls enter function bodies. -/
def countedShape (ctx : Context) (violation : Fault) (eval : NodeId → Eval Literal) :
    Shape Name NodeId → Eval Literal
  | .call callee receiver args => do
    let receiver ← receiver.mapM eval
    let args ← args.mapM eval
    ctx.countedCall violation eval callee receiver args
  | shape => ctx.evalShape eval shape

/-- Evaluate a node with at most `nesting` nodes nested within each other, counting exactly. -/
def countedWithin (ctx : Context) (violation : Fault) : Nat → NodeId → Eval Literal
  | 0, _ => throw (.crashed .unfinished)
  | nesting + 1, id => do
    ctx.countedShape violation (ctx.countedWithin violation nesting)
      (← ofLookup (ctx.arena.shape id))

/-- Evaluate a node, counting exactly. -/
def counted (ctx : Context) (violation : Fault) (id : NodeId) : Eval Literal :=
  ctx.countedWithin violation ctx.maxNesting id

variable (ctx : Context) (violation : Fault)

/-- Counting exactly changes nothing about function bodies, if evaluation restores the count. -/
theorem countedBody_eq_evalBody {eval : NodeId → Eval Literal}
    (heval : ∀ id machine, (machineAfter (eval id machine)).depth = machine.depth)
    (definition : Definition) (args : List Literal) :
    ctx.countedBody violation eval definition args = ctx.evalBody eval definition args := by
  funext machine
  rw [evalBody_apply]
  unfold countedBody
  split
  · rfl
  · simp only [bind_apply, get_apply]
    split
    · rfl
    · next hlimit =>
      exact countedFrame_eq_inFrame violation _ (UInt32.not_le.1 hlimit) (heval definition.body)

/-- Counting exactly changes nothing about calls, if evaluation restores the count. -/
theorem countedCall_eq_evalCall {eval : NodeId → Eval Literal}
    (heval : ∀ id machine, (machineAfter (eval id machine)).depth = machine.depth) (callee : Name)
    (receiver : Option Literal) (args : List Literal) :
    ctx.countedCall violation eval callee receiver args =
      ctx.evalCall eval callee receiver args := by
  have hbody : ctx.countedBody violation eval = ctx.evalBody eval :=
    funext₂ (ctx.countedBody_eq_evalBody violation heval)
  unfold countedCall
  exact hbody ▸ rfl

/-- Counting exactly makes no difference to any evaluation. -/
theorem countedWithin_eq_evalWithin (nesting : Nat) :
    ctx.countedWithin violation nesting = ctx.evalWithin nesting := by
  induction nesting with
  | zero => rfl
  | succ nesting ih =>
    have hshape : ctx.countedShape violation (ctx.evalWithin nesting) =
        ctx.evalShape (ctx.evalWithin nesting) := by
      funext shape
      cases shape <;> simp only [countedShape, evalShape,
        ctx.countedCall_eq_evalCall violation (ctx.depth_evalWithin nesting)]
    funext id
    simp only [countedWithin, evalWithin, evalNode, ih, hshape]

/-- Counting exactly changes nothing about evaluation. -/
theorem counted_eq_eval : ctx.counted violation = ctx.eval := by
  funext id
  rw [counted, countedWithin_eq_evalWithin, eval_def]

variable {ctx}

/-- Every request made of an evaluator that was used before, in whatever environment, is answered as
by a fresh evaluator and leaves the same environment, and requests about nodes of the arena are
always answered. In every evaluation, entering a function body keeps the count within the limit and
within its type, and leaving one takes away what entering it added: an evaluator that counts exactly
and crashes otherwise does the same. -/
theorem WellFormed.requests_independent (h : ctx.WellFormed) :
    (∀ steps : List (Env × Request),
      ctx.serveEach 0 steps = steps.map fun step => ctx.answer step.2 { env := step.1 }) ∧
    (∀ (env : Env) (requests : List Request),
      ctx.serve { env := env } requests = ctx.serveFresh env requests) ∧
    (∀ request, ctx.Admits request → ∀ env : Env,
      ∃ reply final, ctx.answer request { env := env } = .ok reply { env := final }) ∧
    ∀ violation : Fault,
      (∀ id, (ctx.counted violation id).settle = ctx.reduce id) ∧
      (∀ definition args, (ctx.countedBody violation (ctx.counted violation) definition args).settle =
        ctx.applyDefinition definition args) ∧
      ∀ callee receiver args,
        (ctx.countedCall violation (ctx.counted violation) callee receiver args).settle =
          ctx.call callee receiver args := by
  refine ⟨ctx.serveEach_eq_map, ctx.serve_eq_serveFresh, fun request hrequest env => ?_,
    fun violation => ⟨fun id => ?_, fun definition args => ?_, fun callee receiver args => ?_⟩⟩
  · obtain ⟨reply, ⟨final, depth⟩, hrun⟩ := h.exists_answer_eq hrequest { env := env }
    have hdepth := ctx.depth_answer request { env := env }
    rw [hrun] at hdepth
    cases hdepth
    exact ⟨reply, final, hrun⟩
  · rw [counted_eq_eval, reduce]
  · rw [counted_eq_eval, countedBody_eq_evalBody _ _ ctx.depth_eval, applyDefinition]
  · rw [counted_eq_eval, countedCall_eq_evalCall _ _ ctx.depth_eval, call]

/-- A function that calls itself without end and one that gives its argument back. -/
def endless : Context where
  symbols := SymbolTable.ofTexts ["x", "evalForever", "evalSame"]
  library := Library.ofList [{ name := ⟨2⟩, params := [⟨1⟩], body := ⟨1⟩ },
    { name := ⟨3⟩, params := [⟨1⟩], body := ⟨0⟩ }]
  policy := { maxCallDepth := 3 }
  arena :=
    { nodes := #[.var ⟨1⟩, .call ⟨2⟩ none ⟨0, 1⟩]
      spans := Array.replicate 2 Span.nowhere
      args := #[⟨0⟩]
      stmts := #[]
      arms := #[] }

/-- In `endless` children come before their parents, so it is well-formed. -/
theorem endless_wellFormed : endless.WellFormed :=
  .of_ordered (by decide) rfl rfl (by decide)

deriving instance DecidableEq for Reply

/-- A call that nests too deeply, an evaluation of an unbound variable, and a call that is answered
with its argument, after each other. The evaluator that counts exactly nests as deeply. -/
theorem requests_independent_endless :
    endless.WellFormed ∧
    endless.Admits (.reduce ⟨0⟩) ∧
    endless.answer (.reduce ⟨0⟩) {} = .ok (.outcome (.error (.inconclusive (.unbound "x")))) {} ∧
    endless.serveEach 0 [(Env.empty, .call ⟨2⟩ none [.int 1]), (Env.empty, .reduce ⟨0⟩),
        (Env.empty, .call ⟨3⟩ none [.int 1])] =
      [.ok (.outcome (.error (.callDepth 3))) {},
        .ok (.outcome (.error (.inconclusive (.unbound "x")))) {},
        .ok (.outcome (.ok (.int 1))) {}] ∧
    endless.serve {} [.call ⟨2⟩ none [.int 1], .call ⟨3⟩ none [.int 1]] =
      [(.ok (.outcome (.error (.callDepth 3))), Env.empty),
        (.ok (.outcome (.ok (.int 1))), Env.empty)] ∧
    (endless.countedCall .outOfBounds (endless.counted .outOfBounds) ⟨2⟩ none [.int 1]).settle {} =
      .ok (.error (.callDepth 3)) {} := by
  obtain ⟨heach, hserve, -, hcounted⟩ := endless_wellFormed.requests_independent
  obtain ⟨-, -, hcall⟩ := hcounted .outOfBounds
  refine ⟨endless_wellFormed, Nat.zero_lt_two, by decide +kernel, ?_, ?_, ?_⟩
  · rw [heach]
    decide +kernel
  · rw [hserve]
    decide +kernel
  · rw [hcall]
    decide +kernel

end Context

end ConstFold
