import ConstFold.Evaluator.Session

/-!
# Compositional properties of evaluations

Evaluating a node is a composition of few primitive steps, so a property that holds of the steps and
that sequencing keeps holds of evaluating every node. The properties here are about families of
evaluations, indexed by a type `ι`: a family of one evaluation gives invariants, a family of two
relates a pair of runs, and a family indexed by limits says what the limits can change.

`Sequential` asks for what every composite rule needs, `Compositional` adds the clauses for the
rules that touch the environment. The main statement is `Compositional.evalShape`: a compositional
property that holds of evaluating the children of a node holds of evaluating the node.
-/

set_option autoImplicit false

namespace ConstFold

open Eval

/-- The machine that an evaluation leaves, however it ends. -/
def machineAfter {α : Type} : EStateM.Result Exit Machine α → Machine
  | .ok _ machine => machine
  | .error _ machine => machine

/-- A failure is no `return`. -/
theorem Exit.failed_ne_returned (failure : Failure) (value : Literal) :
    Exit.failed failure ≠ .returned value := nofun

/-- A crash is no `return`. -/
theorem Exit.crashed_ne_returned (fault : Fault) (value : Literal) :
    Exit.crashed fault ≠ .returned value := nofun

instance decidableEqEnding {ε σ α : Type} [DecidableEq ε] [DecidableEq σ] [DecidableEq α] :
    DecidableEq (EStateM.Result ε σ α)
  | .ok value state, .ok value' state' =>
    decidable_of_iff (value = value' ∧ state = state') (by simp)
  | .error exit state, .error exit' state' =>
    decidable_of_iff (exit = exit' ∧ state = state') (by simp)
  | .ok .., .error .. => isFalse (by simp)
  | .error .., .ok .. => isFalse (by simp)

/-- What the ending of an evaluation is at the boundary of a function. -/
def atBoundary : EStateM.Result Exit Machine Literal → EStateM.Result Fault Machine Outcome
  | .ok value machine => .ok (.ok value) machine
  | .error (.returned value) machine => .ok (.ok value) machine
  | .error (.failed failure) machine => .ok (.error failure) machine
  | .error (.crashed fault) machine => .error fault machine

/-- Settling an evaluation looks at its ending only. -/
theorem settle_apply (evaluation : Eval Literal) (machine : Machine) :
    evaluation.settle machine = atBoundary (evaluation machine) := by
  unfold Eval.settle atBoundary
  cases evaluation machine with
  | ok value machine => rfl
  | error exit machine => cases exit <;> rfl

/-- Reducing a node is evaluating it up to the boundary of a function. -/
theorem Context.reduce_apply (ctx : Context) (id : NodeId) (machine : Machine) :
    ctx.reduce id machine = atBoundary (ctx.eval id machine) := by
  rw [Context.reduce, settle_apply]

section Steps

variable {α β : Type}

/-- A value leaves the machine it comes with. -/
@[simp] theorem machineAfter_ok (value : α) (machine : Machine) :
    machineAfter (.ok value machine) = machine := rfl

/-- An exit leaves the machine it comes with. -/
@[simp] theorem machineAfter_error (exit : Exit) (machine : Machine) :
    machineAfter (.error exit machine : EStateM.Result Exit Machine α) = machine := rfl

/-- A step after another starts where the first ends, unless the first exits. -/
theorem bind_apply (first : Eval α) (next : α → Eval β) (machine : Machine) :
    (first >>= next) machine =
      match first machine with
      | .ok value machine => next value machine
      | .error exit machine => .error exit machine := by
  show EStateM.bind first next machine = _
  unfold EStateM.bind
  cases first machine <;> rfl

/-- A constant leaves the machine alone. -/
@[simp] theorem pure_apply (value : α) (machine : Machine) :
    (pure value : Eval α) machine = .ok value machine := rfl

/-- An exit leaves the machine alone. -/
@[simp] theorem throw_apply (exit : Exit) (machine : Machine) :
    (throw exit : Eval α) machine = .error exit machine := rfl

/-- Looking at the machine leaves it alone. -/
@[simp] theorem get_apply (machine : Machine) :
    (get : Eval Machine) machine = .ok machine machine := rfl

/-- A failure leaves the machine alone. -/
@[simp] theorem fail_apply (failure : Failure) (machine : Machine) :
    (fail failure : Eval α) machine = .error (.failed failure) machine := rfl

/-- A body in a frame runs in an environment of its own and one level deeper; the caller's machine
comes back however it ends. -/
theorem inFrame_apply (bindings : List (Name × Literal)) (body : Eval Literal) (machine : Machine) :
    inFrame bindings body machine =
      match body { env := Env.ofBindings bindings, depth := deeper machine.depth } with
      | .ok value callee => .ok value { machine with depth := shallower callee.depth }
      | .error (.returned value) callee => .ok value { machine with depth := shallower callee.depth }
      | .error exit callee => .error exit { machine with depth := shallower callee.depth } := rfl

/-- A function body is entered when the number of arguments fits and the nesting allows it. -/
theorem Context.evalBody_apply (ctx : Context) (eval : NodeId → Eval Literal)
    (definition : Definition) (args : List Literal) (machine : Machine) :
    ctx.evalBody eval definition args machine =
      if definition.params.length ≠ args.length then
        .error (.failed (.inconclusive (.arity (ctx.text definition.name)
          definition.params.length args.length))) machine
      else if ctx.policy.maxCallDepth ≤ machine.depth then
        .error (.failed (.callDepth ctx.policy.maxCallDepth)) machine
      else inFrame (definition.params.zip args) (eval definition.body) machine := by
  unfold Context.evalBody
  split
  · rfl
  · simp only [bind_apply, get_apply]
    split <;> rfl

/-- A node is evaluated layer by layer. -/
theorem Context.evalWithin_succ_of_shape (ctx : Context) {id : NodeId} {shape : Shape Name NodeId}
    (hshape : ctx.arena.shape id = .ok shape) (nesting : Nat) :
    ctx.evalWithin (nesting + 1) id = ctx.evalShape (ctx.evalWithin nesting) shape := by
  simp only [evalWithin, evalNode, hshape, ofLookup, pure_bind]

end Steps

variable {ι : Type}

/-- A property of families of evaluations that sequencing keeps and that failures have. -/
structure Sequential (R : (α : Type) → (ι → Eval α) → Prop) : Prop where
  pure : ∀ {α : Type} (value : α), R α fun _ => Pure.pure value
  bind : ∀ {α β : Type} {first : ι → Eval α} {next : ι → α → Eval β},
    R α first → (∀ value, R β fun i => next i value) → R β fun i => first i >>= next i
  fail : ∀ {α : Type} (failure : Failure), R α fun _ => Eval.fail failure

/-- A sequential property that reading a variable, returning, opening a scope and binding a variable
keep. -/
structure Compositional (R : (α : Type) → (ι → Eval α) → Prop) : Prop extends Sequential R where
  returned : ∀ value : Literal, R Literal fun _ => throw (.returned value)
  read : ∀ (name : Name) (reason : Inconclusive),
    R Literal fun _ => do
      match (← get).env.lookup name with
      | some value => return value
      | none => giveUp reason
  inScope : ∀ {body : ι → Eval Literal}, R Literal body → R Literal fun i => Eval.inScope (body i)
  bound : ∀ {value : ι → Eval Literal},
    R Literal value → R (Option Literal) fun i => Eval.bound (value i)
  forget : ∀ name : Name, R Unit fun _ => modifyEnv (·.forget name)
  define : ∀ (name : Name) (value : Literal), R Unit fun _ => modifyEnv (·.define name value)
  assign : ∀ (name : Name) (value : Literal), R Unit fun _ => modifyEnv (·.assign name value)

namespace Sequential

variable {R : (α : Type) → (ι → Eval α) → Prop}

/-- A result that was computed beforehand has a sequential property. -/
theorem ofResult (h : Sequential R) {α : Type} (result : Except Failure α) :
    R α fun _ => Eval.ofResult result := by
  cases result with
  | ok value => exact h.pure value
  | error failure => exact h.fail failure

/-- Evaluating a list of nodes in order. -/
theorem mapM (h : Sequential R) {α β : Type} {step : ι → α → Eval β} {items : List α}
    (hitems : ∀ item ∈ items, R β fun i => step i item) :
    R (List β) fun i => items.mapM (step i) := by
  induction items with
  | nil => simpa using h.pure []
  | cons item rest ih =>
    have hrest := ih fun other hother => hitems other (List.mem_cons_of_mem _ hother)
    simp only [List.mapM_cons]
    refine h.bind (hitems item List.mem_cons_self) fun value => ?_
    exact h.bind hrest fun values => h.pure (value :: values)

/-- Evaluating a node that may be missing. -/
theorem mapM_option (h : Sequential R) {α β : Type} {step : ι → α → Eval β} {item : Option α}
    (hitem : ∀ x ∈ item, R β fun i => step i x) :
    R (Option β) fun i => item.mapM (step i) := by
  cases item with
  | none => exact h.pure none
  | some x => exact h.bind (hitem x rfl) fun value => h.pure (some value)

/-- Evaluating a condition. -/
theorem truth (h : Sequential R) {condition : ι → Eval Literal} (hcondition : R Literal condition) :
    R Bool fun i => Eval.truth (condition i) := by
  refine h.bind hcondition fun value => ?_
  cases value.asBool? with
  | some holds => exact h.pure holds
  | none => exact h.fail (.inconclusive .condition)

/-- Running a loop under one cap for the whole family. The induction is on the rounds left. -/
theorem rounds (h : Sequential R) (cap : UInt32) {condition body : ι → Eval Literal}
    (hcondition : R Literal condition) (hbody : R Literal body) (left : Nat) (last : Literal) :
    R Literal fun i => Eval.rounds cap (condition i) (body i) left last := by
  induction left generalizing last with
  | zero =>
    unfold Eval.rounds
    refine h.bind (h.truth hcondition) fun holds => ?_
    cases holds with
    | true => exact h.fail (.iterationCap cap)
    | false => exact h.pure last
  | succ left ih =>
    unfold Eval.rounds
    refine h.bind (h.truth hcondition) fun holds => ?_
    cases holds with
    | true => exact h.bind hbody fun value => ih value
    | false => exact h.pure last

/-- Evaluating the arms of a conditional. -/
theorem evalArms (h : Sequential R) {eval : ι → NodeId → Eval Literal} {otherwise : Option NodeId}
    {arms : List (Arm NodeId)} (hotherwise : ∀ child ∈ otherwise, R Literal fun i => eval i child)
    (harms : ∀ arm ∈ arms, ∀ child ∈ arm.children, R Literal fun i => eval i child) :
    R Literal fun i => ConstFold.evalArms (eval i) otherwise arms := by
  induction arms with
  | nil =>
    cases otherwise with
    | none => exact h.pure Literal.unit
    | some child => exact hotherwise child rfl
  | cons arm rest ih =>
    have hrest := ih fun other hother => harms other (List.mem_cons_of_mem _ hother)
    have hcondition : R Literal fun i => eval i arm.condition :=
      harms arm List.mem_cons_self _ (by simp [Arm.children])
    have hresult : R Literal fun i => eval i arm.result :=
      harms arm List.mem_cons_self _ (by simp [Arm.children])
    refine h.bind (h.truth hcondition) fun holds => ?_
    cases holds with
    | true => exact hresult
    | false => exact hrest

/-- Evaluating one statement, given the right-hand side and the changes of its own variable. -/
theorem evalStmt (h : Sequential R) {eval : ι → NodeId → Eval Literal} {stmt : Stmt Name NodeId}
    (hexpr : ∀ child, stmt = .expr child → R Literal fun i => eval i child)
    (hbound : ∀ child ∈ stmt.child?, R (Option Literal) fun i => Eval.bound (eval i child))
    (hdeclare : ∀ name init, stmt = .declare name init →
      R Unit (fun _ => modifyEnv (·.forget name)) ∧
        ∀ value, R Unit fun _ => modifyEnv (·.define name value))
    (hassign : ∀ name child, stmt = .assign name child →
      R Unit (fun _ => modifyEnv (·.forget name)) ∧
        ∀ value, R Unit fun _ => modifyEnv (·.assign name value)) :
    R Literal fun i => ConstFold.evalStmt (eval i) stmt := by
  have hunit : R Literal fun _ => Pure.pure Literal.unit := h.pure Literal.unit
  cases stmt with
  | expr child => exact hexpr child rfl
  | declare name init =>
    obtain ⟨hforget, hdefine⟩ := hdeclare name init rfl
    cases init with
    | none => exact h.bind hforget fun _ => hunit
    | some child =>
      refine h.bind (hbound child rfl) fun value => ?_
      cases value with
      | none => exact h.bind hforget fun _ => hunit
      | some value => exact h.bind (hdefine value) fun _ => hunit
  | assign name child =>
    obtain ⟨hforget, hwrite⟩ := hassign name child rfl
    refine h.bind (hbound child rfl) fun value => ?_
    cases value with
    | none => exact h.bind hforget fun _ => hunit
    | some value => exact h.bind (hwrite value) fun _ => hunit

/-- Evaluating statements in order, given a property of each statement. -/
theorem evalStmts (h : Sequential R) {eval : ι → NodeId → Eval Literal}
    {stmts : List (Stmt Name NodeId)}
    (hstmts : ∀ stmt ∈ stmts, R Literal fun i => ConstFold.evalStmt (eval i) stmt) (last : Literal) :
    R Literal fun i => ConstFold.evalStmts (eval i) last stmts := by
  induction stmts generalizing last with
  | nil => exact h.pure last
  | cons stmt rest ih =>
    have hrest := ih fun other hother => hstmts other (List.mem_cons_of_mem _ hother)
    exact h.bind (hstmts stmt List.mem_cons_self) fun value => hrest value

end Sequential

/-- Two contexts that resolve calls in the same way; their arenas and limits may differ. -/
structure Context.Alike (left right : Context) : Prop where
  symbols : left.symbols = right.symbols
  library : left.library = right.library
  marker : left.policy.marker = right.policy.marker

/-- A context resolves calls as it does itself. -/
theorem Context.Alike.refl (ctx : Context) : ctx.Alike ctx := ⟨rfl, rfl, rfl⟩

/-- Alike contexts give names the same texts. -/
theorem Context.Alike.text {left right : Context} (h : left.Alike right) (name : Name) :
    left.text name = right.text name := by
  simp [Context.text, h.symbols]

/-- Calling a callee on constants, given a property of evaluating the bodies of functions. -/
theorem Sequential.evalCall {R : (α : Type) → (ι → Eval α) → Prop} (h : Sequential R)
    (base : Context) (ctx : ι → Context) (halike : ∀ i, (ctx i).Alike base)
    {eval : ι → NodeId → Eval Literal} (callee : Name) (receiver : Option Literal)
    (args : List Literal)
    (hbody : ∀ definition, base.library.get? callee = some definition →
      R Literal fun i => (ctx i).evalBody (eval i) definition args) :
    R Literal fun i => (ctx i).evalCall (eval i) callee receiver args := by
  have htext : ∀ i, (ctx i).text callee = base.text callee := fun i => (halike i).text callee
  have hlibrary : ∀ i, (ctx i).library = base.library := fun i => (halike i).library
  have heligible : ∀ i name, (ctx i).policy.isEligible name = base.policy.isEligible name :=
    fun i name => by simp [Policy.isEligible, (halike i).marker]
  unfold Context.evalCall
  simp only [htext, hlibrary, heligible]
  cases receiver with
  | some value => apply h.ofResult
  | none =>
    cases hget : base.library.get? callee with
    | none => apply h.ofResult
    | some definition =>
      by_cases hname : base.policy.isEligible (base.text callee) = true
      · simpa only [hname, if_true] using hbody definition hget
      · simp only [hname]
        exact h.fail (.inconclusive (.ineligible (base.text callee)))

/-- Evaluating a node, given what sequencing does not settle: reading a variable, calls, loops,
blocks and returns. -/
theorem Sequential.evalShape {R : (α : Type) → (ι → Eval α) → Prop} (h : Sequential R)
    (base : Context) (ctx : ι → Context) (halike : ∀ i, (ctx i).Alike base)
    {eval : ι → NodeId → Eval Literal} {shape : Shape Name NodeId}
    (hchildren : ∀ child ∈ shape.children, R Literal fun i => eval i child)
    (hread : ∀ name, shape = .var name → ∀ reason : Inconclusive,
      R Literal fun _ => do
        match (← get).env.lookup name with
        | some value => return value
        | none => giveUp reason)
    (hcall : ∀ callee receiver args, shape = .call callee receiver args →
      ∀ receiverValue argValues,
        R Literal fun i => (ctx i).evalCall (eval i) callee receiverValue argValues)
    (hloop : ∀ condition body, shape = .loop condition body →
      R Literal (fun i => eval i condition) → R Literal (fun i => eval i body) →
      R Literal fun i => Eval.rounds (ctx i).policy.iterationCap (eval i condition) (eval i body)
        (ctx i).policy.iterationCap.toNat .unit)
    (hblock : ∀ stmts, shape = .block stmts →
      R Literal fun i => Eval.inScope (ConstFold.evalStmts (eval i) .unit stmts))
    (hret : ∀ value, shape = .ret value → ∀ result, R Literal fun _ => throw (.returned result)) :
    R Literal fun i => (ctx i).evalShape (eval i) shape := by
  cases shape with
  | literal value => exact h.pure value
  | var name =>
    have htext : ∀ i, (ctx i).text name = base.text name := fun i => (halike i).text name
    simp only [Context.evalShape, htext]
    exact hread name rfl (.unbound (base.text name))
  | call callee receiver args =>
    have hreceiver : ∀ child ∈ receiver, R Literal fun i => eval i child := by
      intro child hchild
      exact hchildren child (by simp [Shape.children, Option.mem_def.1 hchild])
    have hargs : ∀ child ∈ args, R Literal fun i => eval i child := by
      intro child hchild
      exact hchildren child (by simp [Shape.children, hchild])
    refine h.bind (h.mapM_option hreceiver) fun receiverValue => ?_
    refine h.bind (h.mapM hargs) fun argValues => ?_
    exact hcall callee receiver args rfl receiverValue argValues
  | conditional arms otherwise =>
    refine h.evalArms (fun child hchild => ?_) (fun arm harm child hchild => ?_)
    · exact hchildren child (by simp [Shape.children, Option.mem_def.1 hchild])
    · apply hchildren child
      simp only [Shape.children, List.mem_append, List.mem_flatMap]
      exact .inl ⟨arm, harm, hchild⟩
  | loop condition body =>
    exact hloop condition body rfl (hchildren condition (by simp [Shape.children]))
      (hchildren body (by simp [Shape.children]))
  | block stmts => exact hblock stmts rfl
  | ret value =>
    exact h.bind (hchildren value (by simp [Shape.children])) fun result => hret value rfl result
  | «foreign» children => exact h.fail (.inconclusive .foreign)

namespace Compositional

variable {R : (α : Type) → (ι → Eval α) → Prop}

/-- Evaluating one statement. -/
theorem evalStmt (h : Compositional R) {eval : ι → NodeId → Eval Literal} {stmt : Stmt Name NodeId}
    (hchild : ∀ child ∈ stmt.child?, R Literal fun i => eval i child) :
    R Literal fun i => ConstFold.evalStmt (eval i) stmt :=
  h.toSequential.evalStmt (fun child heq => hchild child (by rw [heq]; rfl))
    (fun child hmem => h.bound (hchild child hmem))
    (fun name _ _ => ⟨h.forget name, h.define name⟩) fun name _ _ => ⟨h.forget name, h.assign name⟩

/-- A compositional property that holds of evaluating the children of a node, of the calls and of
the loops holds of evaluating the node. -/
theorem evalShape (h : Compositional R) (base : Context) (ctx : ι → Context)
    (halike : ∀ i, (ctx i).Alike base) {eval : ι → NodeId → Eval Literal}
    {shape : Shape Name NodeId}
    (hchildren : ∀ child ∈ shape.children, R Literal fun i => eval i child)
    (hcall : ∀ callee receiver args,
      R Literal fun i => (ctx i).evalCall (eval i) callee receiver args)
    (hloop : ∀ condition body, R Literal (fun i => eval i condition) →
      R Literal (fun i => eval i body) →
      R Literal fun i => Eval.rounds (ctx i).policy.iterationCap (eval i condition) (eval i body)
        (ctx i).policy.iterationCap.toNat .unit) :
    R Literal fun i => (ctx i).evalShape (eval i) shape := by
  refine h.toSequential.evalShape base ctx halike hchildren (fun name _ => h.read name)
    (fun _ _ _ _ => hcall _) (fun condition body _ => hloop condition body) ?_ fun _ _ => h.returned
  rintro stmts rfl
  refine h.inScope (h.evalStmts (fun stmt hstmt => ?_) .unit)
  refine h.evalStmt fun child hchild => hchildren child ?_
  simp only [Shape.children, List.mem_filterMap]
  exact ⟨stmt, hstmt, hchild⟩

end Compositional

end ConstFold
