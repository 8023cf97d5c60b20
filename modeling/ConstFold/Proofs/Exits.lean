import ConstFold.Proofs.Iteration

/-!
# Returns and halting failures

Evaluating a node comes to evaluating its children one after the other, as long as those before
have a value. `Enters` says, place by place, when a child is come to and on which machine; it leaves
open what stands in the places not yet come to. `Context.Reaches` is any number of such steps.

A `return`, and a failure that halts the evaluation, is how every node ends in whose tree it was
reached: no place goes on after it, and leaving a block only closes its scope
(`Enters.evalShape_eq`, `Context.WellFormed.eval_of_reaches`). In the other direction, a node can
only `return` from a reached node that does (`Context.WellFormed.exists_ret_of_returned`). At the
boundary of a function body a `return` becomes a value and a failure stays one
(`Context.WellFormed.eval_of_invokes`).

The main statement is `Context.WellFormed.abrupt_exit_surfaces`.
-/

set_option autoImplicit false

namespace ConstFold

open Eval

/-- The exits that no place within a function body stops: a `return`, and a failure that halts the
evaluation. -/
inductive Exit.Abrupt : Exit → Prop where
  | returned (value : Literal) : Abrupt (.returned value)
  | halted {failure : Failure} : failure.halts = true → Abrupt (.failed failure)

/-- Close the innermost scopes. -/
def Machine.close (machine : Machine) (opened : Nat) : Machine :=
  { machine with env := { machine.env with inner := machine.env.inner.drop opened } }

/-- Closing no scope changes nothing. -/
@[simp] theorem Machine.close_zero (machine : Machine) : machine.close 0 = machine := rfl

/-- Closing one scope drops the innermost. -/
theorem Machine.close_one (machine : Machine) :
    machine.close 1 = { machine with env := machine.env.pop } := by
  simp [close, Env.pop]

/-- Scopes may be closed in two goes. -/
theorem Machine.close_close (machine : Machine) (opened opened' : Nat) :
    (machine.close opened).close opened' = machine.close (opened + opened') := by
  simp [close]

/-- The machine on which a caller has the body of a function evaluated. -/
def Machine.enter (caller : Machine) (definition : Definition) (args : List Literal) : Machine where
  env := Env.ofBindings (definition.params.zip args)
  depth := deeper caller.depth

/-! ## Coming to a child -/

section Enters

variable (eval : NodeId → Eval Literal)

/-- The conditions of these arms are false, one after the other. -/
inductive Refuses : List (Arm NodeId) → Machine → Machine → Prop where
  | nil (machine : Machine) : Refuses [] machine machine
  | cons {arm : Arm NodeId} {rest : List (Arm NodeId)} {machine tested reached : Machine} :
      eval arm.condition machine = .ok (.bool false) tested → Refuses rest tested reached →
      Refuses (arm :: rest) machine reached

/-- Evaluating a node of this shape from `machine` comes to evaluating a child, with so many more
scopes open. The loops have a cap. -/
inductive Enters (cap : UInt32) (machine : Machine) :
    Shape Name NodeId → Nat → NodeId → Machine → Prop where
  | receiver {callee : Name} {child : NodeId} {args : List NodeId} :
      Enters cap machine (.call callee (some child) args) 0 child machine
  | argument {callee : Name} {receiver : Option NodeId} {before after : List NodeId}
      {child : NodeId} {receiverValue : Option Literal} {values : List Literal}
      {called reached : Machine} :
      receiver.mapM eval machine = .ok receiverValue called →
      before.mapM eval called = .ok values reached →
      Enters cap machine (.call callee receiver (before ++ child :: after)) 0 child reached
  | condition {before after : List (Arm NodeId)} {arm : Arm NodeId} {otherwise : Option NodeId}
      {reached : Machine} : Refuses eval before machine reached →
      Enters cap machine (.conditional (before ++ arm :: after) otherwise) 0 arm.condition reached
  | result {before after : List (Arm NodeId)} {arm : Arm NodeId} {otherwise : Option NodeId}
      {tested reached : Machine} : Refuses eval before machine tested →
      eval arm.condition tested = .ok (.bool true) reached →
      Enters cap machine (.conditional (before ++ arm :: after) otherwise) 0 arm.result reached
  | otherwise {arms : List (Arm NodeId)} {child : NodeId} {reached : Machine} :
      Refuses eval arms machine reached →
      Enters cap machine (.conditional arms (some child)) 0 child reached
  | test {condition body : NodeId} {count : Nat} {last : Literal} {reached : Machine} :
      Iterates (eval condition) (eval body) machine count last reached → count ≤ cap.toNat →
      Enters cap machine (.loop condition body) 0 condition reached
  | round {condition body : NodeId} {count : Nat} {last : Literal} {tested reached : Machine} :
      Iterates (eval condition) (eval body) machine count last tested → count < cap.toNat →
      eval condition tested = .ok (.bool true) reached →
      Enters cap machine (.loop condition body) 0 body reached
  | statement {before after : List (Stmt Name NodeId)} {stmt : Stmt Name NodeId} {child : NodeId}
      {last : Literal} {reached : Machine} :
      evalStmts eval .unit before { machine with env := machine.env.push } = .ok last reached →
      child ∈ stmt.child? → Enters cap machine (.block (before ++ stmt :: after)) 1 child reached
  | operand {child : NodeId} : Enters cap machine (.ret child) 0 child machine

end Enters

variable {eval : NodeId → Eval Literal} {machine reached : Machine}

/-- What is come to is a child of the node. -/
theorem Enters.mem_children {cap : UInt32} {shape : Shape Name NodeId} {opened : Nat}
    {child : NodeId} (h : Enters eval cap machine shape opened child reached) :
    child ∈ shape.children := by
  cases h with
  | receiver => simp [Shape.children]
  | argument => simp [Shape.children]
  | condition => simp [Shape.children, Arm.children]
  | result => simp [Shape.children, Arm.children]
  | otherwise => simp [Shape.children]
  | test => simp [Shape.children]
  | round => simp [Shape.children]
  | statement hbefore hchild =>
    simp only [Shape.children, List.mem_filterMap]
    exact ⟨_, by simp, hchild⟩
  | operand => simp [Shape.children]

/-! ## What was done before the child -/

/-- Arms with false conditions are gone past. -/
theorem Refuses.evalArms_append {before : List (Arm NodeId)}
    (h : Refuses eval before machine reached) (otherwise : Option NodeId)
    (rest : List (Arm NodeId)) :
    evalArms eval otherwise (before ++ rest) machine = evalArms eval otherwise rest reached := by
  induction h with
  | nil => rfl
  | cons hcondition _ ih =>
    rw [List.cons_append, evalArms, bind_apply, truth_of_bool hcondition]
    exact ih

/-- Statements are evaluated one after the other, each with the value of those before it. -/
theorem evalStmts_append (eval : NodeId → Eval Literal) (last : Literal)
    (before rest : List (Stmt Name NodeId)) :
    evalStmts eval last (before ++ rest) =
      evalStmts eval last before >>= fun value => evalStmts eval value rest := by
  induction before generalizing last with
  | nil => simp [evalStmts]
  | cons stmt before ih => simp only [List.cons_append, evalStmts, ih, bind_assoc]

/-- The right-hand side of a statement ends the statement when it ends abruptly; binding a variable
goes on after other failures only. -/
theorem evalStmt_of_exit {stmt : Stmt Name NodeId} {child : NodeId} (hchild : child ∈ stmt.child?)
    {exit : Exit} (habrupt : exit.Abrupt) {after : Machine}
    (h : eval child machine = .error exit after) :
    evalStmt eval stmt machine = .error exit after := by
  have hbound : bound (eval child) machine = .error exit after := by
    cases habrupt with
    | returned value => simp only [bound, h]
    | halted hhalts => simp only [bound, h, hhalts, if_true]
  cases stmt with
  | expr value =>
    cases hchild
    exact h
  | declare name init =>
    cases hchild
    simp only [evalStmt, bind_apply, hbound]
  | assign name value =>
    cases hchild
    simp only [evalStmt, bind_apply, hbound]

/-- An abrupt exit of a child that is come to is the exit of the node. -/
theorem Enters.evalShape_eq (ctx : Context) {shape : Shape Name NodeId} {opened : Nat}
    {child : NodeId} (h : Enters eval ctx.policy.iterationCap machine shape opened child reached)
    {exit : Exit} (habrupt : exit.Abrupt) {after : Machine}
    (hchild : eval child reached = .error exit after) :
    ctx.evalShape eval shape machine = .error exit (after.close opened) := by
  cases h with
  | receiver =>
    have hreceiver : (some child).mapM eval machine = .error exit after := by
      show (eval child >>= fun value => pure (some value)) machine = _
      rw [bind_apply, hchild]
    simp only [Context.evalShape, bind_apply, hreceiver, Machine.close_zero]
  | argument hreceiver hbefore =>
    simp only [Context.evalShape, List.mapM_append, List.mapM_cons, bind_apply, hreceiver, hbefore,
      hchild, Machine.close_zero]
  | condition hbefore =>
    simp only [Context.evalShape, hbefore.evalArms_append, evalArms, bind_apply,
      truth_of_exit hchild, Machine.close_zero]
  | result hbefore hcondition =>
    simp only [Context.evalShape, hbefore.evalArms_append, evalArms, bind_apply,
      truth_of_bool hcondition, if_true, hchild, Machine.close_zero]
  | otherwise hbefore =>
    have harms := hbefore.evalArms_append (some child) []
    simpa only [Context.evalShape, List.append_nil, evalArms, hchild, Machine.close_zero]
      using harms
  | test hrounds hcount =>
    exact (hrounds.rounds_eq hcount).trans (Ends.untested hchild).rounds_eq
  | round hrounds hcount hcondition =>
    exact (hrounds.rounds_eq (Nat.le_of_lt hcount)).trans
      (Ends.broken hcondition hcount hchild).rounds_eq
  | statement hbefore hmem =>
    have hstmt := evalStmt_of_exit hmem habrupt hchild
    simp only [Context.evalShape, inScope, evalStmts_append, bind_apply, hbefore, evalStmts, hstmt,
      Machine.close_one]
  | operand => simp only [Context.evalShape, bind_apply, hchild, Machine.close_zero]

/-! ## Where a `return` comes from -/

/-- A sequence exits where its first step does or, if that has a value, where the second does. -/
theorem bind_eq_error_iff {α β : Type} {first : Eval α} {next : α → Eval β} {exit : Exit}
    {after : Machine} :
    (first >>= next) machine = .error exit after ↔
      first machine = .error exit after ∨
        ∃ value between, first machine = .ok value between ∧
          next value between = .error exit after := by
  rw [bind_apply]
  cases first machine <;> simp

/-- A node that may be missing exits only if it is there and exits. -/
theorem mapM_option_eq_error {item : Option NodeId} {exit : Exit} {after : Machine}
    (h : item.mapM eval machine = .error exit after) :
    ∃ child, item = some child ∧ eval child machine = .error exit after := by
  cases item with
  | none => cases h
  | some child =>
    have hchild : (eval child >>= fun value => pure (some value)) machine = .error exit after := h
    rw [bind_eq_error_iff] at hchild
    rcases hchild with hchild | ⟨value, between, -, hpure⟩
    · exact ⟨child, rfl, hchild⟩
    · cases hpure

/-- The first of a list of nodes without a value ends the list. -/
theorem mapM_eq_error {children : List NodeId} {exit : Exit} {after : Machine}
    (h : children.mapM eval machine = .error exit after) :
    ∃ before child rest values reached, children = before ++ child :: rest ∧
      before.mapM eval machine = .ok values reached ∧ eval child reached = .error exit after := by
  induction children generalizing machine with
  | nil => cases h
  | cons child rest ih =>
    rw [List.mapM_cons, bind_eq_error_iff] at h
    rcases h with hchild | ⟨value, between, hchild, hrest⟩
    · exact ⟨[], child, rest, [], machine, rfl, rfl, hchild⟩
    · rw [bind_eq_error_iff] at hrest
      rcases hrest with hrest | ⟨values, final, -, hpure⟩
      · obtain ⟨before, other, rest, values, reached, rfl, hbefore, hother⟩ := ih hrest
        refine ⟨child :: before, other, rest, value :: values, reached, rfl, ?_, hother⟩
        simp only [List.mapM_cons, bind_apply, hchild, hbefore, pure_apply]
      · cases hpure

/-- A condition that is no truth value is a failure, not a `return`. -/
theorem truth_eq_returned {condition : Eval Literal} {value : Literal} {after : Machine}
    (h : truth condition machine = .error (.returned value) after) :
    condition machine = .error (.returned value) after := by
  rw [truth, bind_eq_error_iff] at h
  rcases h with hcondition | ⟨found, between, -, hfound⟩
  · exact hcondition
  · cases hbool : found.asBool? <;> rw [hbool] at hfound <;> cases hfound

/-- A condition holds or not as its value says. -/
theorem truth_eq_ok {condition : Eval Literal} {holds : Bool} {after : Machine}
    (h : truth condition machine = .ok holds after) :
    condition machine = .ok (.bool holds) after := by
  rw [truth, bind_apply] at h
  cases hcondition : condition machine with
  | error exit between =>
    rw [hcondition] at h
    cases h
  | ok found between =>
    rw [hcondition] at h
    cases found <;> cases h
    rfl

/-- What is come to in the arms that follow a false condition. -/
theorem Enters.cons_arm {cap : UInt32} {arm : Arm NodeId} {rest : List (Arm NodeId)}
    {otherwise : Option NodeId} {child : NodeId} {tested : Machine}
    (hcondition : eval arm.condition machine = .ok (.bool false) tested)
    (h : Enters eval cap tested (.conditional rest otherwise) 0 child reached) :
    Enters eval cap machine (.conditional (arm :: rest) otherwise) 0 child reached := by
  cases h with
  | condition hbefore => exact .condition (Refuses.cons hcondition hbefore)
  | result hbefore hholds => exact .result (Refuses.cons hcondition hbefore) hholds
  | otherwise hbefore => exact .otherwise (.cons hcondition hbefore)

/-- A conditional that ends in a `return` came to a condition or result that ends so. -/
theorem evalArms_eq_returned (cap : UInt32) {otherwise : Option NodeId} {arms : List (Arm NodeId)}
    {value : Literal} {after : Machine}
    (h : evalArms eval otherwise arms machine = .error (.returned value) after) :
    ∃ child reached, Enters eval cap machine (.conditional arms otherwise) 0 child reached ∧
      eval child reached = .error (.returned value) after := by
  induction arms generalizing machine with
  | nil =>
    cases otherwise with
    | none => cases h
    | some child => exact ⟨child, machine, .otherwise (.nil machine), h⟩
  | cons arm rest ih =>
    rw [evalArms, bind_eq_error_iff] at h
    rcases h with htruth | ⟨holds, tested, htruth, hnext⟩
    · have hcondition := truth_eq_returned htruth
      exact ⟨arm.condition, machine, .condition (Refuses.nil machine), hcondition⟩
    · have hcondition := truth_eq_ok htruth
      cases holds with
      | true =>
        exact ⟨arm.result, tested, .result (Refuses.nil machine) hcondition, hnext⟩
      | false =>
        obtain ⟨child, reached, hchild, hreturned⟩ := ih hnext
        exact ⟨child, reached, hchild.cons_arm hcondition, hreturned⟩

/-- A loop that ends in a `return` came to its condition or its body, which ended so. -/
theorem rounds_eq_returned {cap : UInt32} {condition body : NodeId} {value : Literal}
    {after : Machine}
    (h : rounds cap (eval condition) (eval body) cap.toNat .unit machine =
      .error (.returned value) after) :
    ∃ child reached, Enters eval cap machine (.loop condition body) 0 child reached ∧
      eval child reached = .error (.returned value) after := by
  obtain ⟨count, last, reached, begun, ending, hcount, hrounds, hends⟩ :=
    (Iterates.idle : Iterates (eval condition) (eval body) machine 0 .unit machine).exists_ends cap
      (Nat.zero_add _)
  rw [hrounds.rounds_eq hcount, hends.rounds_eq] at h
  subst h
  cases hends with
  | untested hcondition => exact ⟨condition, reached, .test hrounds hcount, hcondition⟩
  | broken hcondition hlt hbody => exact ⟨body, _, .round hrounds hlt hcondition, hbody⟩

/-- Statements that exit have a first one that exits. -/
theorem evalStmts_eq_error {stmts : List (Stmt Name NodeId)} {last : Literal} {exit : Exit}
    {after : Machine} (h : evalStmts eval last stmts machine = .error exit after) :
    ∃ before stmt rest value reached, stmts = before ++ stmt :: rest ∧
      evalStmts eval last before machine = .ok value reached ∧
      evalStmt eval stmt reached = .error exit after := by
  induction stmts generalizing machine last with
  | nil => cases h
  | cons stmt rest ih =>
    rw [evalStmts, bind_eq_error_iff] at h
    rcases h with hstmt | ⟨value, between, hstmt, hrest⟩
    · exact ⟨[], stmt, rest, last, machine, rfl, rfl, hstmt⟩
    · obtain ⟨before, other, rest, final, reached, rfl, hbefore, hother⟩ := ih hrest
      refine ⟨stmt :: before, other, rest, final, reached, rfl, ?_, hother⟩
      rw [evalStmts, bind_apply, hstmt]
      exact hbefore

/-- A right-hand side that ends in a `return` did so itself. -/
theorem bound_eq_returned {evaluation : Eval Literal} {value : Literal} {after : Machine}
    (h : bound evaluation machine = .error (.returned value) after) :
    evaluation machine = .error (.returned value) after := by
  unfold bound at h
  cases hrun : evaluation machine with
  | ok found between =>
    rw [hrun] at h
    cases h
  | error exit between =>
    rw [hrun] at h
    cases exit with
    | returned found =>
      cases h
      rfl
    | failed failure => by_cases hhalts : failure.halts = true <;> simp [hhalts] at h
    | crashed fault => cases h

/-- A statement can only `return` from its right-hand side. -/
theorem evalStmt_eq_returned {stmt : Stmt Name NodeId} {value : Literal} {after : Machine}
    (h : evalStmt eval stmt machine = .error (.returned value) after) :
    ∃ child ∈ stmt.child?, eval child machine = .error (.returned value) after := by
  cases stmt with
  | expr child => exact ⟨child, rfl, h⟩
  | declare name init =>
    cases init with
    | none => cases h
    | some child =>
      rw [evalStmt, bind_eq_error_iff] at h
      rcases h with hbound | ⟨found, between, -, hnext⟩
      · exact ⟨child, rfl, bound_eq_returned hbound⟩
      · cases found <;> cases hnext
  | assign name child =>
    rw [evalStmt, bind_eq_error_iff] at h
    rcases h with hbound | ⟨found, between, -, hnext⟩
    · exact ⟨child, rfl, bound_eq_returned hbound⟩
    · cases found <;> cases hnext

/-- A node that ends in a `return` is one itself, or it came to a child that ends so. Calls do not:
they are left with a value. -/
theorem evalShape_eq_returned (ctx : Context)
    (hcall : ∀ callee receiver args machine value after,
      ctx.evalCall eval callee receiver args machine ≠ .error (.returned value) after)
    {shape : Shape Name NodeId} {value : Literal} {after : Machine}
    (h : ctx.evalShape eval shape machine = .error (.returned value) after) :
    (∃ operand, shape = .ret operand ∧ eval operand machine = .ok value after) ∨
      ∃ opened child reached final,
        Enters eval ctx.policy.iterationCap machine shape opened child reached ∧
        eval child reached = .error (.returned value) final := by
  cases shape with
  | literal found => cases h
  | var name =>
    simp only [Context.evalShape, bind_apply, get_apply] at h
    cases hname : machine.env.lookup name <;> rw [hname] at h <;> cases h
  | call callee receiver args =>
    right
    rw [Context.evalShape, bind_eq_error_iff] at h
    rcases h with hreceiver | ⟨receiverValue, called, hreceiver, h⟩
    · obtain ⟨child, rfl, hchild⟩ := mapM_option_eq_error hreceiver
      exact ⟨0, child, machine, after, .receiver, hchild⟩
    · rw [bind_eq_error_iff] at h
      rcases h with hargs | ⟨argValues, between, -, h⟩
      · obtain ⟨before, child, rest, values, reached, rfl, hbefore, hchild⟩ := mapM_eq_error hargs
        exact ⟨0, child, reached, after, .argument hreceiver hbefore, hchild⟩
      · exact absurd h (hcall callee receiverValue argValues between value after)
  | conditional arms otherwise =>
    obtain ⟨child, reached, hchild, hreturned⟩ := evalArms_eq_returned ctx.policy.iterationCap h
    exact .inr ⟨0, child, reached, after, hchild, hreturned⟩
  | loop condition body =>
    obtain ⟨child, reached, hchild, hreturned⟩ := rounds_eq_returned h
    exact .inr ⟨0, child, reached, after, hchild, hreturned⟩
  | block stmts =>
    right
    simp only [Context.evalShape, inScope] at h
    cases hrun : evalStmts eval .unit stmts { machine with env := machine.env.push } with
    | ok found final =>
      rw [hrun] at h
      cases h
    | error exit final =>
      rw [hrun] at h
      cases h
      obtain ⟨before, stmt, rest, last, reached, rfl, hbefore, hstmt⟩ := evalStmts_eq_error hrun
      obtain ⟨child, hmem, hchild⟩ := evalStmt_eq_returned hstmt
      exact ⟨1, child, reached, final, .statement hbefore hmem, hchild⟩
  | ret operand =>
    rw [Context.evalShape, bind_eq_error_iff] at h
    rcases h with hoperand | ⟨found, between, hoperand, hthrow⟩
    · exact .inr ⟨0, operand, machine, after, .operand, hoperand⟩
    · cases hthrow
      exact .inl ⟨operand, rfl, hoperand⟩
  | «foreign» children => cases h

/-! ## Coming to a node of the tree -/

namespace Context

/-- Evaluating `node` from `machine` comes to evaluating `hole` from `reached`, any number of places
further in and with `opened` more scopes open. -/
inductive Reaches (ctx : Context) : NodeId → Machine → Nat → NodeId → Machine → Prop where
  | here (node : NodeId) (machine : Machine) : Reaches ctx node machine 0 node machine
  | inside {node child hole : NodeId} {machine entered reached : Machine}
      {shape : Shape Name NodeId} {opened opened' : Nat} : ctx.arena.shape node = .ok shape →
      Enters ctx.eval ctx.policy.iterationCap machine shape opened child entered →
      Reaches ctx child entered opened' hole reached →
      Reaches ctx node machine (opened' + opened) hole reached

/-- Evaluating `node` from `machine` comes to evaluating the body of a function on these constants:
the node is a call of an eligible function of the library, with as many arguments as it has
parameters and within the limit on nesting. The caller goes on from `caller`. -/
inductive Invokes (ctx : Context) (node : NodeId) (machine : Machine) :
    Definition → List Literal → Machine → Prop where
  | call {callee : Name} {args : List NodeId} {definition : Definition} {values : List Literal}
      {caller : Machine} : ctx.arena.shape node = .ok (.call callee none args) →
      args.mapM ctx.eval machine = .ok values caller →
      ctx.library.get? callee = some definition → ctx.policy.isEligible (ctx.text callee) = true →
      definition.params.length = values.length → caller.depth < ctx.policy.maxCallDepth →
      Invokes ctx node machine definition values caller

variable {ctx : Context} {node hole : NodeId} {machine reached : Machine} {opened : Nat}

/-- What is reached lies in the tree of the node. -/
theorem Reaches.inTree (h : ctx.Reaches node machine opened hole reached) :
    ctx.arena.InTree node hole := by
  induction h with
  | here node machine => exact .refl
  | inside hshape henters _ ih => exact ih.tail ⟨_, hshape, henters.mem_children⟩

/-- Whatever is come to on the way, an abrupt exit goes all the way out. The induction is on the
places, from the outermost in. -/
theorem WellFormed.eval_of_reaches (h : ctx.WellFormed)
    (hreaches : ctx.Reaches node machine opened hole reached) {exit : Exit} (habrupt : exit.Abrupt)
    {after : Machine} (hhole : ctx.eval hole reached = .error exit after) :
    ctx.eval node machine = .error exit (after.close opened) := by
  induction hreaches with
  | here node machine => exact hhole
  | inside hshape henters _ ih =>
    rw [h.eval_eq_evalShape hshape, henters.evalShape_eq ctx habrupt (ih hhole),
      Machine.close_close]

/-- A call does not end in a `return`, for that of a function body ends there. -/
theorem evalCall_ne_returned (ctx : Context) (callee : Name) (receiver : Option Literal)
    (args : List Literal) (machine : Machine) (value : Literal) (after : Machine) :
    ctx.evalCall ctx.eval callee receiver args machine ≠ .error (.returned value) after := by
  obtain ⟨result, hreturned, hrun⟩ :=
    ctx.detached_evalCall ctx.maxNesting callee receiver args machine.depth
  rw [eval_def, hrun machine.env]
  cases result with
  | ok found => exact nofun
  | error exit =>
    rintro ⟨⟩
    exact hreturned value rfl

/-- A `return` comes from a node of the tree that is one, and it brings the value of the operand.
The induction follows the child references. -/
theorem WellFormed.exists_ret_of_returned (h : ctx.WellFormed) {value : Literal} {after : Machine}
    (hreturned : ctx.eval node machine = .error (.returned value) after)
    (hnode : node.index < ctx.arena.size) :
    ∃ opened hole reached operand final, ctx.Reaches node machine opened hole reached ∧
      ctx.arena.shape hole = .ok (.ret operand) ∧ ctx.eval operand reached = .ok value final := by
  induction node using h.arena.wellFounded.induction generalizing machine after with
  | _ node ih =>
    obtain ⟨shape, hshape⟩ := h.arena.readable node hnode
    rw [h.eval_eq_evalShape hshape] at hreturned
    rcases evalShape_eq_returned ctx ctx.evalCall_ne_returned hreturned with
      ⟨operand, rfl, hoperand⟩ | ⟨opened, child, entered, final, henters, hchild⟩
    · exact ⟨0, node, machine, operand, after, .here node machine, hshape, hoperand⟩
    · have hbelow : ctx.arena.Child child node := ⟨shape, hshape, henters.mem_children⟩
      obtain ⟨opened', hole, reached, operand, last, hreaches, hret, hoperand⟩ :=
        ih child hbelow hchild (h.arena.inBounds hbelow)
      exact ⟨_, hole, reached, operand, last, .inside hshape henters hreaches, hret, hoperand⟩

/-- A call comes to what the function body comes to for its caller. -/
theorem WellFormed.eval_of_invokes (h : ctx.WellFormed) {definition : Definition}
    {args : List Literal} {caller : Machine}
    (hinvokes : ctx.Invokes node machine definition args caller) :
    ctx.eval node machine =
      endingAt caller (frameResult (ctx.eval definition.body (caller.enter definition args))) := by
  obtain ⟨hshape, hargs, hget, heligible, hparams, hdepth⟩ := hinvokes
  have hkeeps : ∀ start, (machineAfter (ctx.eval definition.body start)).depth = start.depth := by
    rw [eval_def]
    exact ctx.depth_evalWithin _ definition.body
  have hbody := ctx.evalBody_apply ctx.eval definition args caller
  rw [if_neg (not_not.2 hparams), if_neg (UInt32.not_le.2 hdepth),
    inFrame_eq_endingAt hdepth caller.env hkeeps] at hbody
  rw [h.eval_eq_evalShape hshape]
  have hnone : (none : Option NodeId).mapM ctx.eval machine = .ok none machine := rfl
  simp only [evalShape, bind_apply, hnone, hargs, evalCall, hget, heligible, if_true]
  exact hbody

/-- A `return` or a halting failure that is reached anywhere in the tree of a node is how the node
ends; the scopes opened on the way are closed and nothing else is done. A node ends in a `return`
only if its own tree has one that is reached. In a function body a `return` becomes the value of the
call, and a halting failure that is reached there is the failure of the call. -/
theorem WellFormed.abrupt_exit_surfaces (h : ctx.WellFormed) (hnode : node.index < ctx.arena.size)
    (machine : Machine) :
    (∀ opened hole reached exit after, ctx.Reaches node machine opened hole reached →
      exit.Abrupt → ctx.eval hole reached = .error exit after →
      ctx.eval node machine = .error exit (after.close opened)) ∧
    (∀ value after, ctx.eval node machine = .error (.returned value) after →
      ∃ opened hole reached operand final, ctx.arena.InTree node hole ∧
        ctx.arena.shape hole = .ok (.ret operand) ∧ ctx.Reaches node machine opened hole reached ∧
        ctx.eval operand reached = .ok value final) ∧
    ∀ definition args caller, ctx.Invokes node machine definition args caller →
      (∀ value after,
        ctx.eval definition.body (caller.enter definition args) = .error (.returned value) after →
        ctx.eval node machine = .ok value caller) ∧
      ∀ opened hole reached failure after,
        ctx.Reaches definition.body (caller.enter definition args) opened hole reached →
        failure.halts = true → ctx.eval hole reached = .error (.failed failure) after →
        ctx.eval node machine = .error (.failed failure) caller := by
  refine ⟨fun opened hole reached exit after hreaches habrupt hhole =>
    h.eval_of_reaches hreaches habrupt hhole, fun value after hreturned => ?_,
    fun definition args caller hinvokes => ⟨fun value after hbody => ?_, ?_⟩⟩
  · obtain ⟨opened, hole, reached, operand, final, hreaches, hret, hoperand⟩ :=
      h.exists_ret_of_returned hreturned hnode
    exact ⟨opened, hole, reached, operand, final, hreaches.inTree, hret, hreaches, hoperand⟩
  · rw [h.eval_of_invokes hinvokes, hbody]
    rfl
  · intro opened hole reached failure after hreaches hhalts hhole
    have hbody := h.eval_of_reaches hreaches (.halted hhalts) hhole
    rw [h.eval_of_invokes hinvokes, hbody]
    rfl

/-- A function that returns one, from an arm within the initializer of a variable. -/
def firstFunction : Definition where
  name := ⟨3⟩
  params := []
  body := ⟨5⟩

/-- The function, and a block that divides its result by zero. -/
def leaving : Context where
  symbols := SymbolTable.ofTexts ["x", "div", "evalFirst"]
  library := Library.ofList [firstFunction]
  policy := {}
  arena :=
    { nodes := #[.literal (.bool true), .literal (.int 1), .ret ⟨1⟩, .conditional ⟨0, 1⟩ none,
        .literal (.int 5), .block ⟨0, 2⟩, .call ⟨3⟩ none ⟨0, 0⟩, .literal (.int 0),
        .call ⟨2⟩ (some ⟨6⟩) ⟨0, 1⟩, .block ⟨2, 2⟩]
      spans := Array.replicate 10 Span.nowhere
      args := #[⟨7⟩]
      stmts := #[.declare ⟨1⟩ (some ⟨3⟩), .expr ⟨4⟩, .assign ⟨1⟩ ⟨8⟩, .expr ⟨4⟩]
      arms := #[⟨⟨0⟩, ⟨2⟩⟩] }

/-- In `leaving` children come before their parents, so it is well-formed. -/
theorem leaving_wellFormed : leaving.WellFormed :=
  .of_ordered (by decide) rfl rfl (by decide)

/-- The machine within the block of the function body. -/
def withinFirst : Machine where
  env := Env.empty.push
  depth := 1

/-- The machine within the block that divides. -/
def withinLeaving : Machine where
  env := Env.empty.push

/-- The function body ends in the `return`, the call is left with its value, and the division ends
the block although the quotient is only assigned. -/
theorem abrupt_exit_surfaces_leaving :
    leaving.WellFormed ∧
    leaving.Reaches ⟨5⟩ (Machine.enter {} firstFunction []) 1 ⟨2⟩ withinFirst ∧
    leaving.Reaches ⟨9⟩ {} 1 ⟨8⟩ withinLeaving ∧
    leaving.Invokes ⟨6⟩ {} firstFunction [] {} ∧
    leaving.eval ⟨6⟩ {} = .ok (.int 1) {} ∧
    leaving.eval ⟨9⟩ {} = .error (.failed .divisionByZero) {} := by
  have hreturn : leaving.Reaches ⟨5⟩ (Machine.enter {} firstFunction []) 1 ⟨2⟩ withinFirst := by
    have hinit : Enters leaving.eval leaving.policy.iterationCap (Machine.enter {} firstFunction [])
        (.block ([] ++ .declare ⟨1⟩ (some ⟨3⟩) :: [.expr ⟨4⟩])) 1 ⟨3⟩ withinFirst :=
      .statement rfl rfl
    have harm : Enters leaving.eval leaving.policy.iterationCap withinFirst
        (.conditional ([] ++ ⟨⟨0⟩, ⟨2⟩⟩ :: []) none) 0 ⟨2⟩ withinFirst :=
      .result (.nil withinFirst) (by decide +kernel)
    exact .inside rfl hinit (.inside rfl harm (.here ⟨2⟩ withinFirst))
  have hdivide : leaving.Reaches ⟨9⟩ {} 1 ⟨8⟩ withinLeaving := by
    have hvalue : Enters leaving.eval leaving.policy.iterationCap {}
        (.block ([] ++ .assign ⟨1⟩ ⟨8⟩ :: [.expr ⟨4⟩])) 1 ⟨8⟩ withinLeaving := .statement rfl rfl
    exact .inside rfl hvalue (.here ⟨8⟩ withinLeaving)
  have hinvokes : leaving.Invokes ⟨6⟩ {} firstFunction [] {} :=
    .call rfl rfl rfl (by decide +kernel) rfl (by decide)
  have hfive := leaving_wellFormed.abrupt_exit_surfaces (show 5 < 10 by decide)
    (Machine.enter {} firstFunction [])
  have hsix := leaving_wellFormed.abrupt_exit_surfaces (show 6 < 10 by decide) {}
  have hnine := leaving_wellFormed.abrupt_exit_surfaces (show 9 < 10 by decide) {}
  have hbody := hfive.1 _ _ _ _ withinFirst hreturn (.returned (.int 1)) (by decide +kernel)
  refine ⟨leaving_wellFormed, hreturn, hdivide, hinvokes, ?_, ?_⟩
  · exact (hsix.2.2 _ _ _ hinvokes).1 _ _ hbody
  · exact hnine.1 _ _ _ _ withinLeaving hdivide (.halted rfl) (by decide +kernel)

end Context

end ConstFold
