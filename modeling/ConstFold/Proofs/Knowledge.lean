import ConstFold.Proofs.Agreement
import ConstFold.Proofs.Nesting
import ConstFold.Proofs.Symbols

/-!
# Evaluating with fewer variables known

A binding whose right-hand side fails is passed over: its variable is forgotten and the block goes
on. The value of a block is then the value for whatever the unknown variables are, as long as the
right-hand side would have changed nothing else. A right-hand side that is not contained would have:
had more been known, it might have returned, or assigned to a variable of the block.

`Context.HidesNothing` says that an evaluation passes over contained right-hand sides only. Its
definition is a second evaluator, which stops at a failure that hides something and otherwise does
the same (`Context.guards_evalWithin`). The main statement, `Context.value_unique_of_hidesNothing`,
is that two evaluations that hide nothing, of which one knows more variables than the other, reduce
to the same value. `Context.passing_over_changes_value` shows both ways in which a hidden effect
makes the values differ.
-/

set_option autoImplicit false

namespace ConstFold

open Eval

/-! ## Guarded evaluation -/

/-- Evaluate a right-hand side, and stop at a failure that would be passed over although the
right-hand side is not contained. -/
def Eval.guarded (contained : Bool) (value : Eval Literal) : Eval Literal := fun machine =>
  match value machine with
  | .error (.failed failure) machine =>
    if failure.halts || contained then .error (.failed failure) machine
    else .error (.crashed .unfinished) machine
  | ending => ending

/-- Evaluate one statement, its right-hand side guarded. -/
def Arena.guardedStmt (arena : Arena) (eval : NodeId → Eval Literal) :
    Stmt Name NodeId → Eval Literal
  | .expr value => eval value
  | stmt => evalStmt (fun child => (eval child).guarded (arena.isContained child)) stmt

/-- Evaluate statements in order, as `evalStmts` does. -/
def Arena.guardedStmts (arena : Arena) (eval : NodeId → Eval Literal) :
    Literal → List (Stmt Name NodeId) → Eval Literal
  | last, [] => return last
  | _, stmt :: rest => do
    arena.guardedStmts eval (← arena.guardedStmt eval stmt) rest

namespace Context

/-- Evaluate one layer of an expression, given evaluators for its children and for the bodies of
functions. -/
def guardedShape (ctx : Context) (eval evalBody : NodeId → Eval Literal) :
    Shape Name NodeId → Eval Literal
  | .block stmts => inScope (ctx.arena.guardedStmts eval .unit stmts)
  | .call callee receiver args => do
    let receiver ← receiver.mapM eval
    let args ← args.mapM eval
    ctx.evalCall evalBody callee receiver args
  | shape => ctx.evalShape eval shape

/-- Evaluate a node, guarding the right-hand sides of its own blocks. Function bodies know all of
their variables or none, so there is nothing to guard in them. -/
def guardedWithin (ctx : Context) : Nat → NodeId → Eval Literal
  | 0, _ => throw (.crashed .unfinished)
  | nesting + 1, id => do
    ctx.guardedShape (ctx.guardedWithin nesting) (ctx.evalWithin nesting)
      (← ofLookup (ctx.arena.shape id))

/-- Every right-hand side that the evaluation of a node passes over is contained: it has no `return`
and assigns only to variables that it declares itself. -/
def HidesNothing (ctx : Context) (id : NodeId) (machine : Machine) : Prop :=
  ctx.guardedWithin ctx.maxNesting id machine = ctx.eval id machine

instance (ctx : Context) (id : NodeId) (machine : Machine) :
    Decidable (ctx.HidesNothing id machine) :=
  inferInstanceAs (Decidable (ctx.guardedWithin ctx.maxNesting id machine = ctx.eval id machine))

end Context

/-- Pairs of evaluations of which the first, the guarded one, stops or does what the second does. -/
def Guards (α : Type) (pair : Bool → Eval α) : Prop :=
  ∀ machine, pair true machine = pair false machine ∨
    ∃ after, pair true machine = .error (.crashed .unfinished) after

/-- Pairs of evaluations that are built alike from guarded pairs are guarded. -/
theorem guards_compositional : Compositional Guards where
  pure _ _ := .inl rfl
  bind := by
    intro α β first next hfirst hnext machine
    show (first true >>= next true) machine = (first false >>= next false) machine ∨
      ∃ after, (first true >>= next true) machine = .error (.crashed .unfinished) after
    rw [bind_apply, bind_apply]
    rcases hfirst machine with hsame | ⟨after, hstop⟩
    · rw [hsame]
      cases first false machine with
      | ok value machine' => exact hnext value machine'
      | error exit machine' => exact .inl rfl
    · rw [hstop]
      exact .inr ⟨after, rfl⟩
  fail _ _ := .inl rfl
  returned _ _ := .inl rfl
  read _ _ _ := .inl rfl
  inScope := by
    intro body hbody machine
    simp only [Eval.inScope]
    rcases hbody { machine with env := machine.env.push } with hsame | ⟨after, hstop⟩
    · rw [hsame]
      exact .inl rfl
    · rw [hstop]
      exact .inr ⟨_, rfl⟩
  bound := by
    intro value hvalue machine
    simp only [Eval.bound]
    rcases hvalue machine with hsame | ⟨after, hstop⟩
    · rw [hsame]
      exact .inl rfl
    · rw [hstop]
      exact .inr ⟨after, rfl⟩
  forget _ _ := .inl rfl
  define _ _ _ := .inl rfl
  assign _ _ _ := .inl rfl

/-- Guarding the first of a pair keeps it guarded, since it only stops more often. -/
theorem Guards.guarded {value : Bool → Eval Literal} (h : Guards Literal value) (contained : Bool) :
    Guards Literal fun b => bif b then (value true).guarded contained else value false := by
  intro machine
  simp only [cond_true, cond_false, Eval.guarded]
  rcases h machine with hsame | ⟨after, hstop⟩
  · rw [hsame]
    cases value false machine with
    | ok result after => exact .inl rfl
    | error exit after =>
      cases exit with
      | returned result => exact .inl rfl
      | crashed fault => exact .inl rfl
      | failed failure =>
        by_cases hpass : (failure.halts || contained) = true
        · exact .inl (by simp only [hpass, if_true])
        · exact .inr ⟨after, by simp only [hpass, Bool.false_eq_true, if_false]⟩
  · rw [hstop]
    exact .inr ⟨after, rfl⟩

/-- A statement whose right-hand side is guarded is guarded against the plain statement. -/
theorem Guards.guardedStmt (arena : Arena) {eval : Bool → NodeId → Eval Literal}
    {stmt : Stmt Name NodeId} (hchild : ∀ child ∈ stmt.child?, Guards Literal fun b => eval b child) :
    Guards Literal fun b =>
      bif b then arena.guardedStmt (eval true) stmt else evalStmt (eval false) stmt := by
  have hguarded : Guards Literal fun b => evalStmt
      (fun child => bif b then (eval true child).guarded (arena.isContained child)
        else eval false child) stmt :=
    guards_compositional.evalStmt fun child hmem => (hchild child hmem).guarded _
  cases stmt with
  | expr child => exact hchild child rfl
  | declare name init => exact hguarded
  | assign name child => exact hguarded

/-- Statements with guarded right-hand sides are guarded against the plain statements. -/
theorem Guards.guardedStmts (arena : Arena) {eval : Bool → NodeId → Eval Literal}
    (stmts : List (Stmt Name NodeId))
    (hchildren : ∀ stmt ∈ stmts, ∀ child ∈ stmt.child?, Guards Literal fun b => eval b child)
    (last : Literal) :
    Guards Literal fun b =>
      bif b then arena.guardedStmts (eval true) last stmts else evalStmts (eval false) last stmts := by
  induction stmts generalizing last with
  | nil => exact fun _ => .inl rfl
  | cons stmt rest ih =>
    have hstmt := Guards.guardedStmt arena (hchildren stmt List.mem_cons_self)
    have hrest := ih fun other hother => hchildren other (List.mem_cons_of_mem _ hother)
    exact guards_compositional.bind hstmt hrest

/-- The layers that are evaluated in their own way when right-hand sides are guarded. -/
theorem Context.guardedShape_cases (ctx : Context) (shape : Shape Name NodeId) :
    (∃ stmts, shape = .block stmts) ∨
    (∃ callee receiver args, shape = .call callee receiver args) ∨
    ((∀ stmts, shape ≠ .block stmts) ∧ (∀ callee receiver args, shape ≠ .call callee receiver args) ∧
      ∀ eval evalBody, ctx.guardedShape eval evalBody shape = ctx.evalShape eval shape) := by
  cases shape with
  | block stmts => exact .inl ⟨stmts, rfl⟩
  | call callee receiver args => exact .inr (.inl ⟨callee, receiver, args, rfl⟩)
  | literal value => exact .inr (.inr ⟨nofun, nofun, fun _ _ => rfl⟩)
  | var name => exact .inr (.inr ⟨nofun, nofun, fun _ _ => rfl⟩)
  | conditional arms otherwise => exact .inr (.inr ⟨nofun, nofun, fun _ _ => rfl⟩)
  | loop condition body => exact .inr (.inr ⟨nofun, nofun, fun _ _ => rfl⟩)
  | ret value => exact .inr (.inr ⟨nofun, nofun, fun _ _ => rfl⟩)
  | «foreign» children => exact .inr (.inr ⟨nofun, nofun, fun _ _ => rfl⟩)

/-- A stored node is evaluated with guards as its layer is. -/
theorem Context.guardedWithin_succ_of_shape (ctx : Context) {id : NodeId}
    {shape : Shape Name NodeId} (hshape : ctx.arena.shape id = .ok shape) (nesting : Nat) :
    ctx.guardedWithin (nesting + 1) id =
      ctx.guardedShape (ctx.guardedWithin nesting) (ctx.evalWithin nesting) shape := by
  simp only [guardedWithin, hshape, ofLookup, pure_bind]

/-- Guarding changes nothing but to stop where an effect would be hidden. -/
theorem Context.guards_evalWithin (ctx : Context) (nesting : Nat) (id : NodeId) :
    Guards Literal fun b => bif b then ctx.guardedWithin nesting id else ctx.evalWithin nesting id := by
  induction nesting generalizing id with
  | zero => exact fun _ => .inl rfl
  | succ nesting ih =>
    have heval : ∀ child, Guards Literal fun b =>
        (bif b then ctx.guardedWithin nesting else ctx.evalWithin nesting) child := by
      intro child machine
      exact ih child machine
    cases hshape : ctx.arena.shape id with
    | error fault =>
      intro machine
      simp only [cond_true, cond_false, guardedWithin, evalWithin, evalNode, hshape]
      exact .inl rfl
    | ok shape =>
      rw [ctx.guardedWithin_succ_of_shape hshape, ctx.evalWithin_succ_of_shape hshape]
      rcases ctx.guardedShape_cases shape with
        ⟨stmts, rfl⟩ | ⟨callee, receiver, args, rfl⟩ | ⟨hblock, hcall, hplain⟩
      · exact guards_compositional.inScope
          (Guards.guardedStmts ctx.arena stmts (fun stmt _ child _ => heval child) .unit)
      · have hcall : Guards Literal (fun b => do
            let receiverValue ←
              receiver.mapM (bif b then ctx.guardedWithin nesting else ctx.evalWithin nesting)
            let argValues ←
              args.mapM (bif b then ctx.guardedWithin nesting else ctx.evalWithin nesting)
            ctx.evalCall (ctx.evalWithin nesting) callee receiverValue argValues) := by
          refine guards_compositional.bind
            (guards_compositional.mapM_option fun child _ => heval child) fun receiverValue => ?_
          refine guards_compositional.bind
            (guards_compositional.mapM fun child _ => heval child) fun argValues => ?_
          exact fun _ => .inl rfl
        exact hcall
      · have hshape' := guards_compositional.toSequential.evalShape ctx (fun _ => ctx)
          (fun _ => .refl ctx) (fun child _ => heval child)
          (fun name _ => guards_compositional.read name)
          (fun callee receiver args heq => absurd heq (hcall callee receiver args))
          (fun _ _ _ hcondition hbody => guards_compositional.rounds _ hcondition hbody _ _)
          (fun stmts heq => absurd heq (hblock stmts)) fun _ _ => guards_compositional.returned
        rw [hplain]
        exact hshape'

/-! ## Contained right-hand sides -/

/-- Endings that leave no trace: no `return`, and an environment in which names are at most
forgotten. A run that ends in a fault is over and may leave anything. -/
def Undisturbed (machine : Machine) : EStateM.Result Exit Machine Literal → Prop
  | .ok _ after => machine.env.Shielded [] after.env ∧ after.depth = machine.depth
  | .error (.failed _) after => machine.env.Shielded [] after.env ∧ after.depth = machine.depth
  | .error (.returned _) _ => False
  | .error (.crashed _) _ => True

/-- A contained node leaves no trace: it does not return, and no variable gets another value. -/
theorem Context.undisturbed_guardedWithin (ctx : Context) (nesting : Nat) {id : NodeId}
    (hid : ctx.arena.isContained id = true) (machine : Machine) :
    Undisturbed machine (ctx.guardedWithin nesting id machine) := by
  have hguards := ctx.guards_evalWithin nesting id machine
  simp only [cond_true, cond_false] at hguards
  rcases hguards with hsame | ⟨after, hstop⟩
  · have hdepth := ctx.depth_evalWithin nesting id machine
    have hshields := ctx.shields_evalWithin nesting [] hid machine.env machine (.refl machine.env)
    rw [hsame]
    cases hrun : ctx.evalWithin nesting id machine with
    | ok value after =>
      rw [hrun] at hdepth hshields
      exact ⟨hshields, hdepth⟩
    | error exit after =>
      rw [hrun] at hdepth hshields
      cases exit with
      | returned value => exact hshields.2 value rfl
      | failed failure => exact ⟨hshields.1, hdepth⟩
      | crashed fault => trivial
  · rw [hstop]
    trivial

/-! ## Two runs of one evaluation -/

/-- Machines whose environments agree in the first `scopes` scopes. -/
structure Machine.Agree (scopes : Nat) (left right : Machine) : Prop where
  env : left.env.Agree scopes right.env
  depth : left.depth = right.depth

/-- Agreement of machines is symmetric. -/
theorem Machine.Agree.symm {scopes : Nat} {left right : Machine} (h : left.Agree scopes right) :
    right.Agree scopes left :=
  ⟨h.env.symm, h.depth.symm⟩

/-- The value that a run reaches, in the ordinary way or by a `return`, and the machine it
leaves. -/
def landing {α : Type} : EStateM.Result Exit Machine α → Option (Except Literal α × Machine)
  | .ok value machine => some (.ok value, machine)
  | .error (.returned value) machine => some (.error value, machine)
  | .error _ _ => none

/-- A sequence of two steps reaches what the second reaches from where the first ends, unless the
first returns. -/
theorem landing_bind {α β : Type} (first : Eval α) (next : α → Eval β) (machine : Machine) :
    landing ((first >>= next) machine) =
      match landing (first machine) with
      | some (.ok value, machine) => landing (next value machine)
      | some (.error value, machine) => some (.error value, machine)
      | none => none := by
  rw [bind_apply]
  cases first machine with
  | ok value machine' => rfl
  | error exit machine' => cases exit <;> rfl

/-- Evaluations that reach the same value in the same way from machines that agree, provided that
they reach one from both. -/
def Coherent {α : Type} (scopes : Nat) (evaluation : Eval α) : Prop :=
  ∀ ⦃left right : Machine⦄, left.Agree scopes right →
    ∀ ⦃value other : Except Literal α⦄ ⦃after after' : Machine⦄,
      landing (evaluation left) = some (value, after) →
      landing (evaluation right) = some (other, after') →
      value = other ∧ after.Agree scopes after'

namespace Coherent

variable {scopes : Nat}

/-- A sequence is coherent if both of its steps are. -/
theorem bind {α β : Type} {first : Eval α} {next : α → Eval β} (hfirst : Coherent scopes first)
    (hnext : ∀ value, Coherent scopes (next value)) : Coherent scopes (first >>= next) := by
  intro left right h value other after after' hleft hright
  rw [landing_bind] at hleft hright
  cases hl : landing (first left) with
  | none => simp [hl] at hleft
  | some reached =>
    cases hr : landing (first right) with
    | none => simp [hr] at hright
    | some reached' =>
      obtain ⟨middle, left'⟩ := reached
      obtain ⟨middle', right'⟩ := reached'
      obtain ⟨rfl, h'⟩ := hfirst h hl hr
      rw [hl] at hleft
      rw [hr] at hright
      cases middle with
      | ok result => exact hnext result h' hleft hright
      | error result =>
        cases hleft
        cases hright
        exact ⟨rfl, h'⟩

/-- Giving a value is coherent. -/
theorem pure {α : Type} (value : α) : Coherent scopes (Pure.pure value : Eval α) := by
  rintro left right h _ _ _ _ ⟨⟩ ⟨⟩
  exact ⟨rfl, h⟩

/-- Coherence is closed under steps in sequence. -/
theorem sequential (scopes : Nat) :
    Sequential fun α (family : Unit → Eval α) => ∀ i, Coherent scopes (family i) where
  pure value _ := pure value
  bind hfirst hnext i := (hfirst i).bind fun value => hnext value i
  fail _ _ := by rintro left right h _ _ _ _ ⟨⟩

/-- Returning a value is coherent. -/
theorem returned (value : Literal) : Coherent scopes (throw (.returned value) : Eval Literal) := by
  rintro left right h _ _ _ _ ⟨⟩ ⟨⟩
  exact ⟨rfl, h⟩

/-- Reading a variable is coherent: machines that agree and both know it know the same value. -/
theorem read (name : Name) (reason : Inconclusive) :
    Coherent scopes (do
      match (← get).env.lookup name with
      | some value => return value
      | none => giveUp reason : Eval Literal) := by
  intro left right h value other after after' hleft hright
  have hcompatible := h.env.compatible name
  simp only [bind_apply, get_apply] at hleft hright
  cases hl : left.env.lookup name with
  | none => simp [hl, giveUp, landing] at hleft
  | some value =>
    cases hr : right.env.lookup name with
    | none => simp [hr, giveUp, landing] at hright
    | some value' =>
      rw [hl, hr] at hcompatible
      rw [hl] at hleft
      rw [hr, ← hcompatible value rfl value' rfl] at hright
      cases hleft
      cases hright
      exact ⟨rfl, h⟩

/-- A function body runs in an environment of its own, the same in both runs. -/
theorem evalBody (ctx : Context) (eval : NodeId → Eval Literal) (definition : Definition)
    (args : List Literal) : Coherent scopes (ctx.evalBody eval definition args) := by
  intro left right h value other after after' hleft hright
  rw [Context.evalBody_apply] at hleft hright
  rw [← h.depth] at hright
  by_cases hparams : definition.params.length ≠ args.length
  · rw [if_pos hparams] at hleft
    cases hleft
  · rw [if_neg hparams] at hleft hright
    by_cases hlimit : ctx.policy.maxCallDepth ≤ left.depth
    · rw [if_pos hlimit] at hleft
      cases hleft
    · rw [if_neg hlimit, inFrame_apply] at hleft hright
      rw [← h.depth] at hright
      cases hrun : eval definition.body ⟨Env.ofBindings (definition.params.zip args),
          deeper left.depth⟩ with
      | ok result callee =>
        rw [hrun] at hleft hright
        cases hleft
        cases hright
        exact ⟨rfl, h.env, rfl⟩
      | error exit callee =>
        rw [hrun] at hleft hright
        cases exit with
        | returned result =>
          cases hleft
          cases hright
          exact ⟨rfl, h.env, rfl⟩
        | failed failure => cases hleft
        | crashed fault => cases hleft

/-- A change that keeps environments in agreement is coherent. -/
theorem modifyEnv {change : Env → Env}
    (hchange : ∀ left right : Env, left.Agree scopes right → (change left).Agree scopes (change right)) :
    Coherent scopes (modifyEnv change) := by
  rintro left right h _ _ _ _ ⟨⟩ ⟨⟩
  exact ⟨rfl, hchange _ _ h.env, h.depth⟩

/-- A body is coherent in a scope of its own if it is coherent with one more scope in common. -/
theorem inScope {body : Eval Literal} (hbody : Coherent (scopes + 1) body) :
    Coherent scopes (inScope body) := by
  have hlanding : ∀ machine value after, landing (Eval.inScope body machine) = some (value, after) →
      ∃ inner, landing (body { machine with env := machine.env.push }) = some (value, inner) ∧
        after = { inner with env := inner.env.pop } := by
    intro machine value after hland
    unfold Eval.inScope at hland
    cases hrun : body { machine with env := machine.env.push } with
    | ok result inner =>
      rw [hrun] at hland
      cases hland
      exact ⟨inner, rfl, rfl⟩
    | error exit inner =>
      rw [hrun] at hland
      cases exit with
      | returned result =>
        cases hland
        exact ⟨inner, rfl, rfl⟩
      | failed failure => cases hland
      | crashed fault => cases hland
  intro left right h value other after after' hleft hright
  obtain ⟨inner, hinner, rfl⟩ := hlanding left value after hleft
  obtain ⟨inner', hinner', rfl⟩ := hlanding right other after' hright
  have hpushed : Machine.Agree (scopes + 1) { left with env := left.env.push }
      { right with env := right.env.push } := ⟨h.env.push, h.depth⟩
  obtain ⟨hsame, hagree⟩ := hbody hpushed hinner hinner'
  exact ⟨hsame, hagree.env.pop, hagree.depth⟩

/-- What a guarded right-hand side comes to: a value reached, or a failure that is passed over
because the right-hand side is contained. -/
theorem landing_bound_guarded {contained : Bool} {value : Eval Literal} {machine after : Machine}
    {result : Except Literal (Option Literal)}
    (h : landing (bound (value.guarded contained) machine) = some (result, after)) :
    (∃ reached, landing (value machine) = some (reached, after) ∧ result = reached.map some) ∨
    (contained = true ∧ result = .ok none ∧ ∃ failure, value machine = .error (.failed failure) after) := by
  unfold Eval.bound Eval.guarded at h
  cases hrun : value machine with
  | ok reached after' =>
    rw [hrun] at h
    cases h
    exact .inl ⟨.ok reached, rfl, rfl⟩
  | error exit after' =>
    rw [hrun] at h
    cases exit with
    | returned reached =>
      cases h
      exact .inl ⟨.error reached, rfl, rfl⟩
    | crashed fault => cases h
    | failed failure =>
      by_cases hhalts : failure.halts = true
      · simp [hhalts, landing] at h
      · cases contained with
        | false => simp [hhalts, landing] at h
        | true =>
          simp only [hhalts, Bool.or_true, if_true] at h
          cases h
          exact .inr ⟨rfl, rfl, failure, rfl⟩

/-- In a run without a trace the machine still agrees with that of the other run, and what was
reached is a value. -/
theorem agree_of_undisturbed {machine other after : Machine} {value : Eval Literal}
    (hagree : machine.Agree scopes other) (hquiet : Undisturbed machine (value machine)) :
    (∀ reached, landing (value machine) = some (reached, after) →
      (∃ result, reached = .ok result) ∧ after.Agree scopes other) ∧
    (∀ failure, value machine = .error (.failed failure) after → after.Agree scopes other) := by
  constructor
  · intro reached hland
    cases hrun : value machine with
    | ok result after' =>
      rw [hrun] at hquiet hland
      cases hland
      exact ⟨⟨result, rfl⟩, hagree.env.of_shielded hquiet.1, hquiet.2.trans hagree.depth⟩
    | error exit after' =>
      rw [hrun] at hquiet hland
      cases exit with
      | returned result => exact hquiet.elim
      | failed failure => cases hland
      | crashed fault => cases hland
  · intro failure hfailed
    rw [hfailed] at hquiet
    exact ⟨hagree.env.of_shielded hquiet.1, hquiet.2.trans hagree.depth⟩

/-- After a guarded right-hand side the machines agree again, and the values to bind are the same or
one of them is missing. -/
theorem bound_guarded {contained : Bool} {value : Eval Literal} (hvalue : Coherent scopes value)
    (hquiet : contained = true → ∀ machine, Undisturbed machine (value machine))
    {left right after after' : Machine} {result other : Except Literal (Option Literal)}
    (h : left.Agree scopes right)
    (hleft : landing (bound (value.guarded contained) left) = some (result, after))
    (hright : landing (bound (value.guarded contained) right) = some (other, after')) :
    after.Agree scopes after' ∧
    ((∃ known known', result = .ok known ∧ other = .ok known' ∧ Compatible known known') ∨
      ∃ returned, result = .error returned ∧ other = .error returned) := by
  rcases landing_bound_guarded hleft with ⟨reached, hreached, rfl⟩ | ⟨hcontained, rfl, failure, hfailed⟩
  · rcases landing_bound_guarded hright with
      ⟨reached', hreached', rfl⟩ | ⟨hcontained, rfl, failure, hfailed⟩
    · obtain ⟨rfl, hagree⟩ := hvalue h hreached hreached'
      refine ⟨hagree, ?_⟩
      cases reached with
      | ok known => exact .inl ⟨some known, some known, rfl, rfl, .refl _⟩
      | error returned => exact .inr ⟨returned, rfl, rfl⟩
    · obtain ⟨⟨known, rfl⟩, hagree⟩ :=
        (agree_of_undisturbed h (hquiet hcontained left)).1 reached hreached
      have hagree' := (agree_of_undisturbed hagree.symm (hquiet hcontained right)).2 failure hfailed
      exact ⟨hagree'.symm, .inl ⟨some known, none, rfl, rfl, (Compatible.none_left _).symm⟩⟩
  · have hagree := (agree_of_undisturbed h (hquiet hcontained left)).2 failure hfailed
    rcases landing_bound_guarded hright with
      ⟨reached', hreached', rfl⟩ | ⟨_, rfl, failure', hfailed'⟩
    · obtain ⟨⟨known, rfl⟩, hagree'⟩ :=
        (agree_of_undisturbed hagree.symm (hquiet hcontained right)).1 reached' hreached'
      exact ⟨hagree'.symm, .inl ⟨none, some known, rfl, rfl, .none_left _⟩⟩
    · have hagree' := (agree_of_undisturbed hagree.symm (hquiet hcontained right)).2 failure' hfailed'
      exact ⟨hagree'.symm, .inl ⟨none, none, rfl, rfl, .none_left _⟩⟩

/-- Binding a variable to a guarded right-hand side, or forgetting it. -/
theorem binding {contained : Bool} {value : Eval Literal} (hvalue : Coherent scopes value)
    (hquiet : contained = true → ∀ machine, Undisturbed machine (value machine)) {name : Name}
    {update : Literal → Env → Env}
    (hupdate : ∀ known (left right : Env), left.Agree scopes right →
      (update known left).Agree scopes (update known right))
    (hother : ∀ known (env : Env) other, other ≠ name →
      (update known env).column other = env.column other)
    (hdepth : ∀ known (env : Env), (update known env).depth = env.depth) :
    Coherent scopes (do
      match ← bound (value.guarded contained) with
      | some known => Eval.modifyEnv (update known)
      | none => Eval.modifyEnv (·.forget name)
      return Literal.unit) := by
  intro left right h result other after after' hleft hright
  rw [landing_bind] at hleft hright
  cases hl : landing (bound (value.guarded contained) left) with
  | none => simp [hl] at hleft
  | some reached =>
    cases hr : landing (bound (value.guarded contained) right) with
    | none => simp [hr] at hright
    | some reached' =>
      obtain ⟨middle, left'⟩ := reached
      obtain ⟨middle', right'⟩ := reached'
      rw [hl] at hleft
      rw [hr] at hright
      obtain ⟨hagree, ⟨known, known', rfl, rfl, hcompatible⟩ | ⟨returned, rfl, rfl⟩⟩ :=
        bound_guarded hvalue hquiet h hl hr
      · cases known with
        | none =>
          cases known' with
          | none =>
            cases hleft
            cases hright
            exact ⟨rfl, hagree.env.forget name, hagree.depth⟩
          | some known' =>
            cases hleft
            cases hright
            exact ⟨rfl, hagree.env.forget_left (hother known' _) (hdepth known' _), hagree.depth⟩
        | some known =>
          cases known' with
          | none =>
            cases hleft
            cases hright
            exact ⟨rfl, (hagree.env.symm.forget_left (hother known _) (hdepth known _)).symm,
              hagree.depth⟩
          | some known' =>
            obtain rfl := hcompatible known rfl known' rfl
            cases hleft
            cases hright
            exact ⟨rfl, hupdate known _ _ hagree.env, hagree.depth⟩
      · cases hleft
        cases hright
        exact ⟨rfl, hagree⟩

/-- A statement is coherent if its right-hand side is and if contained right-hand sides leave no
trace. -/
theorem guardedStmt (arena : Arena) {eval : NodeId → Eval Literal} {stmt : Stmt Name NodeId}
    (hchild : ∀ child ∈ stmt.child?, Coherent (scopes + 1) (eval child))
    (hquiet : ∀ child, arena.isContained child = true →
      ∀ machine, Undisturbed machine (eval child machine)) :
    Coherent (scopes + 1) (arena.guardedStmt eval stmt) := by
  cases stmt with
  | expr child => exact hchild child rfl
  | declare name init =>
    cases init with
    | none =>
      exact (modifyEnv fun _ _ hagree => hagree.forget name).bind fun _ => pure Literal.unit
    | some child =>
      refine binding (hchild child rfl) (hquiet child)
        (fun known _ _ hagree => hagree.define name known) ?_
        fun known env => env.depth_define name known
      intro known env other hne
      rw [Env.column_define, if_neg hne]
  | assign name child =>
    refine binding (hchild child rfl) (hquiet child)
      (fun known _ _ hagree => hagree.assign name known) ?_
      fun known env => env.depth_assign name known
    intro known env other hne
    rw [Env.column_assign, if_neg hne]

/-- Statements are coherent if their right-hand sides are and if contained ones leave no trace. -/
theorem guardedStmts (arena : Arena) {eval : NodeId → Eval Literal} {stmts : List (Stmt Name NodeId)}
    (hchildren : ∀ stmt ∈ stmts, ∀ child ∈ stmt.child?, Coherent (scopes + 1) (eval child))
    (hquiet : ∀ child, arena.isContained child = true →
      ∀ machine, Undisturbed machine (eval child machine)) (last : Literal) :
    Coherent (scopes + 1) (arena.guardedStmts eval last stmts) := by
  induction stmts generalizing last with
  | nil => exact pure last
  | cons stmt rest ih =>
    have hstmt := guardedStmt arena (hchildren stmt List.mem_cons_self) hquiet
    have hrest := ih fun other hother => hchildren other (List.mem_cons_of_mem _ hother)
    exact hstmt.bind hrest

end Coherent

namespace Context

/-- A guarded evaluation reaches one value from all machines that agree. The induction is on the
nesting, for any number of scopes that the two runs have opened. -/
theorem coherent_guardedWithin (ctx : Context) (nesting scopes : Nat) (id : NodeId) :
    Coherent scopes (ctx.guardedWithin nesting id) := by
  induction nesting generalizing scopes id with
  | zero => rintro left right h _ _ _ _ ⟨⟩
  | succ nesting ih =>
    have hsequential := Coherent.sequential scopes
    have hquiet : ∀ child, ctx.arena.isContained child = true →
        ∀ machine, Undisturbed machine (ctx.guardedWithin nesting child machine) :=
      fun child hchild machine => ctx.undisturbed_guardedWithin nesting hchild machine
    cases hshape : ctx.arena.shape id with
    | error fault =>
      intro left right h value other after after' hleft
      simp only [guardedWithin, hshape] at hleft
      cases hleft
    | ok shape =>
      rw [ctx.guardedWithin_succ_of_shape hshape]
      rcases ctx.guardedShape_cases shape with
        ⟨stmts, rfl⟩ | ⟨callee, receiver, args, rfl⟩ | ⟨hblock, hcall, hplain⟩
      · exact Coherent.inScope
          (Coherent.guardedStmts ctx.arena (fun _ _ child _ => ih (scopes + 1) child) hquiet .unit)
      · have hreceiver : ∀ _ : Unit, Coherent scopes (receiver.mapM (ctx.guardedWithin nesting)) :=
          hsequential.mapM_option fun child _ _ => ih scopes child
        have hargs : ∀ _ : Unit, Coherent scopes (args.mapM (ctx.guardedWithin nesting)) :=
          hsequential.mapM fun child _ _ => ih scopes child
        have hevalCall : ∀ receiverValue argValues, ∀ _ : Unit, Coherent scopes
            (ctx.evalCall (ctx.evalWithin nesting) callee receiverValue argValues) :=
          fun receiverValue argValues =>
            hsequential.evalCall ctx (fun _ => ctx) (fun _ => .refl ctx) callee receiverValue
              argValues fun definition _ _ => Coherent.evalBody ctx _ definition argValues
        exact (hreceiver ()).bind fun receiverValue => (hargs ()).bind fun argValues =>
          hevalCall receiverValue argValues ()
      · rw [hplain]
        exact hsequential.evalShape ctx (fun _ => ctx) (fun _ => .refl ctx)
          (fun child _ _ => ih scopes child) (fun name _ reason _ => Coherent.read name reason)
          (fun callee receiver args heq => absurd heq (hcall callee receiver args))
          (fun _ _ _ hcondition hbody => hsequential.rounds _ hcondition hbody _ _)
          (fun stmts heq => absurd heq (hblock stmts)) (fun _ _ value _ => Coherent.returned value) ()

/-- If nothing is hidden, the guarded run reaches the value that the node reduces to, in the
ordinary way or by a `return`. -/
theorem landing_of_hidesNothing {ctx : Context} {id : NodeId} {machine after : Machine}
    {value : Literal} (h : ctx.HidesNothing id machine)
    (hrun : ctx.reduce id machine = .ok (.ok value) after) :
    ∃ reached : Except Literal Literal,
      landing (ctx.guardedWithin ctx.maxNesting id machine) = some (reached, after) ∧
      (reached = .ok value ∨ reached = .error value) := by
  rw [reduce_apply, ← h] at hrun
  cases hend : ctx.guardedWithin ctx.maxNesting id machine with
  | ok result after' =>
    rw [hend] at hrun
    cases hrun
    exact ⟨.ok value, rfl, .inl rfl⟩
  | error exit after' =>
    rw [hend] at hrun
    cases exit with
    | returned result =>
      cases hrun
      exact ⟨.error value, rfl, .inr rfl⟩
    | failed failure => cases hrun
    | crashed fault => cases hrun

/-- When one environment knows all that another knows, and neither evaluation hides an effect, an
expression that reduces in both has the same value in both. -/
theorem value_unique_of_hidesNothing (ctx : Context) (id : NodeId) {env env' : Env} {depth : UInt32}
    (hknown : ∀ name value, env.lookup name = some value → env'.lookup name = some value)
    (hless : ctx.HidesNothing id ⟨env, depth⟩) (hmore : ctx.HidesNothing id ⟨env', depth⟩)
    {value value' : Literal} {final final' : Machine}
    (hrun : ctx.reduce id ⟨env, depth⟩ = .ok (.ok value) final)
    (hrun' : ctx.reduce id ⟨env', depth⟩ = .ok (.ok value') final') : value = value' := by
  have hagree : Machine.Agree 0 ⟨env, depth⟩ ⟨env', depth⟩ := ⟨Env.agree_of_lookup hknown, rfl⟩
  obtain ⟨reached, hland, hreached⟩ := landing_of_hidesNothing hless hrun
  obtain ⟨reached', hland', hreached'⟩ := landing_of_hidesNothing hmore hrun'
  have hsame := (ctx.coherent_guardedWithin ctx.maxNesting 0 id hagree hland hland').1
  rcases hreached with rfl | rfl <;> rcases hreached' with rfl | rfl <;> cases hsame <;> rfl

/-- Three blocks with a binding that is passed over while `u` is unknown: in the first its
right-hand side returns, in the second it assigns to a variable of the block, in the third it is
contained. -/
def passingOver : Context where
  symbols := SymbolTable.ofTexts ["u", "x", "y", "t"]
  library := Library.empty
  policy := {}
  arena :=
    { nodes := #[.var ⟨1⟩, .literal (.int 1), .ret ⟨1⟩, .conditional ⟨0, 1⟩ none,
        .literal (.int 3), .block ⟨0, 2⟩,
        .literal (.int 2), .block ⟨2, 1⟩, .conditional ⟨1, 1⟩ none, .var ⟨3⟩, .block ⟨3, 3⟩,
        .var ⟨4⟩, .block ⟨6, 3⟩, .conditional ⟨2, 1⟩ none, .block ⟨9, 3⟩]
      spans := Array.replicate 15 Span.nowhere
      args := #[]
      stmts := #[.declare ⟨2⟩ (some ⟨3⟩), .expr ⟨4⟩,
        .assign ⟨3⟩ ⟨6⟩, .declare ⟨3⟩ (some ⟨1⟩), .declare ⟨2⟩ (some ⟨8⟩), .expr ⟨9⟩,
        .declare ⟨4⟩ (some ⟨1⟩), .assign ⟨4⟩ ⟨6⟩, .expr ⟨11⟩,
        .declare ⟨3⟩ (some ⟨1⟩), .declare ⟨2⟩ (some ⟨13⟩), .expr ⟨9⟩]
      arms := #[⟨⟨0⟩, ⟨2⟩⟩, ⟨⟨0⟩, ⟨7⟩⟩, ⟨⟨0⟩, ⟨12⟩⟩] }

/-- In `passingOver` children come before their parents, so it is well-formed. -/
theorem passingOver_wellFormed : passingOver.WellFormed where
  arena := Arena.Ordered.wellFormed (by decide) rfl
  bodies := nofun

/-- A machine that knows nothing. -/
def unknowing : Machine := {}

/-- A machine that knows `u` to be true. -/
def knowing : Machine := { env := Env.ofBindings [(⟨1⟩, .bool true)] }

/-- Whatever the first machine knows, the second knows too. -/
theorem lookup_unknowing (name : Name) (value : Literal)
    (h : unknowing.env.lookup name = some value) : knowing.env.lookup name = some value := by
  cases h

/-- A hidden effect makes the values differ: the right-hand side that was passed over returns once
more is known, or changes the variable that the block ends in. -/
theorem passing_over_changes_value :
    passingOver.WellFormed ∧
    (∀ name value, unknowing.env.lookup name = some value → knowing.env.lookup name = some value) ∧
    passingOver.reduce ⟨5⟩ unknowing = .ok (.ok (.int 3)) unknowing ∧
    passingOver.reduce ⟨5⟩ knowing = .ok (.ok (.int 1)) knowing ∧
    ¬ passingOver.HidesNothing ⟨5⟩ unknowing ∧
    passingOver.reduce ⟨10⟩ unknowing = .ok (.ok (.int 1)) unknowing ∧
    passingOver.reduce ⟨10⟩ knowing = .ok (.ok (.int 2)) knowing ∧
    ¬ passingOver.HidesNothing ⟨10⟩ unknowing :=
  ⟨passingOver_wellFormed, lookup_unknowing, by decide +kernel, by decide +kernel,
    by decide +kernel, by decide +kernel, by decide +kernel, by decide +kernel⟩

/-- The third block has the same value whatever is known: what it passes over is contained. -/
theorem value_unique_passingOver :
    (∀ name value, unknowing.env.lookup name = some value → knowing.env.lookup name = some value) ∧
    passingOver.HidesNothing ⟨14⟩ unknowing ∧ passingOver.HidesNothing ⟨14⟩ knowing ∧
    passingOver.reduce ⟨14⟩ unknowing = .ok (.ok (.int 1)) unknowing ∧
    passingOver.reduce ⟨14⟩ knowing = .ok (.ok (.int 1)) knowing ∧
    ∀ value value' final final', passingOver.reduce ⟨14⟩ unknowing = .ok (.ok value) final →
      passingOver.reduce ⟨14⟩ knowing = .ok (.ok value') final' → value = value' := by
  have hless : passingOver.HidesNothing ⟨14⟩ unknowing := by decide +kernel
  have hmore : passingOver.HidesNothing ⟨14⟩ knowing := by decide +kernel
  refine ⟨lookup_unknowing, hless, hmore, by decide +kernel, by decide +kernel, ?_⟩
  intro value value' final final' hrun hrun'
  exact value_unique_of_hidesNothing passingOver ⟨14⟩ lookup_unknowing hless hmore hrun hrun'

end Context

end ConstFold
