import ConstFold.Proofs.Composition
import ConstFold.Proofs.WellFormed

/-!
# Nesting of evaluations

An evaluation is bounded in how many nodes are nested within each other. In a well-formed context
the bound is never met: within one function body the height falls from a node to its children, and
function bodies nest no deeper than the policy allows. So the bound can be forgotten:
`Context.eval_eq_evalShape` is the rule for evaluating a node in terms of evaluating its children,
and no evaluation ends in a fault (`Context.not_crashes_eval`).

On the way it is shown that every evaluation, however it ends, leaves the number of function bodies
being evaluated as it was (`Context.depth_evalWithin`), that a call does not depend on the
environment (`Context.detached_evalCall`), and what holds of an evaluation because it holds of its
statements while a scope is open (`Scoped.evalWithin`).
-/

set_option autoImplicit false

namespace ConstFold

open Eval

variable {ι : Type}

/-! ## The number of function bodies being evaluated -/

/-- Below the limit, one more body counts as one more. -/
theorem toNat_deeper {depth limit : UInt32} (h : depth < limit) :
    (deeper depth).toNat = depth.toNat + 1 := by
  have hlt : depth.toNat < limit.toNat := UInt32.lt_iff_toNat_lt.1 h
  have hlimit : limit.toNat < UInt32.size := limit.toNat_lt_size
  have hroom : depth.toNat + 1 < UInt32.size := by omega
  have hone : (1 : UInt32).toNat = 1 := rfl
  simp only [deeper, hroom, if_true, UInt32.toNat_add, hone]
  exact Nat.mod_eq_of_lt hroom

/-- Leaving a function body undoes entering it, below any limit. -/
theorem shallower_deeper {depth limit : UInt32} (h : depth < limit) :
    shallower (deeper depth) = depth := by
  have hdeeper := toNat_deeper h
  have hpos : 0 < deeper depth := by
    rw [UInt32.lt_iff_toNat_lt, hdeeper]
    exact Nat.succ_pos _
  have hone : (1 : UInt32) ≤ deeper depth := by
    rw [UInt32.le_iff_toNat_le, hdeeper]
    exact Nat.succ_le_succ (Nat.zero_le _)
  apply UInt32.toNat_inj.1
  have hval : (1 : UInt32).toNat = 1 := rfl
  simp only [shallower, hpos, if_true]
  rw [UInt32.toNat_sub_of_le _ _ hone, hdeeper, hval]
  omega

/-- Evaluations that leave the number of function bodies being evaluated as it was. -/
def KeepsDepth (ι : Type) (α : Type) (family : ι → Eval α) : Prop :=
  ∀ i machine, (machineAfter (family i machine)).depth = machine.depth

/-- Leaving the number of bodies as it was is passed on from the parts of an evaluation to the
whole. -/
theorem keepsDepth_compositional : Compositional (KeepsDepth ι) where
  pure value i machine := rfl
  bind := by
    intro α β first next hfirst hnext i machine
    have h := hfirst i machine
    show (machineAfter ((first i >>= next i) machine)).depth = machine.depth
    rw [bind_apply]
    cases hrun : first i machine with
    | ok value machine' =>
      rw [hrun] at h
      exact (hnext value i machine').trans h
    | error exit machine' =>
      rw [hrun] at h
      exact h
  fail failure i machine := rfl
  returned value i machine := rfl
  read := by
    intro name reason i machine
    cases hname : machine.env.lookup name <;> simp [bind_apply, get_apply, hname, giveUp, machineAfter]
  inScope := by
    intro body hbody i machine
    have h := hbody i { machine with env := machine.env.push }
    show (machineAfter (Eval.inScope (body i) machine)).depth = machine.depth
    unfold Eval.inScope
    cases hrun : body i { machine with env := machine.env.push } <;> rw [hrun] at h <;> exact h
  bound := by
    intro value hvalue i machine
    have h := hvalue i machine
    show (machineAfter (Eval.bound (value i) machine)).depth = machine.depth
    unfold Eval.bound
    cases hrun : value i machine with
    | ok value machine' => rw [hrun] at h; exact h
    | error exit machine' =>
      rw [hrun] at h
      cases exit with
      | failed failure => by_cases hhalts : failure.halts = true <;> simpa [hhalts] using h
      | returned value => exact h
      | crashed fault => exact h
  forget name i machine := rfl
  define name value i machine := rfl
  assign name value i machine := rfl

/-- A function body is entered only below the limit, so leaving it restores the count. -/
theorem KeepsDepth.evalBody (ctx : ι → Context) {eval : ι → NodeId → Eval Literal}
    {definition : Definition} (hbody : KeepsDepth ι Literal fun i => eval i definition.body)
    (args : List Literal) :
    KeepsDepth ι Literal fun i => (ctx i).evalBody (eval i) definition args := by
  intro i machine
  show (machineAfter ((ctx i).evalBody (eval i) definition args machine)).depth = machine.depth
  rw [Context.evalBody_apply]
  split
  · rfl
  · split
    · rfl
    · next hlimit =>
      have hrestore := shallower_deeper (UInt32.not_le.1 hlimit)
      have h := hbody i ⟨Env.ofBindings (definition.params.zip args), deeper machine.depth⟩
      rw [inFrame_apply]
      cases hrun : eval i definition.body
          ⟨Env.ofBindings (definition.params.zip args), deeper machine.depth⟩ with
      | ok value callee =>
        simp only [hrun, machineAfter_ok] at h ⊢
        rw [h, hrestore]
      | error exit callee =>
        cases exit <;>
          simp only [hrun, machineAfter_ok, machineAfter_error] at h ⊢ <;> rw [h, hrestore]

/-- However an evaluation ends, as many function bodies are being evaluated after it as before. -/
theorem Context.depth_evalWithin (ctx : Context) (nesting : Nat) (id : NodeId) (machine : Machine) :
    (machineAfter (ctx.evalWithin nesting id machine)).depth = machine.depth := by
  have hall : KeepsDepth Unit Literal fun _ => ctx.evalWithin nesting id := by
    clear machine
    induction nesting generalizing id with
    | zero => exact fun _ machine => rfl
    | succ nesting ih =>
      have hcall : ∀ callee receiver args,
          KeepsDepth Unit Literal fun _ => ctx.evalCall (ctx.evalWithin nesting) callee receiver args :=
        fun callee receiver args =>
          keepsDepth_compositional.evalCall ctx (fun _ => ctx) (fun _ => .refl ctx) callee receiver args
            fun definition _ => KeepsDepth.evalBody (fun _ => ctx) (ih definition.body) args
      unfold Context.evalWithin Context.evalNode
      cases ctx.arena.shape id with
      | error fault => exact fun _ machine => rfl
      | ok shape =>
        exact keepsDepth_compositional.evalShape ctx (fun _ => ctx) (fun _ => .refl ctx)
          (fun child _ => ih child) hcall
          fun _ _ hcondition hbody => keepsDepth_compositional.rounds _ hcondition hbody _ _
  exact hall () machine

/-! ## Calls and the environment -/

/-- A result, reached without a change of the machine. -/
def endingAt {α : Type} (machine : Machine) : Except Exit α → EStateM.Result Exit Machine α
  | .ok value => .ok value machine
  | .error exit => .error exit machine

/-- A result reached without a change leaves the machine it began with. -/
theorem machineAfter_endingAt {α : Type} (machine : Machine) (result : Except Exit α) :
    machineAfter (endingAt machine result) = machine := by
  cases result <;> rfl

/-- Evaluations that neither read nor change the environment and do not end in a `return`. -/
def Detached {α : Type} (evaluation : Eval α) : Prop :=
  ∀ depth, ∃ result : Except Exit α, (∀ value, result ≠ .error (.returned value)) ∧
    ∀ env, evaluation ⟨env, depth⟩ = endingAt ⟨env, depth⟩ result

/-- A sequence is detached if both of its steps are. -/
theorem Detached.bind {α β : Type} {first : Eval α} {next : α → Eval β} (hfirst : Detached first)
    (hnext : ∀ value, Detached (next value)) : Detached (first >>= next) := by
  intro depth
  obtain ⟨result, hresult, hrun⟩ := hfirst depth
  cases result with
  | ok value =>
    obtain ⟨result', hresult', hrun'⟩ := hnext value depth
    refine ⟨result', hresult', fun env => ?_⟩
    rw [bind_apply, hrun env]
    exact hrun' env
  | error exit =>
    refine ⟨.error exit, fun value heq => hresult value (by cases heq; rfl), fun env => ?_⟩
    rw [bind_apply, hrun env]
    rfl

/-- Being detached is closed under steps in sequence. -/
theorem Detached.sequential :
    Sequential fun α (family : ι → Eval α) => ∀ i, Detached (family i) where
  pure value _ _ := ⟨.ok value, fun _ => nofun, fun _ => rfl⟩
  bind hfirst hnext i := (hfirst i).bind fun value => hnext value i
  fail failure _ _ := ⟨.error (.failed failure), fun _ => nofun, fun _ => rfl⟩

/-- What a function body comes to for its caller. -/
def frameResult : EStateM.Result Exit Machine Literal → Except Exit Literal
  | .ok value _ => .ok value
  | .error (.returned value) _ => .ok value
  | .error exit _ => .error exit

/-- A `return` does not leave the body of a function. -/
theorem frameResult_ne_returned (ending : EStateM.Result Exit Machine Literal) (value : Literal) :
    frameResult ending ≠ .error (.returned value) := by
  cases ending with
  | ok result machine => exact nofun
  | error exit machine => cases exit <;> exact nofun

/-- A body in a frame of its own comes to its result and leaves the caller's machine as it was. -/
theorem inFrame_eq_endingAt {bindings : List (Name × Literal)} {body : Eval Literal}
    {depth limit : UInt32} (hdepth : depth < limit) (env : Env)
    (hkeeps : ∀ machine, (machineAfter (body machine)).depth = machine.depth) :
    inFrame bindings body ⟨env, depth⟩ =
      endingAt ⟨env, depth⟩ (frameResult (body ⟨Env.ofBindings bindings, deeper depth⟩)) := by
  have hcallee := hkeeps ⟨Env.ofBindings bindings, deeper depth⟩
  have hrestore := shallower_deeper hdepth
  rw [inFrame_apply]
  cases hrun : body ⟨Env.ofBindings bindings, deeper depth⟩ with
  | ok value callee =>
    simp only [hrun, machineAfter_ok] at hcallee ⊢
    rw [hcallee, hrestore]
    rfl
  | error exit callee =>
    simp only [hrun, machineAfter_error] at hcallee
    cases exit <;> simp only [hcallee, hrestore] <;> rfl

/-- The body of a function neither reads nor changes the caller's environment. -/
theorem Detached.evalBody (ctx : Context) (nesting : Nat) (definition : Definition)
    (args : List Literal) :
    Detached (ctx.evalBody (ctx.evalWithin nesting) definition args) := by
  intro depth
  have happly := fun env => ctx.evalBody_apply (ctx.evalWithin nesting) definition args ⟨env, depth⟩
  by_cases hparams : definition.params.length ≠ args.length
  · refine ⟨.error (.failed (.inconclusive (.arity (ctx.text definition.name)
      definition.params.length args.length))), fun _ => nofun, fun env => ?_⟩
    rw [happly, if_pos hparams]
    rfl
  · by_cases hlimit : ctx.policy.maxCallDepth ≤ depth
    · refine ⟨.error (.failed (.callDepth ctx.policy.maxCallDepth)), fun _ => nofun, fun env => ?_⟩
      rw [happly, if_neg hparams, if_pos hlimit]
      rfl
    · refine ⟨frameResult (ctx.evalWithin nesting definition.body
        ⟨Env.ofBindings (definition.params.zip args), deeper depth⟩),
        frameResult_ne_returned _, fun env => ?_⟩
      rw [happly, if_neg hparams, if_neg hlimit]
      exact inFrame_eq_endingAt (UInt32.not_le.1 hlimit) env (ctx.depth_evalWithin nesting _)

/-- A call on constants comes to the same in every environment and leaves the machine as it was. -/
theorem Context.detached_evalCall (ctx : Context) (nesting : Nat) (callee : Name)
    (receiver : Option Literal) (args : List Literal) :
    Detached (ctx.evalCall (ctx.evalWithin nesting) callee receiver args) := by
  have hall : ∀ _ : Unit, Detached (ctx.evalCall (ctx.evalWithin nesting) callee receiver args) :=
    Detached.sequential.evalCall ctx (fun _ => ctx) (fun _ => .refl ctx) callee receiver args
      fun definition _ _ => Detached.evalBody ctx nesting definition args
  exact hall ()

/-! ## Evaluations that open scopes -/

/-- A fault is detached. -/
theorem Detached.crashed (fault : Fault) : Detached (throw (.crashed fault) : Eval Literal) :=
  fun _ => ⟨.error (.crashed fault), fun _ => nofun, fun _ => rfl⟩

/-- A property of evaluations, one for every number of scopes that were opened, that evaluating a
node under `root` inherits from evaluating its children. What a statement does is said for the
blocks under `root` only, and with a scope open. -/
structure Scoped (ctx : Context) (root : NodeId) (P : Nat → (α : Type) → Eval α → Prop) : Prop where
  sequential : ∀ opened, Sequential fun α (family : Unit → Eval α) => ∀ i, P opened α (family i)
  detached : ∀ {opened : Nat} {evaluation : Eval Literal}, Detached evaluation →
    P opened Literal evaluation
  returned : ∀ (opened : Nat) (value : Literal), P opened Literal (throw (.returned value))
  read : ∀ (opened : Nat) {node : NodeId} {name : Name}, ctx.arena.InTree root node →
    ctx.arena.shape node = .ok (.var name) → ∀ reason : Inconclusive,
      P opened Literal (do
        match (← get).env.lookup name with
        | some value => return value
        | none => giveUp reason)
  inScope : ∀ {opened : Nat} {body : Eval Literal}, P (opened + 1) Literal body →
    P opened Literal (Eval.inScope body)
  evalStmt : ∀ {opened : Nat} {eval : NodeId → Eval Literal} {block : NodeId}
    {stmts : List (Stmt Name NodeId)} {stmt : Stmt Name NodeId}, ctx.arena.InTree root block →
    ctx.arena.shape block = .ok (.block stmts) → stmt ∈ stmts →
    (∀ child ∈ stmt.child?, P (opened + 1) Literal (eval child)) →
    P (opened + 1) Literal (ConstFold.evalStmt eval stmt)

/-- Such a property holds of evaluating every node under the root. The induction is on the nesting,
for any number of scopes that were opened. -/
theorem Scoped.evalWithin {ctx : Context} {root : NodeId} {P : Nat → (α : Type) → Eval α → Prop}
    (h : Scoped ctx root P) (nesting opened : Nat) {id : NodeId} (hid : ctx.arena.InTree root id) :
    P opened Literal (ctx.evalWithin nesting id) := by
  induction nesting generalizing opened id with
  | zero => exact h.detached (.crashed .unfinished)
  | succ nesting ih =>
    cases hshape : ctx.arena.shape id with
    | error fault =>
      have hcrash : ctx.evalWithin (nesting + 1) id = throw (.crashed fault) := by
        simp only [Context.evalWithin, Context.evalNode, hshape]
        rfl
      rw [hcrash]
      exact h.detached (.crashed fault)
    | ok shape =>
      have hchildren : ∀ opened, ∀ child ∈ shape.children,
          P opened Literal (ctx.evalWithin nesting child) :=
        fun opened child hmem => ih opened (hid.child ⟨shape, hshape, hmem⟩)
      have hblock : ∀ stmts, shape = .block stmts → ∀ _ : Unit,
          P opened Literal (Eval.inScope (evalStmts (ctx.evalWithin nesting) .unit stmts)) := by
        rintro stmts rfl _
        have hbody : ∀ _ : Unit,
            P (opened + 1) Literal (evalStmts (ctx.evalWithin nesting) .unit stmts) := by
          refine (h.sequential (opened + 1)).evalStmts (fun stmt hstmt _ => ?_) .unit
          refine h.evalStmt hid hshape hstmt fun child hmem => hchildren (opened + 1) child ?_
          simp only [Shape.children, List.mem_filterMap]
          exact ⟨stmt, hstmt, hmem⟩
        exact h.inScope (hbody ())
      have hread : ∀ name, shape = .var name → ∀ reason, ∀ _ : Unit, P opened Literal (do
          match (← get).env.lookup name with
          | some value => return value
          | none => giveUp reason) := by
        rintro name rfl reason _
        exact h.read opened hid hshape reason
      rw [ctx.evalWithin_succ_of_shape hshape]
      exact (h.sequential opened).evalShape ctx (fun _ => ctx) (fun _ => .refl ctx)
        (fun child hmem _ => hchildren opened child hmem) hread
        (fun callee _ _ _ receiver args _ =>
          h.detached (ctx.detached_evalCall nesting callee receiver args))
        (fun _ _ _ hcondition hbody => (h.sequential opened).rounds _ hcondition hbody _ _)
        hblock (fun _ _ result _ => h.returned opened result) ()

/-! ## Two nestings that suffice -/

/-- An evaluation that ends in a fault. -/
def Crashes {α : Type} (ending : EStateM.Result Exit Machine α) : Prop :=
  ∃ fault machine, ending = .error (.crashed fault) machine

/-- Two evaluations that do the same, and not crash, while `depth` function bodies are being
evaluated. -/
structure Settled (depth : UInt32) (α : Type) (pair : Bool → Eval α) : Prop where
  keeps : KeepsDepth Bool α pair
  agree : ∀ machine, machine.depth = depth → pair true machine = pair false machine
  sound : ∀ machine, machine.depth = depth → ¬ Crashes (pair true machine)

/-- A value is not a fault. -/
theorem not_crashes_ok {α : Type} (value : α) (machine : Machine) :
    ¬ Crashes (.ok value machine) := by
  rintro ⟨fault, after, h⟩
  cases h

/-- A failure is not a fault. -/
theorem not_crashes_failed {α : Type} (failure : Failure) (machine : Machine) :
    ¬ Crashes (.error (.failed failure) machine : EStateM.Result Exit Machine α) := by
  rintro ⟨fault, after, h⟩
  cases h

/-- A `return` is not a fault. -/
theorem not_crashes_returned {α : Type} (value : Literal) (machine : Machine) :
    ¬ Crashes (.error (.returned value) machine : EStateM.Result Exit Machine α) := by
  rintro ⟨fault, after, h⟩
  cases h

/-- At the boundary of a function, every result but a crash is an outcome. -/
theorem exists_atBoundary_endingAt_eq {result : Except Exit Literal}
    (h : ∀ fault, result ≠ .error (.crashed fault)) :
    ∃ outcome, ∀ machine, atBoundary (endingAt machine result) = .ok outcome machine := by
  cases result with
  | ok value => exact ⟨.ok value, fun _ => rfl⟩
  | error exit =>
    cases exit with
    | returned value => exact ⟨.ok value, fun _ => rfl⟩
    | failed failure => exact ⟨.error failure, fun _ => rfl⟩
    | crashed fault => exact absurd rfl (h fault)

/-- An evaluation that does not end in a fault has an outcome at the boundary. -/
theorem exists_atBoundary_eq {ending : EStateM.Result Exit Machine Literal} (h : ¬ Crashes ending) :
    ∃ outcome, atBoundary ending = .ok outcome (machineAfter ending) := by
  cases ending with
  | ok value machine => exact ⟨.ok value, rfl⟩
  | error exit machine =>
    have hexit : ∀ fault, (.error exit : Except Exit Literal) ≠ .error (.crashed fault) := by
      rintro fault ⟨⟩
      exact h ⟨fault, machine, rfl⟩
    obtain ⟨outcome, houtcome⟩ := exists_atBoundary_endingAt_eq hexit
    exact ⟨outcome, houtcome machine⟩

/-- One evaluation taken twice settles when it keeps the depth and never crashes. -/
theorem Settled.same {depth : UInt32} {α : Type} {evaluation : Eval α}
    (hkeeps : KeepsDepth Bool α fun _ => evaluation)
    (hsound : ∀ machine, ¬ Crashes (evaluation machine)) :
    Settled depth α fun _ => evaluation :=
  ⟨hkeeps, fun _ _ => rfl, fun machine _ => hsound machine⟩

/-- Doing the same without a fault is passed on from the parts of an evaluation to the whole. -/
theorem settled_compositional (depth : UInt32) : Compositional (Settled depth) where
  pure value := .same (keepsDepth_compositional.pure value) fun _ => not_crashes_ok _ _
  bind := by
    intro α β first next hfirst hnext
    have hrun : ∀ b machine, (first b >>= next b) machine = _ := fun b => bind_apply (first b) (next b)
    refine ⟨keepsDepth_compositional.bind hfirst.keeps fun value => (hnext value).keeps, ?_, ?_⟩
    · intro machine hdepth
      have hkeeps := hfirst.keeps true machine
      rw [hrun true, hrun false, ← hfirst.agree machine hdepth]
      cases hend : first true machine with
      | error exit machine' => rfl
      | ok value machine' =>
        rw [hend] at hkeeps
        exact (hnext value).agree machine' (hkeeps.trans hdepth)
    · intro machine hdepth
      have hkeeps := hfirst.keeps true machine
      have hsound := hfirst.sound machine hdepth
      rw [hrun true]
      cases hend : first true machine with
      | error exit machine' =>
        rw [hend] at hsound
        rintro ⟨fault, after, hcrash⟩
        cases hcrash
        exact hsound ⟨fault, machine', rfl⟩
      | ok value machine' =>
        rw [hend] at hkeeps
        exact (hnext value).sound machine' (hkeeps.trans hdepth)
  fail failure := .same (keepsDepth_compositional.fail failure) fun _ => not_crashes_failed _ _
  returned value := .same (keepsDepth_compositional.returned value) fun _ => not_crashes_returned _ _
  read name reason := by
    refine .same (keepsDepth_compositional.read name reason) fun machine => ?_
    simp only [bind_apply, get_apply]
    cases machine.env.lookup name with
    | some value => exact not_crashes_ok value machine
    | none => exact not_crashes_failed _ machine
  inScope := by
    intro body hbody
    refine ⟨keepsDepth_compositional.inScope hbody.keeps, ?_, ?_⟩
    · intro machine hdepth
      have h := hbody.agree { machine with env := machine.env.push } hdepth
      simp only [Eval.inScope, h]
    · intro machine hdepth
      have h := hbody.sound { machine with env := machine.env.push } hdepth
      rintro ⟨fault, after, hcrash⟩
      cases hend : body true { machine with env := machine.env.push } with
      | ok value machine' => simp [Eval.inScope, hend] at hcrash
      | error exit machine' =>
        simp only [Eval.inScope, hend, EStateM.Result.error.injEq] at hcrash
        exact h ⟨fault, machine', by rw [hend, hcrash.1]⟩
  bound := by
    intro value hvalue
    refine ⟨keepsDepth_compositional.bound hvalue.keeps, ?_, ?_⟩
    · intro machine hdepth
      simp only [Eval.bound, hvalue.agree machine hdepth]
    · intro machine hdepth
      have h := hvalue.sound machine hdepth
      rintro ⟨fault, after, hcrash⟩
      cases hend : value true machine with
      | ok value machine' => simp [Eval.bound, hend] at hcrash
      | error exit machine' =>
        cases exit with
        | returned value => simp [Eval.bound, hend] at hcrash
        | failed failure =>
          by_cases hhalts : failure.halts = true <;> simp [Eval.bound, hend, hhalts] at hcrash
        | crashed fault' => exact h ⟨fault', machine', hend⟩
  forget name := .same (keepsDepth_compositional.forget name) fun _ => not_crashes_ok _ _
  define name value := .same (keepsDepth_compositional.define name value) fun _ => not_crashes_ok _ _
  assign name value := .same (keepsDepth_compositional.assign name value) fun _ => not_crashes_ok _ _

/-- Calls of a function do the same if its body does, one level deeper. -/
theorem Settled.evalBody {depth : UInt32} (ctx : Context) {eval : Bool → NodeId → Eval Literal}
    {definition : Definition} (hkeeps : KeepsDepth Bool Literal fun b => eval b definition.body)
    (hbody : depth < ctx.policy.maxCallDepth →
      Settled (deeper depth) Literal fun b => eval b definition.body)
    (args : List Literal) :
    Settled depth Literal fun b => ctx.evalBody (eval b) definition args := by
  refine ⟨KeepsDepth.evalBody (fun _ => ctx) hkeeps args, ?_, ?_⟩
  · intro machine hdepth
    rw [Context.evalBody_apply, Context.evalBody_apply, hdepth]
    split
    · rfl
    · split
      · rfl
      · next hlimit =>
        have hsettled := hbody (UInt32.not_le.1 hlimit)
        rw [inFrame_apply, inFrame_apply, hdepth, hsettled.agree _ rfl]
  · intro machine hdepth
    rw [Context.evalBody_apply, hdepth]
    split
    · rintro ⟨_, _, h⟩
      cases h
    · split
      · rintro ⟨_, _, h⟩
        cases h
      · next hlimit =>
        have hsound := (hbody (UInt32.not_le.1 hlimit)).sound
          ⟨Env.ofBindings (definition.params.zip args), deeper depth⟩ rfl
        rw [inFrame_apply, hdepth]
        rintro ⟨fault, after, hcrash⟩
        cases hend : eval true definition.body
            ⟨Env.ofBindings (definition.params.zip args), deeper depth⟩ with
        | ok value callee => simp [hend] at hcrash
        | error exit callee =>
          cases exit with
          | returned value => simp [hend] at hcrash
          | failed failure => simp [hend] at hcrash
          | crashed fault' => exact hsound ⟨fault', callee, hend⟩

namespace Context

variable {ctx : Context}

/-- A nesting that suffices for evaluating a node while `depth` function bodies are being
evaluated. -/
noncomputable def nestingFor (ctx : Context) (depth : UInt32) (id : NodeId) : Nat :=
  (ctx.policy.maxCallDepth.toNat - depth.toNat) * (ctx.arena.size + 1) + ctx.arena.height id + 1

/-- Entering a function body pays for the whole height of the body. -/
theorem WellFormed.nestingFor_body (h : ctx.WellFormed) {depth : UInt32} {body : NodeId} (id : NodeId)
    (hdepth : depth < ctx.policy.maxCallDepth) (hbody : body.index < ctx.arena.size) :
    ctx.nestingFor (deeper depth) body < ctx.nestingFor depth id := by
  have hheight := h.arena.height_lt_size hbody
  have hlt : depth.toNat < ctx.policy.maxCallDepth.toNat := UInt32.lt_iff_toNat_lt.1 hdepth
  obtain ⟨spare, hspare⟩ : ∃ spare, ctx.policy.maxCallDepth.toNat - depth.toNat = spare + 1 :=
    ⟨ctx.policy.maxCallDepth.toNat - depth.toNat - 1, by omega⟩
  have hdeeper : ctx.policy.maxCallDepth.toNat - (deeper depth).toNat = spare := by
    rw [toNat_deeper hdepth]
    omega
  unfold nestingFor
  rw [hspare, hdeeper, Nat.succ_mul]
  omega

/-- A child needs less nesting than its parent. -/
theorem WellFormed.nestingFor_child (h : ctx.WellFormed) (depth : UInt32) {child id : NodeId}
    (hchild : ctx.arena.Child child id) : ctx.nestingFor depth child < ctx.nestingFor depth id := by
  have hheight := h.arena.height_lt hchild
  unfold nestingFor
  omega

/-- The largest nesting suffices for every stored node. -/
theorem WellFormed.nestingFor_le_maxNesting (h : ctx.WellFormed) (depth : UInt32) {id : NodeId}
    (hid : id.index < ctx.arena.size) : ctx.nestingFor depth id ≤ ctx.maxNesting := by
  have hheight := h.arena.height_lt_size hid
  have hmul : (ctx.policy.maxCallDepth.toNat - depth.toNat) * (ctx.arena.size + 1) ≤
      ctx.policy.maxCallDepth.toNat * (ctx.arena.size + 1) :=
    Nat.mul_le_mul_right _ (Nat.sub_le _ _)
  unfold nestingFor maxNesting
  rw [Nat.succ_mul]
  omega

/-- Evaluation is evaluation within the largest nesting. -/
theorem eval_def (ctx : Context) : ctx.eval = ctx.evalWithin ctx.maxNesting := by
  funext id
  rw [eval]

/-- Two nestings that suffice give the same evaluation. The induction is on one of them: it falls by
one at every node, and what suffices falls at least as fast. -/
theorem WellFormed.settled_evalWithin (h : ctx.WellFormed) {depth : UInt32} {id : NodeId}
    (hid : id.index < ctx.arena.size) {left right : Nat} (hleft : ctx.nestingFor depth id ≤ left)
    (hright : ctx.nestingFor depth id ≤ right) :
    Settled depth Literal fun b => ctx.evalWithin (bif b then left else right) id := by
  induction left generalizing right depth id with
  | zero => exact absurd hleft (by unfold nestingFor; omega)
  | succ left ih =>
    obtain ⟨right, rfl⟩ : ∃ n, right = n + 1 :=
      ⟨right - 1, by unfold nestingFor at hright; omega⟩
    obtain ⟨shape, hshape⟩ := h.arena.readable id hid
    have hsplit : (fun b => ctx.evalWithin (bif b then left + 1 else right + 1) id) =
        fun b => ctx.evalShape (ctx.evalWithin (bif b then left else right)) shape := by
      funext b
      cases b <;> exact ctx.evalWithin_succ_of_shape hshape _
    rw [hsplit]
    have hkeeps : ∀ node : NodeId,
        KeepsDepth Bool Literal fun b => ctx.evalWithin (bif b then left else right) node :=
      fun node b machine => ctx.depth_evalWithin _ node machine
    refine (settled_compositional depth).evalShape ctx (fun _ => ctx)
      (fun _ => Alike.refl ctx) ?_ ?_ ?_
    · intro child hmem
      have hchild : ctx.arena.Child child id := ⟨shape, hshape, hmem⟩
      have hless := h.nestingFor_child depth hchild
      exact ih (h.arena.inBounds hchild) (by omega) (by omega)
    · intro callee receiver args
      refine (settled_compositional depth).evalCall ctx (fun _ => ctx)
        (fun _ => Alike.refl ctx) callee receiver args ?_
      intro definition hdefinition
      have hbody := h.bodies callee definition hdefinition
      refine Settled.evalBody ctx (hkeeps definition.body) (fun hdepth => ?_) args
      have hless := h.nestingFor_body id hdepth hbody
      exact ih hbody (by omega) (by omega)
    · intro condition body hcondition hbody
      apply (settled_compositional depth).rounds _ hcondition hbody

/-- Evaluating a node of a well-formed context, at any depth and in any environment. -/
theorem WellFormed.settled_eval (h : ctx.WellFormed) (depth : UInt32) {id : NodeId}
    (hid : id.index < ctx.arena.size) : Settled depth Literal fun _ => ctx.eval id := by
  have hle := h.nestingFor_le_maxNesting depth hid
  have hsettled := h.settled_evalWithin hid hle hle
  simpa only [Bool.cond_self, ← eval_def] using hsettled

/-- A nesting larger than the largest needed makes no difference. -/
theorem WellFormed.eval_eq_evalWithin (h : ctx.WellFormed) {id : NodeId}
    (hid : id.index < ctx.arena.size) {nesting : Nat} (hnesting : ctx.maxNesting ≤ nesting)
    (machine : Machine) : ctx.eval id machine = ctx.evalWithin nesting id machine := by
  have hle := h.nestingFor_le_maxNesting machine.depth hid
  have hagree := (h.settled_evalWithin hid hle (hle.trans hnesting)).agree machine rfl
  rw [eval_def]
  exact hagree

/-- The rule for evaluating a node in terms of evaluating its children and the bodies it calls. -/
theorem WellFormed.eval_eq_evalShape (h : ctx.WellFormed) {id : NodeId}
    {shape : Shape Name NodeId} (hshape : ctx.arena.shape id = .ok shape) (machine : Machine) :
    ctx.eval id machine = ctx.evalShape ctx.eval shape machine := by
  have hid := Arena.lt_size_of_shape hshape
  rw [h.eval_eq_evalWithin hid (Nat.le_succ ctx.maxNesting), ctx.evalWithin_succ_of_shape hshape,
    ← eval_def]

/-- No evaluation of a well-formed context ends in a fault. -/
theorem WellFormed.not_crashes_eval (h : ctx.WellFormed) {id : NodeId}
    (hid : id.index < ctx.arena.size) (machine : Machine) : ¬ Crashes (ctx.eval id machine) :=
  (h.settled_eval machine.depth hid).sound machine rfl

/-- No call in a well-formed context ends in a fault. -/
theorem WellFormed.not_crashes_evalCall (h : ctx.WellFormed) (callee : Name)
    (receiver : Option Literal) (args : List Literal) (machine : Machine) :
    ¬ Crashes (ctx.evalCall ctx.eval callee receiver args machine) := by
  have hsettled : Settled machine.depth Literal fun _ =>
      ctx.evalCall ctx.eval callee receiver args := by
    refine (settled_compositional machine.depth).evalCall ctx (fun _ => ctx)
      (fun _ => Alike.refl ctx) callee receiver args ?_
    intro definition hdefinition
    have hbody := h.bodies callee definition hdefinition
    have hsettled := fun depth => h.settled_eval depth hbody
    exact Settled.evalBody ctx (hsettled machine.depth).keeps (fun _ => hsettled _) args
  exact hsettled.sound machine rfl

end Context

end ConstFold
