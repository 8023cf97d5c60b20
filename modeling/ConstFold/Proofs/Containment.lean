import ConstFold.Proofs.Column
import ConstFold.Proofs.Composition

/-!
# Contained expressions

An expression is contained when it has no `return` of its own and assigns only to variables that it
declares itself, in the block of the assignment or in a block around it. Calls do not count: a
function body has an environment of its own and its `return` ends there.

A contained expression can be evaluated without a trace, whether it reduces or not. What it may
still do to the environment it is evaluated in is to forget names, since a declaration without a
constant forgets its name in every scope. The main statement is `Context.shields_evalWithin`: the
column of every name is afterwards what it was, or is clear, and the evaluation does not end in a
`return`.
-/

set_option autoImplicit false

namespace ConstFold

open Eval

/-! ## The condition -/

/-- Whether statements assign only to `locals` and to what they declare on the way. Their
expressions are checked by `contained`. -/
def containedStmts (contained : List Name → NodeId → Bool) :
    List Name → List (Stmt Name NodeId) → Bool
  | _, [] => true
  | locals, .expr value :: rest =>
    contained locals value && containedStmts contained locals rest
  | locals, .declare name init :: rest =>
    init.all (contained locals) && containedStmts contained (name :: locals) rest
  | locals, .assign name value :: rest =>
    locals.contains name && contained locals value && containedStmts contained locals rest

namespace Arena

/-- Whether an expression of at most `nesting` nodes nested within each other assigns only to
`locals` and to what it declares itself, and has no `return`. -/
def containedWithin (arena : Arena) : Nat → List Name → NodeId → Bool
  | 0, _, _ => false
  | nesting + 1, locals, id =>
    match arena.shape id with
    | .error _ => true
    | .ok (.ret _) => false
    -- The children of a foreign node are never evaluated.
    | .ok (.foreign _) => true
    | .ok (.block stmts) => containedStmts (arena.containedWithin nesting) locals stmts
    | .ok shape => shape.children.all (arena.containedWithin nesting locals)

/-- Whether an expression assigns only to variables that it declares itself and has no `return`. -/
def isContained (arena : Arena) (id : NodeId) : Bool :=
  arena.containedWithin (arena.size + 1) [] id

end Arena

/-! ## What may happen to a column -/

namespace Column

/-- What a column may become while the scopes opened since declare `locals`, innermost first. Under
the opened scopes it is as before or clear. A declared name is bound in its own scope, or nowhere
from there on outward, so that an assignment does not get through. -/
def Shielded (name : Name) : List (List Name) → Column → Column → Prop
  | [], before, after => after = before ∨ after = clear before
  | _ :: _, _, [] => False
  | locals :: outer, before, entry :: rest =>
    Shielded name outer before rest ∧ (name ∈ locals → entry.isSome = true ∨ visible rest = none)

namespace Shielded

variable {name : Name} {locals : List (List Name)} {scope : List Name} {before after : Column}

/-- A shielded column has the scopes opened since on top. -/
theorem length_eq (h : Shielded name locals before after) :
    after.length = locals.length + before.length := by
  induction locals generalizing after with
  | nil => rcases h with rfl | rfl <;> simp [clear]
  | cons scope outer ih =>
    cases after with
    | nil => exact h.elim
    | cons entry rest =>
      have hrest := ih h.1
      simp only [List.length_cons]
      omega

/-- A shielded column stays so when a scope is opened. -/
theorem push (h : Shielded name locals before after) :
    Shielded name ([] :: locals) before (none :: after) :=
  ⟨h, fun hmem => nomatch hmem⟩

/-- A shielded column stays so when a scope opened since is closed. -/
theorem pop (h : Shielded name (scope :: locals) before after) :
    Shielded name locals before after.tail := by
  cases after with
  | nil => exact h.elim
  | cons entry rest => exact h.1

/-- A shielded column stays so when the name is forgotten. -/
theorem clear (h : Shielded name locals before after) :
    Shielded name locals before (clear after) := by
  induction locals generalizing after with
  | nil =>
    rcases h with rfl | rfl
    · exact .inr rfl
    · exact .inr List.map_map
  | cons scope outer ih =>
    cases after with
    | nil => exact h.elim
    | cons entry rest => exact ⟨ih h.1, fun _ => .inr (visible_clear rest)⟩

/-- Another name may be declared, or forgotten to have been. -/
theorem mono {scope' : List Name} (hscope : name ∈ scope' → name ∈ scope)
    (h : Shielded name (scope :: locals) before after) :
    Shielded name (scope' :: locals) before after := by
  cases after with
  | nil => exact h.elim
  | cons entry rest => exact ⟨h.1, fun hmem => h.2 (hscope hmem)⟩

/-- A shielded column stays so when the name is bound in a scope opened since. -/
theorem bindTop (value : Literal) {scope' : List Name}
    (h : Shielded name (scope :: locals) before after) :
    Shielded name (scope' :: locals) before (bindTop value after) := by
  cases after with
  | nil => exact h.elim
  | cons entry rest => exact ⟨h.1, fun _ => .inl rfl⟩

/-- A shielded column stays so when the name is declared without a value. -/
theorem declare_clear {scope' : List Name} (h : Shielded name (scope :: locals) before after) :
    Shielded name (scope' :: locals) before (Column.clear after) := by
  have hclear := h.clear
  cases after with
  | nil => exact h.elim
  | cons entry rest => exact ⟨hclear.1, fun _ => .inr (visible_clear rest)⟩

/-- A shielded column stays so when the name is overwritten and a scope opened since declares it. -/
theorem overwrite (value : Literal) (hname : ∃ scope ∈ locals, name ∈ scope)
    (hvisible : (visible after).isSome = true) (h : Shielded name locals before after) :
    Shielded name locals before (overwrite value after) := by
  induction locals generalizing after with
  | nil =>
    obtain ⟨_, hmem, _⟩ := hname
    cases hmem
  | cons scope outer ih =>
    cases after with
    | nil => exact h.elim
    | cons entry rest =>
      cases entry with
      | some old => exact ⟨h.1, fun _ => .inl rfl⟩
      | none =>
        -- The binding is further out, so the name is not one of this scope's.
        have hrest : (visible rest).isSome = true := by simpa [visible] using hvisible
        have hnot : name ∉ scope := by
          intro hmem
          rcases h.2 hmem with hsome | hnone
          · cases hsome
          · rw [hnone] at hrest
            cases hrest
        have houter : ∃ scope ∈ outer, name ∈ scope := by simpa [hnot] using hname
        exact ⟨ih houter hrest h.1, fun hmem => (hnot hmem).elim⟩

/-- An assignment to a declared variable does not reach the scopes that were there before. -/
theorem assign (value : Literal) (hname : ∃ scope ∈ locals, name ∈ scope)
    (h : Shielded name locals before after) : Shielded name locals before (assign value after) := by
  unfold Column.assign
  split
  · next hvisible => exact h.overwrite value hname hvisible
  · cases locals with
    | nil =>
      obtain ⟨_, hmem, _⟩ := hname
      cases hmem
    | cons scope outer => exact h.bindTop value

end Shielded

end Column

namespace Env

/-- Every column of an environment is shielded. -/
def Shielded (locals : List (List Name)) (before after : Env) : Prop :=
  ∀ name, Column.Shielded name locals (before.column name) (after.column name)

namespace Shielded

variable {locals : List (List Name)} {scope : List Name} {before after : Env}

/-- An environment that stays as it is is shielded. -/
theorem refl (env : Env) : Shielded [] env env := fun _ => .inl rfl

/-- A shielded environment stays so when a scope is opened. -/
theorem push (h : Shielded locals before after) : Shielded ([] :: locals) before after.push := by
  intro name
  rw [column_push]
  exact (h name).push

/-- A shielded environment stays so when a scope opened since is closed. -/
theorem pop (h : Shielded (scope :: locals) before after) : Shielded locals before after.pop := by
  intro name
  have hlength := (h name).length_eq
  have hbefore : 0 < (before.column name).length := by simp [column_eq]
  rw [length_column, List.length_cons] at hlength
  rw [column_pop (by omega)]
  exact (h name).pop

/-- A shielded environment stays so when a name is forgotten. -/
theorem forget (h : Shielded locals before after) (forgotten : Name) :
    Shielded locals before (after.forget forgotten) := by
  intro name
  rw [column_forget]
  split
  · exact (h name).clear
  · exact h name

/-- A declaration without a value. -/
theorem declare (h : Shielded (scope :: locals) before after) (declared : Name) :
    Shielded ((declared :: scope) :: locals) before (after.forget declared) := by
  intro name
  rw [column_forget]
  split
  · exact (h name).declare_clear
  · next hne => exact (h name).mono fun hmem => by simpa [hne] using hmem

/-- A shielded environment stays so when a name is defined in a scope opened since, which then
declares it. -/
theorem define (h : Shielded (scope :: locals) before after) (declared : Name) (value : Literal) :
    Shielded ((declared :: scope) :: locals) before (after.define declared value) := by
  intro name
  rw [column_define]
  split
  · exact (h name).bindTop value
  · next hne => exact (h name).mono fun hmem => by simpa [hne] using hmem

/-- A shielded environment stays so when a name is assigned to that a scope opened since
declares. -/
theorem assign (h : Shielded locals before after) {assigned : Name} (value : Literal)
    (hassigned : assigned ∈ locals.flatten) :
    Shielded locals before (after.assign assigned value) := by
  intro name
  rw [column_assign]
  split
  · next heq => exact (h name).assign value (by rw [heq]; simpa using hassigned)
  · exact h name

/-- A scope may be taken not to declare a name that it declares. -/
theorem undeclare {declared : Name} (h : Shielded ((declared :: scope) :: locals) before after) :
    Shielded (scope :: locals) before after :=
  fun name => (h name).mono fun hmem => List.mem_cons_of_mem declared hmem

end Shielded

end Env

/-! ## Evaluating a contained expression -/

/-- Evaluations that keep the environment shielded, however they end, and do not end in a `return`.
What is declared on the way counts when they succeed. -/
def Shields {α : Type} (locals after : List (List Name)) (evaluation : Eval α) : Prop :=
  ∀ before machine, Env.Shielded locals before machine.env →
    match evaluation machine with
    | .ok _ machine => Env.Shielded after before machine.env
    | .error exit machine =>
      Env.Shielded locals before machine.env ∧ ∀ value, exit ≠ .returned value

namespace Shields

variable {α β : Type} {locals middle after outer : List (List Name)} {scope : List Name}

/-- Two shielding evaluations one after the other shield. -/
theorem bind {first : Eval α} {next : α → Eval β} (hfirst : Shields locals middle first)
    (hnext : ∀ value, Shields middle after (next value))
    (hback : ∀ before env, Env.Shielded middle before env → Env.Shielded locals before env) :
    Shields locals after (first >>= next) := by
  intro before machine hmachine
  have h := hfirst before machine hmachine
  rw [bind_apply]
  cases hrun : first machine with
  | error exit machine' =>
    rw [hrun] at h
    exact h
  | ok value machine' =>
    rw [hrun] at h
    have hrest := hnext value before machine' h
    cases hend : next value machine' with
    | ok result final =>
      simp only [hend] at hrest ⊢
      exact hrest
    | error exit final =>
      simp only [hend] at hrest ⊢
      exact ⟨hback before final.env hrest.1, hrest.2⟩

/-- Shielding is kept by sequencing, and failures have it. -/
theorem sequential (locals : List (List Name)) :
    Sequential fun α (family : Unit → Eval α) => ∀ i, Shields locals locals (family i) where
  pure _ _ _ _ h := h
  bind hfirst hnext i := (hfirst i).bind (fun value => hnext value i) fun _ _ h => h
  fail _ _ _ _ h := ⟨h, Exit.failed_ne_returned _⟩

/-- Changing the environment shields if the change does. -/
theorem modifyEnv {change : Env → Env}
    (hchange : ∀ before env, Env.Shielded locals before env → Env.Shielded after before (change env)) :
    Shields locals after (modifyEnv change) :=
  fun before machine hmachine => hchange before machine.env hmachine

/-- An evaluation in a scope of its own shields if it does within the scope. -/
theorem inScope {body : Eval α} (hbody : Shields ([] :: locals) ([] :: locals) body) :
    Shields locals locals (inScope body) := by
  intro before machine hmachine
  have h := hbody before { machine with env := machine.env.push } hmachine.push
  unfold Eval.inScope
  cases hrun : body { machine with env := machine.env.push } with
  | ok value machine' =>
    rw [hrun] at h
    exact h.pop
  | error exit machine' =>
    rw [hrun] at h
    exact ⟨h.1.pop, h.2⟩

/-- Evaluating a right-hand side shields, whether it has a value or is passed over. -/
theorem bound {value : Eval Literal} (hvalue : Shields locals locals value) :
    Shields locals locals (bound value) := by
  intro before machine hmachine
  have h := hvalue before machine hmachine
  unfold Eval.bound
  cases hrun : value machine with
  | ok result machine' =>
    rw [hrun] at h
    exact h
  | error exit machine' =>
    rw [hrun] at h
    cases exit with
    | returned result => exact absurd rfl (h.2 result)
    | crashed fault => exact h
    | failed failure =>
      by_cases hhalts : failure.halts = true
      · simpa [hhalts] using h
      · simpa [hhalts] using h.1

/-- A function body has an environment of its own, and its `return` ends there. -/
theorem evalBody (ctx : Context) (eval : NodeId → Eval Literal) (definition : Definition)
    (args : List Literal) : Shields locals locals (ctx.evalBody eval definition args) := by
  intro before machine hmachine
  rw [Context.evalBody_apply]
  by_cases hparams : definition.params.length ≠ args.length
  · rw [if_pos hparams]
    exact ⟨hmachine, Exit.failed_ne_returned _⟩
  · rw [if_neg hparams]
    by_cases hlimit : ctx.policy.maxCallDepth ≤ machine.depth
    · rw [if_pos hlimit]
      exact ⟨hmachine, Exit.failed_ne_returned _⟩
    · rw [if_neg hlimit, inFrame_apply]
      cases eval definition.body ⟨Env.ofBindings (definition.params.zip args),
          deeper machine.depth⟩ with
      | ok value callee => exact hmachine
      | error exit callee =>
        cases exit with
        | returned value => exact hmachine
        | failed failure => exact ⟨hmachine, Exit.failed_ne_returned _⟩
        | crashed fault => exact ⟨hmachine, Exit.crashed_ne_returned _⟩

/-- Reading a variable shields. -/
theorem read (name : Name) (reason : Inconclusive) :
    Shields locals locals (do
      match (← get).env.lookup name with
      | some value => return value
      | none => giveUp reason : Eval Literal) := by
  intro before machine hmachine
  simp only [bind_apply, get_apply]
  cases machine.env.lookup name with
  | some value => exact hmachine
  | none => exact ⟨hmachine, Exit.failed_ne_returned _⟩

/-- Statements that declare a name shield it from the statements that follow. -/
theorem declared {name : Name} {first : Eval α} {next : α → Eval β}
    (hfirst : Shields (scope :: outer) ((name :: scope) :: outer) first)
    (hnext : ∀ value, Shields ((name :: scope) :: outer) ((name :: scope) :: outer) (next value)) :
    Shields (scope :: outer) (scope :: outer) (first >>= next) := by
  have hall : Shields (scope :: outer) ((name :: scope) :: outer) (first >>= next) :=
    hfirst.bind hnext fun _ _ h => h.undeclare
  intro before machine hmachine
  have h := hall before machine hmachine
  cases hrun : (first >>= next) machine with
  | ok value machine' =>
    rw [hrun] at h
    exact h.undeclare
  | error exit machine' =>
    rw [hrun] at h
    exact h

/-- A declaration shields, and its scope then declares the name. -/
theorem declaration {eval : NodeId → Eval Literal} {name : Name} {init : Option NodeId}
    (hinit : ∀ child ∈ init, Shields (scope :: outer) (scope :: outer) (eval child)) :
    Shields (scope :: outer) ((name :: scope) :: outer) (evalStmt eval (.declare name init)) := by
  have hunit : Shields ((name :: scope) :: outer) ((name :: scope) :: outer)
      (Pure.pure Literal.unit : Eval Literal) := (sequential _).pure Literal.unit ()
  have hforget : Shields (scope :: outer) ((name :: scope) :: outer) (do
      Eval.modifyEnv (·.forget name)
      return Literal.unit) :=
    (modifyEnv fun _ _ h => h.declare name).bind (fun _ => hunit) fun _ _ h => h.undeclare
  cases init with
  | none => exact hforget
  | some child =>
    refine (hinit child rfl).bound.bind (fun value => ?_) fun _ _ h => h
    cases value with
    | none => exact hforget
    | some value =>
      exact (modifyEnv fun _ _ h => h.define name value).bind (fun _ => hunit)
        fun _ _ h => h.undeclare

/-- An assignment to a declared name shields. -/
theorem assignment {eval : NodeId → Eval Literal} {name : Name} {child : NodeId}
    (hname : name ∈ locals.flatten) (hchild : Shields locals locals (eval child)) :
    Shields locals locals (evalStmt eval (.assign name child)) := by
  have hunit : Shields locals locals (Pure.pure Literal.unit : Eval Literal) :=
    (sequential locals).pure Literal.unit ()
  refine hchild.bound.bind (fun value => ?_) fun _ _ h => h
  cases value with
  | none =>
    exact (modifyEnv fun _ _ h => h.forget name).bind (fun _ => hunit) fun _ _ h => h
  | some value =>
    exact (modifyEnv fun _ _ h => h.assign value hname).bind (fun _ => hunit) fun _ _ h => h

/-- Contained statements, run one after the other. -/
theorem evalStmts {contained : List Name → NodeId → Bool} {eval : NodeId → Eval Literal}
    (heval : ∀ locals id, contained locals.flatten id = true → Shields locals locals (eval id))
    {stmts : List (Stmt Name NodeId)} (last : Literal)
    (h : containedStmts contained (scope :: outer).flatten stmts = true) :
    Shields (scope :: outer) (scope :: outer) (evalStmts eval last stmts) := by
  induction stmts generalizing scope last with
  | nil => exact (sequential _).pure last ()
  | cons stmt rest ih =>
    cases stmt with
    | expr child =>
      obtain ⟨hchild, hrest⟩ := Bool.and_eq_true_iff.1 h
      exact (heval _ child hchild).bind (fun value => ih value hrest) fun _ _ hback => hback
    | declare name init =>
      obtain ⟨hinit, hrest⟩ := Bool.and_eq_true_iff.1 h
      refine (declaration fun child hchild => ?_).declared fun value => ih value hrest
      cases hchild
      exact heval _ child hinit
    | assign name child =>
      obtain ⟨hboth, hrest⟩ := Bool.and_eq_true_iff.1 h
      obtain ⟨hname, hchild⟩ := Bool.and_eq_true_iff.1 hboth
      have hmem : name ∈ (scope :: outer).flatten := List.contains_iff_mem.1 hname
      exact (assignment hmem (heval _ child hchild)).bind (fun value => ih value hrest)
        fun _ _ hback => hback

end Shields

/-- What containment says of the layers of a node. -/
theorem Arena.containedWithin_cases {arena : Arena} {nesting : Nat} {locals : List Name}
    {id : NodeId} {shape : Shape Name NodeId} (hshape : arena.shape id = .ok shape)
    (h : arena.containedWithin (nesting + 1) locals id = true) :
    (∃ children, shape = .foreign children) ∨
    (∃ stmts, shape = .block stmts ∧
      containedStmts (arena.containedWithin nesting) locals stmts = true) ∨
    ((∀ stmts, shape ≠ .block stmts) ∧ (∀ value, shape ≠ .ret value) ∧
      ∀ child ∈ shape.children, arena.containedWithin nesting locals child = true) := by
  simp only [Arena.containedWithin, hshape] at h
  cases shape with
  | «foreign» children => exact .inl ⟨children, rfl⟩
  | block stmts => exact .inr (.inl ⟨stmts, rfl, h⟩)
  | ret value => cases h
  | literal value => exact .inr (.inr ⟨nofun, nofun, List.all_eq_true.1 h⟩)
  | var name => exact .inr (.inr ⟨nofun, nofun, List.all_eq_true.1 h⟩)
  | call callee receiver args => exact .inr (.inr ⟨nofun, nofun, List.all_eq_true.1 h⟩)
  | conditional arms otherwise => exact .inr (.inr ⟨nofun, nofun, List.all_eq_true.1 h⟩)
  | loop condition body => exact .inr (.inr ⟨nofun, nofun, List.all_eq_true.1 h⟩)

/-- Evaluating a contained expression leaves every column as it was or clear, and does not end in a
`return`. -/
theorem Context.shields_evalWithin (ctx : Context) (nesting : Nat) (locals : List (List Name))
    {depth : Nat} {id : NodeId} (h : ctx.arena.containedWithin depth locals.flatten id = true) :
    Shields locals locals (ctx.evalWithin nesting id) := by
  induction nesting generalizing depth locals id with
  | zero => exact fun before machine hmachine => ⟨hmachine, Exit.crashed_ne_returned _⟩
  | succ nesting ih =>
    cases depth with
    | zero => cases h
    | succ depth =>
      cases hshape : ctx.arena.shape id with
      | error fault =>
        intro before machine hmachine
        simp only [Context.evalWithin, Context.evalNode, hshape]
        exact ⟨hmachine, Exit.crashed_ne_returned _⟩
      | ok shape =>
        have hsequential := Shields.sequential locals
        rw [ctx.evalWithin_succ_of_shape hshape]
        rcases Arena.containedWithin_cases hshape h with
          ⟨children, rfl⟩ | ⟨stmts, rfl, hstmts⟩ | ⟨hblock, hret, hchildren⟩
        · exact hsequential.fail (.inconclusive .foreign) ()
        · apply Shields.inScope
          exact Shields.evalStmts (fun locals child hchild => ih locals hchild) .unit hstmts
        · exact hsequential.evalShape ctx (fun _ => ctx) (fun _ => .refl ctx)
            (fun child hchild _ => ih locals (hchildren child hchild))
            (fun name _ reason _ => Shields.read name reason)
            (fun callee receiver args _ receiverValue argValues =>
              hsequential.evalCall ctx (fun _ => ctx) (fun _ => .refl ctx) callee receiverValue
                argValues fun definition _ _ => Shields.evalBody ctx _ definition argValues)
            (fun condition body _ hcondition hbody => hsequential.rounds _ hcondition hbody _ _)
            (fun stmts heq => absurd heq (hblock stmts)) (fun value heq => absurd heq (hret value)) ()

end ConstFold
