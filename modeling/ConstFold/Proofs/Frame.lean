import ConstFold.Proofs.Column
import ConstFold.Proofs.Folding

/-!
# What an evaluation may do to the environment

The only steps of an evaluation that touch a variable are the statements of blocks, and a block runs
in a scope of its own. So a property of the environment that opening and closing a scope keep, and
that the statements of an expression keep while a scope is open, holds after every evaluation of the
expression, however the evaluation ends (`ScopeInvariant.scoped_keeps`). Function bodies do not
count: they run in an environment of their own.

The main statement, `Context.WellFormed.frame_of_evaluation`, is the instance that compares the
scopes with what they were before: none is added or taken away, none gets a new name, and a binding
changes only if the expression itself assigns to or declares its name.
-/

set_option autoImplicit false

namespace ConstFold

open Eval

namespace Arena

/-- A block in the tree of `root` assigns to `name`. -/
def Assigns (arena : Arena) (root : NodeId) (name : Name) : Prop :=
  ∃ block stmts value, arena.InTree root block ∧ arena.shape block = .ok (.block stmts) ∧
    Stmt.assign name value ∈ stmts

/-- A block in the tree of `root` declares `name`. -/
def Declares (arena : Arena) (root : NodeId) (name : Name) : Prop :=
  ∃ block stmts init, arena.InTree root block ∧ arena.shape block = .ok (.block stmts) ∧
    Stmt.declare name init ∈ stmts

end Arena

/-! ## Properties that every evaluation keeps -/

/-- Evaluations that keep a property of the environment, however they end. -/
def Keeps {α : Type} (holds : Env → Prop) (evaluation : Eval α) : Prop :=
  ∀ machine, holds machine.env → holds (machineAfter (evaluation machine)).env

namespace Keeps

variable {α β : Type} {holds : Env → Prop}

/-- An evaluation keeps a property if both of its steps do. -/
theorem bind {first : Eval α} {next : α → Eval β} (hfirst : Keeps holds first)
    (hnext : ∀ value, Keeps holds (next value)) : Keeps holds (first >>= next) := by
  intro machine hmachine
  have hafter := hfirst machine hmachine
  rw [bind_apply]
  cases hrun : first machine with
  | error exit machine' =>
    rw [hrun] at hafter
    exact hafter
  | ok value machine' =>
    rw [hrun] at hafter
    exact hnext value machine' hafter

/-- Keeping a property is closed under steps in sequence. -/
theorem sequential (holds : Env → Prop) :
    Sequential fun α (family : Unit → Eval α) => ∀ i, Keeps holds (family i) where
  pure _ _ _ h := h
  bind hfirst hnext i := (hfirst i).bind fun value => hnext value i
  fail _ _ _ h := h

/-- Reading a variable keeps every property. -/
theorem read (name : Name) (reason : Inconclusive) :
    Keeps holds (do
      match (← get).env.lookup name with
      | some value => return value
      | none => giveUp reason : Eval Literal) := by
  intro machine hmachine
  simp only [bind_apply, get_apply]
  cases machine.env.lookup name with
  | some value => exact hmachine
  | none => exact hmachine

/-- A change of the environment that keeps a property is an evaluation that keeps it. -/
theorem modifyEnv {change : Env → Env} (hchange : ∀ env, holds env → holds (change env)) :
    Keeps holds (modifyEnv change) :=
  fun machine hmachine => hchange machine.env hmachine

/-- Passing over the failure of a value keeps what evaluating the value keeps. -/
theorem bound {value : Eval Literal} (hvalue : Keeps holds value) : Keeps holds (bound value) := by
  intro machine hmachine
  have hafter := hvalue machine hmachine
  unfold Eval.bound
  cases hrun : value machine with
  | ok result machine' =>
    rw [hrun] at hafter
    exact hafter
  | error exit machine' =>
    rw [hrun] at hafter
    cases exit with
    | returned result => exact hafter
    | crashed fault => exact hafter
    | failed failure => by_cases hhalts : failure.halts = true <;> simpa [hhalts] using hafter

/-- A scope is closed however the evaluation in it ends. -/
theorem inScope {inner : Env → Prop} {body : Eval Literal} (hbody : Keeps inner body)
    (hpush : ∀ env, holds env → inner env.push) (hpop : ∀ env, inner env → holds env.pop) :
    Keeps holds (inScope body) := by
  intro machine hmachine
  have hafter := hbody { machine with env := machine.env.push } (hpush machine.env hmachine)
  unfold Eval.inScope
  cases hrun : body { machine with env := machine.env.push } with
  | ok value machine' =>
    rw [hrun] at hafter
    exact hpop machine'.env hafter
  | error exit machine' =>
    rw [hrun] at hafter
    exact hpop machine'.env hafter

/-- A call leaves the machine as it was. -/
theorem of_detached {evaluation : Eval α} (hdetached : Detached evaluation) :
    Keeps holds evaluation := by
  rintro ⟨env, depth⟩ hmachine
  obtain ⟨result, -, hrun⟩ := hdetached depth
  rw [hrun env, machineAfter_endingAt]
  exact hmachine

end Keeps

/-- A property of environments, one for every number of scopes that an evaluation has opened, that
opening and closing a scope keep and that statements keep while a scope is open. The statements
assign to and declare the given names only. -/
structure ScopeInvariant (assigned declared : Name → Prop) (holds : Nat → Env → Prop) : Prop where
  push : ∀ {opened : Nat} {env : Env}, holds opened env → holds (opened + 1) env.push
  pop : ∀ {opened : Nat} {env : Env}, holds (opened + 1) env → holds opened env.pop
  forget : ∀ {opened : Nat} {name : Name}, assigned name ∨ declared name →
    ∀ env, holds (opened + 1) env → holds (opened + 1) (env.forget name)
  define : ∀ {opened : Nat} {name : Name}, declared name → ∀ (value : Literal) env,
    holds (opened + 1) env → holds (opened + 1) (env.define name value)
  assign : ∀ {opened : Nat} {name : Name}, assigned name → ∀ (value : Literal) env,
    holds (opened + 1) env → holds (opened + 1) (env.assign name value)

namespace ScopeInvariant

variable {holds : Nat → Env → Prop}

/-- A statement keeps the invariant if its right-hand side does. -/
theorem keeps_evalStmt {assigned declared : Name → Prop} (h : ScopeInvariant assigned declared holds)
    {eval : NodeId → Eval Literal} {opened : Nat} {stmt : Stmt Name NodeId}
    (hchild : ∀ child ∈ stmt.child?, Keeps (holds (opened + 1)) (eval child))
    (hassigned : ∀ name value, stmt = .assign name value → assigned name)
    (hdeclared : ∀ name init, stmt = .declare name init → declared name) :
    Keeps (holds (opened + 1)) (evalStmt eval stmt) := by
  have hall : ∀ _ : Unit, Keeps (holds (opened + 1)) (evalStmt eval stmt) := by
    refine (Keeps.sequential (holds (opened + 1))).evalStmt ?_ ?_ ?_ ?_
    · rintro child rfl _
      exact hchild child rfl
    · exact fun child hmem _ => (hchild child hmem).bound
    · intro name init heq
      have hname := hdeclared name init heq
      exact ⟨fun _ => Keeps.modifyEnv (h.forget (.inr hname)),
        fun value _ => Keeps.modifyEnv (h.define hname value)⟩
    · intro name value heq
      have hname := hassigned name value heq
      exact ⟨fun _ => Keeps.modifyEnv (h.forget (.inl hname)),
        fun value _ => Keeps.modifyEnv (h.assign hname value)⟩
  exact hall ()

/-- Whatever the statements of an expression keep holds after evaluating it. -/
theorem scoped_keeps {ctx : Context} {root : NodeId}
    (h : ScopeInvariant (ctx.arena.Assigns root) (ctx.arena.Declares root) holds) :
    Scoped ctx root fun opened _ => Keeps (holds opened) where
  sequential opened := Keeps.sequential (holds opened)
  detached := Keeps.of_detached
  returned _ _ _ hmachine := hmachine
  read _ _ _ _ _ reason := Keeps.read _ reason
  inScope hbody := hbody.inScope (fun _ => h.push) fun _ => h.pop
  evalStmt := by
    intro opened eval block stmts stmt hblock hshape hstmt hchild
    refine h.keeps_evalStmt hchild ?_ ?_
    · rintro name value rfl
      exact ⟨block, stmts, value, hblock, hshape, hstmt⟩
    · rintro name init rfl
      exact ⟨block, stmts, init, hblock, hshape, hstmt⟩

end ScopeInvariant

/-! ## What may become of a binding -/

/-- What may become of what a scope binds a name to: it stays, it is overwritten if the name is
assigned to, or it is removed if the name is assigned to or declared. Nothing comes where nothing
was. -/
inductive Becomes (assigned declared : Prop) : Option Literal → Option Literal → Prop where
  | kept (entry : Option Literal) : Becomes assigned declared entry entry
  | overwritten (old new : Literal) : assigned → Becomes assigned declared (some old) (some new)
  | removed (old : Literal) : assigned ∨ declared → Becomes assigned declared (some old) none

namespace Becomes

variable {assigned declared : Prop} {entry entry' : Option Literal}

/-- A binding of a name that is assigned to or declared may also be removed. -/
theorem remove (h : Becomes assigned declared entry entry') (hname : assigned ∨ declared) :
    Becomes assigned declared entry none := by
  cases entry with
  | none =>
    cases h
    exact .kept none
  | some old => exact .removed old hname

/-- A binding of a name that is assigned to may also be overwritten. -/
theorem overwrite {old : Literal} (h : Becomes assigned declared entry (some old))
    (hname : assigned) (value : Literal) : Becomes assigned declared entry (some value) := by
  cases h with
  | kept => exact .overwritten old value hname
  | overwritten first => exact .overwritten first value hname

end Becomes

namespace Column

/-- A column after `opened` more scopes were opened: below them every entry is related to the one
that was there before. -/
def Framed (related : Option Literal → Option Literal → Prop) : Nat → Column → Column → Prop
  | 0, before, after => List.Forall₂ related before after
  | _ + 1, _, [] => False
  | opened + 1, before, _ :: rest => Framed related opened before rest

namespace Framed

variable {related : Option Literal → Option Literal → Prop} {opened : Nat} {before after : Column}

/-- A framed column is longer by the scopes opened. -/
theorem length_eq (h : Framed related opened before after) :
    after.length = opened + before.length := by
  induction opened generalizing after with
  | zero =>
    have hlength := List.Forall₂.length_eq h
    omega
  | succ opened ih =>
    cases after with
    | nil => exact h.elim
    | cons entry rest =>
      have hrest := ih h
      simp only [List.length_cons]
      omega

/-- Closing an opened scope keeps the column framed. -/
theorem pop (h : Framed related (opened + 1) before after) :
    Framed related opened before after.tail := by
  cases after with
  | nil => exact h.elim
  | cons entry rest => exact h

/-- Binding in an opened scope keeps the column framed. -/
theorem bindTop (value : Literal) (h : Framed related (opened + 1) before after) :
    Framed related (opened + 1) before (bindTop value after) := by
  cases after with
  | nil => exact h.elim
  | cons entry rest => exact h

/-- Clearing keeps the column framed if every entry may be removed. -/
theorem clear (hremove : ∀ {entry entry'}, related entry entry' → related entry none)
    (h : Framed related opened before after) : Framed related opened before (clear after) := by
  induction opened generalizing after with
  | zero =>
    refine List.forall₂_map_right_iff.2 ?_
    exact h.imp fun _ _ hentry => hremove hentry
  | succ opened ih =>
    cases after with
    | nil => exact h.elim
    | cons entry rest => exact ih h

/-- Overwriting keeps the column framed if every entry may be overwritten. -/
theorem overwrite (value : Literal)
    (hwrite : ∀ {entry old}, related entry (some old) → related entry (some value))
    (h : Framed related opened before after) :
    Framed related opened before (overwrite value after) := by
  induction opened generalizing after with
  | zero =>
    induction h with
    | nil => exact .nil
    | cons hentry hrest ih =>
      rename_i entry' _ _
      cases entry' with
      | some old => exact .cons (hwrite hentry) hrest
      | none => exact .cons hentry ih
  | succ opened ih =>
    cases after with
    | nil => exact h.elim
    | cons entry rest =>
      cases entry with
      | some old => exact h
      | none => exact ih h

/-- An assignment overwrites a binding, or binds in the scope that was opened last. -/
theorem assign (value : Literal)
    (hwrite : ∀ {entry old}, related entry (some old) → related entry (some value))
    (h : Framed related (opened + 1) before after) :
    Framed related (opened + 1) before (assign value after) := by
  unfold Column.assign
  split
  · exact h.overwrite value hwrite
  · exact h.bindTop value

end Framed

end Column

namespace Env

/-- Scope by scope, every binding of `before` is in `after` what may become of it, and there are no
others. -/
def Framed (assigned declared : Name → Prop) (before after : Env) : Prop :=
  List.Forall₂ (fun scope scope' => ∀ name : Name,
    Becomes (assigned name) (declared name) (scope.get? name) (scope'.get? name))
    before.scopes after.scopes

/-- The columns of `after`, below the scopes opened since, are framed by those of `before`. -/
def ColumnsFramed (assigned declared : Name → Prop) (before : Env) (opened : Nat) (after : Env) :
    Prop :=
  ∀ name, Column.Framed (Becomes (assigned name) (declared name)) opened (before.column name)
    (after.column name)

/-- An environment frames itself while no scope has been opened. -/
theorem columnsFramed_self (assigned declared : Name → Prop) (env : Env) :
    ColumnsFramed assigned declared env 0 env :=
  fun _ => List.forall₂_same.2 fun entry _ => .kept entry

/-- If all columns are framed and no scope is open, the environment is framed scope by scope. -/
theorem ColumnsFramed.framed {assigned declared : Name → Prop} {before after : Env}
    (h : ColumnsFramed assigned declared before 0 after) : Framed assigned declared before after := by
  rw [Framed, List.forall₂_iff_get]
  refine ⟨?_, fun index hindex hindex' name => ?_⟩
  · have hlength := List.Forall₂.length_eq (h default)
    simpa [column] using hlength
  · have hname : List.Forall₂ (Becomes (assigned name) (declared name))
        (before.scopes.map (·.get? name)) (after.scopes.map (·.get? name)) := h name
    rw [List.forall₂_map_left_iff, List.forall₂_map_right_iff] at hname
    exact hname.get hindex hindex'

/-- A framed environment has as many scopes as before. -/
theorem Framed.depth_eq {assigned declared : Name → Prop} {before after : Env}
    (h : Framed assigned declared before after) : after.depth = before.depth := by
  have hlength := List.Forall₂.length_eq h
  simpa [scopes, depth] using hlength.symm

/-- Statements of an expression leave the columns framed. -/
theorem scopeInvariant_columnsFramed (assigned declared : Name → Prop) (before : Env) :
    ScopeInvariant assigned declared (ColumnsFramed assigned declared before) where
  push h name := by
    rw [column_push]
    exact h name
  pop := by
    intro opened env h name
    have hlength := (h name).length_eq
    have hbefore : 0 < (before.column name).length := by simp [column_eq]
    rw [length_column] at hlength
    rw [column_pop (by omega)]
    exact (h name).pop
  forget := by
    intro opened forgotten hforgotten env h name
    rw [column_forget]
    split
    · next heq => exact (h name).clear fun hentry => hentry.remove (heq ▸ hforgotten)
    · exact h name
  define := by
    intro opened defined _ value env h name
    rw [column_define]
    split
    · exact (h name).bindTop value
    · exact h name
  assign := by
    intro opened assigned hassigned value env h name
    rw [column_assign]
    split
    · next heq =>
      exact (h name).assign value fun hentry => hentry.overwrite (heq ▸ hassigned) value
    · exact h name

end Env

namespace Context

variable {ctx : Context}

/-- Every evaluation of a node has an ending, and leaves as many scopes as there were. A scope gets
no new name; a binding in it is overwritten only if the tree of the node assigns to its name, and
removed only if the tree assigns to or declares its name. What function bodies declare or assign
does not count: a call on constants leaves all of the environment as it was. -/
theorem WellFormed.frame_of_evaluation (h : ctx.WellFormed) {id : NodeId}
    (hid : id.index < ctx.arena.size) (machine : Machine) :
    ¬ Crashes (ctx.eval id machine) ∧
    machine.env.Framed (ctx.arena.Assigns id) (ctx.arena.Declares id)
      (machineAfter (ctx.eval id machine)).env ∧
    (machineAfter (ctx.eval id machine)).env.depth = machine.env.depth ∧
    (∃ outcome, ctx.reduce id machine = .ok outcome (machineAfter (ctx.eval id machine))) ∧
    ∀ callee receiver args, ∃ outcome, ctx.call callee receiver args machine = .ok outcome machine := by
  have hcrash := h.not_crashes_eval hid machine
  have hkeeps : Keeps (Env.ColumnsFramed (ctx.arena.Assigns id) (ctx.arena.Declares id)
      machine.env 0) (ctx.eval id) :=
    (Env.scopeInvariant_columnsFramed _ _ machine.env).scoped_keeps.evalWithin ctx.maxNesting 0 .refl
  have hframed := (hkeeps machine (Env.columnsFramed_self _ _ machine.env)).framed
  refine ⟨hcrash, hframed, hframed.depth_eq, ?_, fun callee receiver args => ?_⟩
  · rw [reduce_apply]
    exact exists_atBoundary_eq hcrash
  · obtain ⟨outcome, hcall⟩ := h.exists_call_eq callee receiver args machine.depth
    exact ⟨outcome, hcall machine.env⟩

/-- A function that assigns to `x` and `y`, and a block that assigns its result to `y` and declares
`z` with the value of the unknown variable `u`. -/
def overwriting : Context where
  symbols := SymbolTable.ofTexts ["x", "y", "z", "u", "evalShadow"]
  library := Library.ofList [{ name := ⟨5⟩, params := [⟨1⟩], body := ⟨3⟩ }]
  policy := {}
  arena :=
    { nodes := #[.literal (.int 5), .literal (.int 6), .var ⟨1⟩, .block ⟨0, 3⟩,
        .literal (.int 1), .call ⟨5⟩ none ⟨0, 1⟩, .var ⟨4⟩, .literal (.int 3), .block ⟨3, 3⟩]
      spans := Array.replicate 9 Span.nowhere
      args := #[⟨4⟩]
      stmts := #[.assign ⟨1⟩ ⟨0⟩, .assign ⟨2⟩ ⟨1⟩, .expr ⟨2⟩,
        .assign ⟨2⟩ ⟨5⟩, .declare ⟨3⟩ (some ⟨6⟩), .expr ⟨7⟩]
      arms := #[] }

/-- In `overwriting` children come before their parents, so it is well-formed. -/
theorem overwriting_wellFormed : overwriting.WellFormed :=
  .of_ordered (by decide) rfl rfl (by decide)

/-- A machine with two scopes that both bind `y`. -/
def twoScopes : Machine where
  env := ((Env.ofBindings [(⟨1⟩, .int 9), (⟨2⟩, .int 0), (⟨3⟩, .int 1)]).push).define ⟨2⟩ (.int 8)

/-- The inner binding of `y` is overwritten, `z` is removed, and `x` and the outer `y` stay,
although the function called assigns to both. -/
theorem frame_of_evaluation_overwriting :
    overwriting.WellFormed ∧
    [⟨1⟩, ⟨2⟩, ⟨3⟩].map twoScopes.env.column =
      [[none, some (.int 9)], [some (.int 8), some (.int 0)], [none, some (.int 1)]] ∧
    [⟨1⟩, ⟨2⟩, ⟨3⟩].map (machineAfter (overwriting.eval ⟨8⟩ twoScopes)).env.column =
      [[none, some (.int 9)], [some (.int 5), some (.int 0)], [none, none]] ∧
    twoScopes.env.Framed (overwriting.arena.Assigns ⟨8⟩) (overwriting.arena.Declares ⟨8⟩)
      (machineAfter (overwriting.eval ⟨8⟩ twoScopes)).env := by
  obtain ⟨-, hframed, -⟩ :=
    overwriting_wellFormed.frame_of_evaluation (show 8 < 9 by decide) twoScopes
  exact ⟨overwriting_wellFormed, by decide +kernel, by decide +kernel, hframed⟩

end Context

end ConstFold
