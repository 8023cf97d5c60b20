import ConstFold.Proofs.Agreement
import ConstFold.Proofs.Nesting
import ConstFold.Proofs.Symbols

/-!
# What an evaluation reads of the environment

An evaluation reads the environment only where it meets a variable of its own, and only the visible
binding of the variable. Two environments may be of different depth and hide different bindings: as
long as they show the same values for the variables of an expression, evaluating the expression
comes to the same in both, and they show the same values again afterwards
(`Context.WellFormed.reduce_eq_of_lookup_eq`).

For this to survive an assignment, which writes to wherever the binding is, the two runs must bind
alike in the scopes that they have opened themselves (`Column.LooksLike`). Outside of these scopes
only what is visible counts.
-/

set_option autoImplicit false

namespace ConstFold

open Eval

/-- The variable `name` occurs in the tree of `root`. -/
def Arena.Reads (arena : Arena) (root : NodeId) (name : Name) : Prop :=
  ∃ node, arena.InTree root node ∧ arena.shape node = .ok (.var name)

/-! ## Environments that look alike -/

namespace Column

/-- Two columns with the same entries in the first `opened` scopes and the same visible entry
outside of them. -/
def LooksLike : Nat → Column → Column → Prop
  | 0, left, right => left ≠ [] ∧ right ≠ [] ∧ visible left = visible right
  | opened + 1, entry :: left, entry' :: right => entry = entry' ∧ LooksLike opened left right
  | _ + 1, _, _ => False

namespace LooksLike

variable {opened : Nat} {left right : Column}

/-- Columns that look alike while a scope is open have the same entry on top. -/
theorem exists_cons (h : LooksLike (opened + 1) left right) :
    ∃ entry outer outer', left = entry :: outer ∧ right = entry :: outer' ∧
      LooksLike opened outer outer' := by
  cases left with
  | nil => exact h.elim
  | cons entry outer =>
    cases right with
    | nil => exact h.elim
    | cons entry' outer' =>
      obtain ⟨rfl, hrest⟩ := h
      exact ⟨entry, outer, outer', rfl, rfl, hrest⟩

/-- Columns that look alike have the same visible entry. -/
theorem visible_eq (h : LooksLike opened left right) : visible left = visible right := by
  induction opened generalizing left right with
  | zero => exact h.2.2
  | succ opened ih =>
    obtain ⟨entry, outer, outer', rfl, rfl, hrest⟩ := h.exists_cons
    simp only [visible, ih hrest]

/-- Columns that look alike have a scope outside of the opened ones. -/
theorem lt_length (h : LooksLike opened left right) :
    opened < left.length ∧ opened < right.length := by
  induction opened generalizing left right with
  | zero => exact ⟨List.length_pos_iff.2 h.1, List.length_pos_iff.2 h.2.1⟩
  | succ opened ih =>
    obtain ⟨entry, outer, outer', rfl, rfl, hrest⟩ := h.exists_cons
    have hlength := ih hrest
    simp only [List.length_cons]
    omega

/-- Columns still look alike when a scope is closed. -/
theorem pop (h : LooksLike (opened + 1) left right) : LooksLike opened left.tail right.tail := by
  obtain ⟨entry, outer, outer', rfl, rfl, hrest⟩ := h.exists_cons
  exact hrest

/-- Columns still look alike when the name is forgotten. -/
theorem clear (h : LooksLike opened left right) : LooksLike opened (clear left) (clear right) := by
  induction opened generalizing left right with
  | zero =>
    refine ⟨by simpa [Column.clear] using h.1, by simpa [Column.clear] using h.2.1, ?_⟩
    rw [visible_clear, visible_clear]
  | succ opened ih =>
    obtain ⟨entry, outer, outer', rfl, rfl, hrest⟩ := h.exists_cons
    exact ⟨rfl, ih hrest⟩

/-- Columns still look alike when the name is bound in an opened scope. -/
theorem bindTop (value : Literal) (h : LooksLike (opened + 1) left right) :
    LooksLike (opened + 1) (bindTop value left) (bindTop value right) := by
  obtain ⟨entry, outer, outer', rfl, rfl, hrest⟩ := h.exists_cons
  exact ⟨rfl, hrest⟩

/-- The binding that is overwritten is in the same opened scope of both, or outside of these in
both. -/
theorem overwrite (value : Literal) (hleft : (visible left).isSome = true)
    (h : LooksLike opened left right) :
    LooksLike opened (overwrite value left) (overwrite value right) := by
  induction opened generalizing left right with
  | zero =>
    have hright : (visible right).isSome = true := by rwa [← h.visible_eq]
    refine ⟨overwrite_ne_nil value h.1, overwrite_ne_nil value h.2.1, ?_⟩
    rw [visible_overwrite value hleft, visible_overwrite value hright]
  | succ opened ih =>
    obtain ⟨entry, outer, outer', rfl, rfl, hrest⟩ := h.exists_cons
    cases entry with
    | some old => exact ⟨rfl, hrest⟩
    | none => exact ⟨rfl, ih hleft hrest⟩

/-- Columns still look alike when the name is assigned to. -/
theorem assign (value : Literal) (h : LooksLike (opened + 1) left right) :
    LooksLike (opened + 1) (assign value left) (assign value right) := by
  have hvisible := h.visible_eq
  unfold Column.assign
  rw [← hvisible]
  split
  · next hsome => exact h.overwrite value hsome
  · exact h.bindTop value

end LooksLike

end Column

namespace Env

/-- Two environments that bind `names` alike in the first `opened` scopes, and show the same values
for them outside of these. -/
def LooksLike (names : Name → Prop) (opened : Nat) (left right : Env) : Prop :=
  ∀ name, names name → Column.LooksLike opened (left.column name) (right.column name)

/-- While no scope is open, environments look alike if the names have the same values. -/
theorem looksLike_zero_iff {names : Name → Prop} {left right : Env} :
    LooksLike names 0 left right ↔ ∀ name, names name → left.lookup name = right.lookup name := by
  refine forall₂_congr fun name _ => ?_
  rw [lookup_eq_visible, lookup_eq_visible]
  exact ⟨fun h => h.2.2, fun h => ⟨by simp [column_eq], by simp [column_eq], h⟩⟩

namespace LooksLike

variable {names : Name → Prop} {opened : Nat} {left right : Env}

/-- In environments that look alike the names have the same values. -/
theorem lookup_eq (h : LooksLike names opened left right) {name : Name} (hname : names name) :
    left.lookup name = right.lookup name := by
  rw [lookup_eq_visible, lookup_eq_visible]
  exact (h name hname).visible_eq

/-- Environments still look alike when a scope is opened. -/
theorem push (h : LooksLike names opened left right) :
    LooksLike names (opened + 1) left.push right.push := by
  intro name hname
  rw [column_push, column_push]
  exact ⟨rfl, h name hname⟩

/-- Environments still look alike when a scope is closed. -/
theorem pop (h : LooksLike names (opened + 1) left right) :
    LooksLike names opened left.pop right.pop := by
  intro name hname
  have hlength := (h name hname).lt_length
  rw [length_column, length_column] at hlength
  rw [column_pop (by omega), column_pop (by omega)]
  exact (h name hname).pop

/-- Environments still look alike when a name is forgotten. -/
theorem forget (h : LooksLike names opened left right) (forgotten : Name) :
    LooksLike names opened (left.forget forgotten) (right.forget forgotten) := by
  intro name hname
  rw [column_forget, column_forget]
  split
  · exact (h name hname).clear
  · exact h name hname

/-- Environments still look alike when a name is defined in an opened scope. -/
theorem define (h : LooksLike names (opened + 1) left right) (defined : Name) (value : Literal) :
    LooksLike names (opened + 1) (left.define defined value) (right.define defined value) := by
  intro name hname
  rw [column_define, column_define]
  split
  · exact (h name hname).bindTop value
  · exact h name hname

/-- Environments still look alike when a name is assigned to. -/
theorem assign (h : LooksLike names (opened + 1) left right) (assigned : Name) (value : Literal) :
    LooksLike names (opened + 1) (left.assign assigned value) (right.assign assigned value) := by
  intro name hname
  rw [column_assign, column_assign]
  split
  · exact (h name hname).assign value
  · exact h name hname

end LooksLike

end Env

/-- Machines whose environments look alike. -/
structure Machine.LooksLike (names : Name → Prop) (opened : Nat) (left right : Machine) : Prop where
  env : left.env.LooksLike names opened right.env
  depth : left.depth = right.depth

/-! ## Two runs of one evaluation -/

/-- Evaluations that come to the same from machines that look alike, and leave machines that look
alike. -/
def EndsAlike {α : Type} (names : Name → Prop) (opened : Nat) (evaluation : Eval α) : Prop :=
  ∀ ⦃left right : Machine⦄, left.LooksLike names opened right →
    ∃ (result : Except Exit α) (left' right' : Machine),
      evaluation left = endingAt left' result ∧ evaluation right = endingAt right' result ∧
        left'.LooksLike names opened right'

namespace EndsAlike

variable {α β : Type} {names : Name → Prop} {opened : Nat}

/-- Giving a value ends alike. -/
theorem pure (value : α) : EndsAlike names opened (Pure.pure value) :=
  fun left right h => ⟨.ok value, left, right, rfl, rfl, h⟩

/-- Leaving an evaluation ends alike. -/
theorem throw (exit : Exit) : EndsAlike names opened (MonadExcept.throw exit : Eval α) :=
  fun left right h => ⟨.error exit, left, right, rfl, rfl, h⟩

/-- A sequence ends alike if both of its steps do. -/
theorem bind {first : Eval α} {next : α → Eval β} (hfirst : EndsAlike names opened first)
    (hnext : ∀ value, EndsAlike names opened (next value)) :
    EndsAlike names opened (first >>= next) := by
  intro left right h
  obtain ⟨result, left', right', hleft, hright, h'⟩ := hfirst h
  rw [bind_apply, bind_apply, hleft, hright]
  cases result with
  | ok value => exact hnext value h'
  | error exit => exact ⟨.error exit, left', right', rfl, rfl, h'⟩

/-- Ending alike is closed under steps in sequence. -/
theorem sequential (names : Name → Prop) (opened : Nat) :
    Sequential fun α (family : Unit → Eval α) => ∀ i, EndsAlike names opened (family i) where
  pure value _ := pure value
  bind hfirst hnext i := (hfirst i).bind fun value => hnext value i
  fail failure _ := throw (.failed failure)

/-- Reading one of the names ends alike. -/
theorem read {name : Name} (hname : names name) (reason : Inconclusive) :
    EndsAlike names opened (do
      match (← get).env.lookup name with
      | some value => return value
      | none => giveUp reason : Eval Literal) := by
  intro left right h
  simp only [bind_apply, get_apply, h.env.lookup_eq hname]
  cases right.env.lookup name with
  | some value => exact ⟨.ok value, left, right, rfl, rfl, h⟩
  | none => exact ⟨.error (.failed (.inconclusive reason)), left, right, rfl, rfl, h⟩

/-- A change that keeps environments looking alike ends alike. -/
theorem modifyEnv {change : Env → Env}
    (hchange : ∀ left right : Env, left.LooksLike names opened right →
      (change left).LooksLike names opened (change right)) :
    EndsAlike names opened (modifyEnv change) :=
  fun _ _ h => ⟨.ok (), _, _, rfl, rfl, hchange _ _ h.env, h.depth⟩

/-- A body in a scope of its own ends alike if it does with one more scope open. -/
theorem inScope {body : Eval Literal} (hbody : EndsAlike names (opened + 1) body) :
    EndsAlike names opened (inScope body) := by
  intro left right h
  have hpushed : Machine.LooksLike names (opened + 1) { left with env := left.env.push }
      { right with env := right.env.push } := ⟨h.env.push, h.depth⟩
  obtain ⟨result, left', right', hleft, hright, h'⟩ := hbody hpushed
  refine ⟨result, { left' with env := left'.env.pop }, { right' with env := right'.env.pop },
    ?_, ?_, h'.env.pop, h'.depth⟩
  · rw [Eval.inScope, hleft]
    cases result <;> rfl
  · rw [Eval.inScope, hright]
    cases result <;> rfl

/-- Passing over the failure of a value ends alike if evaluating the value does. -/
theorem bound {value : Eval Literal} (hvalue : EndsAlike names opened value) :
    EndsAlike names opened (bound value) := by
  intro left right h
  obtain ⟨result, left', right', hleft, hright, h'⟩ := hvalue h
  unfold Eval.bound
  rw [hleft, hright]
  cases result with
  | ok known => exact ⟨.ok (some known), left', right', rfl, rfl, h'⟩
  | error exit =>
    cases exit with
    | returned known => exact ⟨.error (.returned known), left', right', rfl, rfl, h'⟩
    | crashed fault => exact ⟨.error (.crashed fault), left', right', rfl, rfl, h'⟩
    | failed failure =>
      simp only [endingAt]
      split
      · exact ⟨.error (.failed failure), left', right', rfl, rfl, h'⟩
      · exact ⟨.ok none, left', right', rfl, rfl, h'⟩

/-- What does not read the environment does not tell two of them apart. -/
theorem of_detached {evaluation : Eval α} (hdetached : Detached evaluation) :
    EndsAlike names opened evaluation := by
  rintro ⟨env, depth⟩ ⟨env', depth'⟩ h
  obtain rfl : depth = depth' := h.depth
  obtain ⟨result, -, hrun⟩ := hdetached depth
  exact ⟨result, _, _, hrun env, hrun env', h⟩

/-- A statement ends alike if its right-hand side does. -/
theorem evalStmt {eval : NodeId → Eval Literal} {stmt : Stmt Name NodeId}
    (hchild : ∀ child ∈ stmt.child?, EndsAlike names (opened + 1) (eval child)) :
    EndsAlike names (opened + 1) (evalStmt eval stmt) := by
  have hforget : ∀ name, EndsAlike names (opened + 1) (Eval.modifyEnv (·.forget name)) :=
    fun name => modifyEnv fun _ _ h => h.forget name
  have hall : ∀ _ : Unit, EndsAlike names (opened + 1) (ConstFold.evalStmt eval stmt) := by
    refine (sequential names (opened + 1)).evalStmt ?_ ?_ ?_ ?_
    · rintro child rfl _
      exact hchild child rfl
    · exact fun child hmem _ => (hchild child hmem).bound
    · exact fun name _ _ => ⟨fun _ => hforget name,
        fun value _ => modifyEnv fun _ _ h => h.define name value⟩
    · exact fun name _ _ => ⟨fun _ => hforget name,
        fun value _ => modifyEnv fun _ _ h => h.assign name value⟩
  exact hall ()

end EndsAlike

namespace Context

/-- Evaluating an expression comes to the same in environments that look alike for its variables. -/
theorem scoped_endsAlike (ctx : Context) (root : NodeId) :
    Scoped ctx root fun opened _ => EndsAlike (ctx.arena.Reads root) opened where
  sequential := EndsAlike.sequential (ctx.arena.Reads root)
  detached := EndsAlike.of_detached
  returned _ value := .throw (.returned value)
  read _ node _ hnode hshape reason := .read ⟨node, hnode, hshape⟩ reason
  inScope := EndsAlike.inScope
  evalStmt _ _ _ hchild := .evalStmt hchild

variable {ctx : Context}

/-- In two environments that show the same values for the variables of an expression, evaluating it
has the same outcome, and the environments show the same values for these variables afterwards. The
variables are those of the expression's own tree; the function bodies it calls may read any. -/
theorem WellFormed.reduce_eq_of_lookup_eq (h : ctx.WellFormed) {id : NodeId}
    (hid : id.index < ctx.arena.size) (depth : UInt32) {env env' : Env}
    (hlookup : ∀ name, ctx.arena.Reads id name → env.lookup name = env'.lookup name) :
    ∃ outcome final final',
      ctx.reduce id ⟨env, depth⟩ = .ok outcome ⟨final, depth⟩ ∧
      ctx.reduce id ⟨env', depth⟩ = .ok outcome ⟨final', depth⟩ ∧
      ∀ name, ctx.arena.Reads id name → final.lookup name = final'.lookup name := by
  have hlooks : Machine.LooksLike (ctx.arena.Reads id) 0 ⟨env, depth⟩ ⟨env', depth⟩ :=
    ⟨Env.looksLike_zero_iff.2 hlookup, rfl⟩
  obtain ⟨result, ⟨final, count⟩, ⟨final', count'⟩, hrun, hrun', hlooks'⟩ :=
    (ctx.scoped_endsAlike id).evalWithin ctx.maxNesting 0 .refl hlooks
  rw [← eval_def] at hrun hrun'
  obtain rfl : count = depth := by
    have hdepth := (h.settled_eval depth hid).keeps true ⟨env, depth⟩
    rwa [hrun, machineAfter_endingAt] at hdepth
  obtain rfl : count = count' := hlooks'.depth
  have hsound : ∀ fault, result ≠ .error (.crashed fault) := by
    rintro fault rfl
    exact h.not_crashes_eval hid ⟨env, count⟩ ⟨fault, _, hrun⟩
  obtain ⟨outcome, houtcome⟩ := exists_atBoundary_endingAt_eq hsound
  refine ⟨outcome, final, final', ?_, ?_, Env.looksLike_zero_iff.1 hlooks'.env⟩
  · rw [reduce_apply, hrun, houtcome]
  · rw [reduce_apply, hrun', houtcome]

/-- A block that assigns to `y` what a function makes of `x`, and ends in `y`. The function uses a
variable `z` of its own. -/
def separateFrames : Context where
  symbols := SymbolTable.ofTexts ["x", "y", "z", "u", "evalSum", "plus"]
  library := Library.ofList [{ name := ⟨5⟩, params := [⟨1⟩], body := ⟨9⟩ }]
  policy := {}
  arena :=
    { nodes := #[.var ⟨1⟩, .call ⟨5⟩ none ⟨0, 1⟩, .var ⟨4⟩, .var ⟨2⟩, .block ⟨0, 3⟩,
        .literal (.int 4), .var ⟨1⟩, .var ⟨3⟩, .call ⟨6⟩ (some ⟨6⟩) ⟨1, 1⟩, .block ⟨3, 2⟩]
      spans := Array.replicate 10 Span.nowhere
      args := #[⟨0⟩, ⟨7⟩]
      stmts := #[.assign ⟨2⟩ ⟨1⟩, .declare ⟨4⟩ (some ⟨2⟩), .expr ⟨3⟩, .assign ⟨3⟩ ⟨5⟩, .expr ⟨8⟩]
      arms := #[] }

/-- In `separateFrames` children come before their parents, so it is well-formed. -/
theorem separateFrames_wellFormed : separateFrames.WellFormed :=
  .of_ordered (by decide) rfl rfl (by decide)

/-- One scope that binds `x`, `y` and `z`. -/
def shallow : Env := Env.ofBindings [(⟨1⟩, .int 1), (⟨2⟩, .int 0), (⟨3⟩, .int 2)]

/-- Two scopes. The inner one binds `x` and `y` as `shallow` does and hides other bindings of them;
`z` has another value. -/
def layered : Env :=
  ((Env.ofBindings [(⟨1⟩, .int 7), (⟨2⟩, .int 3), (⟨3⟩, .int 9)]).push.define ⟨1⟩ (.int 1)).define
    ⟨2⟩ (.int 0)

/-- The names that the block reads have the same values in both environments. -/
theorem lookup_layered (name : Name) (hname : separateFrames.arena.Reads ⟨4⟩ name) :
    shallow.lookup name = layered.lookup name := by
  have hchecked : (List.range 5).all (fun index =>
      match separateFrames.arena.shape ⟨index⟩ with
      | .ok (.var name) => shallow.lookup name = layered.lookup name
      | _ => true) = true := by decide +kernel
  have hordered : separateFrames.arena.Ordered := by decide
  obtain ⟨⟨index⟩, hnode, hshape⟩ := hname
  have hindex : index < 5 := Nat.lt_succ_of_le (hordered.index_le_of_inTree hnode)
  have hvar := List.all_eq_true.1 hchecked index (List.mem_range.2 hindex)
  simpa only [hshape, decide_eq_true_eq] using hvar

/-- The assignment reaches the one scope of `shallow` and the inner scope of `layered`. -/
theorem reduce_eq_layered :
    separateFrames.WellFormed ∧
    (∀ name, separateFrames.arena.Reads ⟨4⟩ name → shallow.lookup name = layered.lookup name) ∧
    shallow.depth ≠ layered.depth ∧ shallow.lookup ⟨3⟩ ≠ layered.lookup ⟨3⟩ ∧
    separateFrames.reduce ⟨4⟩ ⟨shallow, 0⟩ =
      .ok (.ok (.int 5)) ⟨(shallow.define ⟨2⟩ (.int 5)).forget ⟨4⟩, 0⟩ ∧
    separateFrames.reduce ⟨4⟩ ⟨layered, 0⟩ =
      .ok (.ok (.int 5)) ⟨(layered.define ⟨2⟩ (.int 5)).forget ⟨4⟩, 0⟩ ∧
    ∀ name, separateFrames.arena.Reads ⟨4⟩ name →
      ((shallow.define ⟨2⟩ (.int 5)).forget ⟨4⟩).lookup name =
        ((layered.define ⟨2⟩ (.int 5)).forget ⟨4⟩).lookup name := by
  have hshallow : separateFrames.reduce ⟨4⟩ ⟨shallow, 0⟩ =
      .ok (.ok (.int 5)) ⟨(shallow.define ⟨2⟩ (.int 5)).forget ⟨4⟩, 0⟩ := by decide +kernel
  have hlayered : separateFrames.reduce ⟨4⟩ ⟨layered, 0⟩ =
      .ok (.ok (.int 5)) ⟨(layered.define ⟨2⟩ (.int 5)).forget ⟨4⟩, 0⟩ := by decide +kernel
  obtain ⟨outcome, final, final', hrun, hrun', hlookup⟩ :=
    separateFrames_wellFormed.reduce_eq_of_lookup_eq (show 4 < 10 by decide) 0 lookup_layered
  cases hshallow.symm.trans hrun
  cases hlayered.symm.trans hrun'
  exact ⟨separateFrames_wellFormed, lookup_layered, by decide, by decide, hshallow, hlayered,
    hlookup⟩

end Context

end ConstFold
