import ConstFold.Proofs.Renaming
import ConstFold.Proofs.Warnings

/-!
# Evaluation and folding do not depend on the choice of names

`Context.Renames ρ` relates a context to one in which every name is replaced by another of the same
text, different names by different ones. Evaluating a node takes the same course in both, with the
names of the environment replaced (`Context.Renames.equivariant_evalWithin`), and so folding the
calls under a root gives the same report except for the names of the callees
(`Context.Renames.foldCalls_eq`).
-/

set_option autoImplicit false

namespace ConstFold

open Eval

/-- An evaluation and one that does the same on the renamed environment. -/
def Follows (ρ : Name → Name) (α : Type) (pair : Bool → Eval α) : Prop :=
  Equivariant id (Machine.rename ρ) (pair true) (pair false)

/-- Following with the names replaced is kept by sequencing. -/
theorem follows_sequential (ρ : Name → Name) : Sequential (Follows ρ) where
  pure value := Equivariant.pure value
  bind hfirst hnext := Equivariant.bind hfirst hnext
  fail _ := fun _ => rfl

/-- Two evaluators as one family, the first at `true`. -/
def eitherEval (eval eval' : NodeId → Eval Literal) (first : Bool) : NodeId → Eval Literal :=
  bif first then eval else eval'

namespace Follows

variable {ρ : Name → Name} {eval eval' : NodeId → Eval Literal}

/-- Changes of the environment that correspond keep it renamed. -/
theorem modifyEnv {change change' : Env → Env}
    (h : ∀ env : Env, change' (env.rename ρ) = (change env).rename ρ) :
    Equivariant id (Machine.rename ρ) (Eval.modifyEnv change) (Eval.modifyEnv change') := by
  intro machine
  show EStateM.Result.ok () { machine.rename ρ with env := change' (machine.env.rename ρ) } = _
  rw [h]
  rfl

/-- Evaluations in a scope correspond when they do within the scope. -/
theorem inScope {body body' : Eval Literal}
    (h : Equivariant id (Machine.rename ρ) body body') :
    Equivariant id (Machine.rename ρ) (Eval.inScope body) (Eval.inScope body') := by
  intro machine
  have hrun := h { machine with env := machine.env.push }
  have hpush : ({ machine with env := machine.env.push } : Machine).rename ρ =
      { machine.rename ρ with env := (machine.rename ρ).env.push } := rfl
  rw [hpush] at hrun
  unfold Eval.inScope
  rw [hrun]
  cases body { machine with env := machine.env.push } <;>
    simp only [mapEnding, Machine.rename, Env.rename_pop, id_eq]

/-- Right-hand sides correspond when their evaluations do, whether they have a value or are passed
over. -/
theorem bound {value value' : Eval Literal}
    (h : Equivariant id (Machine.rename ρ) value value') :
    Equivariant id (Machine.rename ρ) (Eval.bound value) (Eval.bound value') := by
  intro machine
  unfold Eval.bound
  rw [h machine]
  cases value machine with
  | ok result final => rfl
  | error exit final =>
    cases exit with
    | failed failure => cases hhalts : failure.halts <;> simp [mapEnding, hhalts]
    | returned result => rfl
    | crashed fault => rfl

variable (hρ : Function.Injective ρ)

include hρ

/-- Bodies in frames correspond when they do on renamed arguments. -/
theorem inFrame (bindings : List (Name × Literal)) {body body' : Eval Literal}
    (h : Equivariant id (Machine.rename ρ) body body') :
    Equivariant id (Machine.rename ρ) (Eval.inFrame bindings body)
      (Eval.inFrame (bindings.map (Prod.map ρ id)) body') := by
  intro machine
  have hrun := h { env := Env.ofBindings bindings, depth := deeper machine.depth }
  simp only [Machine.rename, Env.rename_ofBindings hρ] at hrun
  rw [inFrame_apply, inFrame_apply]
  simp only [Machine.rename, hrun]
  cases body { env := Env.ofBindings bindings, depth := deeper machine.depth } with
  | ok value callee => rfl
  | error exit callee => cases exit <;> rfl

/-- A statement and the renamed one take the same course. -/
theorem evalStmt {stmt : Stmt Name NodeId}
    (h : ∀ child ∈ stmt.child?, Equivariant id (Machine.rename ρ) (eval child) (eval' child)) :
    Equivariant id (Machine.rename ρ) (ConstFold.evalStmt eval stmt)
      (ConstFold.evalStmt eval' (stmt.map ρ id)) := by
  have hforget : ∀ name, Equivariant id (Machine.rename ρ) (Eval.modifyEnv (·.forget name))
      (Eval.modifyEnv (·.forget (ρ name))) :=
    fun name => modifyEnv fun env => (env.rename_forget hρ name).symm
  cases stmt with
  | expr value => exact h value rfl
  | declare name init =>
    cases init with
    | none => exact (hforget name).bind fun _ => .pure _
    | some init =>
      refine (bound (h init rfl)).bind fun value => ?_
      cases value with
      | none => exact (hforget name).bind fun _ => .pure _
      | some value =>
        exact (modifyEnv fun env => (env.rename_define hρ name value).symm).bind fun _ => .pure _
  | assign name value =>
    refine (bound (h value rfl)).bind fun value => ?_
    cases value with
    | none => exact (hforget name).bind fun _ => .pure _
    | some value =>
      exact (modifyEnv fun env => (env.rename_assign hρ name value).symm).bind fun _ => .pure _

/-- Statements and the renamed ones take the same course, one after the other. -/
theorem evalStmts {stmts : List (Stmt Name NodeId)}
    (h : ∀ stmt ∈ stmts, ∀ child ∈ stmt.child?,
      Equivariant id (Machine.rename ρ) (eval child) (eval' child)) (last : Literal) :
    Equivariant id (Machine.rename ρ) (ConstFold.evalStmts eval last stmts)
      (ConstFold.evalStmts eval' last (stmts.map (Stmt.map ρ id))) := by
  induction stmts generalizing last with
  | nil => exact .pure last
  | cons stmt rest ih =>
    have hrest := ih fun other hother => h other (List.mem_cons_of_mem _ hother)
    exact (evalStmt hρ (h stmt List.mem_cons_self)).bind fun value => hrest value

end Follows

/-- What folding makes of a node, with the callees of its sites replaced. -/
def Folding.rename (ρ : Name → Name) (folding : Folding) : Folding :=
  { folding with sites := folding.sites.map (CallSite.rename ρ) }

namespace Context

/-- A context and one in which every name is replaced by another of the same text. -/
structure Renames (ρ : Name → Name) (ctx ctx' : Context) : Prop where
  injective : Function.Injective ρ
  arena : ctx'.arena = ctx.arena.rename ρ
  library : ctx'.library = ctx.library.rename ρ
  policy : ctx'.policy = ctx.policy
  text : ∀ name, ctx'.text (ρ name) = ctx.text name

namespace Renames

variable {ρ : Name → Name} {ctx ctx' : Context}

/-- The layer of a node has its names replaced. -/
theorem shape_eq (h : ctx.Renames ρ ctx') (node : NodeId) :
    ctx'.arena.shape node = (ctx.arena.shape node).map (Shape.map ρ id) := by
  rw [h.arena, Arena.shape_rename]

/-! ## Evaluation -/

/-- The body of a function and that of the renamed one take the same course. -/
theorem evalBody (h : ctx.Renames ρ ctx') {eval eval' : NodeId → Eval Literal}
    {definition : Definition}
    (hbody : Equivariant id (Machine.rename ρ) (eval definition.body) (eval' definition.body))
    (args : List Literal) :
    Equivariant id (Machine.rename ρ) (ctx.evalBody eval definition args)
      (ctx'.evalBody eval' (definition.rename ρ) args) := by
  intro machine
  have hbindings : (definition.rename ρ).params.zip args =
      (definition.params.zip args).map (Prod.map ρ id) := by
    simp [Definition.rename, List.zip_map_left]
  have hlength : (definition.rename ρ).params.length = definition.params.length := by
    simp [Definition.rename]
  have htext : ctx'.text (definition.rename ρ).name = ctx.text definition.name := h.text _
  rw [evalBody_apply, evalBody_apply, hbindings, hlength, htext, h.policy]
  split
  · rfl
  · have hdepth : (machine.rename ρ).depth = machine.depth := rfl
    rw [hdepth]
    split
    · rfl
    · exact Follows.inFrame h.injective _ hbody machine

/-- A call and that of the renamed callee take the same course. -/
theorem evalCall (h : ctx.Renames ρ ctx') {eval eval' : NodeId → Eval Literal}
    (heval : ∀ node, Equivariant id (Machine.rename ρ) (eval node) (eval' node)) (callee : Name)
    (receiver : Option Literal) (args : List Literal) :
    Equivariant id (Machine.rename ρ) (ctx.evalCall eval callee receiver args)
      (ctx'.evalCall eval' (ρ callee) receiver args) := by
  have hget : ctx'.library.get? (ρ callee) =
      (ctx.library.get? callee).map (Definition.rename ρ) := by
    rw [h.library]
    exact Library.get?_rename h.injective ctx.library callee
  unfold Context.evalCall
  rw [h.text, h.policy, hget]
  cases receiver with
  | some value => exact (follows_sequential ρ).ofResult _
  | none =>
    cases ctx.library.get? callee with
    | none => exact (follows_sequential ρ).ofResult _
    | some definition =>
      dsimp only [Option.map_some]
      split
      · exact h.evalBody (heval definition.body) args
      · exact (follows_sequential ρ).fail _

/-- A node and the renamed one take the same course. -/
theorem evalShape (h : ctx.Renames ρ ctx') {eval eval' : NodeId → Eval Literal}
    (heval : ∀ node, Equivariant id (Machine.rename ρ) (eval node) (eval' node))
    (shape : Shape Name NodeId) :
    Equivariant id (Machine.rename ρ) (ctx.evalShape eval shape)
      (ctx'.evalShape eval' (shape.map ρ id)) := by
  have hfamily : ∀ node, Follows ρ Literal fun first => eitherEval eval eval' first node := heval
  cases shape with
  | literal value => exact .pure value
  | var name =>
    intro machine
    have hlookup : (machine.rename ρ).env.lookup (ρ name) = machine.env.lookup name :=
      machine.env.lookup_rename h.injective name
    simp only [Context.evalShape, Shape.map, bind_apply, get_apply, hlookup, h.text]
    cases machine.env.lookup name <;> rfl
  | call callee receiver args =>
    simp only [Shape.map, Option.map_id_fun, List.map_id_fun, id_eq]
    have hreceiver : Equivariant id (Machine.rename ρ) (receiver.mapM eval) (receiver.mapM eval') :=
      (follows_sequential ρ).mapM_option fun node _ => hfamily node
    have hargs : Equivariant id (Machine.rename ρ) (args.mapM eval) (args.mapM eval') :=
      (follows_sequential ρ).mapM fun node _ => hfamily node
    exact hreceiver.bind fun receiver => hargs.bind fun args =>
      h.evalCall heval callee receiver args
  | conditional arms otherwise =>
    simp only [Shape.map, Arm.map_id_fun, Option.map_id_fun, List.map_id_fun, id_eq]
    exact (follows_sequential ρ).evalArms (fun node _ => hfamily node)
      fun _ _ node _ => hfamily node
  | loop condition body =>
    have hcap : ctx'.policy.iterationCap = ctx.policy.iterationCap := by rw [h.policy]
    simp only [Shape.map, id_eq, Context.evalShape, hcap]
    exact (follows_sequential ρ).rounds _ (hfamily condition) (hfamily body) _ _
  | block stmts =>
    exact Follows.inScope (Follows.evalStmts h.injective (fun _ _ node _ => heval node) _)
  | ret value => exact (heval value).bind fun result => fun _ => rfl
  | «foreign» children => exact (follows_sequential ρ).fail _

/-- Evaluation takes the same course with the names replaced. The induction is on the nesting. -/
theorem equivariant_evalWithin (h : ctx.Renames ρ ctx') (nesting : Nat) (node : NodeId) :
    Equivariant id (Machine.rename ρ) (ctx.evalWithin nesting node)
      (ctx'.evalWithin nesting node) := by
  induction nesting generalizing node with
  | zero => exact fun _ => rfl
  | succ nesting ih =>
    unfold Context.evalWithin Context.evalNode
    rw [h.shape_eq]
    cases ctx.arena.shape node with
    | error fault => exact fun _ => rfl
    | ok shape => exact h.evalShape ih shape

/-- A call by a fresh evaluator has the same outcome. -/
theorem call_eq (h : ctx.Renames ρ ctx') (callee : Name) (receiver : Option Literal)
    (args : List Literal) :
    ctx'.call (ρ callee) receiver args {} =
      mapEnding id (Machine.rename ρ) (ctx.call callee receiver args {}) := by
  have hnesting : ctx'.maxNesting = ctx.maxNesting := by
    simp [maxNesting, h.policy, h.arena]
  have heval : ∀ node, Equivariant id (Machine.rename ρ) (ctx.eval node) (ctx'.eval node) := by
    intro node
    rw [eval_def, eval_def, hnesting]
    exact h.equivariant_evalWithin _ node
  have hrun := h.evalCall heval callee receiver args {}
  have hempty : Machine.rename ρ {} = {} := rfl
  rw [hempty] at hrun
  rw [call, call, settle_apply, settle_apply, hrun]
  cases ctx.evalCall ctx.eval callee receiver args {} with
  | ok value final => rfl
  | error exit final => cases exit <;> rfl

/-! ## Folding -/

/-- A call settles in the same way when the callee is renamed. -/
theorem settledSite_eq (h : ctx.Renames ρ ctx') (node : NodeId) (callee : Name)
    (operands : Option (Option Literal × List Literal)) :
    ctx'.settledSite node (ρ callee) operands =
      (ctx.settledSite node callee operands).rename ρ := by
  cases operands with
  | none => rfl
  | some pair =>
    obtain ⟨receiver, args⟩ := pair
    simp only [settledSite, h.call_eq]
    cases ctx.call callee receiver args {} with
    | error fault final => rfl
    | ok outcome final =>
      cases outcome with
      | error failure => rfl
      | ok value =>
        cases hvalue : value.isSpliceable <;> simp [mapEnding, hvalue, CallSite.rename]

/-- A call is a candidate exactly if that of the renamed callee is. -/
theorem isCandidate_eq (h : ctx.Renames ρ ctx') (callee : Name) (hasReceiver : Bool) :
    ctx'.isCandidate (ρ callee) hasReceiver = ctx.isCandidate callee hasReceiver := by
  have hcontains : ctx'.library.contains (ρ callee) = ctx.library.contains callee := by
    rw [h.library]
    exact Table.contains_rekey h.injective ctx.library.definitions callee
  simp only [isCandidate, h.text, h.policy, hcontains]

/-- A node has a site exactly if the renamed one has, and the sites correspond. -/
theorem siteOf_eq (h : ctx.Renames ρ ctx') (folding : NodeId → Folding) (node : NodeId)
    (shape : Shape Name NodeId) :
    ctx'.siteOf (Folding.rename ρ ∘ folding) node (shape.map ρ id) =
      (ctx.siteOf folding node shape).map (CallSite.rename ρ) := by
  cases shape with
  | call callee receiver args =>
    simp only [Shape.map, Option.map_id_fun, List.map_id_fun, id_eq, siteOf, h.isCandidate_eq]
    split
    · rw [h.settledSite_eq]
      rfl
    · rfl
  | literal value => rfl
  | var name => rfl
  | conditional arms otherwise => rfl
  | loop condition body => rfl
  | block stmts => rfl
  | ret value => rfl
  | «foreign» children => rfl

/-- Renaming its callee leaves the value of a site alone. -/
theorem bind_value_eq (site : Option CallSite) :
    (site.map (CallSite.rename ρ)).bind CallSite.value = site.bind CallSite.value := by
  cases site <;> rfl

/-- A node has the value that the renamed one has. -/
theorem valueOf_eq (h : ctx.Renames ρ ctx') (folding : NodeId → Folding) (node : NodeId)
    (shape : Shape Name NodeId) :
    ctx'.valueOf (Folding.rename ρ ∘ folding) node (shape.map ρ id) =
      ctx.valueOf folding node shape := by
  have hsite := congrArg (·.bind CallSite.value) (h.siteOf_eq folding node shape)
  simp only [bind_value_eq] at hsite
  cases shape with
  | literal value => rfl
  | call callee receiver args => exact hsite
  | var name => exact hsite
  | conditional arms otherwise => exact hsite
  | loop condition body => exact hsite
  | block stmts => exact hsite
  | ret value => exact hsite
  | «foreign» children => exact hsite

/-- One step of the recursion that says what folding makes of a node. -/
theorem unroll_eq (h : ctx.Renames ρ ctx') (folding : NodeId → Folding) :
    ctx'.unroll (Folding.rename ρ ∘ folding) = Folding.rename ρ ∘ ctx.unroll folding := by
  funext node
  have hrenamed := h.shape_eq node
  cases hshape : ctx.arena.shape node with
  | error fault =>
    rw [hshape] at hrenamed
    simp only [unroll, hrenamed, hshape, Except.map, Function.comp_apply]
    rfl
  | ok shape =>
    rw [hshape] at hrenamed
    rw [ctx'.unroll_of_shape _ hrenamed, Function.comp_apply, ctx.unroll_of_shape folding hshape,
      h.siteOf_eq, h.valueOf_eq, bind_value_eq, Shape.children_map, List.map_id]
    have hsites :
        shape.children.flatMap (fun child => ((Folding.rename ρ ∘ folding) child).sites) ++
        ((ctx.siteOf folding node shape).map (CallSite.rename ρ)).toList =
        (shape.children.flatMap (fun child => (folding child).sites) ++
          (ctx.siteOf folding node shape).toList).map (CallSite.rename ρ) := by
      rw [List.map_append, List.map_flatMap]
      cases ctx.siteOf folding node shape <;> rfl
    rw [hsites]
    rfl

/-- The warning about a site names the callee by its text, so renaming leaves it alone. -/
theorem warning?_eq (h : ctx.Renames ρ ctx') (site : CallSite) :
    ctx'.warning? (site.rename ρ) = ctx.warning? site := by
  have hspan : ctx'.arena.span = ctx.arena.span := by
    rw [h.arena]
    rfl
  have hwarning : ∀ failure code span,
      ctx'.fallbackWarning (ρ site.callee) failure code span =
        ctx.fallbackWarning site.callee failure code span := by
    intro failure code span
    simp only [fallbackWarning, h.text]
  simp only [warning?, CallSite.rename, h.policy, hspan, hwarning]

/-- Renaming the callees of sites leaves the warnings about them alone. -/
theorem diagnosticsOf_eq (h : ctx.Renames ρ ctx') (sites : List CallSite) :
    ctx'.diagnosticsOf (sites.map (CallSite.rename ρ)) = ctx.diagnosticsOf sites := by
  have hwarnings : (sites.map (CallSite.rename ρ)).filterMap ctx'.warning? =
      sites.filterMap ctx.warning? := by
    rw [List.filterMap_map]
    exact List.filterMap_congr fun site _ => h.warning?_eq site
  rw [diagnosticsOf, diagnosticsOf, hwarnings]

/-- Folding the calls under a root gives the same report except for the names of the callees. -/
theorem foldCalls_eq (h : ctx.Renames ρ ctx') (hctx : ctx.WellFormed) (hctx' : ctx'.WellFormed)
    {root : NodeId} (hroot : root.index < ctx.arena.size) :
    ∃ report, ctx.foldCalls root = .ok report ∧ ctx'.foldCalls root = .ok (report.rename ρ) := by
  obtain ⟨folding, hfolding, -⟩ := hctx.exists_unique_folding
  have hrenamed : ctx'.unroll (Folding.rename ρ ∘ folding) = Folding.rename ρ ∘ folding := by
    rw [h.unroll_eq, hfolding]
  have hroot' : root.index < ctx'.arena.size := by
    rw [h.arena, Arena.size_rename]
    exact hroot
  refine ⟨_, hctx.foldCalls_eq_reportOf hfolding hroot, ?_⟩
  rw [hctx'.foldCalls_eq_reportOf hrenamed hroot']
  simp only [reportOf, Report.rename, Function.comp_apply, Folding.rename, h.diagnosticsOf_eq]

end Renames

end Context

end ConstFold
