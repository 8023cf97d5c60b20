import ConstFold.Proofs.Worklist
import ConstFold.Replacement

/-!
# Evaluation and folding come to an end

Evaluation and folding are defined with a bound on the nesting of nodes, and a fault for reaching
it. In an ordered context no request reaches it or follows a reference that leads nowhere
(`Context.Ordered.answers`), and a larger bound changes nothing: the recursion ends by itself.
Within a function body it goes down the arena, a loop runs at most as often as the policy allows,
and function bodies nest at most as deep as it allows, however the functions call each other.

Lowering builds ordered contexts (`Host.lower_ordered`), so folding a program that fits always gives
a report. The main statement is `folding_terminates`.
-/

set_option autoImplicit false

namespace ConstFold

open Eval

/-- An evaluation that does not crash has an outcome. -/
theorem exists_settle_eq {evaluation : Eval Literal} {machine : Machine}
    (h : ¬ Crashes (evaluation machine)) :
    ∃ outcome final, evaluation.settle machine = .ok outcome final := by
  obtain ⟨outcome, houtcome⟩ := exists_atBoundary_eq h
  exact ⟨outcome, _, (settle_apply evaluation machine).trans houtcome⟩

section WalkingCongr

variable {α β : Type} {items : List α} {step step' : α → Walking β}
variable (h : ∀ item ∈ items, step item = step' item)

include h

/-- Steps that agree on the items of a list walk it alike. -/
theorem mapM_walking_congr : items.mapM step = items.mapM step' := by
  induction items with
  | nil => rfl
  | cons item rest ih =>
    rw [List.mapM_cons, List.mapM_cons, h item List.mem_cons_self,
      ih fun other hother => h other (List.mem_cons_of_mem _ hother)]

/-- Steps that agree on the items of a list walk it alike when their values are discarded. -/
theorem forM_walking_congr :
    (items.forM fun item => discard (step item)) = items.forM fun item => discard (step' item) := by
  induction items with
  | nil => rfl
  | cons item rest ih =>
    have hrest := ih fun other hother => h other (List.mem_cons_of_mem _ hother)
    show (do discard (step item); rest.forM fun item => discard (step item)) =
      (do discard (step' item); rest.forM fun item => discard (step' item))
    rw [h item List.mem_cons_self, hrest]

end WalkingCongr

namespace Context

/-- A context whose arena is ordered and located and holds the bodies of the library's functions. -/
structure Ordered (ctx : Context) : Prop where
  arena : ctx.arena.Ordered
  located : ctx.arena.spans.size = ctx.arena.nodes.size
  bodies : ∀ name definition, ctx.library.get? name = some definition →
    definition.body.index < ctx.arena.size

/-- Every request is answered without a fault, whatever the environment and the depth it is made in,
and no answer depends on the bound that nesting is given. -/
structure Answers (ctx : Context) : Prop where
  reduce : ∀ id : NodeId, id.index < ctx.arena.size → ∀ machine,
    ∃ outcome final, ctx.reduce id machine = .ok outcome final
  applyDefinition : ∀ definition : Definition, definition.body.index < ctx.arena.size →
    ∀ args machine, ∃ outcome final, ctx.applyDefinition definition args machine = .ok outcome final
  call : ∀ callee receiver args machine,
    ∃ outcome final, ctx.call callee receiver args machine = .ok outcome final
  foldCalls : ∀ root : NodeId, root.index < ctx.arena.size →
    ∃ report, ctx.foldCalls root = .ok report
  evalWithin : ∀ id : NodeId, id.index < ctx.arena.size → ∀ nesting, ctx.maxNesting ≤ nesting →
    ctx.evalWithin nesting id = ctx.eval id
  walkWithin : ∀ root : NodeId, root.index < ctx.arena.size → ∀ nesting, ctx.arena.size < nesting →
    ctx.walkWithin nesting root = ctx.walkWithin (ctx.arena.size + 1) root

variable {ctx : Context}

/-- An ordered context is well-formed. -/
theorem Ordered.wellFormed (h : ctx.Ordered) : ctx.WellFormed where
  arena := h.arena.wellFormed h.located
  bodies := h.bodies

/-- Applying a function whose body lies in the arena does not crash, also if the library does not
have it. -/
theorem WellFormed.not_crashes_evalBody (h : ctx.WellFormed) {definition : Definition}
    (hbody : definition.body.index < ctx.arena.size) (args : List Literal) (machine : Machine) :
    ¬ Crashes (ctx.evalBody ctx.eval definition args machine) := by
  have hsettled := fun depth => h.settled_eval depth hbody
  have happlied : Settled machine.depth Literal fun _ => ctx.evalBody ctx.eval definition args :=
    Settled.evalBody ctx (hsettled machine.depth).keeps (fun _ => hsettled _) args
  exact happlied.sound machine rfl

/-- Walking a layer depends on the walk of its children only. -/
theorem walkShape_congr (ctx : Context) {walk walk' : NodeId → Walking (Option Literal)}
    (node : NodeId) {shape : Shape Name NodeId}
    (h : ∀ child ∈ shape.children, walk child = walk' child) :
    ctx.walkShape walk node shape = ctx.walkShape walk' node shape := by
  have hforM := forM_walking_congr h
  cases shape with
  | literal value => rfl
  | call callee receiver args =>
    have hargs : args.mapM walk = args.mapM walk' :=
      mapM_walking_congr fun child hchild => h child (List.mem_append_right _ hchild)
    cases receiver with
    | none => simp only [walkShape, Option.mapM_none, hargs]
    | some child =>
      have hchild : walk child = walk' child := h child (by simp [Shape.children])
      simp only [walkShape, Option.mapM_some, hargs, hchild]
  | var name => simp only [walkShape, hforM]
  | conditional arms otherwise => simp only [walkShape, hforM]
  | loop condition body => simp only [walkShape, hforM]
  | block stmts => simp only [walkShape, hforM]
  | ret value => simp only [walkShape, hforM]
  | «foreign» children => simp only [walkShape, hforM]

/-- Two nestings that exceed the height of a node give the same walk. -/
theorem WellFormed.walkWithin_eq (h : ctx.WellFormed) {node : NodeId}
    (hnode : node.index < ctx.arena.size) {left right : Nat} (hleft : ctx.arena.height node < left)
    (hright : ctx.arena.height node < right) :
    ctx.walkWithin left node = ctx.walkWithin right node := by
  induction left generalizing right node with
  | zero => omega
  | succ left ih =>
    obtain ⟨right, rfl⟩ : ∃ n, right = n + 1 := ⟨right - 1, by omega⟩
    obtain ⟨shape, hshape⟩ := h.arena.readable node hnode
    have hstep : ∀ nesting, ctx.walkWithin (nesting + 1) node =
        ctx.walkShape (ctx.walkWithin nesting) node shape := by
      intro nesting
      simp only [walkWithin, walkNode, hshape, Walking.ofResult, pure_bind]
    rw [hstep, hstep]
    refine ctx.walkShape_congr node fun child hmem => ?_
    have hchild : ctx.arena.Child child node := ⟨shape, hshape, hmem⟩
    have hheight := h.arena.height_lt hchild
    exact ih (h.arena.inBounds hchild) (by omega) (by omega)

/-- An ordered context answers every request. -/
theorem Ordered.answers (h : ctx.Ordered) : ctx.Answers where
  reduce _ hid machine := exists_settle_eq (h.wellFormed.not_crashes_eval hid machine)
  applyDefinition _ hbody args machine :=
    exists_settle_eq (h.wellFormed.not_crashes_evalBody hbody args machine)
  call callee receiver args machine :=
    exists_settle_eq (h.wellFormed.not_crashes_evalCall callee receiver args machine)
  foldCalls _ hroot := h.wellFormed.exists_report hroot
  evalWithin id hid nesting hnesting :=
    funext fun machine => (h.wellFormed.eval_eq_evalWithin hid hnesting machine).symm
  walkWithin root hroot nesting hnesting := by
    have hheight := h.wellFormed.arena.height_lt_size hroot
    exact h.wellFormed.walkWithin_eq hroot (by omega) (by omega)

end Context

variable {ν : Type}

/-- The context of a lowered program is ordered. -/
theorem Host.lower_ordered {host : Host ν} {policy : Policy} {symbols : SymbolTable} {root : ν}
    {lowered : Lowered ν} (h : host.lower policy symbols root = .ok lowered) (settings : Policy) :
    (lowered.context settings).Ordered := by
  obtain ⟨state, hstocked, harena, hlibrary⟩ := exists_stocked_of_lower h
  rw [Lowered.context, ← harena, ← hlibrary]
  exact ⟨hstocked.laid.ordered, hstocked.laid.located,
    fun name definition hget => (hstocked.bodies name definition hget).2⟩

/-- Requests in an ordered context are always answered. Lowering a program that fits gives an
ordered context, whatever names there were before, and so folding a program that fits gives a
report. -/
theorem folding_terminates :
    (∀ ctx : Context, ctx.Ordered → ctx.Answers) ∧
    ∀ (host : Host ν) (policy : Policy) (root : ν),
      (∀ symbols : SymbolTable, symbols.Reachable → host.Fits policy symbols root →
        ∃ lowered, host.lower policy symbols root = .ok lowered ∧
          lowered.root.index < lowered.arena.size ∧
          ∀ settings, (lowered.context settings).Ordered) ∧
      (host.Fits policy SymbolTable.initial root →
        ∃ report, host.fold policy root = .ok report) := by
  refine ⟨fun ctx h => h.answers, fun host policy root => ⟨fun symbols hsymbols hfits => ?_,
    fun hfits => ?_⟩⟩
  · obtain ⟨lowered, hlower⟩ := Host.exists_lower_eq hsymbols hfits
    exact ⟨lowered, hlower, Host.root_lt_size_of_lower hlower, Host.lower_ordered hlower⟩
  · obtain ⟨lowered, hlower⟩ := Host.exists_lower_eq .initial hfits
    obtain ⟨report, hreport⟩ := Host.exists_report_of_lower hlower policy
    unfold Host.fold
    rw [hlower]
    simp only [bind, Except.bind, hreport]
    exact ⟨_, rfl⟩

/-- The listing is lowered to an ordered program, all of whose evaluations are answered, and it is
folded to a report. -/
theorem folding_terminates_countdown :
    countdownHost.Fits {} SymbolTable.initial (.entry 9) ∧
    countdownHost.lower {} SymbolTable.initial (.entry 9) = .ok countdownProgram ∧
    (countdownProgram.context {}).Ordered ∧ (countdownProgram.context {}).Answers ∧
    countdownHost.fold {} (.entry 9) = .ok countdownReplacements := by
  obtain ⟨hanswers, hhosts⟩ := folding_terminates (ν := Item)
  obtain ⟨hlower, hfold⟩ := hhosts countdownHost {} (.entry 9)
  obtain ⟨lowered, hlowered, -, hordered⟩ := hlower SymbolTable.initial .initial fits_countdown
  obtain rfl := Except.ok.inj (hlowered.symm.trans lower_countdown)
  obtain ⟨report, hreport⟩ := hfold fits_countdown
  obtain rfl := Except.ok.inj (hreport.symm.trans fold_countdown)
  exact ⟨fits_countdown, lower_countdown, hordered {}, hanswers _ (hordered {}), hreport⟩

end ConstFold
