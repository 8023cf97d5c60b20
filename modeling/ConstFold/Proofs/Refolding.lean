import ConstFold.Proofs.Precedence
import ConstFold.Proofs.Warnings

/-!
# Folding once is enough

When every spliced call is replaced by its constant, the calls that stay see the same constants
below them as before: a replaced call has the constant it folded to, and what lies below it is not
met any more. So no call folds that did not fold before, and a call that failed fails again in the
same way. The main statement is `Host.refold_lowered`: folding the calls a second time splices
nothing and reports the calls that were left unfolded, with the same warnings.
-/

set_option autoImplicit false

namespace ConstFold

namespace Context

variable {ctx : Context} {folding folding' : NodeId → Folding} {root : NodeId}
  {splices : List Splice}

/-! ## Calls after replacing -/

/-- A call depends on the evaluator through the body of the callee only. -/
theorem evalCall_congr (ctx : Context) {eval eval' : NodeId → Eval Literal} {callee : Name}
    (h : ∀ definition, ctx.library.get? callee = some definition →
      eval definition.body = eval' definition.body)
    (receiver : Option Literal) (args : List Literal) :
    ctx.evalCall eval callee receiver args = ctx.evalCall eval' callee receiver args := by
  cases receiver with
  | some value => rfl
  | none =>
    cases hget : ctx.library.get? callee with
    | none => simp only [evalCall, hget]
    | some definition => simp only [evalCall, hget, evalBody, h definition hget]

/-- A call runs function bodies only, and in these nothing is replaced. -/
theorem Separated.call_splice (h : ctx.Separated root)
    (hfront : ∀ splice ∈ splices, splice.call.index ≤ root.index) (callee : Name)
    (receiver : Option Literal) (args : List Literal) :
    (ctx.splice splices).call callee receiver args = ctx.call callee receiver args := by
  have hcontext : ∀ eval, (ctx.splice splices).evalCall eval callee receiver args =
      ctx.evalCall eval callee receiver args := fun eval => rfl
  have hbodies : ∀ definition, ctx.library.get? callee = some definition →
      ctx.eval definition.body = (ctx.splice splices).eval definition.body :=
    fun definition hget => h.eval_splice hfront (h.bodies callee definition hget)
  rw [call, call, hcontext, ctx.evalCall_congr hbodies]

/-- Splicing nodes of the root's tree changes no site, given what folding makes of the operands. -/
theorem Separated.siteOf_splice (h : ctx.Separated root)
    (hfront : ∀ splice ∈ splices, splice.call.index ≤ root.index) :
    (ctx.splice splices).siteOf = ctx.siteOf := by
  refine siteOf_eq_of_call_eq rfl ?_
  funext callee receiver args
  exact h.call_splice hfront callee receiver args

/-- Splicing nodes of the root's tree changes no constant, given what folding makes of the
operands. -/
theorem Separated.valueOf_splice (h : ctx.Separated root)
    (hfront : ∀ splice ∈ splices, splice.call.index ≤ root.index) :
    (ctx.splice splices).valueOf = ctx.valueOf :=
  valueOf_eq_of_siteOf_eq (h.siteOf_splice hfront)

/-! ## Folded and unfolded sites -/

/-- A site ends folded to a constant, or unfolded and without one. -/
theorem settledSite_cases (ctx : Context) (node : NodeId) (callee : Name)
    (operands : Option (Option Literal × List Literal)) :
    (∃ value, ctx.settledSite node callee operands =
      { node, callee, stage := .folded, value := some value }) ∨
    ∃ cause, ctx.settledSite node callee operands =
      { node, callee, stage := .leftUnfolded, cause } := by
  unfold settledSite
  repeat' split
  all_goals simp

/-- A site is folded without a cause, or left unfolded without a value. -/
theorem siteAt_cases {node : NodeId} {site : CallSite}
    (h : ctx.siteAt folding node = some site) :
    (site.stage = .folded ∧ site.cause = none) ∨
      (site.stage = .leftUnfolded ∧ site.value = none) := by
  obtain ⟨callee, -, -, operands, -, rfl⟩ := exists_call_of_siteAt h
  rcases ctx.settledSite_cases node callee operands with ⟨value, hsite⟩ | ⟨cause, hsite⟩
  · rw [hsite]
    exact .inl ⟨rfl, rfl⟩
  · rw [hsite]
    exact .inr ⟨rfl, rfl⟩

/-- The constant of a node, read off its layer. -/
theorem value_eq_of_shape (hfolding : ctx.unroll folding = folding) {node : NodeId}
    {shape : Shape Name NodeId} (hshape : ctx.arena.shape node = .ok shape) :
    (folding node).value = ctx.valueOf folding node shape := by
  conv_lhs => rw [← hfolding]
  rw [ctx.unroll_of_shape folding hshape]

/-- The operands of a call that folds have constants. -/
theorem exists_value_of_operand {node : NodeId} {callee : Name} {receiver : Option NodeId}
    {args : List NodeId} {value : Literal}
    (hvalue : (ctx.siteOf folding node (.call callee receiver args)).bind CallSite.value =
      some value) {child : NodeId} (hchild : child ∈ receiver.toList ++ args) :
    ∃ known, (folding child).value = some known := by
  obtain ⟨site, hsite, hvalue⟩ := Option.bind_eq_some_iff.1 hvalue
  simp only [siteOf, Option.ite_none_right_eq_some, Option.some.injEq] at hsite
  rw [← hsite.2] at hvalue
  obtain ⟨receiverValue, argValues, -, hoperands, -⟩ := value_settledSite hvalue
  simp only [operands?, Option.bind_eq_bind, Option.bind_eq_some_iff] at hoperands
  obtain ⟨_, hreceiver, _, hargs, -⟩ := hoperands
  rcases List.mem_append.1 hchild with hmem | hmem
  · rw [Option.mem_toList] at hmem
    rw [hmem] at hreceiver
    obtain ⟨known, hknown, -⟩ := Option.map_eq_some_iff.1 hreceiver
    exact ⟨known, hknown⟩
  · have hvalues := (mapM_id_eq_some_iff fun _ _ _ => Iff.rfl).1 hargs
    obtain ⟨known, -, hknown⟩ := exists_of_mem_forall₂ hvalues.flip hmem
    exact ⟨known, hknown⟩

/-- Below a node that has a constant every candidate folds. -/
theorem WellFormed.stage_of_value (h : ctx.WellFormed) (hfolding : ctx.unroll folding = folding)
    {node : NodeId} {value : Literal} (hvalue : (folding node).value = some value) {site : CallSite}
    (hsite : site ∈ (folding node).sites) : site.stage = .folded := by
  induction node using h.arena.wellFounded.induction generalizing value with
  | _ node ih =>
    cases hshape : ctx.arena.shape node with
    | error fault =>
      rw [← hfolding] at hsite
      simp only [unroll, hshape] at hsite
      cases hsite
    | ok shape =>
      rw [value_eq_of_shape hfolding hshape] at hvalue
      rw [sites_eq_of_shape hfolding hshape] at hsite
      cases shape with
      | literal result => simp [Shape.children, siteAt, hshape, siteOf] at hsite
      | call callee receiver args =>
        change (ctx.siteOf folding node (.call callee receiver args)).bind CallSite.value = _
          at hvalue
        rcases List.mem_append.1 hsite with hbelow | hself
        · obtain ⟨child, hmem, hbelow⟩ := List.mem_flatMap.1 hbelow
          obtain ⟨known, hknown⟩ := exists_value_of_operand hvalue hmem
          exact ih child ⟨_, hshape, hmem⟩ hknown hbelow
        · rw [Option.mem_toList] at hself
          have hfolded : ctx.foldedAt folding node = some value := by
            simpa only [foldedAt, siteAt, hshape] using hvalue
          rw [foldedAt, hself] at hfolded
          exact (siteAt_spec hself).2.2 ⟨value, hfolded⟩
      | var name => cases hvalue
      | conditional arms otherwise => cases hvalue
      | loop condition body => cases hvalue
      | block stmts => cases hvalue
      | ret result => cases hvalue
      | «foreign» children => cases hvalue

/-! ## What folding makes of the replaced tree -/

section Replaced

variable (h : ctx.WellFormed) (hroot : root.index < ctx.arena.size)
  (hseparated : ctx.Separated root) (hfolding : ctx.unroll folding = folding)
  (hfolding' : (ctx.splice (folding root).splices).unroll folding' = folding')

include h hroot hfolding

/-- A replaced node is a call that folds to the constant in its place. -/
theorem WellFormed.foldedAt_of_find? {node : NodeId} {splice : Splice}
    (hfind : (folding root).splices.find? (·.call = node) = some splice) :
    ctx.foldedAt folding node = some splice.value := by
  obtain rfl : splice.call = node := by simpa using List.find?_some hfind
  exact ((h.mem_splices_iff hfolding hroot).1 (List.mem_of_find?_eq_some hfind)).2

/-- A call that folds and that no folded call covers is replaced. -/
theorem WellFormed.exists_find?_of_exposed {node : NodeId} {value : Literal}
    (hexposed : ctx.arena.Exposed (fun node => ∃ value, ctx.foldedAt folding node = some value)
      root node) (hvalue : ctx.foldedAt folding node = some value) :
    ∃ splice, (folding root).splices.find? (·.call = node) = some splice := by
  have hmem : ({ call := node, value } : Splice) ∈ (folding root).splices :=
    (h.mem_splices_iff hfolding hroot).2 ⟨hexposed, hvalue⟩
  rw [← Option.isSome_iff_exists, List.find?_isSome]
  exact ⟨_, hmem, by simp⟩

include hseparated

/-- The calls spliced are in the root's tree, so they come no later than the root. -/
theorem WellFormed.splices_front :
    ∀ splice ∈ (folding root).splices, splice.call.index ≤ root.index := fun _ hmem =>
  hseparated.front ((h.mem_splices_iff hfolding hroot).1 hmem).1.inTree

include hfolding'

/-- Every node of the tree has the constant it had. -/
theorem WellFormed.value_splice {node : NodeId} (hnode : ctx.arena.InTree root node) :
    (folding' node).value = (folding node).value := by
  have hfront := h.splices_front hroot hseparated hfolding
  induction node using h.arena.wellFounded.induction with
  | _ node ih =>
    have hid := h.arena.lt_size_of_inTree hroot hnode
    cases hfind : (folding root).splices.find? (·.call = node) with
    | some splice =>
      have hfolded := h.foldedAt_of_find? hroot hfolding hfind
      rw [value_of_foldedAt hfolding hfolded,
        value_eq_of_shape hfolding' (Arena.shape_splice_of_some hfind hid)]
      rfl
    | none =>
      obtain ⟨shape, hshape⟩ := h.arena.readable node hid
      have hshape' : (ctx.splice (folding root).splices).arena.shape node = .ok shape :=
        (Arena.shape_splice_of_none hfind).trans hshape
      rw [value_eq_of_shape hfolding' hshape', value_eq_of_shape hfolding hshape,
        hseparated.valueOf_splice hfront]
      refine ctx.valueOf_congr node fun child hmem => ?_
      have hchild : ctx.arena.Child child node := ⟨shape, hshape, hmem⟩
      exact ih child hchild (hnode.child hchild)

/-- A node that is not replaced has the site it had. -/
theorem WellFormed.siteAt_splice {node : NodeId} (hnode : ctx.arena.InTree root node)
    (hfind : (folding root).splices.find? (·.call = node) = none) :
    (ctx.splice (folding root).splices).siteAt folding' node = ctx.siteAt folding node := by
  have hfront := h.splices_front hroot hseparated hfolding
  obtain ⟨shape, hshape⟩ := h.arena.readable node (h.arena.lt_size_of_inTree hroot hnode)
  have hshape' : (ctx.splice (folding root).splices).arena.shape node = .ok shape :=
    (Arena.shape_splice_of_none hfind).trans hshape
  simp only [siteAt, hshape, hshape', hseparated.siteOf_splice hfront]
  refine ctx.siteOf_congr node fun child hmem => ?_
  exact h.value_splice hroot hseparated hfolding hfolding' (hnode.child ⟨shape, hshape, hmem⟩)

/-- Where a path leads without passing through a folded call, the sites that stay are those left
unfolded, and there is nothing left to splice. The induction stops at a folded call: it is replaced,
and below it every candidate was folded. -/
theorem WellFormed.sites_splice {node : NodeId}
    (hexposed : ctx.arena.Exposed (fun node => ∃ value, ctx.foldedAt folding node = some value)
      root node) :
    (folding' node).sites = (folding node).sites.filter (·.stage = .leftUnfolded) ∧
      (folding' node).splices = [] := by
  induction node using h.arena.wellFounded.induction with
  | _ node ih =>
    have hid := h.arena.lt_size_of_inTree hroot hexposed.inTree
    cases hvalue : ctx.foldedAt folding node with
    | some value =>
      obtain ⟨splice, hfind⟩ := h.exists_find?_of_exposed hroot hfolding hexposed hvalue
      have hshape' : (ctx.splice (folding root).splices).arena.shape node =
          .ok (.literal splice.value) := Arena.shape_splice_of_some hfind hid
      have hnone : (folding node).sites.filter (·.stage = .leftUnfolded) = [] := by
        rw [List.filter_eq_nil_iff]
        intro site hsite
        have hstage := h.stage_of_value hfolding (value_of_foldedAt hfolding hvalue) hsite
        simp [hstage]
      rw [sites_eq_of_shape hfolding' hshape', splices_eq_of_shape hfolding' hshape', hnone]
      simp [foldedAt, siteAt, hshape', siteOf, Shape.children]
    | none =>
      have hfind : (folding root).splices.find? (·.call = node) = none := by
        rw [← Option.not_isSome_iff_eq_none, Option.isSome_iff_exists]
        rintro ⟨splice, hfind⟩
        rw [h.foldedAt_of_find? hroot hfolding hfind] at hvalue
        cases hvalue
      have hsite := h.siteAt_splice hroot hseparated hfolding hfolding' hexposed.inTree hfind
      obtain ⟨shape, hshape⟩ := h.arena.readable node hid
      have hshape' : (ctx.splice (folding root).splices).arena.shape node = .ok shape :=
        (Arena.shape_splice_of_none hfind).trans hshape
      have hbelow := fun child (hmem : child ∈ shape.children) =>
        ih child ⟨shape, hshape, hmem⟩
          (hexposed.child (by simp [hvalue]) ⟨shape, hshape, hmem⟩)
      have hself : (ctx.siteAt folding node).toList.filter (·.stage = .leftUnfolded) =
          (ctx.siteAt folding node).toList := by
        rw [List.filter_eq_self]
        intro site hmem
        rw [Option.mem_toList] at hmem
        rw [foldedAt, hmem] at hvalue
        rcases siteAt_cases hmem with ⟨hstage, -⟩ | ⟨hstage, -⟩
        · obtain ⟨value, hsome⟩ := (siteAt_spec hmem).2.1 hstage
          rw [Option.bind_some, hsome] at hvalue
          cases hvalue
        · simp [hstage]
      rw [sites_eq_of_shape hfolding' hshape', splices_eq_of_shape hfolding' hshape',
        sites_eq_of_shape hfolding hshape, foldedAt, hsite, ← foldedAt, hvalue]
      constructor
      · rw [List.filter_append, List.filter_flatMap, hself]
        exact congrArg (· ++ _) (List.flatMap_congr fun child hmem => (hbelow child hmem).1)
      · exact List.flatMap_eq_nil_iff.2 fun child hmem => (hbelow child hmem).2

end Replaced

/-- Folded calls are not warned about. -/
theorem WellFormed.diagnosticsOf_filter (h : ctx.WellFormed) (hroot : root.index < ctx.arena.size)
    (hfolding : ctx.unroll folding = folding) (splices : List Splice) :
    (ctx.splice splices).diagnosticsOf
        ((folding root).sites.filter (·.stage = .leftUnfolded)) =
      ctx.diagnosticsOf (folding root).sites := by
  have hwarnings : ((folding root).sites.filter (·.stage = .leftUnfolded)).filterMap ctx.warning? =
      (folding root).sites.filterMap ctx.warning? := by
    rw [List.filterMap_filter]
    refine List.filterMap_congr fun site hmem => ?_
    obtain ⟨node, -, hsite⟩ := (h.mem_sites_iff hfolding hroot).1 hmem
    rcases siteAt_cases hsite with ⟨hstage, hcause⟩ | ⟨hstage, -⟩
    · rw [ctx.warning?_of_cause_eq_none hcause]
      simp
    · simp [hstage]
  have hwarning : (ctx.splice splices).warning? = ctx.warning? := rfl
  rw [diagnosticsOf, diagnosticsOf, hwarning, hwarnings]

/-- After every spliced call under a separated root is replaced, folding the calls again splices
nothing and reports the sites left unfolded with the same warnings. -/
theorem WellFormed.foldCalls_splice (h : ctx.WellFormed) (hroot : root.index < ctx.arena.size)
    (hseparated : ctx.Separated root) :
    ∃ report, ctx.foldCalls root = .ok report ∧
      (ctx.splice report.splices).foldCalls root = .ok {
        sites := report.sites.filter (·.stage = .leftUnfolded)
        splices := []
        diagnostics := report.diagnostics } := by
  obtain ⟨folding, hfolding, -⟩ := h.exists_unique_folding
  obtain ⟨folding', hfolding', -⟩ := (h.splice (folding root).splices).exists_unique_folding
  have hroot' : root.index < (ctx.splice (folding root).splices).arena.size := by
    simpa [Context.splice] using hroot
  obtain ⟨hsites, hsplices⟩ := h.sites_splice hroot hseparated hfolding hfolding' .root
  refine ⟨_, h.foldCalls_eq_reportOf hfolding hroot, ?_⟩
  have hrefold := (h.splice (folding root).splices).foldCalls_eq_reportOf hfolding' hroot'
  rw [reportOf, hsites, hsplices, h.diagnosticsOf_filter hroot hfolding] at hrefold
  exact hrefold

end Context

namespace Host

variable {ν : Type} {host : Host ν} {policy : Policy} {symbols : SymbolTable} {root : ν}
  {lowered : Lowered ν}

/-- In a lowered program, folding the calls under the root has a report, and once every spliced call
is replaced by its constant, folding them again splices nothing: the sites are those that were left
unfolded, in the same order and with the same callees and causes, and the warnings are the same. -/
theorem refold_lowered (h : host.lower policy symbols root = .ok lowered) (settings : Policy) :
    ∃ report, (lowered.context settings).foldCalls lowered.root = .ok report ∧
      ((lowered.context settings).splice report.splices).foldCalls lowered.root = .ok {
        sites := report.sites.filter (·.stage = .leftUnfolded)
        splices := []
        diagnostics := report.diagnostics } :=
  (lower_wellFormed h settings).foldCalls_splice (root_lt_size_of_lower h)
    (lower_separated h settings)

end Host

/-- A function that divides, and a call of it on two more calls: one divides by zero and the other
folds; both are called on a call that folds. -/
def quotients : Listing where
  entries := #[(.literal (.int 6), Span.nowhere), (.literal (.int 0), Span.nowhere),
    (.var "a", Span.nowhere), (.var "b", Span.nowhere), (.call "div" (some 2) [3], Span.nowhere),
    (.call "evalQuotient" none [0, 0], ⟨2, 4⟩), (.call "evalQuotient" none [5, 1], ⟨1, 6⟩),
    (.call "evalQuotient" none [0, 5], ⟨7, 9⟩), (.call "evalQuotient" none [6, 7], ⟨0, 10⟩)]
  functions := Table.ofList [("evalQuotient", { params := ["a", "b"], body := 4 })]
  ordered := by decide

/-- What the listing is lowered to. -/
def quotientsProgram : Lowered Item where
  symbols := SymbolTable.ofTexts ["evalQuotient", "a", "b", "div"]
  arena :=
    { nodes := #[.literal (.int 6), .literal (.int 6), .call ⟨1⟩ none ⟨0, 2⟩,
        .literal (.int 0), .call ⟨1⟩ none ⟨2, 2⟩, .literal (.int 6),
        .literal (.int 6), .literal (.int 6), .call ⟨1⟩ none ⟨4, 2⟩,
        .call ⟨1⟩ none ⟨6, 2⟩, .call ⟨1⟩ none ⟨8, 2⟩,
        .var ⟨2⟩, .var ⟨3⟩, .call ⟨4⟩ (some ⟨11⟩) ⟨10, 1⟩]
      spans := #[⟨0, 0⟩, ⟨0, 0⟩, ⟨2, 4⟩, ⟨0, 0⟩, ⟨1, 6⟩, ⟨0, 0⟩, ⟨0, 0⟩, ⟨0, 0⟩, ⟨2, 4⟩, ⟨7, 9⟩,
        ⟨0, 10⟩, ⟨0, 0⟩, ⟨0, 0⟩, ⟨0, 0⟩]
      args := #[⟨0⟩, ⟨1⟩, ⟨2⟩, ⟨3⟩, ⟨6⟩, ⟨7⟩, ⟨5⟩, ⟨8⟩, ⟨4⟩, ⟨9⟩, ⟨12⟩]
      stmts := #[]
      arms := #[] }
  library := Library.ofList [{ name := ⟨1⟩, params := [⟨2⟩, ⟨3⟩], body := ⟨13⟩ }]
  root := ⟨10⟩
  origins := #[.entry 0, .entry 0, .entry 5, .entry 1, .entry 6, .entry 0, .entry 0, .entry 0,
    .entry 5, .entry 7, .entry 8, .entry 2, .entry 3, .entry 4]
  asked := #["evalQuotient"]

/-- The warning about the division by zero. -/
def quotientsWarning : Diagnostic where
  code := .divisionByZero
  severity := .warning
  message := "call to `evalQuotient` was left unfolded: division by zero"
  span := ⟨1, 6⟩
  notes := ["a constant call divides by zero",
    "the call is compiled unchanged and evaluated at runtime"]

/-- What folding reports about the listing: three calls fold, of which one stands in another that
folds, and a division by zero and the call on it stay. -/
def quotientsReport : Report where
  sites := [
    { node := ⟨2⟩, callee := ⟨1⟩, stage := .folded, value := some (.int 1) },
    { node := ⟨4⟩, callee := ⟨1⟩, stage := .leftUnfolded, cause := some .divisionByZero },
    { node := ⟨8⟩, callee := ⟨1⟩, stage := .folded, value := some (.int 1) },
    { node := ⟨9⟩, callee := ⟨1⟩, stage := .folded, value := some (.int 6) },
    { node := ⟨10⟩, callee := ⟨1⟩, stage := .leftUnfolded }]
  splices := [{ call := ⟨2⟩, value := .int 1 }, { call := ⟨9⟩, value := .int 6 }]
  diagnostics := [quotientsWarning]

/-- Folding again finds the two calls that stay, and gives the same warning. -/
theorem refold_quotients :
    (quotients.toHost true).lower {} SymbolTable.initial (.entry 8) = .ok quotientsProgram ∧
    (quotientsProgram.context { fallback := .warn }).foldCalls quotientsProgram.root =
      .ok quotientsReport ∧
    ((quotientsProgram.context { fallback := .warn }).splice quotientsReport.splices).foldCalls
      quotientsProgram.root = .ok {
        sites := [
          { node := ⟨4⟩, callee := ⟨1⟩, stage := .leftUnfolded, cause := some .divisionByZero },
          { node := ⟨10⟩, callee := ⟨1⟩, stage := .leftUnfolded }]
        splices := []
        diagnostics := [quotientsWarning] } := by
  have hwithin : (quotients.toHost true).lowerWithin {} SymbolTable.initial (.entry 8) 2 =
      some quotientsProgram := by decide +kernel
  have hlower := Host.lower_eq_of_lowerWithin hwithin
  have hfirst : (quotientsProgram.context { fallback := .warn }).foldCalls quotientsProgram.root =
      .ok quotientsReport := by decide +kernel
  obtain ⟨report, hreport, hrefold⟩ := Host.refold_lowered hlower { fallback := .warn }
  obtain rfl := Except.ok.inj (hreport.symm.trans hfirst)
  exact ⟨hlower, hfirst, hrefold⟩

end ConstFold
