import ConstFold.Proofs.Refolding

/-!
# What a reported call site says

A report is its own evidence. The constant of an operand can be read off it (`Report.Knows`): a
literal is its own constant, and any other operand has one only if its call is reported as folded.
From the constants of the operands follows everything a site records (`Report.Lawful`): a call that
was made on them folded, failed or came back with the unit value, and a call with an unknown operand
was not made.

A fold drops the splices within it and adds one of its own, so there are never more splices than
folded sites, and as long as one site is folded there is a splice. With this
`Context.WellFormed.sites_lawful` accounts for a whole report.

A report also speaks of evaluation (`Context.WellFormed.reduce_reported`): a call on constants does
not depend on the environment, so what became of a call is what every evaluation of it comes to.
-/

set_option autoImplicit false

namespace ConstFold

/-! ## The constants of operands -/

/-- All items of a list, place by place, have a value. -/
theorem exists_forall₂_iff {α β : Type} {R : α → β → Prop} {items : List α} :
    (∃ values, List.Forall₂ R items values) ↔ ∀ item ∈ items, ∃ value, R item value := by
  constructor
  · rintro ⟨values, hvalues⟩ item hitem
    obtain ⟨value, -, hvalue⟩ := exists_of_mem_forall₂ hvalues.flip hitem
    exact ⟨value, hvalue⟩
  · intro h
    induction items with
    | nil => exact ⟨[], .nil⟩
    | cons item rest ih =>
      obtain ⟨value, hvalue⟩ := h item List.mem_cons_self
      obtain ⟨values, hvalues⟩ := ih fun other hother => h other (List.mem_cons_of_mem _ hother)
      exact ⟨value :: values, .cons hvalue hvalues⟩

/-- An operand that may be missing has a known value exactly if the value corresponds to it. -/
theorem optionMapM_id_eq_some_iff {α β : Type} {R : α → β → Prop} {value : α → Option β}
    {item : Option α} {result : Option β}
    (h : ∀ x ∈ item, ∀ known, value x = some known ↔ R x known) :
    (item.map value).mapM id = some result ↔ Option.Rel R item result := by
  cases item with
  | none =>
    constructor
    · rintro ⟨⟩
      exact .none
    · rintro ⟨⟩
      rfl
  | some x =>
    have hx := h x rfl
    constructor
    · intro hresult
      obtain ⟨known, hknown, rfl⟩ := Option.map_eq_some_iff.1 hresult
      exact .some ((hx known).1 hknown)
    · intro hresult
      cases hresult with
      | some hknown => simp [(hx _).2 hknown]

namespace Report

/-- A report that gives an operand a constant: the operand is a literal, or a call that is reported
as folded. -/
def Knows (report : Report) (arena : Arena) (operand : NodeId) (value : Literal) : Prop :=
  arena.shape operand = .ok (.literal value) ∨
    ∃ site ∈ report.sites, site.node = operand ∧ site.stage = .folded ∧ site.value = some value

/-- A report that gives every operand of a call a constant. -/
def Supplies (report : Report) (arena : Arena) (receiver : Option NodeId) (args : List NodeId)
    (operands : Option Literal × List Literal) : Prop :=
  Option.Rel (report.Knows arena) receiver operands.1 ∧
    List.Forall₂ (report.Knows arena) args operands.2

/-- A report without a constant for one of the operands of a call. -/
def Lacks (report : Report) (arena : Arena) (receiver : Option NodeId) (args : List NodeId) :
    Prop :=
  ∃ operand ∈ receiver.toList ++ args, ∀ value, ¬ report.Knows arena operand value

/-- The constants of all operands of a call are in the report, and calling the callee on them with a
fresh evaluator has this outcome. -/
def Called (report : Report) (ctx : Context) (callee : Name) (receiver : Option NodeId)
    (args : List NodeId) (outcome : Except Failure Literal) : Prop :=
  ∃ operands, report.Supplies ctx.arena receiver args operands ∧
    ctx.call callee operands.1 operands.2 {} = .ok outcome {}

/-- What a report may say of a call. -/
structure Lawful (report : Report) (ctx : Context) (receiver : Option NodeId) (args : List NodeId)
    (site : CallSite) : Prop where
  terminal : site.stage.isTerminal = true
  folded_iff : site.stage = .folded ↔ ∃ value, site.value = some value
  value_iff : ∀ value, site.value = some value ↔
    value ≠ .unit ∧ report.Called ctx site.callee receiver args (.ok value)
  cause_of_folded : site.stage = .folded → site.cause = none
  operands_of_folded : site.stage = .folded → ∀ operand ∈ receiver.toList ++ args,
    (∃ value, ctx.arena.shape operand = .ok (.literal value)) ∨ report.IsFolded operand
  failed_iff : ∀ failure, site.stage = .leftUnfolded ∧ site.cause = some failure ↔
    report.Called ctx site.callee receiver args (.error failure)
  idle_iff : site.stage = .leftUnfolded ∧ site.cause = none ↔
    report.Lacks ctx.arena receiver args ∨
      report.Called ctx site.callee receiver args (.ok .unit)

variable {report : Report} {ctx : Context} {receiver : Option NodeId} {args : List NodeId}

/-- An operand with a known value is a literal or a folded call. -/
theorem Knows.literal_or_isFolded {arena : Arena} {operand : NodeId} {value : Literal}
    (h : report.Knows arena operand value) :
    (∃ value, arena.shape operand = .ok (.literal value)) ∨ report.IsFolded operand := by
  rcases h with hliteral | ⟨site, hmem, hnode, hstage, -⟩
  · exact .inl ⟨value, hliteral⟩
  · exact .inr ⟨site, hmem, hnode, hstage⟩

/-- The operands of a call have values exactly if each of them has one. -/
theorem exists_supplies_iff {arena : Arena} :
    (∃ operands, report.Supplies arena receiver args operands) ↔
      ∀ operand ∈ receiver.toList ++ args, ∃ value, report.Knows arena operand value := by
  have hreceiver : (∃ value, Option.Rel (report.Knows arena) receiver value) ↔
      ∀ operand ∈ receiver.toList, ∃ value, report.Knows arena operand value := by
    cases receiver with
    | none => exact ⟨fun _ => by simp, fun _ => ⟨none, .none⟩⟩
    | some operand =>
      simp only [Option.toList_some, List.mem_singleton, forall_eq]
      constructor
      · rintro ⟨_, hvalue⟩
        cases hvalue with
        | some hknown => exact ⟨_, hknown⟩
      · rintro ⟨value, hknown⟩
        exact ⟨some value, .some hknown⟩
  rw [List.forall_mem_append, ← hreceiver, ← exists_forall₂_iff]
  constructor
  · rintro ⟨operands, hfirst, hrest⟩
    exact ⟨⟨_, hfirst⟩, _, hrest⟩
  · rintro ⟨⟨first, hfirst⟩, rest, hrest⟩
    exact ⟨(first, rest), hfirst, hrest⟩

/-- Either every operand has a constant or one lacks it. -/
theorem lacks_iff {arena : Arena} :
    report.Lacks arena receiver args ↔
      ∀ operands, ¬ report.Supplies arena receiver args operands := by
  rw [← not_exists, exists_supplies_iff, Lacks]
  push Not
  rfl

/-- Operands whose constants the report knows are those that folding finds. -/
theorem operands?_eq_some_iff {arena : Arena} {known : NodeId → Option Literal}
    (h : ∀ operand ∈ receiver.toList ++ args, ∀ value,
      known operand = some value ↔ report.Knows arena operand value)
    {operands : Option Literal × List Literal} :
    operands? (receiver.map known) (args.map known) = some operands ↔
      report.Supplies arena receiver args operands := by
  obtain ⟨first, rest⟩ := operands
  have hreceiver : (receiver.map known).mapM id = some first ↔
      Option.Rel (report.Knows arena) receiver first :=
    optionMapM_id_eq_some_iff fun operand hmem =>
      h operand (List.mem_append_left _ (Option.mem_toList.2 hmem))
  have hargs : (args.map known).mapM id = some rest ↔
      List.Forall₂ (report.Knows arena) args rest :=
    mapM_id_eq_some_iff fun operand hmem => h operand (List.mem_append_right _ hmem)
  simp only [operands?, Option.bind_eq_bind, Option.bind_eq_some_iff, Supplies, ← hreceiver,
    ← hargs]
  simp

end Report

namespace Context

variable {ctx : Context} {folding : NodeId → Folding} {report : Report} {root : NodeId}

/-- A node with a constant is a literal, or a call that folds. -/
theorem value_eq_some_iff (hfolding : ctx.unroll folding = folding) {node : NodeId}
    {value : Literal} :
    (folding node).value = some value ↔
      ctx.arena.shape node = .ok (.literal value) ∨ ctx.foldedAt folding node = some value := by
  cases hshape : ctx.arena.shape node with
  | error fault =>
    rw [← hfolding]
    simp [unroll, hshape, foldedAt, siteAt]
  | ok shape =>
    rw [value_eq_of_shape hfolding hshape]
    simp only [foldedAt, siteAt, hshape]
    cases shape <;> simp [valueOf, siteOf]

/-- The constants of the nodes in a tree are those that its report knows. -/
theorem WellFormed.value_iff_knows (h : ctx.WellFormed) (hfolding : ctx.unroll folding = folding)
    (hroot : root.index < ctx.arena.size) (hsites : report.sites = (folding root).sites)
    {node : NodeId} (hnode : ctx.arena.InTree root node) {value : Literal} :
    (folding node).value = some value ↔ report.Knows ctx.arena node value := by
  rw [value_eq_some_iff hfolding, h.foldedAt_eq_some_iff hfolding hroot hnode hsites, Report.Knows]

/-! ## One site -/

/-- A call whose operands are supplied has one outcome. -/
theorem WellFormed.exists_called_iff (h : ctx.WellFormed) (callee : Name)
    {receiver : Option NodeId} {args : List NodeId} {operands : Option Literal × List Literal}
    (hoperands : ∀ other, operands = other ↔ report.Supplies ctx.arena receiver args other) :
    ∃ outcome, ctx.call callee operands.1 operands.2 {} = .ok outcome {} ∧
      ∀ other, report.Called ctx callee receiver args other ↔ outcome = other := by
  obtain ⟨outcome, hcalls⟩ := h.exists_call_eq callee operands.1 operands.2 0
  have hcall : ctx.call callee operands.1 operands.2 {} = .ok outcome {} := hcalls Env.empty
  refine ⟨outcome, hcall, fun other => ?_⟩
  simp only [Report.Called, ← hoperands, exists_eq_left', hcall]
  simp

/-- The record of a candidate is lawful, given the constants of its operands. -/
theorem WellFormed.lawful_settledSite (h : ctx.WellFormed) (node : NodeId) (callee : Name)
    {receiver : Option NodeId} {args : List NodeId}
    {operands : Option (Option Literal × List Literal)}
    (hoperands : ∀ other, operands = some other ↔ report.Supplies ctx.arena receiver args other) :
    report.Lawful ctx receiver args (ctx.settledSite node callee operands) := by
  have hlacks : report.Lacks ctx.arena receiver args ↔ operands = none := by
    simp only [Report.lacks_iff, ← hoperands, Option.eq_none_iff_forall_ne_some, ne_eq]
  cases operands with
  | none =>
    have hcalled : ∀ outcome, ¬ report.Called ctx callee receiver args outcome := by
      rintro outcome ⟨other, hother, -⟩
      cases (hoperands other).2 hother
    constructor <;> simp [settledSite, hcalled, hlacks, Stage.isTerminal]
  | some operands =>
    simp only [Option.some.injEq] at hoperands
    obtain ⟨outcome, hcall, hcalled⟩ := h.exists_called_iff callee hoperands
    cases outcome with
    | error failure =>
      have hsite : ctx.settledSite node callee (some operands) =
          { node, callee, stage := .leftUnfolded, cause := some failure } := by
        simp only [settledSite, hcall]
      rw [hsite]
      constructor <;> simp [hcalled, hlacks, Stage.isTerminal]
    | ok value =>
      by_cases hunit : value = .unit
      · subst hunit
        have hsite : ctx.settledSite node callee (some operands) =
            { node, callee, stage := .leftUnfolded } := by
          simp [settledSite, hcall, Literal.isSpliceable]
        rw [hsite]
        constructor
        case value_iff =>
          intro other
          simp only [hcalled, Except.ok.injEq, reduceCtorEq, false_iff, not_and]
          exact fun hne heq => hne heq.symm
        all_goals simp [hcalled, hlacks, Stage.isTerminal]
      · have hsite : ctx.settledSite node callee (some operands) =
            { node, callee, stage := .folded, value := some value } := by
          simp [settledSite, hcall, hunit]
        rw [hsite]
        constructor
        case operands_of_folded =>
          intro _ operand hmem
          have hknown := Report.exists_supplies_iff.1 ⟨operands, (hoperands operands).1 rfl⟩
          obtain ⟨known, hoperand⟩ := hknown operand hmem
          exact hoperand.literal_or_isFolded
        case value_iff =>
          intro other
          simp only [hcalled, Except.ok.injEq, Option.some.injEq]
          exact ⟨fun heq => ⟨heq ▸ hunit, heq⟩, And.right⟩
        all_goals simp [hcalled, hlacks, hunit, Stage.isTerminal]

/-! ## Counting -/

/-- Among the sites of a node, its own is folded if the node folds. -/
theorem countP_sites_eq_of_shape (hfolding : ctx.unroll folding = folding) {node : NodeId}
    {shape : Shape Name NodeId} (hshape : ctx.arena.shape node = .ok shape) :
    (folding node).sites.countP (·.stage = .folded) =
      (shape.children.map fun child => (folding child).sites.countP (·.stage = .folded)).sum +
        if (ctx.foldedAt folding node).isSome then 1 else 0 := by
  rw [sites_eq_of_shape hfolding hshape, List.countP_append, List.countP_flatMap]
  congr 1
  cases hsite : ctx.siteAt folding node with
  | none => simp [foldedAt, hsite]
  | some site =>
    have hfolded := (siteAt_spec hsite).2
    rw [← Option.isSome_iff_exists] at hfolded
    simp [foldedAt, hsite, hfolded, List.countP_cons]

/-- Every splice is that of a folded site of its own. -/
theorem WellFormed.length_splices_le (h : ctx.WellFormed) (hfolding : ctx.unroll folding = folding)
    (hroot : root.index < ctx.arena.size) :
    (folding root).splices.length ≤ (folding root).sites.countP (·.stage = .folded) := by
  induction root using h.arena.wellFounded.induction with
  | _ root ih =>
    obtain ⟨shape, hshape⟩ := h.arena.readable root hroot
    rw [splices_eq_of_shape hfolding hshape, countP_sites_eq_of_shape hfolding hshape]
    cases ctx.foldedAt folding root with
    | some value => simp
    | none =>
      rw [List.length_flatMap]
      refine Nat.le_add_right_of_le (List.sum_le_sum fun child hmem => ?_)
      have hchild : ctx.arena.Child child root := ⟨shape, hshape, hmem⟩
      exact ih child hchild (h.arena.inBounds hchild)

/-- A fold never leaves the splices empty: it drops those within it, and adds its own. -/
theorem WellFormed.splices_eq_nil_iff (h : ctx.WellFormed) (hfolding : ctx.unroll folding = folding)
    (hroot : root.index < ctx.arena.size) :
    (folding root).splices = [] ↔ (folding root).sites.countP (·.stage = .folded) = 0 := by
  induction root using h.arena.wellFounded.induction with
  | _ root ih =>
    obtain ⟨shape, hshape⟩ := h.arena.readable root hroot
    rw [splices_eq_of_shape hfolding hshape, countP_sites_eq_of_shape hfolding hshape]
    cases ctx.foldedAt folding root with
    | some value => simp
    | none =>
      simp only [List.flatMap_eq_nil_iff, Option.isSome_none, Bool.false_eq_true, if_false,
        Nat.add_zero, List.sum_eq_zero_iff_forall_eq_nat, List.forall_mem_map]
      refine forall₂_congr fun child hmem => ?_
      have hchild : ctx.arena.Child child root := ⟨shape, hshape, hmem⟩
      exact ih child hchild (h.arena.inBounds hchild)

/-! ## A whole report -/

/-- A settled site keeps its callee. -/
theorem callee_settledSite (ctx : Context) (node : NodeId) (callee : Name)
    (operands : Option (Option Literal × List Literal)) :
    (ctx.settledSite node callee operands).callee = callee := by
  rcases ctx.settledSite_cases node callee operands with ⟨value, hsite⟩ | ⟨cause, hsite⟩
  · rw [hsite]
  · rw [hsite]

/-- A reported site is that of a candidate under the root, and it is lawful. -/
theorem WellFormed.lawful_of_mem_sites (h : ctx.WellFormed)
    (hfolding : ctx.unroll folding = folding) (hroot : root.index < ctx.arena.size)
    (hsites : report.sites = (folding root).sites) {site : CallSite} (hsite : site ∈ report.sites) :
    ∃ receiver args, ctx.arena.InTree root site.node ∧
      ctx.arena.shape site.node = .ok (.call site.callee receiver args) ∧
      ctx.isCandidate site.callee receiver.isSome = true ∧
      report.Lawful ctx receiver args site := by
  rw [hsites, h.mem_sites_iff hfolding hroot] at hsite
  obtain ⟨node, hnode, hsome⟩ := hsite
  obtain ⟨callee, receiver, args, hshape, hcandidate, rfl⟩ := siteAt_eq_some_iff.1 hsome
  rw [(ctx.settledSite_spec node callee _).1, ctx.callee_settledSite node callee]
  refine ⟨receiver, args, hnode, hshape, hcandidate, h.lawful_settledSite node callee fun other => ?_⟩
  refine Report.operands?_eq_some_iff fun operand hmem value => ?_
  exact h.value_iff_knows hfolding hroot hsites (hnode.child ⟨_, hshape, hmem⟩)

/-- Folding the calls under a root has a report; an attempt to advance a site to a stage that cannot
follow would have been a fault instead. Every candidate under the root has a site, every site is
that of a candidate and lawful, there are at most as many splices as folded sites, and nothing is
spliced only if no site is folded. -/
theorem WellFormed.sites_lawful (h : ctx.WellFormed) (hroot : root.index < ctx.arena.size) :
    ∃ report, ctx.foldCalls root = .ok report ∧
      (∀ node callee receiver args, ctx.arena.InTree root node →
        ctx.arena.shape node = .ok (.call callee receiver args) →
        ctx.isCandidate callee receiver.isSome = true → ∃ site ∈ report.sites, site.node = node) ∧
      (∀ site ∈ report.sites, ∃ receiver args, ctx.arena.InTree root site.node ∧
        ctx.arena.shape site.node = .ok (.call site.callee receiver args) ∧
        ctx.isCandidate site.callee receiver.isSome = true ∧
        report.Lawful ctx receiver args site) ∧
      report.splices.length ≤ report.foldedCount ∧
      (report.isUnchanged = true ↔ report.foldedCount = 0) := by
  obtain ⟨folding, hfolding, -⟩ := h.exists_unique_folding
  obtain ⟨report, hreport, hsites, hsplices⟩ := h.exists_foldCalls_eq hfolding hroot
  refine ⟨report, hreport, ?_, fun site => h.lawful_of_mem_sites hfolding hroot hsites, ?_, ?_⟩
  · intro node callee receiver args hnode hshape hcandidate
    obtain ⟨site, hsite⟩ : ∃ site, ctx.siteAt folding node = some site :=
      ⟨_, siteAt_eq_some_iff.2 ⟨callee, receiver, args, hshape, hcandidate, rfl⟩⟩
    refine ⟨site, ?_, (siteAt_spec hsite).1⟩
    rw [hsites]
    exact (h.mem_sites_iff hfolding hroot).2 ⟨node, hnode, hsite⟩
  · rw [Report.foldedCount, hsites, hsplices]
    exact h.length_splices_le hfolding hroot
  · rw [Report.isUnchanged, Report.foldedCount, hsites, hsplices, List.isEmpty_iff]
    exact h.splices_eq_nil_iff hfolding hroot

/-- A function that divides and one without a result. Under the root stand a quotient of a quotient,
a division by zero, and a call on the result that the second function does not have. -/
def verdicts : Context where
  symbols := SymbolTable.ofTexts ["a", "b", "div", "evalDivide", "evalNothing"]
  library := Library.ofList [{ name := ⟨4⟩, params := [⟨1⟩, ⟨2⟩], body := ⟨2⟩ },
    { name := ⟨5⟩, params := [], body := ⟨3⟩ }]
  policy := {}
  arena :=
    { nodes := #[.var ⟨1⟩, .var ⟨2⟩, .call ⟨3⟩ (some ⟨0⟩) ⟨0, 1⟩, .block ⟨0, 0⟩,
        .literal (.int 6), .literal (.int 0), .literal (.int 2),
        .call ⟨4⟩ none ⟨1, 2⟩, .call ⟨4⟩ none ⟨3, 2⟩, .call ⟨4⟩ none ⟨5, 2⟩,
        .call ⟨5⟩ none ⟨0, 0⟩, .call ⟨4⟩ none ⟨7, 2⟩, .block ⟨0, 3⟩]
      spans := Array.replicate 13 Span.nowhere
      args := #[⟨1⟩, ⟨4⟩, ⟨6⟩, ⟨7⟩, ⟨6⟩, ⟨4⟩, ⟨5⟩, ⟨10⟩, ⟨6⟩]
      stmts := #[.expr ⟨8⟩, .expr ⟨9⟩, .expr ⟨11⟩]
      arms := #[] }

/-- In `verdicts` children come before their parents, so it is well-formed. -/
theorem verdicts_wellFormed : verdicts.WellFormed :=
  .of_ordered (by decide) rfl rfl (by decide)

/-- The inner quotient is folded but not spliced, since the outer one is. -/
def verdictsReport : Report where
  sites := [
    { node := ⟨7⟩, callee := ⟨4⟩, stage := .folded, value := some (.int 3) },
    { node := ⟨8⟩, callee := ⟨4⟩, stage := .folded, value := some (.int 1) },
    { node := ⟨9⟩, callee := ⟨4⟩, stage := .leftUnfolded, cause := some .divisionByZero },
    { node := ⟨10⟩, callee := ⟨5⟩, stage := .leftUnfolded },
    { node := ⟨11⟩, callee := ⟨4⟩, stage := .leftUnfolded }]
  splices := [{ call := ⟨8⟩, value := .int 1 }]
  diagnostics := []

/-- The sites of the report keep the laws: two calls fold, one fails, and two stay without a
failure. -/
theorem sites_lawful_verdicts :
    verdicts.WellFormed ∧
    verdicts.foldCalls ⟨12⟩ = .ok verdictsReport ∧
    (∀ site ∈ verdictsReport.sites, ∃ receiver args, verdicts.arena.InTree ⟨12⟩ site.node ∧
      verdicts.arena.shape site.node = .ok (.call site.callee receiver args) ∧
      verdicts.isCandidate site.callee receiver.isSome = true ∧
      verdictsReport.Lawful verdicts receiver args site) ∧
    verdictsReport.splices.length ≤ verdictsReport.foldedCount ∧
    (verdictsReport.isUnchanged = true ↔ verdictsReport.foldedCount = 0) := by
  have hroot : (⟨12⟩ : NodeId).index < verdicts.arena.size := by decide
  have hrun : verdicts.foldCalls ⟨12⟩ = .ok verdictsReport := by decide +kernel
  obtain ⟨report, hreport, -, hsites, hcount⟩ := verdicts_wellFormed.sites_lawful hroot
  rw [hrun] at hreport
  cases hreport
  exact ⟨verdicts_wellFormed, hrun, hsites, hcount⟩

/-! ## Evaluating a reported call -/

/-- A call that was made on the constants of its operands comes to the same when it is evaluated, in
every environment: the operands are evaluated to their constants, and a call on constants neither
reads nor changes the environment. -/
theorem WellFormed.reduce_of_called (h : ctx.WellFormed) (hfolding : ctx.unroll folding = folding)
    (hroot : root.index < ctx.arena.size) (hsites : report.sites = (folding root).sites)
    {node : NodeId} (hnode : ctx.arena.InTree root node) {callee : Name} {receiver : Option NodeId}
    {args : List NodeId} (hshape : ctx.arena.shape node = .ok (.call callee receiver args))
    {outcome : Except Failure Literal} (hcalled : report.Called ctx callee receiver args outcome)
    (env : Env) : ctx.reduce node { env := env } = .ok outcome { env := env } := by
  obtain ⟨⟨receiverValue, argValues⟩, hsupplies, hcall⟩ := hcalled
  have hoperands : operands? (receiver.map fun child => (folding child).value)
      (args.map fun child => (folding child).value) = some (receiverValue, argValues) := by
    refine (Report.operands?_eq_some_iff fun operand hmem value => ?_).2 hsupplies
    exact h.value_iff_knows hfolding hroot hsites (hnode.child ⟨_, hshape, hmem⟩)
  have heval : ctx.eval node { env := env } =
      ctx.evalCall ctx.eval callee receiverValue argValues { env := env } := by
    rw [h.eval_eq_evalShape hshape]
    exact evalShape_call_of_values hoperands fun _ _ _ hvalue => h.eval_of_value hfolding hvalue env
  obtain ⟨outcome', hcalls⟩ := h.exists_call_eq callee receiverValue argValues 0
  obtain rfl : outcome = outcome' := by
    have hsame := hcall.symm.trans (hcalls Env.empty)
    cases hsame
    rfl
  rw [reduce_apply, heval, ← settle_apply]
  exact hcalls env

/-- What a report says of a call holds wherever the call is evaluated. A call that is reported as
folded is evaluated to its constant in every environment, and leaves the environment as it was; a
call that was left because of a failure fails in the same way. -/
theorem WellFormed.reduce_reported (h : ctx.WellFormed) (hroot : root.index < ctx.arena.size) :
    ∃ report, ctx.foldCalls root = .ok report ∧ ∀ site ∈ report.sites, ∀ env : Env,
      (∀ value, site.stage = .folded → site.value = some value →
        ctx.reduce site.node { env := env } = .ok (.ok value) { env := env }) ∧
      ∀ failure, site.stage = .leftUnfolded → site.cause = some failure →
        ctx.reduce site.node { env := env } = .ok (.error failure) { env := env } := by
  obtain ⟨folding, hfolding, -⟩ := h.exists_unique_folding
  obtain ⟨report, hreport, hsites, -⟩ := h.exists_foldCalls_eq hfolding hroot
  refine ⟨report, hreport, fun site hsite env => ?_⟩
  obtain ⟨receiver, args, hnode, hshape, -, hlawful⟩ :=
    h.lawful_of_mem_sites hfolding hroot hsites hsite
  refine ⟨fun value _ hvalue => ?_, fun failure hstage hcause => ?_⟩
  · have hcalled := ((hlawful.value_iff value).1 hvalue).2
    exact h.reduce_of_called hfolding hroot hsites hnode hshape hcalled env
  · have hcalled := (hlawful.failed_iff failure).1 ⟨hstage, hcause⟩
    exact h.reduce_of_called hfolding hroot hsites hnode hshape hcalled env

/-- The outer quotient is evaluated to its constant everywhere, and the division by zero fails
everywhere. -/
theorem reduce_reported_verdicts :
    verdicts.WellFormed ∧
    verdicts.foldCalls ⟨12⟩ = .ok verdictsReport ∧
    ∀ env : Env, verdicts.reduce ⟨8⟩ { env := env } = .ok (.ok (.int 1)) { env := env } ∧
      verdicts.reduce ⟨9⟩ { env := env } = .ok (.error .divisionByZero) { env := env } := by
  have hroot : (⟨12⟩ : NodeId).index < verdicts.arena.size := by decide
  have hrun : verdicts.foldCalls ⟨12⟩ = .ok verdictsReport := by decide +kernel
  obtain ⟨report, hreport, hsites⟩ := verdicts_wellFormed.reduce_reported hroot
  rw [hrun] at hreport
  cases hreport
  refine ⟨verdicts_wellFormed, hrun, fun env => ⟨?_, ?_⟩⟩
  · obtain ⟨hfolded, -⟩ := hsites
      { node := ⟨8⟩, callee := ⟨4⟩, stage := .folded, value := some (.int 1) } (by decide) env
    exact hfolded (.int 1) rfl rfl
  · obtain ⟨-, hfailed⟩ := hsites
      { node := ⟨9⟩, callee := ⟨4⟩, stage := .leftUnfolded, cause := some .divisionByZero }
      (by decide) env
    exact hfailed .divisionByZero rfl rfl

end Context

end ConstFold
