import ConstFold.Proofs.Closure
import ConstFold.Proofs.Splicing
import ConstFold.Replacement

/-!
# Calls of the host's functions

A call without a receiver may name a function of the host and an operator at once. Lowering leaves
functions that are not eligible out, and a callee without a definition is looked up among the
operators. The main statement is `Host.replacement_of_function`: a call of a host's function is
replaced by what its definition gives on the values of the operands, unless the function is not
eligible and has the name of a comparison. In that case the comparison takes its place.
-/

set_option autoImplicit false

namespace ConstFold

variable {ν : Type}

/-- A list of constants is all known exactly if each of them is. -/
theorem mapM_id_eq_some_iff {α β : Type} {R : α → β → Prop} {value : α → Option β}
    {items : List α} {values : List β}
    (h : ∀ item ∈ items, ∀ known, value item = some known ↔ R item known) :
    (items.map value).mapM id = some values ↔ List.Forall₂ R items values := by
  induction items generalizing values with
  | nil => simp [eq_comm]
  | cons item rest ih =>
    have hfirst := h item List.mem_cons_self
    have hrest := fun others => @ih others fun other hother =>
      h other (List.mem_cons_of_mem _ hother)
    simp only [List.map_cons, List.mapM_cons, id_eq, Option.bind_eq_bind, Option.bind_eq_some_iff,
      Option.pure_def, Option.some.injEq, List.forall₂_cons_left_iff, hfirst, hrest]
    grind

namespace Context

variable {ctx : Context} {folding : NodeId → Folding}

/-- A call without a receiver that folds is a candidate, and its value is that of the call on the
constants of its operands. -/
theorem call_of_foldedAt {id : NodeId} {callee : Name} {args : List NodeId} {value : Literal}
    (hshape : ctx.arena.shape id = .ok (.call callee none args))
    (hvalue : ctx.foldedAt folding id = some value) :
    ctx.isCandidate callee false = true ∧ ∃ values after,
      List.Forall₂ (fun arg known => (folding arg).value = some known) args values ∧
      ctx.call callee none values {} = .ok (.ok value) after := by
  obtain ⟨site, hsite, hvalue⟩ := Option.bind_eq_some_iff.1 hvalue
  simp only [siteAt, hshape, siteOf, Option.ite_none_right_eq_some, Option.some.injEq] at hsite
  obtain ⟨hcandidate, rfl⟩ := hsite
  obtain ⟨receiver, values, after, hoperands, hcall⟩ := value_settledSite hvalue
  simp only [operands?, Option.bind_eq_bind, Option.bind_eq_some_iff] at hoperands
  obtain ⟨_, hreceiver, _, hargs, heq⟩ := hoperands
  cases heq
  cases hreceiver
  exact ⟨hcandidate, values, after, (mapM_id_eq_some_iff fun _ _ _ => .rfl).1 hargs, hcall⟩

/-- Calling an eligible function of the library applies its definition. -/
theorem call_eq_applyDefinition (ctx : Context) {callee : Name} {definition : Definition}
    (hget : ctx.library.get? callee = some definition)
    (heligible : ctx.policy.isEligible (ctx.text callee) = true) (values : List Literal) :
    ctx.call callee none values = ctx.applyDefinition definition values := by
  simp only [call, applyDefinition, evalCall, hget, heligible, if_true]

/-- The constant of a node is its outcome in every environment. -/
theorem WellFormed.reduce_of_value (h : ctx.WellFormed) (hfolding : ctx.unroll folding = folding)
    {node : NodeId} {value : Literal} (hvalue : (folding node).value = some value) (env : Env) :
    ctx.reduce node { env := env } = .ok (.ok value) { env := env } := by
  rw [reduce_apply, h.eval_of_value hfolding hvalue env]
  rfl

end Context

namespace Host

variable {host : Host ν} {policy : Policy} {root : ν} {report : HostReport ν}

/-- A replacement is that of a splice under the lowered root. -/
theorem exists_splice_of_fold (h : host.fold policy root = .ok report) :
    ∃ lowered driven, host.lower policy SymbolTable.initial root = .ok lowered ∧
      (lowered.context policy).foldCalls lowered.root = .ok driven ∧
      ∀ replacement ∈ report.replacements, ∃ splice ∈ driven.splices,
        lowered.origin? splice.call = some replacement.source ∧
        splice.value = replacement.value := by
  unfold Host.fold at h
  cases hlower : host.lower policy SymbolTable.initial root with
  | error fault =>
    rw [hlower] at h
    cases h
  | ok lowered =>
    rw [hlower] at h
    cases hdriven : (lowered.context policy).foldCalls lowered.root with
    | error fault =>
      simp only [bind, Except.bind, hdriven] at h
      cases h
    | ok driven =>
      simp only [bind, Except.bind, hdriven] at h
      cases h
      refine ⟨lowered, driven, rfl, hdriven, fun replacement hmem => ?_⟩
      obtain ⟨splice, hsplice, hreplacement⟩ := List.mem_filterMap.1 hmem
      obtain ⟨source, hsource, rfl⟩ := Option.map_eq_some_iff.1 hreplacement
      exact ⟨splice, hsplice, hsource, rfl⟩

/-- A splice is a call that folds. -/
theorem exists_foldedAt_of_splice {lowered : Lowered ν} {symbols : SymbolTable} {driven : Report}
    (h : host.lower policy symbols root = .ok lowered)
    (hdriven : (lowered.context policy).foldCalls lowered.root = .ok driven) :
    ∃ folding, (lowered.context policy).unroll folding = folding ∧
      ∀ splice ∈ driven.splices,
        (lowered.context policy).foldedAt folding splice.call = some splice.value := by
  have hwellFormed := lower_wellFormed h policy
  have hroot := root_lt_size_of_lower h
  obtain ⟨folding, hfolding, -⟩ := hwellFormed.exists_unique_folding
  obtain ⟨driven', hdriven', -, hsplices⟩ := hwellFormed.exists_foldCalls_eq hfolding hroot
  rw [hdriven] at hdriven'
  cases hdriven'
  refine ⟨folding, hfolding, fun splice hmem => ?_⟩
  rw [hsplices] at hmem
  exact ((hwellFormed.mem_splices_iff hfolding hroot).1 hmem).2

/-- A callee that is a candidate without a receiver is eligible, unless it is a comparison. -/
theorem isEligible_of_isCandidate {lowered : Lowered ν} {callee : Name} {name : String}
    (hname : lowered.symbols.text callee = name)
    (hcandidate : (lowered.context policy).isCandidate callee false = true)
    (hclear : policy.isEligible name = false →
      (Operator.ofName? name).any Operator.isComparison = false) :
    policy.isEligible name = true := by
  by_contra hineligible
  rw [Bool.not_eq_true] at hineligible
  simp [Context.isCandidate, Context.text, Lowered.context, hname, hineligible,
    hclear hineligible] at hcandidate

end Host

/-- The definition of an eligible function that the arena calls and the host has. -/
theorem Lowered.Mirrors.exists_definition {host : Host ν} {policy : Policy} {root : ν}
    {lowered : Lowered ν} (h : lowered.Mirrors host policy root) {id : NodeId} {callee : Name}
    {args : List NodeId} (hshape : lowered.arena.shape id = .ok (.call callee none args))
    {name : String} (hname : lowered.symbols.Names name callee)
    (heligible : policy.isEligible name = true) {found : HostFunction ν}
    (hfound : host.function name = some found) :
    ∃ definition, lowered.library.get? callee = some definition ∧
      definition.Describes host lowered.symbols lowered.origins name found := by
  rw [← hname.text_eq] at heligible
  have hreaches := h.reaches_of_call hshape heligible
  rw [hname.text_eq, ← h.mem_asked_iff] at hreaches
  obtain ⟨definition, hget, hdescribes⟩ := h.complete name hreaches found hfound
  rw [h.consistent.unique hdescribes.name hname] at hget
  exact ⟨definition, hget, hdescribes⟩

/-- A call of a function of the host without a receiver is replaced by what its definition gives on
the values of the operands, unless the function is not eligible and has the name of a comparison. It
makes no difference that functions which are not eligible are left out, if they do not have the
names of operators. -/
theorem Host.replacement_of_function (host : Host ν) (policy : Policy) (root : ν)
    {report : HostReport ν} (h : host.fold policy root = .ok report) :
    ∃ lowered, host.lower policy SymbolTable.initial root = .ok lowered ∧
      (∀ replacement ∈ report.replacements, ∀ name args found,
        host.view replacement.source = .call name none args → host.function name = some found →
        (policy.isEligible name = false →
          (Operator.ofName? name).any Operator.isComparison = false) →
        ∃ callee definition operands values after,
          lowered.symbols.text callee = name ∧
          lowered.library.get? callee = some definition ∧
          definition.params.map lowered.symbols.text = found.params ∧
          lowered.origin? definition.body = some found.body ∧
          operands.map lowered.origin? = args.map some ∧
          List.Forall₂ (fun operand value => ∀ env : Env,
            (lowered.context policy).reduce operand { env := env } = .ok (.ok value) { env := env })
            operands values ∧
          (lowered.context policy).applyDefinition definition values {} =
            .ok (.ok replacement.value) after) ∧
      ∀ (symbols : SymbolTable) (definitions : List Definition),
        (∀ text name, lowered.symbols.Names text name → symbols.Names text name) →
        (∀ definition ∈ definitions, policy.isEligible (symbols.text definition.name) = false ∧
          Operator.ofName? (symbols.text definition.name) = none) →
        ∃ driven, (lowered.context policy).foldCalls lowered.root = .ok driven ∧
          (lowered.extended policy symbols definitions).foldCalls lowered.root = .ok driven := by
  obtain ⟨lowered, driven, hlower, hdriven, hreplacements⟩ := exists_splice_of_fold h
  have hmirrors := mirrors_of_lower .initial hlower
  refine ⟨lowered, hlower, ?_, ?_⟩
  · intro replacement hmem name args found hview hfound hclear
    obtain ⟨splice, hsplice, horigin, hvalue⟩ := hreplacements replacement hmem
    obtain ⟨folding, hfolding, hfolded⟩ := exists_foldedAt_of_splice hlower hdriven
    have hwellFormed := lower_wellFormed hlower policy
    obtain ⟨shape, hshape, -, hmatches⟩ := hmirrors.layer horigin
    rw [hview] at hmatches
    cases hmatches with
    | @call _ callee _ _ _ operands hcallee hreceiver hargs =>
      cases hreceiver
      obtain ⟨hcandidate, values, after, hvalues, hcall⟩ :=
        Context.call_of_foldedAt hshape (hfolded splice hsplice)
      have heligible : policy.isEligible name = true :=
        isEligible_of_isCandidate hcallee.text_eq hcandidate hclear
      obtain ⟨definition, hget, hdescribes⟩ :=
        hmirrors.exists_definition hshape hcallee heligible hfound
      have hoperands : operands.map lowered.origin? = args.map some :=
        map_eq_map_of_forall₂ (hargs.imp fun _ _ hchild => hchild.1)
      have heligible' : policy.isEligible (lowered.symbols.text callee) = true := by
        rw [hcallee.text_eq]
        exact heligible
      rw [(lowered.context policy).call_eq_applyDefinition hget heligible', hvalue] at hcall
      exact ⟨callee, definition, operands, values, after, hcallee.text_eq, hget,
        hdescribes.params_eq, hdescribes.body, hoperands,
        hvalues.imp fun operand value hknown => hwellFormed.reduce_of_value hfolding hknown, hcall⟩
  · intro symbols definitions hnames hdefinitions
    have hagrees := hmirrors.agrees_extended hnames fun definition hmem => by
      obtain ⟨hineligible, hoperator⟩ := hdefinitions definition hmem
      refine ⟨fun hreaches => ?_, .inr hoperator⟩
      rw [hreaches.isEligible] at hineligible
      cases hineligible
    exact ⟨driven, hdriven, by rw [hagrees.foldCalls_eq, hdriven]⟩

/-! ## Two programs -/

/-- The report on a program that takes fewer than `rounds` names to ask for. -/
def Host.reportWithin (host : Host ν) (policy : Policy) (root : ν) (rounds : Nat) :
    Option (HostReport ν) := do
  let lowered ← host.lowerWithin policy SymbolTable.initial root rounds
  let report ← ((lowered.context policy).foldCalls lowered.root).toOption
  return {
    replacements := report.splices.filterMap (host.replacement? lowered)
    diagnostics := report.diagnostics }

/-- A report made within some number of rounds is the report made without a bound. -/
theorem Host.fold_eq_of_reportWithin {host : Host ν} {policy : Policy} {root : ν} {rounds : Nat}
    {report : HostReport ν} (h : host.reportWithin policy root rounds = some report) :
    host.fold policy root = .ok report := by
  obtain ⟨lowered, hwithin, h⟩ := Option.bind_eq_some_iff.1 h
  obtain ⟨driven, hdriven, h⟩ := Option.bind_eq_some_iff.1 h
  unfold Host.fold
  rw [lower_eq_of_lowerWithin hwithin]
  cases hfold : (lowered.context policy).foldCalls lowered.root with
  | error fault =>
    rw [hfold] at hdriven
    cases hdriven
  | ok driven' =>
    rw [hfold] at hdriven
    cases hdriven
    simp only [bind, Except.bind, hfold]
    exact congrArg Except.ok (Option.some.inj h)

/-- What the host of `nextListing` is to replace: the call of the function, by two. -/
def nextReplacements : HostReport Item where
  replacements := [{ source := .entry 3, target := .constant (.int 2) 3, value := .int 2 }]
  diagnostics := []

/-- Only the literal one has the first entry as its origin. -/
theorem reduce_of_first_origin {operand : NodeId}
    (h : nextProgram.origin? operand = some (.entry 0)) :
    (nextProgram.context {}).reduce operand {} = .ok (.ok (.int 1)) {} := by
  have hall : ∀ index < 7, nextProgram.origin? ⟨index⟩ = some (.entry 0) →
      (nextProgram.context {}).reduce ⟨index⟩ {} = .ok (.ok (.int 1)) {} := by decide +kernel
  exact hall operand.index (Array.getElem?_eq_some_iff.1 h).1 h

/-- The replaced call has the value that the definition of its function gives on the value of its
operand. -/
theorem replacement_of_function_next :
    (nextListing.toHost false).fold {} (.entry 5) = .ok nextReplacements ∧
    nextLowered = .ok nextProgram ∧
    nextProgram.symbols.text ⟨2⟩ = "evalNext" ∧
    nextProgram.library.get? ⟨2⟩ = some { name := ⟨2⟩, params := [⟨3⟩], body := ⟨6⟩ } ∧
    (nextProgram.context {}).reduce ⟨0⟩ {} = .ok (.ok (.int 1)) {} ∧
    (nextProgram.context {}).applyDefinition
      { name := ⟨2⟩, params := [⟨3⟩], body := ⟨6⟩ } [.int 1] {} = .ok (.ok (.int 2)) {} := by
  have hreport : (nextListing.toHost false).reportWithin {} (.entry 5) 2 =
      some nextReplacements := by decide +kernel
  have hfold := Host.fold_eq_of_reportWithin hreport
  obtain ⟨lowered, hlower, hreplacements, -⟩ := Host.replacement_of_function _ _ _ hfold
  obtain rfl := Except.ok.inj (hlower.symm.trans nextLowered_eq)
  obtain ⟨callee, definition, operands, values, after, -, hget, -, -, horigins, hvalues,
    happlied⟩ :=
    hreplacements _ (List.mem_singleton_self _) "evalNext" [.entry 0]
      { params := ["x"], body := .entry 2 } (by decide +kernel) (by decide +kernel)
      (by decide +kernel)
  obtain rfl := List.mem_singleton.1 (Library.mem_of_get?_ofList hget)
  obtain ⟨operand, rfl⟩ := List.length_eq_one_iff.1 (by simpa using congrArg List.length horigins)
  cases hvalues with
  | cons hvalue hnil =>
    cases hnil
    have horigin := (List.cons.inj horigins).1
    cases (reduce_of_first_origin horigin).symm.trans (hvalue Env.empty)
    have hafter : (nextProgram.context {}).applyDefinition
        { name := ⟨2⟩, params := [⟨3⟩], body := ⟨6⟩ } [.int 1] {} = .ok (.ok (.int 2)) {} := by
      decide +kernel
    obtain ⟨-, rfl⟩ := EStateM.Result.ok.inj (hafter.symm.trans happlied)
    exact ⟨hfold, nextLowered_eq, by decide +kernel, by decide +kernel, by decide +kernel, happlied⟩

/-- A function with the name of a comparison that is always false, and a call of it. -/
def shadowing : Listing where
  entries := #[(.literal (.int 1), Span.nowhere), (.call "equals" none [0, 0], Span.nowhere),
    (.literal (.bool false), Span.nowhere)]
  functions := Table.ofList [("equals", { params := ["a", "b"], body := 2 })]
  ordered := by decide

/-- The call is replaced by the value of the comparison, and the function is not lowered. -/
theorem comparison_replaces_function :
    (shadowing.toHost false).view (.entry 1) = .call "equals" none [.entry 0, .entry 0] ∧
    (shadowing.toHost false).function "equals" = some { params := ["a", "b"], body := .entry 2 } ∧
    (shadowing.toHost false).view (.entry 2) = .literal (.bool false) ∧
    (∃ lowered, (shadowing.toHost false).lower {} SymbolTable.initial (.entry 1) = .ok lowered ∧
      lowered.library = Library.empty) ∧
    ∃ report, (shadowing.toHost false).fold {} (.entry 1) = .ok report ∧
      report.replacements =
        [{ source := .entry 1, target := .constant (.bool true) 1, value := .bool true }] := by
  have hreport : (shadowing.toHost false).reportWithin {} (.entry 1) 1 = some
      { replacements :=
          [{ source := .entry 1, target := .constant (.bool true) 1, value := .bool true }]
        diagnostics := [] } := by decide +kernel
  have hlibrary : ((shadowing.toHost false).lowerWithin {} SymbolTable.initial (.entry 1) 1).map
      Lowered.library = some Library.empty := by decide +kernel
  obtain ⟨lowered, hwithin, hempty⟩ := Option.map_eq_some_iff.1 hlibrary
  exact ⟨by decide +kernel, by decide +kernel, by decide +kernel,
    ⟨lowered, Host.lower_eq_of_lowerWithin hwithin, hempty⟩,
    _, Host.fold_eq_of_reportWithin hreport, rfl⟩

end ConstFold
