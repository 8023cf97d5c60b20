import ConstFold.Proofs.Folding

/-!
# The warnings of a report

A walk offers a warning to the queue whenever it records a site that failed. So the warnings of a
report are determined by its sites: `Context.warning?` is the warning about one site, and
`Context.diagnosticsOf` is what the queue hands over after the warnings about a list of sites have
been offered to it in order.

With it, `Context.WellFormed.foldCalls_eq_reportOf` says all of what folding the calls under a root
reports in terms of what folding makes of the root.
-/

set_option autoImplicit false

namespace ConstFold

open Walking

/-! ## Offering diagnostics one after the other -/

/-- A queue that is offered diagnostics is offered them one after the other. -/
theorem Queue.snd_addAll (queue : Queue) (diagnostics : List Diagnostic) :
    (queue.addAll diagnostics).2 =
      diagnostics.foldl (fun queue diagnostic => (queue.add diagnostic).2) queue := by
  have hcount : ∀ count, (diagnostics.foldl
      (fun (counted : Nat × Queue) diagnostic =>
        let added := counted.2.add diagnostic
        (if added.1 then counted.1 + 1 else counted.1, added.2)) (count, queue)).2 =
      diagnostics.foldl (fun queue diagnostic => (queue.add diagnostic).2) queue := by
    induction diagnostics generalizing queue with
    | nil => exact fun _ => rfl
    | cons diagnostic rest ih =>
      intro count
      rw [List.foldl_cons, List.foldl_cons]
      exact ih _ _
  exact hcount 0

/-- A queue that is offered two lists is offered the first and then the second. -/
theorem Queue.snd_addAll_append (queue : Queue) (first second : List Diagnostic) :
    (queue.addAll (first ++ second)).2 = ((queue.addAll first).2.addAll second).2 := by
  simp only [Queue.snd_addAll, List.foldl_append]

namespace Context

/-- The warning about a site, if its failure is one to report and the policy asks for it. -/
def warning? (ctx : Context) (site : CallSite) : Option Diagnostic :=
  if ctx.policy.fallback.emitsWarnings then do
    let failure ← site.cause
    let code ← failure.code?
    let span ← (ctx.arena.span site.node).toOption
    return ctx.fallbackWarning site.callee failure code span
  else
    none

/-- What an empty queue hands over after it was offered the warnings about some sites. -/
def diagnosticsOf (ctx : Context) (sites : List CallSite) : List Diagnostic :=
  (Queue.empty.addAll (sites.filterMap ctx.warning?)).2.flush.1

/-- The report on a node, given what folding makes of it. -/
def reportOf (ctx : Context) (folding : Folding) : Report where
  sites := folding.sites
  splices := folding.splices
  diagnostics := ctx.diagnosticsOf folding.sites

/-- There is no warning about a site without a failure. -/
theorem warning?_of_cause_eq_none (ctx : Context) {site : CallSite} (h : site.cause = none) :
    ctx.warning? site = none := by
  unfold warning?
  rw [h]
  split <;> rfl

end Context

/-! ## Steps that warn -/

/-- Steps that record sites and offer the warnings about them to the queue. -/
def Warns (ctx : Context) {α : Type} (step : Walking α) : Prop :=
  ∀ ⦃walk : Walk⦄ ⦃value : α⦄ ⦃after : Walk⦄, step walk = .ok value after →
    ∃ sites : List CallSite, after.sites = walk.sites ++ sites.toArray ∧
      after.queue = (walk.queue.addAll (sites.filterMap ctx.warning?)).2

namespace Warns

variable {ctx : Context} {α β : Type}

/-- Giving a value offers no warning. -/
theorem pure (value : α) : Warns ctx (Pure.pure value) := by
  rintro walk _ _ ⟨⟩
  exact ⟨[], by simp, rfl⟩

/-- A sequence offers the warnings about its sites if both of its steps do. -/
theorem bind {first : Walking α} {next : α → Walking β} (hfirst : Warns ctx first)
    (hnext : ∀ value, Warns ctx (next value)) : Warns ctx (first >>= next) := by
  intro walk result after hrun
  rw [walking_bind] at hrun
  cases hstep : first walk with
  | error fault middle =>
    rw [hstep] at hrun
    cases hrun
  | ok value middle =>
    rw [hstep] at hrun
    obtain ⟨sites, hsites, hqueue⟩ := hfirst hstep
    obtain ⟨sites', hsites', hqueue'⟩ := hnext value hrun
    refine ⟨sites ++ sites', ?_, ?_⟩
    · rw [hsites', hsites]
      simp
    · rw [hqueue', hqueue, List.filterMap_append, Queue.snd_addAll_append]

/-- A result offers no warning. -/
theorem ofResult (result : Except Fault α) : Warns ctx (Walking.ofResult result) := by
  cases result with
  | ok value => exact pure value
  | error fault =>
    rintro walk _ _ ⟨⟩

/-- Steps for the items of a list offer the warnings about their sites if each does. -/
theorem mapM {step : α → Walking β} (h : ∀ item, Warns ctx (step item)) (items : List α) :
    Warns ctx (items.mapM step) := by
  induction items with
  | nil => exact pure []
  | cons item rest ih =>
    rw [List.mapM_cons]
    exact (h item).bind fun value => ih.bind fun values => pure (value :: values)

/-- A step for an item that may be missing offers the warnings about its sites. -/
theorem mapM_option {step : α → Walking β} (h : ∀ item, Warns ctx (step item))
    (item : Option α) : Warns ctx (item.mapM step) := by
  cases item with
  | none => exact pure none
  | some x => exact (h x).bind fun value => pure (some value)

/-- Steps whose values are discarded offer the warnings about their sites if each does. -/
theorem forM {step : α → Walking β} (h : ∀ item, Warns ctx (step item)) (items : List α) :
    Warns ctx (items.forM fun item => discard (step item)) := by
  induction items with
  | nil => exact pure ()
  | cons item rest ih =>
    exact bind ((h item).bind fun _ => pure ()) fun _ => ih

end Warns

namespace Context

variable (ctx : Context)

/-- Reporting the failure of a call offers the warning about its site. -/
theorem queue_reportFallback {node : NodeId} {callee : Name} {failure : Failure}
    {walk after : Walk} (h : ctx.reportFallback node callee failure walk = .ok () after) :
    after = { walk with
      queue := (walk.queue.addAll (ctx.warning?
        { node, callee, stage := .leftUnfolded, cause := some failure }).toList).2 } := by
  unfold reportFallback at h
  unfold warning?
  split at h
  · next hwarns =>
    simp only [hwarns, if_true]
    cases hcode : failure.code? with
    | none =>
      rw [hcode] at h
      cases h
      simp only [hcode, Option.bind_eq_bind, Option.bind_some, Option.bind_none]
      rfl
    | some code =>
      rw [hcode] at h
      cases hspan : ctx.arena.span node with
      | error fault =>
        rw [hspan] at h
        cases h
      | ok span =>
        rw [hspan] at h
        cases h
        simp only [hcode, Option.bind_eq_bind, Option.bind_some, Except.toOption]
        rfl
  · next hsilent =>
    cases h
    simp only [hsilent]
    rfl

/-- A candidate is recorded once, after the warning about it. -/
theorem warns_foldCandidate (mark : Nat) (node : NodeId) (callee : Name)
    (operands : Option (Option Literal × List Literal)) :
    Warns ctx (ctx.foldCandidate mark node callee operands) := by
  intro walk value after hrun
  cases operands with
  | none =>
    rw [ctx.foldCandidate_none] at hrun
    cases hrun
    refine ⟨[{ node, callee, stage := .leftUnfolded }], by simp, ?_⟩
    rw [List.filterMap_cons_none (ctx.warning?_of_cause_eq_none rfl)]
    rfl
  | some pair =>
    obtain ⟨receiver, args⟩ := pair
    change (attempt (ctx.call callee receiver args) >>= _) walk = _ at hrun
    rw [walking_bind] at hrun
    cases hcall : ctx.call callee receiver args walk.machine with
    | error fault machine =>
      simp only [attempt, hcall] at hrun
      cases hrun
    | ok outcome machine =>
      simp only [attempt, hcall] at hrun
      cases outcome with
      | ok result =>
        by_cases hresult : result.isSpliceable = true
        · simp only [hresult, if_true] at hrun
          cases hrun
          refine ⟨[{ node, callee, stage := .folded, value := some result }], by simp, ?_⟩
          rw [List.filterMap_cons_none (ctx.warning?_of_cause_eq_none rfl)]
          rfl
        · simp only [hresult] at hrun
          cases hrun
          refine ⟨[{ node, callee, stage := .leftUnfolded }], by simp, ?_⟩
          rw [List.filterMap_cons_none (ctx.warning?_of_cause_eq_none rfl)]
          rfl
      | error failure =>
        change (ctx.reportFallback node callee failure >>= _) _ = _ at hrun
        rw [walking_bind] at hrun
        cases hreport : ctx.reportFallback node callee failure { walk with machine := machine } with
        | error fault middle =>
          rw [hreport] at hrun
          cases hrun
        | ok done middle =>
          rw [hreport] at hrun
          rw [ctx.queue_reportFallback hreport] at hrun
          cases hrun
          refine ⟨[{ node, callee, stage := .leftUnfolded, cause := some failure }], by simp, ?_⟩
          rw [List.filterMap_cons]
          cases ctx.warning? { node, callee, stage := .leftUnfolded, cause := some failure } <;> rfl

/-- Walking one layer offers the warnings about its sites, if walking the children does. -/
theorem warns_walkShape {walk : NodeId → Walking (Option Literal)}
    (h : ∀ child, Warns ctx (walk child)) (node : NodeId) (shape : Shape Name NodeId) :
    Warns ctx (ctx.walkShape walk node shape) := by
  have hplain : Warns ctx (do
      shape.children.forM fun child => discard (walk child)
      return (none : Option Literal)) :=
    (Warns.forM h shape.children).bind fun _ => .pure none
  cases shape with
  | literal value => exact .pure (some value)
  | call callee receiver args =>
    have hmark : Warns ctx (get : Walking Walk) := by
      rintro walk _ _ ⟨⟩
      exact ⟨[], by simp, rfl⟩
    refine hmark.bind fun before => (Warns.mapM_option h receiver).bind fun receiverValue => ?_
    refine (Warns.mapM h args).bind fun argValues => ?_
    split
    · exact ctx.warns_foldCandidate _ node callee _
    · exact .pure none
  | var name => exact hplain
  | conditional arms otherwise => exact hplain
  | loop condition body => exact hplain
  | block stmts => exact hplain
  | ret value => exact hplain
  | «foreign» children => exact hplain

/-- A walk warns about the sites it records. The induction is on the nesting. -/
theorem warns_walkWithin (nesting : Nat) (node : NodeId) :
    Warns ctx (ctx.walkWithin nesting node) := by
  induction nesting generalizing node with
  | zero =>
    rintro walk _ _ ⟨⟩
  | succ nesting ih =>
    exact (Warns.ofResult _).bind fun shape => ctx.warns_walkShape ih node shape

variable {ctx}

/-- The warnings of a report are those about its sites. -/
theorem diagnostics_of_foldCalls {root : NodeId} {report : Report}
    (h : ctx.foldCalls root = .ok report) :
    report.diagnostics = ctx.diagnosticsOf report.sites := by
  unfold foldCalls at h
  cases hrun : ctx.walkWithin (ctx.arena.size + 1) root {} with
  | error fault walk =>
    rw [hrun] at h
    cases h
  | ok value walk =>
    rw [hrun] at h
    cases h
    obtain ⟨sites, hsites, hqueue⟩ := ctx.warns_walkWithin _ root hrun
    have hall : walk.sites.toList = sites := by simp [hsites]
    show walk.queue.flush.1 = ctx.diagnosticsOf walk.sites.toList
    rw [hall, hqueue]
    rfl

/-- Folding the calls under a root reports what folding makes of the root, with the warnings about
its sites. -/
theorem WellFormed.foldCalls_eq_reportOf (h : ctx.WellFormed) {folding : NodeId → Folding}
    (hfolding : ctx.unroll folding = folding) {root : NodeId}
    (hroot : root.index < ctx.arena.size) :
    ctx.foldCalls root = .ok (ctx.reportOf (folding root)) := by
  obtain ⟨report, hreport, hsites, hsplices⟩ := h.exists_foldCalls_eq hfolding hroot
  have hdiagnostics := diagnostics_of_foldCalls hreport
  rw [hreport, reportOf, ← hsites, ← hsplices, ← hdiagnostics]

end Context

end ConstFold
