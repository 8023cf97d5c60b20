import ConstFold.Proofs.Traversal
import ConstFold.Proofs.Warnings
import Mathlib.Data.Prod.Lex

/-!
# Which calls are warned about

A call is warned about when it broke: it was made and failed, and not merely for lack of
information. The queue stands between the broken calls and the report. It keeps the first diagnostic
of each code at each location and the first hundred in all, and hands them over in the order of
their places; of those in one place the order in which they came is kept.

The main statement, `Context.WellFormed.diagnostics_of_broken_sites`, says this of the report as a
whole, and that asking for warnings changes nothing else in it.
-/

set_option autoImplicit false

namespace ConstFold

/-! ## Sorting -/

/-- A list sorted by a key, where entries of the same key stay in their order. -/
structure StablySorted {α κ : Type} [LE κ] [DecidableEq κ] (key : α → κ) (before after : List α) :
    Prop where
  perm : after.Perm before
  sorted : after.Pairwise fun first second => key first ≤ key second
  stable : ∀ k, after.filter (fun item => key item = k) = before.filter fun item => key item = k

/-- Sorting by merging is stable. -/
theorem stablySorted_mergeSort {α κ : Type} [LinearOrder κ] {key : α → κ} {le : α → α → Bool}
    (hle : ∀ first second, le first second = true ↔ key first ≤ key second) (items : List α) :
    StablySorted key items (items.mergeSort le) := by
  have htrans : ∀ a b c, le a b = true → le b c = true → le a c = true := by
    simp only [hle]
    exact fun a b c => le_trans
  have htotal : ∀ a b, (le a b || le b a) = true := by
    simp only [Bool.or_eq_true, hle]
    exact fun a b => le_total (key a) (key b)
  have hperm := List.mergeSort_perm items le
  refine ⟨hperm, ?_, fun k => ?_⟩
  · exact (List.pairwise_mergeSort htrans htotal items).imp fun h => (hle _ _).1 h
  · have hties : (items.filter fun item => key item = k).Pairwise fun a b => le a b = true := by
      refine List.pairwise_of_forall_mem_list fun a ha b hb => ?_
      have ha := of_decide_eq_true (List.mem_filter.1 ha).2
      have hb := of_decide_eq_true (List.mem_filter.1 hb).2
      rw [hle, ha, hb]
    have hsublist := (List.sublist_mergeSort htrans htotal hties List.filter_sublist).filter
      fun item => key item = k
    simp only [List.filter_filter, Bool.and_self] at hsublist
    exact (hsublist.eq_of_length (hperm.filter _).length_eq.symm).symm

/-- Where a diagnostic stands in a report: by start, then end, then code. -/
def Diagnostic.place (diagnostic : Diagnostic) : ℕ ×ₗ ℕ ×ₗ ℕ :=
  toLex (diagnostic.span.start, toLex (diagnostic.span.stop, diagnostic.code.rank))

/-- Diagnostics are sorted by their places. -/
theorem Queue.comesBefore_iff (left right : Diagnostic) :
    comesBefore left right = true ↔ left.place ≤ right.place := by
  simp only [comesBefore, Ordering.then_assoc, Ordering.isLE_then_iff_or, Nat.compare_eq_lt,
    Nat.compare_eq_eq, Nat.isLE_compare, Diagnostic.place, Prod.Lex.toLex_le_toLex]

/-! ## What a queue keeps -/

/-- A diagnostic of the same code at the same location as another one. Without a location nothing is
the same. -/
def Diagnostic.repeats (later earlier : Diagnostic) : Bool :=
  !later.span.isNowhere && later.code = earlier.code && later.span = earlier.span

namespace Queue

/-- The queue after it accepted a diagnostic. -/
def accept (queue : Queue) (diagnostic : Diagnostic) : Queue where
  limit := queue.limit
  held := queue.held.push diagnostic
  seen := (key? diagnostic).toList ++ queue.seen

/-- A queue that is offered a diagnostic accepts it unless it is full or has seen it. -/
theorem snd_add (queue : Queue) (diagnostic : Diagnostic) :
    (queue.add diagnostic).2 =
      if queue.isFull || queue.hasSeen diagnostic then queue else queue.accept diagnostic := by
  unfold add
  split <;> rfl

/-- Accepting a diagnostic leaves the limit. -/
@[simp] theorem limit_accept (queue : Queue) (diagnostic : Diagnostic) :
    (queue.accept diagnostic).limit = queue.limit := rfl

/-- Accepting a diagnostic makes the queue longer by one. -/
@[simp] theorem size_accept (queue : Queue) (diagnostic : Diagnostic) :
    (queue.accept diagnostic).size = queue.size + 1 := by
  simp [accept, size]

/-- An accepted diagnostic comes last. -/
@[simp] theorem toList_accept (queue : Queue) (diagnostic : Diagnostic) :
    (queue.accept diagnostic).toList = queue.toList ++ [diagnostic] := by
  simp [accept, toList]

/-- A queue that accepted a diagnostic has seen what repeats it, and what it had seen before. -/
@[simp] theorem hasSeen_accept (queue : Queue) (diagnostic other : Diagnostic) :
    (queue.accept diagnostic).hasSeen other =
      (other.repeats diagnostic || queue.hasSeen other) := by
  cases hother : other.span.isNowhere with
  | true => simp [hasSeen, key?, Diagnostic.repeats, hother]
  | false =>
    cases hdiagnostic : diagnostic.span.isNowhere with
    | true =>
      have hne : other.span ≠ diagnostic.span := by
        intro heq
        rw [heq, hdiagnostic] at hother
        cases hother
      simp [hasSeen, key?, accept, Diagnostic.repeats, hother, hdiagnostic, hne]
    | false => simp [hasSeen, key?, accept, Diagnostic.repeats, hother, hdiagnostic]

/-- Nothing fits into a full queue. -/
theorem take_toList_append_of_isFull {queue : Queue} (hsize : queue.size ≤ queue.limit)
    (hfull : queue.isFull = true) (rest : List Diagnostic) :
    (queue.toList ++ rest).take queue.limit = queue.toList := by
  have hlength : queue.toList.length = queue.limit := by
    simp only [isFull, Bool.and_eq_true, decide_eq_true_eq] at hfull
    exact Nat.le_antisymm hsize hfull.2
  exact List.take_left' hlength

/-- Diagnostics offered to a queue with room are kept after those it holds, up to the limit; what it
has seen and what repeats an earlier one is dropped. The induction is on the offered diagnostics. -/
theorem toList_addAll {queue : Queue} (hlimit : 0 < queue.limit)
    (hsize : queue.size ≤ queue.limit) (offered : List Diagnostic) :
    (queue.addAll offered).2.toList =
      (queue.toList ++ (offered.filter fun diagnostic => !queue.hasSeen diagnostic).eraseDupsBy
        Diagnostic.repeats).take queue.limit := by
  rw [snd_addAll]
  induction offered generalizing queue with
  | nil =>
    have hlength : queue.toList.length ≤ queue.limit := hsize
    simp [List.take_of_length_le hlength]
  | cons diagnostic rest ih =>
    rw [List.foldl_cons]
    rw [snd_add]
    by_cases hfull : queue.isFull = true
    · rw [if_pos (by simp [hfull]), ih hlimit hsize, take_toList_append_of_isFull hsize hfull,
        take_toList_append_of_isFull hsize hfull]
    · by_cases hseen : queue.hasSeen diagnostic = true
      · rw [if_pos (by simp [hseen]), ih hlimit hsize, List.filter_cons_of_neg (by simp [hseen])]
      · have hroom : queue.size < queue.limit := by
          simpa [isFull, hlimit, size] using hfull
        have hrest := @ih (queue.accept diagnostic) hlimit (by simpa using Nat.succ_le_of_lt hroom)
        rw [if_neg (by simp [hfull, hseen]), hrest, List.filter_cons_of_pos (by simp [hseen]),
          List.eraseDupsBy_cons, List.filter_filter]
        simp

/-- An empty queue keeps the first of those that repeat each other, a hundred at most, and hands
them over sorted. -/
theorem flush_addAll_empty (offered : List Diagnostic) :
    StablySorted Diagnostic.place ((offered.eraseDupsBy Diagnostic.repeats).take defaultLimit)
      (empty.addAll offered).2.flush.1 := by
  have hnew : (offered.filter fun diagnostic => !empty.hasSeen diagnostic) = offered := by
    rw [List.filter_eq_self]
    intro diagnostic _
    cases hkey : key? diagnostic <;> simp [hasSeen, hkey, empty, withLimit]
  have hkept : (empty.addAll offered).2.toList =
      (offered.eraseDupsBy Diagnostic.repeats).take defaultLimit := by
    have hkept := @toList_addAll empty (by decide) (by decide) offered
    rw [hnew] at hkept
    exact hkept
  rw [← hkept]
  exact stablySorted_mergeSort comesBefore_iff _

end Queue

/-! ## What a walk warns about -/

/-- Whether a call failed, and not merely for lack of information. -/
def CallSite.isBroken (site : CallSite) : Bool :=
  site.cause.any fun failure => !failure.isInconclusive

/-- A call is broken exactly if there is a code for its failure. -/
theorem CallSite.isBroken_iff {site : CallSite} :
    site.isBroken = true ↔
      ∃ failure code, site.cause = some failure ∧ failure.code? = some code := by
  have hcode : ∀ failure : Failure, failure.isInconclusive = false ↔
      ∃ code, failure.code? = some code := by
    intro failure
    rw [← Option.ne_none_iff_exists', Ne, Failure.code?_eq_none_iff, Bool.not_eq_true]
  simp [isBroken, Option.any_eq_true, hcode]

namespace Context

variable {ctx : Context} {folding : NodeId → Folding} {root : NodeId}

/-- The warning about a broken call: the code of its failure, at the location of the call. -/
def WarnsAbout (ctx : Context) (site : CallSite) (warning : Diagnostic) : Prop :=
  ∃ failure code span, site.cause = some failure ∧ failure.code? = some code ∧
    ctx.arena.span site.node = .ok span ∧
    warning = ctx.fallbackWarning site.callee failure code span

/-- A silent policy asks for no warning. -/
theorem warning?_of_silent (h : ctx.policy.fallback = .silent) (site : CallSite) :
    ctx.warning? site = none := by
  simp [warning?, h, Fallback.emitsWarnings]

/-- A silent policy has no diagnostics, whatever the sites. -/
theorem diagnosticsOf_of_silent (h : ctx.policy.fallback = .silent) (sites : List CallSite) :
    ctx.diagnosticsOf sites = [] := by
  rw [diagnosticsOf, List.filterMap_eq_nil_iff.2 fun site _ => warning?_of_silent h site]
  exact List.mergeSort_nil

/-- A warning policy asks for the warnings about broken calls. -/
theorem warning?_eq_some_iff (h : ctx.policy.fallback = .warn) {site : CallSite}
    {warning : Diagnostic} : ctx.warning? site = some warning ↔ ctx.WarnsAbout site warning := by
  have hspan : ∀ span, (ctx.arena.span site.node).toOption = some span ↔
      ctx.arena.span site.node = .ok span := by
    intro span
    cases ctx.arena.span site.node <;> simp [Except.toOption]
  simp only [warning?, h, Fallback.emitsWarnings, if_true, Option.bind_eq_bind,
    Option.bind_eq_some_iff, hspan, Option.pure_def, Option.some.injEq, WarnsAbout]
  grind

/-- If warnings are asked for, the broken calls are those that are warned about. -/
theorem forall₂_warnsAbout (h : ctx.policy.fallback = .warn) {sites : List CallSite}
    (hlocated : ∀ site ∈ sites, ∃ span, ctx.arena.span site.node = .ok span) :
    List.Forall₂ ctx.WarnsAbout (sites.filter CallSite.isBroken)
      (sites.filterMap ctx.warning?) := by
  have hbroken : (sites.filter CallSite.isBroken).filterMap ctx.warning? =
      sites.filterMap ctx.warning? := by
    rw [List.filterMap_filter]
    refine List.filterMap_congr fun site _ => ?_
    split
    · rfl
    · next hnot =>
      rw [eq_comm, Option.eq_none_iff_forall_ne_some]
      intro warning hwarning
      obtain ⟨failure, code, -, hcause, hcode, -⟩ := (warning?_eq_some_iff h).1 hwarning
      exact hnot (CallSite.isBroken_iff.2 ⟨failure, code, hcause, hcode⟩)
  rw [← hbroken]
  refine List.Forall₂.imp (fun site warning => (warning?_eq_some_iff h).1)
    (forall₂_filterMap fun site hmem => ?_)
  obtain ⟨hsite, hmem⟩ := List.mem_filter.1 hmem
  obtain ⟨failure, code, hcause, hcode⟩ := CallSite.isBroken_iff.1 hmem
  obtain ⟨span, hspan⟩ := hlocated site hsite
  exact ⟨_, (warning?_eq_some_iff h).2 ⟨failure, code, span, hcause, hcode, hspan, rfl⟩⟩

/-- Every site of a walk has a location. -/
theorem WellFormed.exists_span_of_mem_sites (h : ctx.WellFormed)
    (hfolding : ctx.unroll folding = folding) (hroot : root.index < ctx.arena.size)
    {site : CallSite} (hsite : site ∈ (folding root).sites) :
    ∃ span, ctx.arena.span site.node = .ok span := by
  obtain ⟨node, hnode, hsome⟩ := (h.mem_sites_iff hfolding hroot).1 hsite
  rw [(siteAt_spec hsome).1]
  exact Arena.span_eq_ok h.arena.located (h.arena.lt_size_of_inTree hroot hnode)

/-! ## What warnings do not change -/

/-- A context that asks for warnings, or does not ask for them. -/
def withFallback (ctx : Context) (fallback : Fallback) : Context :=
  { ctx with policy := { ctx.policy with fallback } }

/-- Evaluation does not depend on whether warnings are asked for. -/
theorem evalWithin_withFallback (ctx : Context) (fallback : Fallback) (nesting : Nat) :
    (ctx.withFallback fallback).evalWithin nesting = ctx.evalWithin nesting := by
  induction nesting with
  | zero => rfl
  | succ nesting ih =>
    have hshape : (ctx.withFallback fallback).evalShape = ctx.evalShape := by
      funext eval shape
      cases shape <;> rfl
    funext node
    simp only [evalWithin, evalNode, ih, hshape]
    rfl

/-- Calls do not depend on whether warnings are asked for. -/
theorem call_withFallback (ctx : Context) (fallback : Fallback) :
    (ctx.withFallback fallback).call = ctx.call := by
  have heval : (ctx.withFallback fallback).eval = ctx.eval := by
    funext node
    exact congrFun (ctx.evalWithin_withFallback fallback ctx.maxNesting) node
  funext callee receiver args
  rw [call, heval]
  rfl

/-- Warnings do not matter to well-formedness. -/
theorem WellFormed.withFallback (h : ctx.WellFormed) (fallback : Fallback) :
    (ctx.withFallback fallback).WellFormed :=
  ⟨h.arena, h.bodies⟩

/-- What folding makes of a node does not depend on whether warnings are asked for. -/
theorem unroll_withFallback (ctx : Context) (fallback : Fallback) :
    (ctx.withFallback fallback).unroll = ctx.unroll := by
  have hcandidate : (ctx.withFallback fallback).isCandidate = ctx.isCandidate := rfl
  have hsite := siteOf_eq_of_call_eq hcandidate (ctx.call_withFallback fallback)
  have hvalue := valueOf_eq_of_siteOf_eq hsite
  funext folding node
  simp only [unroll, hsite, hvalue]
  rfl

/-- Folding the calls under a root reports no diagnostics unless warnings are asked for. If they
are, it reports the warnings about the broken calls, in the order of completion: the first of each
code and location, a hundred at most, stably sorted by location and code. Whether warnings are asked
for changes neither the sites nor the splices. -/
theorem WellFormed.diagnostics_of_broken_sites (h : ctx.WellFormed)
    (hroot : root.index < ctx.arena.size) :
    ∃ report, ctx.foldCalls root = .ok report ∧
      (ctx.policy.fallback = .silent → report.diagnostics = []) ∧
      (ctx.policy.fallback = .warn → ∃ warnings,
        List.Forall₂ ctx.WarnsAbout (report.sites.filter CallSite.isBroken) warnings ∧
        StablySorted Diagnostic.place ((warnings.eraseDupsBy Diagnostic.repeats).take 100)
          report.diagnostics) ∧
      ∀ fallback, ∃ other, (ctx.withFallback fallback).foldCalls root = .ok other ∧
        other.sites = report.sites ∧ other.splices = report.splices := by
  obtain ⟨folding, hfolding, -⟩ := h.exists_unique_folding
  refine ⟨_, h.foldCalls_eq_reportOf hfolding hroot, fun hsilent => ?_, fun hwarn => ?_,
    fun fallback => ?_⟩
  · exact diagnosticsOf_of_silent hsilent _
  · exact ⟨_, forall₂_warnsAbout hwarn fun site => h.exists_span_of_mem_sites hfolding hroot,
      Queue.flush_addAll_empty _⟩
  · have hfolding' : (ctx.withFallback fallback).unroll folding = folding := by
      rw [unroll_withFallback, hfolding]
    exact ⟨_, (h.withFallback fallback).foldCalls_eq_reportOf hfolding' hroot, rfl, rfl⟩

/-- Two functions that divide and one without a constant. Under the root stand, in this order, a
quotient that overflows, two divisions by zero at the same location, one at an earlier location, two
without a location, and a call that is inconclusive. -/
def brokenCalls : Context where
  symbols := SymbolTable.ofTexts ["a", "b", "div", "evalDivide", "evalRatio", "evalUnknown"]
  library := Library.ofList [{ name := ⟨4⟩, params := [⟨1⟩, ⟨2⟩], body := ⟨2⟩ },
    { name := ⟨5⟩, params := [⟨1⟩, ⟨2⟩], body := ⟨2⟩ }, { name := ⟨6⟩, params := [], body := ⟨0⟩ }]
  policy := { fallback := .warn }
  arena :=
    { nodes := #[.var ⟨1⟩, .var ⟨2⟩, .call ⟨3⟩ (some ⟨0⟩) ⟨0, 1⟩,
        .literal (.int Int64.minValue), .literal (.int (-1)), .literal (.int 0),
        .call ⟨4⟩ none ⟨1, 2⟩, .call ⟨4⟩ none ⟨3, 2⟩, .call ⟨4⟩ none ⟨3, 2⟩, .call ⟨4⟩ none ⟨3, 2⟩,
        .call ⟨4⟩ none ⟨3, 2⟩, .call ⟨5⟩ none ⟨3, 2⟩, .call ⟨6⟩ none ⟨0, 0⟩, .block ⟨0, 7⟩]
      spans := Array.replicate 6 Span.nowhere ++
        #[⟨5, 9⟩, ⟨5, 9⟩, ⟨5, 9⟩, ⟨1, 3⟩, ⟨0, 0⟩, ⟨0, 0⟩, ⟨2, 4⟩, ⟨0, 0⟩]
      args := #[⟨1⟩, ⟨3⟩, ⟨4⟩, ⟨4⟩, ⟨5⟩]
      stmts := #[.expr ⟨6⟩, .expr ⟨7⟩, .expr ⟨8⟩, .expr ⟨9⟩, .expr ⟨10⟩, .expr ⟨11⟩, .expr ⟨12⟩]
      arms := #[] }

/-- In `brokenCalls` children come before their parents, so it is well-formed. -/
theorem brokenCalls_wellFormed : brokenCalls.WellFormed :=
  .of_ordered (by decide) rfl rfl (by decide)

/-- Six of the seven calls are broken. -/
def brokenCallsSites : List CallSite := [
  { node := ⟨6⟩, callee := ⟨4⟩, stage := .leftUnfolded, cause := some (.overflow "div") },
  { node := ⟨7⟩, callee := ⟨4⟩, stage := .leftUnfolded, cause := some .divisionByZero },
  { node := ⟨8⟩, callee := ⟨4⟩, stage := .leftUnfolded, cause := some .divisionByZero },
  { node := ⟨9⟩, callee := ⟨4⟩, stage := .leftUnfolded, cause := some .divisionByZero },
  { node := ⟨10⟩, callee := ⟨4⟩, stage := .leftUnfolded, cause := some .divisionByZero },
  { node := ⟨11⟩, callee := ⟨5⟩, stage := .leftUnfolded, cause := some .divisionByZero },
  { node := ⟨12⟩, callee := ⟨6⟩, stage := .leftUnfolded,
    cause := some (.inconclusive (.unbound "a")) }]

/-- The warning about a division by zero in one of these calls. -/
def zeroWarning (callee : String) (span : Span) : Diagnostic where
  code := .divisionByZero
  severity := .warning
  message := "call to `" ++ callee ++ "` was left unfolded: division by zero"
  span := span
  notes := ["a constant call divides by zero",
    "the call is compiled unchanged and evaluated at runtime"]

/-- The warning about the quotient that overflows. -/
def overflowWarning : Diagnostic where
  code := .overflow
  severity := .warning
  message := "call to `evalDivide` was left unfolded: integer overflow in `div`"
  span := ⟨5, 9⟩
  notes := ["a constant call overflows a 64-bit integer",
    "the call is compiled unchanged and evaluated at runtime"]

/-- The warnings about the broken calls, in the order of the calls. -/
def brokenCallsWarnings : List Diagnostic :=
  [overflowWarning, zeroWarning "evalDivide" ⟨5, 9⟩, zeroWarning "evalDivide" ⟨5, 9⟩,
    zeroWarning "evalDivide" ⟨1, 3⟩, zeroWarning "evalDivide" Span.nowhere,
    zeroWarning "evalRatio" Span.nowhere]

/-- What folding reports about the calls: five warnings about the six broken ones, in the order of
their places. -/
def brokenCallsReport : Report where
  sites := brokenCallsSites
  splices := []
  diagnostics := [zeroWarning "evalDivide" Span.nowhere, zeroWarning "evalRatio" Span.nowhere,
    zeroWarning "evalDivide" ⟨1, 3⟩, zeroWarning "evalDivide" ⟨5, 9⟩, overflowWarning]

/-- The queue holds the warnings in the order of the calls, and sorts them when it is flushed. -/
theorem diagnosticsOf_brokenCalls :
    brokenCalls.diagnosticsOf brokenCallsSites = brokenCallsReport.diagnostics := by
  have hqueue : (Queue.empty.addAll (brokenCallsSites.filterMap brokenCalls.warning?)).2.toList =
      [overflowWarning, zeroWarning "evalDivide" ⟨5, 9⟩, zeroWarning "evalDivide" ⟨1, 3⟩,
        zeroWarning "evalDivide" Span.nowhere, zeroWarning "evalRatio" Span.nowhere] := by
    decide +kernel
  -- Sorting does not reduce, so the comparisons it makes are stated here.
  have hcode (callee : String) :
      Queue.comesBefore overflowWarning (zeroWarning callee ⟨5, 9⟩) = false := rfl
  have hplace (callee callee' : String) :
      Queue.comesBefore (zeroWarning callee ⟨5, 9⟩) (zeroWarning callee' ⟨1, 3⟩) = false := rfl
  have hnowhere (callee callee' : String) :
      Queue.comesBefore (zeroWarning callee ⟨1, 3⟩) (zeroWarning callee' Span.nowhere) = false :=
    rfl
  have htie (callee callee' : String) :
      Queue.comesBefore (zeroWarning callee Span.nowhere) (zeroWarning callee' Span.nowhere) =
        true := rfl
  rw [diagnosticsOf, Queue.flush, hqueue]
  simp [List.mergeSort, hcode, hplace, hnowhere, htie, brokenCallsReport]

/-- The warnings about the broken calls are these. -/
theorem eq_brokenCallsWarnings {warnings : List Diagnostic}
    (h : List.Forall₂ brokenCalls.WarnsAbout (brokenCallsReport.sites.filter CallSite.isBroken)
      warnings) : warnings = brokenCallsWarnings := by
  have hwarnings : (brokenCallsReport.sites.filter CallSite.isBroken).map brokenCalls.warning? =
      warnings.map some := by
    rw [← List.forall₂_eq_eq_eq, List.forall₂_map_left_iff, List.forall₂_map_right_iff]
    exact h.imp fun site warning hwarns => (warning?_eq_some_iff rfl).2 hwarns
  have hmap : (brokenCallsReport.sites.filter CallSite.isBroken).map brokenCalls.warning? =
      brokenCallsWarnings.map some := by decide +kernel
  exact (List.map_injective_iff.2 (Option.some_injective _)) (hwarnings.symm.trans hmap)

/-- Folding the calls of `brokenCalls` gives the report. -/
theorem foldCalls_brokenCalls : brokenCalls.foldCalls ⟨13⟩ = .ok brokenCallsReport := by
  obtain ⟨⟨sites, splices, diagnostics⟩, hreport⟩ :=
    brokenCalls_wellFormed.exists_report (show (⟨13⟩ : NodeId).index < _ by decide)
  have hrun : (brokenCalls.foldCalls ⟨13⟩).toOption.map
      (fun report => (report.sites, report.splices)) = some (brokenCallsSites, []) := by
    decide +kernel
  rw [hreport] at hrun
  obtain ⟨rfl, rfl⟩ := Prod.mk.inj (Option.some.inj hrun)
  have hdiagnostics : diagnostics = brokenCallsReport.diagnostics :=
    (diagnostics_of_foldCalls hreport).trans diagnosticsOf_brokenCalls
  rw [hreport, hdiagnostics]
  rfl

/-- Five warnings about the six broken calls are reported, and without warnings the sites and
splices are the same. -/
theorem diagnostics_brokenCalls :
    brokenCalls.WellFormed ∧ brokenCalls.policy.fallback = .warn ∧
    brokenCalls.foldCalls ⟨13⟩ = .ok brokenCallsReport ∧
    List.Forall₂ brokenCalls.WarnsAbout (brokenCallsReport.sites.filter CallSite.isBroken)
      brokenCallsWarnings ∧
    StablySorted Diagnostic.place ((brokenCallsWarnings.eraseDupsBy Diagnostic.repeats).take 100)
      brokenCallsReport.diagnostics ∧
    (brokenCalls.withFallback .silent).foldCalls ⟨13⟩ =
      .ok { brokenCallsReport with diagnostics := [] } := by
  obtain ⟨report, hreport, -, hwarn, hinert⟩ :=
    brokenCalls_wellFormed.diagnostics_of_broken_sites
      (show (⟨13⟩ : NodeId).index < brokenCalls.arena.size by decide)
  obtain rfl := Except.ok.inj (hreport.symm.trans foldCalls_brokenCalls)
  obtain ⟨warnings, hwarns, hsorted⟩ := hwarn rfl
  obtain rfl := eq_brokenCallsWarnings hwarns
  obtain ⟨⟨sites, splices, diagnostics⟩, hquiet, rfl, rfl⟩ := hinert .silent
  obtain rfl : diagnostics = [] :=
    (diagnostics_of_foldCalls hquiet).trans (diagnosticsOf_of_silent rfl _)
  exact ⟨brokenCalls_wellFormed, rfl, hreport, hwarns, hsorted, hquiet⟩

end Context

end ConstFold
