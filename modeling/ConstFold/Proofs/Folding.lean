import ConstFold.Proofs.Nesting
import ConstFold.Proofs.Symbols
import ConstFold.Report

/-!
# The result of folding the calls under a node

What folding makes of a node can be said without a walk, by recursion over the children: the
constant of the node, the sites of the candidates under it in the order of their completion, and the
splices. `Context.unroll` is one step of this recursion, and what folding makes of the nodes of a
well-formed arena is its only fixed point (`Context.WellFormed.exists_unique_folding`).

The walk keeps one list of sites, one list of splices and one evaluator for all calls. The main
statement, `Context.WellFormed.foldCalls_eq_folding`, is that it comes to the same: every call is as
if made by an evaluator of its own, and dropping the splices recorded since a call was met drops
exactly those within the call.
-/

set_option autoImplicit false

namespace ConstFold

open Relation

/-- What folding makes of a node. -/
structure Folding where
  value : Option Literal := none
  sites : List CallSite := []
  splices : List Splice := []
  deriving DecidableEq, Repr, Inhabited

namespace Context

/-- The record of a candidate, called by a fresh evaluator if all operands are constants. -/
def settledSite (ctx : Context) (node : NodeId) (callee : Name)
    (operands : Option (Option Literal × List Literal)) : CallSite :=
  match operands with
  | none => { node, callee, stage := .leftUnfolded }
  | some (receiver, args) =>
    match ctx.call callee receiver args {} with
    | .ok (.ok value) _ =>
      if value.isSpliceable then { node, callee, stage := .folded, value := some value }
      else { node, callee, stage := .leftUnfolded }
    | .ok (.error failure) _ => { node, callee, stage := .leftUnfolded, cause := some failure }
    | .error _ _ => { node, callee, stage := .leftUnfolded }

/-- The site of a node that is a candidate, given what folding makes of its operands. -/
def siteOf (ctx : Context) (folding : NodeId → Folding) (node : NodeId) :
    Shape Name NodeId → Option CallSite
  | .call callee receiver args =>
    if ctx.isCandidate callee receiver.isSome then
      some (ctx.settledSite node callee
        (operands? (receiver.map fun child => (folding child).value)
          (args.map fun child => (folding child).value)))
    else
      none
  | _ => none

/-- The constant of a node: that of a literal, or the one that a candidate folds to. -/
def valueOf (ctx : Context) (folding : NodeId → Folding) (node : NodeId) :
    Shape Name NodeId → Option Literal
  | .literal value => some value
  | shape => (ctx.siteOf folding node shape).bind CallSite.value

/-- What folding makes of a node, given what it makes of the children. -/
def unroll (ctx : Context) (folding : NodeId → Folding) (node : NodeId) : Folding :=
  match ctx.arena.shape node with
  | .error _ => {}
  | .ok shape =>
    let site := ctx.siteOf folding node shape
    { value := ctx.valueOf folding node shape
      sites := shape.children.flatMap (fun child => (folding child).sites) ++ site.toList
      splices :=
        match site.bind CallSite.value with
        | some value => [{ call := node, value }]
        | none => shape.children.flatMap fun child => (folding child).splices }

/-- What folding makes of a stored node. The sites of the children come before its own, and a node
that folds is spliced instead of the splices within it. -/
theorem unroll_of_shape (ctx : Context) (folding : NodeId → Folding) {node : NodeId}
    {shape : Shape Name NodeId} (hshape : ctx.arena.shape node = .ok shape) :
    ctx.unroll folding node =
      { value := ctx.valueOf folding node shape
        sites := shape.children.flatMap (fun child => (folding child).sites) ++
          (ctx.siteOf folding node shape).toList
        splices :=
          match (ctx.siteOf folding node shape).bind CallSite.value with
          | some value => [{ call := node, value }]
          | none => shape.children.flatMap fun child => (folding child).splices } := by
  simp only [unroll, hshape]

/-! ## The fixed point -/

/-- The site of a node depends only on the constants of its children. -/
theorem siteOf_congr (ctx : Context) {folding folding' : NodeId → Folding} (node : NodeId)
    {shape : Shape Name NodeId}
    (h : ∀ child ∈ shape.children, (folding child).value = (folding' child).value) :
    ctx.siteOf folding node shape = ctx.siteOf folding' node shape := by
  cases shape with
  | call callee receiver args =>
    have hreceiver : (receiver.map fun child => (folding child).value) =
        receiver.map fun child => (folding' child).value := by
      cases receiver with
      | none => rfl
      | some child => simp [h child (by simp [Shape.children])]
    have hargs : (args.map fun child => (folding child).value) =
        args.map fun child => (folding' child).value :=
      List.map_congr_left fun child hchild => h child (by simp [Shape.children, hchild])
    simp only [siteOf, hreceiver, hargs]
  | literal value => rfl
  | var name => rfl
  | conditional arms otherwise => rfl
  | loop condition body => rfl
  | block stmts => rfl
  | ret value => rfl
  | «foreign» children => rfl

/-- The constant of a node depends only on the constants of its children. -/
theorem valueOf_congr (ctx : Context) {folding folding' : NodeId → Folding} (node : NodeId)
    {shape : Shape Name NodeId}
    (h : ∀ child ∈ shape.children, (folding child).value = (folding' child).value) :
    ctx.valueOf folding node shape = ctx.valueOf folding' node shape := by
  have hsite := ctx.siteOf_congr node h
  cases shape <;> simp only [valueOf, hsite]

/-- Contexts with the same candidates and the same calls have the same sites. -/
theorem siteOf_eq_of_call_eq {ctx ctx' : Context} (hcandidate : ctx.isCandidate = ctx'.isCandidate)
    (hcall : ctx.call = ctx'.call) : ctx.siteOf = ctx'.siteOf := by
  have hsettled : ctx.settledSite = ctx'.settledSite := by
    funext node callee operands
    unfold settledSite
    rw [hcall]
  funext folding node shape
  cases shape <;> simp only [siteOf, hsettled, hcandidate]

/-- Contexts that give the same sites give the same constants. -/
theorem valueOf_eq_of_siteOf_eq {ctx ctx' : Context} (hsite : ctx.siteOf = ctx'.siteOf) :
    ctx.valueOf = ctx'.valueOf := by
  funext folding node shape
  cases shape <;> simp only [valueOf, hsite]

/-- One step of the recursion depends on the children only. -/
theorem unroll_congr (ctx : Context) {folding folding' : NodeId → Folding} {node : NodeId}
    (h : ∀ child, ctx.arena.Child child node → folding child = folding' child) :
    ctx.unroll folding node = ctx.unroll folding' node := by
  cases hshape : ctx.arena.shape node with
  | error fault => simp only [unroll, hshape]
  | ok shape =>
    have hchildren : ∀ child ∈ shape.children, folding child = folding' child :=
      fun child hmem => h child ⟨shape, hshape, hmem⟩
    have hsites : shape.children.flatMap (fun child => (folding child).sites) =
        shape.children.flatMap fun child => (folding' child).sites :=
      List.flatMap_congr fun child hmem => by rw [hchildren child hmem]
    have hsplices : shape.children.flatMap (fun child => (folding child).splices) =
        shape.children.flatMap fun child => (folding' child).splices :=
      List.flatMap_congr fun child hmem => by rw [hchildren child hmem]
    have hvalues : ∀ child ∈ shape.children, (folding child).value = (folding' child).value :=
      fun child hmem => by rw [hchildren child hmem]
    rw [ctx.unroll_of_shape folding hshape, ctx.unroll_of_shape folding' hshape,
      ctx.siteOf_congr node hvalues, ctx.valueOf_congr node hvalues, hsites, hsplices]

/-- What folding makes of a node, for at most `nesting` nodes nested within each other. -/
def foldingWithin (ctx : Context) : Nat → NodeId → Folding
  | 0 => fun _ => {}
  | nesting + 1 => ctx.unroll (ctx.foldingWithin nesting)

variable {ctx : Context}

/-- Two nestings above the height of a node give the same. -/
theorem WellFormed.foldingWithin_eq (h : ctx.WellFormed) {node : NodeId} {left right : Nat}
    (hleft : ctx.arena.height node < left) (hright : ctx.arena.height node < right) :
    ctx.foldingWithin left node = ctx.foldingWithin right node := by
  induction left generalizing right node with
  | zero => omega
  | succ left ih =>
    obtain ⟨right, rfl⟩ : ∃ n, right = n + 1 := ⟨right - 1, by omega⟩
    refine ctx.unroll_congr fun child hchild => ?_
    have hheight := h.arena.height_lt hchild
    exact ih (by omega) (by omega)

/-- In a well-formed context exactly one recursion over nodes folds each given its children. -/
theorem WellFormed.exists_unique_folding (h : ctx.WellFormed) :
    ∃ folding, ctx.unroll folding = folding ∧
      ∀ other, ctx.unroll other = other → other = folding := by
  have hfixed : ctx.unroll (ctx.foldingWithin (ctx.arena.size + 1)) =
      ctx.foldingWithin (ctx.arena.size + 1) := by
    funext node
    by_cases hnode : node.index < ctx.arena.size
    · have hheight := h.arena.height_lt_size hnode
      have hsucc : ctx.unroll (ctx.foldingWithin (ctx.arena.size + 1)) node =
          ctx.foldingWithin (ctx.arena.size + 2) node := rfl
      rw [hsucc]
      exact h.foldingWithin_eq (by omega) (by omega)
    · refine ctx.unroll_congr fun child hchild => ?_
      obtain ⟨shape, hshape, _⟩ := hchild
      exact absurd (Arena.lt_size_of_shape hshape) hnode
  refine ⟨_, hfixed, fun other hother => ?_⟩
  funext node
  induction node using h.arena.wellFounded.induction with
  | _ node ih =>
    rw [← hother, ← hfixed]
    exact ctx.unroll_congr ih

end Context

/-! ## The walk -/

/-- A walk after more sites and splices have been recorded. -/
def Walk.extend (walk : Walk) (sites : List CallSite) (splices : List Splice) (queue : Queue) :
    Walk where
  sites := walk.sites ++ sites.toArray
  splices := walk.splices ++ splices.toArray
  queue := queue
  machine := walk.machine

/-- Extending a walk twice extends it once, by the first sites and splices and then the others. -/
theorem Walk.extend_extend (walk : Walk) (sites sites' : List CallSite)
    (splices splices' : List Splice) (queue queue' : Queue) :
    (walk.extend sites splices queue).extend sites' splices' queue' =
      walk.extend (sites ++ sites') (splices ++ splices') queue' := by
  simp [Walk.extend]

/-- Steps that give a value and record sites and splices, as long as the evaluator is fresh. They
leave it so. -/
def Walks {α : Type} (step : Walking α) (value : α) (sites : List CallSite)
    (splices : List Splice) : Prop :=
  ∀ walk : Walk, walk.machine = {} →
    ∃ queue, step walk = .ok value (walk.extend sites splices queue)

/-- A walk of two steps takes the second unless the first ends in a fault. -/
theorem walking_bind {α β : Type} (first : Walking α) (next : α → Walking β) (walk : Walk) :
    (first >>= next) walk =
      match first walk with
      | .ok value walk => next value walk
      | .error fault walk => .error fault walk := by
  show EStateM.bind first next walk = _
  unfold EStateM.bind
  cases first walk <;> rfl

namespace Walks

variable {α β γ : Type}

/-- A step that only gives a value records nothing. -/
theorem pure (value : α) : Walks (Pure.pure value) value [] [] :=
  fun walk _ => ⟨walk.queue, by simp [Walk.extend]; rfl⟩

/-- Two steps record what the first records and then what the second does. -/
theorem bind {first : Walking α} {value : α} {result : β} {sites sites' : List CallSite}
    {splices splices' : List Splice} (hfirst : Walks first value sites splices)
    (next : α → Walking β) (hnext : Walks (next value) result sites' splices') :
    Walks (first >>= next) result (sites ++ sites') (splices ++ splices') := by
  intro walk hwalk
  obtain ⟨queue, hrun⟩ := hfirst walk hwalk
  obtain ⟨queue', hrun'⟩ := hnext (walk.extend sites splices queue) hwalk
  refine ⟨queue', ?_⟩
  rw [walking_bind, hrun, ← Walk.extend_extend]
  exact hrun'

/-- Walking the nodes of a list in order. -/
theorem mapM {step : α → Walking β} {value : α → β} {sites : α → List CallSite}
    {splices : α → List Splice} (items : List α)
    (h : ∀ item ∈ items, Walks (step item) (value item) (sites item) (splices item)) :
    Walks (items.mapM step) (items.map value) (items.flatMap sites) (items.flatMap splices) := by
  induction items with
  | nil => exact pure []
  | cons item rest ih =>
    have hitem := h item List.mem_cons_self
    have hrest := ih fun other hother => h other (List.mem_cons_of_mem _ hother)
    have hboth := hitem.bind (fun head => rest.mapM step >>= fun tail => Pure.pure (head :: tail))
      (hrest.bind _ (pure (value item :: rest.map value)))
    rw [List.mapM_cons]
    simpa only [List.append_nil, List.map_cons, List.flatMap_cons] using hboth

/-- A step for an item that may be missing records what it records for the item. -/
theorem mapM_option {step : α → Walking β} {value : α → β} {sites : α → List CallSite}
    {splices : α → List Splice} (item : Option α)
    (h : ∀ x ∈ item, Walks (step x) (value x) (sites x) (splices x)) :
    Walks (item.mapM step) (item.map value) (item.toList.flatMap sites)
      (item.toList.flatMap splices) := by
  cases item with
  | none => exact pure none
  | some x =>
    have hvalue := (h x rfl).bind (fun head => Pure.pure (some head)) (pure (some (value x)))
    simpa using hvalue

/-- A step whose value is discarded records the same. -/
theorem discard {step : Walking α} {value : α} {sites : List CallSite} {splices : List Splice}
    (h : Walks step value sites splices) : Walks (Functor.discard step) () sites splices := by
  intro walk hwalk
  obtain ⟨queue, hrun⟩ := h walk hwalk
  refine ⟨queue, ?_⟩
  show EStateM.map (fun _ => ()) step walk = _
  rw [EStateM.map, hrun]

/-- Steps for the items of a list record what they record for each item, in order. -/
theorem forM {step : α → Walking β} {value : α → β} {sites : α → List CallSite}
    {splices : α → List Splice} (items : List α)
    (h : ∀ item ∈ items, Walks (step item) (value item) (sites item) (splices item)) :
    Walks (items.forM fun item => Functor.discard (step item)) () (items.flatMap sites)
      (items.flatMap splices) := by
  induction items with
  | nil => exact pure ()
  | cons item rest ih =>
    have hrest := ih fun other hother => h other (List.mem_cons_of_mem _ hother)
    exact (h item List.mem_cons_self).discard.bind _ hrest

end Walks

namespace Context

variable {ctx : Context}

/-- A call in a well-formed context has an outcome, the same in every environment, and leaves the
machine as it was. -/
theorem WellFormed.exists_call_eq (h : ctx.WellFormed) (callee : Name) (receiver : Option Literal)
    (args : List Literal) (depth : UInt32) :
    ∃ outcome, ∀ env, ctx.call callee receiver args ⟨env, depth⟩ = .ok outcome ⟨env, depth⟩ := by
  obtain ⟨result, -, hrun⟩ :=
    ctx.detached_evalCall ctx.maxNesting callee receiver args depth
  have hsound : ∀ fault, result ≠ .error (.crashed fault) := by
    rintro fault rfl
    have hcrash := h.not_crashes_evalCall callee receiver args ⟨Env.empty, depth⟩
    rw [eval_def] at hcrash
    exact hcrash ⟨fault, _, hrun Env.empty⟩
  obtain ⟨outcome, houtcome⟩ := exists_atBoundary_endingAt_eq hsound
  refine ⟨outcome, fun env => ?_⟩
  rw [call, settle_apply, eval_def, hrun env]
  exact houtcome ⟨env, depth⟩

/-- Reporting a failure at a stored node records no site and no splice. -/
theorem WellFormed.walks_reportFallback (h : ctx.WellFormed) {node : NodeId}
    (hnode : node.index < ctx.arena.size) (callee : Name) (failure : Failure) :
    Walks (ctx.reportFallback node callee failure) () [] [] := by
  obtain ⟨span, hspan⟩ := Arena.span_eq_ok h.arena.located hnode
  unfold reportFallback
  split
  · split
    · next code _ =>
      intro walk _
      refine ⟨(walk.queue.add (ctx.fallbackWarning callee failure code span)).2, ?_⟩
      simp only [hspan, Walk.extend, Array.append_empty]
      rfl
    · exact .pure ()
  · exact .pure ()

/-- A candidate with an operand that is not constant is left unfolded. -/
theorem foldCandidate_none (ctx : Context) (mark : Nat) (node : NodeId) (callee : Name)
    (walk : Walk) :
    ctx.foldCandidate mark node callee none walk = .ok none
      { walk with sites := walk.sites.push { node, callee, stage := .leftUnfolded } } := rfl

/-- A candidate whose call has a value is folded if the value can be spliced. Its splice takes the
place of those recorded since `mark`. -/
theorem foldCandidate_value {mark : Nat} {node : NodeId} {callee : Name}
    {receiver : Option Literal} {args : List Literal} {walk : Walk} {value : Literal}
    (hcall : ctx.call callee receiver args walk.machine = .ok (.ok value) walk.machine) :
    ctx.foldCandidate mark node callee (some (receiver, args)) walk =
      if value.isSpliceable then
        .ok (some value) { walk with
          sites := walk.sites.push { node, callee, stage := .folded, value := some value }
          splices := (walk.splices.take mark).push { call := node, value } }
      else
        .ok none { walk with
          sites := walk.sites.push { node, callee, stage := .leftUnfolded } } := by
  have hattempt : Walking.attempt (ctx.call callee receiver args) walk = .ok (.ok value) walk := by
    simp only [Walking.attempt, hcall]
  show (Walking.attempt (ctx.call callee receiver args) >>= _) walk = _
  rw [walking_bind, hattempt]
  by_cases hvalue : value.isSpliceable = true
  · simp only [hvalue, if_true]
    rfl
  · simp only [hvalue]
    rfl

/-- A candidate whose call fails is left unfolded with the failure as its cause, after it has been
reported. -/
theorem foldCandidate_failure {mark : Nat} {node : NodeId} {callee : Name}
    {receiver : Option Literal} {args : List Literal} {walk : Walk} {failure : Failure}
    (hcall : ctx.call callee receiver args walk.machine = .ok (.error failure) walk.machine)
    {queue : Queue}
    (hreport : ctx.reportFallback node callee failure walk = .ok () (walk.extend [] [] queue)) :
    ctx.foldCandidate mark node callee (some (receiver, args)) walk =
      .ok none { walk with
        sites := walk.sites.push { node, callee, stage := .leftUnfolded, cause := some failure }
        queue := queue } := by
  have hattempt :
      Walking.attempt (ctx.call callee receiver args) walk = .ok (.error failure) walk := by
    simp only [Walking.attempt, hcall]
  show (Walking.attempt (ctx.call callee receiver args) >>= _) walk = _
  rw [walking_bind, hattempt]
  show (ctx.reportFallback node callee failure >>= _) walk = _
  rw [walking_bind, hreport]
  simp only [Walk.extend, Array.append_empty]
  rfl

/-- Folding a candidate records its site, and its splice in place of those within it. -/
theorem WellFormed.exists_foldCandidate_eq (h : ctx.WellFormed) {node : NodeId}
    (hnode : node.index < ctx.arena.size) (callee : Name)
    (operands : Option (Option Literal × List Literal)) {walk : Walk} (hwalk : walk.machine = {})
    (sites : List CallSite) (splices : List Splice) (queue : Queue) :
    ∃ queue', ctx.foldCandidate walk.splices.size node callee operands
        (walk.extend sites splices queue) =
      .ok (ctx.settledSite node callee operands).value
        (walk.extend (sites ++ [ctx.settledSite node callee operands])
          (match (ctx.settledSite node callee operands).value with
            | some value => [{ call := node, value }]
            | none => splices) queue') := by
  cases operands with
  | none =>
    refine ⟨queue, ?_⟩
    rw [foldCandidate_none]
    simp [settledSite, Walk.extend]
  | some pair =>
    obtain ⟨receiver, args⟩ := pair
    obtain ⟨outcome, hcalls⟩ := h.exists_call_eq callee receiver args 0
    have hcall : ctx.call callee receiver args {} = .ok outcome {} := hcalls Env.empty
    have hcall' : ctx.call callee receiver args (walk.extend sites splices queue).machine =
        .ok outcome (walk.extend sites splices queue).machine := by
      have hmachine : (walk.extend sites splices queue).machine = {} := hwalk
      rw [hmachine, hcall]
    have hdrop : ((walk.splices ++ splices.toArray).take walk.splices.size) = walk.splices := by
      simp [Array.take_eq_extract]
    cases outcome with
    | ok value =>
      refine ⟨queue, ?_⟩
      rw [foldCandidate_value hcall']
      simp only [settledSite, hcall]
      by_cases hvalue : value.isSpliceable = true
      · simp [hvalue, Walk.extend, hdrop]
      · simp [hvalue, Walk.extend]
    | error failure =>
      obtain ⟨queue', hreport⟩ :=
        h.walks_reportFallback hnode callee failure (walk.extend sites splices queue) hwalk
      refine ⟨queue', ?_⟩
      rw [foldCandidate_failure hcall' hreport]
      simp [settledSite, hcall, Walk.extend]

/-- Walking a call: what was recorded since the call was met is what its operands recorded. -/
theorem WellFormed.walks_call (h : ctx.WellFormed) {node : NodeId}
    (hnode : node.index < ctx.arena.size) {folding : NodeId → Folding}
    {walkChild : NodeId → Walking (Option Literal)} (callee : Name) {receiver : Option NodeId}
    {args : List NodeId}
    (hchildren : ∀ child ∈ receiver.toList ++ args, Walks (walkChild child) (folding child).value
      (folding child).sites (folding child).splices) :
    Walks (ctx.walkShape walkChild node (.call callee receiver args))
      ((ctx.siteOf folding node (.call callee receiver args)).bind CallSite.value)
      ((receiver.toList ++ args).flatMap (fun child => (folding child).sites) ++
        (ctx.siteOf folding node (.call callee receiver args)).toList)
      (match (ctx.siteOf folding node (.call callee receiver args)).bind CallSite.value with
        | some value => [{ call := node, value }]
        | none => (receiver.toList ++ args).flatMap fun child => (folding child).splices) := by
  intro walk hwalk
  have hreceiver := Walks.mapM_option receiver fun child hchild =>
    hchildren child (List.mem_append_left _ (Option.mem_toList.2 hchild))
  have hargs := Walks.mapM args fun child hchild =>
    hchildren child (List.mem_append_right _ hchild)
  obtain ⟨queue, hrunReceiver⟩ := hreceiver walk hwalk
  obtain ⟨queue', hrunArgs⟩ := hargs (walk.extend _ _ queue) hwalk
  rw [Walk.extend_extend, ← List.flatMap_append, ← List.flatMap_append] at hrunArgs
  have hrun : ctx.walkShape walkChild node (.call callee receiver args) walk =
      (if ctx.isCandidate callee receiver.isSome then
        ctx.foldCandidate walk.splices.size node callee
          (operands? (receiver.map fun child => (folding child).value)
            (args.map fun child => (folding child).value))
      else pure none : Walking (Option Literal))
        (walk.extend ((receiver.toList ++ args).flatMap fun child => (folding child).sites)
          ((receiver.toList ++ args).flatMap fun child => (folding child).splices) queue') := by
    show (receiver.mapM walkChild >>= _) walk = _
    rw [walking_bind, hrunReceiver]
    show (args.mapM walkChild >>= _) _ = _
    rw [walking_bind, hrunArgs]
  rw [hrun]
  simp only [siteOf]
  by_cases hcandidate : ctx.isCandidate callee receiver.isSome = true
  · simp only [hcandidate, if_true]
    exact h.exists_foldCandidate_eq hnode callee _ hwalk _ _ queue'
  · refine ⟨queue', ?_⟩
    simp only [hcandidate, Bool.false_eq_true, if_false, Option.bind_none, Option.toList_none,
      List.append_nil]
    rfl

/-- Walking one layer records what folding makes of it, if walking the children does so. -/
theorem WellFormed.walks_walkShape (h : ctx.WellFormed) {node : NodeId} {shape : Shape Name NodeId}
    (hshape : ctx.arena.shape node = .ok shape) (folding : NodeId → Folding)
    (walkChild : NodeId → Walking (Option Literal))
    (hchildren : ∀ child ∈ shape.children, Walks (walkChild child) (folding child).value
      (folding child).sites (folding child).splices) :
    Walks (ctx.walkShape walkChild node shape) (ctx.unroll folding node).value
      (ctx.unroll folding node).sites (ctx.unroll folding node).splices := by
  have hplain := (Walks.forM shape.children hchildren).bind (fun _ => Pure.pure none)
    (.pure (none : Option Literal))
  rw [List.append_nil (shape.children.flatMap fun child => (folding child).splices)] at hplain
  rw [ctx.unroll_of_shape folding hshape]
  cases shape with
  | literal value => exact .pure (some value)
  | call callee receiver args =>
    exact h.walks_call (Arena.lt_size_of_shape hshape) callee hchildren
  | var name => exact hplain
  | conditional arms otherwise => exact hplain
  | loop condition body => exact hplain
  | block stmts => exact hplain
  | ret value => exact hplain
  | «foreign» children => exact hplain

/-- A walk records what folding makes of a node. The induction is on the nesting, which stays above
the height. -/
theorem WellFormed.walks_walkWithin (h : ctx.WellFormed) {folding : NodeId → Folding}
    (hfolding : ctx.unroll folding = folding) {nesting : Nat} {node : NodeId}
    (hnode : node.index < ctx.arena.size) (hnesting : ctx.arena.height node < nesting) :
    Walks (ctx.walkWithin nesting node) (folding node).value (folding node).sites
      (folding node).splices := by
  induction nesting generalizing node with
  | zero => omega
  | succ nesting ih =>
    obtain ⟨shape, hshape⟩ := h.arena.readable node hnode
    have hwalks := h.walks_walkShape hshape folding (ctx.walkWithin nesting) fun child hmem => by
      have hchild : ctx.arena.Child child node := ⟨shape, hshape, hmem⟩
      have hheight := h.arena.height_lt hchild
      exact ih (h.arena.inBounds hchild) (by omega)
    rw [hfolding] at hwalks
    have hstep : ctx.walkWithin (nesting + 1) node =
        ctx.walkShape (ctx.walkWithin nesting) node shape := by
      simp only [walkWithin, walkNode, hshape, Walking.ofResult, pure_bind]
    rw [hstep]
    exact hwalks

/-- In a well-formed context there is a report, with the sites and splices that folding makes of the
root. -/
theorem WellFormed.exists_foldCalls_eq (h : ctx.WellFormed) {folding : NodeId → Folding}
    (hfolding : ctx.unroll folding = folding) {root : NodeId}
    (hroot : root.index < ctx.arena.size) :
    ∃ report, ctx.foldCalls root = .ok report ∧
      report.sites = (folding root).sites ∧ report.splices = (folding root).splices := by
  have hheight := h.arena.height_lt_size hroot
  obtain ⟨queue, hrun⟩ := h.walks_walkWithin hfolding hroot (Nat.lt_succ_of_lt hheight) {} rfl
  refine ⟨⟨(folding root).sites, (folding root).splices, queue.flush.1⟩, ?_, rfl, rfl⟩
  simp [foldCalls, hrun, Walk.extend]

/-- In a well-formed context every stored root has a report. -/
theorem WellFormed.exists_report (h : ctx.WellFormed) {root : NodeId}
    (hroot : root.index < ctx.arena.size) : ∃ report, ctx.foldCalls root = .ok report := by
  obtain ⟨folding, hfolding, -⟩ := h.exists_unique_folding
  obtain ⟨report, hreport, -⟩ := h.exists_foldCalls_eq hfolding hroot
  exact ⟨report, hreport⟩

end Context

/-! ## Which calls are spliced -/

/-- A report that records a node as folded. -/
def Report.IsFolded (report : Report) (node : NodeId) : Prop :=
  ∃ site ∈ report.sites, site.node = node ∧ site.stage = .folded

namespace Arena

/-- The nodes to which a path leads from `root` without passing through a folded one. -/
inductive Exposed (arena : Arena) (folded : NodeId → Prop) (root : NodeId) : NodeId → Prop where
  | root : Exposed arena folded root root
  | child {parent child : NodeId} : Exposed arena folded root parent → ¬ folded parent →
      arena.Child child parent → Exposed arena folded root child

variable {arena : Arena} {folded folded' : NodeId → Prop} {root node : NodeId}

/-- An exposed node is in the tree of the root. -/
theorem Exposed.inTree (h : arena.Exposed folded root node) : arena.InTree root node := by
  induction h with
  | root => exact .refl
  | child _ _ hchild ih => exact ih.child hchild

/-- Which nodes are exposed depends only on the folded ones in the tree of the root. -/
theorem Exposed.congr (h : arena.Exposed folded root node)
    (hfolded : ∀ node, arena.InTree root node → (folded node ↔ folded' node)) :
    arena.Exposed folded' root node := by
  induction h with
  | root => exact .root
  | child hparent hnot hchild ih => exact ih.child ((hfolded _ hparent.inTree).not.1 hnot) hchild

/-- The path to an exposed node, split at its first step. -/
theorem exposed_iff : arena.Exposed folded root node ↔
    node = root ∨ (¬ folded root ∧ ∃ child, arena.Child child root ∧ arena.Exposed folded child node) := by
  constructor
  · intro h
    induction h with
    | root => exact .inl rfl
    | child _ hnot hchild ih =>
      rcases ih with rfl | ⟨hroot, first, hfirst, hrest⟩
      · exact .inr ⟨hnot, _, hchild, .root⟩
      · exact .inr ⟨hroot, first, hfirst, hrest.child hnot hchild⟩
  · rintro (rfl | ⟨hroot, first, hfirst, hrest⟩)
    · exact .root
    · induction hrest with
      | root => exact .child .root hroot hfirst
      | child _ hnot hchild ih => exact ih.child hnot hchild

end Arena

namespace Context

variable {ctx : Context} {folding : NodeId → Folding}

/-- The site of a node that is a candidate. -/
def siteAt (ctx : Context) (folding : NodeId → Folding) (node : NodeId) : Option CallSite :=
  match ctx.arena.shape node with
  | .ok shape => ctx.siteOf folding node shape
  | .error _ => none

/-- The constant that a candidate folds to. -/
def foldedAt (ctx : Context) (folding : NodeId → Folding) (node : NodeId) : Option Literal :=
  (ctx.siteAt folding node).bind CallSite.value

/-- A settled site is that of its node, and it is folded exactly if it has a value. -/
theorem settledSite_spec (ctx : Context) (node : NodeId) (callee : Name)
    (operands : Option (Option Literal × List Literal)) :
    (ctx.settledSite node callee operands).node = node ∧
    ((ctx.settledSite node callee operands).stage = .folded ↔
      ∃ value, (ctx.settledSite node callee operands).value = some value) := by
  unfold settledSite
  repeat' split
  all_goals simp

/-- Only candidates have a site: the record of calling them on the constants of their operands. -/
theorem siteAt_eq_some_iff {node : NodeId} {site : CallSite} :
    ctx.siteAt folding node = some site ↔
      ∃ callee receiver args, ctx.arena.shape node = .ok (.call callee receiver args) ∧
        ctx.isCandidate callee receiver.isSome = true ∧
        site = ctx.settledSite node callee
          (operands? (receiver.map fun child => (folding child).value)
            (args.map fun child => (folding child).value)) := by
  constructor
  · intro h
    unfold siteAt at h
    split at h
    · next shape hshape =>
      cases shape with
      | call callee receiver args =>
        simp only [siteOf, Option.ite_none_right_eq_some, Option.some.injEq] at h
        exact ⟨callee, receiver, args, hshape, h.1, h.2.symm⟩
      | literal value => cases h
      | var name => cases h
      | conditional arms otherwise => cases h
      | loop condition body => cases h
      | block stmts => cases h
      | ret value => cases h
      | «foreign» children => cases h
    · cases h
  · rintro ⟨callee, receiver, args, hshape, hcandidate, rfl⟩
    simp only [siteAt, hshape, siteOf, hcandidate, if_true]

/-- A node with a site is a call, and the site is that of the call settled on some operands. -/
theorem exists_call_of_siteAt {node : NodeId} {site : CallSite}
    (h : ctx.siteAt folding node = some site) :
    ∃ callee receiver args operands, ctx.arena.shape node = .ok (.call callee receiver args) ∧
      site = ctx.settledSite node callee operands := by
  obtain ⟨callee, receiver, args, hshape, -, hsite⟩ := siteAt_eq_some_iff.1 h
  exact ⟨callee, receiver, args, _, hshape, hsite⟩

/-- The site of a node names it, and it is folded exactly if it has a value. -/
theorem siteAt_spec {node : NodeId} {site : CallSite} (h : ctx.siteAt folding node = some site) :
    site.node = node ∧ (site.stage = .folded ↔ ∃ value, site.value = some value) := by
  obtain ⟨callee, -, -, operands, -, rfl⟩ := exists_call_of_siteAt h
  exact ctx.settledSite_spec node callee operands

/-- The sites of a node are those of its children in order, and then its own. -/
theorem sites_eq_of_shape (hfolding : ctx.unroll folding = folding) {node : NodeId}
    {shape : Shape Name NodeId} (hshape : ctx.arena.shape node = .ok shape) :
    (folding node).sites = shape.children.flatMap (fun child => (folding child).sites) ++
      (ctx.siteAt folding node).toList := by
  conv_lhs => rw [← hfolding]
  rw [ctx.unroll_of_shape folding hshape]
  simp only [siteAt, hshape]

/-- A node that folds is spliced alone, and any other has the splices of its children. -/
theorem splices_eq_of_shape (hfolding : ctx.unroll folding = folding) {node : NodeId}
    {shape : Shape Name NodeId} (hshape : ctx.arena.shape node = .ok shape) :
    (folding node).splices =
      match ctx.foldedAt folding node with
      | some value => [{ call := node, value }]
      | none => shape.children.flatMap fun child => (folding child).splices := by
  conv_lhs => rw [← hfolding]
  rw [ctx.unroll_of_shape folding hshape]
  simp only [foldedAt, siteAt, hshape]

/-- The sites are those of the candidates in the tree. -/
theorem WellFormed.mem_sites_iff (h : ctx.WellFormed) (hfolding : ctx.unroll folding = folding)
    {root : NodeId} (hroot : root.index < ctx.arena.size) {site : CallSite} :
    site ∈ (folding root).sites ↔
      ∃ node, ctx.arena.InTree root node ∧ ctx.siteAt folding node = some site := by
  induction root using h.arena.wellFounded.induction with
  | _ root ih =>
    obtain ⟨shape, hshape⟩ := h.arena.readable root hroot
    rw [sites_eq_of_shape hfolding hshape, List.mem_append, List.mem_flatMap, Option.mem_toList]
    constructor
    · rintro (⟨child, hmem, hsite⟩ | hsite)
      · have hchild : ctx.arena.Child child root := ⟨shape, hshape, hmem⟩
        obtain ⟨node, hnode, hsome⟩ := (ih child hchild (h.arena.inBounds hchild)).1 hsite
        exact ⟨node, hnode.tail hchild, hsome⟩
      · exact ⟨root, .refl, hsite⟩
    · rintro ⟨node, hnode, hsome⟩
      rcases hnode.cases_tail with rfl | ⟨child, hrest, hchild⟩
      · exact .inr hsome
      · exact .inl ⟨child, hchild.mem_children hshape,
          (ih child hchild (h.arena.inBounds hchild)).2 ⟨node, hrest, hsome⟩⟩

/-- The splices are the folded calls that no folded call covers. -/
theorem WellFormed.mem_splices_iff (h : ctx.WellFormed) (hfolding : ctx.unroll folding = folding)
    {root : NodeId} (hroot : root.index < ctx.arena.size) {splice : Splice} :
    splice ∈ (folding root).splices ↔
      ctx.arena.Exposed (fun node => ∃ value, ctx.foldedAt folding node = some value) root
        splice.call ∧
      ctx.foldedAt folding splice.call = some splice.value := by
  induction root using h.arena.wellFounded.induction with
  | _ root ih =>
    obtain ⟨shape, hshape⟩ := h.arena.readable root hroot
    rw [splices_eq_of_shape hfolding hshape, Arena.exposed_iff]
    cases hvalue : ctx.foldedAt folding root with
    | some value =>
      rw [List.mem_singleton]
      constructor
      · rintro rfl
        exact ⟨.inl rfl, hvalue⟩
      · rintro ⟨hroot | ⟨hnot, _⟩, hcall⟩
        · rw [hroot, hvalue] at hcall
          cases hcall
          rw [← hroot]
        · exact absurd ⟨value, rfl⟩ hnot
    | none =>
      rw [List.mem_flatMap]
      constructor
      · rintro ⟨child, hmem, hsplice⟩
        have hchild : ctx.arena.Child child root := ⟨shape, hshape, hmem⟩
        obtain ⟨hexposed, hcall⟩ := (ih child hchild (h.arena.inBounds hchild)).1 hsplice
        exact ⟨.inr ⟨by simp, child, hchild, hexposed⟩, hcall⟩
      · rintro ⟨hroot | ⟨-, child, hchild, hexposed⟩, hcall⟩
        · rw [hroot, hvalue] at hcall
          cases hcall
        · exact ⟨child, hchild.mem_children hshape,
            (ih child hchild (h.arena.inBounds hchild)).2 ⟨hexposed, hcall⟩⟩

/-- In a report of the walk, the folded nodes are the candidates that fold. -/
theorem WellFormed.isFolded_iff (h : ctx.WellFormed) (hfolding : ctx.unroll folding = folding)
    {root node : NodeId} (hroot : root.index < ctx.arena.size) (hnode : ctx.arena.InTree root node)
    {report : Report} (hsites : report.sites = (folding root).sites) :
    report.IsFolded node ↔ ∃ value, ctx.foldedAt folding node = some value := by
  constructor
  · rintro ⟨site, hmem, rfl, hstage⟩
    rw [hsites, h.mem_sites_iff hfolding hroot] at hmem
    obtain ⟨node, _, hsome⟩ := hmem
    obtain ⟨rfl, hfolded⟩ := siteAt_spec hsome
    obtain ⟨value, hvalue⟩ := hfolded.1 hstage
    exact ⟨value, by rw [foldedAt, hsome]; exact hvalue⟩
  · rintro ⟨value, hvalue⟩
    obtain ⟨site, hsome, hsite⟩ := Option.bind_eq_some_iff.1 hvalue
    obtain ⟨hname, hfolded⟩ := siteAt_spec hsome
    refine ⟨site, ?_, hname, hfolded.2 ⟨value, hsite⟩⟩
    rw [hsites]
    exact (h.mem_sites_iff hfolding hroot).2 ⟨node, hnode, hsome⟩

/-- The constant that a candidate folds to is in the report of the walk. -/
theorem WellFormed.foldedAt_eq_some_iff (h : ctx.WellFormed)
    (hfolding : ctx.unroll folding = folding) {root node : NodeId}
    (hroot : root.index < ctx.arena.size) (hnode : ctx.arena.InTree root node)
    {report : Report} (hsites : report.sites = (folding root).sites) {value : Literal} :
    ctx.foldedAt folding node = some value ↔
      ∃ site ∈ report.sites, site.node = node ∧ site.stage = .folded ∧
        site.value = some value := by
  rw [hsites]
  constructor
  · intro hvalue
    obtain ⟨site, hsome, hsite⟩ := Option.bind_eq_some_iff.1 hvalue
    obtain ⟨hname, hstage⟩ := siteAt_spec hsome
    exact ⟨site, (h.mem_sites_iff hfolding hroot).2 ⟨node, hnode, hsome⟩, hname,
      hstage.2 ⟨value, hsite⟩, hsite⟩
  · rintro ⟨site, hmem, rfl, -, hsite⟩
    obtain ⟨node, -, hsome⟩ := (h.mem_sites_iff hfolding hroot).1 hmem
    rw [(siteAt_spec hsome).1, foldedAt, hsome]
    exact hsite

/-- The splices of a report are the values of its folded sites at exposed nodes. -/
theorem WellFormed.mem_report_splices_iff (h : ctx.WellFormed)
    (hfolding : ctx.unroll folding = folding) {root : NodeId} (hroot : root.index < ctx.arena.size)
    {report : Report} (hsites : report.sites = (folding root).sites)
    (hsplices : report.splices = (folding root).splices) {splice : Splice} :
    splice ∈ report.splices ↔
      ctx.arena.Exposed report.IsFolded root splice.call ∧
      ∃ site ∈ report.sites, site.node = splice.call ∧ site.stage = .folded ∧
        site.value = some splice.value := by
  have hfolded : ∀ node, ctx.arena.InTree root node →
      (report.IsFolded node ↔ ∃ value, ctx.foldedAt folding node = some value) :=
    fun node hnode => h.isFolded_iff hfolding hroot hnode hsites
  rw [hsplices, h.mem_splices_iff hfolding hroot]
  constructor
  · rintro ⟨hexposed, hvalue⟩
    exact ⟨hexposed.congr fun node hnode => (hfolded node hnode).symm,
      (h.foldedAt_eq_some_iff hfolding hroot hexposed.inTree hsites).1 hvalue⟩
  · rintro ⟨hexposed, hsite⟩
    exact ⟨hexposed.congr hfolded,
      (h.foldedAt_eq_some_iff hfolding hroot hexposed.inTree hsites).2 hsite⟩

/-- Folding the calls under a root has a report, and the report is what the recursion over the
children says, with every call made by a fresh evaluator. In particular the splices are the folded
calls to which a path leads without passing through a folded one. -/
theorem WellFormed.foldCalls_eq_folding (h : ctx.WellFormed) :
    ∃ folding, ctx.unroll folding = folding ∧
      (∀ other, ctx.unroll other = other → other = folding) ∧
      ∀ root : NodeId, root.index < ctx.arena.size →
        ∃ report, ctx.foldCalls root = .ok report ∧
          report.sites = (folding root).sites ∧ report.splices = (folding root).splices ∧
          ∀ splice, splice ∈ report.splices ↔
            ctx.arena.Exposed report.IsFolded root splice.call ∧
            ∃ site ∈ report.sites, site.node = splice.call ∧ site.stage = .folded ∧
              site.value = some splice.value := by
  obtain ⟨folding, hfolding, hunique⟩ := h.exists_unique_folding
  refine ⟨folding, hfolding, hunique, fun root hroot => ?_⟩
  obtain ⟨report, hrun, hsites, hsplices⟩ := h.exists_foldCalls_eq hfolding hroot
  exact ⟨report, hrun, hsites, hsplices,
    fun splice => h.mem_report_splices_iff hfolding hroot hsites hsplices⟩

/-- A function that adds one, and a block with two calls of it within each other and two more of
which the inner one is called on an unknown variable. -/
def nestedCalls : Context where
  symbols := SymbolTable.ofTexts ["x", "y", "plus", "evalNext"]
  library := Library.ofList [{ name := ⟨4⟩, params := [⟨1⟩], body := ⟨2⟩ }]
  policy := {}
  arena :=
    { nodes := #[.var ⟨1⟩, .literal (.int 1), .call ⟨3⟩ (some ⟨0⟩) ⟨0, 1⟩,
        .call ⟨4⟩ none ⟨1, 1⟩, .call ⟨4⟩ none ⟨2, 1⟩,
        .var ⟨2⟩, .call ⟨4⟩ none ⟨3, 1⟩, .call ⟨4⟩ none ⟨4, 1⟩, .block ⟨0, 2⟩]
      spans := Array.replicate 9 Span.nowhere
      args := #[⟨1⟩, ⟨1⟩, ⟨3⟩, ⟨5⟩, ⟨6⟩]
      stmts := #[.expr ⟨4⟩, .expr ⟨7⟩]
      arms := #[] }

/-- In `nestedCalls` children come before their parents, so it is well-formed. -/
theorem nestedCalls_wellFormed : nestedCalls.WellFormed :=
  .of_ordered (by decide) rfl rfl (by decide)

/-- What folding reports about the block: the inner call of the first pair is folded with the outer
one, and the calls on the unknown variable stay. -/
def nestedCallsReport : Report where
  sites := [
    { node := ⟨3⟩, callee := ⟨4⟩, stage := .folded, value := some (.int 2) },
    { node := ⟨4⟩, callee := ⟨4⟩, stage := .folded, value := some (.int 3) },
    { node := ⟨6⟩, callee := ⟨4⟩, stage := .leftUnfolded },
    { node := ⟨7⟩, callee := ⟨4⟩, stage := .leftUnfolded }]
  splices := [{ call := ⟨4⟩, value := .int 3 }]
  diagnostics := []

/-- The recursion gives the sites and splices that are reported about the block. -/
theorem foldCalls_nestedCalls :
    nestedCalls.WellFormed ∧
    nestedCalls.foldCalls ⟨8⟩ = .ok nestedCallsReport ∧
    ∃ folding, nestedCalls.unroll folding = folding ∧
      (folding ⟨8⟩).sites = nestedCallsReport.sites ∧
      (folding ⟨8⟩).splices = nestedCallsReport.splices := by
  obtain ⟨folding, hfolding, -, hreports⟩ := nestedCalls_wellFormed.foldCalls_eq_folding
  obtain ⟨report, hrun, hsites, hsplices, -⟩ := hreports ⟨8⟩ (by decide)
  have hreport : nestedCalls.foldCalls ⟨8⟩ = .ok nestedCallsReport := by decide +kernel
  obtain rfl := Except.ok.inj (hrun.symm.trans hreport)
  exact ⟨nestedCalls_wellFormed, hreport, folding, hfolding, hsites.symm, hsplices.symm⟩

end Context

end ConstFold
