import ConstFold.Proofs.Precedence

/-!
# What a host is told to replace

A host node may stand in several places of a tree, and each place is lowered to a node of its own.
What folding makes of an arena node depends only on the host node behind it
(`Lowered.Mirrors.value_eq_of_origin`), so the host is never told to replace one node by two
different constants.

The main statement is `Host.fold_replacements`: the replacements are those of the splices, one for
each and in the same order, and each is about a call in the tree of the root.
-/

set_option autoImplicit false

namespace ConstFold

variable {ν : Type}

/-- Two lists that correspond to the same list, place by place. -/
theorem map_eq_map_of_common {α β γ : Type} {R : α → β → Prop} {f : β → γ} {items : List α}
    {left right : List β} (hleft : List.Forall₂ R items left)
    (hright : List.Forall₂ R items right)
    (h : ∀ item ∈ items, ∀ a b, R item a → R item b → f a = f b) :
    left.map f = right.map f := by
  induction hleft generalizing right with
  | nil =>
    cases hright
    rfl
  | cons hfirst _ ih =>
    cases hright with
    | cons hfirst' hrest' =>
      rw [List.map_cons, List.map_cons, h _ List.mem_cons_self _ _ hfirst hfirst',
        ih hrest' fun item hitem => h item (List.mem_cons_of_mem _ hitem)]

/-- Items that may be missing and correspond to a common one have the same image, if what
corresponds to it has. -/
theorem option_map_eq_map_of_common {α β γ : Type} {R : α → β → Prop} {f : β → γ}
    {item : Option α} {left right : Option β} (hleft : Option.Rel R item left)
    (hright : Option.Rel R item right)
    (h : ∀ x ∈ item, ∀ a b, R x a → R x b → f a = f b) : left.map f = right.map f := by
  cases hleft with
  | none =>
    cases hright
    rfl
  | some hfirst =>
    cases hright with
    | some hfirst' => exact congrArg some (h _ rfl _ _ hfirst hfirst')

namespace Context

variable {ctx : Context} {folding : NodeId → Folding}

/-- The constant that a candidate folds to does not depend on where the candidate stands. -/
theorem value_settledSite_eq (ctx : Context) (node node' : NodeId) (callee : Name)
    (operands : Option (Option Literal × List Literal)) :
    (ctx.settledSite node callee operands).value =
      (ctx.settledSite node' callee operands).value := by
  unfold settledSite
  repeat' split
  all_goals simp_all

/-- A site never folds to unit. -/
theorem value_settledSite_ne_unit (ctx : Context) (node : NodeId) (callee : Name)
    (operands : Option (Option Literal × List Literal)) :
    (ctx.settledSite node callee operands).value ≠ some .unit := by
  unfold settledSite
  repeat' split
  all_goals try simp
  · next value _ hvalue =>
    rintro rfl
    cases hvalue

/-- Only calls fold, and never to the unit value. -/
theorem exists_call_of_foldedAt {node : NodeId} {value : Literal}
    (h : ctx.foldedAt folding node = some value) :
    value ≠ .unit ∧
      ∃ callee receiver args, ctx.arena.shape node = .ok (.call callee receiver args) := by
  obtain ⟨site, hsite, hvalue⟩ := Option.bind_eq_some_iff.1 h
  obtain ⟨callee, receiver, args, operands, hshape, rfl⟩ := exists_call_of_siteAt hsite
  refine ⟨?_, callee, receiver, args, hshape⟩
  rintro rfl
  exact ctx.value_settledSite_ne_unit node callee operands hvalue

/-- Two layers that match the same layer have the same constant, if their names are the same and the
children in the same places have the same constants. -/
theorem valueOf_eq_of_common {μ : Type} {onName : μ → Name → Prop} {onChild : ν → NodeId → Prop}
    {view : Shape μ ν} {shape shape' : Shape Name NodeId}
    (hmatches : view.Matches onName onChild shape) (hmatches' : view.Matches onName onChild shape')
    (hname : ∀ text a b, onName text a → onName text b → a = b)
    (hchild : ∀ child ∈ view.children, ∀ a b, onChild child a → onChild child b →
      (folding a).value = (folding b).value) (id id' : NodeId) :
    ctx.valueOf folding id shape = ctx.valueOf folding id' shape' := by
  cases hmatches with
  | call hcallee hreceiver hargs =>
    cases hmatches' with
    | call hcallee' hreceiver' hargs' =>
      obtain rfl := hname _ _ _ hcallee hcallee'
      have hreceivers := option_map_eq_map_of_common hreceiver hreceiver' fun child hmem =>
        hchild child (List.mem_append_left _ (Option.mem_toList.2 hmem))
      have hoperands := map_eq_map_of_common hargs hargs' fun child hmem =>
        hchild child (List.mem_append_right _ hmem)
      have hsome := congrArg Option.isSome hreceivers
      rw [Option.isSome_map, Option.isSome_map] at hsome
      simp only [valueOf, siteOf, hreceivers, hoperands, hsome]
      split
      · exact ctx.value_settledSite_eq id id' _ _
      · rfl
  | literal value =>
    cases hmatches'
    rfl
  | var _ =>
    cases hmatches'
    rfl
  | conditional _ _ =>
    cases hmatches'
    rfl
  | loop _ _ =>
    cases hmatches'
    rfl
  | block _ =>
    cases hmatches'
    rfl
  | ret _ =>
    cases hmatches'
    rfl
  | «foreign» _ =>
    cases hmatches'
    rfl

end Context

namespace Lowered.Mirrors

variable {host : Host ν} {policy : Policy} {root : ν} {lowered : Lowered ν}

/-- The origins of the nodes under the lowered root are the nodes of the host's tree. -/
theorem inTree_origin (h : lowered.Mirrors host policy root) {id : NodeId}
    (hid : lowered.arena.InTree lowered.root id) :
    ∃ node, lowered.origin? id = some node ∧ host.InTree root node := by
  induction hid using Relation.ReflTransGen.head_induction_on with
  | refl => exact ⟨root, h.origin_root, .refl⟩
  | head hchild _ ih =>
    obtain ⟨parent, hparent, hinTree⟩ := ih
    obtain ⟨shape, hshape, -, hmatches⟩ := h.layer hparent
    obtain ⟨child, hmem, hchild⟩ :=
      exists_of_mem_forall₂ hmatches.children (hchild.mem_children hshape)
    exact ⟨child, hchild.1, .head hmem hinTree⟩

/-- What folding makes of a node depends on its origin only. The induction is on the tree of the
host. -/
theorem value_eq_of_origin (h : lowered.Mirrors host policy root) {settings : Policy}
    {folding : NodeId → Folding} (hfolding : (lowered.context settings).unroll folding = folding)
    {node : ν} {id id' : NodeId} (horigin : lowered.origin? id = some node)
    (horigin' : lowered.origin? id' = some node) :
    (folding id).value = (folding id').value := by
  induction node using host.wellFounded_child.induction generalizing id id' with
  | _ node ih =>
    obtain ⟨shape, hshape, -, hmatches⟩ := h.layer horigin
    obtain ⟨shape', hshape', -, hmatches'⟩ := h.layer horigin'
    rw [← hfolding, (lowered.context settings).unroll_of_shape folding hshape,
      (lowered.context settings).unroll_of_shape folding hshape']
    have hboth : ∀ {id : NodeId} {shape : Shape Name NodeId},
        (host.view node).Matches lowered.symbols.Names
          (fun child number => lowered.origin? number = some child ∧ number.index < id.index)
          shape →
        (host.view node).Matches lowered.symbols.Names
          (fun child number => lowered.origin? number = some child) shape :=
      fun hmatches => hmatches.imp (fun _ _ hname => hname) fun _ _ hchild => hchild.1
    exact Context.valueOf_eq_of_common (hboth hmatches) (hboth hmatches')
      (fun _ _ _ => h.consistent.unique) (fun child hmem a b => ih child hmem) id id'

end Lowered.Mirrors

namespace Host

/-- Folding a host's tree turns the splices under the lowered root into replacements. -/
theorem fold_eq_of_lower {host : Host ν} {policy : Policy} {root : ν} {lowered : Lowered ν}
    {driven : Report} (hlower : host.lower policy SymbolTable.initial root = .ok lowered)
    (hdriven : (lowered.context policy).foldCalls lowered.root = .ok driven) :
    host.fold policy root = .ok {
      replacements := driven.splices.filterMap (host.replacement? lowered)
      diagnostics := driven.diagnostics } := by
  unfold Host.fold
  rw [hlower]
  simp only [bind, Except.bind, hdriven]
  rfl

/-- The replacement of a splice replaces the origin of its call by a literal of its value. -/
theorem replacement?_eq_some_iff {host : Host ν} {lowered : Lowered ν} {splice : Splice}
    {replacement : Replacement ν} :
    host.replacement? lowered splice = some replacement ↔
      lowered.origin? splice.call = some replacement.source ∧ replacement.value = splice.value ∧
        replacement.target = host.literalFor replacement.value replacement.source := by
  rw [replacement?, Option.map_eq_some_iff]
  constructor
  · rintro ⟨source, horigin, rfl⟩
    exact ⟨horigin, rfl, rfl⟩
  · rintro ⟨horigin, hvalue, htarget⟩
    refine ⟨replacement.source, horigin, ?_⟩
    rw [← hvalue, ← htarget]

/-- A spliced call was lowered from a call in the tree of the root. -/
theorem exists_source_of_splice {host : Host ν} {policy : Policy} {symbols : SymbolTable} {root : ν}
    {lowered : Lowered ν} (hsymbols : symbols.Reachable)
    (hlower : host.lower policy symbols root = .ok lowered) {settings : Policy}
    {folding : NodeId → Folding} (hfolding : (lowered.context settings).unroll folding = folding)
    {splice : Splice} (hsplice : splice ∈ (folding lowered.root).splices) :
    (∃ source, lowered.origin? splice.call = some source ∧ host.InTree root source ∧
      ∃ callee receiver args, host.view source = .call callee receiver args) ∧
    splice.value ≠ .unit ∧ (folding splice.call).value = some splice.value := by
  have hmirrors := mirrors_of_lower hsymbols hlower
  have hwellFormed := lower_wellFormed hlower settings
  obtain ⟨hexposed, hfolded⟩ :=
    (hwellFormed.mem_splices_iff hfolding (root_lt_size_of_lower hlower)).1 hsplice
  obtain ⟨source, hsource, hinTree⟩ := hmirrors.inTree_origin hexposed.inTree
  obtain ⟨hunit, callee, receiver, args, hcall⟩ := Context.exists_call_of_foldedAt hfolded
  refine ⟨⟨source, hsource, hinTree, ?_⟩, hunit, Context.value_of_foldedAt hfolding hfolded⟩
  obtain ⟨shape, hshape, -, hmatches⟩ := hmirrors.layer hsource
  obtain rfl := Except.ok.inj (hshape.symm.trans hcall)
  generalize host.view source = view at hmatches
  cases hmatches with
  | call _ _ _ => exact ⟨_, _, _, rfl⟩

/-- Programs that fit have a report. In a report there is one replacement for each splice under the
lowered root, in the same order. Each replaces a call in the tree of the root by the literal of a
constant other than unit, and a node that is replaced in several places is replaced by the same
constant in each. -/
theorem fold_replacements (host : Host ν) (policy : Policy) (root : ν) :
    (host.Fits policy SymbolTable.initial root → ∃ report, host.fold policy root = .ok report) ∧
    ∀ report, host.fold policy root = .ok report →
      ∃ lowered driven, host.lower policy SymbolTable.initial root = .ok lowered ∧
        (lowered.context policy).foldCalls lowered.root = .ok driven ∧
        report.diagnostics = driven.diagnostics ∧
        List.Forall₂ (fun splice replacement =>
          lowered.origin? splice.call = some replacement.source ∧
            replacement.value = splice.value) driven.splices report.replacements ∧
        (∀ replacement ∈ report.replacements,
          host.InTree root replacement.source ∧
          (∃ callee receiver args, host.view replacement.source = .call callee receiver args) ∧
          replacement.value ≠ .unit ∧
          replacement.target = host.literalFor replacement.value replacement.source) ∧
        ∀ first ∈ report.replacements, ∀ second ∈ report.replacements,
          first.source = second.source → first.value = second.value := by
  refine ⟨fun hfits => ?_, fun report h => ?_⟩
  · obtain ⟨lowered, hlower⟩ := exists_lower_eq .initial hfits
    obtain ⟨driven, hdriven⟩ := exists_report_of_lower hlower policy
    exact ⟨_, fold_eq_of_lower hlower hdriven⟩
  · obtain ⟨lowered, -, hlower, -⟩ := exists_splice_of_fold h
    have hwellFormed := lower_wellFormed hlower policy
    obtain ⟨folding, hfolding, -⟩ := hwellFormed.exists_unique_folding
    obtain ⟨driven, hdriven, -, hsplices⟩ :=
      hwellFormed.exists_foldCalls_eq hfolding (root_lt_size_of_lower hlower)
    have hsource := fun splice (hmem : splice ∈ driven.splices) =>
      exists_source_of_splice .initial hlower hfolding (hsplices ▸ hmem)
    obtain rfl := Except.ok.inj (h.symm.trans (fold_eq_of_lower hlower hdriven))
    have hall : ∀ splice ∈ driven.splices,
        ∃ replacement, host.replacement? lowered splice = some replacement := by
      intro splice hmem
      obtain ⟨⟨source, horigin, -⟩, -⟩ := hsource splice hmem
      exact ⟨{ source, target := host.literalFor splice.value source, value := splice.value },
        replacement?_eq_some_iff.2 ⟨horigin, rfl, rfl⟩⟩
    refine ⟨lowered, driven, hlower, hdriven, rfl, ?_, ?_, ?_⟩
    · refine (forall₂_filterMap hall).imp fun splice replacement hreplacement => ?_
      obtain ⟨horigin, hvalue, -⟩ := replacement?_eq_some_iff.1 hreplacement
      exact ⟨horigin, hvalue⟩
    · intro replacement hmem
      obtain ⟨splice, hsplice, hreplacement⟩ := List.mem_filterMap.1 hmem
      obtain ⟨horigin, hvalue, htarget⟩ := replacement?_eq_some_iff.1 hreplacement
      obtain ⟨⟨source, horigin', hinTree, hcall⟩, hunit, -⟩ := hsource splice hsplice
      obtain rfl := Option.some.inj (horigin'.symm.trans horigin)
      exact ⟨hinTree, hcall, hvalue ▸ hunit, htarget⟩
    · intro first hfirst second hsecond hsame
      obtain ⟨splice, hsplice, hreplacement⟩ := List.mem_filterMap.1 hfirst
      obtain ⟨splice', hsplice', hreplacement'⟩ := List.mem_filterMap.1 hsecond
      obtain ⟨horigin, hvalue, -⟩ := replacement?_eq_some_iff.1 hreplacement
      obtain ⟨horigin', hvalue', -⟩ := replacement?_eq_some_iff.1 hreplacement'
      rw [← hsame] at horigin'
      have heq := (mirrors_of_lower .initial hlower).value_eq_of_origin hfolding horigin horigin'
      rw [(hsource splice hsplice).2.2, (hsource splice' hsplice').2.2] at heq
      rw [hvalue, hvalue', Option.some.inj heq]

end Host

/-- One call that stands in two places is replaced in both. -/
theorem fold_replacements_countdown :
    countdownHost.Fits {} SymbolTable.initial (.entry 9) ∧
    countdownHost.fold {} (.entry 9) = .ok countdownReplacements ∧
    ∀ replacement ∈ countdownReplacements.replacements,
      countdownHost.InTree (.entry 9) replacement.source := by
  obtain ⟨hexists, hreplacements⟩ := Host.fold_replacements countdownHost {} (.entry 9)
  obtain ⟨report, hfold⟩ := hexists fits_countdown
  obtain ⟨-, -, -, -, -, -, hsources, -⟩ := hreplacements report hfold
  obtain rfl := Except.ok.inj (hfold.symm.trans fold_countdown)
  exact ⟨fits_countdown, fold_countdown, fun replacement hmem => (hsources replacement hmem).1⟩

end ConstFold
