import ConstFold.Proofs.Relevance
import ConstFold.Proofs.Worklist

/-!
# The functions of a lowered program

The library of a lowered program has the functions that its root reaches, and every call in its
arena is one of a function that the root reaches or of one that is not eligible. So folding needs no
other functions: `Lowered.Mirrors.agrees_extended` says that more definitions make no difference,
unless one gives meaning to a call that would have been a call of an operator.

The main statement is `Host.lower_closure`: lowering asks for the functions that the root reaches,
each once, and defines those that the host has.
-/

set_option autoImplicit false

namespace ConstFold

open Eval

variable {ν : Type} {host : Host ν} {policy : Policy} {root : ν}

/-- Whether a function of a name is defined makes no difference to folding under a root: the root
does not reach it, and it is not an ineligible one that takes the place of an operator. -/
def Host.Unnoticed (host : Host ν) (policy : Policy) (root : ν) (name : String) : Prop :=
  ¬ host.Reaches policy root name ∧
    (policy.isEligible name = true ∨ Operator.ofName? name = none)

/-- The context of a lowered program with more definitions, and with a symbol table that may have
grown since. -/
def Lowered.extended (lowered : Lowered ν) (policy : Policy) (symbols : SymbolTable)
    (definitions : List Definition) : Context :=
  { lowered.context policy with
    symbols := symbols
    library := definitions.foldl Library.define lowered.library }

/-- The root reaches the eligible functions that are called in nodes it meets. -/
theorem Host.Meets.reaches {node : ν} {name : String} (h : host.Meets policy root node)
    (hcallee : (host.view node).freeCallee? = some name) (hname : policy.isEligible name = true) :
    host.Reaches policy root name := by
  rcases h with htree | ⟨caller, hcaller, hbody⟩
  · exact .call ⟨node, htree, hcallee, hname⟩
  · unfold Host.bodyNodes at hbody
    split at hbody
    · next found hfound =>
      exact .body hcaller hfound ⟨node, host.mem_postorder_iff.1 hbody, hcallee, hname⟩
    · cases hbody

namespace Lowered.Mirrors

variable {lowered : Lowered ν}

/-- A node of the arena has an origin, which the root meets and whose layer is that of the node. -/
theorem exists_origin (h : lowered.Mirrors host policy root) {id : NodeId}
    {shape : Shape Name NodeId} (hshape : lowered.arena.shape id = .ok shape) :
    ∃ node, lowered.origin? id = some node ∧ host.Meets policy root node ∧
      (host.view node).Matches lowered.symbols.Names
        (fun child number => lowered.origin? number = some child) shape := by
  have hid : id.index < lowered.origins.size := by
    rw [h.size]
    exact Arena.lt_size_of_shape hshape
  have horigin : lowered.origin? id = some lowered.origins[id.index] :=
    Array.getElem?_eq_getElem hid
  obtain ⟨shape', hshape', -, hmatches⟩ := h.layer horigin
  rw [hshape] at hshape'
  cases hshape'
  refine ⟨_, horigin, ?_, hmatches.imp (fun _ _ hname => hname) fun _ _ hchild => hchild.1⟩
  have hmem : lowered.origins[id.index] ∈ lowered.origins.toList := Array.getElem_mem_toList hid
  rw [h.origins] at hmem
  exact Host.meets_of_mem_lowers
    (fun name hname => (h.mem_asked_iff name).1 (Array.mem_def.2 hname)) hmem

/-- The root reaches the eligible functions that are called in the arena. -/
theorem reaches_of_call (h : lowered.Mirrors host policy root) {id : NodeId} {callee : Name}
    {args : List NodeId} (hshape : lowered.arena.shape id = .ok (.call callee none args))
    (hname : policy.isEligible (lowered.symbols.text callee) = true) :
    host.Reaches policy root (lowered.symbols.text callee) := by
  obtain ⟨node, -, hmeets, hmatches⟩ := h.exists_origin hshape
  cases hcallee : (host.view node).freeCallee? with
  | none =>
    have hrel := hmatches.freeCallee?
    rw [hcallee] at hrel
    cases hrel
  | some text =>
    have hrel := hmatches.freeCallee?
    rw [hcallee] at hrel
    cases hrel with
    | some hnames =>
      rw [hnames.text_eq] at hname ⊢
      exact hmeets.reaches hcallee hname

/-- The definitions are those of the functions that the root reaches. -/
theorem mem_keys_iff (h : lowered.Mirrors host policy root) (name : String) :
    name ∈ lowered.library.definitions.keys.map lowered.symbols.text ↔
      host.Reaches policy root name ∧ (host.function name).isSome = true := by
  rw [List.mem_map, Option.isSome_iff_exists, ← h.mem_asked_iff]
  constructor
  · rintro ⟨key, hkey, rfl⟩
    obtain ⟨definition, hget⟩ := Table.mem_keys_iff.1 hkey
    obtain ⟨rfl, text, hasked, found, hfound, hdescribes⟩ := h.defined key definition hget
    rw [hdescribes.name.text_eq]
    exact ⟨hasked, found, hfound⟩
  · rintro ⟨hasked, found, hfound⟩
    obtain ⟨definition, hget, hdescribes⟩ := h.complete name hasked found hfound
    exact ⟨definition.name, Table.mem_keys_iff.2 ⟨definition, hget⟩, hdescribes.name.text_eq⟩

/-- A function of the library is eligible. -/
theorem isEligible_of_get? (h : lowered.Mirrors host policy root) {callee : Name}
    {definition : Definition} (hget : lowered.library.get? callee = some definition) :
    policy.isEligible (lowered.symbols.text callee) = true := by
  obtain ⟨rfl, text, hasked, found, hfound, hdescribes⟩ := h.defined callee definition hget
  rw [hdescribes.name.text_eq]
  exact ((h.mem_asked_iff text).1 hasked).isEligible

section Extended

variable {symbols : SymbolTable} {definitions : List Definition}
variable (h : lowered.Mirrors host policy root)
variable (hsymbols : ∀ text name, lowered.symbols.Names text name → symbols.Names text name)
variable (hdefinitions : ∀ definition ∈ definitions,
  host.Unnoticed policy root (symbols.text definition.name))

include h hsymbols

/-- The names in the arena keep their texts. -/
theorem text_extended {id : NodeId} {shape : Shape Name NodeId}
    (hshape : lowered.arena.shape id = .ok shape) {name : Name} (hname : name ∈ shape.names) :
    symbols.text name = lowered.symbols.text name := by
  obtain ⟨node, -, -, hmatches⟩ := h.exists_origin hshape
  obtain ⟨text, -, hnames⟩ := exists_of_mem_forall₂ hmatches.names hname
  rw [hnames.text_eq, (hsymbols text name hnames).text_eq]

variable {id : NodeId} {callee : Name} {args : List NodeId}
variable (hshape : lowered.arena.shape id = .ok (.call callee none args))

include hdefinitions hshape

/-- An eligible callee is not defined again, because the root reaches it. -/
theorem get?_extended (heligible : policy.isEligible (lowered.symbols.text callee) = true) :
    (definitions.foldl Library.define lowered.library).get? callee =
      lowered.library.get? callee := by
  refine Library.get?_foldl_define _ fun definition hmem hname => ?_
  have hunreached := (hdefinitions definition hmem).1
  rw [hname, h.text_extended hsymbols hshape (List.mem_singleton_self _)] at hunreached
  exact hunreached (h.reaches_of_call hshape heligible)

/-- A call is a candidate with the further definitions exactly if it is one without them. -/
theorem isCandidate_extended :
    (lowered.extended policy symbols definitions).isCandidate callee false =
      (lowered.context policy).isCandidate callee false := by
  have htext := h.text_extended hsymbols hshape (List.mem_singleton_self callee)
  by_cases heligible : policy.isEligible (lowered.symbols.text callee) = true
  · have hget := h.get?_extended hsymbols hdefinitions hshape heligible
    unfold Library.get? at hget
    simp only [Context.isCandidate, Context.text, Lowered.extended, Lowered.context, htext,
      Library.contains, Table.contains, hget]
  · simp [Context.isCandidate, Context.text, Lowered.extended, Lowered.context, htext, heligible]

/-- A call is evaluated with the further definitions as it is without them. -/
theorem evalCall_extended (eval : NodeId → Eval Literal) (values : List Literal) :
    (lowered.extended policy symbols definitions).evalCall eval callee none values =
      (lowered.context policy).evalCall eval callee none values := by
  have htext := h.text_extended hsymbols hshape (List.mem_singleton_self callee)
  by_cases heligible : policy.isEligible (lowered.symbols.text callee) = true
  · have hget := h.get?_extended hsymbols hdefinitions hshape heligible
    simp only [Context.evalCall, Context.text, Lowered.extended, Lowered.context, htext, hget]
    cases hfound : lowered.library.get? callee with
    | none => rfl
    | some definition =>
      obtain ⟨-, text, -, found, -, hdescribes⟩ := h.defined callee definition hfound
      have hname : symbols.text definition.name = lowered.symbols.text definition.name := by
        rw [hdescribes.name.text_eq, (hsymbols _ _ hdescribes.name).text_eq]
      simp only [Context.evalBody, Context.text, hname]
  · have hnone : lowered.library.get? callee = none :=
      Option.eq_none_iff_forall_ne_some.2 fun definition hfound =>
        heligible (h.isEligible_of_get? hfound)
    simp only [Context.evalCall, Context.text, Lowered.extended, Lowered.context, htext, hnone]
    cases hfound : (definitions.foldl Library.define lowered.library).get? callee with
    | none => rfl
    | some definition =>
      -- The callee is no operator, so the call fails in the same way without the definition.
      have hoperator : Operator.ofName? (lowered.symbols.text callee) = none := by
        rcases Library.mem_of_get?_foldl_define hfound with hold | ⟨hmem, hname⟩
        · rw [hnone] at hold
          cases hold
        · have hunnoticed := (hdefinitions definition hmem).2
          rw [hname, htext] at hunnoticed
          exact hunnoticed.resolve_left heligible
      simp [heligible, Context.evalOperator, hoperator, ofResult, giveUp]

omit hshape in
/-- Definitions that go unnoticed make no difference to folding. -/
theorem agrees_extended :
    (lowered.context policy).Agrees (lowered.extended policy symbols definitions) where
  arena := rfl
  policy := rfl
  text hshape _ hname := h.text_extended hsymbols hshape hname
  evalCall hshape := h.evalCall_extended hsymbols hdefinitions hshape
  isCandidate hshape := h.isCandidate_extended hsymbols hdefinitions hshape

end Extended

end Lowered.Mirrors

/-- When the root reaches finitely many functions, lowering ends and fails only for lack of room.
Then it has asked for each function that the root reaches once, and for no other, and it has defined
those that the host has. Defining further eligible functions does not change how the calls under the
root fold. -/
theorem Host.lower_closure (host : Host ν) (policy : Policy) (root : ν) {symbols : SymbolTable}
    (hsymbols : symbols.Reachable) (hfinite : {name | host.Reaches policy root name}.Finite) :
    (host.Fits policy symbols root → ∃ lowered, host.lower policy symbols root = .ok lowered) ∧
    (∀ fault, host.lower policy symbols root = .error fault → fault.IsCapacity) ∧
    ∀ lowered, host.lower policy symbols root = .ok lowered →
      lowered.asked.toList.Nodup ∧
      (∀ name, name ∈ lowered.asked ↔ host.Reaches policy root name) ∧
      (∀ name, name ∈ lowered.library.definitions.keys.map lowered.symbols.text ↔
        host.Reaches policy root name ∧ (host.function name).isSome = true) ∧
      ∀ (symbols' : SymbolTable) (definitions : List Definition),
        (∀ text name, lowered.symbols.Names text name → symbols'.Names text name) →
        (∀ definition ∈ definitions, policy.isEligible (symbols'.text definition.name) = true ∧
          ¬ host.Reaches policy root (symbols'.text definition.name)) →
        ∃ report, (lowered.context policy).foldCalls lowered.root = .ok report ∧
          (lowered.extended policy symbols' definitions).foldCalls lowered.root = .ok report := by
  refine ⟨exists_lower_eq hsymbols, fun fault hfault => ?_, fun lowered hlower => ?_⟩
  · have hlower := lower_mirrors host policy root hsymbols
    rw [hfault] at hlower
    rcases hlower with ⟨hcapacity, -⟩ | ⟨-, hinfinite⟩
    · exact hcapacity
    · exact absurd hfinite hinfinite
  · have hmirrors := mirrors_of_lower hsymbols hlower
    refine ⟨hmirrors.nodup, hmirrors.mem_asked_iff, hmirrors.mem_keys_iff, ?_⟩
    intro symbols' definitions hnames hdefinitions
    have hagrees := hmirrors.agrees_extended hnames fun definition hmem =>
      ⟨(hdefinitions definition hmem).2, .inl (hdefinitions definition hmem).1⟩
    obtain ⟨report, hreport⟩ := exists_report_of_lower hlower policy
    exact ⟨report, hreport, by rw [hagrees.foldCalls_eq, hreport]⟩

/-- The names of the lowered listing, with that of a function which is not called. -/
def extraSymbols : SymbolTable :=
  SymbolTable.ofTexts ["evalOther", "evalDown", "n", "equals", "minus", "evalExtra"]

/-- The listing reaches two functions, of which it has one. Defining a third makes no difference to
the report. -/
theorem lower_closure_countdown :
    {name | countdownHost.Reaches {} (.entry 9) name}.Finite ∧
    countdownHost.lower {} SymbolTable.initial (.entry 9) = .ok countdownProgram ∧
    countdownProgram.asked.toList.Nodup ∧
    (∀ name, name ∈ countdownProgram.asked ↔ name ∈ ["evalDown", "evalOther"]) ∧
    countdownHost.Reaches {} (.entry 9) "evalDown" ∧
    countdownProgram.library.definitions.keys.map countdownProgram.symbols.text = ["evalDown"] ∧
    countdownProgram.symbols.intern "evalExtra" = .ok (⟨6⟩, extraSymbols) ∧
    (countdownProgram.context {}).foldCalls countdownProgram.root = .ok countdownReport ∧
    (countdownProgram.extended {} extraSymbols
      [{ name := ⟨6⟩, params := [], body := ⟨0⟩ }]).foldCalls countdownProgram.root =
        .ok countdownReport := by
  obtain ⟨-, -, hlowered⟩ := Host.lower_closure countdownHost {} (.entry 9) .initial
    fits_countdown.finite
  obtain ⟨hnodup, hasked, hkeys, hextended⟩ := hlowered countdownProgram lower_countdown
  have hintern : countdownProgram.symbols.intern "evalExtra" = .ok (⟨6⟩, extraSymbols) := by
    decide +kernel
  obtain ⟨-, hgains, hname⟩ :=
    (SymbolTable.reachable_ofTexts _).consistent.intern hintern
  have hkeysDown : countdownProgram.library.definitions.keys.map countdownProgram.symbols.text =
      ["evalDown"] := by decide +kernel
  obtain ⟨report, hreport, hsame⟩ := hextended extraSymbols
    [{ name := ⟨6⟩, params := [], body := ⟨0⟩ }] (fun text name hold => hgains.keeps hold) (by
      intro definition hmem
      rw [List.mem_singleton.1 hmem, hname.text_eq, reaches_countdown]
      exact ⟨by decide +kernel, by decide⟩)
  obtain rfl := Except.ok.inj (hreport.symm.trans foldCalls_countdown)
  exact ⟨fits_countdown.finite, lower_countdown, hnodup,
    fun name => (hasked name).trans (reaches_countdown name),
    ((hkeys "evalDown").1 (hkeysDown ▸ List.mem_singleton_self _)).1, hkeysDown, hintern,
    foldCalls_countdown, hsame⟩

end ConstFold
