import ConstFold.Fault
import ConstFold.Shape
import Mathlib.Data.List.Forall2

/-!
# Runs that traverse a layer

Lowering replaces the names and children of a layer one after the other, and each replacement
changes the state and may fault. What such a run does is said by a `Regime`: an invariant of the
state, a relation between the states before and after that is graded by the work done, and what a
fault in the middle of the work means.

`Shape.Matches` relates two layers of one kind place by place. The main statement is
`Regime.Runs.traverse`: if replacing every name and every child follows the regime, so does
replacing them all, and the layer that comes out matches the one that went in.
-/

set_option autoImplicit false

namespace ConstFold

section Matches

variable {ν ν' α β : Type}

/-- Two statements of one kind whose names and expressions correspond. -/
inductive Stmt.Matches (onName : ν → ν' → Prop) (onChild : α → β → Prop) :
    Stmt ν α → Stmt ν' β → Prop where
  | expr {value : α} {value' : β} : onChild value value' →
      Matches onName onChild (.expr value) (.expr value')
  | declare {name : ν} {name' : ν'} {init : Option α} {init' : Option β} : onName name name' →
      Option.Rel onChild init init' →
      Matches onName onChild (.declare name init) (.declare name' init')
  | assign {name : ν} {name' : ν'} {value : α} {value' : β} : onName name name' →
      onChild value value' → Matches onName onChild (.assign name value) (.assign name' value')

/-- Two arms whose expressions correspond. -/
structure Arm.Matches (onChild : α → β → Prop) (arm : Arm α) (arm' : Arm β) : Prop where
  condition : onChild arm.condition arm'.condition
  result : onChild arm.result arm'.result

/-- Two layers of one kind whose names and children correspond. -/
inductive Shape.Matches (onName : ν → ν' → Prop) (onChild : α → β → Prop) :
    Shape ν α → Shape ν' β → Prop where
  | literal (value : Literal) : Matches onName onChild (.literal value) (.literal value)
  | var {name : ν} {name' : ν'} :
      onName name name' → Matches onName onChild (.var name) (.var name')
  | call {callee : ν} {callee' : ν'} {receiver : Option α} {receiver' : Option β} {args : List α}
      {args' : List β} : onName callee callee' → Option.Rel onChild receiver receiver' →
      List.Forall₂ onChild args args' →
      Matches onName onChild (.call callee receiver args) (.call callee' receiver' args')
  | conditional {arms : List (Arm α)} {arms' : List (Arm β)} {otherwise : Option α}
      {otherwise' : Option β} : List.Forall₂ (Arm.Matches onChild) arms arms' →
      Option.Rel onChild otherwise otherwise' →
      Matches onName onChild (.conditional arms otherwise) (.conditional arms' otherwise')
  | loop {condition body : α} {condition' body' : β} : onChild condition condition' →
      onChild body body' → Matches onName onChild (.loop condition body) (.loop condition' body')
  | block {stmts : List (Stmt ν α)} {stmts' : List (Stmt ν' β)} :
      List.Forall₂ (Stmt.Matches onName onChild) stmts stmts' →
      Matches onName onChild (.block stmts) (.block stmts')
  | ret {value : α} {value' : β} : onChild value value' →
      Matches onName onChild (.ret value) (.ret value')
  | foreign {children : List α} {children' : List β} : List.Forall₂ onChild children children' →
      Matches onName onChild (.foreign children) (.foreign children')

/-- The name of a statement. -/
def Stmt.name? : Stmt ν α → Option ν
  | .expr _ => none
  | .declare name _ => some name
  | .assign name _ => some name

/-- The names of a layer. -/
def Shape.names : Shape ν α → List ν
  | .var name => [name]
  | .call callee _ _ => [callee]
  | .block stmts => stmts.filterMap Stmt.name?
  | _ => []

variable {onName : ν → ν' → Prop} {onChild : α → β → Prop}

/-- Items that may be missing and correspond are corresponding lists. -/
theorem forall₂_toList {item : Option α} {item' : Option β} (h : Option.Rel onChild item item') :
    List.Forall₂ onChild item.toList item'.toList := by
  cases h with
  | some h => exact .cons h .nil
  | none => exact .nil

/-- Every item of a list corresponds to one of the other. -/
theorem exists_of_mem_forall₂ {items : List α} {items' : List β}
    (h : List.Forall₂ onChild items items') {item' : β} (hitem : item' ∈ items') :
    ∃ item ∈ items, onChild item item' := by
  induction h with
  | nil => cases hitem
  | cons hfirst _ ih =>
    rcases List.mem_cons.1 hitem with rfl | hrest
    · exact ⟨_, List.mem_cons_self, hfirst⟩
    · obtain ⟨item, hmem, hfound⟩ := ih hrest
      exact ⟨item, List.mem_cons_of_mem _ hmem, hfound⟩

/-- A partial function that is defined everywhere on a list drops none of its entries. -/
theorem forall₂_filterMap {f : α → Option β} {items : List α}
    (h : ∀ item ∈ items, ∃ result, f item = some result) :
    List.Forall₂ (fun item result => f item = some result) items (items.filterMap f) := by
  induction items with
  | nil => exact .nil
  | cons item rest ih =>
    obtain ⟨result, hresult⟩ := h item List.mem_cons_self
    rw [List.filterMap_cons_some hresult]
    exact .cons hresult (ih fun other hother => h other (List.mem_cons_of_mem _ hother))

/-- Lists that correspond under two functions have the same image. -/
theorem map_eq_map_of_forall₂ {γ : Type} {left : β → γ} {right : α → γ} {items : List α}
    {items' : List β} (h : List.Forall₂ (fun a b => left b = right a) items items') :
    items'.map left = items.map right := by
  induction h with
  | nil => rfl
  | cons h _ ih => rw [List.map_cons, List.map_cons, h, ih]

section Imp

variable {onName' : ν → ν' → Prop} {onChild' : α → β → Prop}
variable (hname : ∀ name name', onName name name' → onName' name name')
variable (hchild : ∀ child child', onChild child child' → onChild' child child')

include hchild

/-- Items that may be missing and correspond do so under a weaker relation. -/
theorem rel_imp {item : Option α} {item' : Option β} (h : Option.Rel onChild item item') :
    Option.Rel onChild' item item' := by
  cases h with
  | none => exact .none
  | some h => exact .some (hchild _ _ h)

/-- Arms that match do so under a weaker relation. -/
theorem Arm.Matches.imp {arm : Arm α} {arm' : Arm β} (h : arm.Matches onChild arm') :
    arm.Matches onChild' arm' :=
  ⟨hchild _ _ h.condition, hchild _ _ h.result⟩

include hname

/-- Statements that match do so under weaker relations. -/
theorem Stmt.Matches.imp {stmt : Stmt ν α} {stmt' : Stmt ν' β}
    (h : stmt.Matches onName onChild stmt') : stmt.Matches onName' onChild' stmt' := by
  cases h with
  | expr hvalue => exact .expr (hchild _ _ hvalue)
  | declare hdeclared hinit => exact .declare (hname _ _ hdeclared) (rel_imp hchild hinit)
  | assign hassigned hvalue => exact .assign (hname _ _ hassigned) (hchild _ _ hvalue)

/-- Layers that match do so under weaker relations. -/
theorem Shape.Matches.imp {shape : Shape ν α} {shape' : Shape ν' β}
    (h : shape.Matches onName onChild shape') : shape.Matches onName' onChild' shape' := by
  cases h with
  | literal value => exact .literal value
  | var hvar => exact .var (hname _ _ hvar)
  | call hcallee hreceiver hargs =>
    exact .call (hname _ _ hcallee) (rel_imp hchild hreceiver) (hargs.imp hchild)
  | conditional harms hotherwise =>
    exact .conditional (harms.imp fun _ _ harm => harm.imp hchild) (rel_imp hchild hotherwise)
  | loop hcondition hbody => exact .loop (hchild _ _ hcondition) (hchild _ _ hbody)
  | block hstmts => exact .block (hstmts.imp fun _ _ hstmt => hstmt.imp hname hchild)
  | ret hvalue => exact .ret (hchild _ _ hvalue)
  | «foreign» hchildren => exact .foreign (hchildren.imp hchild)

end Imp

/-- The expressions of statements that match correspond. -/
theorem Stmt.Matches.child? {stmt : Stmt ν α} {stmt' : Stmt ν' β}
    (h : stmt.Matches onName onChild stmt') : Option.Rel onChild stmt.child? stmt'.child? := by
  cases h with
  | expr hvalue => exact .some hvalue
  | declare _ hinit => exact hinit
  | assign _ hvalue => exact .some hvalue

/-- The names of statements that match correspond. -/
theorem Stmt.Matches.name? {stmt : Stmt ν α} {stmt' : Stmt ν' β}
    (h : stmt.Matches onName onChild stmt') : Option.Rel onName stmt.name? stmt'.name? := by
  cases h with
  | expr _ => exact .none
  | declare hname _ => exact .some hname
  | assign hname _ => exact .some hname

/-- The names of matching layers correspond. -/
theorem Shape.Matches.names {shape : Shape ν α} {shape' : Shape ν' β}
    (h : shape.Matches onName onChild shape') : List.Forall₂ onName shape.names shape'.names := by
  cases h with
  | var hname => exact .cons hname .nil
  | call hcallee _ _ => exact .cons hcallee .nil
  | block hstmts => exact List.rel_filterMap (fun _ _ hstmt => hstmt.name?) hstmts
  | literal value => exact .nil
  | conditional _ _ => exact .nil
  | loop _ _ => exact .nil
  | ret _ => exact .nil
  | «foreign» _ => exact .nil

/-- The children of matching layers correspond in the order in which they are met. -/
theorem Shape.Matches.children {shape : Shape ν α} {shape' : Shape ν' β}
    (h : shape.Matches onName onChild shape') :
    List.Forall₂ onChild shape.children shape'.children := by
  cases h with
  | literal value => exact .nil
  | var _ => exact .nil
  | call _ hreceiver hargs => exact List.rel_append (forall₂_toList hreceiver) hargs
  | conditional harms hotherwise =>
    refine List.rel_append (List.rel_flatMap harms ?_) (forall₂_toList hotherwise)
    intro arm arm' harm
    exact .cons harm.condition (.cons harm.result .nil)
  | loop hcondition hbody => exact .cons hcondition (.cons hbody .nil)
  | block hstmts => exact List.rel_filterMap (fun _ _ hstmt => hstmt.child?) hstmts
  | ret hvalue => exact .cons hvalue .nil
  | «foreign» hchildren => exact hchildren

/-- A layer has a free callee when a matching one has. -/
theorem Shape.Matches.freeCallee? {shape : Shape ν α} {shape' : Shape ν' β}
    (h : shape.Matches onName onChild shape') :
    Option.Rel onName shape.freeCallee? shape'.freeCallee? := by
  cases h with
  | call hcallee hreceiver hargs =>
    cases hreceiver with
    | some _ => exact .none
    | none => exact .some hcallee
  | literal value => exact .none
  | var _ => exact .none
  | conditional _ _ => exact .none
  | loop _ _ => exact .none
  | block _ => exact .none
  | ret _ => exact .none
  | «foreign» _ => exact .none

section Traverse

variable {ε γ : Type} {onName : ν → ν' → Prop} {text : ν' → ν} {run : β → Except ε γ}
variable {value : α → γ}

/-- An item that may be missing is read back as what corresponds to it. -/
theorem mapM_option_eq_ok {item : Option α} {item' : Option β}
    (h : Option.Rel (fun a b => run b = .ok (value a)) item item') :
    item'.mapM run = .ok (item.map value) := by
  cases h with
  | none => rfl
  | some h =>
    show (run _ >>= fun result => pure (some result)) = _
    rw [h]
    rfl

/-- A list is read back as what corresponds to its items. -/
theorem mapM_eq_ok {δ δ' : Type} {step : β → Except ε δ} {result : δ' → δ} {items : List δ'}
    {items' : List β} (h : List.Forall₂ (fun a b => step b = .ok (result a)) items items') :
    items'.mapM step = .ok (items.map result) := by
  induction h with
  | nil => rfl
  | cons h _ ih =>
    rw [List.mapM_cons, h]
    show (List.mapM step _ >>= fun tail => pure (_ :: tail)) = _
    rw [ih]
    rfl

/-- Reading the children of a layer gives the matching layer, when reading a child gives what
corresponds to it. -/
theorem Shape.Matches.traverse_eq_ok {shape : Shape ν α} {shape' : Shape ν' β}
    (h : shape.Matches (fun name name' => text name' = name)
      (fun child child' => run child' = .ok (value child)) shape') :
    shape'.traverse (fun name => pure (text name)) run = .ok (shape.map id value) := by
  cases h with
  | literal literal => rfl
  | var hname =>
    rw [← hname]
    rfl
  | call hcallee hreceiver hargs =>
    simp only [Shape.traverse, mapM_option_eq_ok hreceiver, mapM_eq_ok hargs, hcallee]
    rfl
  | conditional harms hotherwise =>
    have harms' : List.Forall₂ (fun arm arm' => Arm.traverse run arm' = .ok (Arm.map value arm))
        _ _ := harms.imp fun arm arm' harm => by
      simp only [Arm.traverse, harm.condition, harm.result]
      rfl
    simp only [Shape.traverse, mapM_option_eq_ok hotherwise, mapM_eq_ok harms']
    rfl
  | loop hcondition hbody =>
    simp only [Shape.traverse, hcondition, hbody]
    rfl
  | block hstmts =>
    have hstmts' : List.Forall₂ (fun stmt stmt' =>
        Stmt.traverse (fun name => pure (text name)) run stmt' =
          .ok (Stmt.map id value stmt)) _ _ :=
      hstmts.imp fun stmt stmt' hstmt => by
        cases hstmt with
        | expr hvalue =>
          simp only [Stmt.traverse, hvalue]
          rfl
        | declare hname hinit =>
          simp only [Stmt.traverse, mapM_option_eq_ok hinit, hname]
          rfl
        | assign hname hvalue =>
          simp only [Stmt.traverse, hvalue, hname]
          rfl
    simp only [Shape.traverse, mapM_eq_ok hstmts']
    rfl
  | ret hvalue =>
    simp only [Shape.traverse, hvalue]
    rfl
  | «foreign» hchildren =>
    simp only [Shape.traverse, mapM_eq_ok hchildren]
    rfl

end Traverse

end Matches

/-! ## Runs -/

/-- What runs on a state do: what holds before and after them, how the state after a piece of work
has grown out of the one before, and what a fault within a piece of work says about the state
before it. -/
structure Regime (σ μ : Type) where
  holds : σ → Prop
  grows : List μ → σ → σ → Prop
  breaks : List μ → σ → Fault → Prop
  grows_refl : ∀ state, grows [] state state
  grows_trans : ∀ {work work' : List μ} {first second third : σ}, grows work first second →
    grows work' second third → grows (work ++ work') first third
  breaks_later : ∀ {work work' : List μ} {first second : σ} {fault : Fault},
    grows work first second → breaks work' second fault → breaks (work ++ work') first fault
  breaks_more : ∀ {work : List μ} (work' : List μ) {state : σ} {fault : Fault},
    breaks work state fault → breaks (work ++ work') state fault

namespace Regime

variable {σ μ : Type} (regime : Regime σ μ) {α β γ : Type}

/-- From a given state a run follows a regime while it does a piece of work, and its value is good
in the state it leaves. -/
def RunsFrom (before : σ) (work : List μ) (step : EStateM Fault σ α) (good : σ → α → Prop) : Prop :=
  match step before with
  | .ok value after => regime.holds after ∧ regime.grows work before after ∧ good after value
  | .error fault _ => regime.breaks work before fault

/-- A run follows a regime from every state in which the invariant holds. -/
def Runs (work : List μ) (step : EStateM Fault σ α) (good : σ → α → Prop) : Prop :=
  ∀ before, regime.holds before → regime.RunsFrom before work step good

/-- What is good in a state stays good when the state grows. -/
def Stable (good : σ → α → Prop) : Prop :=
  ∀ ⦃work : List μ⦄ ⦃before after : σ⦄ ⦃value : α⦄,
    regime.grows work before after → good before value → good after value

variable {regime}

/-- Lists that correspond stay so if each of their items does. -/
theorem Stable.forall₂ {good : σ → α → β → Prop}
    (h : ∀ item, regime.Stable fun state => good state item) (items : List α) :
    regime.Stable fun state => List.Forall₂ (good state) items :=
  fun _ _ _ _ hgrows hgood => hgood.imp fun item _ hitem => h item hgrows hitem

/-- Items that may be missing and correspond stay so if each of them does. -/
theorem Stable.rel {good : σ → α → β → Prop}
    (h : ∀ item, regime.Stable fun state => good state item) (item : Option α) :
    regime.Stable fun state => Option.Rel (good state) item :=
  fun _ _ _ _ hgrows hgood => rel_imp (fun item _ => h item hgrows) hgood

/-- Arms that match stay so if their expressions do. -/
theorem Stable.arm {good : σ → α → β → Prop}
    (h : ∀ child, regime.Stable fun state => good state child) (arm : Arm α) :
    regime.Stable fun state => Arm.Matches (good state) arm :=
  fun _ _ _ _ hgrows hgood => hgood.imp fun child _ => h child hgrows

/-- Statements that match stay so if their names and their expressions do. -/
theorem Stable.stmt {ν ν' : Type} {goodName : σ → ν → ν' → Prop} {good : σ → α → β → Prop}
    (hnames : ∀ name, regime.Stable fun state => goodName state name)
    (h : ∀ child, regime.Stable fun state => good state child) (stmt : Stmt ν α) :
    regime.Stable fun state => Stmt.Matches (goodName state) (good state) stmt :=
  fun _ _ _ _ hgrows hgood =>
    hgood.imp (fun name _ => hnames name hgrows) (fun child _ => h child hgrows)

variable {work work' : List μ} {good : σ → α → Prop}

/-- Two pieces of work one after the other. The second starts where the value of the first is good,
and the value is still good after it. -/
theorem RunsFrom.bind {before : σ} {first : EStateM Fault σ α} {next : α → EStateM Fault σ β}
    {good' : α → σ → β → Prop} (hfirst : regime.RunsFrom before work first good)
    (hstable : regime.Stable good)
    (hnext : ∀ value middle, regime.holds middle → good middle value →
      regime.RunsFrom middle work' (next value) (good' value)) :
    regime.RunsFrom before (work ++ work') (first >>= next)
      fun state result => ∃ value, good state value ∧ good' value state result := by
  unfold RunsFrom at hfirst ⊢
  show match EStateM.bind first next before with
    | .ok value after => _
    | .error fault _ => _
  unfold EStateM.bind
  cases hstep : first before with
  | error fault middle =>
    rw [hstep] at hfirst
    exact regime.breaks_more work' hfirst
  | ok value middle =>
    rw [hstep] at hfirst
    obtain ⟨hmiddle, hgrows, hgood⟩ := hfirst
    have hsecond := hnext value middle hmiddle hgood
    unfold RunsFrom at hsecond
    dsimp only
    cases hstep' : next value middle with
    | error fault after =>
      rw [hstep'] at hsecond
      exact regime.breaks_later hgrows hsecond
    | ok result after =>
      rw [hstep'] at hsecond
      obtain ⟨hafter, hgrows', hgood'⟩ := hsecond
      exact ⟨hafter, regime.grows_trans hgrows hgrows', value, hstable hgrows' hgood, hgood'⟩

/-- What is good of a value in a state that has grown may be put in other words. -/
theorem RunsFrom.imp {before : σ} {step : EStateM Fault σ α} {good' : σ → α → Prop}
    (h : regime.RunsFrom before work step good)
    (himp : ∀ state value, regime.grows work before state → good state value →
      good' state value) :
    regime.RunsFrom before work step good' := by
  unfold RunsFrom at h ⊢
  cases hstep : step before with
  | error fault after =>
    rw [hstep] at h
    exact h
  | ok value after =>
    rw [hstep] at h
    exact ⟨h.1, h.2.1, himp after value h.2.1 h.2.2⟩

namespace Runs

/-- A run that ends without a fault keeps the invariant, and the state has grown by the work. -/
theorem of_eq_ok {step : EStateM Fault σ α} {before after : σ} {value : α}
    (h : regime.Runs work step good) (hbefore : regime.holds before)
    (hrun : step before = .ok value after) :
    regime.holds after ∧ regime.grows work before after ∧ good after value := by
  have hfrom := h before hbefore
  unfold RunsFrom at hfrom
  rw [hrun] at hfrom
  exact hfrom

/-- Giving a value does no work. -/
theorem pure (value : α) : regime.Runs [] (Pure.pure value) fun _ result => result = value :=
  fun before hbefore => ⟨hbefore, regime.grows_refl before, rfl⟩

/-- A run whose value is good in one sense is so in any weaker one. -/
theorem imp {step : EStateM Fault σ α} {good' : σ → α → Prop} (h : regime.Runs work step good)
    (himp : ∀ state value, good state value → good' state value) : regime.Runs work step good' :=
  fun before hbefore => (h before hbefore).imp fun state value _ => himp state value

/-- Two runs do the work of the first and then that of the second. -/
theorem bind {first : EStateM Fault σ α} {next : α → EStateM Fault σ β} {good' : α → σ → β → Prop}
    (hfirst : regime.Runs work first good) (hstable : regime.Stable good)
    (hnext : ∀ value, regime.Runs work' (next value) (good' value)) :
    regime.Runs (work ++ work') (first >>= next)
      fun state result => ∃ value, good state value ∧ good' value state result :=
  fun before hbefore => (hfirst before hbefore).bind hstable
    fun value middle hmiddle _ => hnext value middle hmiddle

/-- Ending a run with a value made of what it gave. -/
theorem map {step : EStateM Fault σ α} (h : regime.Runs work step good)
    (hstable : regime.Stable good) (result : α → β) :
    regime.Runs work (step >>= fun value => Pure.pure (result value))
      fun state made => ∃ value, good state value ∧ made = result value := by
  have hpure : ∀ value, regime.Runs [] (Pure.pure (result value))
      fun _ made => made = result value := fun value => pure (result value)
  simpa only [List.append_nil] using h.bind hstable hpure

variable {steps : α → EStateM Fault σ β} {works : α → List μ} {goods : σ → α → β → Prop}

/-- Runs for the items of a list do the work of each, and their values correspond to the items. -/
theorem mapM (hstable : ∀ item, regime.Stable fun state => goods state item) (items : List α)
    (h : ∀ item ∈ items, regime.Runs (works item) (steps item) fun state => goods state item) :
    regime.Runs (items.flatMap works) (items.mapM steps)
      fun state values => List.Forall₂ (goods state) items values := by
  induction items with
  | nil =>
    have hnil : regime.Runs [] (Pure.pure []) fun _ values => values = ([] : List β) := pure []
    exact hnil.imp fun _ _ heq => heq ▸ .nil
  | cons item rest ih =>
    have hitem := h item List.mem_cons_self
    have hrest := ih fun other hother => h other (List.mem_cons_of_mem _ hother)
    rw [List.mapM_cons, List.flatMap_cons]
    refine (hitem.bind (hstable item) fun value =>
      hrest.map (Stable.forall₂ hstable rest) fun values => value :: values).imp ?_
    rintro state result ⟨value, hvalue, values, hvalues, rfl⟩
    exact .cons hvalue hvalues

/-- A run for an item that may be missing does the work of the item. -/
theorem mapM_option (hstable : ∀ item, regime.Stable fun state => goods state item)
    (item : Option α) (h : ∀ x ∈ item, regime.Runs (works x) (steps x) fun state => goods state x) :
    regime.Runs (item.toList.flatMap works) (item.mapM steps)
      fun state value => Option.Rel (goods state) item value := by
  cases item with
  | none =>
    have hnone : regime.Runs [] (Pure.pure none) fun _ value => value = (none : Option β) :=
      pure none
    exact hnone.imp fun _ _ heq => heq ▸ .none
  | some x =>
    rw [Option.toList_some, List.flatMap_singleton]
    refine ((h x rfl).map (hstable x) some).imp ?_
    rintro state result ⟨value, hvalue, rfl⟩
    exact .some hvalue

section Layer

variable {ν ν' : Type} {onName : ν → EStateM Fault σ ν'} {onChild : α → EStateM Fault σ β}
variable {goodName : σ → ν → ν' → Prop} {goodChild : σ → α → β → Prop}

/-- Traversing an arm does the work of its condition and then that of its result. -/
theorem arm (hstable : ∀ child, regime.Stable fun state => goodChild state child) {arm : Arm α}
    (hchild : ∀ child ∈ arm.children,
      regime.Runs (works child) (onChild child) fun state => goodChild state child) :
    regime.Runs (arm.children.flatMap works) (arm.traverse onChild)
      fun state lowered => arm.Matches (goodChild state) lowered := by
  have hcondition := hchild arm.condition (by simp [Arm.children])
  have hresult := hchild arm.result (by simp [Arm.children])
  have hrun := hcondition.bind (hstable _) fun condition =>
    hresult.map (hstable _) fun result => ({ condition, result } : Arm β)
  simp only [Arm.children, List.flatMap_cons, List.flatMap_nil, List.append_nil]
  refine hrun.imp ?_
  rintro state lowered ⟨condition, hcondition, result, hresult, rfl⟩
  exact ⟨hcondition, hresult⟩

/-- Traversing a statement does the work of its right-hand side. -/
theorem stmt (hnames : ∀ name, regime.Stable fun state => goodName state name)
    (hchildren : ∀ child, regime.Stable fun state => goodChild state child) {stmt : Stmt ν α}
    (hname : ∀ name ∈ stmt.name?,
      regime.Runs [] (onName name) fun state => goodName state name)
    (hchild : ∀ child ∈ stmt.child?,
      regime.Runs (works child) (onChild child) fun state => goodChild state child) :
    regime.Runs (stmt.child?.toList.flatMap works) (stmt.traverse onName onChild)
      fun state lowered => stmt.Matches (goodName state) (goodChild state) lowered := by
  cases stmt with
  | expr value =>
    have hrun := (hchild value rfl).map (hchildren value)
      fun value' => (Stmt.expr value' : Stmt ν' β)
    simp only [Stmt.child?, Option.toList_some, List.flatMap_singleton]
    refine hrun.imp ?_
    rintro state lowered ⟨value', hvalue', rfl⟩
    exact .expr hvalue'
  | declare name init =>
    have hrun := (hname name rfl).bind (hnames name) fun name' =>
      (mapM_option hchildren init hchild).map (Stable.rel hchildren init)
        fun init' => Stmt.declare name' init'
    refine hrun.imp ?_
    rintro state lowered ⟨name', hname', init', hinit', rfl⟩
    exact .declare hname' hinit'
  | assign name value =>
    have hrun := (hname name rfl).bind (hnames name) fun name' =>
      (hchild value rfl).map (hchildren value) fun value' => Stmt.assign name' value'
    simp only [Stmt.child?, Option.toList_some, List.flatMap_singleton]
    refine hrun.imp ?_
    rintro state lowered ⟨name', hname', value', hvalue', rfl⟩
    exact .assign hname' hvalue'

/-- Replacing the names and children of a layer, when replacing a name is no work of its own. -/
theorem traverse (hnames : ∀ name, regime.Stable fun state => goodName state name)
    (hchildren : ∀ child, regime.Stable fun state => goodChild state child) {shape : Shape ν α}
    (hname : ∀ name ∈ shape.names,
      regime.Runs [] (onName name) fun state => goodName state name)
    (hchild : ∀ child ∈ shape.children,
      regime.Runs (works child) (onChild child) fun state => goodChild state child) :
    regime.Runs (shape.children.flatMap works) (shape.traverse onName onChild)
      fun state lowered => shape.Matches (goodName state) (goodChild state) lowered := by
  cases shape with
  | literal value =>
    have hrun : regime.Runs [] (Pure.pure (.literal value)) fun _ lowered =>
        lowered = (.literal value : Shape ν' β) := pure _
    refine hrun.imp ?_
    rintro state lowered rfl
    exact .literal value
  | var name =>
    have hrun := (hname name (by simp [Shape.names])).map (hnames name)
      fun name' => (.var name' : Shape ν' β)
    refine hrun.imp ?_
    rintro state lowered ⟨name', hname', rfl⟩
    exact .var hname'
  | call callee receiver args =>
    have hreceiver := mapM_option hchildren receiver fun child hmem =>
      hchild child (by simp [Shape.children, Option.mem_def.1 hmem])
    have hargs := mapM hchildren args fun child hmem => hchild child (List.mem_append_right _ hmem)
    have hrun := (hname callee (by simp [Shape.names])).bind (hnames callee) fun callee' =>
      hreceiver.bind (Stable.rel hchildren receiver) fun receiver' =>
        hargs.map (Stable.forall₂ hchildren args) fun args' => Shape.call callee' receiver' args'
    simp only [Shape.children, List.flatMap_append]
    refine hrun.imp ?_
    rintro state lowered ⟨callee', hcallee', receiver', hreceiver', args', hargs', rfl⟩
    exact .call hcallee' hreceiver' hargs'
  | conditional arms otherwise =>
    have harms := mapM (Stable.arm hchildren) arms fun arm hmem =>
      Runs.arm hchildren fun child hmem' => hchild child (by
        simp only [Shape.children, List.mem_append, List.mem_flatMap]
        exact .inl ⟨arm, hmem, hmem'⟩)
    have hotherwise := mapM_option hchildren otherwise fun child hmem =>
      hchild child (by simp [Shape.children, Option.mem_def.1 hmem])
    have hrun := harms.bind (Stable.forall₂ (Stable.arm hchildren) arms) fun arms' =>
      hotherwise.map (Stable.rel hchildren otherwise)
        fun otherwise' => (.conditional arms' otherwise' : Shape ν' β)
    simp only [Shape.children, List.flatMap_append, List.flatMap_assoc]
    refine hrun.imp ?_
    rintro state lowered ⟨arms', harms', otherwise', hotherwise', rfl⟩
    exact .conditional harms' hotherwise'
  | loop condition body =>
    have hrun := (hchild condition (by simp [Shape.children])).bind (hchildren condition)
      fun condition' => (hchild body (by simp [Shape.children])).map (hchildren body)
        fun body' => (.loop condition' body' : Shape ν' β)
    simp only [Shape.children, List.flatMap_cons, List.flatMap_nil, List.append_nil]
    refine hrun.imp ?_
    rintro state lowered ⟨condition', hcondition', body', hbody', rfl⟩
    exact .loop hcondition' hbody'
  | block stmts =>
    have hstmts := mapM (Stable.stmt hnames hchildren) stmts fun stmt hmem =>
      Runs.stmt hnames hchildren
        (fun name hmem' => hname name (List.mem_filterMap.2 ⟨stmt, hmem, hmem'⟩))
        (fun child hmem' => hchild child (List.mem_filterMap.2 ⟨stmt, hmem, hmem'⟩))
    have hrun := hstmts.map (Stable.forall₂ (Stable.stmt hnames hchildren) stmts)
      fun stmts' => (.block stmts' : Shape ν' β)
    simp only [Shape.children, List.filterMap_eq_flatMap_toList, List.flatMap_assoc]
    refine hrun.imp ?_
    rintro state lowered ⟨stmts', hstmts', rfl⟩
    exact .block hstmts'
  | ret value =>
    have hrun := (hchild value (by simp [Shape.children])).map (hchildren value)
      fun value' => (.ret value' : Shape ν' β)
    simp only [Shape.children, List.flatMap_singleton]
    refine hrun.imp ?_
    rintro state lowered ⟨value', hvalue', rfl⟩
    exact .ret hvalue'
  | «foreign» children =>
    have hrun := (mapM hchildren children hchild).map
      (Stable.forall₂ hchildren children) fun children' => (.foreign children' : Shape ν' β)
    refine hrun.imp ?_
    rintro state lowered ⟨children', hchildren', rfl⟩
    exact .foreign hchildren'

end Layer

end Runs

end Regime

end ConstFold
