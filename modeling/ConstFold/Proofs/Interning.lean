import ConstFold.Proofs.Equivariance
import ConstFold.Proofs.Worklist

/-!
# Lowering with different symbol tables

A program can be lowered with an empty symbol table or with one that holds names already. The names
it is given differ then, and nothing else does. To see this two runs are followed side by side:
`Lowering.Twin` relates their states, and `Lockstep` says that two runs end alike unless a symbol
table is full. Every translation between the two symbol tables turns the arena, the library and the
names requested of the one run into those of the other; since the tables grow, there are fewer and
fewer translations, and there is always one.

The main statement is `Host.lower_independent`: lowering and folding a program with any symbol table
gives what they give with the initial one, renamed.
-/

set_option autoImplicit false

namespace ConstFold

variable {ν α β : Type}

/-! ## Translating names -/

namespace SymbolTable

variable {symbols symbols' before after before' after' : SymbolTable} {ρ : Name → Name}

/-- Names of the one table are names of the other. -/
def Kept (before after : SymbolTable) : Prop :=
  ∀ ⦃text : String⦄ ⦃name : Name⦄, before.Names text name → after.Names text name

/-- Every text that has a name in the one table has one in the other. -/
def Covers (symbols' symbols : SymbolTable) : Prop :=
  ∀ ⦃text : String⦄ ⦃name : Name⦄, symbols.Names text name → ∃ name', symbols'.Names text name'

/-- `ρ` keeps names apart and takes the name of a text in the one table to its name in the other. -/
structure Translates (ρ : Name → Name) (symbols symbols' : SymbolTable) : Prop where
  injective : Function.Injective ρ
  names : ∀ ⦃text : String⦄ ⦃name name' : Name⦄, symbols.Names text name →
    symbols'.Names text name' → name' = ρ name

/-- Names that are kept twice are kept. -/
theorem Kept.trans {later : SymbolTable} (h : before.Kept after) (h' : after.Kept later) :
    before.Kept later :=
  fun _ _ hname => h' (h hname)

/-- A translation between two tables is one between the tables they have grown from. -/
theorem Translates.mono (h : Translates ρ after after') (hkept : before.Kept after)
    (hkept' : before'.Kept after') : Translates ρ before before' :=
  ⟨h.injective, fun _ _ _ hname hname' => h.names (hkept hname) (hkept' hname')⟩

/-- The name of the same text in another table. A name that was not issued becomes one that was not
issued there. -/
def translate (symbols symbols' : SymbolTable) (name : Name) : Name :=
  match symbols.texts[name.index]? with
  | some text => (symbols'.get? text).getD name
  | none => ⟨symbols'.size + name.index⟩

/-- A translated name has the same text if it was issued, and lies past the other table if it was
not. -/
theorem translate_cases (hsymbols' : symbols'.Consistent) (hcovers : symbols'.Covers symbols)
    (name : Name) :
    (∃ text, symbols.Names text name ∧ symbols'.Names text (symbols.translate symbols' name)) ∨
      (symbols.texts[name.index]? = none ∧
        symbols.translate symbols' name = ⟨symbols'.size + name.index⟩) := by
  cases htext : symbols.texts[name.index]? with
  | none => exact .inr ⟨rfl, by simp only [translate, htext]⟩
  | some text =>
    obtain ⟨name', hname'⟩ := hcovers htext
    have hget := (hsymbols' text name').2 hname'
    refine .inl ⟨text, htext, ?_⟩
    simp only [translate, htext, hget, Option.getD_some]
    exact hname'

/-- A name of a text is within the table. -/
theorem lt_size_of_names {text : String} {name : Name} (h : symbols.Names text name) :
    name.index < symbols.size :=
  (Array.getElem?_eq_some_iff.1 h).1

/-- Between consistent tables, the translation takes names of texts to names of the same texts and
keeps all names apart. -/
theorem translates_translate (hsymbols : symbols.Consistent) (hsymbols' : symbols'.Consistent)
    (hcovers : symbols'.Covers symbols) :
    Translates (symbols.translate symbols') symbols symbols' where
  injective := by
    intro left right heq
    rcases translate_cases hsymbols' hcovers left with ⟨text, hleft, hleft'⟩ | ⟨-, hleft'⟩ <;>
      rcases translate_cases hsymbols' hcovers right with ⟨other, hright, hright'⟩ | ⟨-, hright'⟩
    · rw [heq] at hleft'
      obtain rfl := hleft'.unique hright'
      exact hsymbols.unique hleft hright
    · have hlt := lt_size_of_names hleft'
      rw [heq, hright'] at hlt
      exact absurd hlt (by simp)
    · have hlt := lt_size_of_names hright'
      rw [← heq, hleft'] at hlt
      exact absurd hlt (by simp)
    · rw [hleft', hright', Name.mk.injEq] at heq
      cases left
      cases right
      simp_all
  names text name name' hname hname' := by
    rcases translate_cases hsymbols' hcovers name with ⟨other, hother, hother'⟩ | ⟨hnone, -⟩
    · obtain rfl := hname.unique hother
      exact hsymbols'.unique hname' hother'
    · rw [Names, hnone] at hname
      cases hname

/-- A translated name reads as the same text. -/
theorem text_translate (hsymbols' : symbols'.Consistent) (hcovers : symbols'.Covers symbols)
    (name : Name) : symbols'.text (symbols.translate symbols' name) = symbols.text name := by
  rcases translate_cases hsymbols' hcovers name with ⟨text, hname, hname'⟩ | ⟨hnone, htranslate⟩
  · rw [hname.text_eq, hname'.text_eq]
  · have hnone' : symbols'.texts[symbols'.size + name.index]? = none :=
      Array.getElem?_eq_none (Nat.le_add_right _ _)
    simp only [text, htranslate, hnone, hnone']

/-- In a table that interning has made, the empty name is that of the empty text. -/
theorem Reachable.names_empty (h : symbols.Reachable) : symbols.Names "" Name.empty := by
  induction h with
  | initial => rfl
  | intern hbefore hintern ih => exact (hbefore.consistent.intern hintern).2.1.keeps ih

end SymbolTable

open SymbolTable

/-! ## Two runs side by side -/

/-- The states of two runs that lower the same nodes with different names. -/
structure Lowering.Twin (state state' : Lowering ν) : Prop where
  reachable : state.symbols.Reachable
  reachable' : state'.symbols.Reachable
  covers : state'.symbols.Covers state.symbols
  arena : ∀ ρ, Translates ρ state.symbols state'.symbols → state'.arena = state.arena.rename ρ
  library : ∀ ρ, Translates ρ state.symbols state'.symbols →
    state'.library = state.library.rename ρ
  origins : state'.origins = state.origins
  requested : ∀ ρ, Translates ρ state.symbols state'.symbols →
    state'.requested = state.requested.map ρ
  pending : ∀ ρ, Translates ρ state.symbols state'.symbols →
    state'.pending = state.pending.map (Prod.map ρ id)
  asked : state'.asked = state.asked

/-- Some translation takes the names of the one twin to those of the other. -/
theorem Lowering.Twin.exists_translates {state state' : Lowering ν} (h : state.Twin state') :
    ∃ ρ, Translates ρ state.symbols state'.symbols :=
  ⟨_, translates_translate h.reachable.consistent h.reachable'.consistent h.covers⟩

/-- Two endings that are alike, unless a symbol table is full. -/
inductive Lockstep (R : α → Lowering ν → β → Lowering ν → Prop) :
    EStateM.Result Fault (Lowering ν) α → EStateM.Result Fault (Lowering ν) β → Prop where
  | ok {value : α} {state : Lowering ν} {value' : β} {state' : Lowering ν} :
      R value state value' state' → Lockstep R (.ok value state) (.ok value' state')
  | error (fault : Fault) (state state' : Lowering ν) :
      Lockstep R (.error fault state) (.error fault state')
  | full (count : Nat) (state : Lowering ν) (ending : EStateM.Result Fault (Lowering ν) β) :
      Lockstep R (.error (.symbolsFull count) state) ending
  | full' (ending : EStateM.Result Fault (Lowering ν) α) (count : Nat) (state' : Lowering ν) :
      Lockstep R ending (.error (.symbolsFull count) state')

/-- Endings in lockstep are so for any weaker relation. -/
theorem Lockstep.imp {R R' : α → Lowering ν → β → Lowering ν → Prop}
    {ending : EStateM.Result Fault (Lowering ν) α} {ending' : EStateM.Result Fault (Lowering ν) β}
    (h : Lockstep R ending ending')
    (himp : ∀ value state value' state', R value state value' state' →
      R' value state value' state') : Lockstep R' ending ending' := by
  cases h with
  | ok hboth => exact .ok (himp _ _ _ _ hboth)
  | error fault state state' => exact .error fault state state'
  | full count state _ => exact .full count state _
  | full' _ count state' => exact .full' _ count state'

/-- Two runs one step after the other. -/
theorem Lockstep.bind {γ δ : Type} {R : α → Lowering ν → β → Lowering ν → Prop}
    {R' : γ → Lowering ν → δ → Lowering ν → Prop} {first : Lower ν α} {first' : Lower ν β}
    {next : α → Lower ν γ} {next' : β → Lower ν δ} {state state' : Lowering ν}
    (hfirst : Lockstep R (first state) (first' state'))
    (hnext : ∀ value after value' after', R value after value' after' →
      Lockstep R' (next value after) (next' value' after')) :
    Lockstep R' ((first >>= next) state) ((first' >>= next') state') := by
  rw [Lower.bind_apply, Lower.bind_apply]
  generalize first state = ending at hfirst
  generalize first' state' = ending' at hfirst
  cases hfirst with
  | ok hboth => exact hnext _ _ _ _ hboth
  | error fault state state' => exact .error fault state state'
  | full count state _ => exact .full count state _
  | full' _ count state' => exact .full' _ count state'

/-- What two runs of a step come to: their states are twins again, no names are lost, and every
translation relates the values they give. -/
structure Lowering.After (before before' : Lowering ν) (good : (Name → Name) → α → α → Prop)
    (value : α) (state : Lowering ν) (value' : α) (state' : Lowering ν) : Prop where
  twin : state.Twin state'
  kept : before.symbols.Kept state.symbols
  kept' : before'.symbols.Kept state'.symbols
  good : ∀ ρ, Translates ρ state.symbols state'.symbols → good ρ value value'

/-- Two steps that twins take in lockstep. -/
def Paired (good : (Name → Name) → α → α → Prop) (step step' : Lower ν α) : Prop :=
  ∀ ⦃state state' : Lowering ν⦄, state.Twin state' →
    Lockstep (state.After state' good) (step state) (step' state')

namespace Paired

open Lowering

variable {good : (Name → Name) → α → α → Prop}

/-- Values related under every translation are given in lockstep. -/
theorem pure {value value' : α} (h : ∀ ρ, good ρ value value') :
    Paired good (Pure.pure value : Lower ν α) (Pure.pure value') :=
  fun _ _ htwin => .ok ⟨htwin, fun _ _ hname => hname, fun _ _ hname => hname, fun ρ _ => h ρ⟩

/-- Steps in lockstep are so for any weaker relation of their values. -/
theorem imp {step step' : Lower ν α} {good' : (Name → Name) → α → α → Prop}
    (h : Paired good step step') (himp : ∀ ρ value value', good ρ value value' →
      good' ρ value value') : Paired good' step step' :=
  fun _ _ htwin => (h htwin).imp fun value _ value' _ hafter =>
    ⟨hafter.twin, hafter.kept, hafter.kept', fun ρ hρ => himp ρ value value' (hafter.good ρ hρ)⟩

/-- One step after the other. What is good of the first values stays good, because the tables after
the second step have fewer translations. -/
theorem bind {first first' : Lower ν α} {next next' : α → Lower ν β}
    {good' : α → α → (Name → Name) → β → β → Prop} (hfirst : Paired good first first')
    (hnext : ∀ value value', Paired (good' value value') (next value) (next' value')) :
    Paired (fun ρ result result' => ∃ value value', good ρ value value' ∧
      good' value value' ρ result result') (first >>= next) (first' >>= next') := by
  intro state state' htwin
  refine (hfirst htwin).bind fun value middle value' middle' hmiddle => ?_
  refine (hnext value value' hmiddle.twin).imp fun result after result' after' hafter => ?_
  refine ⟨hafter.twin, hmiddle.kept.trans hafter.kept, hmiddle.kept'.trans hafter.kept', ?_⟩
  intro ρ hρ
  exact ⟨value, value', hmiddle.good ρ (hρ.mono hafter.kept hafter.kept'), hafter.good ρ hρ⟩

/-- Ending with a value made of what a step gave. -/
theorem map {step step' : Lower ν α} (h : Paired good step step') (result result' : α → β) :
    Paired (fun ρ made made' => ∃ value value', good ρ value value' ∧
      made = result value ∧ made' = result' value')
      (step >>= fun value => Pure.pure (result value))
      (step' >>= fun value => Pure.pure (result' value)) :=
  h.bind fun _ _ => pure fun _ => ⟨rfl, rfl⟩

section Items

variable {act : (Name → Name) → β → β} {step : α → Lower ν β}

/-- Steps for the items of a list are in lockstep if the step for each item is. -/
theorem mapM {items : List α}
    (h : ∀ item ∈ items, Paired (fun ρ value value' => value' = act ρ value) (step item)
      (step item)) :
    Paired (fun ρ values values' => values' = values.map (act ρ)) (items.mapM step)
      (items.mapM step) := by
  induction items with
  | nil => exact pure fun _ => rfl
  | cons item rest ih =>
    have hrest := ih fun other hother => h other (List.mem_cons_of_mem _ hother)
    rw [List.mapM_cons]
    refine ((h item List.mem_cons_self).bind fun value value' =>
      hrest.map (fun values => value :: values) fun values => value' :: values).imp ?_
    rintro ρ _ _ ⟨value, value', rfl, values, values', rfl, rfl, rfl⟩
    rfl

/-- A step for an item that may be missing is in lockstep if it is for the item. -/
theorem mapM_option {item : Option α}
    (h : ∀ x ∈ item, Paired (fun ρ value value' => value' = act ρ value) (step x) (step x)) :
    Paired (fun ρ value value' => value' = value.map (act ρ)) (item.mapM step)
      (item.mapM step) := by
  cases item with
  | none => exact pure fun _ => rfl
  | some x =>
    refine ((h x rfl).map some some).imp ?_
    rintro ρ _ _ ⟨value, value', rfl, rfl, rfl⟩
    rfl

end Items

/-! ## Lowering a tree -/

/-- A text is given its name in either table. -/
theorem intern (text : String) :
    Paired (fun ρ name name' => name' = ρ name) (Lower.intern text : Lower ν Name)
      (Lower.intern text) := by
  intro state state' htwin
  rw [Lower.intern_apply, Lower.intern_apply]
  cases hintern : state.symbols.intern text with
  | error fault =>
    obtain ⟨-, -, rfl⟩ := intern_eq_error hintern
    exact .full _ _ _
  | ok pair =>
    cases hintern' : state'.symbols.intern text with
    | error fault =>
      obtain ⟨-, -, rfl⟩ := intern_eq_error hintern'
      exact .full' _ _ _
    | ok pair' =>
      obtain ⟨name, symbols⟩ := pair
      obtain ⟨name', symbols'⟩ := pair'
      obtain ⟨-, hgains, hname⟩ := htwin.reachable.consistent.intern hintern
      obtain ⟨-, hgains', hname'⟩ := htwin.reachable'.consistent.intern hintern'
      have hkept : state.symbols.Kept symbols := fun _ _ h => hgains.keeps h
      have hkept' : state'.symbols.Kept symbols' := fun _ _ h => hgains'.keeps h
      have hcovers : symbols'.Covers symbols := by
        intro other found hother
        rcases hgains.adds hother with hold | rfl
        · obtain ⟨found', hfound'⟩ := htwin.covers hold
          exact ⟨found', hkept' hfound'⟩
        · exact ⟨name', hname'⟩
      refine .ok ⟨?_, hkept, hkept', fun ρ hρ => hρ.names hname hname'⟩
      exact { htwin with
        reachable := .intern htwin.reachable hintern
        reachable' := .intern htwin.reachable' hintern'
        covers := hcovers
        arena := fun ρ hρ => htwin.arena ρ (hρ.mono hkept hkept')
        library := fun ρ hρ => htwin.library ρ (hρ.mono hkept hkept')
        requested := fun ρ hρ => htwin.requested ρ (hρ.mono hkept hkept')
        pending := fun ρ hρ => htwin.pending ρ (hρ.mono hkept hkept') }

section Layer

variable {lower : ν → Lower ν NodeId}

/-- Lowering an arm is in lockstep if lowering its condition and its result is. -/
theorem arm {arm : Arm ν}
    (h : ∀ child ∈ arm.children, Paired (fun _ id id' => id' = id) (lower child) (lower child)) :
    Paired (fun _ arm arm' => arm' = arm) (arm.traverse lower) (arm.traverse lower) := by
  refine ((h arm.condition (by simp [Arm.children])).bind fun condition condition' =>
    (h arm.result (by simp [Arm.children])).map (Arm.mk condition) (Arm.mk condition')).imp ?_
  rintro ρ _ _ ⟨condition, condition', rfl, result, result', rfl, rfl, rfl⟩
  rfl

/-- Lowering a statement is in lockstep if lowering its right-hand side is, up to its name. -/
theorem stmt {stmt : Stmt String ν}
    (h : ∀ child ∈ stmt.child?, Paired (fun _ id id' => id' = id) (lower child) (lower child)) :
    Paired (fun ρ stmt stmt' => stmt' = stmt.map ρ id) (stmt.traverse Lower.intern lower)
      (stmt.traverse Lower.intern lower) := by
  cases stmt with
  | expr value =>
    refine ((h value rfl).map Stmt.expr Stmt.expr).imp ?_
    rintro ρ _ _ ⟨value, value', rfl, rfl, rfl⟩
    rfl
  | declare name init =>
    have hinit : Paired (fun _ init init' => init' = init.map id) (init.mapM lower)
        (init.mapM lower) := mapM_option h
    refine ((intern name).bind fun name name' =>
      hinit.map (Stmt.declare name) (Stmt.declare name')).imp ?_
    rintro ρ _ _ ⟨name, name', rfl, init, init', rfl, rfl, rfl⟩
    rfl
  | assign name value =>
    refine ((intern name).bind fun name name' =>
      (h value rfl).map (Stmt.assign name) (Stmt.assign name')).imp ?_
    rintro ρ _ _ ⟨name, name', rfl, value, value', rfl, rfl, rfl⟩
    rfl

/-- The layers that the two runs give to the arena have the same children. -/
theorem traverse {view : Shape String ν}
    (h : ∀ child ∈ view.children, Paired (fun _ id id' => id' = id) (lower child) (lower child)) :
    Paired (fun ρ shape shape' => shape' = shape.map ρ id) (view.traverse Lower.intern lower)
      (view.traverse Lower.intern lower) := by
  cases view with
  | literal value => exact pure fun _ => rfl
  | var name =>
    refine ((intern name).map Shape.var Shape.var).imp ?_
    rintro ρ _ _ ⟨name, name', rfl, rfl, rfl⟩
    rfl
  | call callee receiver args =>
    have hreceiver : Paired (fun _ receiver receiver' => receiver' = receiver.map id)
        (receiver.mapM lower) (receiver.mapM lower) :=
      mapM_option fun child hchild => h child (by simp_all [Shape.children])
    have hargs : Paired (fun _ args args' => args' = args.map id) (args.mapM lower)
        (args.mapM lower) := mapM fun child hchild => h child (by simp [Shape.children, hchild])
    refine ((intern callee).bind fun callee callee' => hreceiver.bind fun receiver receiver' =>
      hargs.map (Shape.call callee receiver) (Shape.call callee' receiver')).imp ?_
    rintro ρ _ _ ⟨callee, callee', rfl, receiver, receiver', rfl, args, args', rfl, rfl, rfl⟩
    rfl
  | conditional arms otherwise =>
    have harms : Paired (fun _ arms arms' => arms' = arms.map (Arm.map id))
        (arms.mapM (Arm.traverse lower)) (arms.mapM (Arm.traverse lower)) :=
      mapM fun arm harm => Paired.arm fun child hchild =>
        h child (List.mem_append_left _ (List.mem_flatMap.2 ⟨arm, harm, hchild⟩))
    have hotherwise : Paired (fun _ child child' => child' = child.map id)
        (otherwise.mapM lower) (otherwise.mapM lower) :=
      mapM_option fun child hchild => h child (by simp_all [Shape.children])
    refine (harms.bind fun arms arms' =>
      hotherwise.map (Shape.conditional arms) (Shape.conditional arms')).imp ?_
    rintro ρ _ _ ⟨arms, arms', rfl, otherwise, otherwise', rfl, rfl, rfl⟩
    rfl
  | loop condition body =>
    refine ((h condition (by simp [Shape.children])).bind fun condition condition' =>
      (h body (by simp [Shape.children])).map (Shape.loop condition) (Shape.loop condition')).imp ?_
    rintro ρ _ _ ⟨condition, condition', rfl, body, body', rfl, rfl, rfl⟩
    rfl
  | block stmts =>
    have hstmts : Paired (fun ρ stmts stmts' => stmts' = stmts.map (Stmt.map ρ id))
        (stmts.mapM (Stmt.traverse Lower.intern lower))
        (stmts.mapM (Stmt.traverse Lower.intern lower)) :=
      mapM fun stmt hstmt => Paired.stmt fun child hchild =>
        h child (List.mem_filterMap.2 ⟨stmt, hstmt, hchild⟩)
    refine (hstmts.map Shape.block Shape.block).imp ?_
    rintro ρ _ _ ⟨stmts, stmts', rfl, rfl, rfl⟩
    rfl
  | ret value =>
    refine ((h value (by simp [Shape.children])).map Shape.ret Shape.ret).imp ?_
    rintro ρ _ _ ⟨value, value', rfl, rfl, rfl⟩
    rfl
  | «foreign» children =>
    have hchildren : Paired (fun _ children children' => children' = children.map id)
        (children.mapM lower) (children.mapM lower) := mapM h
    refine (hchildren.map Shape.foreign Shape.foreign).imp ?_
    rintro ρ _ _ ⟨children, children', rfl, rfl, rfl⟩
    rfl

end Layer

/-- Placing a layer and its renamed form: the arena does not look at names. -/
theorem place (host : Host ν) (node : ν) {shape shape' : Shape Name NodeId}
    {state state' : Lowering ν} (htwin : state.Twin state')
    (hshape : ∀ ρ, Translates ρ state.symbols state'.symbols → shape' = shape.map ρ id) :
    Lockstep (state.After state' fun _ id id' => id' = id) (Lower.place host node shape state)
      (Lower.place host node shape' state') := by
  have hadd : ∀ ρ, Translates ρ state.symbols state'.symbols →
      Arena.add shape' (host.span node) state'.arena =
        mapEnding id (Arena.rename ρ) (Arena.add shape (host.span node) state.arena) := by
    intro ρ hρ
    rw [hshape ρ hρ, htwin.arena ρ hρ]
    exact Arena.equivariant_add ρ shape (host.span node) state.arena
  rw [Lower.place_apply, Lower.place_apply]
  obtain ⟨ρ, hρ⟩ := htwin.exists_translates
  have hplaced := hadd ρ hρ
  cases hending : Arena.add shape (host.span node) state.arena with
  | error fault arena =>
    rw [hending] at hplaced
    rw [hplaced]
    exact .error fault _ _
  | ok id arena =>
    rw [hending] at hplaced hadd
    rw [hplaced]
    refine .ok ⟨?_, fun _ _ hname => hname, fun _ _ hname => hname, fun _ _ => rfl⟩
    have harena : ∀ σ, Translates σ state.symbols state'.symbols →
        arena.rename ρ = arena.rename σ := by
      intro σ hσ
      have hsame := (hadd ρ hρ).symm.trans (hadd σ hσ)
      exact (EStateM.Result.ok.inj hsame).2
    exact { htwin with
      arena := harena
      origins := congrArg (·.push node) htwin.origins }

end Paired

namespace Lowering.Twin

variable {state state' : Lowering ν} (htwin : state.Twin state')

include htwin

/-- Twins stay twins when each requests a function by its own name for it. -/
theorem request (policy : Policy) {name name' : Name} (text : String)
    (hname : ∀ ρ, Translates ρ state.symbols state'.symbols → name' = ρ name) :
    (state.request policy name text).Twin (state'.request policy name' text) := by
  obtain ⟨ρ, hρ⟩ := htwin.exists_translates
  have hmem : name' ∈ state'.requested ↔ name ∈ state.requested := by
    rw [htwin.requested ρ hρ, hname ρ hρ, List.mem_map_of_injective hρ.injective]
  rcases state.request_cases policy name text with ⟨htext, hnew, heq⟩ | ⟨hold, heq⟩ <;>
    rcases state'.request_cases policy name' text with ⟨htext', hnew', heq'⟩ | ⟨hold', heq'⟩
  · rw [heq, heq']
    exact { htwin with
      requested := fun σ hσ => by
        rw [htwin.requested σ hσ, hname σ hσ, List.map_cons]
      pending := fun σ hσ => by
        rw [htwin.pending σ hσ, hname σ hσ, List.map_cons, Prod.map_apply, id] }
  · exact absurd (hmem.1 (hold' htext)) hnew
  · exact absurd (hmem.2 (hold htext')) hnew'
  · rw [heq, heq']
    exact htwin

/-- Twins stay twins when each asks for the same text. -/
theorem asking (text : String) {rest rest' : List (Name × String)}
    (hrest : ∀ ρ, Translates ρ state.symbols state'.symbols → rest' = rest.map (Prod.map ρ id)) :
    (Lower.asking text rest state).Twin (Lower.asking text rest' state') :=
  { htwin with
    pending := hrest
    asked := congrArg (·.push text) htwin.asked }

/-- Twins stay twins when each defines its form of a function. -/
theorem define {definition definition' : Definition}
    (h : ∀ ρ, Translates ρ state.symbols state'.symbols → definition' = definition.rename ρ) :
    Lowering.Twin { state with library := state.library.define definition }
      { state' with library := state'.library.define definition' } :=
  { htwin with
    library := by
      intro ρ hρ
      rw [Library.rename_define hρ.injective, ← htwin.library ρ hρ, ← h ρ hρ] }

end Lowering.Twin

namespace Paired

open Lowering

variable (host : Host ν) (policy : Policy)

/-- Noting what a layer calls: either run requests the callee by its own name. -/
theorem note (view : Shape String ν) :
    Paired (fun _ _ _ => True) (Lower.note policy view) (Lower.note policy view) := by
  unfold Lower.note
  split
  · next callee _ =>
    intro state state' htwin
    refine (intern callee htwin).bind fun name middle name' middle' hmiddle => ?_
    refine .ok ⟨hmiddle.twin.request policy callee hmiddle.good, ?_, ?_, fun _ _ => trivial⟩
    · rw [Lowering.request_symbols]
      exact hmiddle.kept
    · rw [Lowering.request_symbols]
      exact hmiddle.kept'
  · exact pure fun _ => trivial

/-- Lowering a node gives it the same number in either run. -/
theorem node {lower : ν → Lower ν NodeId} {node : ν}
    (h : ∀ child ∈ (host.view node).children,
      Paired (fun _ id id' => id' = id) (lower child) (lower child)) :
    Paired (fun _ id id' => id' = id) (Lower.node host policy lower node)
      (Lower.node host policy lower node) := by
  have hlayer : Paired (fun _ id id' => id' = id)
      ((host.view node).traverse Lower.intern lower >>= Lower.place host node)
      ((host.view node).traverse Lower.intern lower >>= Lower.place host node) := by
    intro state state' htwin
    refine (traverse h htwin).bind fun shape middle shape' middle' hmiddle => ?_
    refine (place host node hmiddle.twin hmiddle.good).imp fun id after id' after' hafter => ?_
    exact ⟨hafter.twin, hmiddle.kept.trans hafter.kept, hmiddle.kept'.trans hafter.kept',
      hafter.good⟩
  rw [Lower.node_eq]
  refine ((note policy (host.view node)).bind fun _ _ => hlayer).imp ?_
  rintro ρ id id' ⟨-, -, -, hid⟩
  exact hid

/-- Lowering a tree. The induction is on the nesting. -/
theorem within (nesting : Nat) (node : ν) :
    Paired (fun _ id id' => id' = id) (Lower.within host policy nesting node)
      (Lower.within host policy nesting node) := by
  induction nesting generalizing node with
  | zero => exact fun state state' _ => .error .unfinished state state'
  | succ nesting ih => exact Paired.node host policy fun child _ => ih child

/-! ## Lowering a program -/

/-- Lowering a function under either run's name for it gives the definition and its renamed form. -/
theorem defining (found : HostFunction ν) {name name' : Name} {state state' : Lowering ν}
    (htwin : state.Twin state')
    (hname : ∀ ρ, Translates ρ state.symbols state'.symbols → name' = ρ name) :
    Lockstep (state.After state' fun ρ definition definition' => definition' = definition.rename ρ)
      (Lower.defining host policy name found state)
      (Lower.defining host policy name' found state') := by
  have hparams : Paired (fun ρ params params' => params' = params.map ρ)
      (found.params.mapM (Lower.intern : String → Lower ν Name)) (found.params.mapM Lower.intern) :=
    mapM fun text _ => intern text
  have hbody : Paired (fun _ id id' => id' = id) (Lower.tree host policy found.body)
      (Lower.tree host policy found.body) := within host policy _ found.body
  have hrun := hparams.bind fun params params' => hbody.map
    (fun body => Definition.mk name params body (host.span found.body))
    fun body => Definition.mk name' params' body (host.span found.body)
  refine (hrun htwin).imp fun definition after definition' after' hafter => ?_
  refine ⟨hafter.twin, hafter.kept, hafter.kept', fun ρ hρ => ?_⟩
  obtain ⟨params, params', rfl, body, body', rfl, rfl, rfl⟩ := hafter.good ρ hρ
  rw [hname ρ (hρ.mono hafter.kept hafter.kept')]
  rfl

end Paired

namespace Lower

variable (host : Host ν) (policy : Policy) {state state' : Lowering ν}

/-- Twins ask for the same text next. -/
theorem lockstep_askNext (htwin : state.Twin state') :
    Lockstep (fun more after more' after' => more' = more ∧ after.Twin after')
      (askNext host policy state) (askNext host policy state') := by
  obtain ⟨ρ, hρ⟩ := htwin.exists_translates
  rw [askNext_apply, askNext_apply, htwin.pending ρ hρ]
  cases hpending : state.pending with
  | nil => exact .ok ⟨rfl, htwin⟩
  | cons entry rest =>
    obtain ⟨name, text⟩ := entry
    -- All translations agree on what is pending.
    have hsame : ∀ σ, Translates σ state.symbols state'.symbols →
        ρ name = σ name ∧ rest.map (Prod.map ρ id) = rest.map (Prod.map σ id) := by
      intro σ hσ
      have heq := (htwin.pending ρ hρ).symm.trans (htwin.pending σ hσ)
      rw [hpending, List.map_cons, List.map_cons] at heq
      obtain ⟨hhead, htail⟩ := List.cons.inj heq
      exact ⟨(Prod.mk.inj hhead).1, htail⟩
    have hasking := htwin.asking text fun σ hσ => (hsame σ hσ).2
    rw [List.map_cons]
    dsimp only [Prod.map, id]
    cases host.function text with
    | none => exact .ok ⟨rfl, hasking⟩
    | some found =>
      have hdefining := Paired.defining host policy found hasking fun σ hσ => (hsame σ hσ).1
      dsimp only
      generalize defining host policy name found _ = ending at hdefining
      generalize defining host policy (ρ name) found _ = ending' at hdefining
      cases hdefining with
      | ok hafter => exact .ok ⟨rfl, hafter.twin.define hafter.good⟩
      | error fault after after' => exact .error fault after after'
      | full count after _ => exact .full count after _
      | full' _ count after' => exact .full' _ count after'

/-- Asking for names ends after some number of rounds, if it ends. -/
theorem exists_drainWithin_eq {ending : EStateM.Result Fault (Lowering ν) Unit}
    (h : state.drain host policy = some ending) :
    ∃ rounds, drainWithin host policy rounds state = some ending := by
  refine Lowering.drain.partial_correctness host policy
    (fun state ending => ∃ rounds, drainWithin host policy rounds state = some ending)
    (fun drain ih state ending hstep => ?_) state ending h
  split at hstep
  · next after hask =>
    obtain ⟨rounds, hrounds⟩ := ih _ _ hstep
    exact ⟨rounds + 1, by simp only [drainWithin, hask, hrounds]⟩
  · next after hask => exact ⟨1, by simpa only [drainWithin, hask] using hstep⟩
  · next fault after hask => exact ⟨1, by simpa only [drainWithin, hask] using hstep⟩

/-- A list of functions that is emptied within some rounds is lowered with that ending. -/
theorem functions_eq_of_drainWithin {rounds : Nat}
    {ending : EStateM.Result Fault (Lowering ν) Unit}
    (h : drainWithin host policy rounds state = some ending) :
    functions host policy state = ending := by
  rw [functions, drain_eq_of_drainWithin host policy h, Option.getD_some]

/-- Twins ask for the same names, round by round, unless a symbol table is full. -/
theorem lockstep_drainWithin (rounds : Nat) (htwin : state.Twin state') :
    Option.Rel (Lockstep fun _ after _ after' => after.Twin after')
        (drainWithin host policy rounds state) (drainWithin host policy rounds state') ∨
      (∃ count after,
        drainWithin host policy rounds state = some (.error (.symbolsFull count) after)) ∨
      ∃ count after,
        drainWithin host policy rounds state' = some (.error (.symbolsFull count) after) := by
  induction rounds generalizing state state' with
  | zero => exact .inl .none
  | succ rounds ih =>
    have hask := lockstep_askNext host policy htwin
    unfold drainWithin
    generalize askNext host policy state = ending at hask
    generalize askNext host policy state' = ending' at hask
    cases hask with
    | @ok more after more' after' hboth =>
      obtain ⟨rfl, hafter⟩ := hboth
      cases more' with
      | true => exact ih hafter
      | false => exact .inl (.some (.ok hafter))
    | error fault after after' => exact .inl (.some (.error fault after after'))
    | full count after _ => exact .inr (.inl ⟨count, after, rfl⟩)
    | full' _ count after' => exact .inr (.inr ⟨count, after', rfl⟩)

/-- If the names come to an end in one of the runs, the runs end alike. -/
theorem lockstep_functions_of_drainWithin (htwin : state.Twin state') (rounds : Nat)
    (h : ¬ (drainWithin host policy rounds state = none ∧
      drainWithin host policy rounds state' = none)) :
    Lockstep (fun _ after _ after' => after.Twin after') (functions host policy state)
      (functions host policy state') := by
  rcases lockstep_drainWithin host policy rounds htwin with
    hboth | ⟨count, after, hfull⟩ | ⟨count, after', hfull⟩
  · generalize hending : drainWithin host policy rounds state = ending at hboth h
    generalize hending' : drainWithin host policy rounds state' = ending' at hboth h
    cases hboth with
    | none => exact absurd ⟨rfl, rfl⟩ h
    | some hlockstep =>
      rw [functions_eq_of_drainWithin host policy hending,
        functions_eq_of_drainWithin host policy hending']
      exact hlockstep
  · rw [functions_eq_of_drainWithin host policy hfull]
    exact .full count after _
  · rw [functions_eq_of_drainWithin host policy hfull]
    exact .full' _ count after'

/-- Twins lower the requested functions in lockstep. -/
theorem lockstep_functions (htwin : state.Twin state') :
    Lockstep (fun _ after _ after' => after.Twin after') (functions host policy state)
      (functions host policy state') := by
  cases hdrain : state.drain host policy with
  | some ending =>
    obtain ⟨rounds, hrounds⟩ := exists_drainWithin_eq host policy hdrain
    refine lockstep_functions_of_drainWithin host policy htwin rounds fun hnone => ?_
    rw [hnone.1] at hrounds
    cases hrounds
  | none =>
    cases hdrain' : state'.drain host policy with
    | some ending' =>
      obtain ⟨rounds, hrounds⟩ := exists_drainWithin_eq host policy hdrain'
      refine lockstep_functions_of_drainWithin host policy htwin rounds fun hnone => ?_
      rw [hnone.2] at hrounds
      cases hrounds
    | none =>
      rw [functions, functions, hdrain, hdrain']
      exact .error .unfinished state state'

/-- Twins lower a program in lockstep, to the same root. -/
theorem lockstep_program (root : ν) (htwin : state.Twin state') :
    Lockstep (fun id after id' after' => id' = id ∧ after.Twin after')
      (program host policy root state) (program host policy root state') := by
  have htree : Lockstep (state.After state' fun _ id id' => id' = id)
      (tree host policy root state) (tree host policy root state') :=
    Paired.within host policy _ root htwin
  refine htree.bind fun id middle id' middle' hmiddle => ?_
  obtain ⟨ρ, hρ⟩ := hmiddle.twin.exists_translates
  refine (lockstep_functions host policy hmiddle.twin).bind fun _ after _ after' hafter => ?_
  exact .ok ⟨hmiddle.good ρ hρ, hafter⟩

end Lower

/-- A run with the initial symbol table and a run with another one start as twins. -/
theorem Lowering.twin_initial {symbols : SymbolTable} (hsymbols : symbols.Reachable) :
    Lowering.Twin ({ symbols := SymbolTable.initial } : Lowering ν) { symbols := symbols } where
  reachable := .initial
  reachable' := hsymbols
  covers := by
    intro text name hname
    obtain ⟨-, rfl⟩ := names_initial_iff.1 hname
    exact ⟨Name.empty, hsymbols.names_empty⟩
  arena _ _ := by simp [Arena.rename]
  library _ _ := rfl
  origins := rfl
  requested _ _ := rfl
  pending _ _ := rfl
  asked := rfl

/-! ## The lowered programs -/

/-- A lowered program and the same program lowered with other names: each name is replaced by one of
the same text, and different names by different ones. -/
structure Lowered.Renames (ρ : Name → Name) (lowered lowered' : Lowered ν) : Prop where
  injective : Function.Injective ρ
  text : ∀ name, lowered'.symbols.text (ρ name) = lowered.symbols.text name
  arena : lowered'.arena = lowered.arena.rename ρ
  library : lowered'.library = lowered.library.rename ρ
  root : lowered'.root = lowered.root
  origins : lowered'.origins = lowered.origins
  asked : lowered'.asked = lowered.asked

namespace Host

variable (host : Host ν) (policy : Policy) (root : ν) {symbols : SymbolTable}

/-- Programs lowered with two symbol tables are renamings of each other, and lowering them fails in
the same way, unless a symbol table is full. -/
theorem lower_renames (hsymbols : symbols.Reachable)
    (hroom : ∀ count, host.lower policy SymbolTable.initial root ≠ .error (.symbolsFull count))
    (hroom' : ∀ count, host.lower policy symbols root ≠ .error (.symbolsFull count)) :
    (∃ fault, host.lower policy SymbolTable.initial root = .error fault ∧
      host.lower policy symbols root = .error fault) ∨
    ∃ lowered lowered' ρ, host.lower policy SymbolTable.initial root = .ok lowered ∧
      host.lower policy symbols root = .ok lowered' ∧ lowered'.symbols.Reachable ∧
      lowered.Renames ρ lowered' := by
  have hprogram := Lower.lockstep_program host policy root (Lowering.twin_initial hsymbols)
  unfold Host.lower at hroom hroom' ⊢
  generalize Lower.program host policy root { symbols := SymbolTable.initial } = ending
    at hprogram hroom ⊢
  generalize Lower.program host policy root { symbols := symbols } = ending' at hprogram hroom' ⊢
  cases hprogram with
  | error fault state state' => exact .inl ⟨fault, rfl, rfl⟩
  | full count state _ => exact absurd rfl (hroom count)
  | full' _ count state' => exact absurd rfl (hroom' count)
  | @ok id state id' state' hboth =>
    obtain ⟨rfl, htwin⟩ := hboth
    have hconsistent := htwin.reachable.consistent
    have hconsistent' := htwin.reachable'.consistent
    have htranslates := translates_translate hconsistent hconsistent' htwin.covers
    refine .inr ⟨_, _, state.symbols.translate state'.symbols, rfl, rfl, htwin.reachable', ?_⟩
    exact {
      injective := htranslates.injective
      text := text_translate hconsistent' htwin.covers
      arena := htwin.arena _ htranslates
      library := htwin.library _ htranslates
      root := rfl
      origins := htwin.origins
      asked := htwin.asked }

/-- What a program is lowered and folded to does not depend on the names that a symbol table holds
already, unless a symbol table is full. Lowering with a table that came about by interning, and
leaves such a table, fails as with the initial table or gives the same program with names replaced
by names of the same texts. Folding the calls under the root then gives the same report except for
the names of the callees. -/
theorem lower_independent (hsymbols : symbols.Reachable)
    (hroom : ∀ count, host.lower policy SymbolTable.initial root ≠ .error (.symbolsFull count))
    (hroom' : ∀ count, host.lower policy symbols root ≠ .error (.symbolsFull count)) :
    (∃ fault, host.lower policy SymbolTable.initial root = .error fault ∧
      host.lower policy symbols root = .error fault) ∨
    ∃ lowered lowered' ρ, host.lower policy SymbolTable.initial root = .ok lowered ∧
      host.lower policy symbols root = .ok lowered' ∧ lowered'.symbols.Reachable ∧
      lowered.Renames ρ lowered' ∧
      ∀ settings, ∃ report,
        (lowered.context settings).foldCalls lowered.root = .ok report ∧
        (lowered'.context settings).foldCalls lowered'.root = .ok (report.rename ρ) := by
  rcases host.lower_renames policy root hsymbols hroom hroom' with
    hfault | ⟨lowered, lowered', ρ, hlower, hlower', hreachable, hrenames⟩
  · exact .inl hfault
  · refine .inr ⟨lowered, lowered', ρ, hlower, hlower', hreachable, hrenames, fun settings => ?_⟩
    have hcontexts : (lowered.context settings).Renames ρ (lowered'.context settings) :=
      ⟨hrenames.injective, hrenames.arena, hrenames.library, rfl, hrenames.text⟩
    rw [hrenames.root]
    exact hcontexts.foldCalls_eq (lower_wellFormed hlower settings)
      (lower_wellFormed hlower' settings) (root_lt_size_of_lower hlower)

end Host

/-- A symbol table that has names for some of the texts of `nextListing`, not in the order in which
lowering meets them. -/
def reordered : SymbolTable := SymbolTable.ofTexts ["evalOther", "evalNext", "y"]

/-- The table came about by interning. -/
theorem reachable_reordered : reordered.Reachable := reachable_ofTexts _

/-- What the block is lowered to with this table: the same program with other names. -/
def reorderedProgram : Lowered Item where
  symbols := SymbolTable.ofTexts ["evalOther", "evalNext", "y", "x", "plus"]
  arena :=
    { nodes := #[.literal (.int 1), .call ⟨2⟩ none ⟨0, 1⟩, .var ⟨3⟩, .block ⟨0, 2⟩,
        .var ⟨4⟩, .literal (.int 1), .call ⟨5⟩ (some ⟨4⟩) ⟨1, 1⟩]
      spans := Array.replicate 7 Span.nowhere
      args := #[⟨0⟩, ⟨5⟩]
      stmts := #[.declare ⟨3⟩ (some ⟨1⟩), .expr ⟨2⟩]
      arms := #[] }
  library := Library.ofList [{ name := ⟨2⟩, params := [⟨4⟩], body := ⟨6⟩ }]
  root := ⟨3⟩
  origins := #[.entry 0, .entry 3, .entry 4, .entry 5, .entry 1, .entry 0, .entry 2]
  asked := #["evalNext"]

/-- The block is lowered to this program. -/
theorem lower_reordered :
    (nextListing.toHost false).lower {} reordered (.entry 5) = .ok reorderedProgram := by
  have hwithin : (nextListing.toHost false).lowerWithin {} reordered (.entry 5) 2 =
      some reorderedProgram := by decide +kernel
  exact Host.lower_eq_of_lowerWithin hwithin

/-- The names of the block are replaced by those of the same texts, and the reports differ in
nothing else. -/
theorem lower_independent_next :
    reordered.Reachable ∧
    nextLowered = .ok nextProgram ∧
    (nextListing.toHost false).lower {} reordered (.entry 5) = .ok reorderedProgram ∧
    ∃ ρ, nextProgram.Renames ρ reorderedProgram ∧
      (nextProgram.context {}).foldCalls nextProgram.root = .ok nextReport ∧
      (reorderedProgram.context {}).foldCalls reorderedProgram.root =
        .ok (nextReport.rename ρ) := by
  rcases Host.lower_independent (nextListing.toHost false) {} (.entry 5) reachable_reordered
      (fun count hfull => by cases hfull.symm.trans nextLowered_eq)
      (fun count hfull => by cases hfull.symm.trans lower_reordered) with
    ⟨fault, hfault, -⟩ | ⟨first, second, ρ, hfirst, hsecond, -, hrenames, hreports⟩
  · cases hfault.symm.trans nextLowered_eq
  · obtain rfl := Except.ok.inj (hfirst.symm.trans nextLowered_eq)
    obtain rfl := Except.ok.inj (hsecond.symm.trans lower_reordered)
    obtain ⟨report, hreport, hreport'⟩ := hreports {}
    obtain rfl := Except.ok.inj (hreport.symm.trans foldCalls_nextProgram)
    exact ⟨reachable_reordered, nextLowered_eq, lower_reordered, ρ, hrenames, hreport, hreport'⟩

end ConstFold
