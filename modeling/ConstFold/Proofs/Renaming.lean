import ConstFold.Lowering
import ConstFold.Report
import Mathlib.Logic.Function.Basic

/-!
# Renaming

Tables, environments and arenas compare names and never look into them, so replacing every name by
another, different ones by different ones, commutes with all that is done with them. Here are the
renamed forms of the structures that hold names, and one lemma for each operation.

`Equivariant` says the same of a step that may fail: on the renamed state the renamed step does what
the step does, renamed.
-/

set_option autoImplicit false

namespace ConstFold

/-! ## Steps on renamed states -/

section Equivariant

variable {ε σ τ α β γ δ : Type}

/-- The ending of a step, with its value and the state it leaves replaced. -/
def mapEnding (onValue : α → β) (onState : σ → τ) : EStateM.Result ε σ α → EStateM.Result ε τ β
  | .ok value state => .ok (onValue value) (onState state)
  | .error exit state => .error exit (onState state)

/-- A step on replaced states does what another does, with its value and state replaced. -/
def Equivariant (onValue : α → β) (onState : σ → τ) (step : EStateM ε σ α)
    (step' : EStateM ε τ β) : Prop :=
  ∀ state, step' (onState state) = mapEnding onValue onState (step state)

namespace Equivariant

variable {onState : σ → τ} {onValue : α → β} {onResult : γ → δ}

/-- Giving the replaced value does what giving the value does. -/
theorem pure (value : α) :
    Equivariant onValue onState (Pure.pure value : EStateM ε σ α) (Pure.pure (onValue value)) :=
  fun _ => rfl

/-- A sequence is equivariant if both of its steps are. -/
theorem bind {first : EStateM ε σ α} {first' : EStateM ε τ β} {next : α → EStateM ε σ γ}
    {next' : β → EStateM ε τ δ} (hfirst : Equivariant onValue onState first first')
    (hnext : ∀ value, Equivariant onResult onState (next value) (next' (onValue value))) :
    Equivariant onResult onState (first >>= next) (first' >>= next') := by
  intro state
  show EStateM.bind first' next' (onState state) = mapEnding _ _ (EStateM.bind first next state)
  unfold EStateM.bind
  rw [hfirst state]
  cases first state with
  | ok value after => exact hnext value after
  | error exit after => rfl

end Equivariant

end Equivariant

/-! ## Tables -/

namespace Table

variable {κ κ' α β : Type}

/-- Replace the keys and the values of a map. -/
def rekey (onKey : κ → κ') (onValue : α → β) (table : Table κ α) : Table κ' β :=
  ⟨table.entries.map (Prod.map onKey onValue)⟩

variable [DecidableEq κ] [DecidableEq κ'] {onKey : κ → κ'} {onValue : α → β}
variable (hkey : Function.Injective onKey)

include hkey

/-- A replaced key looks up to the replaced value. -/
theorem get?_rekey (table : Table κ α) (key : κ) :
    (table.rekey onKey onValue).get? (onKey key) = (table.get? key).map onValue := by
  obtain ⟨entries⟩ := table
  show find? (onKey key) (entries.map (Prod.map onKey onValue)) = (find? key entries).map onValue
  induction entries with
  | nil => rfl
  | cons entry rest ih =>
    obtain ⟨k, value⟩ := entry
    simp only [List.map_cons, Prod.map_apply, find?, hkey.eq_iff, ih]
    split <;> rfl

/-- A replaced key is bound exactly if the key was. -/
theorem contains_rekey (table : Table κ α) (key : κ) :
    (table.rekey onKey onValue).contains (onKey key) = table.contains key := by
  rw [contains, get?_rekey hkey, Option.isSome_map, contains]

/-- Keys may be replaced before or after erasing one. -/
theorem rekey_erase (table : Table κ α) (key : κ) :
    (table.erase key).rekey onKey onValue = (table.rekey onKey onValue).erase (onKey key) := by
  simp [erase, rekey, List.filter_map, Function.comp_def, hkey.eq_iff]

/-- Keys may be replaced before or after inserting one. -/
theorem rekey_insert (table : Table κ α) (key : κ) (value : α) :
    (table.insert key value).rekey onKey onValue =
      (table.rekey onKey onValue).insert (onKey key) (onValue value) := by
  have herase : (table.erase key).rekey onKey onValue =
      (table.rekey onKey onValue).erase (onKey key) := rekey_erase hkey table key
  simp only [insert, ← herase]
  rfl

/-- Keys may be replaced before or after a map is built. -/
theorem rekey_ofList (pairs : List (κ × α)) :
    (ofList pairs).rekey onKey onValue = ofList (pairs.map (Prod.map onKey onValue)) := by
  have hfold : ∀ table : Table κ α,
      (pairs.foldl (fun table pair => table.insert pair.1 pair.2) table).rekey onKey onValue =
        (pairs.map (Prod.map onKey onValue)).foldl
          (fun table pair => table.insert pair.1 pair.2) (table.rekey onKey onValue) := by
    induction pairs with
    | nil => exact fun _ => rfl
    | cons pair rest ih =>
      intro table
      rw [List.foldl_cons, ih, rekey_insert hkey]
      rfl
  exact hfold empty

end Table

/-! ## Environments -/

namespace Env

/-- Replace the names of an environment. -/
def rename (ρ : Name → Name) (env : Env) : Env where
  inner := env.inner.map (Table.rekey ρ id)
  base := env.base.rekey ρ id

variable {ρ : Name → Name} (env : Env)

/-- Names may be replaced before or after a scope is closed. -/
theorem rename_pop : env.pop.rename ρ = (env.rename ρ).pop := by
  simp [rename, pop, List.map_tail]

variable (hρ : Function.Injective ρ)

include hρ

/-- A replaced name looks up to the same value. -/
theorem lookup_rename (name : Name) : (env.rename ρ).lookup (ρ name) = env.lookup name := by
  have hscopes : ∀ scopes : List Scope,
      lookupIn (ρ name) (scopes.map (Table.rekey ρ id)) = lookupIn name scopes := by
    intro scopes
    induction scopes with
    | nil => rfl
    | cons scope rest ih =>
      rw [List.map_cons, lookupIn, lookupIn, Table.get?_rekey hρ, ih, Option.map_id_fun, id_eq]
  rw [lookup, lookup, ← hscopes env.scopes]
  simp [scopes, rename]

/-- Names may be replaced before or after one is defined. -/
theorem rename_define (name : Name) (value : Literal) :
    (env.define name value).rename ρ = (env.rename ρ).define (ρ name) value := by
  obtain ⟨inner, base⟩ := env
  cases inner <;> simp [define, rename, Table.rekey_insert hρ]

/-- Names may be replaced before or after one is assigned to. -/
theorem rename_assign (name : Name) (value : Literal) :
    (env.assign name value).rename ρ = (env.rename ρ).assign (ρ name) value := by
  have hoverwrite : ∀ scopes : List Scope,
      (overwriteIn name value scopes).map (Table.rekey ρ id) =
        overwriteIn (ρ name) value (scopes.map (Table.rekey ρ id)) := by
    intro scopes
    induction scopes with
    | nil => rfl
    | cons scope rest ih =>
      simp only [List.map_cons, overwriteIn, Table.contains_rekey hρ]
      split
      · rw [List.map_cons, Table.rekey_insert hρ]
        rfl
      · rw [List.map_cons, ih]
  have hany : (env.rename ρ).inner.any (·.contains (ρ name)) =
      env.inner.any (·.contains name) := by
    simp [rename, Function.comp_def, Table.contains_rekey hρ]
  have hbase : (env.rename ρ).base.contains (ρ name) = env.base.contains name :=
    Table.contains_rekey hρ env.base name
  unfold assign
  rw [hany, hbase]
  split
  · simp only [rename, hoverwrite]
  · split
    · simp only [rename, Table.rekey_insert hρ, id_eq]
    · exact env.rename_define hρ name value

/-- Names may be replaced before or after one is forgotten. -/
theorem rename_forget (name : Name) :
    (env.forget name).rename ρ = (env.rename ρ).forget (ρ name) := by
  simp [forget, rename, Table.rekey_erase hρ, Function.comp_def]

/-- Names may be replaced before or after an environment is built. -/
theorem rename_ofBindings (bindings : List (Name × Literal)) :
    (ofBindings bindings).rename ρ = ofBindings (bindings.map (Prod.map ρ id)) := by
  simp only [ofBindings, rename, Table.rekey_ofList hρ, List.map_nil]

end Env

/-- Replace the names in the environment of a machine. -/
def Machine.rename (ρ : Name → Name) (machine : Machine) : Machine :=
  { machine with env := machine.env.rename ρ }

/-! ## Arenas -/

/-- Replacing no node of an arm leaves it as it is. -/
@[simp] theorem Arm.map_id_fun {ν : Type} : Arm.map (id : ν → ν) = id := rfl

/-- Replace the name of a stored node. -/
def Node.rename (ρ : Name → Name) : Node → Node
  | .var name => .var (ρ name)
  | .call callee receiver args => .call (ρ callee) receiver args
  | node => node

/-- A range of replaced entries reads as the replaced entries of the range. -/
theorem Range.read_map {α β : Type} (f : α → β) (start length : Nat) (table : Array α) :
    (Range.mk start length : Range β).read (table.map f) =
      ((Range.mk start length : Range α).read table).map (List.map f) := by
  simp only [Range.read, Array.size_map]
  split
  · simp [Except.map]
  · rfl

namespace Arena

/-- Replace the names in an arena. -/
def rename (ρ : Name → Name) (arena : Arena) : Arena :=
  { arena with
    nodes := arena.nodes.map (Node.rename ρ)
    stmts := arena.stmts.map (Stmt.map ρ id) }

variable (ρ : Name → Name) (arena : Arena)

/-- Replacing names adds no node and removes none. -/
@[simp] theorem size_rename : (arena.rename ρ).size = arena.size := by
  simp [rename, size]

/-- A renamed node resolves to the renamed layer. -/
theorem resolve_rename (node : Node) :
    (arena.rename ρ).resolve (node.rename ρ) = (arena.resolve node).map (Shape.map ρ id) := by
  cases node with
  | literal value => rfl
  | var name => rfl
  | call callee receiver args =>
    show (do return Shape.call (ρ callee) receiver (← args.read arena.args)) =
      (do return Shape.call callee receiver (← args.read arena.args)).map (Shape.map ρ id)
    cases args.read arena.args with
    | error fault => rfl
    | ok items => simp [bind, Except.bind, pure, Except.pure, Except.map, Shape.map]
  | conditional arms otherwise =>
    show (do return Shape.conditional (← arms.read arena.arms) otherwise) =
      (do return Shape.conditional (← arms.read arena.arms) otherwise).map (Shape.map ρ id)
    cases arms.read arena.arms with
    | error fault => rfl
    | ok items => simp [bind, Except.bind, pure, Except.pure, Except.map, Shape.map]
  | loop condition body => rfl
  | block stmts =>
    show (do return Shape.block (← stmts.read (arena.stmts.map (Stmt.map ρ id)))) =
      (do return Shape.block (← stmts.read arena.stmts)).map (Shape.map ρ id)
    rw [Range.read_map]
    cases stmts.read arena.stmts <;> rfl
  | ret value => rfl
  | «foreign» children =>
    show (do return Shape.foreign (← children.read arena.args)) =
      (do return Shape.foreign (← children.read arena.args)).map (Shape.map ρ id)
    cases children.read arena.args with
    | error fault => rfl
    | ok items => simp [bind, Except.bind, pure, Except.pure, Except.map, Shape.map]

/-- The layer of a renamed node is the renamed layer of the node. -/
theorem shape_rename (node : NodeId) :
    (arena.rename ρ).shape node = (arena.shape node).map (Shape.map ρ id) := by
  have hnode : (arena.rename ρ).node node = (arena.node node).map (Node.rename ρ) := by
    simp only [Arena.node, rename, Array.getElem?_map]
    cases arena.nodes[node.index]? <;> rfl
  unfold shape
  rw [hnode]
  cases arena.node node with
  | error fault => rfl
  | ok stored => exact arena.resolve_rename ρ stored

/-! ## Additions to an arena -/

/-- The ending of an addition that has appended its entries. -/
def appended {α : Type} (range : Except Fault (Range α)) (arena : Arena) :
    EStateM.Result Fault Arena (Range α) :=
  match range with
  | .ok range => .ok range arena
  | .error fault => .error fault arena

/-- Forming a range ends as an addition does. -/
theorem ofExcept_apply {α : Type} (range : Except Fault (Range α)) (arena : Arena) :
    (MonadExcept.ofExcept range : Build (Range α)) arena = appended range arena := by
  cases range <;> rfl

/-- Adding arguments appends them and gives their range back. -/
theorem addArgs_apply (items : List NodeId) :
    addArgs items arena = appended (rangeFrom arena.args.size items.length)
      { arena with args := arena.args ++ items } :=
  ofExcept_apply _ _

/-- Adding arms appends them and gives their range back. -/
theorem addArms_apply (items : List (Arm NodeId)) :
    addArms items arena = appended (rangeFrom arena.arms.size items.length)
      { arena with arms := arena.arms ++ items } :=
  ofExcept_apply _ _

/-- Adding statements appends them and gives their range back. -/
theorem addStmts_apply (items : List (Stmt Name NodeId)) :
    addStmts items arena = appended (rangeFrom arena.stmts.size items.length)
      { arena with stmts := arena.stmts ++ items } :=
  ofExcept_apply _ _

/-- Names may be replaced before or after an addition ends. -/
theorem appended_rename {α : Type} (range : Except Fault (Range α)) :
    appended range (arena.rename ρ) = mapEnding id (rename ρ) (appended range arena) := by
  cases range <;> rfl

/-- Arguments have no names, so adding them does the same with replaced names. -/
theorem equivariant_addArgs (items : List NodeId) :
    Equivariant id (rename ρ) (addArgs items) (addArgs items) := by
  intro arena
  rw [addArgs_apply, addArgs_apply, ← appended_rename]
  rfl

/-- Arms have no names, so adding them does the same with replaced names. -/
theorem equivariant_addArms (items : List (Arm NodeId)) :
    Equivariant id (rename ρ) (addArms items) (addArms items) := by
  intro arena
  rw [addArms_apply, addArms_apply, ← appended_rename]
  rfl

/-- Adding renamed statements does what adding the statements does. -/
theorem equivariant_addStmts (items : List (Stmt Name NodeId)) :
    Equivariant id (rename ρ) (addStmts items) (addStmts (items.map (Stmt.map ρ id))) := by
  intro arena
  have hstmts : (arena.rename ρ).stmts ++ items.map (Stmt.map ρ id) =
      (arena.stmts ++ items).map (Stmt.map ρ id) := by
    apply Array.toList_inj.1
    simp [rename]
  have hsize : (arena.rename ρ).stmts.size = arena.stmts.size := by simp [rename]
  rw [addStmts_apply, addStmts_apply, ← appended_rename, hsize, List.length_map, hstmts]
  rfl

/-- Adding a renamed node does what adding the node does. -/
theorem equivariant_addNode (node : Node) (span : Span) :
    Equivariant id (rename ρ) (addNode node span) (addNode (node.rename ρ) span) := by
  intro arena
  rw [addNode_apply, addNode_apply, size_rename]
  split
  · rfl
  · simp [mapEnding, rename]

/-- Storing the lists of a renamed layer does what storing those of the layer does. -/
theorem equivariant_store (shape : Shape Name NodeId) :
    Equivariant (Node.rename ρ) (rename ρ) (store shape) (store (shape.map ρ id)) := by
  cases shape with
  | literal value => exact .pure _
  | var name => exact .pure _
  | call callee receiver args =>
    simp only [Shape.map, Option.map_id_fun, List.map_id_fun, id_eq, store]
    exact (equivariant_addArgs ρ args).bind fun range => .pure _
  | conditional arms otherwise =>
    simp only [Shape.map, Arm.map_id_fun, Option.map_id_fun, List.map_id_fun, id_eq, store]
    exact (equivariant_addArms ρ arms).bind fun range => .pure _
  | loop condition body => exact .pure _
  | block stmts => exact (equivariant_addStmts ρ stmts).bind fun range => .pure _
  | ret value => exact .pure _
  | «foreign» children =>
    simp only [Shape.map, List.map_id_fun, id_eq, store]
    exact (equivariant_addArgs ρ children).bind fun range => .pure _

/-- Adding a renamed layer to a renamed arena renames what adding the layer gives. -/
theorem equivariant_add (shape : Shape Name NodeId) (span : Span) :
    Equivariant id (rename ρ) (add shape span) (add (shape.map ρ id) span) :=
  (equivariant_store ρ shape).bind fun node => equivariant_addNode ρ node span

end Arena

/-! ## Definitions, sites and reports -/

/-- Replace the names of a definition. -/
def Definition.rename (ρ : Name → Name) (definition : Definition) : Definition :=
  { definition with name := ρ definition.name, params := definition.params.map ρ }

/-- Replace the names in a library. -/
def Library.rename (ρ : Name → Name) (library : Library) : Library :=
  ⟨library.definitions.rekey ρ (Definition.rename ρ)⟩

/-- A replaced name finds the renamed definition. -/
theorem Library.get?_rename {ρ : Name → Name} (hρ : Function.Injective ρ) (library : Library)
    (name : Name) :
    (library.rename ρ).get? (ρ name) = (library.get? name).map (Definition.rename ρ) :=
  Table.get?_rekey hρ library.definitions name

/-- Names may be replaced before or after a definition is added. -/
theorem Library.rename_define {ρ : Name → Name} (hρ : Function.Injective ρ) (library : Library)
    (definition : Definition) :
    (library.define definition).rename ρ = (library.rename ρ).define (definition.rename ρ) :=
  congrArg Library.mk (Table.rekey_insert hρ library.definitions definition.name definition)

/-- Replace the callee of a site. -/
def CallSite.rename (ρ : Name → Name) (site : CallSite) : CallSite :=
  { site with callee := ρ site.callee }

/-- Replace the callees of the sites in a report. -/
def Report.rename (ρ : Name → Name) (report : Report) : Report :=
  { report with sites := report.sites.map (CallSite.rename ρ) }

end ConstFold
