import ConstFold.Proofs.Lowering
import ConstFold.Proofs.Renaming
import ConstFold.Proofs.Runs

/-!
# Arenas that only grow

Nodes, lists and layers are added to one arena in any order, and some additions fail: a list is too
long for a range, or a table too long for its index type. A failed addition may leave its list
behind in a side table, where no range covers it. It disturbs nothing: whatever was added before
still reads as it was added (`Arena.Stands`), and ids go on without a gap.

What one addition can do is said once (`Arena.Moves`). The main statement,
`Arena.lawful_after_additions`, says of every run of additions what the arena holds, which additions
it refuses next and that nothing it holds will ever read differently.
-/

set_option autoImplicit false

namespace ConstFold

namespace Arena

/-! ## Additions and what is left of them -/

/-- An addition to an arena: a node as it is stored, a list for a side table, or a layer of an
expression together with its list. -/
inductive Addition where
  | node (node : Node) (span : Span)
  | args (items : List NodeId)
  | stmts (items : List (Stmt Name NodeId))
  | arms (items : List (Arm NodeId))
  | layer (shape : Shape Name NodeId) (span : Span)
  | binary (op : Name) (left right : NodeId)
  deriving DecidableEq, Repr

/-- What an addition gives back: the id of its node or the range of its list. -/
inductive Answer where
  | id (id : NodeId)
  | args (range : Range NodeId)
  | stmts (range : Range (Stmt Name NodeId))
  | arms (range : Range (Arm NodeId))
  deriving DecidableEq, Repr

/-- What was added to an arena and answered, oldest first. -/
abbrev History := List (Addition × Except Fault Answer)

/-- How an addition ends. A fault leaves behind what was appended before it. -/
def ending {α : Type} (give : α → Answer) :
    EStateM.Result Fault Arena α → Except Fault Answer × Arena
  | .ok value arena => (.ok (give value), arena)
  | .error fault arena => (.error fault, arena)

/-- Carry out one addition. -/
def attempt (arena : Arena) : Addition → Except Fault Answer × Arena
  | .node node span => ending .id (addNode node span arena)
  | .args items => ending .args (addArgs items arena)
  | .stmts items => ending .stmts (addStmts items arena)
  | .arms items => ending .arms (addArms items arena)
  | .layer shape span => ending .id (add shape span arena)
  | .binary op left right => ending .id (addBinary op left right arena)

/-- A list for one of the side tables, or for none. -/
inductive Entries where
  | none
  | args (items : List NodeId)
  | stmts (items : List (Stmt Name NodeId))
  | arms (items : List (Arm NodeId))

namespace Entries

/-- The list of a layer. -/
def ofShape : Shape Name NodeId → Entries
  | .call _ _ items => .args items
  | .conditional items _ => .arms items
  | .block items => .stmts items
  | .foreign items => .args items
  | _ => .none

/-- The arguments in a list of entries. -/
def toArgs : Entries → List NodeId
  | .args items => items
  | _ => []

/-- The statements in a list of entries. -/
def toStmts : Entries → List (Stmt Name NodeId)
  | .stmts items => items
  | _ => []

/-- The arms in a list of entries. -/
def toArms : Entries → List (Arm NodeId)
  | .arms items => items
  | _ => []

end Entries

/-- The list of an addition. -/
def Addition.entries : Addition → Entries
  | .node _ _ => .none
  | .args items => .args items
  | .stmts items => .stmts items
  | .arms items => .arms items
  | .layer shape _ => .ofShape shape
  | .binary _ _ right => .args [right]

/-- The span of the node of an addition, if it has one. -/
def Addition.span? : Addition → Option Span
  | .node _ span => some span
  | .layer _ span => some span
  | .binary _ _ _ => some Span.nowhere
  | _ => none

/-- The id that was issued for an addition. -/
def id? : Addition × Except Fault Answer → Option NodeId
  | (_, .ok (.id id)) => some id
  | _ => none

/-- The ids that were issued, oldest first. -/
def issued (history : History) : List NodeId :=
  history.filterMap id?

/-- What was added reads as it was added. -/
inductive Stands (arena : Arena) : Addition → Answer → Prop where
  | node {node : Node} {span : Span} {id : NodeId} : arena.node id = .ok node →
      arena.span id = .ok span → Stands arena (.node node span) (.id id)
  | args {items : List NodeId} {range : Range NodeId} : range.read arena.args = .ok items →
      Stands arena (.args items) (.args range)
  | stmts {items : List (Stmt Name NodeId)} {range : Range (Stmt Name NodeId)} :
      range.read arena.stmts = .ok items → Stands arena (.stmts items) (.stmts range)
  | arms {items : List (Arm NodeId)} {range : Range (Arm NodeId)} :
      range.read arena.arms = .ok items → Stands arena (.arms items) (.arms range)
  | layer {shape : Shape Name NodeId} {span : Span} {id : NodeId} : arena.shape id = .ok shape →
      arena.span id = .ok span → Stands arena (.layer shape span) (.id id)
  | binary {op : Name} {left right id : NodeId} :
      arena.shape id = .ok (.call op (some left) [right]) →
      arena.span id = .ok Span.nowhere → Stands arena (.binary op left right) (.id id)

/-- A list whose numbers do not fit when it comes behind a table: the table is too long already, or
the list is. -/
inductive Overflows {α : Type} [Entry α] (table : Array α) (items : List α) : Fault → Prop where
  | start : maxIndex < table.size →
      Overflows table items (.arenaFull (Entry.plural α) table.size)
  | length : table.size ≤ maxIndex → maxLength < items.length →
      Overflows table items (.listTooLong (Entry.plural α) items.length)

/-- A list whose numbers do not fit when it comes behind its side table. -/
inductive Unfit (arena : Arena) : Entries → Fault → Prop where
  | args {items : List NodeId} {fault : Fault} : Overflows arena.args items fault →
      Unfit arena (.args items) fault
  | stmts {items : List (Stmt Name NodeId)} {fault : Fault} : Overflows arena.stmts items fault →
      Unfit arena (.stmts items) fault
  | arms {items : List (Arm NodeId)} {fault : Fault} : Overflows arena.arms items fault →
      Unfit arena (.arms items) fault

/-- Why an addition fails: its list does not fit, or it does but there are too many nodes. -/
inductive Refuses (arena : Arena) (addition : Addition) : Fault → Prop where
  | list {fault : Fault} : Unfit arena addition.entries fault → Refuses arena addition fault
  | nodes {span : Span} : (∀ fault, ¬ Unfit arena addition.entries fault) →
      addition.span? = some span → maxIndex < arena.size →
      Refuses arena addition (.arenaFull "expressions" arena.size)

/-- All that can be read in the one arena reads the same in the other. -/
structure Keeps (before after : Arena) : Prop where
  node : ∀ {id : NodeId} {node : Node}, before.node id = .ok node → after.node id = .ok node
  span : ∀ {id : NodeId} {span : Span}, before.span id = .ok span → after.span id = .ok span
  shape : ∀ {id : NodeId} {shape : Shape Name NodeId},
    before.shape id = .ok shape → after.shape id = .ok shape
  args : ∀ {range : Range NodeId} {items : List NodeId},
    range.read before.args = .ok items → range.read after.args = .ok items
  stmts : ∀ {range : Range (Stmt Name NodeId)} {items : List (Stmt Name NodeId)},
    range.read before.stmts = .ok items → range.read after.stmts = .ok items
  arms : ∀ {range : Range (Arm NodeId)} {items : List (Arm NodeId)},
    range.read before.arms = .ok items → range.read after.arms = .ok items

/-- An arena that holds what its history added. -/
structure Records (history : History) (arena : Arena) : Prop where
  /-- Whatever was added still reads as it was added. -/
  stands : ∀ {addition : Addition} {answer : Answer},
    (addition, Except.ok answer) ∈ history → Stands arena addition answer
  /-- Ids are issued one after the other from zero, and every node was issued one. -/
  ids : issued history = (List.range arena.size).map NodeId.mk
  /-- Every node has a span. -/
  spans : arena.spans.size = arena.size
  /-- Lists lie end to end, those of failed additions among them. -/
  args : arena.args.toList = history.flatMap fun entry => entry.1.entries.toArgs
  stmts : arena.stmts.toList = history.flatMap fun entry => entry.1.entries.toStmts
  arms : arena.arms.toList = history.flatMap fun entry => entry.1.entries.toArms

/-- What an arena is after a history of additions, and what it does next. -/
structure Lawful (history : History) (arena : Arena) : Prop extends Records history arena where
  /-- An addition fails exactly if its numbers do not fit. -/
  refuses : ∀ addition fault,
    (arena.attempt addition).1 = .error fault ↔ Refuses arena addition fault
  /-- An addition appends its list to one side table, also if it fails, and leaves the others as
  they are. -/
  apart : ∀ addition,
    (arena.attempt addition).2.args = arena.args ++ addition.entries.toArgs ∧
    (arena.attempt addition).2.stmts = arena.stmts ++ addition.entries.toStmts ∧
    (arena.attempt addition).2.arms = arena.arms ++ addition.entries.toArms
  /-- An addition that fails or has no node leaves the nodes as they are. -/
  still : ∀ addition,
    addition.span? = none ∨ (∃ fault, (arena.attempt addition).1 = .error fault) →
    (arena.attempt addition).2.nodes = arena.nodes ∧
    (arena.attempt addition).2.spans = arena.spans
  /-- Whatever is added later, all that can be read keeps reading the same. -/
  later : ∀ additions, Keeps arena (Run.ofInputs attempt arena additions).state

/-! ## What one addition does -/

variable {arena next : Arena} {history : History} {addition : Addition}

/-- An arena with a list appended to its side table. -/
def stock (arena : Arena) : Entries → Arena
  | .none => arena
  | .args items => { arena with args := arena.args ++ items }
  | .stmts items => { arena with stmts := arena.stmts ++ items }
  | .arms items => { arena with arms := arena.arms ++ items }

/-- An arena with a node appended. -/
def push (arena : Arena) (node : Node) (span : Span) : Arena :=
  { arena with nodes := arena.nodes.push node, spans := arena.spans.push span }

/-- What an addition can do: fail, append a list, or append a list and a node. A failed addition has
appended its list as well. A node finds its span only where every node before it has one. -/
inductive Moves (arena : Arena) (addition : Addition) : Except Fault Answer → Arena → Prop where
  | refused {fault : Fault} : Refuses arena addition fault →
      Moves arena addition (.error fault) (arena.stock addition.entries)
  | listed {answer : Answer} : (∀ fault, ¬ Refuses arena addition fault) →
      (∀ id, answer ≠ .id id) → Stands (arena.stock addition.entries) addition answer →
      Moves arena addition (.ok answer) (arena.stock addition.entries)
  | placed {node : Node} {span : Span} : (∀ fault, ¬ Refuses arena addition fault) →
      addition.span? = some span →
      (arena.spans.size = arena.size →
        Stands ((arena.stock addition.entries).push node span) addition (.id ⟨arena.size⟩)) →
      Moves arena addition (.ok (.id ⟨arena.size⟩)) ((arena.stock addition.entries).push node span)

section Overflow

variable {α : Type} [Entry α] {table : Array α} {items : List α} {fault fault' : Fault}

/-- A list is refused behind a table exactly if it overflows. -/
theorem rangeFrom_eq_error_iff :
    rangeFrom (α := α) table.size items.length = .error fault ↔ Overflows table items fault := by
  unfold rangeFrom
  constructor
  · intro h
    split at h
    · next hstart =>
      cases h
      exact .start hstart
    · next hstart =>
      split at h
      · next hlength =>
        cases h
        exact .length (Nat.le_of_not_lt hstart) hlength
      · cases h
  · rintro (hstart | ⟨hstart, hlength⟩)
    · rw [if_pos hstart]
    · rw [if_neg (Nat.not_lt.2 hstart), if_pos hlength]

/-- There is one reason why a list overflows a table. -/
theorem Overflows.unique (h : Overflows table items fault) (h' : Overflows table items fault') :
    fault = fault' := by
  rw [← rangeFrom_eq_error_iff] at h h'
  exact Except.error.inj (h.symm.trans h')

/-- A list that is not refused behind a table is given the range behind it. -/
theorem rangeFrom_cases (table : Array α) (items : List α) :
    (∃ fault, rangeFrom (α := α) table.size items.length = .error fault ∧
      Overflows table items fault) ∨
    (rangeFrom (α := α) table.size items.length = .ok ⟨table.size, items.length⟩ ∧
      ∀ fault, ¬ Overflows table items fault) := by
  cases hrange : rangeFrom (α := α) table.size items.length with
  | error fault => exact .inl ⟨fault, rfl, rangeFrom_eq_error_iff.1 hrange⟩
  | ok range =>
    refine .inr ⟨?_, fun fault h => ?_⟩
    · unfold rangeFrom at hrange
      split at hrange
      · cases hrange
      · split at hrange
        · cases hrange
        · exact hrange.symm
    · rw [← rangeFrom_eq_error_iff, hrange] at h
      cases h

end Overflow

/-! ### Refusal -/

/-- There is one reason why a list does not fit. -/
theorem Unfit.unique {entries : Entries} {fault fault' : Fault} (h : Unfit arena entries fault)
    (h' : Unfit arena entries fault') : fault = fault' := by
  cases h with
  | args h =>
    cases h' with
    | args h' => exact h.unique h'
  | stmts h =>
    cases h' with
    | stmts h' => exact h.unique h'
  | arms h =>
    cases h' with
    | arms h' => exact h.unique h'

/-- There is one reason why an addition is refused. -/
theorem Refuses.unique {fault fault' : Fault} (h : Refuses arena addition fault)
    (h' : Refuses arena addition fault') : fault = fault' := by
  cases h with
  | list h =>
    cases h' with
    | list h' => exact h.unique h'
    | nodes hfit _ _ => exact absurd h (hfit _)
  | nodes hfit _ _ =>
    cases h' with
    | list h' => exact absurd h' (hfit _)
    | nodes _ _ _ => rfl

/-- A list on its own is not refused when it fits. -/
theorem not_refuses_of_list (hfit : ∀ fault, ¬ Unfit arena addition.entries fault)
    (hspan : addition.span? = none) (fault : Fault) : ¬ Refuses arena addition fault := by
  rintro (h | ⟨_, hsome, _⟩)
  · exact hfit fault h
  · rw [hspan] at hsome
    cases hsome

/-- A node is not refused when its list fits and there is a number for it. -/
theorem not_refuses_of_node (hfit : ∀ fault, ¬ Unfit arena addition.entries fault)
    (hroom : arena.size ≤ maxIndex) (fault : Fault) : ¬ Refuses arena addition fault := by
  rintro (h | ⟨_, _, hfull⟩)
  · exact hfit fault h
  · exact Nat.not_lt.2 hroom hfull

/-! ### Lists -/

/-- A list on its own is appended, and its range reads it. -/
theorem moves_list {α : Type} [Entry α] {table : Array α} {items : List α}
    {give : Range α → Answer}
    (hgive : ∀ range id, give range ≠ .id id) (hspan : addition.span? = none)
    (hunfit : ∀ fault, Unfit arena addition.entries fault ↔ Overflows table items fault)
    (hstands : ∀ range : Range α, range.read (table ++ items) = .ok items →
      Stands (arena.stock addition.entries) addition (give range)) :
    Moves arena addition
      (ending give (appended (rangeFrom table.size items.length) (arena.stock addition.entries))).1
      (ending give
        (appended (rangeFrom table.size items.length) (arena.stock addition.entries))).2 := by
  rcases rangeFrom_cases table items with ⟨fault, hrange, hfault⟩ | ⟨hrange, hfits⟩
  · rw [hrange]
    exact .refused (.list ((hunfit fault).2 hfault))
  · rw [hrange]
    refine .listed (not_refuses_of_list (fun fault h => hfits fault ((hunfit fault).1 h)) hspan)
      (hgive _) (hstands _ (Range.read_last table items))

/-- A list of arguments does not fit exactly if it overflows the argument table. -/
theorem unfit_args_iff {items : List NodeId} (fault : Fault) :
    Unfit arena (.args items) fault ↔ Overflows arena.args items fault :=
  ⟨fun | .args h => h, .args⟩

/-- A list of statements does not fit exactly if it overflows the statement table. -/
theorem unfit_stmts_iff {items : List (Stmt Name NodeId)} (fault : Fault) :
    Unfit arena (.stmts items) fault ↔ Overflows arena.stmts items fault :=
  ⟨fun | .stmts h => h, .stmts⟩

/-- A list of arms does not fit exactly if it overflows the arm table. -/
theorem unfit_arms_iff {items : List (Arm NodeId)} (fault : Fault) :
    Unfit arena (.arms items) fault ↔ Overflows arena.arms items fault :=
  ⟨fun | .arms h => h, .arms⟩

/-! ### Nodes -/

/-- Appending a list adds no node. -/
@[simp] theorem stock_nodes (entries : Entries) : (arena.stock entries).nodes = arena.nodes := by
  cases entries <;> rfl

/-- Appending a list adds no location. -/
@[simp] theorem stock_spans (entries : Entries) : (arena.stock entries).spans = arena.spans := by
  cases entries <;> rfl

/-- Appending a list leaves the number of nodes alone. -/
@[simp] theorem stock_size (entries : Entries) : (arena.stock entries).size = arena.size := by
  rw [size, size, stock_nodes]

/-- A node reads as what stands at its number. -/
theorem node_eq_ok_iff {id : NodeId} {node : Node} :
    arena.node id = .ok node ↔ arena.nodes[id.index]? = some node := by
  unfold Arena.node
  cases arena.nodes[id.index]? <;> simp

/-- The location of a node is what stands at its number. -/
theorem span_eq_ok_iff {id : NodeId} {span : Span} :
    arena.span id = .ok span ↔ arena.spans[id.index]? = some span := by
  unfold Arena.span
  cases arena.spans[id.index]? <;> simp

/-- The node that was appended last reads as it was appended. -/
theorem node_push (node : Node) (span : Span) :
    (arena.push node span).node ⟨arena.size⟩ = .ok node :=
  node_eq_ok_iff.2 Array.getElem?_push_size

/-- The node that was appended last has the location it was appended with. -/
theorem span_push (node : Node) (span : Span) (hlocated : arena.spans.size = arena.size) :
    (arena.push node span).span ⟨arena.size⟩ = .ok span := by
  rw [span_eq_ok_iff, ← hlocated]
  exact Array.getElem?_push_size

/-- What a node stands for depends on the side tables only. -/
theorem resolve_congr (hargs : next.args = arena.args) (hstmts : next.stmts = arena.stmts)
    (harms : next.arms = arena.arms) (node : Node) : next.resolve node = arena.resolve node := by
  cases node <;> simp only [resolve, hargs, hstmts, harms]

/-- A node is appended behind a list that fits, unless there are too many nodes. -/
theorem moves_node {node : Node} {span : Span} (hspan : addition.span? = some span)
    (hfit : ∀ fault, ¬ Unfit arena addition.entries fault)
    (hstands : ((arena.stock addition.entries).push node span).node ⟨arena.size⟩ = .ok node →
      ((arena.stock addition.entries).push node span).span ⟨arena.size⟩ = .ok span →
      Stands ((arena.stock addition.entries).push node span) addition (.id ⟨arena.size⟩)) :
    Moves arena addition (ending .id (addNode node span (arena.stock addition.entries))).1
      (ending .id (addNode node span (arena.stock addition.entries))).2 := by
  rw [addNode_apply, stock_size]
  split
  · next hfull => exact .refused (.nodes hfit hspan hfull)
  · next hroom =>
    refine .placed (not_refuses_of_node hfit (Nat.le_of_not_lt hroom)) hspan fun hlocated => ?_
    rw [← stock_size addition.entries] at hstands ⊢
    refine hstands (node_push node span) (span_push node span ?_)
    rw [stock_spans, stock_size, hlocated]

/-- A node that ends in the range of a list is stored exactly if the list fits. -/
theorem bind_list_cases {α : Type} [Entry α] {table : Array α} {items : List α}
    {entries : Entries} {addition : Build (Range α)} {stored : Range α → Node}
    (hadd : addition arena = appended (rangeFrom table.size items.length) (arena.stock entries))
    (hunfit : ∀ fault, Unfit arena entries fault ↔ Overflows table items fault) :
    (∃ fault, (addition >>= fun range => pure (stored range)) arena =
        .error fault (arena.stock entries) ∧ Unfit arena entries fault) ∨
    (∃ node, (addition >>= fun range => pure (stored range)) arena =
        .ok node (arena.stock entries) ∧ ∀ fault, ¬ Unfit arena entries fault) := by
  change (∃ fault, EStateM.bind addition _ arena = _ ∧ _) ∨
    (∃ node, EStateM.bind addition _ arena = _ ∧ _)
  unfold EStateM.bind
  rw [hadd]
  rcases rangeFrom_cases table items with ⟨fault, hrange, hfault⟩ | ⟨hrange, hfits⟩
  · rw [hrange]
    exact .inl ⟨fault, rfl, (hunfit fault).2 hfault⟩
  · rw [hrange]
    exact .inr ⟨_, rfl, fun fault h => hfits fault ((hunfit fault).1 h)⟩

/-- Storing a layer appends its list, and fails exactly if the list does not fit. -/
theorem store_cases (arena : Arena) (shape : Shape Name NodeId) :
    (∃ fault, store shape arena = .error fault (arena.stock (.ofShape shape)) ∧
      Unfit arena (.ofShape shape) fault) ∨
    (∃ node, store shape arena = .ok node (arena.stock (.ofShape shape)) ∧
      ∀ fault, ¬ Unfit arena (.ofShape shape) fault) := by
  cases shape with
  | call callee receiver items => exact bind_list_cases (addArgs_apply arena items) unfit_args_iff
  | conditional items otherwise => exact bind_list_cases (addArms_apply arena items) unfit_arms_iff
  | block items => exact bind_list_cases (addStmts_apply arena items) unfit_stmts_iff
  | «foreign» items => exact bind_list_cases (addArgs_apply arena items) unfit_args_iff
  | literal value => exact .inr ⟨_, rfl, nofun⟩
  | var name => exact .inr ⟨_, rfl, nofun⟩
  | loop condition body => exact .inr ⟨_, rfl, nofun⟩
  | ret value => exact .inr ⟨_, rfl, nofun⟩

/-- A layer is appended with its list and reads as it was added. -/
theorem moves_add {shape : Shape Name NodeId} {span : Span}
    (hentries : addition.entries = .ofShape shape) (hspan : addition.span? = some span)
    (hstands : ∀ {next : Arena} {id : NodeId}, next.shape id = .ok shape →
      next.span id = .ok span → Stands next addition (.id id)) :
    Moves arena addition (ending .id (add shape span arena)).1
      (ending .id (add shape span arena)).2 := by
  have hadd : add shape span arena = EStateM.bind (store shape) (addNode · span) arena := rfl
  unfold EStateM.bind at hadd
  rcases store_cases arena shape with ⟨fault, hstore, hunfit⟩ | ⟨node, hstore, hfit⟩
  · rw [← hentries] at hstore hunfit
    rw [hadd, hstore]
    exact .refused (.list hunfit)
  · obtain ⟨-, -, -, hresolve⟩ := store_eq_ok hstore
    rw [← hentries] at hstore hfit hresolve
    rw [hadd, hstore]
    refine moves_node hspan hfit fun hnode => hstands (shape_eq_ok_iff.2 ⟨node, ?_, ?_⟩)
    · exact node_eq_ok_iff.1 hnode
    · exact (resolve_congr rfl rfl rfl node).trans hresolve

/-- Every addition makes one of these moves. -/
theorem moves_attempt (arena : Arena) (addition : Addition) :
    Moves arena addition (arena.attempt addition).1 (arena.attempt addition).2 := by
  cases addition with
  | node node span => exact moves_node rfl nofun .node
  | args items =>
    rw [attempt, addArgs_apply]
    exact moves_list nofun rfl unfit_args_iff fun _ hread => .args hread
  | stmts items =>
    rw [attempt, addStmts_apply]
    exact moves_list nofun rfl unfit_stmts_iff fun _ hread => .stmts hread
  | arms items =>
    rw [attempt, addArms_apply]
    exact moves_list nofun rfl unfit_arms_iff fun _ hread => .arms hread
  | layer shape span => exact moves_add rfl rfl .layer
  | binary op left right => exact moves_add rfl rfl .binary

/-! ## What every addition keeps -/

/-- An arena keeps what can be read in it. -/
theorem Keeps.refl (arena : Arena) : Keeps arena arena :=
  ⟨id, id, id, id, id, id⟩

/-- What is kept twice is kept. -/
theorem Keeps.trans {first second third : Arena} (h : Keeps first second)
    (h' : Keeps second third) : Keeps first third where
  node hnode := h'.node (h.node hnode)
  span hspan := h'.span (h.span hspan)
  shape hshape := h'.shape (h.shape hshape)
  args hread := h'.args (h.args hread)
  stmts hread := h'.stmts (h.stmts hread)
  arms hread := h'.arms (h.arms hread)

/-- What reads as it was added keeps reading so. -/
theorem Keeps.stands (h : Keeps arena next) {answer : Answer}
    (hstands : Stands arena addition answer) : Stands next addition answer := by
  cases hstands with
  | node hnode hspan => exact .node (h.node hnode) (h.span hspan)
  | args hread => exact .args (h.args hread)
  | stmts hread => exact .stmts (h.stmts hread)
  | arms hread => exact .arms (h.arms hread)
  | layer hshape hspan => exact .layer (h.shape hshape) (h.span hspan)
  | binary hshape hspan => exact .binary (h.shape hshape) (h.span hspan)

/-- A table that grew at its end reads the same at every place it had. -/
theorem getElem?_eq_some_of_append {α : Type} {before after : Array α} {index : Nat} {value : α}
    (hgrow : ∃ more : List α, after = before ++ more) (h : before[index]? = some value) :
    after[index]? = some value := by
  obtain ⟨more, rfl⟩ := hgrow
  have hlt : index < before.toList.length := (Array.getElem?_eq_some_iff.1 h).1
  rw [← Array.getElem?_toList, Array.toList_appendList, List.getElem?_append_left hlt,
    Array.getElem?_toList, h]

/-- Tables that grow at their ends keep all that can be read. -/
theorem TablesGrow.keeps (h : TablesGrow arena next)
    (hnodes : ∃ more : List Node, next.nodes = arena.nodes ++ more)
    (hspans : ∃ more : List Span, next.spans = arena.spans ++ more) : Keeps arena next := by
  refine ⟨fun {id node} hnode => ?_, fun {id span} hspan => ?_, fun hshape => ?_,
    fun hread => ?_, fun hread => ?_, fun hread => ?_⟩
  · rw [node_eq_ok_iff] at hnode ⊢
    exact getElem?_eq_some_of_append hnodes hnode
  · rw [span_eq_ok_iff] at hspan ⊢
    exact getElem?_eq_some_of_append hspans hspan
  · obtain ⟨node, hnode, hresolve⟩ := shape_eq_ok_iff.1 hshape
    exact shape_eq_ok_iff.2 ⟨node, getElem?_eq_some_of_append hnodes hnode, h.resolve hresolve⟩
  · obtain ⟨more, hmore⟩ := h.args
    rw [hmore]
    exact Range.read_append more hread
  · obtain ⟨more, hmore⟩ := h.stmts
    rw [hmore]
    exact Range.read_append more hread
  · obtain ⟨more, hmore⟩ := h.arms
    rw [hmore]
    exact Range.read_append more hread

variable {answer : Except Fault Answer}

/-- Appending a list adds its arguments to the argument table. -/
theorem stock_args (entries : Entries) :
    (arena.stock entries).args = arena.args ++ entries.toArgs := by
  cases entries <;> simp [stock, Entries.toArgs]

/-- Appending a list adds its statements to the statement table. -/
theorem stock_stmts (entries : Entries) :
    (arena.stock entries).stmts = arena.stmts ++ entries.toStmts := by
  cases entries <;> simp [stock, Entries.toStmts]

/-- Appending a list adds its arms to the arm table. -/
theorem stock_arms (entries : Entries) :
    (arena.stock entries).arms = arena.arms ++ entries.toArms := by
  cases entries <;> simp [stock, Entries.toArms]

/-- An addition appends its list to its side table, whether it fails or not. -/
theorem Moves.tables (h : Moves arena addition answer next) :
    next.args = arena.args ++ addition.entries.toArgs ∧
    next.stmts = arena.stmts ++ addition.entries.toStmts ∧
    next.arms = arena.arms ++ addition.entries.toArms := by
  cases h <;> exact ⟨stock_args _, stock_stmts _, stock_arms _⟩

/-- An addition appends a node exactly if it gives an id. -/
theorem Moves.nodes (h : Moves arena addition answer next) :
    (next.nodes = arena.nodes ∧ next.spans = arena.spans ∧ id? (addition, answer) = none) ∨
    ∃ node span, next.nodes = arena.nodes.push node ∧ next.spans = arena.spans.push span ∧
      id? (addition, answer) = some ⟨arena.size⟩ := by
  cases h with
  | refused _ => exact .inl ⟨stock_nodes _, stock_spans _, rfl⟩
  | @listed answer _ hid _ =>
    refine .inl ⟨stock_nodes _, stock_spans _, ?_⟩
    cases answer with
    | id id => exact absurd rfl (hid id)
    | args range => rfl
    | stmts range => rfl
    | arms range => rfl
  | @placed node span _ _ _ =>
    exact .inr ⟨node, span, congrArg (·.push node) (stock_nodes _),
      congrArg (·.push span) (stock_spans _), rfl⟩

/-- An addition keeps all that can be read. -/
theorem Moves.keeps (h : Moves arena addition answer next) : Keeps arena next := by
  obtain ⟨hargs, hstmts, harms⟩ := h.tables
  have hgrow : TablesGrow arena next := ⟨⟨_, hargs⟩, ⟨_, hstmts⟩, ⟨_, harms⟩⟩
  rcases h.nodes with ⟨hnodes, hspans, -⟩ | ⟨node, span, hnodes, hspans, -⟩
  · exact hgrow.keeps ⟨[], by simp [hnodes]⟩ ⟨[], by simp [hspans]⟩
  · exact hgrow.keeps ⟨[node], by simp [hnodes]⟩ ⟨[span], by simp [hspans]⟩

/-! ## What every run of additions leaves -/

/-- The empty arena holds nothing. -/
theorem records_empty : Records [] empty where
  stands hmem := by cases hmem
  ids := rfl
  spans := rfl
  args := rfl
  stmts := rfl
  arms := rfl

/-- A table that holds the lists of a history holds those of a longer history when a list is
appended. -/
theorem toList_eq_flatMap_concat {α : Type} {table table' : Array α}
    {items : Addition × Except Fault Answer → List α} {entry : Addition × Except Fault Answer}
    (h : table.toList = history.flatMap items) (htable : table' = table ++ items entry) :
    table'.toList = (history ++ [entry]).flatMap items := by
  rw [htable, Array.toList_appendList, h, List.flatMap_append, List.flatMap_singleton]

/-- Every addition keeps what was added before on record. -/
theorem Records.moves (h : Records history arena) (hmoves : Moves arena addition answer next) :
    Records (history ++ [(addition, answer)]) next := by
  obtain ⟨hargs, hstmts, harms⟩ := hmoves.tables
  refine ⟨fun {added given} hmem => ?_, ?_, ?_, toList_eq_flatMap_concat h.args hargs,
    toList_eq_flatMap_concat h.stmts hstmts, toList_eq_flatMap_concat h.arms harms⟩
  · rcases List.mem_append.1 hmem with hold | hnew
    · exact hmoves.keeps.stands (h.stands hold)
    · cases List.mem_singleton.1 hnew
      cases hmoves with
      | listed _ _ hstands => exact hstands
      | placed _ _ hstands => exact hstands h.spans
  · rw [issued, List.filterMap_append, ← issued, h.ids]
    rcases hmoves.nodes with ⟨hnodes, -, hid⟩ | ⟨node, span, hnodes, -, hid⟩
    · simp [size, hnodes, hid]
    · simp [size, hnodes, hid, List.range_succ]
  · have hspans := h.spans
    rcases hmoves.nodes with ⟨hnodes, hspans', -⟩ | ⟨node, span, hnodes, hspans', -⟩
    · rw [size, hspans', hnodes]
      exact hspans
    · rw [size, hspans', hnodes, Array.size_push, Array.size_push, hspans, size]

/-- After any additions an arena holds what its history added. -/
theorem records_after_additions (additions : List Addition) :
    Records (Run.ofInputs attempt empty additions).history
      (Run.ofInputs attempt empty additions).state :=
  Run.ofInputs_induction (motive := Records) records_empty
    (fun _ arena addition h => h.moves (moves_attempt arena addition)) additions

/-- Whatever is added to an arena, all that can be read in it keeps reading the same. -/
theorem keeps_after_additions (arena : Arena) (additions : List Addition) :
    Keeps arena (Run.ofInputs attempt arena additions).state :=
  Run.ofInputs_induction (motive := fun _ => Keeps arena) (.refl arena)
    (fun _ state addition h => h.trans (moves_attempt state addition).keeps) additions

/-- An addition fails exactly if its numbers do not fit. -/
theorem attempt_eq_error_iff {fault : Fault} :
    (arena.attempt addition).1 = .error fault ↔ Refuses arena addition fault := by
  have hmoves := moves_attempt arena addition
  generalize (arena.attempt addition).1 = answer at hmoves ⊢
  generalize (arena.attempt addition).2 = next at hmoves
  cases hmoves with
  | @refused found hfound =>
    constructor
    · intro h
      cases h
      exact hfound
    · intro h
      rw [hfound.unique h]
  | listed hfits _ _ => exact ⟨nofun, fun h => absurd h (hfits fault)⟩
  | placed hfits _ _ => exact ⟨nofun, fun h => absurd h (hfits fault)⟩

/-- A node is appended only by an addition that has one and does not fail. -/
theorem Moves.still (h : Moves arena addition answer next)
    (hstill : addition.span? = none ∨ ∃ fault, answer = .error fault) :
    next.nodes = arena.nodes ∧ next.spans = arena.spans := by
  cases h with
  | refused _ => exact ⟨stock_nodes _, stock_spans _⟩
  | listed _ _ _ => exact ⟨stock_nodes _, stock_spans _⟩
  | placed _ hspan _ =>
    rcases hstill with hnone | ⟨fault, herror⟩
    · rw [hspan] at hnone
      cases hnone
    · cases herror

/-- After any additions, some of which may have failed, an arena holds exactly what was added to it,
ids and ranges read what they were given for, and no addition to come will change that. -/
theorem lawful_after_additions (additions : List Addition) :
    Lawful (Run.ofInputs attempt empty additions).history
      (Run.ofInputs attempt empty additions).state where
  toRecords := records_after_additions additions
  refuses _ _ := attempt_eq_error_iff
  apart addition := (moves_attempt _ addition).tables
  still addition := (moves_attempt _ addition).still
  later := keeps_after_additions _

end Arena

end ConstFold
