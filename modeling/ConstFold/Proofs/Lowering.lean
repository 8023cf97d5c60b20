import ConstFold.Host.Listing
import ConstFold.Lowering
import ConstFold.Proofs.HostTree
import ConstFold.Proofs.Splicing
import ConstFold.Proofs.Symbols
import ConstFold.Proofs.Traversal

/-!
# What lowering builds

Lowering only appends: a node that has been added keeps its layer (`Arena.Extends`), and a layer is
added after the children it refers to. So a lowered arena is ordered, and the trees of different
functions lie behind each other. `Arena.Laid floor` says this of one boundary: no node from `floor`
on refers to a node before it.

The main statement is `Host.lower_separated`: in a lowered program the bodies of functions are
separated from the tree of the root. With it, `Host.exists_report_reduce_splice` says that the calls
folded in a lowered program can be replaced by their constants.
-/

set_option autoImplicit false

namespace ConstFold

variable {ν : Type}

/-- A computation that succeeds has steps that succeed. -/
theorem exists_of_bind_eq_ok {ε σ α β : Type} {first : EStateM ε σ α} {next : α → EStateM ε σ β}
    {state final : σ} {result : β} (h : (first >>= next) state = .ok result final) :
    ∃ value middle, first state = .ok value middle ∧ next value middle = .ok result final := by
  change EStateM.bind first next state = _ at h
  unfold EStateM.bind at h
  cases hfirst : first state with
  | ok value middle =>
    rw [hfirst] at h
    exact ⟨value, middle, rfl, h⟩
  | error fault middle =>
    rw [hfirst] at h
    cases h

/-! ## Additions to an arena -/

namespace Range

variable {α : Type}

/-- Appending a list adds its length to a table. -/
theorem size_append_list (table : Array α) (items : List α) :
    (table ++ items).size = table.size + items.length := by
  rw [← Array.length_toList, Array.toList_appendList, List.length_append, Array.length_toList]

/-- A range reads the same after entries were appended. -/
theorem read_append {range : Range α} {table : Array α} {items : List α} (more : List α)
    (h : range.read table = .ok items) : range.read (table ++ more) = .ok items := by
  unfold read at h ⊢
  split at h
  · next hle =>
    have hle' : range.start + range.length ≤ (table ++ more).size := by
      rw [size_append_list]
      omega
    have hlength : range.length ≤ (table.toList.drop range.start).length := by
      rw [List.length_drop, Array.length_toList]
      omega
    rw [if_pos hle', ← h]
    simp only [Array.toList_extract, Array.toList_appendList, List.extract_eq_take_drop]
    rw [Nat.add_sub_cancel_left, List.drop_append_of_le_length (by simp; omega),
      List.take_append_of_le_length hlength]
  · cases h

/-- What is computed from the entries of a range stays the same after entries were appended. -/
theorem bind_read_append {β : Type} {range : Range α} {table : Array α} {next : List α → Except Fault β}
    {result : β} (more : List α) (h : range.read table >>= next = .ok result) :
    range.read (table ++ more) >>= next = .ok result := by
  cases hread : range.read table with
  | error fault =>
    rw [hread] at h
    cases h
  | ok items =>
    rw [hread] at h
    rw [read_append more hread]
    exact h

/-- The range at the end of a table reads back the entries appended there. -/
theorem read_last (table : Array α) (items : List α) :
    Range.read ⟨table.size, items.length⟩ (table ++ items) = .ok items := by
  unfold read
  rw [if_pos (Nat.le_of_eq (size_append_list table items).symm)]
  simp only [Array.toList_extract, Array.toList_appendList, List.extract_eq_take_drop]
  rw [Nat.add_sub_cancel_left, ← Array.length_toList, List.drop_left, List.take_length]

end Range

namespace Arena

variable {arena arena' : Arena}

/-- A range that can be formed has the given start and length, and forming it changes nothing. -/
theorem ofExcept_rangeFrom_eq_ok {α : Type} [Entry α] {start length : Nat} {range : Range α}
    (h : (MonadExcept.ofExcept (rangeFrom start length) : Build (Range α)) arena = .ok range arena') :
    arena' = arena ∧ range = ⟨start, length⟩ := by
  unfold rangeFrom at h
  split at h
  · cases h
  · split at h
    · cases h
    · cases h
      exact ⟨rfl, rfl⟩

/-- Added arguments are appended, and the range given back is theirs. -/
theorem addArgs_eq_ok {items : List NodeId} {range : Range NodeId}
    (h : addArgs items arena = .ok range arena') :
    arena' = { arena with args := arena.args ++ items } ∧
      range = ⟨arena.args.size, items.length⟩ :=
  ofExcept_rangeFrom_eq_ok h

/-- Added statements are appended, and the range given back is theirs. -/
theorem addStmts_eq_ok {items : List (Stmt Name NodeId)} {range : Range (Stmt Name NodeId)}
    (h : addStmts items arena = .ok range arena') :
    arena' = { arena with stmts := arena.stmts ++ items } ∧
      range = ⟨arena.stmts.size, items.length⟩ :=
  ofExcept_rangeFrom_eq_ok h

/-- Added arms are appended, and the range given back is theirs. -/
theorem addArms_eq_ok {items : List (Arm NodeId)} {range : Range (Arm NodeId)}
    (h : addArms items arena = .ok range arena') :
    arena' = { arena with arms := arena.arms ++ items } ∧
      range = ⟨arena.arms.size, items.length⟩ :=
  ofExcept_rangeFrom_eq_ok h

/-- The side tables of the one arena begin with those of the other. -/
structure TablesGrow (before after : Arena) : Prop where
  args : ∃ items : List NodeId, after.args = before.args ++ items
  stmts : ∃ items : List (Stmt Name NodeId), after.stmts = before.stmts ++ items
  arms : ∃ items : List (Arm NodeId), after.arms = before.arms ++ items

/-- Side tables begin with themselves. -/
theorem TablesGrow.refl (arena : Arena) : TablesGrow arena arena :=
  ⟨⟨[], by simp⟩, ⟨[], by simp⟩, ⟨[], by simp⟩⟩

/-- A node resolves to the same layer after the side tables have grown. -/
theorem TablesGrow.resolve (h : TablesGrow arena arena') {node : Node} {shape : Shape Name NodeId}
    (hnode : arena.resolve node = .ok shape) : arena'.resolve node = .ok shape := by
  obtain ⟨⟨args, hargs⟩, ⟨stmts, hstmts⟩, ⟨arms, harms⟩⟩ := h
  cases node with
  | literal value => exact hnode
  | var name => exact hnode
  | loop condition body => exact hnode
  | ret value => exact hnode
  | call callee receiver range =>
    simp only [Arena.resolve, hargs] at hnode ⊢
    exact Range.bind_read_append args hnode
  | conditional range otherwise =>
    simp only [Arena.resolve, harms] at hnode ⊢
    exact Range.bind_read_append arms hnode
  | block range =>
    simp only [Arena.resolve, hstmts] at hnode ⊢
    exact Range.bind_read_append stmts hnode
  | «foreign» range =>
    simp only [Arena.resolve, hargs] at hnode ⊢
    exact Range.bind_read_append args hnode

/-- Storing the lists of a layer leaves the nodes alone, and what is stored can be read back. -/
theorem store_eq_ok {shape : Shape Name NodeId} {node : Node}
    (h : store shape arena = .ok node arena') :
    arena'.nodes = arena.nodes ∧ arena'.spans = arena.spans ∧ TablesGrow arena arena' ∧
      arena'.resolve node = .ok shape := by
  have hargs : ∃ items : List NodeId, arena.args = arena.args ++ items := ⟨[], by simp⟩
  have hstmts : ∃ items : List (Stmt Name NodeId), arena.stmts = arena.stmts ++ items :=
    ⟨[], by simp⟩
  have harms : ∃ items : List (Arm NodeId), arena.arms = arena.arms ++ items := ⟨[], by simp⟩
  cases shape with
  | literal value =>
    cases h
    exact ⟨rfl, rfl, .refl arena, rfl⟩
  | var name =>
    cases h
    exact ⟨rfl, rfl, .refl arena, rfl⟩
  | loop condition body =>
    cases h
    exact ⟨rfl, rfl, .refl arena, rfl⟩
  | ret value =>
    cases h
    exact ⟨rfl, rfl, .refl arena, rfl⟩
  | call callee receiver args =>
    obtain ⟨range, middle, hadd, hnode⟩ := exists_of_bind_eq_ok h
    obtain ⟨rfl, rfl⟩ := addArgs_eq_ok hadd
    cases hnode
    refine ⟨rfl, rfl, ⟨⟨args, rfl⟩, hstmts, harms⟩, ?_⟩
    simp only [resolve, Range.read_last]
    rfl
  | conditional arms otherwise =>
    obtain ⟨range, middle, hadd, hnode⟩ := exists_of_bind_eq_ok h
    obtain ⟨rfl, rfl⟩ := addArms_eq_ok hadd
    cases hnode
    refine ⟨rfl, rfl, ⟨hargs, hstmts, ⟨arms, rfl⟩⟩, ?_⟩
    simp only [resolve, Range.read_last]
    rfl
  | block stmts =>
    obtain ⟨range, middle, hadd, hnode⟩ := exists_of_bind_eq_ok h
    obtain ⟨rfl, rfl⟩ := addStmts_eq_ok hadd
    cases hnode
    refine ⟨rfl, rfl, ⟨hargs, ⟨stmts, rfl⟩, harms⟩, ?_⟩
    simp only [resolve, Range.read_last]
    rfl
  | «foreign» children =>
    obtain ⟨range, middle, hadd, hnode⟩ := exists_of_bind_eq_ok h
    obtain ⟨rfl, rfl⟩ := addArgs_eq_ok hadd
    cases hnode
    refine ⟨rfl, rfl, ⟨⟨children, rfl⟩, hstmts, harms⟩, ?_⟩
    simp only [resolve, Range.read_last]
    rfl

/-- The layer at an index is what the node stored there resolves to. -/
theorem shape_eq_ok_iff {id : NodeId} {shape : Shape Name NodeId} :
    arena.shape id = .ok shape ↔
      ∃ node, arena.nodes[id.index]? = some node ∧ arena.resolve node = .ok shape := by
  unfold Arena.shape Arena.node
  cases arena.nodes[id.index]? with
  | none => simp [bind, Except.bind]
  | some node => simp [bind, Except.bind]

/-- An arena that has all nodes of another, with the layers they had. -/
structure Extends (before after : Arena) : Prop where
  size_le : before.size ≤ after.size
  shape : ∀ {id : NodeId} {shape : Shape Name NodeId},
    before.shape id = .ok shape → after.shape id = .ok shape

/-- An arena has its own nodes with their layers. -/
theorem Extends.refl (arena : Arena) : Extends arena arena := ⟨Nat.le_refl _, fun h => h⟩

/-- Nodes that keep their layers twice keep them. -/
theorem Extends.trans {first second third : Arena} (h : Extends first second)
    (h' : Extends second third) : Extends first third :=
  ⟨Nat.le_trans h.size_le h'.size_le, fun hshape => h'.shape (h.shape hshape)⟩

/-- An added node gets the next index, and it is stored there with its location. -/
theorem addNode_eq_ok {node : Node} {span : Span} {id : NodeId}
    (h : addNode node span arena = .ok id arena') :
    id = ⟨arena.size⟩ ∧
      arena' = { arena with nodes := arena.nodes.push node, spans := arena.spans.push span } := by
  rw [addNode_apply] at h
  split at h
  · cases h
  · cases h
    exact ⟨rfl, rfl⟩

/-- Adding a layer gives the next number to it and changes no other node. -/
theorem add_eq_ok {shape : Shape Name NodeId} {span : Span} {id : NodeId}
    (h : add shape span arena = .ok id arena') :
    id.index = arena.size ∧ arena'.size = arena.size + 1 ∧
      arena'.spans.size = arena.spans.size + 1 ∧ Extends arena arena' ∧
      arena'.shape id = .ok shape := by
  obtain ⟨node, middle, hstore, hadd⟩ := exists_of_bind_eq_ok h
  obtain ⟨hnodes, hspans, hgrow, hresolve⟩ := store_eq_ok hstore
  have hsize : middle.size = arena.size := by rw [size, size, hnodes]
  obtain ⟨rfl, rfl⟩ := addNode_eq_ok hadd
  have htables : ∀ other, ({ middle with
      nodes := middle.nodes.push node, spans := middle.spans.push span } : Arena).resolve other =
        middle.resolve other := by
    intro other
    cases other <;> rfl
  refine ⟨hsize, ?_, by simp [hspans], ⟨?_, ?_⟩, ?_⟩
  · rw [← hsize]
    simp [size]
  · rw [← hsize]
    simp [size]
  · intro id shape hshape
    obtain ⟨old, hold, hresolved⟩ := shape_eq_ok_iff.1 hshape
    refine shape_eq_ok_iff.2 ⟨old, ?_, (htables old).trans (hgrow.resolve hresolved)⟩
    have hlt : id.index < middle.nodes.size := by
      rw [hnodes]
      exact lt_size_of_shape hshape
    rw [← hnodes] at hold
    rw [Array.getElem?_push_lt hlt, ← hold, Array.getElem?_eq_getElem hlt]
  · refine shape_eq_ok_iff.2 ⟨node, ?_, (htables node).trans hresolve⟩
    simp [size]

/-- An ordered arena, in which no node from `floor` on refers to a node before `floor`. -/
structure Laid (floor : Nat) (arena : Arena) : Prop where
  le_size : floor ≤ arena.size
  ordered : arena.Ordered
  located : arena.spans.size = arena.nodes.size
  closed : ∀ {child parent : NodeId},
    arena.Child child parent → floor ≤ parent.index → floor ≤ child.index

/-- A new boundary can be drawn at the end. -/
theorem Laid.raise {floor : Nat} (h : arena.Laid floor) : arena.Laid arena.size where
  le_size := Nat.le_refl _
  ordered := h.ordered
  located := h.located
  closed := by
    rintro child parent ⟨shape, hshape, _⟩ hparent
    exact absurd (lt_size_of_shape hshape) (Nat.not_lt.2 hparent)

/-- Adding a layer keeps the arena laid if the children lie between the boundary and the end. -/
theorem Laid.add {floor : Nat} (h : arena.Laid floor) {shape : Shape Name NodeId} {span : Span}
    {id : NodeId} (hadd : Arena.add shape span arena = .ok id arena')
    (hchildren : ∀ child ∈ shape.children, floor ≤ child.index ∧ child.index < arena.size) :
    arena'.Laid floor := by
  obtain ⟨hid, hsize, hspans, hextends, hshape⟩ := add_eq_ok hadd
  -- A node of the larger arena is an old one or the new one.
  have hcases : ∀ node : NodeId, node.index < arena'.size →
      (node = id ∧ arena'.shape node = .ok shape) ∨
      ∃ old, arena.shape node = .ok old ∧ arena'.shape node = .ok old := by
    intro node hnode
    by_cases hlast : node.index = arena.size
    · have hnode : node = id := by
        cases node
        cases id
        simp_all
      exact .inl ⟨hnode, by rw [hnode]; exact hshape⟩
    · obtain ⟨old, hold, _⟩ := isOrderedAt_iff.1 (h.ordered node.index (by omega))
      exact .inr ⟨old, hold, hextends.shape hold⟩
  refine ⟨Nat.le_trans h.le_size hextends.size_le, ?_, ?_, ?_⟩
  · intro index hindex
    rw [isOrderedAt_iff]
    rcases hcases ⟨index⟩ hindex with ⟨hnode, hnew⟩ | ⟨old, hold, hnew⟩
    · refine ⟨shape, hnew, fun child hchild => ?_⟩
      rw [hnode, hid]
      exact (hchildren child hchild).2
    · exact ⟨old, hnew, fun child hchild => h.ordered.index_lt ⟨old, hold, hchild⟩⟩
  · have hlocated := h.located
    unfold size at hsize
    omega
  · rintro child parent ⟨found, hfound, hmem⟩ hparent
    rcases hcases parent (lt_size_of_shape hfound) with ⟨_, hnew⟩ | ⟨old, hold, hnew⟩
    · rw [hnew] at hfound
      cases hfound
      exact (hchildren child hmem).1
    · rw [hnew] at hfound
      cases hfound
      exact h.closed ⟨_, hold, hmem⟩ hparent

end Arena

/-! ## Lowering a tree -/

/-- Only a call without a receiver has a free callee. -/
theorem Shape.freeCallee?_eq_some {α β : Type} {shape : Shape α β} {callee : α}
    (h : shape.freeCallee? = some callee) : ∃ args, shape = .call callee none args := by
  cases shape with
  | call name receiver args =>
    cases receiver with
    | none =>
      cases h
      exact ⟨args, rfl⟩
    | some receiver => cases h
  | _ => cases h

/-- A free callee is among the names of its layer. -/
theorem Shape.mem_names_of_freeCallee? {α β : Type} {shape : Shape α β} {callee : α}
    (h : shape.freeCallee? = some callee) : callee ∈ shape.names := by
  obtain ⟨args, rfl⟩ := freeCallee?_eq_some h
  exact List.mem_singleton_self _

namespace Lowering

variable (policy : Policy) (name : Name) (text : String) (state : Lowering ν)

/-- Requesting a function puts it on the list, or changes nothing because it is there already or is
not eligible. -/
theorem request_cases :
    (policy.isEligible text = true ∧ name ∉ state.requested ∧
      state.request policy name text =
        { state with
          requested := name :: state.requested
          pending := (name, text) :: state.pending }) ∨
    ((policy.isEligible text = true → name ∈ state.requested) ∧
      state.request policy name text = state) := by
  by_cases htext : policy.isEligible text = true
  · by_cases hname : name ∈ state.requested
    · exact .inr ⟨fun _ => hname, by simp [request, hname]⟩
    · exact .inl ⟨htext, hname, by simp [request, htext, hname]⟩
  · exact .inr ⟨fun h => absurd h htext, by simp [request, htext]⟩

/-- Requesting a function leaves the symbol table alone. -/
@[simp] theorem request_symbols : (state.request policy name text).symbols = state.symbols := by
  unfold request
  split <;> rfl

/-- Requesting a function leaves the arena alone. -/
@[simp] theorem request_arena : (state.request policy name text).arena = state.arena := by
  unfold request
  split <;> rfl

/-- Requesting a function leaves the library alone. -/
@[simp] theorem request_library : (state.request policy name text).library = state.library := by
  unfold request
  split <;> rfl

/-- Requesting a function leaves the origins alone. -/
@[simp] theorem request_origins : (state.request policy name text).origins = state.origins := by
  unfold request
  split <;> rfl

/-- Requesting a function is not asking for it. -/
@[simp] theorem request_asked : (state.request policy name text).asked = state.asked := by
  unfold request
  split <;> rfl

end Lowering

namespace Lower

/-- A step after another. -/
theorem bind_apply {α β : Type} (first : Lower ν α) (next : α → Lower ν β)
    (state : Lowering ν) :
    (first >>= next) state =
      match first state with
      | .ok value middle => next value middle
      | .error fault middle => .error fault middle := by
  change EStateM.bind first next state = _
  unfold EStateM.bind
  cases first state <;> rfl

/-- Reading the state gives it and leaves it. -/
theorem get_apply (state : Lowering ν) :
    (get : Lower ν (Lowering ν)) state = .ok state state :=
  rfl

/-- Changing the state leaves the changed one. -/
theorem modify_apply (f : Lowering ν → Lowering ν) (state : Lowering ν) :
    (modify f : Lower ν PUnit) state = .ok ⟨⟩ (f state) :=
  rfl

/-- Interning a text changes the symbol table only, and faults if the table is full. -/
theorem intern_apply (text : String) (state : Lowering ν) :
    intern text state =
      match state.symbols.intern text with
      | .ok (name, symbols) => .ok name { state with symbols := symbols }
      | .error fault => .error fault state := by
  unfold intern
  rw [bind_apply, get_apply]
  dsimp only
  cases state.symbols.intern text <;> rfl

/-- A text that has a name is given it, and nothing changes. -/
theorem intern_known {text : String} {name : Name} {state : Lowering ν}
    (h : state.symbols.intern text = .ok (name, state.symbols)) :
    intern text state = .ok name state := by
  rw [intern_apply, h]

/-- Add a node whose children have been lowered, and remember where it came from. -/
def place (host : Host ν) (node : ν) (shape : Shape Name NodeId) : Lower ν NodeId := do
  let id ← build (Arena.add shape (host.span node))
  modify fun state => { state with origins := state.origins.push node }
  return id

/-- Request the function that a layer calls. -/
def note (policy : Policy) (view : Shape String ν) : Lower ν Unit :=
  match view.freeCallee? with
  | some callee => do
    let name ← intern callee
    modify (·.request policy name callee)
  | none => pure ()

/-- Naming a free callee requests it; interning its text once more finds the name it has. -/
theorem nameIn_callee (policy : Policy) {view : Shape String ν} {callee : String}
    (h : view.freeCallee? = some callee) :
    nameIn policy view callee = (do note policy view; intern callee) := by
  funext state
  simp only [nameIn, note, h, Option.isSome_some, if_true, bind_assoc]
  rw [bind_apply, bind_apply, intern_apply]
  cases hintern : state.symbols.intern callee with
  | error fault => rfl
  | ok issued =>
    obtain ⟨name, symbols⟩ := issued
    dsimp only
    rw [bind_apply, bind_apply, modify_apply]
    dsimp only
    rw [@intern_known ν callee name]
    · rfl
    · rw [Lowering.request_symbols]
      exact SymbolTable.intern_again hintern

/-- Replacing the names and children of a layer requests what it calls first. -/
theorem traverse_nameIn (policy : Policy) (view : Shape String ν) (lower : ν → Lower ν NodeId) :
    view.traverse (nameIn policy view) lower =
      (do note policy view; view.traverse intern lower) := by
  cases hcallee : view.freeCallee? with
  | none =>
    have hname : nameIn policy view = intern := by
      funext text
      simp [nameIn, hcallee]
    simp only [note, hcallee, hname, pure_bind]
  | some callee =>
    obtain ⟨args, rfl⟩ := Shape.freeCallee?_eq_some hcallee
    simp only [Shape.traverse, nameIn_callee policy hcallee, bind_assoc]

/-- Lowering a node requests what it calls, lowers its children and places it. -/
theorem node_eq (host : Host ν) (policy : Policy) (lower : ν → Lower ν NodeId) (node : ν) :
    Lower.node host policy lower node = (do
      note policy (host.view node)
      let shape ← (host.view node).traverse intern lower
      place host node shape) := by
  rw [← bind_assoc, ← traverse_nameIn]
  rfl

/-- Placing a node adds it to the arena and records its origin. -/
theorem place_apply (host : Host ν) (node : ν) (shape : Shape Name NodeId) (state : Lowering ν) :
    place host node shape state =
      match Arena.add shape (host.span node) state.arena with
      | .ok id arena => .ok id { state with arena := arena, origins := state.origins.push node }
      | .error fault arena => .error fault { state with arena := arena } := by
  change EStateM.bind (build (Arena.add shape (host.span node))) _ state = _
  unfold EStateM.bind build
  cases Arena.add shape (host.span node) state.arena <;> rfl

end Lower

/-- A node between a boundary and the end of an arena. -/
def Arena.Holds (floor : Nat) (arena : Arena) (id : NodeId) : Prop :=
  floor ≤ id.index ∧ id.index < arena.size

/-- A node behind a boundary stays one when the arena is extended. -/
theorem Arena.Extends.holds {floor : Nat} {before after : Arena} (h : before.Extends after)
    {id : NodeId} (hid : before.Holds floor id) : after.Holds floor id :=
  ⟨hid.1, Nat.lt_of_lt_of_le hid.2 h.size_le⟩

/-- What lowering a tree keeps to on behalf of a boundary: the arena stays laid, nodes keep their
layers, and no function is defined. -/
def laying (floor : Nat) : Regime (Lowering ν) ν where
  holds state := state.arena.Laid floor
  grows _ before after := before.arena.Extends after.arena ∧ after.library = before.library
  breaks _ _ _ := True
  grows_refl state := ⟨.refl state.arena, rfl⟩
  grows_trans h h' := ⟨h.1.trans h'.1, h'.2.trans h.2⟩
  breaks_later _ _ := trivial
  breaks_more _ _ _ _ := trivial

namespace Lays

variable {floor : Nat}

/-- A node behind the boundary stays one while lowering goes on. -/
theorem stable_holds :
    (laying floor : Regime (Lowering ν) ν).Stable fun state => state.arena.Holds floor :=
  fun _ _ _ _ hgrows hholds => hgrows.1.holds hholds

/-- Interning a text leaves the arena alone. -/
theorem intern (text : String) :
    (laying floor : Regime (Lowering ν) ν).Runs [] (Lower.intern text) fun _ _ => True := by
  intro before hlaid
  rw [Regime.RunsFrom, Lower.intern_apply]
  cases before.symbols.intern text with
  | error fault => trivial
  | ok issued => exact ⟨hlaid, ⟨.refl _, rfl⟩, trivial⟩

/-- Requesting a function neither adds nodes nor defines functions. -/
theorem request (policy : Policy) (name : Name) (text : String) :
    (laying floor : Regime (Lowering ν) ν).Runs [] (modify (·.request policy name text))
      fun _ _ => True := by
  intro before hlaid
  have harena := before.request_arena policy name text
  refine ⟨?_, ⟨?_, before.request_library policy name text⟩, trivial⟩
  · show Arena.Laid floor _
    rw [harena]
    exact hlaid
  · rw [harena]
    exact .refl _

/-- Noting what a layer calls neither adds nodes nor defines functions. -/
theorem note (policy : Policy) (view : Shape String ν) :
    (laying floor).Runs [] (Lower.note policy view) fun _ _ => True := by
  unfold Lower.note
  split
  · next callee _ =>
    exact ((intern callee).bind (fun _ _ _ _ _ _ => trivial) fun name =>
      request policy name callee).imp fun _ _ _ => trivial
  · exact (Regime.Runs.pure ()).imp fun _ _ _ => trivial

/-- Lowering a layer; its children lie where the lowered children lie. -/
theorem shape {lower : ν → Lower ν NodeId} {view : Shape String ν}
    (h : ∀ child ∈ view.children,
      (laying floor).Runs [] (lower child) fun state => state.arena.Holds floor) :
    (laying floor).Runs [] (view.traverse Lower.intern lower)
      fun state lowered => ∀ child ∈ lowered.children, state.arena.Holds floor child := by
  have hrun : (laying floor).Runs (view.children.flatMap fun _ => [])
      (view.traverse Lower.intern lower) fun state lowered =>
        view.Matches (fun _ _ => True) (fun _ => state.arena.Holds floor) lowered :=
    Regime.Runs.traverse (fun _ _ _ _ _ _ _ => trivial) (fun _ => stable_holds)
      (fun text _ => intern text) h
  rw [List.flatMap_eq_nil_iff.2 fun _ _ => rfl] at hrun
  refine hrun.imp fun state lowered hmatches child hchild => ?_
  obtain ⟨_, _, hholds⟩ := exists_of_mem_forall₂ hmatches.children hchild
  exact hholds

/-- Placing a node whose children lie between the boundary and the end. It is the last node. -/
theorem place (host : Host ν) (node : ν) {shape : Shape Name NodeId} {before : Lowering ν}
    (hlaid : before.arena.Laid floor)
    (hchildren : ∀ child ∈ shape.children, before.arena.Holds floor child) :
    (laying floor).RunsFrom before [] (Lower.place host node shape)
      fun state id => floor ≤ id.index ∧ id.index + 1 = state.arena.size := by
  rw [Regime.RunsFrom, Lower.place_apply]
  cases hadd : Arena.add shape (host.span node) before.arena with
  | error fault arena => trivial
  | ok id arena =>
    obtain ⟨hid, hsize, -, hextends, -⟩ := Arena.add_eq_ok hadd
    have hfloor : floor ≤ before.arena.size := hlaid.le_size
    exact ⟨hlaid.add hadd hchildren, ⟨hextends, rfl⟩, by omega, by
      show id.index + 1 = arena.size
      omega⟩

/-- Lowering a node; the node is the last of the arena. -/
theorem node (host : Host ν) (policy : Policy) {lower : ν → Lower ν NodeId} {node : ν}
    (h : ∀ child ∈ (host.view node).children,
      (laying floor).Runs [] (lower child) fun state => state.arena.Holds floor) :
    (laying floor).Runs [] (Lower.node host policy lower node)
      fun state id => floor ≤ id.index ∧ id.index + 1 = state.arena.size := by
  rw [Lower.node_eq]
  have hlayer : (laying floor).Runs [] ((host.view node).traverse Lower.intern lower >>=
      Lower.place host node) _ := fun before hlaid =>
    (shape h before hlaid).bind (fun _ _ _ _ hgrows hholds child hchild =>
      hgrows.1.holds (hholds child hchild)) fun _ _ hmiddle hchildren =>
        place host node hmiddle hchildren
  refine ((note policy (host.view node)).bind (fun _ _ _ _ _ _ => trivial) fun _ => hlayer).imp ?_
  rintro state id ⟨-, -, lowered, -, hid⟩
  exact hid

/-- Lowering a tree. The induction is on the nesting. -/
theorem within (host : Host ν) (policy : Policy) (nesting : Nat) (node : ν) :
    (laying floor).Runs [] (Lower.within host policy nesting node)
      fun state id => floor ≤ id.index ∧ id.index + 1 = state.arena.size := by
  induction nesting generalizing node with
  | zero => exact fun _ _ => trivial
  | succ nesting ih =>
    refine Lays.node host policy fun child _ => (ih child).imp fun state id hlast => ?_
    exact ⟨hlast.1, by omega⟩

end Lays

/-! ## Lowering a program -/

/-- A laid arena behind whose boundary all function bodies lie. -/
structure Lowering.Stocked (floor : Nat) (state : Lowering ν) : Prop where
  laid : state.arena.Laid floor
  bodies : ∀ name definition, state.library.get? name = some definition →
    state.arena.Holds floor definition.body

namespace Lower

/-- Lower a function without adding it to the library. -/
def defining (host : Host ν) (policy : Policy) (name : Name) (found : HostFunction ν) :
    Lower ν Definition := do
  let params ← found.params.mapM intern
  let body ← tree host policy found.body
  return { name, params, body, span := host.span found.body }

/-- Lowering a function ends with its definition. -/
theorem function_eq (host : Host ν) (policy : Policy) (name : Name) (found : HostFunction ν) :
    function host policy name found = (do
      let definition ← defining host policy name found
      modify fun state => { state with library := state.library.define definition }) := by
  simp only [function, defining, bind_assoc, pure_bind]

/-- The state in which a text has been asked for and others are left. -/
def asking (text : String) (rest : List (Name × String)) (state : Lowering ν) : Lowering ν :=
  { state with pending := rest, asked := state.asked.push text }

/-- Asking for the next name lowers its function, if there is a name and it has one. -/
theorem askNext_apply (host : Host ν) (policy : Policy) (state : Lowering ν) :
    askNext host policy state =
      match state.pending with
      | [] => .ok false state
      | (name, text) :: rest =>
        match host.function text with
        | none => .ok true (asking text rest state)
        | some found =>
          match defining host policy name found (asking text rest state) with
          | .ok definition after =>
            .ok true { after with library := after.library.define definition }
          | .error fault after => .error fault after := by
  unfold askNext asking
  rw [bind_apply, get_apply]
  dsimp only
  cases state.pending with
  | nil => rfl
  | cons entry rest =>
    obtain ⟨name, text⟩ := entry
    dsimp only
    rw [bind_apply, modify_apply]
    dsimp only
    cases host.function text with
    | none => rfl
    | some found =>
      dsimp only
      rw [function_eq, bind_apply, bind_apply]
      cases defining host policy name found _ <;> rfl

variable {floor : Nat}

/-- Lowering a function; its body lies where the lowered nodes lie. -/
theorem lays_defining (host : Host ν) (policy : Policy) (name : Name) (found : HostFunction ν) :
    (laying floor).Runs [] (defining host policy name found)
      fun state definition => state.arena.Holds floor definition.body := by
  have hintern : ∀ text, (laying floor : Regime (Lowering ν) ν).Runs [] (intern text)
      fun _ _ => True := Lays.intern
  have hstable : (laying floor : Regime (Lowering ν) ν).Stable fun _ (_ : Name) => True :=
    fun _ _ _ _ _ _ => trivial
  have hparams := Regime.Runs.mapM (fun _ => hstable) found.params fun text _ => hintern text
  have hbody : (laying floor).Runs [] (tree host policy found.body)
      fun state => state.arena.Holds floor :=
    (Lays.within host policy _ found.body).imp fun state id hlast => ⟨hlast.1, by omega⟩
  have hrun := hparams.bind (Regime.Stable.forall₂ (fun _ => hstable) found.params) fun params =>
    hbody.map Lays.stable_holds fun body =>
      ({ name, params, body, span := host.span found.body } : Definition)
  rw [List.flatMap_eq_nil_iff.2 fun _ _ => rfl] at hrun
  refine hrun.imp ?_
  rintro state definition ⟨params, -, body, hholds, rfl⟩
  exact hholds

/-- Asking for one more name keeps all function bodies behind the boundary. -/
theorem stocked_askNext (host : Host ν) (policy : Policy) {more : Bool} {before after : Lowering ν}
    (h : before.Stocked floor) (hrun : askNext host policy before = .ok more after) :
    after.Stocked floor := by
  rw [askNext_apply] at hrun
  cases hpending : before.pending with
  | nil =>
    rw [hpending] at hrun
    cases hrun
    exact h
  | cons entry rest =>
    obtain ⟨name, text⟩ := entry
    rw [hpending] at hrun
    cases hfound : host.function text with
    | none =>
      simp only [hfound] at hrun
      cases hrun
      exact ⟨h.laid, h.bodies⟩
    | some found =>
      simp only [hfound] at hrun
      cases hdefining : defining host policy name found (asking text rest before) with
      | error fault state =>
        rw [hdefining] at hrun
        cases hrun
      | ok definition state =>
        rw [hdefining] at hrun
        cases hrun
        have hasking : (asking text rest before).arena.Laid floor := h.laid
        obtain ⟨hlaid, ⟨hgrows, hlibrary⟩, hholds⟩ :=
          (lays_defining host policy name found).of_eq_ok hasking hdefining
        refine ⟨hlaid, fun callee other hget => ?_⟩
        rw [Library.get?_define] at hget
        split at hget
        · cases hget
          exact hholds
        · rw [hlibrary] at hget
          exact hgrows.holds (h.bodies callee other hget)

/-- Lowering the requested functions keeps all function bodies behind the boundary. -/
theorem stocked_functions (host : Host ν) (policy : Policy) {before after : Lowering ν}
    (h : before.Stocked floor) (hrun : functions host policy before = .ok () after) :
    after.Stocked floor := by
  have hall := Lowering.drain.partial_correctness host policy
    (fun state ending => state.Stocked floor → ∀ final, ending = .ok () final → final.Stocked floor)
    (by
      intro drain ih state ending hstep hstate final hending
      subst hending
      split at hstep
      · next hask => exact ih _ _ hstep (stocked_askNext host policy hstate hask) final rfl
      · next hask =>
        cases hstep
        exact stocked_askNext host policy hstate hask
      · cases hstep)
  unfold functions at hrun
  cases hdrain : before.drain host policy with
  | none =>
    rw [hdrain] at hrun
    cases hrun
  | some ending =>
    rw [hdrain] at hrun
    exact hall before ending hdrain h after hrun

/-- Ask for fewer than `rounds` names. Unlike `Lowering.drain` this can be evaluated. -/
def drainWithin (host : Host ν) (policy : Policy) :
    Nat → Lowering ν → Option (EStateM.Result Fault (Lowering ν) Unit)
  | 0, _ => none
  | rounds + 1, state =>
    match askNext host policy state with
    | .ok true state => drainWithin host policy rounds state
    | .ok false state => some (.ok () state)
    | .error fault state => some (.error fault state)

/-- An ending within some number of rounds is the ending without a bound. -/
theorem drain_eq_of_drainWithin (host : Host ν) (policy : Policy) {rounds : Nat}
    {state : Lowering ν} {ending : EStateM.Result Fault (Lowering ν) Unit}
    (h : drainWithin host policy rounds state = some ending) :
    state.drain host policy = some ending := by
  induction rounds generalizing state with
  | zero => cases h
  | succ rounds ih =>
    rw [Lowering.drain]
    unfold drainWithin at h
    cases hask : askNext host policy state with
    | error fault after =>
      simp only [hask] at h ⊢
      exact h
    | ok more after =>
      cases more with
      | true =>
        simp only [hask] at h ⊢
        exact ih h
      | false =>
        simp only [hask] at h ⊢
        exact h

end Lower

namespace Host

variable {host : Host ν} {policy : Policy} {symbols : SymbolTable} {root : ν} {lowered : Lowered ν}

/-- The tree of the root comes first and the function bodies lie behind it. -/
theorem exists_stocked_of_lower (h : host.lower policy symbols root = .ok lowered) :
    ∃ state : Lowering ν, state.Stocked (lowered.root.index + 1) ∧
      state.arena = lowered.arena ∧ state.library = lowered.library := by
  unfold Host.lower at h
  cases hrun : Lower.program host policy root { symbols := symbols } with
  | error fault state =>
    rw [hrun] at h
    cases h
  | ok id final =>
    rw [hrun] at h
    cases h
    obtain ⟨id', first, htree, hrun⟩ := exists_of_bind_eq_ok hrun
    obtain ⟨_, second, hfunctions, hrun⟩ := exists_of_bind_eq_ok hrun
    cases hrun
    have hempty : (laying 0).holds ({ symbols := symbols } : Lowering ν) :=
      ⟨Nat.le_refl 0, fun index hindex => absurd hindex (Nat.not_lt_zero index), rfl,
        fun _ _ => Nat.zero_le _⟩
    obtain ⟨hlaid, ⟨-, hlibrary⟩, -, hlast⟩ :=
      (Lays.within host policy _ root).of_eq_ok hempty htree
    have hstocked : first.Stocked (id.index + 1) := by
      rw [hlast]
      refine ⟨hlaid.raise, fun name definition hget => ?_⟩
      rw [hlibrary] at hget
      cases hget
    exact ⟨final, Lower.stocked_functions host policy hstocked hfunctions, rfl, rfl⟩

/-- A lowered program is well-formed under any settings. -/
theorem lower_wellFormed (h : host.lower policy symbols root = .ok lowered) (settings : Policy) :
    (lowered.context settings).WellFormed := by
  obtain ⟨state, hstocked, harena, hlibrary⟩ := exists_stocked_of_lower h
  rw [Lowered.context, ← harena, ← hlibrary]
  exact ⟨hstocked.laid.ordered.wellFormed hstocked.laid.located,
    fun name definition hget => (hstocked.bodies name definition hget).2⟩

/-- In a lowered program the function bodies share no node with the root's tree. -/
theorem lower_separated (h : host.lower policy symbols root = .ok lowered) (settings : Policy) :
    (lowered.context settings).Separated lowered.root := by
  obtain ⟨state, hstocked, harena, hlibrary⟩ := exists_stocked_of_lower h
  rw [Lowered.context, ← harena, ← hlibrary]
  exact ⟨fun hnode => hstocked.laid.ordered.index_le_of_inTree hnode,
    fun hchild hparent => hstocked.laid.closed hchild hparent,
    fun name definition hget => (hstocked.bodies name definition hget).1⟩

/-- The root of a lowered program is a node of its arena. -/
theorem root_lt_size_of_lower (h : host.lower policy symbols root = .ok lowered) :
    lowered.root.index < lowered.arena.size := by
  obtain ⟨state, hstocked, harena, -⟩ := exists_stocked_of_lower h
  rw [← harena]
  exact hstocked.laid.le_size

/-- Folding the calls of a lowered program gives a report under any settings. -/
theorem exists_report_of_lower (h : host.lower policy symbols root = .ok lowered)
    (settings : Policy) : ∃ report, (lowered.context settings).foldCalls lowered.root = .ok report :=
  (lower_wellFormed h settings).exists_report (root_lt_size_of_lower h)

/-- The lowered program, when it takes fewer than `rounds` names to ask for. -/
def lowerWithin (host : Host ν) (policy : Policy) (symbols : SymbolTable) (root : ν)
    (rounds : Nat) : Option (Lowered ν) :=
  match Lower.tree host policy root { symbols := symbols } with
  | .error _ _ => none
  | .ok id state =>
    match Lower.drainWithin host policy rounds state with
    | some (.ok () state) =>
      some {
        symbols := state.symbols
        arena := state.arena
        library := state.library
        root := id
        origins := state.origins
        asked := state.asked }
    | _ => none

/-- A program lowered within some number of rounds is the one lowered without a bound. -/
theorem lower_eq_of_lowerWithin {rounds : Nat}
    (h : host.lowerWithin policy symbols root rounds = some lowered) :
    host.lower policy symbols root = .ok lowered := by
  unfold lowerWithin at h
  split at h
  · cases h
  · next id first htree =>
    split at h
    · next final hdrain =>
      have hprogram : Lower.program host policy root { symbols := symbols } = .ok id final := by
        unfold Lower.program
        show EStateM.bind (Lower.tree host policy root) _ { symbols := symbols } = _
        simp only [EStateM.bind, htree]
        show EStateM.bind (Lower.functions host policy) _ first = _
        simp only [EStateM.bind, Lower.functions,
          Lower.drain_eq_of_drainWithin host policy hdrain, Option.getD_some]
        rfl
      unfold Host.lower
      rw [hprogram]
      exact congrArg Except.ok (Option.some.inj h)
    · cases h

/-- In a lowered program the calls under the root have a report, and whichever of the spliced calls
are replaced by their constants, every node of the tree has the same outcome in every environment
and leaves the same environment. -/
theorem exists_report_reduce_splice (h : host.lower policy symbols root = .ok lowered)
    (settings : Policy) :
    ∃ report, (lowered.context settings).foldCalls lowered.root = .ok report ∧
      ∀ splices : List Splice, splices ⊆ report.splices →
        ∀ node, lowered.arena.InTree lowered.root node → ∀ env : Env,
          ∃ outcome final,
            (lowered.context settings).reduce node { env := env } = .ok outcome final ∧
            ((lowered.context settings).splice splices).reduce node { env := env } =
              .ok outcome final := by
  have hwellFormed := lower_wellFormed h settings
  have hroot := root_lt_size_of_lower h
  obtain ⟨folding, hfolding, -⟩ := hwellFormed.exists_unique_folding
  obtain ⟨report, hreport, -, hsplices⟩ := hwellFormed.exists_foldCalls_eq hfolding hroot
  refine ⟨report, hreport, fun splices hsubset node hnode env => ?_⟩
  rw [hsplices] at hsubset
  exact hwellFormed.reduce_splice hroot (lower_separated h settings) hfolding hsubset hnode env

end Host

/-- A function that adds one, and a block that binds a variable to a call of it. -/
def nextListing : Listing where
  entries := #[(.literal (.int 1), Span.nowhere), (.var "x", Span.nowhere),
    (.call "plus" (some 1) [0], Span.nowhere), (.call "evalNext" none [0], Span.nowhere),
    (.var "y", Span.nowhere), (.block [.declare "y" (some 3), .expr 4], Span.nowhere)]
  functions := Table.ofList [("evalNext", { params := ["x"], body := 2 })]
  ordered := by decide

/-- The block, lowered. -/
def nextLowered : Except Fault (Lowered Item) :=
  (nextListing.toHost false).lower {} SymbolTable.initial (.entry 5)

/-- What the block is lowered to: its four nodes, and behind them the three of the function. -/
def nextProgram : Lowered Item where
  symbols := SymbolTable.ofTexts ["y", "evalNext", "x", "plus"]
  arena :=
    { nodes := #[.literal (.int 1), .call ⟨2⟩ none ⟨0, 1⟩, .var ⟨1⟩, .block ⟨0, 2⟩,
        .var ⟨3⟩, .literal (.int 1), .call ⟨4⟩ (some ⟨4⟩) ⟨1, 1⟩]
      spans := Array.replicate 7 Span.nowhere
      args := #[⟨0⟩, ⟨5⟩]
      stmts := #[.declare ⟨1⟩ (some ⟨1⟩), .expr ⟨2⟩]
      arms := #[] }
  library := Library.ofList [{ name := ⟨2⟩, params := [⟨3⟩], body := ⟨6⟩ }]
  root := ⟨3⟩
  origins := #[.entry 0, .entry 3, .entry 4, .entry 5, .entry 1, .entry 0, .entry 2]
  asked := #["evalNext"]

/-- What folding reports about the block: its call is the constant two. -/
def nextReport : Report where
  sites := [{ node := ⟨1⟩, callee := ⟨2⟩, stage := .folded, value := some (.int 2) }]
  splices := [{ call := ⟨1⟩, value := .int 2 }]
  diagnostics := []

/-- The block is lowered to this program. -/
theorem nextLowered_eq : nextLowered = .ok nextProgram := by
  have hwithin : (nextListing.toHost false).lowerWithin {} SymbolTable.initial (.entry 5) 2 =
      some nextProgram := by decide +kernel
  exact Host.lower_eq_of_lowerWithin hwithin

/-- Folding the program gives this report. -/
theorem foldCalls_nextProgram :
    (nextProgram.context {}).foldCalls nextProgram.root = .ok nextReport := by decide +kernel

/-- The block has the value two, before and after its call is replaced by two. -/
theorem exists_report_nextListing :
    nextLowered = .ok nextProgram ∧
    (nextProgram.context {}).foldCalls nextProgram.root = .ok nextReport ∧
    (nextProgram.context {}).reduce nextProgram.root {} = .ok (.ok (.int 2)) {} ∧
    ((nextProgram.context {}).splice nextReport.splices).reduce nextProgram.root {} =
      .ok (.ok (.int 2)) {} := by
  have hreduce : (nextProgram.context {}).reduce nextProgram.root {} = .ok (.ok (.int 2)) {} := by
    decide +kernel
  obtain ⟨report, hreport, hsplices⟩ := Host.exists_report_reduce_splice nextLowered_eq {}
  obtain rfl : report = nextReport := Except.ok.inj (hreport.symm.trans foldCalls_nextProgram)
  obtain ⟨outcome, final, hbefore, hafter⟩ :=
    hsplices nextReport.splices (List.Subset.refl _) nextProgram.root .refl Env.empty
  obtain ⟨rfl, rfl⟩ := EStateM.Result.ok.inj (hreduce.symm.trans hbefore)
  exact ⟨nextLowered_eq, foldCalls_nextProgram, hreduce, hafter⟩

end ConstFold
