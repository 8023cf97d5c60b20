import ConstFold.Proofs.HostTree
import ConstFold.Proofs.Lowering
import ConstFold.Proofs.Symbols
import ConstFold.Proofs.Traversal

/-!
# Lowering a tree

Lowering a tree adds its nodes in postorder, remembers which host node each was lowered from, and
requests the functions that the tree calls. `Lowering.Sound` is the invariant of the state: every
node has the layer and the location of its origin, and the tables have an entry for every place.
Functions are requested by name; `Lowering.wanted` are the texts of these names, and they do not
change when the symbol table grows.
`Lowering.Grows` says what the state after some nodes have been lowered has to do with the one
before.

A fault in between is one of capacity, and it is explained by the nodes that were to be lowered:
they do not fit into one arena together with those already there (`Host.Compact`), or there are too
many texts. The main statement is `Lower.runs_tree`.
-/

set_option autoImplicit false

namespace ConstFold

variable {ν : Type}

/-! ## Room in an arena -/

/-- A list or a table has outgrown its index type. -/
def Fault.IsCapacity : Fault → Prop
  | .arenaFull .. => True
  | .listTooLong .. => True
  | .symbolsFull _ => True
  | _ => False

section Entries

variable {ν' α β : Type}

/-- How many argument entries a layer stores. -/
def Shape.argEntries : Shape ν α → Nat
  | .call _ _ args => args.length
  | .foreign children => children.length
  | _ => 0

/-- How many statement entries a layer stores. -/
def Shape.stmtEntries : Shape ν α → Nat
  | .block stmts => stmts.length
  | _ => 0

/-- How many arm entries a layer stores. -/
def Shape.armEntries : Shape ν α → Nat
  | .conditional arms _ => arms.length
  | _ => 0

/-- Matching layers store equally many entries. -/
theorem Shape.Matches.entries {onName : ν → ν' → Prop} {onChild : α → β → Prop} {shape : Shape ν α}
    {shape' : Shape ν' β} (h : shape.Matches onName onChild shape') :
    shape'.argEntries = shape.argEntries ∧ shape'.stmtEntries = shape.stmtEntries ∧
      shape'.armEntries = shape.armEntries := by
  cases h with
  | call _ _ hargs => exact ⟨hargs.length_eq.symm, rfl, rfl⟩
  | conditional harms _ => exact ⟨rfl, rfl, harms.length_eq.symm⟩
  | block hstmts => exact ⟨rfl, hstmts.length_eq.symm, rfl⟩
  | «foreign» hchildren => exact ⟨hchildren.length_eq.symm, rfl, rfl⟩
  | literal _ => exact ⟨rfl, rfl, rfl⟩
  | var _ => exact ⟨rfl, rfl, rfl⟩
  | loop _ _ => exact ⟨rfl, rfl, rfl⟩
  | ret _ => exact ⟨rfl, rfl, rfl⟩

end Entries

namespace Arena

variable {arena arena' : Arena} {shape : Shape Name NodeId}

/-- The numbers of a layer and of its lists fit. -/
structure HasRoom (arena : Arena) (shape : Shape Name NodeId) : Prop where
  nodes : arena.size ≤ maxIndex
  args : arena.args.size ≤ maxIndex ∧ shape.argEntries ≤ maxLength
  stmts : arena.stmts.size ≤ maxIndex ∧ shape.stmtEntries ≤ maxLength
  arms : arena.arms.size ≤ maxIndex ∧ shape.armEntries ≤ maxLength

/-- A range that cannot be formed is a fault of capacity, and its start or its length is too
large. -/
theorem ofExcept_rangeFrom_eq_error {α : Type} [Entry α] {start length : Nat} {fault : Fault}
    (h : (MonadExcept.ofExcept (rangeFrom start length) : Build (Range α)) arena =
      .error fault arena') :
    fault.IsCapacity ∧ ¬ (start ≤ maxIndex ∧ length ≤ maxLength) := by
  unfold rangeFrom at h
  split at h
  · next hstart =>
    cases h
    exact ⟨trivial, fun hroom => Nat.not_lt.2 hroom.1 hstart⟩
  · split at h
    · next hlength =>
      cases h
      exact ⟨trivial, fun hroom => Nat.not_lt.2 hroom.2 hlength⟩
    · cases h

/-- If a step followed by one that cannot fail ends in a fault, the step has ended in it. -/
theorem error_of_bind_pure {ε σ α β : Type} {first : EStateM ε σ α} {result : α → β}
    {state final : σ}
    {fault : ε} (h : (first >>= fun value => pure (result value)) state = .error fault final) :
    first state = .error fault final := by
  change EStateM.bind first _ state = _ at h
  unfold EStateM.bind at h
  cases hfirst : first state with
  | ok value middle =>
    rw [hfirst] at h
    cases h
  | error fault' middle =>
    rw [hfirst] at h
    cases h
    rfl

/-- A layer whose lists cannot be stored is a fault of capacity, and the arena has no room for
it. -/
theorem store_eq_error {fault : Fault} (h : store shape arena = .error fault arena') :
    fault.IsCapacity ∧ ¬ arena.HasRoom shape := by
  cases shape with
  | call callee receiver args =>
    obtain ⟨hfault, hfull⟩ := ofExcept_rangeFrom_eq_error (error_of_bind_pure h)
    exact ⟨hfault, fun hroom => hfull hroom.args⟩
  | conditional arms otherwise =>
    obtain ⟨hfault, hfull⟩ := ofExcept_rangeFrom_eq_error (error_of_bind_pure h)
    exact ⟨hfault, fun hroom => hfull hroom.arms⟩
  | block stmts =>
    obtain ⟨hfault, hfull⟩ := ofExcept_rangeFrom_eq_error (error_of_bind_pure h)
    exact ⟨hfault, fun hroom => hfull hroom.stmts⟩
  | «foreign» children =>
    obtain ⟨hfault, hfull⟩ := ofExcept_rangeFrom_eq_error (error_of_bind_pure h)
    exact ⟨hfault, fun hroom => hfull hroom.args⟩
  | literal value => cases h
  | var name => cases h
  | loop condition body => cases h
  | ret value => cases h

/-- Storing the lists of a layer adds its entries to the side tables. -/
theorem store_sizes {node : Node} (h : store shape arena = .ok node arena') :
    arena'.args.size = arena.args.size + shape.argEntries ∧
      arena'.stmts.size = arena.stmts.size + shape.stmtEntries ∧
      arena'.arms.size = arena.arms.size + shape.armEntries := by
  cases shape with
  | call callee receiver args =>
    obtain ⟨range, middle, hadd, hnode⟩ := exists_of_bind_eq_ok h
    obtain ⟨rfl, rfl⟩ := addArgs_eq_ok hadd
    cases hnode
    exact ⟨Range.size_append_list _ _, rfl, rfl⟩
  | conditional arms otherwise =>
    obtain ⟨range, middle, hadd, hnode⟩ := exists_of_bind_eq_ok h
    obtain ⟨rfl, rfl⟩ := addArms_eq_ok hadd
    cases hnode
    exact ⟨rfl, rfl, Range.size_append_list _ _⟩
  | block stmts =>
    obtain ⟨range, middle, hadd, hnode⟩ := exists_of_bind_eq_ok h
    obtain ⟨rfl, rfl⟩ := addStmts_eq_ok hadd
    cases hnode
    exact ⟨rfl, Range.size_append_list _ _, rfl⟩
  | «foreign» children =>
    obtain ⟨range, middle, hadd, hnode⟩ := exists_of_bind_eq_ok h
    obtain ⟨rfl, rfl⟩ := addArgs_eq_ok hadd
    cases hnode
    exact ⟨Range.size_append_list _ _, rfl, rfl⟩
  | literal value =>
    cases h
    exact ⟨rfl, rfl, rfl⟩
  | var name =>
    cases h
    exact ⟨rfl, rfl, rfl⟩
  | loop condition body =>
    cases h
    exact ⟨rfl, rfl, rfl⟩
  | ret value =>
    cases h
    exact ⟨rfl, rfl, rfl⟩

/-- Adding a layer fails only for lack of room. -/
theorem add_eq_error {span : Span} {fault : Fault}
    (h : add shape span arena = .error fault arena') :
    fault.IsCapacity ∧ ¬ arena.HasRoom shape := by
  change EStateM.bind (store shape) (fun node => addNode node span) arena = _ at h
  unfold EStateM.bind at h
  cases hstore : store shape arena with
  | error fault' middle =>
    rw [hstore] at h
    cases h
    exact store_eq_error hstore
  | ok node middle =>
    rw [hstore] at h
    have hsize : middle.size = arena.size := by
      rw [size, size, (store_eq_ok hstore).1]
    change addNode node span middle = _ at h
    rw [addNode_apply] at h
    split at h
    · next hfull =>
      cases h
      refine ⟨trivial, fun hroom => ?_⟩
      have hnodes := hroom.nodes
      omega
    · cases h

/-- Adding a layer adds its entries to the tables and its location to the locations. -/
theorem add_tables {span : Span} {id : NodeId} (h : add shape span arena = .ok id arena') :
    arena'.spans = arena.spans.push span ∧
      arena'.args.size = arena.args.size + shape.argEntries ∧
      arena'.stmts.size = arena.stmts.size + shape.stmtEntries ∧
      arena'.arms.size = arena.arms.size + shape.armEntries := by
  obtain ⟨node, middle, hstore, hadd⟩ := exists_of_bind_eq_ok h
  obtain ⟨_, hspans, _, _⟩ := store_eq_ok hstore
  have hsizes := store_sizes hstore
  obtain ⟨-, rfl⟩ := addNode_eq_ok hadd
  rw [← hspans]
  exact ⟨rfl, hsizes⟩

end Arena

/-! ## Lowering in progress -/

namespace Host

/-- The nodes of a list can be lowered into one arena: their lists and the tables that hold them are
not too long. -/
structure Compact (host : Host ν) (nodes : List ν) : Prop where
  args_le : ∀ node ∈ nodes, (host.view node).argEntries ≤ Arena.maxLength
  stmts_le : ∀ node ∈ nodes, (host.view node).stmtEntries ≤ Arena.maxLength
  arms_le : ∀ node ∈ nodes, (host.view node).armEntries ≤ Arena.maxLength
  nodes_lt : nodes.length < UInt32.size
  args_lt : (nodes.map fun node => (host.view node).argEntries).sum < UInt32.size
  stmts_lt : (nodes.map fun node => (host.view node).stmtEntries).sum < UInt32.size
  arms_lt : (nodes.map fun node => (host.view node).armEntries).sum < UInt32.size

/-- The first nodes of a list that can be lowered can be lowered. -/
theorem Compact.left {host : Host ν} {nodes more : List ν} (h : host.Compact (nodes ++ more)) :
    host.Compact nodes where
  args_le node hnode := h.args_le node (List.mem_append_left _ hnode)
  stmts_le node hnode := h.stmts_le node (List.mem_append_left _ hnode)
  arms_le node hnode := h.arms_le node (List.mem_append_left _ hnode)
  nodes_lt := by
    have hlt := h.nodes_lt
    rw [List.length_append] at hlt
    omega
  args_lt := by
    have hlt := h.args_lt
    rw [List.map_append, List.sum_append] at hlt
    omega
  stmts_lt := by
    have hlt := h.stmts_lt
    rw [List.map_append, List.sum_append] at hlt
    omega
  arms_lt := by
    have hlt := h.arms_lt
    rw [List.map_append, List.sum_append] at hlt
    omega

end Host

namespace Lowering

/-- The host node that an arena node was lowered from. -/
def Origin (state : Lowering ν) (node : ν) (id : NodeId) : Prop :=
  state.origins[id.index]? = some node

/-- The texts of the names requested. -/
def wanted (state : Lowering ν) : List String := state.requested.map state.symbols.text

/-- The texts still to be asked for. -/
def awaited (state : Lowering ν) : List String := state.pending.map Prod.snd

/-- A state of lowering in which every arena node has the layer and the location of its origin, and
in which every name requested is either still to be asked for or has been asked for, once. The texts
come from a vocabulary. -/
structure Sound (host : Host ν) (vocabulary : Set String) (state : Lowering ν) : Prop where
  consistent : state.symbols.Consistent
  spoken : ∀ text name, state.symbols.Names text name → text ∈ vocabulary
  size : state.origins.size = state.arena.size
  located : state.arena.spans.size = state.arena.size
  layer : ∀ {node : ν} {id : NodeId}, state.Origin node id →
    ∃ shape, state.arena.shape id = .ok shape ∧ state.arena.span id = .ok (host.span node) ∧
      (host.view node).Matches state.symbols.Names
        (fun child number => state.Origin child number ∧ number.index < id.index) shape
  args : state.arena.args.size =
    (state.origins.toList.map fun node => (host.view node).argEntries).sum
  stmts : state.arena.stmts.size =
    (state.origins.toList.map fun node => (host.view node).stmtEntries).sum
  arms : state.arena.arms.size =
    (state.origins.toList.map fun node => (host.view node).armEntries).sum
  known : ∀ name ∈ state.requested, ∃ text, state.symbols.Names text name
  listed : ∀ entry ∈ state.pending, state.symbols.Names entry.2 entry.1
  once : state.wanted.Nodup
  queued : state.wanted.Perm (state.awaited ++ state.asked.toList)

/-- How lowering changes a state: names keep their texts, the nodes are the next origins, and the
functions that the callers call are requested. -/
structure Grows (host : Host ν) (policy : Policy) (callers nodes : List ν)
    (before after : Lowering ν) : Prop where
  names : ∀ {text : String} {name : Name},
    before.symbols.Names text name → after.symbols.Names text name
  origins : after.origins.toList = before.origins.toList ++ nodes
  library : after.library = before.library
  asked : after.asked = before.asked
  requested : ∀ text, text ∈ after.wanted ↔
    text ∈ before.wanted ∨ ∃ node ∈ callers, host.asks policy node = some text

/-- A state grows by what it grows by first and by what it grows by then. -/
theorem Grows.trans {host : Host ν} {policy : Policy} {callers callers' nodes nodes' : List ν}
    {first second third : Lowering ν} (h : first.Grows host policy callers nodes second)
    (h' : second.Grows host policy callers' nodes' third) :
    first.Grows host policy (callers ++ callers') (nodes ++ nodes') third where
  names hname := h'.names (h.names hname)
  origins := by rw [h'.origins, h.origins, List.append_assoc]
  library := h'.library.trans h.library
  asked := h'.asked.trans h.asked
  requested text := by
    rw [h'.requested, h.requested]
    simp only [List.mem_append, or_and_right, exists_or, or_assoc]

/-- The order in which functions were requested does not matter. -/
theorem Grows.perm {host : Host ν} {policy : Policy} {callers callers' nodes : List ν}
    {before after : Lowering ν} (h : before.Grows host policy callers nodes after)
    (hperm : callers.Perm callers') : before.Grows host policy callers' nodes after :=
  { h with requested := fun text => by simp only [h.requested, hperm.mem_iff] }

/-- The origin of a node stays. -/
theorem Grows.origin {host : Host ν} {policy : Policy} {callers nodes : List ν}
    {before after : Lowering ν} (h : before.Grows host policy callers nodes after) {node : ν}
    {id : NodeId} (horigin : before.Origin node id) : after.Origin node id := by
  unfold Origin at horigin ⊢
  rw [← Array.getElem?_toList] at horigin ⊢
  rw [h.origins, List.getElem?_append_left (List.getElem?_eq_some_iff.1 horigin).1]
  exact horigin

/-- The rules that lowering keeps to. A fault is one of capacity, and there was no room for the
nodes to be lowered or for the vocabulary. -/
def regime (host : Host ν) (policy : Policy) (vocabulary : Set String) : Regime (Lowering ν) ν where
  holds := Sound host vocabulary
  grows nodes := Grows host policy nodes nodes
  breaks nodes before fault := fault.IsCapacity ∧
    ¬ (vocabulary.encard < UInt32.size ∧ host.Compact (before.origins.toList ++ nodes))
  grows_refl state := ⟨id, by simp, rfl, rfl, by simp⟩
  grows_trans h h' := h.trans h'
  breaks_later := by
    intro nodes nodes' first second fault h hbreaks
    rw [h.origins, List.append_assoc] at hbreaks
    exact hbreaks
  breaks_more := by
    rintro nodes nodes' state fault ⟨hfault, hfull⟩
    rw [← List.append_assoc]
    exact ⟨hfault, fun hroom => hfull ⟨hroom.1, hroom.2.left⟩⟩

variable {host : Host ν} {policy : Policy} {vocabulary : Set String}

/-- A name requested has a text that is wanted. -/
theorem Sound.mem_requested_iff {state : Lowering ν} (h : state.Sound host vocabulary)
    {text : String} {name : Name} (hname : state.symbols.Names text name) :
    name ∈ state.requested ↔ text ∈ state.wanted := by
  constructor
  · intro hmem
    exact List.mem_map.2 ⟨name, hmem, hname.text_eq⟩
  · intro hmem
    obtain ⟨other, hother, htext⟩ := List.mem_map.1 hmem
    obtain ⟨text', htext'⟩ := h.known other hother
    rw [htext'.text_eq] at htext
    rwa [h.consistent.unique hname (htext ▸ htext')]

/-- The names requested keep their texts when the symbol table grows. -/
theorem Sound.wanted_eq {state : Lowering ν} (h : state.Sound host vocabulary)
    {symbols : SymbolTable} (hkeeps : ∀ {text : String} {name : Name},
      state.symbols.Names text name → symbols.Names text name) :
    wanted { state with symbols := symbols } = state.wanted := by
  refine List.map_congr_left fun name hname => ?_
  obtain ⟨text, htext⟩ := h.known name hname
  rw [htext.text_eq, (hkeeps htext).text_eq]

/-- A name keeps its text while a state grows. -/
theorem stable_names (text : String) :
    (regime host policy vocabulary).Stable fun state => state.symbols.Names text :=
  fun _ _ _ _ hgrows hname => hgrows.names hname

/-- The origin of a node stays the same while lowering goes on. -/
theorem stable_origin (node : ν) :
    (regime host policy vocabulary).Stable fun state => state.Origin node :=
  fun _ _ _ _ hgrows horigin => hgrows.origin horigin

end Lowering

namespace Lower

variable {host : Host ν} {policy : Policy} {vocabulary : Set String}

open Lowering

/-- Interning a text of the vocabulary. -/
theorem runs_intern {text : String} (htext : text ∈ vocabulary) :
    (regime host policy vocabulary).Runs [] (intern text)
      fun state name => state.symbols.Names text name := by
  intro before hbefore
  rw [Regime.RunsFrom, intern_apply]
  cases hintern : before.symbols.intern text with
  | error fault =>
    obtain ⟨-, hsize, rfl⟩ := SymbolTable.intern_eq_error hintern
    refine ⟨trivial, fun hroom => ?_⟩
    have hle := hbefore.consistent.size_le_encard hbefore.spoken
    have hlt := lt_of_le_of_lt hle hroom.1
    rw [Nat.cast_lt] at hlt
    unfold SymbolTable.maxIndex at hsize
    omega
  | ok issued =>
    obtain ⟨name, symbols⟩ := issued
    obtain ⟨hconsistent, hgains, hname⟩ := hbefore.consistent.intern hintern
    have hwanted : wanted { before with symbols := symbols } = before.wanted :=
      hbefore.wanted_eq hgains.keeps
    refine ⟨{ hbefore with
        consistent := hconsistent
        spoken := ?_
        layer := ?_
        known := ?_
        listed := fun entry hentry => hgains.keeps (hbefore.listed entry hentry)
        once := hwanted ▸ hbefore.once
        queued := hwanted ▸ hbefore.queued },
      ⟨hgains.keeps, by simp, rfl, rfl, by simp [hwanted]⟩, hname⟩
    · intro other found hfound
      rcases hgains.adds hfound with hfound | rfl
      · exact hbefore.spoken other found hfound
      · exact htext
    · intro node id horigin
      obtain ⟨shape, hshape, hspan, hmatches⟩ := hbefore.layer horigin
      exact ⟨shape, hshape, hspan, hmatches.imp (fun _ _ => hgains.keeps) fun _ _ h => h⟩
    · intro other hother
      obtain ⟨text', htext'⟩ := hbefore.known other hother
      exact ⟨text', hgains.keeps htext'⟩

/-- Requesting a function under its name. -/
theorem sound_request (policy : Policy) {name : Name} {text : String} {state : Lowering ν}
    (h : state.Sound host vocabulary) (hname : state.symbols.Names text name) :
    (state.request policy name text).Sound host vocabulary := by
  rcases state.request_cases policy name text with ⟨-, hnew, heq⟩ | ⟨-, heq⟩
  · have hwanted : (state.request policy name text).wanted = text :: state.wanted := by
      rw [heq, wanted, List.map_cons, hname.text_eq, wanted]
    rw [h.mem_requested_iff hname] at hnew
    rw [heq] at hwanted ⊢
    exact { h with
      layer := h.layer
      known := List.forall_mem_cons.2 ⟨⟨text, hname⟩, h.known⟩
      listed := List.forall_mem_cons.2 ⟨hname, h.listed⟩
      once := hwanted ▸ List.nodup_cons.2 ⟨hnew, h.once⟩
      queued := hwanted ▸ h.queued.cons text }
  · rw [heq]
    exact h

/-- Requesting a function makes its text wanted, if it is eligible. -/
theorem mem_wanted_request (policy : Policy) {name : Name} {text : String} {state : Lowering ν}
    (h : state.Sound host vocabulary) (hname : state.symbols.Names text name) (other : String) :
    other ∈ (state.request policy name text).wanted ↔
      other ∈ state.wanted ∨ policy.isEligible text = true ∧ text = other := by
  rcases state.request_cases policy name text with ⟨htext, -, heq⟩ | ⟨hold, heq⟩
  · rw [heq, wanted, List.map_cons, hname.text_eq, List.mem_cons, wanted]
    simp only [htext, true_and, eq_comm, or_comm]
  · rw [heq]
    refine ⟨.inl, fun hmem => hmem.elim id ?_⟩
    rintro ⟨htext, rfl⟩
    exact (h.mem_requested_iff hname).1 (hold htext)

/-- Noting what a node calls adds no node and requests the function. -/
theorem note_grows (policy : Policy) {node : ν} {state : Lowering ν}
    (h : state.Sound host vocabulary)
    (hnames : ∀ text ∈ (host.view node).names, text ∈ vocabulary) :
    match note policy (host.view node) state with
    | .ok () after => after.Sound host vocabulary ∧ state.Grows host policy [node] [] after
    | .error fault _ => (regime host policy vocabulary).breaks [] state fault := by
  unfold note
  cases hcallee : (host.view node).freeCallee? with
  | none =>
    have hasks : host.asks policy node = none := by simp [Host.asks, hcallee]
    exact ⟨h, id, by simp, rfl, rfl, by simp [hasks]⟩
  | some callee =>
    have hrun : (regime host policy vocabulary).RunsFrom state [] (intern callee)
        fun after => after.symbols.Names callee :=
      runs_intern (hnames callee (Shape.mem_names_of_freeCallee? hcallee)) state h
    unfold Regime.RunsFrom at hrun
    dsimp only
    rw [bind_apply]
    cases hintern : intern callee state with
    | error fault middle =>
      rw [hintern] at hrun
      exact hrun
    | ok name middle =>
      rw [hintern] at hrun
      obtain ⟨hmiddle, hgrows, hname⟩ := hrun
      refine ⟨sound_request policy hmiddle hname, ?_⟩
      have hasks : ∀ text, host.asks policy node = some text ↔
          policy.isEligible callee = true ∧ callee = text := by
        intro text
        rw [Host.asks_eq_some_iff, hcallee, Option.some.injEq]
        exact ⟨fun ⟨heq, htext⟩ => ⟨heq ▸ htext, heq⟩, fun ⟨htext, heq⟩ => ⟨heq, heq ▸ htext⟩⟩
      refine ⟨fun hold => ?_, ?_, ?_, ?_, fun text => ?_⟩
      · rw [Lowering.request_symbols]
        exact hgrows.names hold
      · rw [Lowering.request_origins]
        exact hgrows.origins
      · rw [Lowering.request_library]
        exact hgrows.library
      · rw [Lowering.request_asked]
        exact hgrows.asked
      · rw [mem_wanted_request policy hmiddle hname, hgrows.requested]
        simp [hasks]

/-- A state has room for a node when its origins and the node can be lowered together. -/
theorem hasRoom_of_compact {node : ν} {shape : Shape Name NodeId} {state : Lowering ν}
    (h : state.Sound host vocabulary)
    (hshape : (host.view node).Matches state.symbols.Names state.Origin shape)
    (hcompact : host.Compact (state.origins.toList ++ [node])) : state.arena.HasRoom shape := by
  obtain ⟨hargs, hstmts, harms⟩ := hshape.entries
  have hmem : node ∈ state.origins.toList ++ [node] := by simp
  have hfits := hcompact.left
  have hnodes := hfits.nodes_lt
  have hargsLt := hfits.args_lt
  have hstmtsLt := hfits.stmts_lt
  have harmsLt := hfits.arms_lt
  rw [← h.args] at hargsLt
  rw [← h.stmts] at hstmtsLt
  rw [← h.arms] at harmsLt
  rw [Array.length_toList, h.size] at hnodes
  refine ⟨by unfold Arena.maxIndex; omega, ⟨by unfold Arena.maxIndex; omega, ?_⟩,
    ⟨by unfold Arena.maxIndex; omega, ?_⟩, ⟨by unfold Arena.maxIndex; omega, ?_⟩⟩
  · rw [hargs]
    exact hcompact.args_le node hmem
  · rw [hstmts]
    exact hcompact.stmts_le node hmem
  · rw [harms]
    exact hcompact.arms_le node hmem

/-- The origins of nodes and the new one, after placing a node. -/
theorem origin_push_iff {state : Lowering ν} {arena : Arena} {node other : ν} {id : NodeId} :
    Origin { state with arena := arena, origins := state.origins.push node } other id ↔
      state.Origin other id ∨ (id.index = state.origins.size ∧ other = node) := by
  simp only [Origin, Array.getElem?_push]
  split
  · next hlast =>
    simp [hlast, eq_comm]
  · next hlast => simp [hlast]

/-- Placing a node whose children have been lowered keeps the state sound. -/
theorem sound_place {node : ν} {shape : Shape Name NodeId} {state : Lowering ν} {id : NodeId}
    {arena : Arena} (h : state.Sound host vocabulary)
    (hshape : (host.view node).Matches state.symbols.Names state.Origin shape)
    (hadd : Arena.add shape (host.span node) state.arena = .ok id arena) :
    Sound host vocabulary { state with arena := arena, origins := state.origins.push node } := by
  obtain ⟨hid, hsize, -, hextends, hnew⟩ := Arena.add_eq_ok hadd
  obtain ⟨hspans, hargs, hstmts, harms⟩ := Arena.add_tables hadd
  obtain ⟨hargs', hstmts', harms'⟩ := hshape.entries
  have hgrows : ∀ (child : ν) (number : NodeId), state.Origin child number →
      Origin { state with arena := arena, origins := state.origins.push node } child number :=
    fun child number horigin => origin_push_iff.2 (.inl horigin)
  refine { h with
    size := by simp [h.size, hsize]
    located := by rw [hspans, hsize, Array.size_push, h.located]
    layer := ?_
    args := by simp [hargs, h.args, hargs']
    stmts := by simp [hstmts, h.stmts, hstmts']
    arms := by simp [harms, h.arms, harms'] }
  intro other number horigin
  rcases origin_push_iff.1 horigin with hold | ⟨hlast, rfl⟩
  · obtain ⟨layer, hlayer, hspan, hmatches⟩ := h.layer hold
    refine ⟨layer, hextends.shape hlayer, ?_, hmatches.imp (fun _ _ hname => hname)
      fun child number hchild => ⟨hgrows child number hchild.1, hchild.2⟩⟩
    have hlt : number.index < state.arena.spans.size := by
      rw [h.located]
      exact Arena.lt_size_of_shape hlayer
    rw [← hspan]
    simp only [Arena.span, hspans, Array.getElem?_push_lt hlt, Array.getElem?_eq_getElem hlt]
  · obtain rfl : number = id := by
      cases number
      cases id
      simp_all [h.size]
    have hchildren : ∀ (child : ν) (place : NodeId), state.Origin child place →
        Origin { state with arena := arena, origins := state.origins.push other } child place ∧
          place.index < number.index := by
      intro child place hchild
      refine ⟨hgrows child place hchild, ?_⟩
      rw [hlast]
      exact (Array.getElem?_eq_some_iff.1 hchild).1
    refine ⟨shape, hnew, ?_, hshape.imp (fun _ _ hname => hname) hchildren⟩
    have hspan : arena.spans[number.index]? = some (host.span other) := by
      rw [hspans, hlast, h.size, ← h.located]
      exact Array.getElem?_push_size
    simp only [Arena.span, hspan]

/-- Placing a node adds it and requests nothing. It fails only for lack of room. -/
theorem place_grows (policy : Policy) {node : ν} {shape : Shape Name NodeId} {state : Lowering ν}
    (h : state.Sound host vocabulary)
    (hshape : (host.view node).Matches state.symbols.Names state.Origin shape) :
    match place host node shape state with
    | .ok id after => after.Sound host vocabulary ∧ state.Grows host policy [] [node] after ∧
        after.Origin node id
    | .error fault _ => (regime host policy vocabulary).breaks [node] state fault := by
  rw [place_apply]
  cases hadd : Arena.add shape (host.span node) state.arena with
  | error fault arena =>
    obtain ⟨hfault, hfull⟩ := Arena.add_eq_error hadd
    exact ⟨hfault, fun hroom => hfull (hasRoom_of_compact h hshape hroom.2)⟩
  | ok id arena =>
    refine ⟨sound_place h hshape hadd, ⟨fun hname => hname, by simp, rfl, rfl, by simp [wanted]⟩,
      origin_push_iff.2 (.inr ⟨?_, rfl⟩)⟩
    rw [h.size]
    exact (Arena.add_eq_ok hadd).1

/-- Lowering a node, given that its children are lowered by the rules. -/
theorem runs_node {lower : ν → Lower ν NodeId} {node : ν}
    (hnames : ∀ text ∈ (host.view node).names, text ∈ vocabulary)
    (hchildren : ∀ child ∈ (host.view node).children,
      (regime host policy vocabulary).Runs (host.postorder child) (lower child)
        fun state => state.Origin child) :
    (regime host policy vocabulary).Runs (host.postorder node) (Lower.node host policy lower node)
      fun state => state.Origin node := by
  intro before hbefore
  have hnote := note_grows policy hbefore hnames
  unfold Regime.RunsFrom
  rw [node_eq, bind_apply, host.postorder_eq]
  cases hnoted : note policy (host.view node) before with
  | error fault noted =>
    rw [hnoted] at hnote
    exact (regime host policy vocabulary).breaks_more
      ((host.view node).children.flatMap host.postorder ++ [node]) hnote
  | ok _ noted =>
    rw [hnoted] at hnote
    obtain ⟨hsound, hcalls⟩ := hnote
    have horigins : noted.origins.toList = before.origins.toList := by simpa using hcalls.origins
    have hlayer := Regime.Runs.traverse stable_names stable_origin
      (fun text htext => runs_intern (hnames text htext)) hchildren _ hsound
    unfold Regime.RunsFrom at hlayer
    dsimp only
    rw [bind_apply]
    cases htraverse : (host.view node).traverse intern lower noted with
    | error fault middle =>
      rw [htraverse] at hlayer
      have hbreaks := (regime host policy vocabulary).breaks_more [node] hlayer
      exact ⟨hbreaks.1, horigins ▸ hbreaks.2⟩
    | ok shape middle =>
      rw [htraverse] at hlayer
      obtain ⟨hmiddle, hgrows, hmatches⟩ := hlayer
      have hplace := place_grows policy hmiddle hmatches
      dsimp only
      cases hplaced : place host node shape middle with
      | error fault after =>
        rw [hplaced] at hplace
        have hbreaks := (regime host policy vocabulary).breaks_later hgrows hplace
        exact ⟨hbreaks.1, horigins ▸ hbreaks.2⟩
      | ok id after =>
        rw [hplaced] at hplace
        obtain ⟨hafter, hadded, horigin⟩ := hplace
        refine ⟨hafter, ((hcalls.trans hgrows).trans hadded).perm ?_, horigin⟩
        rw [List.append_nil]
        exact (List.perm_append_singleton _ _).symm

/-- Lowering a tree adds its nodes in postorder and leaves the root's behind. -/
theorem runs_within {nesting : Nat} {node : ν} (hnesting : host.height node < nesting)
    (hnames : ∀ inner, host.InTree node inner →
      ∀ text ∈ (host.view inner).names, text ∈ vocabulary) :
    (regime host policy vocabulary).Runs (host.postorder node) (within host policy nesting node)
      fun state => state.Origin node := by
  induction nesting generalizing node with
  | zero => omega
  | succ nesting ih =>
    refine runs_node (hnames node .refl) fun child hchild => ?_
    have hheight := host.height_lt node child hchild
    exact ih (by omega) fun inner hinner => hnames inner (hinner.tail hchild)

/-- Lowering a tree adds its nodes in postorder and gives the node of the root. -/
theorem runs_tree (policy : Policy) {node : ν}
    (hnames : ∀ inner, host.InTree node inner →
      ∀ text ∈ (host.view inner).names, text ∈ vocabulary) :
    (regime host policy vocabulary).Runs (host.postorder node) (tree host policy node)
      fun state => state.Origin node :=
  runs_within (Nat.lt_succ_self _) hnames

end Lower

end ConstFold
