import ConstFold.Proofs.Mirror
import ConstFold.Replacement
import Mathlib.Algebra.Order.BigOperators.Group.List

/-!
# The functions that lowering asks for

Lowering a tree requests the functions that the tree calls, and lowering goes on until every
function requested has been asked for. `Lowering.Reached` is the invariant of this: the arena holds
the tree of the root and the bodies of the functions asked for so far, in this order, the functions
they call have been requested, and nothing has been requested that the root does not reach.

The main statements are `Lower.askNext_reached`, what asking for one name does, and
`Host.lower_mirrors`, what a whole run does: it ends unless the root reaches infinitely many
functions, it has room for programs that fit (`Host.Fits`), and it has then asked for the functions
that the root reaches, each once.
-/

set_option autoImplicit false

namespace ConstFold

variable {ν : Type}

/-! ## Programs that fit -/

namespace Host

variable (host : Host ν) (policy : Policy)

/-- The nodes in the body of a function, in the order in which they are lowered. -/
def bodyNodes (name : String) : List ν :=
  match host.function name with
  | some found => host.postorder found.body
  | none => []

/-- The nodes in the tree of a root and in the bodies of some functions. -/
def lowers (root : ν) (names : List String) : List ν :=
  host.postorder root ++ names.flatMap host.bodyNodes

/-- A node lies in the tree of a root or in the body of a function that the root reaches. -/
def Meets (root node : ν) : Prop :=
  host.InTree root node ∨ ∃ name, host.Reaches policy root name ∧ node ∈ host.bodyNodes name

/-- The texts with names: those that have one at the start, and those in the nodes and parameters
that a root reaches. -/
def vocabulary (symbols : SymbolTable) (root : ν) : Set String :=
  { text |
    (∃ name, symbols.Names text name) ∨
    (∃ node, host.Meets policy root node ∧ text ∈ (host.view node).names) ∨
    ∃ name found, host.Reaches policy root name ∧ host.function name = some found ∧
      text ∈ found.params }

/-- The tree of a root and the functions it reaches can be lowered into one arena, with names from a
given symbol table: no list has more than 65535 entries, and there are fewer than 2³² nodes,
statements and names. -/
structure Fits (symbols : SymbolTable) (root : ν) : Prop where
  lists_le : ∀ node, host.Meets policy root node →
    (host.view node).argEntries ≤ Arena.maxLength ∧
      (host.view node).stmtEntries ≤ Arena.maxLength ∧
      (host.view node).armEntries ≤ Arena.maxLength
  names_lt : (host.vocabulary policy symbols root).encard < UInt32.size
  tables_lt : ∃ names : List String, names.Nodup ∧
    (∀ name, name ∈ names ↔ host.Reaches policy root name) ∧
    (host.lowers root names).length < UInt32.size ∧
    ((host.lowers root names).map fun node => (host.view node).stmtEntries).sum < UInt32.size

variable {host policy} {symbols : SymbolTable} {root : ν}

/-- The nodes in the body of a function of the host are those of its tree. -/
theorem bodyNodes_of_function {name : String} {found : HostFunction ν}
    (h : host.function name = some found) : host.bodyNodes name = host.postorder found.body := by
  simp [bodyNodes, h]

/-- The nodes lowered for functions that the root reaches are met from the root. -/
theorem meets_of_mem_lowers {names : List String} {node : ν}
    (hnames : ∀ name ∈ names, host.Reaches policy root name)
    (hnode : node ∈ host.lowers root names) : host.Meets policy root node := by
  rcases List.mem_append.1 hnode with htree | hbody
  · exact .inl (host.mem_postorder_iff.1 htree)
  · obtain ⟨name, hname, hmem⟩ := List.mem_flatMap.1 hbody
    exact .inr ⟨name, hnames name hname, hmem⟩

/-- A tree has one node more than there are places in its nodes. -/
theorem sum_children_postorder (host : Host ν) (node : ν) :
    ((host.postorder node).map fun inner => (host.view inner).children.length).sum + 1 =
      (host.postorder node).length := by
  induction node using host.wellFounded_child.induction with
  | _ node ih =>
    have hall : ∀ children : List ν, (∀ child ∈ children, host.Child child node) →
        ((children.flatMap host.postorder).map fun inner => (host.view inner).children.length).sum +
          children.length = (children.flatMap host.postorder).length := by
      intro children hchildren
      induction children with
      | nil => rfl
      | cons child rest ihrest =>
        have hchild := ih child (hchildren child List.mem_cons_self)
        have hrest := ihrest fun other hother => hchildren other (List.mem_cons_of_mem _ hother)
        simp only [List.flatMap_cons, List.map_append, List.sum_append, List.length_append,
          List.length_cons]
        omega
    have hsum := hall (host.view node).children fun child hchild => hchild
    rw [host.postorder_eq]
    simp only [List.map_append, List.sum_append, List.length_append, List.map_cons, List.map_nil,
      List.sum_cons, List.sum_nil, List.length_cons, List.length_nil]
    omega

/-- A table with at most one entry for every place has fewer entries than there are nodes. -/
theorem sum_lowers_le {count : Shape String ν → Nat}
    (hcount : ∀ shape, count shape ≤ shape.children.length) (root : ν) (names : List String) :
    ((host.lowers root names).map fun node => count (host.view node)).sum ≤
      (host.lowers root names).length := by
  have htree : ∀ node, ((host.postorder node).map fun inner => count (host.view inner)).sum ≤
      (host.postorder node).length := by
    intro node
    have hle : ((host.postorder node).map fun inner => count (host.view inner)).sum ≤
        ((host.postorder node).map fun inner => (host.view inner).children.length).sum :=
      List.sum_le_sum fun inner _ => hcount (host.view inner)
    have hsum := host.sum_children_postorder node
    omega
  have hbody : ∀ name, ((host.bodyNodes name).map fun inner => count (host.view inner)).sum ≤
      (host.bodyNodes name).length := by
    intro name
    unfold bodyNodes
    split
    · exact htree _
    · exact Nat.le_refl 0
  have hbodies : ((names.flatMap host.bodyNodes).map fun inner => count (host.view inner)).sum ≤
      (names.flatMap host.bodyNodes).length := by
    induction names with
    | nil => exact Nat.le_refl 0
    | cons name rest ih =>
      have hname := hbody name
      simp only [List.flatMap_cons, List.map_append, List.sum_append, List.length_append]
      omega
  have hroot := htree root
  simp only [lowers, List.map_append, List.sum_append, List.length_append]
  omega

/-- A layer stores no more arguments than it has children. -/
theorem argEntries_le_length_children (shape : Shape String ν) :
    shape.argEntries ≤ shape.children.length := by
  cases shape with
  | call callee receiver args => simp [Shape.argEntries, Shape.children]
  | «foreign» children => exact Nat.le_refl _
  | _ => exact Nat.zero_le _

/-- A layer stores no more arms than it has children. -/
theorem armEntries_le_length_children (shape : Shape String ν) :
    shape.armEntries ≤ shape.children.length := by
  cases shape with
  | conditional arms otherwise =>
    have harms : arms.length ≤ (arms.flatMap Arm.children).length := by
      induction arms with
      | nil => exact Nat.le_refl 0
      | cons arm rest ih =>
        simp only [List.flatMap_cons, List.length_append, List.length_cons, Arm.children]
        omega
    simp only [Shape.armEntries, Shape.children, List.length_append]
    omega
  | _ => exact Nat.zero_le _

/-- Whether nodes can be lowered into one arena does not depend on their order. -/
theorem Compact.perm {nodes nodes' : List ν} (h : host.Compact nodes) (hperm : nodes.Perm nodes') :
    host.Compact nodes' where
  args_le node hnode := h.args_le node (hperm.mem_iff.2 hnode)
  stmts_le node hnode := h.stmts_le node (hperm.mem_iff.2 hnode)
  arms_le node hnode := h.arms_le node (hperm.mem_iff.2 hnode)
  nodes_lt := hperm.length_eq ▸ h.nodes_lt
  args_lt := by
    rw [← (hperm.map _).sum_eq]
    exact h.args_lt
  stmts_lt := by
    rw [← (hperm.map _).sum_eq]
    exact h.stmts_lt
  arms_lt := by
    rw [← (hperm.map _).sum_eq]
    exact h.arms_lt

/-- When a program fits, there is room for the root and any of the functions it reaches. -/
theorem Fits.compact (h : host.Fits policy symbols root) {names : List String}
    (hnodup : names.Nodup) (hnames : ∀ name ∈ names, host.Reaches policy root name) :
    host.Compact (host.lowers root names) := by
  obtain ⟨all, hall, hmem, hnodes, hstmts⟩ := h.tables_lt
  have hmeets : ∀ node ∈ host.lowers root all, host.Meets policy root node :=
    fun node => meets_of_mem_lowers fun name hname => (hmem name).1 hname
  have hargs := host.sum_lowers_le argEntries_le_length_children root all
  have harms := host.sum_lowers_le armEntries_le_length_children root all
  have hcompact : host.Compact (host.lowers root all) :=
    ⟨fun node hnode => (h.lists_le node (hmeets node hnode)).1,
      fun node hnode => (h.lists_le node (hmeets node hnode)).2.1,
      fun node hnode => (h.lists_le node (hmeets node hnode)).2.2,
      hnodes, by omega, hstmts, by omega⟩
  -- The functions reached are the given ones and some more.
  have hperm : all.Perm (names ++ all.filter fun name => name ∉ names) := by
    refine (List.perm_ext_iff_of_nodup hall ?_).2 fun name => ?_
    · refine hnodup.append (hall.filter _) fun name hname hother => ?_
      simp only [List.mem_filter, decide_eq_true_eq] at hother
      exact hother.2 hname
    · simp only [List.mem_append, List.mem_filter, decide_eq_true_eq]
      by_cases hname : name ∈ names
      · exact iff_of_true ((hmem name).2 (hnames name hname)) (.inl hname)
      · simp only [hname, false_or, not_false_eq_true, and_true]
  have hlowers :=
    hcompact.perm ((hperm.flatMap_right host.bodyNodes).append_left (host.postorder root))
  rw [List.flatMap_append, ← List.append_assoc] at hlowers
  exact hlowers.left

end Host

/-! ## Asking for one name after the other -/

/-- A definition is that of a function of the host: it has its name, its parameters, its body and
the location of its body. -/
structure Definition.Describes (host : Host ν) (symbols : SymbolTable) (origins : Array ν)
    (definition : Definition) (text : String) (found : HostFunction ν) : Prop where
  name : symbols.Names text definition.name
  params : List.Forall₂ symbols.Names found.params definition.params
  body : origins[definition.body.index]? = some found.body
  span : definition.span = host.span found.body

/-- The parameters of a definition read as those of the function. -/
theorem Definition.Describes.params_eq {host : Host ν} {symbols : SymbolTable} {origins : Array ν}
    {definition : Definition} {text : String} {found : HostFunction ν}
    (h : definition.Describes host symbols origins text found) :
    definition.params.map symbols.text = found.params := by
  have hparams := map_eq_map_of_forall₂ (h.params.imp fun _ _ hname => hname.text_eq)
  rw [hparams, List.map_id']

namespace Lowering

/-- A state of lowering a root in which the functions asked for, and no others, have been
lowered. -/
structure Reached (host : Host ν) (policy : Policy) (symbols : SymbolTable) (root : ν)
    (state : Lowering ν) : Prop where
  sound : state.Sound host (host.vocabulary policy symbols root)
  origins : state.origins.toList = host.lowers root state.asked.toList
  requested : ∀ text, text ∈ state.wanted ↔
    ∃ node ∈ state.origins.toList, host.asks policy node = some text
  reaches : ∀ text ∈ state.wanted, host.Reaches policy root text
  defined : ∀ callee definition, state.library.get? callee = some definition →
    definition.name = callee ∧ ∃ text ∈ state.asked, ∃ found, host.function text = some found ∧
      definition.Describes host state.symbols state.origins text found
  complete : ∀ text ∈ state.asked, ∀ found, host.function text = some found →
    ∃ definition, state.library.get? definition.name = some definition ∧
      definition.Describes host state.symbols state.origins text found

variable {host : Host ν} {policy : Policy} {symbols : SymbolTable} {root : ν} {state : Lowering ν}

/-- A definition stays that of its function while lowering goes on. -/
theorem Grows.describes {callers nodes : List ν} {after : Lowering ν}
    (h : state.Grows host policy callers nodes after) {text : String} {found : HostFunction ν}
    {definition : Definition}
    (hdescribes : definition.Describes host state.symbols state.origins text found) :
    definition.Describes host after.symbols after.origins text found where
  name := h.names hdescribes.name
  params := hdescribes.params.imp fun _ _ hname => h.names hname
  body := h.origin hdescribes.body
  span := hdescribes.span

namespace Reached

/-- What has been asked for is reached. -/
theorem reaches_of_mem_asked (h : state.Reached host policy symbols root) {text : String}
    (htext : text ∈ state.asked) : host.Reaches policy root text :=
  h.reaches text (h.sound.queued.mem_iff.2 (List.mem_append_right _ htext.val))

/-- What is still to be asked for is reached. -/
theorem reaches_of_mem_awaited (h : state.Reached host policy symbols root) {text : String}
    (htext : text ∈ state.awaited) : host.Reaches policy root text :=
  h.reaches text (h.sound.queued.mem_iff.2 (List.mem_append_left _ htext))

/-- The texts asked for are different from each other and from those still to be asked for. -/
theorem nodup (h : state.Reached host policy symbols root) :
    (state.awaited ++ state.asked.toList).Nodup :=
  h.sound.queued.nodup_iff.1 h.sound.once

/-- No text is asked for twice. -/
theorem nodup_asked (h : state.Reached host policy symbols root) : state.asked.toList.Nodup :=
  (List.nodup_append.1 h.nodup).2.1

variable {name : Name} {text : String} {rest : List (Name × String)}

/-- What is asked for next is reached. -/
theorem reaches_next (h : state.Reached host policy symbols root)
    (hpending : state.pending = (name, text) :: rest) : host.Reaches policy root text :=
  h.reaches_of_mem_awaited (by simp [awaited, hpending])

/-- What is asked for next has not been asked for. -/
theorem notMem_asked_next (h : state.Reached host policy symbols root)
    (hpending : state.pending = (name, text) :: rest) : text ∉ state.asked := by
  have hnodup := h.nodup
  rw [awaited, hpending, List.map_cons, List.cons_append, List.nodup_cons,
    List.mem_append] at hnodup
  exact fun hold => hnodup.1 (.inr hold.val)

end Reached

end Lowering

namespace Lower

variable {host : Host ν} {policy : Policy} {symbols : SymbolTable} {root : ν}

open Lowering

/-- Lowering a function that the root reaches, under the name it was requested by. -/
theorem runs_defining {name : Name} {text : String} {found : HostFunction ν} {before : Lowering ν}
    (hbefore : before.Sound host (host.vocabulary policy symbols root))
    (hname : before.symbols.Names text name) (hreaches : host.Reaches policy root text)
    (hfound : host.function text = some found) :
    (regime host policy (host.vocabulary policy symbols root)).RunsFrom before
      (host.postorder found.body) (defining host policy name found)
        fun state definition =>
          definition.Describes host state.symbols state.origins text found := by
  have hparams : (regime host policy (host.vocabulary policy symbols root)).Runs _
      (found.params.mapM intern) _ :=
    Regime.Runs.mapM stable_names found.params fun param hparam =>
      runs_intern (.inr (.inr ⟨text, found, hreaches, hfound, hparam⟩))
  have hbody : (regime host policy (host.vocabulary policy symbols root)).Runs
      (host.postorder found.body) (tree host policy found.body)
      fun state => state.Origin found.body := by
    refine runs_tree policy fun inner hinner word hword =>
      .inr (.inl ⟨inner, .inr ⟨text, hreaches, ?_⟩, hword⟩)
    rw [Host.bodyNodes_of_function hfound]
    exact host.mem_postorder_iff.2 hinner
  have hrun := hparams.bind (Regime.Stable.forall₂ stable_names found.params) fun params =>
    hbody.map (stable_origin found.body) fun body =>
      ({ name, params, body, span := host.span found.body } : Definition)
  rw [List.flatMap_eq_nil_iff.2 fun _ _ => rfl, List.nil_append] at hrun
  refine (hrun before hbefore).imp ?_
  rintro state definition hgrows ⟨params, hparams, body, hbody, rfl⟩
  exact ⟨hgrows.names hname, hparams, hbody, rfl⟩

/-- Asking for the next text keeps the books. -/
theorem sound_asking {vocabulary : Set String} {name : Name} {text : String}
    {rest : List (Name × String)} {state : Lowering ν} (h : state.Sound host vocabulary)
    (hpending : state.pending = (name, text) :: rest) :
    (asking text rest state).Sound host vocabulary := by
  have hlisted := h.listed
  have hqueued := h.queued
  rw [hpending] at hlisted
  rw [awaited, hpending, List.map_cons] at hqueued
  refine { h with
    layer := h.layer
    listed := (List.forall_mem_cons.1 hlisted).2
    queued := hqueued.trans ?_ }
  simp only [asking, awaited, Array.toList_push]
  rw [← List.append_assoc]
  exact (List.perm_append_singleton text (rest.map Prod.snd ++ state.asked.toList)).symm

/-- The nodes of a root and some functions, and those of one function more. -/
theorem lowers_push (names : Array String) (name : String) :
    host.lowers root (names.push name).toList =
      host.lowers root names.toList ++ host.bodyNodes name := by
  simp [Host.lowers]

/-- Asking for a function that the host does not have keeps the state reached. -/
theorem reached_asking {name : Name} {text : String} {rest : List (Name × String)}
    {state : Lowering ν} (h : state.Reached host policy symbols root)
    (hpending : state.pending = (name, text) :: rest) (hnone : host.function text = none) :
    (asking text rest state).Reached host policy symbols root where
  sound := sound_asking h.sound hpending
  origins := by
    rw [asking, lowers_push, Host.bodyNodes, hnone, List.append_nil]
    exact h.origins
  requested := h.requested
  reaches := h.reaches
  defined callee definition hget := by
    obtain ⟨hcallee, text, htext, hfound⟩ := h.defined callee definition hget
    exact ⟨hcallee, text, Array.mem_push_of_mem _ htext, hfound⟩
  complete text htext found hfound := by
    rcases Array.mem_push.1 htext with hold | rfl
    · exact h.complete text hold found hfound
    · rw [hnone] at hfound
      cases hfound

/-- Asking for a function of the host and lowering it keeps the state reached. -/
theorem reached_defining {name : Name} {text : String} {rest : List (Name × String)}
    {state after : Lowering ν} {found : HostFunction ν} {definition : Definition}
    (h : state.Reached host policy symbols root)
    (hpending : state.pending = (name, text) :: rest) (hfound : host.function text = some found)
    (hsound : after.Sound host (host.vocabulary policy symbols root))
    (hgrows : (regime host policy (host.vocabulary policy symbols root)).grows
      (host.postorder found.body) (asking text rest state) after)
    (hdescribes : definition.Describes host after.symbols after.origins text found) :
    Reached host policy symbols root
      { after with library := after.library.define definition } := by
  have hlibrary : after.library = state.library := hgrows.library
  have hasked : after.asked = state.asked.push text := hgrows.asked
  have horigins : after.origins.toList = state.origins.toList ++ host.postorder found.body :=
    hgrows.origins
  have hreaches := h.reaches_next hpending
  have hnew := h.notMem_asked_next hpending
  -- A definition made before stays, because its name is another one.
  have hkeeps : ∀ {text' : String} {found' : HostFunction ν} {other : Definition},
      text' ∈ state.asked →
      other.Describes host state.symbols state.origins text' found' →
      other.Describes host after.symbols after.origins text' found' ∧
        other.name ≠ definition.name := by
    intro text' found' other htext hother
    have hother' := hgrows.describes hother
    refine ⟨hother', fun heq => hnew ?_⟩
    have hsame := heq ▸ hother'.name
    rwa [← hsame.unique hdescribes.name]
  refine ⟨{ hsound with layer := hsound.layer }, ?_, ?_, ?_, ?_, ?_⟩
  · show after.origins.toList = host.lowers root after.asked.toList
    rw [horigins, hasked, lowers_push, Host.bodyNodes_of_function hfound, h.origins]
  · intro other
    show other ∈ after.wanted ↔ ∃ node ∈ after.origins.toList, _
    rw [hgrows.requested, horigins]
    simp only [List.mem_append, or_and_right, exists_or]
    exact or_congr_left (h.requested other)
  · intro other hother
    rcases (hgrows.requested other).1 hother with hold | hcalled
    · exact h.reaches other hold
    · exact .body hreaches hfound (Host.calls_iff.2 hcalled)
  · intro callee other hget
    rw [Library.get?_define] at hget
    split at hget
    · next hcallee =>
      cases hget
      refine ⟨hcallee.symm, text, ?_, found, hfound, hdescribes⟩
      show text ∈ after.asked
      rw [hasked]
      exact Array.mem_push_self
    · rw [hlibrary] at hget
      obtain ⟨hcallee, text', htext, found', hfound', hother⟩ := h.defined callee other hget
      have hother' := (hkeeps htext hother).1
      refine ⟨hcallee, text', ?_, found', hfound', hother'⟩
      show text' ∈ after.asked
      rw [hasked]
      exact Array.mem_push_of_mem _ htext
  · intro text' htext found' hfound'
    change text' ∈ after.asked at htext
    rw [hasked] at htext
    rcases Array.mem_push.1 htext with hold | rfl
    · obtain ⟨other, hget, hother⟩ := h.complete text' hold found' hfound'
      obtain ⟨hother', hne⟩ := hkeeps hold hother
      refine ⟨other, ?_, hother'⟩
      rw [Library.get?_define, if_neg hne, hlibrary]
      exact hget
    · obtain rfl : found' = found := Option.some.inj (hfound'.symm.trans hfound)
      refine ⟨definition, ?_, hdescribes⟩
      rw [Library.get?_define, if_pos rfl]

/-- When a program fits, there is room for the function that is asked for next. -/
theorem compact_next {name : Name} {text : String} {rest : List (Name × String)}
    {state : Lowering ν} (h : state.Reached host policy symbols root)
    (hpending : state.pending = (name, text) :: rest) (hfits : host.Fits policy symbols root) :
    host.Compact (state.origins.toList ++ host.bodyNodes text) := by
  rw [h.origins, ← lowers_push]
  refine hfits.compact ?_ fun other hother => ?_
  · rw [Array.toList_push, List.nodup_append]
    refine ⟨h.nodup_asked, List.nodup_singleton text, fun other hother last hlast heq => ?_⟩
    rw [List.mem_singleton.1 hlast] at heq
    exact h.notMem_asked_next hpending (Array.mem_def.2 (heq ▸ hother))
  · rcases Array.mem_push.1 (Array.mem_def.2 hother) with hold | rfl
    · exact h.reaches_of_mem_asked hold
    · exact h.reaches_next hpending

/-- Asking for one name: unless there is none left, one name more has been asked for. It fails only
for lack of room. -/
theorem askNext_reached {state : Lowering ν} (h : state.Reached host policy symbols root) :
    match askNext host policy state with
    | .ok true after =>
      after.Reached host policy symbols root ∧ ∃ text, after.asked = state.asked.push text
    | .ok false after => after = state ∧ state.pending = []
    | .error fault _ => fault.IsCapacity ∧ ¬ host.Fits policy symbols root := by
  rw [askNext_apply]
  cases hpending : state.pending with
  | nil => exact ⟨rfl, rfl⟩
  | cons entry rest =>
    obtain ⟨name, text⟩ := entry
    have hname : state.symbols.Names text name :=
      h.sound.listed (name, text) (hpending ▸ List.mem_cons_self)
    dsimp only
    cases hfound : host.function text with
    | none => exact ⟨reached_asking h hpending hfound, text, rfl⟩
    | some found =>
      have hrun := runs_defining (sound_asking h.sound hpending) hname (h.reaches_next hpending)
        hfound
      unfold Regime.RunsFrom at hrun
      dsimp only
      cases hdefining : defining host policy name found (asking text rest state) with
      | error fault after =>
        rw [hdefining] at hrun
        refine ⟨hrun.1, fun hfits => hrun.2 ⟨hfits.names_lt, ?_⟩⟩
        rw [← Host.bodyNodes_of_function hfound]
        show host.Compact (state.origins.toList ++ host.bodyNodes text)
        exact compact_next h hpending hfits
      | ok definition after =>
        rw [hdefining] at hrun
        obtain ⟨hsound, hgrows, hdescribes⟩ := hrun
        exact ⟨reached_defining h hpending hfound hsound hgrows hdescribes, text, hgrows.asked⟩

/-- How asking ends: no name is left, or there was no room. -/
def Settles (host : Host ν) (policy : Policy) (symbols : SymbolTable) (root : ν) :
    EStateM.Result Fault (Lowering ν) Unit → Prop
  | .ok () final => final.Reached host policy symbols root ∧ final.pending = []
  | .error fault _ => fault.IsCapacity ∧ ¬ host.Fits policy symbols root

/-- If asking ends, no name is left or there was no room. -/
theorem settles_of_drain {state : Lowering ν} {ending : EStateM.Result Fault (Lowering ν) Unit}
    (h : state.Reached host policy symbols root) (hdrain : state.drain host policy = some ending) :
    Settles host policy symbols root ending := by
  refine Lowering.drain.partial_correctness host policy
    (fun state ending => state.Reached host policy symbols root →
      Settles host policy symbols root ending) ?_ state ending hdrain h
  intro drain ih state ending hstep hstate
  have hask := askNext_reached hstate
  split at hstep
  · next after hrun =>
    rw [hrun] at hask
    exact ih after ending hstep hask.1
  · next after hrun =>
    rw [hrun] at hask
    obtain ⟨rfl, hpending⟩ := hask
    cases hstep
    exact ⟨hstate, hpending⟩
  · next fault after hrun =>
    rw [hrun] at hask
    cases hstep
    exact hask

/-- If the root reaches finitely many functions, there is an end to asking. -/
theorem exists_drain_eq {state : Lowering ν}
    (hfinite : {name | host.Reaches policy root name}.Finite)
    (h : state.Reached host policy symbols root) :
    ∃ ending, state.drain host policy = some ending := by
  have hbound : ∀ {state : Lowering ν}, state.Reached host policy symbols root →
      state.asked.size ≤ hfinite.toFinset.card := by
    intro state hstate
    rw [← Array.length_toList, ← List.toFinset_card_of_nodup hstate.nodup_asked]
    refine Finset.card_le_card fun name hname => hfinite.mem_toFinset.2 ?_
    exact hstate.reaches_of_mem_asked (Array.mem_def.2 (List.mem_toFinset.1 hname))
  -- Induction on the number of names that can still be asked for.
  obtain ⟨left, hleft⟩ : ∃ left, hfinite.toFinset.card < state.asked.size + left :=
    ⟨hfinite.toFinset.card + 1, by omega⟩
  induction left generalizing state with
  | zero => exact absurd (hbound h) (Nat.not_le.2 hleft)
  | succ left ih =>
    rw [Lowering.drain]
    have hask := askNext_reached h
    cases hrun : askNext host policy state with
    | error fault after => exact ⟨_, rfl⟩
    | ok more after =>
      cases more with
      | false => exact ⟨_, rfl⟩
      | true =>
        rw [hrun] at hask
        obtain ⟨hafter, name, hasked⟩ := hask
        refine ih hafter ?_
        rw [hasked, Array.size_push]
        omega

end Lower

/-! ## The lowered program -/

/-- What a lowered program is made of: the tree of the root and the bodies of the functions that the
root reaches, with the layer and location of each node and the definition of each function. -/
structure Lowered.Mirrors (host : Host ν) (policy : Policy) (root : ν) (lowered : Lowered ν) :
    Prop where
  consistent : lowered.symbols.Consistent
  size : lowered.origins.size = lowered.arena.size
  layer : ∀ {node : ν} {id : NodeId}, lowered.origin? id = some node →
    ∃ shape, lowered.arena.shape id = .ok shape ∧ lowered.arena.span id = .ok (host.span node) ∧
      (host.view node).Matches lowered.symbols.Names
        (fun child number => lowered.origin? number = some child ∧ number.index < id.index) shape
  origins : lowered.origins.toList = host.lowers root lowered.asked.toList
  origin_root : lowered.origin? lowered.root = some root
  nodup : lowered.asked.toList.Nodup
  mem_asked_iff : ∀ name, name ∈ lowered.asked ↔ host.Reaches policy root name
  defined : ∀ callee definition, lowered.library.get? callee = some definition →
    definition.name = callee ∧ ∃ text ∈ lowered.asked, ∃ found, host.function text = some found ∧
      definition.Describes host lowered.symbols lowered.origins text found
  complete : ∀ text ∈ lowered.asked, ∀ found, host.function text = some found →
    ∃ definition, lowered.library.get? definition.name = some definition ∧
      definition.Describes host lowered.symbols lowered.origins text found

namespace Host

variable {host : Host ν} {policy : Policy} {symbols : SymbolTable} {root : ν}

/-- With no name left, everything that the root reaches has been asked for. -/
theorem mem_asked_of_reaches {state : Lowering ν} (h : state.Reached host policy symbols root)
    (hpending : state.pending = []) {name : String} (hname : host.Reaches policy root name) :
    name ∈ state.asked := by
  have hasked : ∀ called, (∃ node ∈ state.origins.toList, host.asks policy node = some called) →
      called ∈ state.asked := by
    intro called hcalled
    have hmem := h.sound.queued.mem_iff.1 ((h.requested called).2 hcalled)
    rw [Lowering.awaited, hpending, List.map_nil, List.nil_append] at hmem
    exact Array.mem_def.2 hmem
  rw [h.origins] at hasked
  induction hname with
  | call hcall =>
    obtain ⟨node, hnode, hcalls⟩ := calls_iff.1 hcall
    exact hasked _ ⟨node, List.mem_append_left _ hnode, hcalls⟩
  | body _ hfound hcall ih =>
    obtain ⟨node, hnode, hcalls⟩ := calls_iff.1 hcall
    rw [← bodyNodes_of_function hfound] at hnode
    exact hasked _ ⟨node, List.mem_append_right _ (List.mem_flatMap.2 ⟨_, ih.val, hnode⟩), hcalls⟩

/-- The state is sound before anything is lowered. -/
theorem sound_initial (hsymbols : symbols.Reachable) :
    Lowering.Sound host (host.vocabulary policy symbols root) { symbols := symbols } where
  consistent := hsymbols.consistent
  spoken text name hname := .inl ⟨name, hname⟩
  size := rfl
  located := rfl
  layer horigin := by cases horigin
  args := rfl
  stmts := rfl
  arms := rfl
  known name hname := by cases hname
  listed entry hentry := by cases hentry
  once := .nil
  queued := .nil

/-- Lowering the tree of the root gives its node in a reached state, unless there was no room. -/
theorem reached_tree (host : Host ν) (policy : Policy) (root : ν) (hsymbols : symbols.Reachable) :
    match Lower.tree host policy root { symbols := symbols } with
    | .ok id state =>
      state.Reached host policy symbols root ∧ (host.postorder root)[id.index]? = some root
    | .error fault _ => fault.IsCapacity ∧ ¬ host.Fits policy symbols root := by
  have hnames : ∀ inner, host.InTree root inner → ∀ text ∈ (host.view inner).names,
      text ∈ host.vocabulary policy symbols root :=
    fun inner hinner text htext => .inr (.inl ⟨inner, .inl hinner, htext⟩)
  have hrun := Lower.runs_tree policy hnames _ (sound_initial hsymbols)
  unfold Regime.RunsFrom at hrun
  cases htree : Lower.tree host policy root { symbols := symbols } with
  | error fault state =>
    rw [htree] at hrun
    refine ⟨hrun.1, fun hfits => hrun.2 ⟨hfits.names_lt, ?_⟩⟩
    have hcompact := hfits.compact List.nodup_nil fun name hname => nomatch hname
    rwa [lowers, List.flatMap_nil, List.append_nil] at hcompact
  | ok id state =>
    rw [htree] at hrun
    obtain ⟨hsound, hgrows, horigin⟩ := hrun
    have horigins : state.origins.toList = host.postorder root := hgrows.origins
    have hasked : state.asked = #[] := hgrows.asked
    have hlibrary : state.library = {} := hgrows.library
    have hrequested : ∀ text, text ∈ state.wanted ↔
        ∃ node ∈ host.postorder root, host.asks policy node = some text := by
      intro text
      rw [hgrows.requested]
      simp [Lowering.wanted]
    rw [Lowering.Origin, ← Array.getElem?_toList, horigins] at horigin
    refine ⟨⟨hsound, ?_, ?_, ?_, ?_, ?_⟩, horigin⟩
    · rw [horigins, hasked]
      simp [lowers]
    · rw [horigins]
      exact hrequested
    · exact fun name hname => .call (calls_iff.2 ((hrequested name).1 hname))
    · intro callee definition hget
      rw [hlibrary] at hget
      cases hget
    · intro text htext
      rw [hasked] at htext
      simp at htext

/-- Lowering ends unless the root reaches infinitely many functions, and fails otherwise only for
lack of room. What it gives mirrors the host. -/
theorem lower_mirrors (host : Host ν) (policy : Policy) (root : ν) (hsymbols : symbols.Reachable) :
    match host.lower policy symbols root with
    | .ok lowered => lowered.Mirrors host policy root
    | .error fault =>
      (fault.IsCapacity ∧ ¬ host.Fits policy symbols root) ∨
        (fault = .unfinished ∧ ¬ {name | host.Reaches policy root name}.Finite) := by
  have htree := reached_tree host policy root hsymbols
  unfold Host.lower Lower.program
  rw [Lower.bind_apply]
  cases hrun : Lower.tree host policy root { symbols := symbols } with
  | error fault state =>
    rw [hrun] at htree
    exact .inl htree
  | ok id first =>
    rw [hrun] at htree
    obtain ⟨hfirst, hroot⟩ := htree
    dsimp only
    rw [Lower.bind_apply]
    unfold Lower.functions
    cases hdrain : first.drain host policy with
    | none =>
      refine .inr ⟨rfl, fun hfinite => ?_⟩
      obtain ⟨ending, hending⟩ := Lower.exists_drain_eq hfinite hfirst
      rw [hending] at hdrain
      cases hdrain
    | some ending =>
      have hsettles := Lower.settles_of_drain hfirst hdrain
      cases ending with
      | error fault state => exact .inl hsettles
      | ok value final =>
        obtain ⟨hfinal, hpending⟩ := hsettles
        refine ⟨hfinal.sound.consistent, hfinal.sound.size, hfinal.sound.layer, hfinal.origins, ?_,
          hfinal.nodup_asked,
          fun name => ⟨hfinal.reaches_of_mem_asked, mem_asked_of_reaches hfinal hpending⟩,
          hfinal.defined, hfinal.complete⟩
        show final.origins[id.index]? = some root
        rw [← Array.getElem?_toList, hfinal.origins, lowers,
          List.getElem?_append_left (List.getElem?_eq_some_iff.1 hroot).1]
        exact hroot

/-- A program that was lowered is made of what the root reaches. -/
theorem mirrors_of_lower (hsymbols : symbols.Reachable) {lowered : Lowered ν}
    (h : host.lower policy symbols root = .ok lowered) : lowered.Mirrors host policy root := by
  have hlower := lower_mirrors host policy root hsymbols
  rw [h] at hlower
  exact hlower

/-- Only finitely many functions are reached if they fit into one arena. -/
theorem Fits.finite (h : host.Fits policy symbols root) :
    {name | host.Reaches policy root name}.Finite := by
  obtain ⟨names, -, hnames, -⟩ := h.tables_lt
  exact (List.finite_toSet names).subset fun name hname => (hnames name).2 hname

/-- Programs that fit can be lowered. -/
theorem exists_lower_eq (hsymbols : symbols.Reachable) (h : host.Fits policy symbols root) :
    ∃ lowered, host.lower policy symbols root = .ok lowered := by
  have hlower := lower_mirrors host policy root hsymbols
  cases hrun : host.lower policy symbols root with
  | ok lowered => exact ⟨lowered, rfl⟩
  | error fault =>
    rw [hrun] at hlower
    rcases hlower with ⟨-, hfull⟩ | ⟨-, hinfinite⟩
    · exact absurd h hfull
    · exact absurd h.finite hinfinite

end Host

/-! ## A program that fits -/

/-- A function that counts down by calling itself, called twice with its result used as the
arguments of a call of a function that the host does not have. -/
def countdown : Listing where
  entries := #[(.literal (.int 0), Span.nowhere), (.var "n", Span.nowhere),
    (.call "equals" (some 1) [0], Span.nowhere), (.literal (.int 1), Span.nowhere),
    (.call "minus" (some 1) [3], Span.nowhere), (.call "evalDown" none [4], Span.nowhere),
    (.conditional [⟨2, 0⟩] (some 5), Span.nowhere), (.call "evalDown" none [3], Span.nowhere),
    (.call "evalOther" none [7, 7], Span.nowhere), (.foreign [8], Span.nowhere)]
  functions := Table.ofList [("evalDown", { params := ["n"], body := 6 })]
  ordered := by decide

/-- The listing as a host. -/
def countdownHost : Host Item := countdown.toHost false

/-- The host has the one function. -/
theorem function_countdown (name : String) :
    countdownHost.function name =
      if name = "evalDown" then some { params := ["n"], body := .entry 6 } else none := by
  have hget : countdown.functions.get? name =
      if name = "evalDown" then some { params := ["n"], body := 6 } else none :=
    Table.get?_insert _ _ _ _
  show (countdown.functions.get? name).map _ = _
  rw [hget]
  split <;> rfl

/-- The root reaches the function and the one that the host does not have. -/
theorem reaches_countdown (name : String) :
    countdownHost.Reaches {} (.entry 9) name ↔ name ∈ ["evalDown", "evalOther"] := by
  have hroot : (countdownHost.postorder (.entry 9)).filterMap (countdownHost.asks {}) =
      ["evalDown", "evalDown", "evalOther"] := by decide +kernel
  have hbody : (countdownHost.postorder (.entry 6)).filterMap (countdownHost.asks {}) =
      ["evalDown"] := by decide +kernel
  have hcalls : ∀ node, countdownHost.Calls {} node name ↔
      name ∈ (countdownHost.postorder node).filterMap (countdownHost.asks {}) := by
    intro node
    rw [Host.calls_iff, List.mem_filterMap]
  constructor
  · intro hname
    cases hname with
    | call hcall =>
      rw [hcalls, hroot] at hcall
      simpa using hcall
    | body hcaller hfound hcall =>
      rw [function_countdown] at hfound
      split at hfound
      · cases hfound
        rw [hcalls, hbody] at hcall
        simp_all
      · cases hfound
  · intro hname
    refine .call ((hcalls _).2 ?_)
    rw [hroot]
    simpa using hname

/-- The nodes met are those of the root's tree and of the function's body. -/
theorem meets_countdown {node : Item} (h : countdownHost.Meets {} (.entry 9) node) :
    node ∈ countdownHost.lowers (.entry 9) ["evalDown", "evalOther"] := by
  rcases h with htree | ⟨name, hname, hbody⟩
  · exact List.mem_append_left _ (countdownHost.mem_postorder_iff.2 htree)
  · exact List.mem_append_right _
      (List.mem_flatMap.2 ⟨name, (reaches_countdown name).1 hname, hbody⟩)

/-- The listing fits into one arena. -/
theorem fits_countdown : countdownHost.Fits {} SymbolTable.initial (.entry 9) where
  lists_le := by
    have hall : ∀ node ∈ countdownHost.lowers (.entry 9) ["evalDown", "evalOther"],
        (countdownHost.view node).argEntries ≤ Arena.maxLength ∧
          (countdownHost.view node).stmtEntries ≤ Arena.maxLength ∧
          (countdownHost.view node).armEntries ≤ Arena.maxLength := by decide +kernel
    exact fun node hnode => hall node (meets_countdown hnode)
  names_lt := by
    have hall : ∀ node ∈ countdownHost.lowers (.entry 9) ["evalDown", "evalOther"],
        ∀ text ∈ (countdownHost.view node).names,
          text ∈ ["", "n", "equals", "minus", "evalDown", "evalOther"] := by decide +kernel
    have hsubset : countdownHost.vocabulary {} SymbolTable.initial (.entry 9) ⊆
        (["", "n", "equals", "minus", "evalDown", "evalOther"].toFinset : Finset String) := by
      rintro text (⟨name, hname⟩ | ⟨node, hnode, htext⟩ | ⟨name, found, -, hfound, htext⟩)
      · simp [(SymbolTable.names_initial_iff.1 hname).2]
      · exact List.mem_toFinset.2 (hall node (meets_countdown hnode) text htext)
      · rw [function_countdown] at hfound
        split at hfound
        · cases hfound
          simp_all
        · cases hfound
    refine lt_of_le_of_lt (Set.encard_le_encard hsubset) ?_
    rw [Set.encard_coe_eq_coe_finsetCard]
    exact lt_of_le_of_lt (Nat.cast_le.2 (List.toFinset_card_le _)) (by decide)
  tables_lt :=
    ⟨["evalDown", "evalOther"], by decide, fun name => (reaches_countdown name).symm,
      by decide +kernel, by decide +kernel⟩

/-- What the listing is lowered to: the tree of its last entry, in which the call of the function
stands twice, and behind it the body of the function. -/
def countdownProgram : Lowered Item where
  symbols := SymbolTable.ofTexts ["evalOther", "evalDown", "n", "equals", "minus"]
  arena :=
    { nodes := #[.literal (.int 1), .call ⟨2⟩ none ⟨0, 1⟩, .literal (.int 1),
        .call ⟨2⟩ none ⟨1, 1⟩, .call ⟨1⟩ none ⟨2, 2⟩, .foreign ⟨4, 1⟩,
        .var ⟨3⟩, .literal (.int 0), .call ⟨4⟩ (some ⟨6⟩) ⟨5, 1⟩, .literal (.int 0),
        .var ⟨3⟩, .literal (.int 1), .call ⟨5⟩ (some ⟨10⟩) ⟨6, 1⟩, .call ⟨2⟩ none ⟨7, 1⟩,
        .conditional ⟨0, 1⟩ (some ⟨13⟩)]
      spans := Array.replicate 15 Span.nowhere
      args := #[⟨0⟩, ⟨2⟩, ⟨1⟩, ⟨3⟩, ⟨4⟩, ⟨7⟩, ⟨11⟩, ⟨12⟩]
      stmts := #[]
      arms := #[⟨⟨8⟩, ⟨9⟩⟩] }
  library := Library.ofList [{ name := ⟨2⟩, params := [⟨3⟩], body := ⟨14⟩ }]
  root := ⟨5⟩
  origins := #[.entry 3, .entry 7, .entry 3, .entry 7, .entry 8, .entry 9, .entry 1, .entry 0,
    .entry 2, .entry 0, .entry 1, .entry 3, .entry 4, .entry 5, .entry 6]
  asked := #["evalDown", "evalOther"]

/-- What folding reports about the listing: both calls of the function are the constant zero. -/
def countdownReport : Report where
  sites := [{ node := ⟨1⟩, callee := ⟨2⟩, stage := .folded, value := some (.int 0) },
    { node := ⟨3⟩, callee := ⟨2⟩, stage := .folded, value := some (.int 0) }]
  splices := [{ call := ⟨1⟩, value := .int 0 }, { call := ⟨3⟩, value := .int 0 }]
  diagnostics := []

/-- The listing is lowered to this program. -/
theorem lower_countdown :
    countdownHost.lower {} SymbolTable.initial (.entry 9) = .ok countdownProgram := by
  have hwithin : countdownHost.lowerWithin {} SymbolTable.initial (.entry 9) 3 =
      some countdownProgram := by decide +kernel
  exact Host.lower_eq_of_lowerWithin hwithin

/-- Folding the program gives this report. -/
theorem foldCalls_countdown :
    (countdownProgram.context {}).foldCalls countdownProgram.root = .ok countdownReport := by
  decide +kernel

/-- What the host is to replace: the one call, in both of its places. -/
def countdownReplacements : HostReport Item where
  replacements := [{ source := .entry 7, target := .constant (.int 0) 7, value := .int 0 },
    { source := .entry 7, target := .constant (.int 0) 7, value := .int 0 }]
  diagnostics := []

/-- Folding the listing replaces these. -/
theorem fold_countdown : countdownHost.fold {} (.entry 9) = .ok countdownReplacements := by
  simp only [Host.fold, lower_countdown, foldCalls_countdown, bind, Except.bind]
  rfl

end ConstFold
