import ConstFold.Host
import ConstFold.Table

/-!
# Listings

A listing is a host whose nodes are the entries of an array, each of which refers to entries before
it. An entry may be referred to any number of times, so a listing is a tree with shared parts.
-/

set_option autoImplicit false

namespace ConstFold

/-- A node of a listing: one of its entries, or a constant made to replace an entry. -/
inductive Item where
  | entry (index : Nat)
  | constant (value : Literal) (replaces : Nat)
  deriving DecidableEq, Repr, Inhabited

/-- The entry that an item is or replaces. -/
def Item.index : Item → Nat
  | .entry index => index
  | .constant _ replaces => replaces

/-- Every entry refers to entries before it only. -/
def Listing.Ordered (entries : Array (Shape String Nat × Span)) : Prop :=
  ∀ index : Fin entries.size, ∀ child ∈ entries[index].1.children, child < index

instance (entries : Array (Shape String Nat × Span)) : Decidable (Listing.Ordered entries) :=
  inferInstanceAs
    (Decidable (∀ index : Fin entries.size, ∀ child ∈ entries[index].1.children, child < index))

/-- Entries with their locations, and the functions whose bodies are among them. -/
structure Listing where
  entries : Array (Shape String Nat × Span)
  functions : Table String (HostFunction Nat)
  ordered : Listing.Ordered entries

namespace Listing

/-- The listing of an array of entries, when each refers to entries before it only. -/
def ofEntries? (entries : Array (Shape String Nat × Span))
    (functions : List (String × HostFunction Nat)) : Option Listing :=
  if ordered : Ordered entries then
    some { entries, functions := Table.ofList functions, ordered }
  else
    none

/-- The layer of an item. An index outside the listing is a foreign node without children. -/
def view (listing : Listing) : Item → Shape String Item
  | .entry index =>
    if h : index < listing.entries.size then listing.entries[index].1.map id Item.entry
    else .foreign []
  | .constant value _ => .literal value

/-- The location of an item; a replacement is where the entry was that it replaces. -/
def span (listing : Listing) (item : Item) : Span :=
  (listing.entries[item.index]?.map Prod.snd).getD Span.nowhere

/-- The function of a name. -/
def function (listing : Listing) (name : String) : Option (HostFunction Item) :=
  (listing.functions.get? name).map fun function =>
    { params := function.params, body := .entry function.body }

/-- The children of an item lie before it. -/
theorem index_lt_of_mem_children (listing : Listing) (item : Item) :
    ∀ child ∈ (listing.view item).children, child.index < item.index := by
  intro child hchild
  cases item with
  | constant value replaces => simp [view, Shape.children] at hchild
  | entry index =>
    by_cases h : index < listing.entries.size
    · simp only [view, h, ↓reduceDIte, Shape.children_map, List.mem_map] at hchild
      obtain ⟨number, hnumber, rfl⟩ := hchild
      exact listing.ordered ⟨index, h⟩ number hnumber
    · simp [view, h, Shape.children] at hchild

/-- A listing as a host. With `located` unset its nodes have no location. -/
def toHost (listing : Listing) (located : Bool) : Host Item where
  view := listing.view
  span item := if located then listing.span item else Span.nowhere
  function := listing.function
  literalFor value item := .constant value item.index
  height := Item.index
  height_lt := listing.index_lt_of_mem_children

end Listing

end ConstFold
