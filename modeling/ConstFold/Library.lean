import ConstFold.Arena

/-!
# Function definitions

A library holds one definition per name; defining a name again replaces what it meant.
-/

set_option autoImplicit false

namespace ConstFold

/-- A function: its parameters and the node of its body. -/
structure Definition where
  name : Name
  params : List Name
  body : NodeId
  span : Span := Span.nowhere
  deriving DecidableEq, Repr, Inhabited

/-- Definitions by name. -/
structure Library where
  definitions : Table Name Definition := Table.empty
  deriving DecidableEq, Repr, Inhabited

namespace Library

/-- The library without definitions. -/
def empty : Library := {}

/-- The definition of a name. -/
def get? (library : Library) (name : Name) : Option Definition :=
  library.definitions.get? name

/-- Whether a name is defined. -/
def contains (library : Library) (name : Name) : Bool :=
  library.definitions.contains name

/-- How many names are defined. -/
def size (library : Library) : Nat := library.definitions.size

/-- Whether no name is defined. -/
def isEmpty (library : Library) : Bool := library.definitions.entries.isEmpty

/-- Give a name its definition, in place of the one it had. -/
def define (library : Library) (definition : Definition) : Library :=
  ⟨library.definitions.insert definition.name definition⟩

/-- The library of a list of definitions, in which a later one replaces an earlier one. -/
def ofList (definitions : List Definition) : Library :=
  definitions.foldl define empty

/-- A definition changes the meaning of its own name only. -/
theorem get?_define (library : Library) (definition : Definition) (name : Name) :
    (library.define definition).get? name =
      if name = definition.name then some definition else library.get? name :=
  Table.get?_insert _ _ _ _

end Library

end ConstFold
