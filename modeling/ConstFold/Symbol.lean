import ConstFold.Fault
import ConstFold.Table

/-!
# Names and the table that issues them

A name is the number of a text in a symbol table. A table holds every text once, the empty text
first, and issues numbers in the order of first appearance. A number that a table has not issued
stands for the empty text.
-/

set_option autoImplicit false

namespace ConstFold

/-- A name: the number of a text in a symbol table. -/
structure Name where
  index : Nat
  deriving DecidableEq, Repr

namespace Name

/-- The name of the empty text in every table. -/
def empty : Name := ⟨0⟩

instance : Inhabited Name := ⟨empty⟩

/-- The written form of a name. -/
def render (name : Name) : String :=
  s!"Name({name.index})"

end Name

/-- The texts that have names, with the name of each. -/
structure SymbolTable where
  texts : Array String
  names : Table String Name
  deriving DecidableEq, Repr

namespace SymbolTable

/-- The table in which only the empty text has a name. -/
def initial : SymbolTable where
  texts := #[""]
  names := Table.empty.insert "" Name.empty

instance : Inhabited SymbolTable := ⟨initial⟩

/-- The largest number a name can have. -/
def maxIndex : Nat := UInt32.size - 1

/-- How many texts have a name. -/
def size (symbols : SymbolTable) : Nat := symbols.texts.size

/-- Whether no text has a name. The empty text always has one. -/
def isEmpty (symbols : SymbolTable) : Bool := symbols.texts.isEmpty

/-- The name a text already has. -/
def get? (symbols : SymbolTable) (text : String) : Option Name :=
  symbols.names.get? text

/-- The text of a name. -/
def text (symbols : SymbolTable) (name : Name) : String :=
  symbols.texts[name.index]?.getD ""

/-- The name of a text, issued now if it had none. -/
def intern (symbols : SymbolTable) (text : String) : Except Fault (Name × SymbolTable) :=
  match symbols.get? text with
  | some name => .ok (name, symbols)
  | none =>
    if symbols.size ≤ maxIndex then
      let name : Name := ⟨symbols.size⟩
      .ok (name, { texts := symbols.texts.push text, names := symbols.names.insert text name })
    else
      .error (.symbolsFull symbols.size)

end SymbolTable

end ConstFold
