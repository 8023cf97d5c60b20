import ConstFold.Stage

/-!
# Faults

A fault is misuse of the library: a reference that resolves to nothing, a list or table that has
outgrown its index type, a stage that cannot follow. Unlike a failure it says nothing about the
program under evaluation, and no evaluation recovers from it.
-/

set_option autoImplicit false

namespace ConstFold

/-- Misuse that ends an operation. -/
inductive Fault where
  | outOfBounds
  | arenaFull (what : String) (count : Nat)
  | listTooLong (what : String) (count : Nat)
  | symbolsFull (count : Nat)
  | invalidTransition (source target : Stage)
  | unfinished
  deriving DecidableEq, Repr, Inhabited

/-- The wording of a fault. -/
def Fault.message : Fault → String
  | .outOfBounds => "reference out of bounds"
  | .arenaFull what count => s!"too many {what} in arena: {count}"
  | .listTooLong what count => s!"too many {what} in one list: {count}"
  | .symbolsFull count => s!"interner exceeded capacity: {count} strings, max is {UInt32.size - 1}"
  | .invalidTransition source target =>
    s!"invalid call-site transition {source.name} -> {target.name}"
  | .unfinished => "nesting without end"

end ConstFold
