import ConstFold.Text.Quoted

/-!
# Constants

A constant is a 64-bit integer, a text, a truth value or the unit value. The unit value is what a
statement leaves behind; it never replaces a call.
-/

set_option autoImplicit false

namespace ConstFold

/-- The type of a constant. -/
inductive Ty where
  | int
  | string
  | boolean
  | unit
  deriving DecidableEq, Repr, Inhabited

/-- The name of a type in messages. -/
def Ty.name : Ty → String
  | .int => "Int"
  | .string => "String"
  | .boolean => "Boolean"
  | .unit => "Unit"

/-- A constant that evaluation consumes and produces. -/
inductive Literal where
  | int (value : Int64)
  | str (text : String)
  | bool (value : Bool)
  | unit
  deriving DecidableEq, Repr, Inhabited

namespace Literal

/-- The type of a constant. -/
def ty : Literal → Ty
  | .int _ => .int
  | .str _ => .string
  | .bool _ => .boolean
  | .unit => .unit

/-- The truth value a constant holds, if it holds one. -/
def asBool? : Literal → Option Bool
  | .bool value => some value
  | _ => none

/-- Whether a constant may take the place of a call: every constant but unit may. -/
def isSpliceable : Literal → Bool
  | .unit => false
  | _ => true

/-- The written form of a constant: integers in decimal, texts quoted. -/
def render : Literal → String
  | .int value => toString value.toInt
  | .str text => Text.quoted text
  | .bool true => "true"
  | .bool false => "false"
  | .unit => "Unit"

/-- Only the unit value cannot be spliced in. -/
@[simp] theorem isSpliceable_eq_false_iff {value : Literal} :
    value.isSpliceable = false ↔ value = .unit := by
  cases value <;> simp [isSpliceable]

end Literal

end ConstFold
