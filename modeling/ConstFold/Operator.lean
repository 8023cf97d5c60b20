import ConstFold.Failure
import ConstFold.Text.Units

/-!
# Built-in operators

Fifteen operators, each known by name, and the table of operand types they accept. Integer
arithmetic is exact and fails when its result leaves the 64-bit range; division truncates toward
zero; texts are ordered and measured by their sixteen-bit units.
-/

set_option autoImplicit false

namespace ConstFold

/-- A built-in operator. -/
inductive Operator where
  | plus
  | minus
  | times
  | div
  | compareTo
  | greater
  | less
  | greaterOrEqual
  | lessOrEqual
  | equals
  | notEquals
  | length
  | and
  | or
  | not
  deriving DecidableEq, Repr, Inhabited

namespace Operator

/-- The name by which a call reaches an operator. -/
def name : Operator → String
  | .plus => "plus"
  | .minus => "minus"
  | .times => "times"
  | .div => "div"
  | .compareTo => "compareTo"
  | .greater => "greater"
  | .less => "less"
  | .greaterOrEqual => "greaterOrEqual"
  | .lessOrEqual => "lessOrEqual"
  | .equals => "equals"
  | .notEquals => "notEquals"
  | .length => "length"
  | .and => "and"
  | .or => "or"
  | .not => "not"

/-- Every operator. -/
def all : List Operator :=
  [.plus, .minus, .times, .div, .compareTo, .greater, .less, .greaterOrEqual, .lessOrEqual,
   .equals, .notEquals, .length, .and, .or, .not]

/-- The operator of a given name. -/
def ofName? (text : String) : Option Operator :=
  all.find? fun op => op.name == text

/-- An operator is found by its own name. -/
@[simp] theorem ofName?_name (op : Operator) : ofName? op.name = some op := by
  cases op <;> rfl

/-- A name finds the operator that has it. -/
theorem ofName?_eq_some_iff {text : String} {op : Operator} :
    ofName? text = some op ↔ op.name = text := by
  constructor
  · intro h
    simpa using List.find?_some h
  · rintro rfl
    exact ofName?_name op

/-- Whether an operator compares its operands. Calls of these operators fold on their own. -/
def isComparison : Operator → Bool
  | .compareTo | .greater | .less | .greaterOrEqual | .lessOrEqual | .equals | .notEquals => true
  | _ => false

/-- The integer constant of a value, when it fits into 64 bits. -/
def checked (op : Operator) (value : Int) : Except Failure Literal :=
  if Int64.minValue.toInt ≤ value ∧ value ≤ Int64.maxValue.toInt then .ok (.int (Int64.ofInt value))
  else .error (.overflow op.name)

/-- The integer constant that stands for an ordering. -/
def signOf : Ordering → Literal
  | .lt => .int (-1)
  | .eq => .int 0
  | .gt => .int 1

/-- What an operator gives for two integers, when it is defined on them. -/
def onInts? (op : Operator) (a b : Int) : Option (Except Failure Literal) :=
  match op with
  | .plus => some (op.checked (a + b))
  | .minus => some (op.checked (a - b))
  | .times => some (op.checked (a * b))
  | .div => some (if b = 0 then .error .divisionByZero else op.checked (a.tdiv b))
  | .compareTo => some (.ok (signOf (compare a b)))
  | .greater => some (.ok (.bool (b < a)))
  | .less => some (.ok (.bool (a < b)))
  | .greaterOrEqual => some (.ok (.bool (b ≤ a)))
  | .lessOrEqual => some (.ok (.bool (a ≤ b)))
  | .equals => some (.ok (.bool (a = b)))
  | .notEquals => some (.ok (.bool (a ≠ b)))
  | _ => none

/-- What an operator gives for two texts, when it is defined on them. -/
def onTexts? (op : Operator) (a b : String) : Option (Except Failure Literal) :=
  match op with
  | .plus => some (.ok (.str (a ++ b)))
  | .compareTo => some (.ok (signOf (Text.compareUnits a b)))
  | .equals => some (.ok (.bool (a = b)))
  | .notEquals => some (.ok (.bool (a ≠ b)))
  | _ => none

/-- What an operator gives for two truth values, when it is defined on them. -/
def onBools? (op : Operator) (a b : Bool) : Option (Except Failure Literal) :=
  match op with
  | .and => some (.ok (.bool (a && b)))
  | .or => some (.ok (.bool (a || b)))
  | .compareTo => some (.ok (signOf (compare a b)))
  | .equals => some (.ok (.bool (a = b)))
  | .notEquals => some (.ok (.bool (a ≠ b)))
  | _ => none

/-- What an operator gives for a list of operands, when it is defined on their types. -/
def row? (op : Operator) : List Literal → Option (Except Failure Literal)
  | [.int a, .int b] => op.onInts? a.toInt b.toInt
  | [.str a, .str b] => op.onTexts? a b
  | [.bool a, .bool b] => op.onBools? a b
  | [.str a] => if op = .length then some (op.checked (Text.unitCount a)) else none
  | [.bool a] => if op = .not then some (.ok (.bool !a)) else none
  | _ => none

/-- Apply an operator to constants; a receiver is the first operand. -/
def apply (op : Operator) (operands : List Literal) : Except Failure Literal :=
  (op.row? operands).getD (.error (.unsupported op.name (operands.map Literal.ty)))

end Operator

end ConstFold
