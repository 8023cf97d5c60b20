import ConstFold.Literal

/-!
# Why an evaluation gives up

A failure is either inconclusive, when the constant simply cannot be known, or a defect of the
computation itself. Failures that the running program would meet too halt the evaluation; any other
can be passed over by leaving a variable without a constant.
-/

set_option autoImplicit false

namespace ConstFold

/-- Reasons why a constant cannot be known. -/
inductive Inconclusive where
  | condition
  | foreign
  | unbound (name : String)
  | ineligible (name : String)
  | arity (name : String) (expected got : Nat)
  deriving DecidableEq, Repr, Inhabited

/-- The wording of an inconclusive reason. -/
def Inconclusive.message : Inconclusive → String
  | .condition => "condition did not reduce to a boolean"
  | .foreign => "expression cannot be evaluated at compile time"
  | .unbound name => s!"variable `{name}` has no constant value"
  | .ineligible name => s!"`{name}` is not eligible for compile-time evaluation"
  | .arity name expected got => s!"`{name}` expects {expected} arguments, got {got}"

/-- Reasons why an evaluation gives up. -/
inductive Failure where
  | divisionByZero
  | overflow (operator : String)
  | unsupported (operator : String) (operands : List Ty)
  | iterationCap (cap : UInt32)
  | callDepth (limit : UInt32)
  | inconclusive (reason : Inconclusive)
  deriving DecidableEq, Repr, Inhabited

namespace Failure

/-- The wording of a failure. -/
def message : Failure → String
  | .divisionByZero => "division by zero"
  | .overflow operator => s!"integer overflow in `{operator}`"
  | .unsupported operator operands =>
    let types := ", ".intercalate (operands.map Ty.name)
    s!"operator `{operator}` is not defined for ({types})"
  | .iterationCap cap => s!"loop did not finish within {cap.toNat} iterations"
  | .callDepth limit => s!"constant calls nested deeper than {limit.toNat} levels"
  | .inconclusive reason => reason.message

/-- Whether the evaluation merely lacked information. -/
def isInconclusive : Failure → Bool
  | .inconclusive _ => true
  | _ => false

/-- Whether the running program would fail here too, so that the evaluation cannot go on. -/
def halts : Failure → Bool
  | .divisionByZero | .iterationCap _ | .callDepth _ => true
  | _ => false

/-- No inconclusive failure halts an evaluation. -/
theorem isInconclusive_eq_false_of_halts {failure : Failure} (h : failure.halts = true) :
    failure.isInconclusive = false := by
  cases failure <;> simp_all [halts, isInconclusive]

end Failure

end ConstFold
