import ConstFold.Failure
import ConstFold.Span

/-!
# Diagnostics

A diagnostic warns about one call that stayed behind. Its code tells which kind of failure stopped
the call; inconclusive failures have no code, because nothing is wrong with the program then.
-/

set_option autoImplicit false

namespace ConstFold

/-- The kinds of failure that are reported. -/
inductive Code where
  | divisionByZero
  | overflow
  | unsupported
  | iterationCap
  | callDepth
  deriving DecidableEq, Repr, Inhabited

namespace Code

/-- The rank of a code among all codes. -/
def rank : Code → Nat
  | .divisionByZero => 6001
  | .overflow => 6002
  | .unsupported => 6003
  | .iterationCap => 6004
  | .callDepth => 6005

/-- The written form of a code. -/
def render (code : Code) : String :=
  s!"E{code.rank}"

/-- What a code means. -/
def description : Code → String
  | .divisionByZero => "a constant call divides by zero"
  | .overflow => "a constant call overflows a 64-bit integer"
  | .unsupported => "a constant call uses an operator its operand types do not support"
  | .iterationCap => "a loop inside a constant call did not finish within the iteration cap"
  | .callDepth => "constant calls nest deeper than the call-depth limit"

/-- Every code. -/
def all : List Code :=
  [.divisionByZero, .overflow, .unsupported, .iterationCap, .callDepth]

/-- The code of a given written form. -/
def ofText? (text : String) : Option Code :=
  all.find? fun code => code.render == text

end Code

/-- The code of a failure, when it is one to report. -/
def Failure.code? : Failure → Option Code
  | .divisionByZero => some .divisionByZero
  | .overflow _ => some .overflow
  | .unsupported _ _ => some .unsupported
  | .iterationCap _ => some .iterationCap
  | .callDepth _ => some .callDepth
  | .inconclusive _ => none

/-- A failure has no code exactly when it is inconclusive. -/
theorem Failure.code?_eq_none_iff {failure : Failure} :
    failure.code? = none ↔ failure.isInconclusive = true := by
  cases failure <;> simp [code?, isInconclusive]

/-- How serious a diagnostic is. -/
inductive Severity where
  | warning
  deriving DecidableEq, Repr, Inhabited

/-- The word for a severity. -/
def Severity.name : Severity → String
  | .warning => "warning"

/-- A message about one call. -/
structure Diagnostic where
  code : Code
  severity : Severity := .warning
  message : String
  span : Span := Span.nowhere
  notes : List String := []
  deriving DecidableEq, Repr, Inhabited

namespace Diagnostic

/-- Whether a diagnostic is a warning. -/
def isWarning (diagnostic : Diagnostic) : Bool :=
  diagnostic.severity == .warning

/-- The written form of a diagnostic: one line for the message, one for the location when there is
one, and one for each note. -/
def render (diagnostic : Diagnostic) : String :=
  let head :=
    s!"{diagnostic.severity.name}[{diagnostic.code.render}]: {diagnostic.message}"
  let location :=
    if diagnostic.span.isNowhere then [] else [s!"  --> {diagnostic.span.render}"]
  let notes := diagnostic.notes.map fun note => s!"  = note: {note}"
  "\n".intercalate (head :: location ++ notes)

end Diagnostic

end ConstFold
