/-!
# The stages of a call site

A call site starts as a candidate, has its operands evaluated, becomes ready to fold when all of
them are constants, and ends folded or left unfolded. The two last stages are final.
-/

set_option autoImplicit false

namespace ConstFold

/-- How far a call site has come. -/
inductive Stage where
  | candidate
  | argsEvaluated
  | readyToFold
  | folded
  | leftUnfolded
  deriving DecidableEq, Repr, Inhabited

namespace Stage

/-- The name of a stage in messages. -/
def name : Stage → String
  | .candidate => "Candidate"
  | .argsEvaluated => "ArgsEvaluated"
  | .readyToFold => "ReadyToFold"
  | .folded => "Folded"
  | .leftUnfolded => "LeftUnfolded"

/-- Every stage. -/
def all : List Stage :=
  [.candidate, .argsEvaluated, .readyToFold, .folded, .leftUnfolded]

/-- The stage of a given name. -/
def ofName? (text : String) : Option Stage :=
  all.find? fun stage => stage.name == text

/-- Whether a stage is final. -/
def isTerminal : Stage → Bool
  | .folded | .leftUnfolded => true
  | _ => false

/-- Whether a call site may step from one stage to another. -/
def canAdvanceTo : Stage → Stage → Bool
  | .candidate, .argsEvaluated => true
  | .argsEvaluated, .readyToFold => true
  | .argsEvaluated, .leftUnfolded => true
  | .readyToFold, .folded => true
  | .readyToFold, .leftUnfolded => true
  | _, _ => false

/-- A final stage is one without a next stage. -/
theorem isTerminal_iff (stage : Stage) :
    stage.isTerminal = true ↔ ∀ next, stage.canAdvanceTo next = false := by
  constructor
  · intro h next
    cases stage <;> simp_all [isTerminal, canAdvanceTo]
  · intro h
    cases stage with
    | candidate => exact absurd (h .argsEvaluated) (by decide)
    | argsEvaluated => exact absurd (h .readyToFold) (by decide)
    | readyToFold => exact absurd (h .folded) (by decide)
    | folded => rfl
    | leftUnfolded => rfl

end Stage

end ConstFold
