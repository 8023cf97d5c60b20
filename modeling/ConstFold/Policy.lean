/-!
# Folding policy

The limits of an evaluation, the names that are eligible for it, and whether calls that stay behind
are reported.
-/

set_option autoImplicit false

namespace ConstFold

/-- Whether a broken constant call is reported. -/
inductive Fallback where
  | silent
  | warn
  deriving DecidableEq, Repr, Inhabited

/-- Whether warnings are emitted. -/
def Fallback.emitsWarnings : Fallback → Bool
  | .silent => false
  | .warn => true

/-- The limits and choices of a folding run. A function is eligible when its name starts with
`marker`. -/
structure Policy where
  iterationCap : UInt32 := 10000
  maxCallDepth : UInt32 := 64
  marker : String := "eval"
  fallback : Fallback := .silent
  deriving DecidableEq, Repr

instance : Inhabited Policy := ⟨{}⟩

/-- Whether functions of this name may be evaluated. -/
def Policy.isEligible (policy : Policy) (name : String) : Bool :=
  policy.marker.toList.isPrefixOf name.toList

end ConstFold
