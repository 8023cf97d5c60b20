/-!
# Source locations

A span is a range of positions in the host's source. The span from 0 to 0 stands for "no location".
-/

set_option autoImplicit false

namespace ConstFold

/-- A range of positions in the host's source. -/
structure Span where
  start : Nat
  stop : Nat
  deriving DecidableEq, Repr

namespace Span

/-- The span of a node without a location. -/
def nowhere : Span := ⟨0, 0⟩

instance : Inhabited Span := ⟨nowhere⟩

/-- Whether a span locates nothing. -/
def isNowhere (span : Span) : Bool :=
  span.start == 0 && span.stop == 0

/-- The written form of a span. -/
def render (span : Span) : String :=
  s!"{span.start}..{span.stop}"

/-- Only one location is nowhere. -/
@[simp] theorem isNowhere_iff {span : Span} : span.isNowhere = true ↔ span = nowhere := by
  cases span; simp [isNowhere, nowhere]

end Span

end ConstFold
