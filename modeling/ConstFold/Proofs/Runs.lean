/-!
# Runs of step functions

A step function answers an input and moves on to the next state. A run feeds it inputs one after the
other and keeps its history: every input with the answer to it, in order. What holds of a start and
is kept by every step holds of every run (`Run.ofInputs_induction`); it may speak of the history as
well as of the state.
-/

set_option autoImplicit false

namespace ConstFold

/-- What a step function answered to inputs, oldest first, and the state it has reached. -/
structure Run (σ ι ο : Type) where
  history : List (ι × ο)
  state : σ

namespace Run

variable {σ ι ο : Type}

/-- Feed one more input. -/
def feed (step : σ → ι → ο × σ) (run : Run σ ι ο) (input : ι) : Run σ ι ο where
  history := run.history ++ [(input, (step run.state input).1)]
  state := (step run.state input).2

/-- The run of a step function on some inputs. -/
def ofInputs (step : σ → ι → ο × σ) (start : σ) (inputs : List ι) : Run σ ι ο :=
  inputs.foldl (feed step) ⟨[], start⟩

/-- What holds before the first step and is kept by every step holds after any number of them. -/
theorem ofInputs_induction {step : σ → ι → ο × σ} {start : σ} {motive : List (ι × ο) → σ → Prop}
    (hstart : motive [] start)
    (hstep : ∀ history state input, motive history state →
      motive (history ++ [(input, (step state input).1)]) (step state input).2)
    (inputs : List ι) :
    motive (ofInputs step start inputs).history (ofInputs step start inputs).state :=
  List.foldlRecOn inputs (feed step) (motive := fun run => motive run.history run.state) hstart
    fun run hrun input _ => hstep run.history run.state input hrun

end Run

end ConstFold
