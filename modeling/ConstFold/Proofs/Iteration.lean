import ConstFold.Proofs.Nesting
import ConstFold.Proofs.Symbols

/-!
# Loops and their cap

A loop tests its condition, then the cap, then runs its body. What it comes to can be said without
the loop: `Eval.Iterates` is a number of rounds in which the condition was true and the body had a
value, and `Eval.Ends` lists the ways in which the test after these rounds, or the body after it,
ends the loop. Every loop runs through such rounds to such an end, and its result is the one the end
gives (`Context.WellFormed.loop_ending`).

The evaluator counts the rounds that are left. `Eval.countedRounds` counts those that were begun, in
32 bits, and beginning a round that cannot be counted or that the cap forbids is a fault. It is the
same loop, whichever fault that is (`Eval.countedRounds_eq_rounds`), so neither ever happens.
-/

set_option autoImplicit false

namespace ConstFold

namespace Eval

variable {cap : UInt32} {condition body : Eval Literal} {machine : Machine}

/-! ## One test -/

/-- A condition that is a truth value has that value. -/
theorem truth_of_bool {holds : Bool} {after : Machine}
    (h : condition machine = .ok (.bool holds) after) :
    truth condition machine = .ok holds after := by
  simp only [truth, bind_apply, h]
  rfl

/-- A condition of another type fails as undecided. -/
theorem truth_of_undecided {value : Literal} {after : Machine}
    (h : condition machine = .ok value after) (hvalue : value.asBool? = none) :
    truth condition machine = .error (.failed (.inconclusive .condition)) after := by
  simp only [truth, bind_apply, h, hvalue]
  rfl

/-- A condition that is left otherwise leaves the test in the same way. -/
theorem truth_of_exit {exit : Exit} {after : Machine} (h : condition machine = .error exit after) :
    truth condition machine = .error exit after := by
  simp only [truth, bind_apply, h]

/-! ## Rounds and their end -/

/-- From `start`, the condition is true and the body then has a value, `count` times in a row. The
last of these values is `last`, unit if there was no round. -/
inductive Iterates (condition body : Eval Literal) (start : Machine) :
    Nat → Literal → Machine → Prop where
  | idle : Iterates condition body start 0 .unit start
  | round {count : Nat} {last value : Literal} {machine tested next : Machine} :
      Iterates condition body start count last machine →
      condition machine = .ok (.bool true) tested → body tested = .ok value next →
      Iterates condition body start (count + 1) value next

/-- How a loop ends after `count` rounds with the value `last`, and how many times its body has been
begun by then. -/
inductive Ends (cap : UInt32) (condition body : Eval Literal) (count : Nat) (last : Literal)
    (machine : Machine) : Nat → EStateM.Result Exit Machine Literal → Prop where
  | finished {after : Machine} : condition machine = .ok (.bool false) after →
      Ends cap condition body count last machine count (.ok last after)
  | undecided {value : Literal} {after : Machine} : condition machine = .ok value after →
      value.asBool? = none →
      Ends cap condition body count last machine count
        (.error (.failed (.inconclusive .condition)) after)
  | untested {exit : Exit} {after : Machine} : condition machine = .error exit after →
      Ends cap condition body count last machine count (.error exit after)
  | capped {after : Machine} : condition machine = .ok (.bool true) after → count = cap.toNat →
      Ends cap condition body count last machine count (.error (.failed (.iterationCap cap)) after)
  | broken {exit : Exit} {tested after : Machine} : condition machine = .ok (.bool true) tested →
      count < cap.toNat → body tested = .error exit after →
      Ends cap condition body count last machine (count + 1) (.error exit after)

/-- A round with a true condition and a body that has a value goes on to the next. -/
theorem rounds_of_round {tested next : Machine} {value : Literal}
    (hcondition : condition machine = .ok (.bool true) tested)
    (hbody : body tested = .ok value next) (left : Nat) (last : Literal) :
    rounds cap condition body (left + 1) last machine =
      rounds cap condition body left value next := by
  conv_lhs => rw [rounds]
  simp only [bind_apply, truth_of_bool hcondition, if_true, hbody]

/-- Rounds that were run leave that many less to run. -/
theorem Iterates.rounds_eq {start : Machine} {count : Nat} {last : Literal}
    (h : Iterates condition body start count last machine) {left : Nat} (hleft : count ≤ left) :
    rounds cap condition body left .unit start =
      rounds cap condition body (left - count) last machine := by
  induction h with
  | idle => rfl
  | round _ hcondition hbody ih =>
    rename_i count _ _ _ _ _ _
    have hround : left - count = left - (count + 1) + 1 := by omega
    rw [ih (by omega), hround, rounds_of_round hcondition hbody]

/-- A loop that ends after some rounds gives this ending if it goes on from there. -/
theorem Ends.rounds_eq {count begun : Nat} {last : Literal}
    {ending : EStateM.Result Exit Machine Literal}
    (h : Ends cap condition body count last machine begun ending) :
    rounds cap condition body (cap.toNat - count) last machine = ending := by
  rw [rounds.eq_def]
  cases h with
  | finished hcondition => simp [bind_apply, truth_of_bool hcondition]
  | undecided hcondition hvalue => simp only [bind_apply, truth_of_undecided hcondition hvalue]
  | untested hcondition => simp only [bind_apply, truth_of_exit hcondition]
  | capped hcondition hcount =>
    have hleft : cap.toNat - count = 0 := by omega
    simp [bind_apply, truth_of_bool hcondition, hleft]
  | broken hcondition hcount hbody =>
    have hleft : cap.toNat - count = cap.toNat - (count + 1) + 1 := by omega
    simp only [bind_apply, truth_of_bool hcondition, if_true, hleft, hbody]

/-- The body is begun at most `cap` times. -/
theorem Ends.begun_le {count begun : Nat} {last : Literal}
    {ending : EStateM.Result Exit Machine Literal} (hcount : count ≤ cap.toNat)
    (h : Ends cap condition body count last machine begun ending) : begun ≤ cap.toNat := by
  cases h with
  | finished _ => exact hcount
  | undecided _ _ => exact hcount
  | untested _ => exact hcount
  | capped _ _ => exact hcount
  | broken _ hlt _ => exact hlt

/-- The next round ends the loop, or it is one round more. -/
theorem exists_ends_or_round (condition body : Eval Literal) (last : Literal) (machine : Machine)
    {count : Nat} (hcount : count ≤ cap.toNat) :
    (∃ begun ending, Ends cap condition body count last machine begun ending) ∨
      (count < cap.toNat ∧ ∃ tested value next,
        condition machine = .ok (.bool true) tested ∧ body tested = .ok value next) := by
  cases hcondition : condition machine with
  | error exit after => exact .inl ⟨_, _, .untested hcondition⟩
  | ok value tested =>
    cases value with
    | int value => exact .inl ⟨_, _, .undecided hcondition rfl⟩
    | str text => exact .inl ⟨_, _, .undecided hcondition rfl⟩
    | unit => exact .inl ⟨_, _, .undecided hcondition rfl⟩
    | bool holds =>
      cases holds with
      | false => exact .inl ⟨_, _, .finished hcondition⟩
      | true =>
        rcases Nat.eq_or_lt_of_le hcount with heq | hlt
        · exact .inl ⟨_, _, .capped hcondition heq⟩
        · cases hbody : body tested with
          | error exit after => exact .inl ⟨_, _, .broken hcondition hlt hbody⟩
          | ok value next => exact .inr ⟨hlt, tested, value, next, rfl, hbody⟩

/-- After any number of rounds that the cap allows, a loop comes to an end. The induction is on the
rounds left. -/
theorem Iterates.exists_ends (cap : UInt32) {start : Machine} {count : Nat} {last : Literal}
    (h : Iterates condition body start count last machine) {left : Nat}
    (hleft : count + left = cap.toNat) :
    ∃ count last reached begun ending, count ≤ cap.toNat ∧
      Iterates condition body start count last reached ∧
      Ends cap condition body count last reached begun ending := by
  induction left generalizing count last machine with
  | zero =>
    rcases exists_ends_or_round condition body last machine (Nat.le_of_eq hleft) with
      ⟨begun, ending, hends⟩ | ⟨hlt, -⟩
    · exact ⟨count, last, machine, begun, ending, Nat.le_of_eq hleft, h, hends⟩
    · omega
  | succ left ih =>
    have hcount : count ≤ cap.toNat := by omega
    rcases exists_ends_or_round condition body last machine hcount with
      ⟨begun, ending, hends⟩ | ⟨-, tested, value, next, hcondition, hbody⟩
    · exact ⟨count, last, machine, begun, ending, hcount, h, hends⟩
    · exact ih (h.round hcondition hbody) (by omega)

/-! ## Counting rounds up -/

/-- Counting one more round does not overflow below the largest count. -/
theorem toNat_add_one {count : UInt32} (h : count.toNat + 1 < UInt32.size) :
    (count + 1).toNat = count.toNat + 1 := by
  rw [UInt32.toNat_add]
  exact Nat.mod_eq_of_lt h

/-- Run the body of a loop while its condition holds, counting the rounds that were begun. It is the
given fault to begin a round that cannot be counted, or one more than the cap. -/
def countedRounds (violation : Fault) (cap : UInt32) (condition body : Eval Literal)
    (count : UInt32) (last : Literal) : Eval Literal := do
  if ← truth condition then
    if cap ≤ count then fail (.iterationCap cap)
    else if hroom : count.toNat + 1 < UInt32.size ∧ count + 1 ≤ cap then
      countedRounds violation cap condition body (count + 1) (← body)
    else throw (.crashed violation)
  else
    return last
termination_by cap.toNat - count.toNat
decreasing_by
  have hnext := toNat_add_one hroom.1
  have hle := UInt32.le_iff_toNat_le.1 hroom.2
  omega

/-- Counting the rounds that were begun makes no difference. The induction is on the rounds left. -/
theorem countedRounds_eq_rounds (violation : Fault) (cap : UInt32) (condition body : Eval Literal)
    {count : UInt32} {left : Nat} (hleft : count.toNat + left = cap.toNat) (last : Literal) :
    countedRounds violation cap condition body count last =
      rounds cap condition body left last := by
  induction left generalizing count last with
  | zero =>
    have hcap : cap ≤ count := by
      rw [UInt32.le_iff_toNat_le]
      omega
    rw [countedRounds, rounds]
    simp only [hcap, if_true]
  | succ left ih =>
    have hcap : ¬ cap ≤ count := by
      rw [UInt32.le_iff_toNat_le]
      omega
    have hroom : count.toNat + 1 < UInt32.size := by
      have := cap.toNat_lt_size
      omega
    have hnext := toNat_add_one hroom
    have hbegin : count + 1 ≤ cap := by
      rw [UInt32.le_iff_toNat_le]
      omega
    have hrest : ∀ value, countedRounds violation cap condition body (count + 1) value =
        rounds cap condition body left value := fun value => ih (by omega) value
    rw [countedRounds, rounds]
    simp only [hcap, if_false, hroom, hbegin, and_self, dite_true, hrest]

end Eval

open Eval

namespace Context

variable {ctx : Context}

/-- After rounds within the cap, a loop gives the value of the last round when its condition is
false, fails when the condition is no truth value, fails when another round would exceed the cap,
and otherwise ends as its condition or its body does; the machine is the one that these evaluations
leave. Every loop comes to such an end, so its body is never begun more often than the cap says, and
a counter of 32 bits never runs over. -/
theorem WellFormed.loop_ending (h : ctx.WellFormed) {node condition body : NodeId}
    (hshape : ctx.arena.shape node = .ok (.loop condition body)) (machine : Machine) :
    (∀ count last reached begun ending, count ≤ ctx.policy.iterationCap.toNat →
      Iterates (ctx.eval condition) (ctx.eval body) machine count last reached →
      Ends ctx.policy.iterationCap (ctx.eval condition) (ctx.eval body) count last reached
        begun ending →
      ctx.eval node machine = ending ∧ begun ≤ ctx.policy.iterationCap.toNat) ∧
    (∃ count last reached begun ending, count ≤ ctx.policy.iterationCap.toNat ∧
      Iterates (ctx.eval condition) (ctx.eval body) machine count last reached ∧
      Ends ctx.policy.iterationCap (ctx.eval condition) (ctx.eval body) count last reached
        begun ending) ∧
    ∀ violation : Fault, countedRounds violation ctx.policy.iterationCap (ctx.eval condition)
      (ctx.eval body) 0 .unit machine = ctx.eval node machine := by
  have heval : ctx.eval node machine = rounds ctx.policy.iterationCap (ctx.eval condition)
      (ctx.eval body) ctx.policy.iterationCap.toNat .unit machine :=
    h.eval_eq_evalShape hshape machine
  refine ⟨fun count last reached begun ending hcount hrounds hends => ?_, ?_, fun violation => ?_⟩
  · refine ⟨?_, hends.begun_le hcount⟩
    rw [heval, hrounds.rounds_eq hcount, hends.rounds_eq]
  · exact Iterates.idle.exists_ends _ (Nat.zero_add _)
  · rw [heval, countedRounds_eq_rounds violation _ _ _ (Nat.zero_add _)]

/-- A loop that steps `x` up while it is below two, and gives its value. It may do so twice. -/
def stepping : Context where
  symbols := SymbolTable.ofTexts ["x", "less", "plus"]
  library := Library.empty
  policy := { iterationCap := 2 }
  arena :=
    { nodes := #[.var ⟨1⟩, .literal (.int 2), .call ⟨2⟩ (some ⟨0⟩) ⟨0, 1⟩, .literal (.int 1),
        .call ⟨3⟩ (some ⟨0⟩) ⟨1, 1⟩, .block ⟨0, 2⟩, .loop ⟨2⟩ ⟨5⟩]
      spans := Array.replicate 7 Span.nowhere
      args := #[⟨1⟩, ⟨3⟩]
      stmts := #[.assign ⟨1⟩ ⟨4⟩, .expr ⟨0⟩]
      arms := #[] }

/-- The machine on which `x` has a value. -/
def stepped (x : Int64) : Machine where
  env := Env.ofBindings [(⟨1⟩, .int x)]

/-- In `stepping` children come before their parents, so it is well-formed. -/
theorem stepping_wellFormed : stepping.WellFormed :=
  .of_ordered (by decide) rfl (show stepping.library = Library.ofList [] from rfl) (by simp)

/-- From zero the loop uses its whole cap and finishes, from minus one it would need another
round. -/
theorem loop_ending_stepping :
    stepping.WellFormed ∧
    stepping.arena.shape ⟨6⟩ = .ok (.loop ⟨2⟩ ⟨5⟩) ∧
    stepping.eval ⟨6⟩ (stepped 0) = .ok (.int 2) (stepped 2) ∧
    stepping.eval ⟨6⟩ (stepped (-1)) = .error (.failed (.iterationCap 2)) (stepped 1) := by
  have hshape : stepping.arena.shape ⟨6⟩ = .ok (.loop ⟨2⟩ ⟨5⟩) := rfl
  have hround : ∀ x : Int64, x = -1 ∨ x = 0 ∨ x = 1 →
      stepping.eval ⟨2⟩ (stepped x) = .ok (.bool true) (stepped x) ∧
      stepping.eval ⟨5⟩ (stepped x) = .ok (.int (x + 1)) (stepped (x + 1)) := by
    rintro x (rfl | rfl | rfl) <;> decide +kernel
  obtain ⟨htestBelow, hbelow⟩ := hround (-1) (.inl rfl)
  obtain ⟨htestZero, hzero⟩ := hround 0 (.inr (.inl rfl))
  obtain ⟨htestOne, hone⟩ := hround 1 (.inr (.inr rfl))
  have hfinished : Iterates (stepping.eval ⟨2⟩) (stepping.eval ⟨5⟩) (stepped 0) 2 (.int 2)
      (stepped 2) := (Iterates.idle.round htestZero hzero).round htestOne hone
  have hcapped : Iterates (stepping.eval ⟨2⟩) (stepping.eval ⟨5⟩) (stepped (-1)) 2 (.int 1)
      (stepped 1) := (Iterates.idle.round htestBelow hbelow).round htestZero hzero
  have hloop := fun machine => (stepping_wellFormed.loop_ending hshape machine).1
  refine ⟨stepping_wellFormed, hshape, ?_, ?_⟩
  · exact (hloop (stepped 0) 2 _ _ _ _ (by decide) hfinished (.finished (by decide +kernel))).1
  · exact (hloop (stepped (-1)) 2 _ _ _ _ (by decide) hcapped (.capped (by decide +kernel) rfl)).1

end Context

end ConstFold
