import ConstFold.Proofs.Nesting
import ConstFold.Proofs.Symbols

/-!
# What the limits of an evaluation can change

A policy limits the rounds of a loop and the nesting of function bodies. A run that ends without
meeting a limit has a pair of least limits: under these or any larger ones it runs in the same way,
and under any others it ends in the failure of a limit. The failure of a limit halts an evaluation,
so no binding passes over it.

The family of all runs of one evaluation, indexed by the limits, is looked at as a whole (`Sharp`).
Two rules depend on the limits, entering a function body and starting a round of a loop; both are
gates that open at a certain limit (`SharpAt.gate`).
-/

set_option autoImplicit false

namespace ConstFold

open Eval

/-- How many rounds a loop may run and how deep function bodies may nest. -/
structure Limits where
  cap : UInt32
  depth : UInt32
  deriving DecidableEq, Repr

namespace Limits

instance : LE Limits where
  le left right := left.cap ≤ right.cap ∧ left.depth ≤ right.depth

/-- Limits are compared in both respects, as numbers. -/
theorem le_def {left right : Limits} :
    left ≤ right ↔ left.cap.toNat ≤ right.cap.toNat ∧ left.depth.toNat ≤ right.depth.toNat := by
  rw [← UInt32.le_iff_toNat_le, ← UInt32.le_iff_toNat_le]
  exact Iff.rfl

instance (left right : Limits) : Decidable (left ≤ right) :=
  inferInstanceAs (Decidable (left.cap ≤ right.cap ∧ left.depth ≤ right.depth))

/-- The limits that nothing falls short of. -/
def least : Limits := ⟨0, 0⟩

/-- No limits fall short of the least ones. -/
theorem least_le (limits : Limits) : least ≤ limits := by
  rw [le_def]
  exact ⟨Nat.zero_le _, Nat.zero_le _⟩

/-- The larger of two limits, in both respects. -/
def join (left right : Limits) : Limits where
  cap := if left.cap ≤ right.cap then right.cap else left.cap
  depth := if left.depth ≤ right.depth then right.depth else left.depth

/-- Limits are at or above the larger of two exactly if they are at or above both. -/
theorem join_le_iff {left right limits : Limits} :
    left.join right ≤ limits ↔ left ≤ limits ∧ right ≤ limits := by
  simp only [le_def, join]
  split <;> split <;> simp only [UInt32.le_iff_toNat_le] at * <;> omega

end Limits

/-- An evaluation that failed by one of the given limits. -/
def LimitedBy {α : Type} (limits : Limits) (ending : EStateM.Result Exit Machine α) : Prop :=
  ∃ machine, ending = .error (.failed (.iterationCap limits.cap)) machine ∨
    ending = .error (.failed (.callDepth limits.depth)) machine

/-- The runs of a family from one machine: either the run under the given limits fails by a limit,
or the family has least limits, at or above which it runs as under the given ones and short of which
it fails by a limit. -/
def SharpAt {α : Type} (given : Limits) (machine : Machine) (family : Limits → Eval α) : Prop :=
  (∃ limits, LimitedBy limits (family given machine)) ∨
  ∃ floor ≤ given, ∀ limits,
    (floor ≤ limits → family limits machine = family given machine) ∧
    (¬ floor ≤ limits → LimitedBy limits (family limits machine))

/-- A family of evaluations that has least limits from every machine. -/
def Sharp (given : Limits) (α : Type) (family : Limits → Eval α) : Prop :=
  ∀ machine, SharpAt given machine family

variable {given : Limits} {machine : Machine} {α β : Type}

/-- A family that does not depend on the limits. -/
theorem Sharp.constant (evaluation : Eval α) : Sharp given α fun _ => evaluation := by
  intro machine
  refine .inr ⟨Limits.least, Limits.least_le given, fun limits => ⟨fun _ => rfl, fun hnot => ?_⟩⟩
  exact absurd (Limits.least_le limits) hnot

/-- A family that fails by a limit below `floor` and is another family from there on. -/
theorem SharpAt.gate {family inner : Limits → Eval α} (floor : Limits)
    (hfloor : floor ≤ given) (hinner : SharpAt given machine inner)
    (hopen : ∀ limits, floor ≤ limits → family limits machine = inner limits machine)
    (hshut : ∀ limits, ¬ floor ≤ limits → LimitedBy limits (family limits machine)) :
    SharpAt given machine family := by
  rcases hinner with ⟨limits, hlimited⟩ | ⟨floor', hfloor', hsharp⟩
  · left
    rw [hopen given hfloor]
    exact ⟨limits, hlimited⟩
  · right
    refine ⟨floor.join floor', Limits.join_le_iff.2 ⟨hfloor, hfloor'⟩, fun limits => ⟨?_, ?_⟩⟩
    · intro hle
      obtain ⟨hle, hle'⟩ := Limits.join_le_iff.1 hle
      rw [hopen limits hle, hopen given hfloor]
      exact (hsharp limits).1 hle'
    · intro hnot
      by_cases hle : floor ≤ limits
      · rw [hopen limits hle]
        exact (hsharp limits).2 fun hle' => hnot (Limits.join_le_iff.2 ⟨hle, hle'⟩)
      · exact hshut limits hle

/-- A family whose endings are those of another one, carried over in a way that keeps the failure of
a limit. -/
theorem SharpAt.carry {family : Limits → Eval α} {outer : Limits → Eval β} {before : Machine}
    (h : SharpAt given before family)
    (transfer : EStateM.Result Exit Machine α → EStateM.Result Exit Machine β)
    (htransfer : ∀ limits ending, LimitedBy limits ending → LimitedBy limits (transfer ending))
    (houter : ∀ limits, outer limits machine = transfer (family limits before)) :
    SharpAt given machine outer := by
  rcases h with ⟨limits, hlimited⟩ | ⟨floor, hfloor, hsharp⟩
  · left
    rw [houter given]
    exact ⟨limits, htransfer limits _ hlimited⟩
  · right
    refine ⟨floor, hfloor, fun limits => ⟨?_, ?_⟩⟩
    · intro hle
      rw [houter limits, houter given, (hsharp limits).1 hle]
    · intro hnot
      rw [houter limits]
      exact htransfer limits _ ((hsharp limits).2 hnot)

/-- A sequence has least limits if its steps have: the larger of the two. -/
theorem Sharp.bind {first : Limits → Eval α} {next : Limits → α → Eval β}
    (hfirst : Sharp given α first) (hnext : ∀ value, Sharp given β fun limits => next limits value) :
    Sharp given β fun limits => first limits >>= next limits := by
  intro machine
  have hstop : ∀ run limits, LimitedBy limits (first run machine) →
      LimitedBy limits ((first run >>= next run) machine) := by
    rintro run limits ⟨after, hcap | hdepth⟩
    · exact ⟨after, .inl (by rw [bind_apply, hcap])⟩
    · exact ⟨after, .inr (by rw [bind_apply, hdepth])⟩
  rcases hfirst machine with ⟨limits, hlimited⟩ | ⟨floor, hfloor, hsharp⟩
  · exact .inl ⟨limits, hstop given limits hlimited⟩
  · -- What follows the first evaluation runs from the machine that it leaves under the given limits.
    have hthen : SharpAt given machine fun limits => first given >>= next limits := by
      cases hend : first given machine with
      | ok value after =>
        refine (hnext value after).carry id (fun _ _ h => h) fun limits => ?_
        rw [bind_apply, hend, id]
      | error exit after =>
        refine (Sharp.constant (throw exit) after).carry id (fun _ _ h => h) fun limits => ?_
        rw [bind_apply, hend, id, throw_apply]
    refine hthen.gate floor hfloor (fun limits hle => ?_) fun limits hnot =>
      hstop limits limits ((hsharp limits).2 hnot)
    rw [bind_apply, bind_apply, (hsharp limits).1 hle]

/-- Having least limits is passed on from the parts of an evaluation to the whole. -/
theorem sharp_compositional (given : Limits) : Compositional (Sharp given) where
  pure value := Sharp.constant _
  bind := Sharp.bind
  fail failure := Sharp.constant _
  returned value := Sharp.constant _
  read name reason := Sharp.constant _
  inScope := by
    intro body hbody machine
    refine (hbody { machine with env := machine.env.push }).carry
      (fun ending => Eval.inScope (fun _ => ending) machine) ?_ fun limits => rfl
    rintro limits ending ⟨after, rfl | rfl⟩
    · exact ⟨_, .inl rfl⟩
    · exact ⟨_, .inr rfl⟩
  bound := by
    intro value hvalue machine
    refine (hvalue machine).carry (fun ending => Eval.bound (fun _ => ending) machine) ?_
      fun limits => rfl
    rintro limits ending ⟨after, rfl | rfl⟩
    · exact ⟨after, .inl rfl⟩
    · exact ⟨after, .inr rfl⟩
  forget name := Sharp.constant _
  define name value := Sharp.constant _
  assign name value := Sharp.constant _

/-- The gate of a function body opens at one more than the bodies being evaluated. -/
theorem Sharp.evalBody {ctx : Limits → Context} {eval : Limits → NodeId → Eval Literal}
    {definition : Definition} (hdepth : ∀ limits, (ctx limits).policy.maxCallDepth = limits.depth)
    (htext : ∀ limits, (ctx limits).text definition.name = (ctx given).text definition.name)
    (hbody : Sharp given Literal fun limits => eval limits definition.body) (args : List Literal) :
    Sharp given Literal fun limits => (ctx limits).evalBody (eval limits) definition args := by
  intro machine
  by_cases harity : definition.params.length = args.length
  swap
  · simp only [Context.evalBody, ne_eq, harity, not_false_eq_true, if_true, htext]
    exact Sharp.constant _ machine
  · have hcase : ∀ limits, (ctx limits).evalBody (eval limits) definition args machine =
        if limits.depth ≤ machine.depth then .error (.failed (.callDepth limits.depth)) machine
        else inFrame (definition.params.zip args) (eval limits definition.body) machine := by
      intro limits
      rw [Context.evalBody_apply, if_neg (not_not.2 harity), hdepth]
    have hframe : SharpAt given machine fun limits =>
        inFrame (definition.params.zip args) (eval limits definition.body) := by
      refine (hbody ⟨Env.ofBindings (definition.params.zip args), deeper machine.depth⟩).carry
        (fun ending => inFrame (definition.params.zip args) (fun _ => ending) machine)
        ?_ fun limits => rfl
      rintro limits ending ⟨after, rfl | rfl⟩
      · exact ⟨_, .inl rfl⟩
      · exact ⟨_, .inr rfl⟩
    by_cases hshut : given.depth ≤ machine.depth
    · exact .inl ⟨given, machine, .inr (by simp only [hcase, hshut, if_true])⟩
    · have hlt : machine.depth < given.depth := UInt32.not_le.1 hshut
      have hdeeper := toNat_deeper hlt
      have hopen : ∀ limits : Limits, (⟨0, deeper machine.depth⟩ : Limits) ≤ limits ↔
          ¬ limits.depth ≤ machine.depth := by
        intro limits
        rw [Limits.le_def, UInt32.le_iff_toNat_le]
        simp only [hdeeper, UInt32.toNat_zero]
        omega
      apply hframe.gate ⟨0, deeper machine.depth⟩ ((hopen given).2 hshut)
      · intro limits hle
        simp only [hcase, (hopen limits).1 hle, if_false]
      · intro limits hnot
        have hle : limits.depth ≤ machine.depth := by
          by_contra hgt
          exact hnot ((hopen limits).2 hgt)
        exact ⟨machine, .inr (by simp only [hcase, hle, if_true])⟩

/-- The gate of the next round of a loop opens at one more than the rounds done. The induction is on
the rounds left under the given limits. -/
theorem Sharp.rounds {condition body : Limits → Eval Literal}
    (hcondition : Sharp given Literal condition) (hbody : Sharp given Literal body)
    (left done : Nat) (hleft : given.cap.toNat - done = left) (last : Literal) :
    Sharp given Literal fun limits =>
      Eval.rounds limits.cap (condition limits) (body limits) (limits.cap.toNat - done) last := by
  induction left generalizing done last with
  | zero =>
    unfold Eval.rounds
    refine Sharp.bind ((sharp_compositional given).truth hcondition) fun holds => ?_
    cases holds with
    | false => apply Sharp.constant
    | true =>
      intro machine
      exact .inl ⟨given, machine, .inl (by simp [hleft])⟩
  | succ left ih =>
    unfold Eval.rounds
    refine Sharp.bind ((sharp_compositional given).truth hcondition) fun holds => ?_
    cases holds with
    | false => apply Sharp.constant
    | true =>
      intro machine
      have hnext := Sharp.bind hbody fun value => ih (done + 1) (by omega) value
      have hsmall : done + 1 < UInt32.size := by
        have := given.cap.toNat_lt_size
        omega
      have hfloor : (UInt32.ofNat (done + 1)).toNat = done + 1 := UInt32.toNat_ofNat_of_lt hsmall
      have hopen : ∀ limits : Limits, (⟨UInt32.ofNat (done + 1), 0⟩ : Limits) ≤ limits ↔
          done + 1 ≤ limits.cap.toNat := by
        intro limits
        rw [Limits.le_def]
        simp only [hfloor, UInt32.toNat_zero]
        omega
      apply (hnext machine).gate ⟨UInt32.ofNat (done + 1), 0⟩ ((hopen given).2 (by omega))
      · intro limits hle
        have hrounds : limits.cap.toNat - done = limits.cap.toNat - (done + 1) + 1 := by
          have := (hopen limits).1 hle
          omega
        simp only [if_true, hrounds]
      · intro limits hnot
        have hrounds : limits.cap.toNat - done = 0 := by
          have : ¬ done + 1 ≤ limits.cap.toNat := fun hle => hnot ((hopen limits).2 hle)
          omega
        exact ⟨machine, .inl (by simp [hrounds])⟩

namespace Context

/-- The limits that a context's policy sets. -/
def limits (ctx : Context) : Limits := ⟨ctx.policy.iterationCap, ctx.policy.maxCallDepth⟩

/-- The same context under other limits. -/
def withLimits (ctx : Context) (limits : Limits) : Context :=
  { ctx with policy :=
      { ctx.policy with iterationCap := limits.cap, maxCallDepth := limits.depth } }

/-- A context under its own limits is the same. -/
@[simp] theorem withLimits_limits (ctx : Context) : ctx.withLimits ctx.limits = ctx := rfl

variable {ctx : Context}

/-- Limits do not matter to well-formedness. -/
theorem WellFormed.withLimits (h : ctx.WellFormed) (limits : Limits) :
    (ctx.withLimits limits).WellFormed :=
  ⟨h.arena, h.bodies⟩

/-- Every evaluation has least limits: functions set the depth and loops set the number of
rounds. -/
theorem sharp_evalWithin (ctx : Context) (given : Limits) (nesting : Nat) (id : NodeId) :
    Sharp given Literal fun limits => (ctx.withLimits limits).evalWithin nesting id := by
  have halike : ∀ limits, (ctx.withLimits limits).Alike ctx := fun _ => ⟨rfl, rfl, rfl⟩
  induction nesting generalizing id with
  | zero => apply Sharp.constant
  | succ nesting ih =>
    cases hshape : ctx.arena.shape id with
    | error fault =>
      have hcrash : ∀ limits, (ctx.withLimits limits).evalWithin (nesting + 1) id =
          throw (.crashed fault) := by
        intro limits
        have hshape' : (ctx.withLimits limits).arena.shape id = .error fault := hshape
        simp only [evalWithin, evalNode, hshape', ofLookup]
        rfl
      simp only [hcrash]
      apply Sharp.constant
    | ok shape =>
      have hsplit := fun limits =>
        (ctx.withLimits limits).evalWithin_succ_of_shape hshape nesting
      simp only [hsplit]
      apply (sharp_compositional given).evalShape ctx ctx.withLimits halike fun child _ => ih child
      · intro callee receiver args
        apply (sharp_compositional given).evalCall ctx ctx.withLimits halike callee receiver args
        intro definition _
        exact Sharp.evalBody (fun _ => rfl) (fun _ => rfl) (ih definition.body) args
      · intro condition body hcondition hbody
        exact Sharp.rounds hcondition hbody given.cap.toNat 0 rfl .unit

/-- Under all limits, evaluating a node of a well-formed context is evaluating it within one common
nesting. -/
theorem WellFormed.sharp_eval (h : ctx.WellFormed) (given : Limits) {id : NodeId}
    (hid : id.index < ctx.arena.size) :
    Sharp given Literal fun limits => (ctx.withLimits limits).eval id := by
  have hnesting : ∀ limits : Limits, (ctx.withLimits limits).maxNesting ≤
      UInt32.size * (ctx.arena.size + 1) + UInt32.size := by
    intro limits
    have hdepth : limits.depth.toNat + 1 ≤ UInt32.size := limits.depth.toNat_lt_size
    exact Nat.add_le_add_right (Nat.mul_le_mul_right _ hdepth) _
  have hcommon : ∀ limits machine, (ctx.withLimits limits).eval id machine =
      (ctx.withLimits limits).evalWithin (UInt32.size * (ctx.arena.size + 1) + UInt32.size) id machine :=
    fun limits machine => (h.withLimits limits).eval_eq_evalWithin hid (hnesting limits) machine
  intro machine
  exact (ctx.sharp_evalWithin given _ id machine).carry (fun ending => ending) (fun _ _ h => h)
    fun limits => hcommon limits machine

/-- A run that meets no limit has least limits, at most the ones it ran under: under these or any
larger limits it has the same outcome and leaves the same machine, and under any others its outcome
is the failure of one of the limits. -/
theorem WellFormed.exists_least_limits (h : ctx.WellFormed) {id : NodeId}
    (hid : id.index < ctx.arena.size) (env : Env) {outcome : Outcome} {final : Machine}
    (hrun : ctx.reduce id { env := env } = .ok outcome final)
    (hcap : ∀ cap, outcome ≠ .error (.iterationCap cap))
    (hdepth : ∀ limit, outcome ≠ .error (.callDepth limit)) :
    ∃ floor ≤ ctx.limits, ∀ limits,
      (floor ≤ limits → (ctx.withLimits limits).reduce id { env := env } = .ok outcome final) ∧
      (¬ floor ≤ limits → ∃ final',
        (ctx.withLimits limits).reduce id { env := env } =
          .ok (.error (.iterationCap limits.cap)) final' ∨
        (ctx.withLimits limits).reduce id { env := env } =
          .ok (.error (.callDepth limits.depth)) final') := by
  have hfailed : ∀ limits failure after,
      (ctx.withLimits limits).eval id { env := env } = .error (.failed failure) after →
      (ctx.withLimits limits).reduce id { env := env } = .ok (.error failure) after := by
    intro limits failure after hend
    rw [reduce_apply, hend]
    rfl
  rcases h.sharp_eval ctx.limits hid { env := env } with
    ⟨limits, after, hend | hend⟩ | ⟨floor, hfloor, hsharp⟩
  · have hreduce := hfailed ctx.limits _ after hend
    rw [withLimits_limits, hrun] at hreduce
    cases hreduce
    exact absurd rfl (hcap limits.cap)
  · have hreduce := hfailed ctx.limits _ after hend
    rw [withLimits_limits, hrun] at hreduce
    cases hreduce
    exact absurd rfl (hdepth limits.depth)
  · refine ⟨floor, hfloor, fun limits => ⟨fun hle => ?_, fun hnot => ?_⟩⟩
    · have heq : (ctx.withLimits limits).eval id { env := env } = ctx.eval id { env := env } :=
        (hsharp limits).1 hle
      rw [← hrun, reduce_apply, reduce_apply, heq]
    · obtain ⟨after, hend⟩ := (hsharp limits).2 hnot
      exact ⟨after, hend.imp (hfailed limits _ after) (hfailed limits _ after)⟩

/-- A function that counts its argument up to two in a loop, and a call of it on zero. -/
def counting : Context where
  symbols := SymbolTable.ofTexts ["x", "less", "plus", "evalCount"]
  library := Library.ofList [{ name := ⟨4⟩, params := [⟨1⟩], body := ⟨7⟩ }]
  policy := {}
  arena :=
    { nodes := #[.var ⟨1⟩, .literal (.int 2), .call ⟨2⟩ (some ⟨0⟩) ⟨0, 1⟩, .literal (.int 1),
        .call ⟨3⟩ (some ⟨0⟩) ⟨1, 1⟩, .block ⟨0, 1⟩, .loop ⟨2⟩ ⟨5⟩, .block ⟨1, 2⟩,
        .literal (.int 0), .call ⟨4⟩ none ⟨2, 1⟩]
      spans := Array.replicate 10 Span.nowhere
      args := #[⟨1⟩, ⟨3⟩, ⟨8⟩]
      stmts := #[.assign ⟨1⟩ ⟨4⟩, .expr ⟨6⟩, .expr ⟨0⟩]
      arms := #[] }

/-- In `counting` children come before their parents, so it is well-formed. -/
theorem counting_wellFormed : counting.WellFormed :=
  .of_ordered (by decide) rfl rfl (by decide)

/-- The call takes two rounds and one function body. -/
theorem exists_least_limits_counting :
    counting.reduce ⟨9⟩ { env := Env.empty } = .ok (.ok (.int 2)) {} ∧
    ⟨2, 1⟩ ≤ counting.limits ∧ ∀ limits,
      (⟨2, 1⟩ ≤ limits →
        (counting.withLimits limits).reduce ⟨9⟩ { env := Env.empty } = .ok (.ok (.int 2)) {}) ∧
      (¬ ⟨2, 1⟩ ≤ limits → ∃ final',
        (counting.withLimits limits).reduce ⟨9⟩ { env := Env.empty } =
          .ok (.error (.iterationCap limits.cap)) final' ∨
        (counting.withLimits limits).reduce ⟨9⟩ { env := Env.empty } =
          .ok (.error (.callDepth limits.depth)) final') := by
  have hrun : counting.reduce ⟨9⟩ { env := Env.empty } = .ok (.ok (.int 2)) {} := by decide +kernel
  obtain ⟨floor, hfloor, hlimits⟩ := counting_wellFormed.exists_least_limits (by decide) Env.empty
    hrun (fun cap => by simp) fun limit => by simp
  -- The least limits are those that suffice and cannot be lowered in either respect.
  have hsuffices : floor ≤ ⟨2, 1⟩ := by
    by_contra hnot
    obtain ⟨final, hfailed⟩ := (hlimits ⟨2, 1⟩).2 hnot
    have hsame : (counting.withLimits ⟨2, 1⟩).reduce ⟨9⟩ { env := Env.empty } =
        .ok (.ok (.int 2)) {} := by decide +kernel
    rw [hsame] at hfailed
    rcases hfailed with hfailed | hfailed <;> cases hfailed
  have hrounds : ¬ floor ≤ ⟨1, 1⟩ := fun hle => absurd ((hlimits ⟨1, 1⟩).1 hle) (by decide +kernel)
  have hbodies : ¬ floor ≤ ⟨2, 0⟩ := fun hle => absurd ((hlimits ⟨2, 0⟩).1 hle) (by decide +kernel)
  obtain rfl : floor = ⟨2, 1⟩ := by
    simp only [Limits.le_def] at hsuffices hrounds hbodies
    obtain ⟨cap, depth⟩ := floor
    rw [Limits.mk.injEq, ← UInt32.toNat_inj, ← UInt32.toNat_inj]
    simp at hsuffices hrounds hbodies ⊢
    omega
  exact ⟨hrun, hfloor, hlimits⟩

end Context

end ConstFold
