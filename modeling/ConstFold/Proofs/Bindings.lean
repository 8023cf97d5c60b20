import ConstFold.Proofs.Column
import Mathlib.Data.List.Infix

/-!
# Bindings over runs of changes

An environment is changed by opening and closing scopes and by defining, assigning and forgetting
names. Names do not interfere: what a run makes of the column of a name is decided by the scopes and
by the changes of this name (`Env.column_run_filter`), so what a look-up finds is too.

What a stretch of changes does inside a scope of its own is followed along the scopes that it has
opened (`Env.Nested.run_induction`). A definition goes to one of these and is gone with it. An
assignment to a name that none of them binds goes to the binding outside.

The main statement, `Env.lawful_after_changes`, says what every run leaves behind and what any
further changes make of it.
-/

set_option autoImplicit false

namespace ConstFold

namespace Env

/-- Whether a change opens or closes a scope, or is a change of this name. -/
def Step.concerns (name : Name) : Step → Bool
  | .push | .pop => true
  | .define changed _ | .assign changed _ | .forget changed => changed = name

/-- The value that a change assigns to this name. -/
def Step.assigned? (name : Name) : Step → Option Literal
  | .assign assigned value => if assigned = name then some value else none
  | .push | .pop | .define .. | .forget _ => none

/-- How many scopes there are after a change. The last one is not closed. -/
def Step.depthAfter (depth : Nat) : Step → Nat
  | .push => depth + 1
  | .pop => max 1 (depth - 1)
  | .define .. | .assign .. | .forget _ => depth

/-- The last value that changes assign to a name. -/
def lastAssigned? (name : Name) (steps : List Step) : Option Literal :=
  (steps.filterMap (Step.assigned? name)).getLast?

/-- Changes that close only scopes that they have opened, and all of these. -/
structure Nested (steps : List Step) : Prop where
  /-- At no point have more scopes been closed than opened. -/
  within : ∀ part, part <+: steps → part.count .pop ≤ part.count .push
  /-- In the end as many have been closed as opened. -/
  balanced : steps.count .pop = steps.count .push

instance (steps : List Step) : Decidable (Nested steps) :=
  decidable_of_iff
    ((∀ part ∈ steps.inits, part.count .pop ≤ part.count .push) ∧
      steps.count .pop = steps.count .push)
    ⟨fun h => ⟨fun part hpart => h.1 part ((List.mem_inits part steps).2 hpart), h.2⟩,
      fun h => ⟨fun part hpart => h.within part ((List.mem_inits part steps).1 hpart), h.balanced⟩⟩

/-- Changes in a scope that is opened before them and closed after them. -/
def enclose (body : List Step) : List Step := .push :: body ++ [.pop]

/-- What an environment is that changes have made of some bindings, and what further changes make of
it. -/
structure Lawful (bindings : List (Name × Literal)) (steps : List Step) (env : Env) : Prop where
  /-- Changes of other names make no difference to a name. -/
  apart : ∀ name, env.lookup name =
    ((ofBindings bindings).run (steps.filter (·.concerns name))).lookup name
  /-- A forgotten name has no value until it is defined or assigned again, whatever scopes are
  closed. -/
  forgets : ∀ name later, (∀ value, .define name value ∉ later) →
    (∀ value, .assign name value ∉ later) → (env.run (.forget name :: later)).lookup name = none
  /-- Changes are nested exactly if a scope that is opened before them stays open and is the
  innermost one after them, so that it is the one that is closed next. -/
  nested_iff : ∀ body, Nested body ↔
    (∀ part, part <+: body → env.depth < (env.run (.push :: part)).depth) ∧
      (env.run (.push :: body)).depth = env.depth + 1
  /-- A name that is neither assigned nor forgotten in a scope is afterwards what it was before. -/
  restores : ∀ name body, Nested body → (∀ value, .assign name value ∉ body) →
    .forget name ∉ body → (env.run (enclose body)).lookup name = env.lookup name
  /-- A visible name that is neither defined nor forgotten in a scope has afterwards the value it
  was last assigned there, if any. -/
  updates : ∀ name value body, Nested body → env.lookup name = some value →
    (∀ value, .define name value ∉ body) → .forget name ∉ body →
    (env.run (enclose body)).lookup name = some ((lastAssigned? name body).getD value)
  /-- Closing a scope does nothing when only the base scope is left. -/
  depth_eq : env.depth = steps.foldl Step.depthAfter 1
  depth_pos : 1 ≤ env.depth
  /-- However often scopes are closed, the base scope is left with all its bindings. -/
  base_stays : ∀ count, env.depth ≤ count + 1 →
    (env.run (List.replicate count .pop)).scopes = [env.base]

variable {env : Env} {name : Name} {body : List Step}

/-- The first of some changes is made first. -/
@[simp] theorem run_cons (env : Env) (step : Step) (steps : List Step) :
    env.run (step :: steps) = (env.step step).run steps := rfl

/-- The last of some changes is made last. -/
@[simp] theorem run_concat (env : Env) (steps : List Step) (step : Step) :
    env.run (steps ++ [step]) = (env.run steps).step step :=
  List.foldl_concat _ _ _ _

/-- The last change decides what a name was assigned last, if it assigns to the name. -/
theorem lastAssigned?_concat (name : Name) (steps : List Step) (step : Step) :
    lastAssigned? name (steps ++ [step]) =
      (step.assigned? name).or (lastAssigned? name steps) := by
  unfold lastAssigned?
  rw [List.filterMap_append, List.getLast?_append]
  cases hvalue : step.assigned? name <;> simp [hvalue]

/-- What a change is, from the view of a name. -/
theorem Step.concerns_cases (name : Name) (step : Step) :
    step = .push ∨ step = .pop ∨ (∃ value, step = .define name value) ∨
      (∃ value, step = .assign name value) ∨ step = .forget name ∨ step.concerns name = false := by
  cases step with
  | push => exact .inl rfl
  | pop => exact .inr (.inl rfl)
  | define defined value => by_cases hname : defined = name <;> simp [concerns, hname]
  | assign assigned value => by_cases hname : assigned = name <;> simp [concerns, hname]
  | forget forgotten => by_cases hname : forgotten = name <;> simp [concerns, hname]

/-- A change that does not concern a name does not assign to it. -/
theorem Step.assigned?_of_not_concerns {step : Step} (h : step.concerns name = false) :
    step.assigned? name = none := by
  cases step with
  | assign assigned value =>
    have hname : assigned ≠ name := by simpa [concerns] using h
    exact if_neg hname
  | _ => rfl

/-! ## How many scopes there are -/

/-- A change opens or closes at most one scope. -/
theorem depth_step (env : Env) (step : Step) : (env.step step).depth = step.depthAfter env.depth := by
  cases step with
  | push => rfl
  | pop =>
    simp only [Env.step, Step.depthAfter, pop, depth, List.length_tail]
    omega
  | define defined value => exact depth_define env defined value
  | assign assigned value => exact depth_assign env assigned value
  | forget forgotten => exact depth_forget env forgotten

/-- The depth after some changes depends on the depth before them only. -/
theorem depth_run (env : Env) (steps : List Step) :
    (env.run steps).depth = steps.foldl Step.depthAfter env.depth :=
  (List.foldl_hom depth fun env step => (depth_step env step).symm).symm

/-- Closing scopes drops the innermost ones, and the base scope stays. -/
theorem run_replicate_pop (env : Env) (count : Nat) :
    env.run (List.replicate count .pop) = { env with inner := env.inner.drop count } := by
  induction count generalizing env with
  | zero => rfl
  | succ count ih => simp [List.replicate_succ, ih, Env.step, pop, List.drop_tail]

/-! ## Names are independent -/

/-- Closing a scope takes the first entry of a column away, unless it is the only one. -/
theorem column_pop_eq (env : Env) (name : Name) :
    env.pop.column name =
      if 1 < (env.column name).length then (env.column name).tail else env.column name := by
  rw [length_column]
  split
  · next hopen => exact column_pop hopen name
  · next hbase =>
    have hinner : env.inner = [] := by simpa [depth] using hbase
    simp [pop, hinner, column_eq]

/-- A change that does not concern a name leaves it alone in all scopes. -/
theorem column_step_of_not_concerns {step : Step} (h : step.concerns name = false) :
    (env.step step).column name = env.column name := by
  cases step with
  | push => cases h
  | pop => cases h
  | define defined value =>
    have hname : name ≠ defined := by simpa [Step.concerns, eq_comm] using h
    simp [Env.step, column_define, hname]
  | assign assigned value =>
    have hname : name ≠ assigned := by simpa [Step.concerns, eq_comm] using h
    simp [Env.step, column_assign, hname]
  | forget forgotten =>
    have hname : name ≠ forgotten := by simpa [Step.concerns, eq_comm] using h
    simp [Env.step, column_forget, hname]

/-- What a change makes of a column is decided by the column. -/
theorem column_step_congr {left right : Env} (h : left.column name = right.column name)
    (step : Step) : (left.step step).column name = (right.step step).column name := by
  cases step <;>
    simp only [Env.step, column_push, column_pop_eq, column_define, column_assign, column_forget, h]

/-- Changes of other names make no difference to a column. -/
theorem column_run_filter {left right : Env} (h : left.column name = right.column name)
    (steps : List Step) :
    (left.run steps).column name = (right.run (steps.filter (·.concerns name))).column name := by
  induction steps generalizing left right with
  | nil => exact h
  | cons step rest ih =>
    rw [List.filter_cons, run_cons]
    split
    · exact ih (column_step_congr h step)
    · next hother =>
      exact ih ((column_step_of_not_concerns (eq_false_of_ne_true hother)).trans h)

/-! ## Forgotten names -/

/-- A name that is unknown stays unknown when a scope is closed. -/
theorem lookup_pop_eq_none (h : env.lookup name = none) : env.pop.lookup name = none := by
  cases hinner : env.inner with
  | nil => simpa [lookup, scopes, pop, hinner] using h
  | cons scope rest =>
    simp only [lookup, scopes, hinner, List.cons_append, lookupIn, Option.or_eq_none_iff] at h
    simpa [lookup, scopes, pop, hinner] using h.2

/-- Only a definition or an assignment gives a value to a name that has none. -/
theorem lookup_step_eq_none {step : Step} (h : env.lookup name = none)
    (hdefine : ∀ value, step ≠ .define name value) (hassign : ∀ value, step ≠ .assign name value) :
    (env.step step).lookup name = none := by
  rcases step.concerns_cases name with rfl | rfl | ⟨value, rfl⟩ | ⟨value, rfl⟩ | rfl | hother
  · simpa [Env.step] using h
  · exact lookup_pop_eq_none h
  · exact absurd rfl (hdefine value)
  · exact absurd rfl (hassign value)
  · simp [Env.step, lookup_forget]
  · rw [lookup_eq_visible, column_step_of_not_concerns hother, ← lookup_eq_visible, h]

/-- A name that is unknown stays unknown through changes that neither define it nor assign to it. -/
theorem lookup_run_eq_none {steps : List Step} (h : env.lookup name = none)
    (hdefine : ∀ value, .define name value ∉ steps)
    (hassign : ∀ value, .assign name value ∉ steps) : (env.run steps).lookup name = none :=
  List.foldlRecOn steps step (motive := fun env => env.lookup name = none) h
    fun _ henv _ hstep => lookup_step_eq_none henv
      (fun value heq => hdefine value (heq ▸ hstep)) fun value heq => hassign value (heq ▸ hstep)

/-! ## Changes in a scope of their own -/

/-- Follow nested changes: the motive speaks of how many of the scopes that they have opened are
open, of the changes so far and of what they have led to. -/
theorem Nested.run_induction (h : Nested body) {motive : Nat → List Step → Env → Prop}
    (hstart : motive 0 [] env)
    (hpush : ∀ opened part env, motive opened part env →
      motive (opened + 1) (part ++ [.push]) env.push)
    (hpop : ∀ opened part env, motive (opened + 1) part env → motive opened (part ++ [.pop]) env.pop)
    (hchange : ∀ opened part env, ∀ step ∈ body, step ≠ .push → step ≠ .pop →
      motive opened part env → motive opened (part ++ [step]) (env.step step))
    {part : List Step} (hpart : part <+: body) {opened : Nat}
    (hopened : part.count .push = part.count .pop + opened) :
    motive opened part (env.run part) := by
  -- By induction at the end of the changes, so that each step meets what those before it have opened.
  induction part using List.reverseRecOn generalizing opened with
  | nil =>
    obtain rfl : opened = 0 := by simpa using hopened.symm
    exact hstart
  | append_singleton part step ih =>
    have hbefore : part <+: body := (List.prefix_append part [step]).trans hpart
    have hle := h.within part hbefore
    rw [run_concat]
    rcases eq_or_ne step .push with rfl | hstepPush
    · have hcount : part.count .push + 1 = part.count .pop + opened := by
        simpa [List.count_append] using hopened
      cases opened with
      | zero => omega
      | succ opened => exact hpush opened part _ (ih hbefore (by omega))
    rcases eq_or_ne step .pop with rfl | hstepPop
    · have hcount : part.count .push = part.count .pop + 1 + opened := by
        simpa [List.count_append] using hopened
      exact hpop opened part _ (ih hbefore (by omega))
    · have hcount : part.count .push = part.count .pop + opened := by
        simpa [List.count_append, hstepPush, hstepPop] using hopened
      have hmem : step ∈ body := hpart.subset (List.mem_append_right part List.mem_cons_self)
      exact hchange opened part _ step hmem hstepPush hstepPop (ih hbefore hcount)

/-- The depth says how many of the scopes are open that nested changes have opened. -/
theorem Nested.depth_run (h : Nested body) (env : Env) {part : List Step} (hpart : part <+: body)
    {opened : Nat} (hopened : part.count .push = part.count .pop + opened) :
    (env.run part).depth = env.depth + opened := by
  have hpos : 1 ≤ env.depth := Nat.le_add_left 1 _
  refine h.run_induction (motive := fun opened _ env' => env'.depth = env.depth + opened)
    rfl ?_ ?_ ?_ hpart hopened
  · intro opened part env' henv'
    rw [← Env.step, depth_step, henv']
    rfl
  · intro opened part env' henv'
    rw [← Env.step, depth_step, henv']
    simp only [Step.depthAfter]
    omega
  · intro opened part env' step hmem hstepPush hstepPop henv'
    rw [depth_step, henv']
    cases step with
    | push => contradiction
    | pop => contradiction
    | _ => rfl

/-- Changes that never come down below the depth at which they started close scopes that they have
opened, and each closing counts. -/
theorem depth_run_prefix {part : List Step} (hdepth : 1 < env.depth)
    (h : ∀ part, part <+: body → env.depth ≤ (env.run part).depth) (hpart : part <+: body) :
    (env.run part).depth + part.count .pop = env.depth + part.count .push := by
  -- A surplus closing would stay at the depth it started from, and `h` excludes it.
  induction part using List.reverseRecOn with
  | nil => simp [run]
  | append_singleton part step ih =>
    have hbefore := ih ((List.prefix_append part [step]).trans hpart)
    have hafter := h _ hpart
    rw [run_concat, depth_step] at hafter ⊢
    cases step <;> simp [Step.depthAfter, List.count_append] at hafter ⊢ <;> omega

/-- Changes are nested exactly if the scope that is opened before them stays open throughout and is
the innermost one after them. -/
theorem nested_iff_depth (env : Env) (body : List Step) :
    Nested body ↔ (∀ part, part <+: body → env.depth < (env.run (.push :: part)).depth) ∧
      (env.run (.push :: body)).depth = env.depth + 1 := by
  have hpush : env.push.depth = env.depth + 1 := rfl
  simp only [run_cons, Env.step]
  constructor
  · intro h
    have hlast : (env.push.run body).depth = env.push.depth + 0 :=
      h.depth_run env.push List.prefix_rfl h.balanced.symm
    refine ⟨fun part hpart => ?_, hlast⟩
    have hdepth := h.depth_run env.push hpart (Nat.add_sub_of_le (h.within part hpart)).symm
    omega
  · rintro ⟨hopen, hlast⟩
    have hpos : 1 ≤ env.depth := Nat.le_add_left 1 _
    have hcount {part : List Step} (hpart : part <+: body) :
        (env.push.run part).depth + part.count .pop = env.push.depth + part.count .push :=
      depth_run_prefix (by omega) hopen hpart
    refine ⟨fun part hpart => ?_, ?_⟩
    · have hpartCount := hcount hpart
      have hpartOpen := hopen part hpart
      omega
    · have hbodyCount := hcount List.prefix_rfl
      omega

/-- Enclosed changes are made within a scope of their own. -/
theorem run_enclose (env : Env) (body : List Step) :
    env.run (enclose body) = (env.push.run body).pop := by
  rw [enclose, List.cons_append, run_cons, run_concat]
  rfl

/-- Closing a scope drops the innermost entry of a name, if there is another. -/
theorem column_pop_cons {entry : Option Literal} {outer : Column}
    (h : env.column name = entry :: outer) (houter : outer ≠ []) : env.pop.column name = outer := by
  have hlength : 1 < (env.column name).length := by
    have hpos := List.length_pos_iff.2 houter
    simpa [h] using hpos
  rw [column_pop_eq, if_pos hlength, h, List.tail_cons]

/-- Closing a scope leaves the scopes further out alone. -/
theorem drop_column_pop {outer : Column} {opened : Nat}
    (h : (env.column name).drop (opened + 1) = outer) (houter : outer ≠ []) :
    (env.pop.column name).drop opened = outer := by
  cases hcolumn : env.column name with
  | nil => simp [hcolumn, houter.symm] at h
  | cons entry rest =>
    rw [hcolumn, List.drop_succ_cons] at h
    have hrest : rest ≠ [] := by
      rintro rfl
      exact houter (by simpa using h.symm)
    rw [column_pop_cons hcolumn hrest, h]

/-- Nested changes in a scope of their own that neither assign a name nor forget it leave all its
bindings as they were. What they define is gone with the scopes that it was defined in. -/
theorem Nested.column_run_enclose (h : Nested body) (hassign : ∀ value, .assign name value ∉ body)
    (hforget : .forget name ∉ body) (env : Env) :
    (env.run (enclose body)).column name = env.column name := by
  -- The part of the column outside of the opened scopes does not change.
  have houter : env.column name ≠ [] := by simp [column_eq]
  have hinside : ((env.push.run body).column name).drop 1 = env.column name := by
    refine h.run_induction
      (motive := fun opened _ env' => (env'.column name).drop (opened + 1) = env.column name)
      (by simp) ?_ ?_ ?_ List.prefix_rfl h.balanced.symm
    · intro opened part env' henv'
      simpa using henv'
    · intro opened part env' henv'
      exact drop_column_pop henv' houter
    · intro opened part env' step hmem hstepPush hstepPop henv'
      rcases step.concerns_cases name with rfl | rfl | ⟨value, rfl⟩ | ⟨value, rfl⟩ | rfl | hother
      · contradiction
      · contradiction
      · rw [Env.step, column_define, if_pos rfl]
        cases hcolumn : env'.column name <;> simpa [hcolumn, Column.bindTop] using henv'
      · exact absurd hmem (hassign value)
      · exact absurd hmem hforget
      · rwa [column_step_of_not_concerns hother]
  rw [run_enclose]
  simpa using drop_column_pop hinside houter

/-- The innermost `opened` scopes do not bind a name, and outside of them it has a value. -/
def BoundOutside (env : Env) (name : Name) (opened : Nat) (value : Literal) : Prop :=
  ∃ outer, env.column name = List.replicate opened none ++ outer ∧ Column.visible outer = some value

namespace BoundOutside

variable {opened : Nat} {value : Literal}

/-- A name bound outside of no scope is one that looks up to its value. -/
theorem zero_iff : env.BoundOutside name 0 value ↔ env.lookup name = some value := by
  rw [lookup_eq_visible]
  exact ⟨fun ⟨_, hcolumn, houter⟩ => hcolumn ▸ houter, fun h => ⟨_, rfl, h⟩⟩

/-- A name bound outside stays so, one scope further out, when a scope is opened. -/
theorem push (h : env.BoundOutside name opened value) :
    env.push.BoundOutside name (opened + 1) value := by
  obtain ⟨outer, hcolumn, houter⟩ := h
  refine ⟨outer, ?_, houter⟩
  rw [column_push, hcolumn, List.replicate_succ, List.cons_append]

/-- A name bound outside stays so, one scope further in, when a scope is closed. -/
theorem pop (h : env.BoundOutside name (opened + 1) value) :
    env.pop.BoundOutside name opened value := by
  obtain ⟨outer, hcolumn, houter⟩ := h
  have hnonempty : outer ≠ [] := by
    rintro rfl
    cases houter
  exact ⟨outer, column_pop_cons hcolumn (List.append_ne_nil_of_right_ne_nil _ hnonempty), houter⟩

/-- An assignment overwrites the binding outside. -/
theorem assign (h : env.BoundOutside name opened value) (newValue : Literal) :
    (env.assign name newValue).BoundOutside name opened newValue := by
  obtain ⟨outer, hcolumn, houter⟩ := h
  have hinside : Column.visible (List.replicate opened none) = none := by
    simpa [Column.clear] using Column.visible_clear (List.replicate opened none)
  have hsome : (Column.visible outer).isSome = true := by simp [houter]
  have hvisible : (Column.visible (env.column name)).isSome = true := by
    rw [hcolumn, Column.visible_append, hinside, Option.none_or, hsome]
  refine ⟨Column.overwrite newValue outer, ?_, Column.visible_overwrite newValue hsome⟩
  rw [column_assign_self, Column.assign, if_pos hvisible, hcolumn,
    Column.overwrite_append_of_none newValue outer hinside]

/-- Changes that open and close no scope, and do not define or forget the name, keep it bound
outside. -/
theorem step {step : Step} (h : env.BoundOutside name opened value) (hpush : step ≠ .push)
    (hpop : step ≠ .pop) (hdefine : ∀ value, step ≠ .define name value)
    (hforget : step ≠ .forget name) :
    (env.step step).BoundOutside name opened ((step.assigned? name).getD value) := by
  rcases step.concerns_cases name with rfl | rfl | ⟨newValue, rfl⟩ | ⟨newValue, rfl⟩ | rfl | hother
  · contradiction
  · contradiction
  · exact absurd rfl (hdefine newValue)
  · rw [Step.assigned?, if_pos rfl]
    exact h.assign newValue
  · contradiction
  · rw [Step.assigned?_of_not_concerns hother]
    obtain ⟨outer, hcolumn, houter⟩ := h
    exact ⟨outer, (column_step_of_not_concerns hother).trans hcolumn, houter⟩

end BoundOutside

/-- Nested changes in a scope of their own that neither define a name nor forget it assign to the
binding that is visible outside. -/
theorem Nested.lookup_run_enclose (h : Nested body) {value : Literal}
    (hvisible : env.lookup name = some value) (hdefine : ∀ value, .define name value ∉ body)
    (hforget : .forget name ∉ body) :
    (env.run (enclose body)).lookup name = some ((lastAssigned? name body).getD value) := by
  have hinside : (env.push.run body).BoundOutside name 1 ((lastAssigned? name body).getD value) := by
    refine h.run_induction (motive := fun opened part env' =>
      env'.BoundOutside name (opened + 1) ((lastAssigned? name part).getD value))
      ?_ ?_ ?_ ?_ List.prefix_rfl h.balanced.symm
    · exact (BoundOutside.zero_iff.2 hvisible).push
    · intro opened part env' henv'
      rw [lastAssigned?_concat]
      exact henv'.push
    · intro opened part env' henv'
      rw [lastAssigned?_concat]
      exact henv'.pop
    · intro opened part env' step hmem hpush hpop henv'
      rw [lastAssigned?_concat, Option.getD_or]
      exact henv'.step hpush hpop (fun value heq => hdefine value (heq ▸ hmem))
        fun heq => hforget (heq ▸ hmem)
  rw [run_enclose]
  exact BoundOutside.zero_iff.1 hinside.pop

/-! ## Runs -/

/-- After any changes of some bindings, what a name shows is decided by the scopes and its own
changes. A forgotten name shows nothing until it is defined or assigned again. Nested changes in a
scope of their own leave a name as it was, except that they may forget it and that they may assign
to the binding that is visible. The base scope is never closed. -/
theorem lawful_after_changes (bindings : List (Name × Literal)) (steps : List Step) :
    Lawful bindings steps ((ofBindings bindings).run steps) where
  apart name := by
    rw [lookup_eq_visible, lookup_eq_visible, column_run_filter rfl steps]
  forgets name later hdefine hassign := by
    rw [run_cons]
    exact lookup_run_eq_none (by simp [Env.step, lookup_forget]) hdefine hassign
  nested_iff body := nested_iff_depth _ body
  restores name body hnested hassign hforget := by
    rw [lookup_eq_visible, lookup_eq_visible, hnested.column_run_enclose hassign hforget]
  updates name value body hnested hvisible hdefine hforget :=
    hnested.lookup_run_enclose hvisible hdefine hforget
  depth_eq := depth_run _ steps
  depth_pos := Nat.le_add_left 1 _
  base_stays count hcount := by
    rw [run_replicate_pop]
    have hinner : List.drop count ((ofBindings bindings).run steps).inner = [] :=
      List.drop_eq_nil_of_le (Nat.le_of_succ_le_succ hcount)
    simp [scopes, hinner]

/-- Changes that would close the base scope twice, and leave one scope open. -/
def surplusClosings : List Step :=
  [.pop, .push, .define ⟨1⟩ (.int 4), .pop, .pop, .push, .define ⟨1⟩ (.int 3)]

/-- Nested changes that hide the one name and assign to the other one twice. -/
def hidingChanges : List Step :=
  [.define ⟨2⟩ (.int 5), .push, .assign ⟨1⟩ (.int 6), .pop, .assign ⟨1⟩ (.int 7)]

/-- The last assignment stays and the definition does not. A name that is forgotten while a scope is
open has no value when the scope is closed either. -/
theorem lawful_after_changes_hiding :
    let env := (ofBindings [(⟨1⟩, .int 1), (⟨2⟩, .int 2)]).run surplusClosings
    Nested hidingChanges ∧ env.depth = 2 ∧ env.lookup ⟨1⟩ = some (.int 3) ∧
      (env.run (enclose hidingChanges)).lookup ⟨1⟩ = some (.int 7) ∧
      (env.run (enclose hidingChanges)).lookup ⟨2⟩ = some (.int 2) ∧
      (env.run [.forget ⟨1⟩, .pop, .define ⟨2⟩ (.int 5), .pop]).lookup ⟨1⟩ = none := by
  intro env
  have hlawful := lawful_after_changes [(⟨1⟩, .int 1), (⟨2⟩, .int 2)] surplusClosings
  have hnested : Nested hidingChanges := by decide
  refine ⟨hnested, hlawful.depth_eq, by decide, ?_, ?_, ?_⟩
  · exact hlawful.updates ⟨1⟩ (.int 3) hidingChanges hnested (by decide) (by simp [hidingChanges])
      (by decide)
  · exact hlawful.restores ⟨2⟩ hidingChanges hnested (by simp [hidingChanges]) (by decide)
  · exact hlawful.forgets ⟨1⟩ _ (by simp) (by simp)

end Env

end ConstFold
