import ConstFold.Proofs.Containment

/-!
# Environments that agree

Two environments agree when no name has one value in the one and another value in the other; a name
may well be known in only one of them. Two runs of one expression keep their environments in
agreement only if this also survives the closing of scopes, so agreement is a statement about every
scope that both runs have opened: outside of it the environments agree, and a name that both of them
know outside of it is bound there by both or by neither.

Agreement survives whatever the two runs do alike, and it survives forgetting on either side
(`Column.Agree.of_visible_eq_none`).
-/

set_option autoImplicit false

namespace ConstFold

/-- Two values that are the same when both are known. -/
def Compatible (left right : Option Literal) : Prop :=
  ∀ value ∈ left, ∀ other ∈ right, value = other

/-- It does not matter which of two values comes first. -/
theorem Compatible.symm {left right : Option Literal} (h : Compatible left right) :
    Compatible right left :=
  fun value hvalue other hother => (h other hother value hvalue).symm

/-- An unknown value is compatible with every value. -/
theorem Compatible.none_left (right : Option Literal) : Compatible none right := nofun

/-- A value is compatible with itself. -/
theorem Compatible.refl (value : Option Literal) : Compatible value value := by
  intro one hone other hother
  rw [Option.mem_def] at hone hother
  rw [hone] at hother
  exact Option.some.inj hother

namespace Column

/-- Two columns that agree in and outside of each of the first `scopes` scopes. -/
def Agree : Nat → Column → Column → Prop
  | 0, left, right => left ≠ [] ∧ right ≠ [] ∧ Compatible (visible left) (visible right)
  | scopes + 1, entry :: left, entry' :: right =>
    Agree scopes left right ∧ Compatible (visible (entry :: left)) (visible (entry' :: right)) ∧
      (entry = entry' ∨ visible left = none ∨ visible right = none)
  | _ + 1, _, _ => False

/-- Overwriting a name keeps the scopes there are. -/
theorem overwrite_ne_nil (value : Literal) {column : Column} (h : column ≠ []) :
    overwrite value column ≠ [] := by
  cases column with
  | nil => exact absurd rfl h
  | cons entry rest => cases entry <;> simp [overwrite]

/-- A name that is unknown is unknown further out. -/
theorem visible_rest_eq_none {entry : Option Literal} {rest : Column}
    (h : visible (entry :: rest) = none) : visible rest = none := by
  simp only [visible, Option.or_eq_none_iff] at h
  exact h.2

namespace Agree

variable {scopes : Nat} {left right : Column}

/-- Both columns have an innermost scope. -/
theorem exists_cons (h : Agree (scopes + 1) left right) :
    ∃ entry outer entry' outer', left = entry :: outer ∧ right = entry' :: outer' := by
  cases left with
  | nil => exact h.elim
  | cons entry outer =>
    cases right with
    | nil => exact h.elim
    | cons entry' outer' => exact ⟨entry, outer, entry', outer', rfl, rfl⟩

/-- The two environments have the scopes in common, and at least one more each. -/
theorem lt_length (h : Agree scopes left right) : scopes < left.length ∧ scopes < right.length := by
  induction scopes generalizing left right with
  | zero => exact ⟨List.length_pos_iff.2 h.1, List.length_pos_iff.2 h.2.1⟩
  | succ scopes ih =>
    obtain ⟨entry, left, entry', right, rfl, rfl⟩ := h.exists_cons
    have hrest := ih h.1
    simp only [List.length_cons]
    omega

/-- In columns that agree, the visible values are compatible. -/
theorem compatible (h : Agree scopes left right) : Compatible (visible left) (visible right) := by
  cases scopes with
  | zero => exact h.2.2
  | succ scopes =>
    obtain ⟨entry, left, entry', right, rfl, rfl⟩ := h.exists_cons
    exact h.2.1

/-- It does not matter which of two columns comes first. -/
theorem symm (h : Agree scopes left right) : Agree scopes right left := by
  induction scopes generalizing left right with
  | zero => exact ⟨h.2.1, h.1, h.2.2.symm⟩
  | succ scopes ih =>
    obtain ⟨entry, left, entry', right, rfl, rfl⟩ := h.exists_cons
    exact ⟨ih h.1, h.2.1.symm, h.2.2.imp Eq.symm Or.symm⟩

/-- Columns that agree still do when both open a scope. -/
theorem push (h : Agree scopes left right) : Agree (scopes + 1) (none :: left) (none :: right) :=
  ⟨h, h.compatible, .inl rfl⟩

/-- Columns that agree still do when both close a scope. -/
theorem pop (h : Agree (scopes + 1) left right) : Agree scopes left.tail right.tail := by
  obtain ⟨entry, left, entry', right, rfl, rfl⟩ := h.exists_cons
  exact h.1

/-- An unknown name agrees with everything. -/
theorem of_visible_eq_none (hleft : scopes < left.length) (hright : scopes < right.length)
    (h : visible left = none) : Agree scopes left right := by
  induction scopes generalizing left right with
  | zero =>
    refine ⟨List.length_pos_iff.1 hleft, List.length_pos_iff.1 hright, ?_⟩
    rw [h]
    apply Compatible.none_left
  | succ scopes ih =>
    cases left with
    | nil => cases hleft
    | cons entry left =>
      cases right with
      | nil => cases hright
      | cons entry' right =>
        have hrest := visible_rest_eq_none h
        refine ⟨ih (Nat.lt_of_succ_lt_succ hleft) (Nat.lt_of_succ_lt_succ hright) hrest, ?_,
          .inr (.inl hrest)⟩
        rw [h]
        apply Compatible.none_left

/-- A column that agrees with another still does when its name is forgotten. -/
theorem clear_left (h : Agree scopes left right) : Agree scopes (clear left) right := by
  have hlength := h.lt_length
  exact of_visible_eq_none (by simpa [Column.clear] using hlength.1) hlength.2 (visible_clear left)

/-- Columns agree when their innermost scopes are given the same value. -/
theorem bindTop (value : Literal) (h : Agree (scopes + 1) left right) :
    Agree (scopes + 1) (bindTop value left) (bindTop value right) := by
  obtain ⟨entry, left, entry', right, rfl, rfl⟩ := h.exists_cons
  exact ⟨h.1, .refl _, .inl rfl⟩

/-- The left run overwrites a name in its innermost scope and does not know it further out, the
right run overwrites it further out. -/
theorem inner_overwrite (value : Literal) (hleft : visible left = none)
    (hright : (visible right).isSome = true) (h : Agree scopes left right) :
    Agree (scopes + 1) (some value :: left) (none :: Column.overwrite value right) := by
  obtain ⟨hlengthLeft, hlengthRight⟩ := h.lt_length
  have hvisible : visible (none :: Column.overwrite value right) = some value :=
    visible_overwrite value hright
  refine ⟨of_visible_eq_none hlengthLeft ?_ hleft, ?_, .inr (.inl hleft)⟩
  · rwa [length_overwrite]
  · rw [hvisible]
    apply Compatible.refl

/-- When the left run alone binds a name in its innermost scope and the right run knows the name,
both overwrite it. -/
theorem overwrite_some_none {old : Literal}
    (h : Agree (scopes + 1) (some old :: left) (none :: right))
    (hright : (visible right).isSome = true) (value : Literal) :
    Agree (scopes + 1) (some value :: left) (none :: Column.overwrite value right) := by
  obtain ⟨hrest, -, heq | hnone | hnone⟩ := h
  · cases heq
  · exact hrest.inner_overwrite value hnone hright
  · rw [hnone] at hright
    cases hright

/-- Columns that agree still do when a name known in both is overwritten in both. -/
theorem overwrite (value : Literal) (hleft : (visible left).isSome = true)
    (hright : (visible right).isSome = true) (h : Agree scopes left right) :
    Agree scopes (overwrite value left) (overwrite value right) := by
  have hcompatible : Compatible (visible (Column.overwrite value left))
      (visible (Column.overwrite value right)) := by
    rw [visible_overwrite value hleft, visible_overwrite value hright]
    apply Compatible.refl
  induction scopes generalizing left right with
  | zero => exact ⟨overwrite_ne_nil value h.1, overwrite_ne_nil value h.2.1, hcompatible⟩
  | succ scopes ih =>
    obtain ⟨entry, left, entry', right, rfl, rfl⟩ := h.exists_cons
    cases entry with
    | some old =>
      cases entry' with
      | some old' => exact ⟨h.1, hcompatible, .inl rfl⟩
      | none => exact h.overwrite_some_none hright value
    | none =>
      cases entry' with
      | some old' => exact (h.symm.overwrite_some_none hleft value).symm
      | none => exact ⟨ih hleft hright h.1 hcompatible, hcompatible, .inl rfl⟩

/-- The left run binds an unknown name in its innermost scope, the right run overwrites it. -/
theorem bindTop_overwrite (value : Literal) (hleft : visible left = none)
    (hright : (visible right).isSome = true) (h : Agree (scopes + 1) left right) :
    Agree (scopes + 1) (Column.bindTop value left) (Column.overwrite value right) := by
  obtain ⟨entry, left, entry', right, rfl, rfl⟩ := h.exists_cons
  have hnone := visible_rest_eq_none hleft
  cases entry' with
  | some old => exact ⟨h.1, .refl _, .inl rfl⟩
  | none => exact Agree.inner_overwrite value hnone hright h.1

/-- An assignment in both runs, whether or not they know the name. -/
theorem assign (value : Literal) (h : Agree (scopes + 1) left right) :
    Agree (scopes + 1) (assign value left) (assign value right) := by
  unfold Column.assign
  cases hleft : visible left with
  | none =>
    cases hright : visible right with
    | none => exact h.bindTop value
    | some old => exact h.bindTop_overwrite value hleft (by rw [hright]; rfl)
  | some old =>
    cases hright : visible right with
    | none => exact (h.symm.bindTop_overwrite value hright (by rw [hleft]; rfl)).symm
    | some old' => exact h.overwrite value (by rw [hleft]; rfl) (by rw [hright]; rfl)

end Agree

end Column

namespace Env

/-- Two environments that agree on every name, in and outside of each of the first `scopes`
scopes. -/
def Agree (scopes : Nat) (left right : Env) : Prop :=
  ∀ name, Column.Agree scopes (left.column name) (right.column name)

/-- Environments agree when the one knows what the other knows. -/
theorem agree_of_lookup {left right : Env}
    (h : ∀ name value, left.lookup name = some value → right.lookup name = some value) :
    Agree 0 left right := by
  intro name
  refine ⟨by simp [column_eq], by simp [column_eq], ?_⟩
  intro value hvalue other hother
  rw [← lookup_eq_visible, Option.mem_def] at hvalue hother
  rw [h name value hvalue] at hother
  exact Option.some.inj hother

namespace Agree

variable {scopes : Nat} {left right : Env}

/-- It does not matter which of two environments comes first. -/
theorem symm (h : Agree scopes left right) : Agree scopes right left := fun name => (h name).symm

/-- In environments that agree, a name looks up to compatible values. -/
theorem compatible (h : Agree scopes left right) (name : Name) :
    Compatible (left.lookup name) (right.lookup name) := by
  rw [lookup_eq_visible, lookup_eq_visible]
  exact (h name).compatible

/-- Environments that agree still do when both open a scope. -/
theorem push (h : Agree scopes left right) : Agree (scopes + 1) left.push right.push := by
  intro name
  rw [column_push, column_push]
  exact (h name).push

/-- Environments that agree still do when both close a scope. -/
theorem pop (h : Agree (scopes + 1) left right) : Agree scopes left.pop right.pop := by
  intro name
  have hlength := (h name).lt_length
  rw [length_column, length_column] at hlength
  rw [column_pop (by omega), column_pop (by omega)]
  exact (h name).pop

/-- Environments that agree still do when both define a name with the same value. -/
theorem define (h : Agree (scopes + 1) left right) (defined : Name) (value : Literal) :
    Agree (scopes + 1) (left.define defined value) (right.define defined value) := by
  intro name
  rw [column_define, column_define]
  split
  · exact (h name).bindTop value
  · exact h name

/-- Environments that agree still do when both assign the same value to a name, even if they find it
in different scopes. -/
theorem assign (h : Agree (scopes + 1) left right) (assigned : Name) (value : Literal) :
    Agree (scopes + 1) (left.assign assigned value) (right.assign assigned value) := by
  intro name
  rw [column_assign, column_assign]
  split
  · exact (h name).assign value
  · exact h name

/-- Evaluating a contained expression in one run only. -/
theorem of_shielded (h : Agree scopes left right) {after : Env} (hafter : Shielded [] left after) :
    Agree scopes after right := by
  intro name
  rcases hafter name with hsame | hclear
  · rw [hsame]
    exact h name
  · rw [hclear]
    exact (h name).clear_left

/-- One run forgets a name that the other may bind. -/
theorem forget_left (h : Agree scopes left right) {bound : Name} {after : Env}
    (hother : ∀ name, name ≠ bound → after.column name = right.column name)
    (hdepth : after.depth = right.depth) : Agree scopes (left.forget bound) after := by
  intro name
  by_cases hname : name = bound
  · have hlength := (h name).lt_length
    rw [column_forget, if_pos hname]
    refine .of_visible_eq_none ?_ ?_ (Column.visible_clear _)
    · simpa [Column.clear] using hlength.1
    · rw [length_column, hdepth, ← length_column right name]
      exact hlength.2
  · rw [column_forget, if_neg hname, hother name hname]
    exact h name

/-- Environments that agree still do when both forget a name. -/
theorem forget (h : Agree scopes left right) (name : Name) :
    Agree scopes (left.forget name) (right.forget name) :=
  h.forget_left (fun other hother => by rw [column_forget, if_neg hother]) (depth_forget right name)

end Agree

end Env

end ConstFold
