import ConstFold.Env

/-!
# Columns of an environment

The column of a name lists what every scope binds it to, innermost first and the base scope last. A
change of one name leaves the columns of all others alone, and what it does to its own column is an
operation on lists: binding sets the first entry, assigning overwrites the first entry that is
there, forgetting clears all of them. A look-up finds the first entry that is there.
-/

set_option autoImplicit false

namespace ConstFold

/-- What the scopes bind a name to, innermost first. -/
abbrev Column := List (Option Literal)

namespace Column

/-- The first binding, which hides those after it. -/
def visible : Column → Option Literal
  | [] => none
  | entry :: rest => entry.or (visible rest)

/-- Bind in the innermost scope. -/
def bindTop (value : Literal) : Column → Column
  | [] => []
  | _ :: rest => some value :: rest

/-- Overwrite the first binding. -/
def overwrite (value : Literal) : Column → Column
  | [] => []
  | some _ :: rest => some value :: rest
  | none :: rest => none :: overwrite value rest

/-- Overwrite the first binding, or bind in the innermost scope when there is none. -/
def assign (value : Literal) (column : Column) : Column :=
  if column.visible.isSome then overwrite value column else bindTop value column

/-- Take away every binding. -/
def clear (column : Column) : Column := column.map fun _ => none

/-- A cleared name is unknown. -/
@[simp] theorem visible_clear (column : Column) : visible (clear column) = none := by
  induction column with
  | nil => rfl
  | cons entry rest ih => simpa [clear, visible] using ih

/-- Inner bindings hide outer ones. -/
theorem visible_append (left right : Column) :
    visible (left ++ right) = left.visible.or right.visible := by
  induction left with
  | nil => rfl
  | cons entry rest ih => simp [visible, ih, Option.or_assoc]

/-- A name bound by inner scopes is overwritten there. -/
theorem overwrite_append_of_isSome (value : Literal) {left : Column} (right : Column)
    (h : left.visible.isSome = true) :
    overwrite value (left ++ right) = overwrite value left ++ right := by
  induction left with
  | nil => simp [visible] at h
  | cons entry rest ih =>
    cases entry with
    | some old => rfl
    | none =>
      have hrest : (visible rest).isSome = true := by simpa [visible] using h
      simp [overwrite, ih hrest]

/-- A name not bound by inner scopes is overwritten further out. -/
theorem overwrite_append_of_none (value : Literal) {left : Column} (right : Column)
    (h : left.visible = none) : overwrite value (left ++ right) = left ++ overwrite value right := by
  induction left with
  | nil => rfl
  | cons entry rest ih =>
    cases entry with
    | some old => simp [visible] at h
    | none =>
      have hrest : visible rest = none := by simpa [visible] using h
      simp [overwrite, ih hrest]

/-- An overwritten name has the new value. -/
theorem visible_overwrite (value : Literal) {column : Column} (h : (visible column).isSome = true) :
    visible (overwrite value column) = some value := by
  induction column with
  | nil => cases h
  | cons entry rest ih =>
    cases entry with
    | some old => rfl
    | none => simpa [overwrite, visible] using ih (by simpa [visible] using h)

/-- Overwriting opens no scope and closes none. -/
@[simp] theorem length_overwrite (value : Literal) (column : Column) :
    (overwrite value column).length = column.length := by
  induction column with
  | nil => rfl
  | cons entry rest ih =>
    cases entry with
    | some old => rfl
    | none => simpa [overwrite] using ih

/-- Assigning opens no scope and closes none. -/
@[simp] theorem length_assign (value : Literal) (column : Column) :
    (assign value column).length = column.length := by
  have htop : (bindTop value column).length = column.length := by cases column <;> rfl
  unfold assign
  split
  · exact length_overwrite value column
  · exact htop

end Column

namespace Env

open Column

/-- What the scopes of an environment bind a name to. -/
def column (env : Env) (name : Name) : Column := env.scopes.map (·.get? name)

/-- The base scope comes last. -/
theorem column_eq (env : Env) (name : Name) :
    env.column name = env.inner.map (·.get? name) ++ [env.base.get? name] := by
  simp [column, scopes]

/-- Looking a name up in scopes finds the first binding. -/
theorem visible_map_get? (name : Name) (scopes : List Scope) :
    visible (scopes.map (·.get? name)) = lookupIn name scopes := by
  induction scopes with
  | nil => rfl
  | cons scope rest ih => simp [visible, lookupIn, ih]

/-- A name looks up to the visible entry of its column. -/
theorem lookup_eq_visible (env : Env) (name : Name) :
    env.lookup name = (env.column name).visible :=
  (visible_map_get? name env.scopes).symm

/-- A new scope binds nothing. -/
@[simp] theorem column_push (env : Env) (name : Name) :
    env.push.column name = none :: env.column name := by
  simp [column_eq, push]

/-- Closing a scope takes its binding away, if it is not the base scope. -/
theorem column_pop {env : Env} (h : 1 < env.depth) (name : Name) :
    env.pop.column name = (env.column name).tail := by
  cases hinner : env.inner with
  | nil => simp [depth, hinner] at h
  | cons scope rest => simp [column_eq, pop, hinner]

/-- Defining a name binds it in the innermost scope and leaves other names alone. -/
theorem column_define (env : Env) (name defined : Name) (value : Literal) :
    (env.define defined value).column name =
      if name = defined then bindTop value (env.column name) else env.column name := by
  cases hinner : env.inner with
  | nil => by_cases hname : name = defined <;>
      simp [column_eq, define, hinner, Table.get?_insert, hname, bindTop]
  | cons scope rest => by_cases hname : name = defined <;>
      simp [column_eq, define, hinner, Table.get?_insert, hname, bindTop]

/-- Forgetting a name takes all its bindings away and leaves other names alone. -/
theorem column_forget (env : Env) (name forgotten : Name) :
    (env.forget forgotten).column name =
      if name = forgotten then clear (env.column name) else env.column name := by
  by_cases hname : name = forgotten <;>
    simp [column_eq, forget, Table.get?_erase, hname, clear, Function.comp_def]

/-- Overwriting a name in scopes overwrites its first binding and leaves other names alone. -/
theorem map_get?_overwriteIn (name written : Name) (value : Literal) (scopes : List Scope) :
    (overwriteIn written value scopes).map (·.get? name) =
      if name = written then overwrite value (scopes.map (·.get? name))
      else scopes.map (·.get? name) := by
  induction scopes with
  | nil => simp [overwriteIn, overwrite]
  | cons scope rest ih =>
    by_cases hscope : scope.contains written = true
    · obtain ⟨old, hold⟩ := Option.isSome_iff_exists.1 hscope
      by_cases hname : name = written
      · subst hname
        simp [overwriteIn, hscope, overwrite, hold]
      · simp [overwriteIn, hscope, hname, Table.get?_insert]
    · have hnone : scope.get? written = none := by simpa [Table.contains] using hscope
      by_cases hname : name = written
      · subst hname
        simpa [overwriteIn, hscope, overwrite, hnone] using ih
      · simpa [overwriteIn, hscope, hname] using ih

/-- Assigning to a name leaves other names alone. -/
theorem column_assign_of_ne (env : Env) {name assigned : Name} (value : Literal)
    (hname : name ≠ assigned) : (env.assign assigned value).column name = env.column name := by
  unfold Env.assign
  split
  · simp [column_eq, map_get?_overwriteIn, hname]
  · split
    · simp [column_eq, Table.get?_insert, hname]
    · simp [column_define, hname]

/-- Assigning to a name overwrites its first binding, or binds it in the innermost scope. -/
theorem column_assign_self (env : Env) (name : Name) (value : Literal) :
    (env.assign name value).column name = Column.assign value (env.column name) := by
  -- The scope that binds the name is found in three places: above the base, at the base, nowhere.
  unfold Env.assign Column.assign
  by_cases hinner : env.inner.any (·.contains name) = true
  · have hvisible : (visible (env.inner.map (·.get? name))).isSome = true := by
      rw [visible_map_get?]
      cases hlookup : lookupIn name env.inner with
      | some value => rfl
      | none =>
        rw [lookupIn_eq_none_iff.1 hlookup] at hinner
        cases hinner
    have hall : (env.column name).visible.isSome = true := by
      rw [column_eq, visible_append]
      simp [hvisible]
    simp only [hinner, hall, if_true]
    rw [column_eq, column_eq, overwrite_append_of_isSome value _ hvisible]
    simp [map_get?_overwriteIn]
  · have hnone : visible (env.inner.map (·.get? name)) = none := by
      rw [visible_map_get?]
      exact lookupIn_eq_none_iff.2 (by simpa using hinner)
    by_cases hbase : env.base.contains name = true
    · obtain ⟨old, hold⟩ := Option.isSome_iff_exists.1 hbase
      have hall : (env.column name).visible.isSome = true := by
        rw [column_eq, visible_append, hnone]
        simp [visible, hold]
      simp only [hinner, hbase, hall, if_true]
      rw [column_eq, column_eq, overwrite_append_of_none value _ hnone]
      simp [overwrite, hold]
    · have hbaseNone : env.base.get? name = none := by simpa [Table.contains] using hbase
      have hall : (env.column name).visible = none := by
        rw [column_eq, visible_append, hnone]
        simp [visible, hbaseNone]
      simp only [hinner, hbase, hall]
      simp [column_define]

/-- What assigning to a name does to all names. -/
theorem column_assign (env : Env) (name assigned : Name) (value : Literal) :
    (env.assign assigned value).column name =
      if name = assigned then Column.assign value (env.column name) else env.column name := by
  by_cases hname : name = assigned
  · subst hname
    simpa using column_assign_self env name value
  · simpa [hname] using column_assign_of_ne env value hname

/-- A column has an entry for every scope. -/
theorem length_column (env : Env) (name : Name) : (env.column name).length = env.depth := by
  simp [column_eq, depth]

/-- Defining a name opens no scope and closes none. -/
@[simp] theorem depth_define (env : Env) (name : Name) (value : Literal) :
    (env.define name value).depth = env.depth := by
  unfold define
  split <;> simp [depth, *]

/-- Forgetting a name opens no scope and closes none. -/
@[simp] theorem depth_forget (env : Env) (name : Name) : (env.forget name).depth = env.depth := by
  simp [depth, forget]

/-- Assigning to a name opens no scope and closes none. -/
@[simp] theorem depth_assign (env : Env) (name : Name) (value : Literal) :
    (env.assign name value).depth = env.depth := by
  have h := congrArg List.length (column_assign env name name value)
  simpa [length_column] using h

end Env

end ConstFold
