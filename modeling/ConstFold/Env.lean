import ConstFold.Literal
import ConstFold.Symbol

/-!
# Environments

An environment is a stack of scopes over a base scope that is never popped. A look-up searches from
the innermost scope outward. Assigning overwrites the innermost binding of a name, wherever it is,
and binds the name in the innermost scope when it has none; forgetting removes a name from every
scope.
-/

set_option autoImplicit false

namespace ConstFold

/-- The bindings of one scope. -/
abbrev Scope := Table Name Literal

/-- A stack of scopes: those above the base scope, innermost first, and the base scope. -/
structure Env where
  inner : List Scope := []
  base : Scope := Table.empty
  deriving DecidableEq, Repr, Inhabited

namespace Env

/-- The environment without bindings. -/
def empty : Env := {}

/-- The environment whose base scope holds the given bindings; a later one replaces an earlier
one. -/
def ofBindings (bindings : List (Name × Literal)) : Env where
  base := Table.ofList bindings

/-- Every scope, innermost first. -/
def scopes (env : Env) : List Scope := env.inner ++ [env.base]

/-- How many scopes there are. -/
def depth (env : Env) : Nat := env.inner.length + 1

/-- Open a scope. -/
def push (env : Env) : Env := { env with inner := Table.empty :: env.inner }

/-- Close the innermost scope; the base scope stays. -/
def pop (env : Env) : Env := { env with inner := env.inner.tail }

/-- The value of a name in the first of these scopes that binds it. -/
def lookupIn (name : Name) : List Scope → Option Literal
  | [] => none
  | scope :: rest => (scope.get? name).or (lookupIn name rest)

/-- The visible value of a name. -/
def lookup (env : Env) (name : Name) : Option Literal :=
  lookupIn name env.scopes

/-- Bind a name in the innermost scope. -/
def define (env : Env) (name : Name) (value : Literal) : Env :=
  match env.inner with
  | [] => { env with base := env.base.insert name value }
  | scope :: rest => { env with inner := scope.insert name value :: rest }

/-- Overwrite the binding of a name in the first of these scopes that has one. -/
def overwriteIn (name : Name) (value : Literal) : List Scope → List Scope
  | [] => []
  | scope :: rest =>
    if scope.contains name then scope.insert name value :: rest
    else scope :: overwriteIn name value rest

/-- Overwrite the visible binding of a name, or bind it in the innermost scope. -/
def assign (env : Env) (name : Name) (value : Literal) : Env :=
  if env.inner.any (·.contains name) then
    { env with inner := overwriteIn name value env.inner }
  else if env.base.contains name then
    { env with base := env.base.insert name value }
  else
    env.define name value

/-- Remove a name from every scope. -/
def forget (env : Env) (name : Name) : Env where
  inner := env.inner.map (·.erase name)
  base := env.base.erase name

/-- Inner scopes are looked up first, and outer ones where the inner ones say nothing. -/
theorem lookupIn_append (name : Name) (left right : List Scope) :
    lookupIn name (left ++ right) = (lookupIn name left).or (lookupIn name right) := by
  induction left with
  | nil => rfl
  | cons scope rest ih => simp [lookupIn, ih, Option.or_assoc]

/-- A name has no value exactly if no scope has one for it. -/
theorem lookupIn_eq_none_iff {name : Name} {scopes : List Scope} :
    lookupIn name scopes = none ↔ scopes.any (·.contains name) = false := by
  induction scopes with
  | nil => simp [lookupIn]
  | cons scope rest ih =>
    simp [lookupIn, Option.or_eq_none_iff, ih, Table.contains]

/-- Overwriting a name that has a value changes the value of this name and no other. -/
theorem lookupIn_overwriteIn (name written : Name) (value : Literal) {scopes : List Scope}
    (h : scopes.any (·.contains written) = true) :
    lookupIn name (overwriteIn written value scopes) =
      if name = written then some value else lookupIn name scopes := by
  induction scopes with
  | nil => simp at h
  | cons scope rest ih =>
    by_cases hscope : scope.contains written = true
    · by_cases hname : name = written
      · simp [overwriteIn, lookupIn, hscope, hname]
      · simp [overwriteIn, lookupIn, hscope, hname, Table.get?_insert]
    · have hnone : scope.get? written = none := by simpa [Table.contains] using hscope
      have hrest : rest.any (·.contains written) = true := by simpa [hscope] using h
      have htail := ih hrest
      by_cases hname : name = written
      · subst hname
        simpa [overwriteIn, lookupIn, hscope, hnone] using htail
      · simp [overwriteIn, lookupIn, hscope, hname, htail]

/-- Erasing a name from all scopes takes away its value and no other. -/
theorem lookupIn_erase (name erased : Name) (scopes : List Scope) :
    lookupIn name (scopes.map (·.erase erased)) =
      if name = erased then none else lookupIn name scopes := by
  induction scopes with
  | nil => simp [lookupIn]
  | cons scope rest ih =>
    by_cases hname : name = erased
    · subst hname
      simpa [lookupIn] using ih
    · simp [lookupIn, Table.get?_erase, hname, ih]

/-- Opening a scope changes no visible value. -/
@[simp] theorem lookup_push (env : Env) (name : Name) : env.push.lookup name = env.lookup name := by
  simp [lookup, scopes, push, lookupIn]

/-- A definition is what a look-up finds. -/
theorem lookup_define (env : Env) (name defined : Name) (value : Literal) :
    (env.define defined value).lookup name =
      if name = defined then some value else env.lookup name := by
  unfold define lookup scopes
  cases hinner : env.inner with
  | nil => by_cases hname : name = defined <;> simp [lookupIn, Table.get?_insert, hname]
  | cons scope rest => by_cases hname : name = defined <;> simp [lookupIn, Table.get?_insert, hname]

/-- An assigned value is what a look-up finds, wherever the binding is. -/
theorem lookup_assign (env : Env) (name assigned : Name) (value : Literal) :
    (env.assign assigned value).lookup name =
      if name = assigned then some value else env.lookup name := by
  unfold assign
  split
  · next hinner =>
    simp only [lookup, scopes, lookupIn_append, lookupIn_overwriteIn name assigned value hinner]
    by_cases hname : name = assigned <;> simp [hname]
  · next hinner =>
    split
    · next hbase =>
      have hnone : lookupIn assigned env.inner = none :=
        lookupIn_eq_none_iff.2 (by simpa using hinner)
      simp only [lookup, scopes, lookupIn_append]
      by_cases hname : name = assigned
      · simp [hname, hnone, lookupIn]
      · simp [hname, lookupIn, Table.get?_insert]
    · exact lookup_define env name assigned value

/-- A forgotten name has no value, and no other name is touched. -/
theorem lookup_forget (env : Env) (name forgotten : Name) :
    (env.forget forgotten).lookup name =
      if name = forgotten then none else env.lookup name := by
  have h : (env.forget forgotten).scopes = env.scopes.map (·.erase forgotten) := by
    simp [scopes, forget]
  rw [lookup, h, lookupIn_erase]
  rfl

/-- One change of an environment. -/
inductive Step where
  | push
  | pop
  | define (name : Name) (value : Literal)
  | assign (name : Name) (value : Literal)
  | forget (name : Name)
  deriving DecidableEq, Repr

/-- Carry out one change. -/
def step (env : Env) : Step → Env
  | .push => env.push
  | .pop => env.pop
  | .define name value => env.define name value
  | .assign name value => env.assign name value
  | .forget name => env.forget name

/-- Carry out changes in order. -/
def run (env : Env) (steps : List Step) : Env := steps.foldl step env

end Env

end ConstFold
