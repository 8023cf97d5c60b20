import ConstFold.Symbol

/-!
# Shared symbol tables

A pool holds symbol tables behind handles. Several handles may lead to one table, and what is
interned through one of them is known through all.
-/

set_option autoImplicit false

namespace ConstFold

/-- Symbol tables, and for every handle the number of its table. -/
structure SymbolPool where
  tables : Array SymbolTable
  handles : Array Nat
  deriving DecidableEq, Repr

namespace SymbolPool

/-- One handle to one initial table. -/
def initial : SymbolPool where
  tables := #[SymbolTable.initial]
  handles := #[0]

instance : Inhabited SymbolPool := ⟨initial⟩

/-- The table behind a handle. -/
def table? (pool : SymbolPool) (handle : Nat) : Option SymbolTable := do
  pool.tables[← pool.handles[handle]?]?

/-- A step on a pool. -/
inductive Step where
  | fresh
  | share (handle : Nat)
  | intern (handle : Nat) (text : String)
  | get (handle : Nat) (text : String)
  | text (handle : Nat) (name : Name)
  deriving DecidableEq, Repr

/-- What a step gives back. -/
inductive Answer where
  | handle (handle : Nat)
  | name (name : Name)
  | name? (name : Option Name)
  | text (text : String)
  deriving DecidableEq, Repr

/-- Open a handle to an initial table of its own. -/
def fresh (pool : SymbolPool) : Nat × SymbolPool :=
  (pool.handles.size, {
    tables := pool.tables.push SymbolTable.initial
    handles := pool.handles.push pool.tables.size })

/-- Open another handle to the table of a handle. -/
def share (pool : SymbolPool) (handle : Nat) : Except Fault (Nat × SymbolPool) :=
  match pool.handles[handle]? with
  | some number => .ok (pool.handles.size, { pool with handles := pool.handles.push number })
  | none => .error .outOfBounds

/-- The table of a handle, with its number. -/
def access (pool : SymbolPool) (handle : Nat) : Except Fault (Nat × SymbolTable) :=
  match pool.handles[handle]? with
  | some number =>
    match pool.tables[number]? with
    | some symbols => .ok (number, symbols)
    | none => .error .outOfBounds
  | none => .error .outOfBounds

/-- Intern a text through a handle. -/
def intern (pool : SymbolPool) (handle : Nat) (text : String) :
    Except Fault (Name × SymbolPool) := do
  let (number, symbols) ← pool.access handle
  let (name, symbols) ← symbols.intern text
  return (name, { pool with tables := pool.tables.setIfInBounds number symbols })

/-- Carry out one step. -/
def step (pool : SymbolPool) : Step → Except Fault (Answer × SymbolPool)
  | .fresh =>
    let (handle, pool) := pool.fresh
    return (.handle handle, pool)
  | .share handle => do
    let (handle, pool) ← pool.share handle
    return (.handle handle, pool)
  | .intern handle text => do
    let (name, pool) ← pool.intern handle text
    return (.name name, pool)
  | .get handle text => do
    let (_, symbols) ← pool.access handle
    return (.name? (symbols.get? text), pool)
  | .text handle name => do
    let (_, symbols) ← pool.access handle
    return (.text (symbols.text name), pool)

end SymbolPool

end ConstFold
