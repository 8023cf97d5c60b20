/-!
# Finite maps

A finite map as a list of entries with at most one entry per key. `get?` is the meaning of a map:
every operation is described by what it does to it (`get?_insert`, `get?_erase`).
-/

set_option autoImplicit false

namespace ConstFold

/-- A finite map from keys to values. -/
structure Table (κ α : Type) where
  entries : List (κ × α)
  deriving DecidableEq, Repr

namespace Table

variable {κ α : Type}

/-- The map without entries. -/
def empty : Table κ α := ⟨[]⟩

instance : Inhabited (Table κ α) := ⟨empty⟩

/-- How many keys a map has. -/
def size (table : Table κ α) : Nat := table.entries.length

variable [DecidableEq κ]

/-- The value of a key in a list of entries: the first entry decides. -/
def find? (key : κ) : List (κ × α) → Option α
  | [] => none
  | (k, value) :: rest => if k = key then some value else find? key rest

/-- The value of a key. -/
def get? (table : Table κ α) (key : κ) : Option α := find? key table.entries

/-- Whether a key has a value. -/
def contains (table : Table κ α) (key : κ) : Bool := (table.get? key).isSome

/-- Remove a key. -/
def erase (table : Table κ α) (key : κ) : Table κ α :=
  ⟨table.entries.filter fun entry => entry.1 ≠ key⟩

/-- Give a key a value, in place of the one it had. -/
def insert (table : Table κ α) (key : κ) (value : α) : Table κ α :=
  ⟨(key, value) :: (table.erase key).entries⟩

/-- The keys that have a value. -/
def keys (table : Table κ α) : List κ := table.entries.map Prod.fst

/-- The map of a list of pairs, in which a later pair replaces an earlier one. -/
def ofList (pairs : List (κ × α)) : Table κ α :=
  pairs.foldl (fun table pair => table.insert pair.1 pair.2) empty

/-- The empty map has no values. -/
@[simp] theorem get?_empty (key : κ) : (empty : Table κ α).get? key = none := rfl

/-- Dropping the entries of one key leaves the values of the other keys alone. -/
theorem find?_filter_ne (key erased : κ) (entries : List (κ × α)) :
    find? key (entries.filter fun entry => entry.1 ≠ erased) =
      if key = erased then none else find? key entries := by
  induction entries with
  | nil => simp [find?]
  | cons entry rest ih =>
    obtain ⟨k, value⟩ := entry
    by_cases hk : k = erased
    · by_cases hkey : key = erased
      · simp_all
      · have : k ≠ key := fun h => hkey (h ▸ hk)
        simp_all [find?]
    · by_cases hkey : key = erased
      · have : k ≠ key := fun h => hk (h ▸ hkey)
        simp_all [find?]
      · simp_all [find?]

/-- Erasing a key takes away its value and no other. -/
theorem get?_erase (table : Table κ α) (key erased : κ) :
    (table.erase erased).get? key = if key = erased then none else table.get? key :=
  find?_filter_ne key erased table.entries

/-- Inserting a key gives it the new value and changes no other. -/
theorem get?_insert (table : Table κ α) (key inserted : κ) (value : α) :
    (table.insert inserted value).get? key =
      if key = inserted then some value else table.get? key := by
  have h := table.get?_erase key inserted
  by_cases hk : key = inserted
  · simp [insert, get?, find?, hk]
  · have : inserted ≠ key := fun e => hk e.symm
    simp_all [insert, get?, find?]

/-- An erased key has no value. -/
@[simp] theorem get?_erase_self (table : Table κ α) (key : κ) :
    (table.erase key).get? key = none := by
  simp [get?_erase]

/-- An inserted key has the value it was inserted with. -/
@[simp] theorem get?_insert_self (table : Table κ α) (key : κ) (value : α) :
    (table.insert key value).get? key = some value := by
  simp [get?_insert]

/-- A key with a value is among the keys of the entries. -/
theorem mem_of_find?_eq_some {key : κ} {value : α} {entries : List (κ × α)}
    (h : find? key entries = some value) : key ∈ entries.map Prod.fst := by
  induction entries with
  | nil => simp [find?] at h
  | cons entry rest ih =>
    obtain ⟨k, v⟩ := entry
    by_cases hk : k = key
    · simp [hk]
    · have : key ∈ rest.map Prod.fst := ih (by simpa [find?, hk] using h)
      exact List.mem_cons_of_mem _ this

/-- A key with an entry has a value, be it that of an earlier entry. -/
theorem exists_find?_of_mem {key : κ} {entry : κ × α} {entries : List (κ × α)}
    (h : entry ∈ entries) (hkey : entry.1 = key) : ∃ value, find? key entries = some value := by
  induction entries with
  | nil => cases h
  | cons first rest ih =>
    obtain ⟨k, v⟩ := first
    by_cases hk : k = key
    · exact ⟨v, by simp [find?, hk]⟩
    · rcases List.mem_cons.1 h with rfl | hrest
      · exact absurd hkey hk
      · obtain ⟨value, hvalue⟩ := ih hrest
        exact ⟨value, by simpa [find?, hk] using hvalue⟩

/-- Exactly the keys that have a value are listed. -/
theorem mem_keys_iff {table : Table κ α} {key : κ} :
    key ∈ table.keys ↔ ∃ value, table.get? key = some value := by
  refine ⟨fun h => ?_, fun ⟨_, h⟩ => mem_of_find?_eq_some h⟩
  obtain ⟨entry, hentry, hkey⟩ := List.mem_map.1 h
  exact exists_find?_of_mem hentry hkey

end Table

end ConstFold
