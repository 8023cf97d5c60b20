import ConstFold.Proofs.Runs
import ConstFold.Proofs.Symbols
import ConstFold.Symbol.Pool
import Mathlib.Data.Finset.Card
import Mathlib.Data.List.Nodup

/-!
# Names that are shared through handles

Any number of handles lead to any number of symbol tables. Whatever is opened, shared, interned and
looked up, in whatever order, each table is determined by the texts that were interned through its
own handles: it lists them in the order in which they first came, after the empty text, and the name
of a text is its place in this list (`SymbolTable.Lists`). So a name keeps its text for ever, a text
its name, and handles of different tables do not meet.

What one step can do is said once (`SymbolPool.Moves`). The main statement,
`SymbolPool.lawful_after_steps`, says of every run of steps what its tables are and what any next
step gives. A step that fails changes nothing, and interning fails only for a new text in a full
table.
-/

set_option autoImplicit false

namespace ConstFold

/-! ## Tables and the texts interned in them -/

namespace SymbolTable

/-- A table that keeps in step with itself and lists the texts that were interned in it, each once,
in the order in which they first came. -/
structure Lists (symbols : SymbolTable) (interned : List String) : Prop where
  /-- No text is listed twice. -/
  nodup : symbols.texts.toList.Nodup
  /-- The empty text comes first. -/
  first : symbols.texts[0]? = some ""
  /-- The name found for a text is its place in the list, and nothing else is found. -/
  inverse : ∀ text name, symbols.get? text = some name ↔ symbols.texts[name.index]? = some text
  /-- New texts are listed one behind the other. -/
  order : symbols.texts.toList = ("" :: interned).eraseDups
  /-- The empty text counts once, whether it was interned or not. -/
  size_eq : symbols.size = 1 + (interned.toFinset.erase "").card
  /-- A number that was not issued stands for the empty text. -/
  unissued : ∀ name : Name, symbols.size ≤ name.index → symbols.text name = ""

variable {symbols symbols' : SymbolTable} {interned : List String} {text : String} {name : Name}

/-- A further text is listed last if it is new. -/
theorem eraseDups_concat (texts : List String) (text : String) :
    (texts ++ [text]).eraseDups =
      if text ∈ texts then texts.eraseDups else texts.eraseDups ++ [text] := by
  rw [List.eraseDups_append]
  split
  · next hmem => simp [List.removeAll, hmem]
  · next hmem => simp [List.removeAll, hmem, List.eraseDups_cons]

/-- The texts of a table are those with a name. -/
theorem mem_texts_iff : text ∈ symbols.texts.toList ↔ ∃ name, symbols.Names text name := by
  rw [List.mem_iff_getElem?]
  constructor
  · rintro ⟨index, hindex⟩
    exact ⟨⟨index⟩, by simpa [Names] using hindex⟩
  · rintro ⟨name, hname⟩
    exact ⟨name.index, by simpa [Names] using hname⟩

/-- A consistent table lists no text twice. -/
theorem Consistent.nodup (h : symbols.Consistent) : symbols.texts.toList.Nodup := by
  rw [List.nodup_iff_getElem?_ne_getElem?]
  intro first second hlt hsecond heq
  obtain ⟨text, htext⟩ : ∃ text, symbols.texts.toList[second]? = some text :=
    ⟨_, List.getElem?_eq_getElem hsecond⟩
  have hfirst : symbols.Names text ⟨first⟩ := by
    simpa [Names] using heq.trans htext
  have hsecond : symbols.Names text ⟨second⟩ := by
    simpa [Names] using htext
  have hname := Name.mk.inj (h.unique hfirst hsecond)
  omega

/-- A consistent table whose texts are in the order in which they first came lists them. -/
theorem Consistent.lists (h : symbols.Consistent)
    (horder : symbols.texts.toList = ("" :: interned).eraseDups) : symbols.Lists interned where
  nodup := h.nodup
  first := by
    rw [List.eraseDups_cons] at horder
    rw [← Array.getElem?_toList, horder]
    rfl
  inverse := h
  order := horder
  size_eq := by
    have hset : symbols.texts.toList.toFinset = insert "" (interned.toFinset.erase "") := by
      ext text
      by_cases htext : text = "" <;> simp [horder, htext]
    have hcard := List.toFinset_card_of_nodup h.nodup
    rw [hset, Finset.card_insert_of_notMem (Finset.notMem_erase _ _)] at hcard
    rw [size, ← Array.length_toList, ← hcard, Nat.add_comm]
  unissued name hname := by
    have hnone : symbols.texts[name.index]? = none := Array.getElem?_eq_none hname
    rw [SymbolTable.text, hnone]
    rfl

/-- Interning a text adds it to the texts that were interned. -/
theorem Consistent.order_intern (h : symbols.Consistent)
    (horder : symbols.texts.toList = ("" :: interned).eraseDups)
    (hintern : symbols.intern text = .ok (name, symbols')) :
    symbols'.texts.toList = ("" :: (interned ++ [text])).eraseDups := by
  have hmem : text ∈ "" :: interned ↔ ∃ name, symbols.get? text = some name := by
    rw [← List.mem_eraseDups, ← horder, mem_texts_iff]
    exact exists_congr fun name => (h text name).symm
  rw [← List.cons_append, eraseDups_concat]
  rcases intern_eq_ok hintern with ⟨hget, rfl⟩ | ⟨hget, rfl, rfl⟩
  · rw [if_pos (hmem.2 ⟨name, hget⟩), horder]
  · have hnew : ¬ text ∈ "" :: interned := by
      rw [hmem, hget]
      exact fun ⟨_, hname⟩ => nomatch hname
    rw [if_neg hnew, ← horder]
    exact Array.toList_push

end SymbolTable

namespace SymbolPool

/-- What was asked of a pool and answered, oldest first. -/
abbrev History := List (Step × Except Fault Answer)

/-- Carry out one step. A step that fails changes nothing. -/
def attempt (pool : SymbolPool) (step : Step) : Except Fault Answer × SymbolPool :=
  match pool.step step with
  | .ok (answer, next) => (.ok answer, next)
  | .error fault => (.error fault, pool)

/-- The text that a step interned through a handle of a table and the name it was given, if it
did. -/
def grant? (handles : Array Nat) (number : Nat) :
    Step × Except Fault Answer → Option (String × Name)
  | (.intern handle text, .ok (.name name)) =>
    if handles[handle]? = some number then some (text, name) else none
  | (_, .ok _) => none
  | (_, .error _) => none

/-- The texts that were interned through the handles of a table, with the names they were given,
oldest first. -/
def grants (pool : SymbolPool) (history : History) (number : Nat) : List (String × Name) :=
  history.filterMap (grant? pool.handles number)

/-- What a handle of a table gives next. -/
structure Serves (history : History) (pool : SymbolPool) (number : Nat) (symbols : SymbolTable)
    (handle : Nat) : Prop where
  /-- A text that was interned through any handle of the table has the name it was given, and the
  name the text. Interning it again changes nothing. -/
  keeps : ∀ text name, (text, name) ∈ pool.grants history number →
    pool.step (.intern handle text) = .ok (.name name, pool) ∧
    pool.step (.text handle name) = .ok (.text text, pool)
  /-- A text has a name exactly if it is empty or was interned, and it is the name it was given. -/
  finds : ∀ text, ∃ found, pool.step (.get handle text) = .ok (.name? found, pool) ∧
    ∀ name, found = some name ↔
      (text = "" ∧ name = Name.empty) ∨ (text, name) ∈ pool.grants history number
  /-- The next number is issued for a text without a name, unless the table is full. -/
  issues : ∀ text, pool.step (.get handle text) = .ok (.name? none, pool) →
    (symbols.size ≤ SymbolTable.maxIndex →
      ∃ next, pool.step (.intern handle text) = .ok (.name ⟨symbols.size⟩, next)) ∧
    (SymbolTable.maxIndex < symbols.size →
      pool.step (.intern handle text) = .error (.symbolsFull symbols.size))
  /-- A number that was not issued stands for the empty text. -/
  blank : ∀ name : Name, symbols.size ≤ name.index →
    pool.step (.text handle name) = .ok (.text "", pool)

/-- What a pool is after a history of steps, and what it does next. -/
structure Lawful (history : History) (pool : SymbolPool) : Prop where
  /-- Every table lists the texts that were interned through its handles. -/
  lists : ∀ number (symbols : SymbolTable), pool.tables[number]? = some symbols →
    symbols.Lists ((pool.grants history number).map Prod.fst)
  /-- Every handle leads to a table. -/
  leads : ∀ handle < pool.handles.size, ∃ number symbols, pool.handles[handle]? = some number ∧
    pool.tables[number]? = some symbols ∧ Serves history pool number symbols handle
  /-- In one table, names differ exactly if their texts do. -/
  injective : ∀ number, ∀ first ∈ pool.grants history number,
    ∀ second ∈ pool.grants history number, first.2 = second.2 ↔ first.1 = second.1
  /-- A new handle leads to an initial table of its own. -/
  opens : ∃ next, pool.step .fresh = .ok (.handle pool.handles.size, next) ∧
    next.handles[pool.handles.size]? = some pool.tables.size ∧
    next.tables[pool.tables.size]? = some SymbolTable.initial
  /-- A shared handle leads to the same table. -/
  shares : ∀ handle < pool.handles.size, ∃ next,
    pool.step (.share handle) = .ok (.handle pool.handles.size, next) ∧
    next.handles[pool.handles.size]? = pool.handles[handle]?
  /-- No step changes where a handle leads, or any table but the one it interns a text in. -/
  apart : ∀ step,
    (∀ handle < pool.handles.size,
      (pool.attempt step).2.handles[handle]? = pool.handles[handle]?) ∧
    ∀ number < pool.tables.size,
      (∀ handle text, step = .intern handle text → pool.handles[handle]? ≠ some number) →
      (pool.attempt step).2.tables[number]? = pool.tables[number]?

/-! ## What one step does -/

variable {pool : SymbolPool} {history : History} {handle number : Nat} {symbols : SymbolTable}

/-- What a step can do to a pool: open a handle, share one, intern a text in a table, or nothing. -/
inductive Moves (pool : SymbolPool) : Step → Except Fault Answer → SymbolPool → Prop where
  | fresh : Moves pool .fresh (.ok (.handle pool.handles.size))
      { tables := pool.tables.push SymbolTable.initial
        handles := pool.handles.push pool.tables.size }
  | share {handle number : Nat} : pool.handles[handle]? = some number →
      Moves pool (.share handle) (.ok (.handle pool.handles.size))
        { pool with handles := pool.handles.push number }
  | intern {handle number : Nat} {text : String} {name : Name} {symbols symbols' : SymbolTable} :
      pool.handles[handle]? = some number → pool.tables[number]? = some symbols →
      symbols.intern text = .ok (name, symbols') →
      Moves pool (.intern handle text) (.ok (.name name))
        { pool with tables := pool.tables.setIfInBounds number symbols' }
  | still {step : Step} {answer : Except Fault Answer} :
      (∀ handle text name, (step, answer) ≠ (.intern handle text, .ok (.name name))) →
      Moves pool step answer pool

/-- A handle gives access to the table it leads to. -/
theorem access_eq_ok (hhandle : pool.handles[handle]? = some number)
    (htable : pool.tables[number]? = some symbols) :
    pool.access handle = .ok (number, symbols) := by
  rw [access, hhandle]
  simp only [htable]

/-- A table that a handle gives access to is the one it leads to. -/
theorem of_access_eq_ok (h : pool.access handle = .ok (number, symbols)) :
    pool.handles[handle]? = some number ∧ pool.tables[number]? = some symbols := by
  unfold access at h
  split at h
  · next hhandle =>
    split at h
    · next htable =>
      cases h
      exact ⟨hhandle, htable⟩
    · cases h
  · cases h

variable {text : String} {name : Name} {symbols' : SymbolTable}

/-- Interning gives the name of the text and changes the table of the handle. -/
theorem step_intern_of_ok (haccess : pool.access handle = .ok (number, symbols))
    (hintern : symbols.intern text = .ok (name, symbols')) :
    pool.step (.intern handle text) =
      .ok (.name name, { pool with tables := pool.tables.setIfInBounds number symbols' }) := by
  simp only [step, intern, haccess, hintern, bind, Except.bind, pure, Except.pure]

/-- Interning in a full table fails. -/
theorem step_intern_of_error {fault : Fault}
    (haccess : pool.access handle = .ok (number, symbols))
    (hintern : symbols.intern text = .error fault) :
    pool.step (.intern handle text) = .error fault := by
  simp only [step, intern, haccess, hintern, bind, Except.bind]

/-- Looking a text up gives its name and changes nothing. -/
theorem step_get (haccess : pool.access handle = .ok (number, symbols)) :
    pool.step (.get handle text) = .ok (.name? (symbols.get? text), pool) := by
  simp only [step, haccess, bind, Except.bind, pure, Except.pure]

/-- Reading a name gives its text and changes nothing. -/
theorem step_text (haccess : pool.access handle = .ok (number, symbols)) :
    pool.step (.text handle name) = .ok (.text (symbols.text name), pool) := by
  simp only [step, haccess, bind, Except.bind, pure, Except.pure]

/-- Sharing a handle that is not open fails. -/
theorem step_share_of_none (hhandle : pool.handles[handle]? = none) :
    pool.step (.share handle) = .error .outOfBounds := by
  simp only [step, share, hhandle, bind, Except.bind]

/-- Sharing a handle opens one that leads to the same table. -/
theorem step_share_of_some (hhandle : pool.handles[handle]? = some number) :
    pool.step (.share handle) = .ok (.handle pool.handles.size,
      { pool with handles := pool.handles.push number }) := by
  simp only [step, share, hhandle, bind, Except.bind, pure, Except.pure]

/-- A step that does not fail is carried out. -/
theorem attempt_of_ok {step : Step} {answer : Answer} {next : SymbolPool}
    (h : pool.step step = .ok (answer, next)) : pool.attempt step = (.ok answer, next) := by
  rw [attempt, h]

/-- A step that fails changes nothing. -/
theorem attempt_of_error {step : Step} {fault : Fault} (h : pool.step step = .error fault) :
    pool.attempt step = (.error fault, pool) := by
  rw [attempt, h]

/-- A step that only reads moves nothing. -/
theorem moves_of_reading {step : Step} (answer : SymbolTable → Answer)
    (hstep : pool.step step = do
      let (_, symbols) ← pool.access handle
      return (answer symbols, pool))
    (hreading : ∀ handle text, step ≠ .intern handle text) :
    Moves pool step (pool.attempt step).1 (pool.attempt step).2 := by
  have hstill : (pool.attempt step).2 = pool := by
    cases haccess : pool.access handle with
    | error fault =>
      rw [haccess] at hstep
      rw [attempt_of_error hstep]
    | ok found =>
      rw [haccess] at hstep
      rw [attempt_of_ok hstep]
  rw [hstill]
  exact .still fun handle text _ heq => hreading handle text (congrArg Prod.fst heq)

/-- A step makes one of these moves. -/
theorem moves_attempt (pool : SymbolPool) (step : Step) :
    Moves pool step (pool.attempt step).1 (pool.attempt step).2 := by
  cases step with
  | fresh => exact .fresh
  | share handle =>
    cases hhandle : pool.handles[handle]? with
    | none =>
      rw [attempt_of_error (step_share_of_none hhandle)]
      exact .still nofun
    | some number =>
      rw [attempt_of_ok (step_share_of_some hhandle)]
      exact .share hhandle
  | intern handle text =>
    cases haccess : pool.access handle with
    | error fault =>
      have hstep : pool.step (.intern handle text) = .error fault := by
        simp only [SymbolPool.step, intern, haccess, bind, Except.bind]
      rw [attempt_of_error hstep]
      exact .still nofun
    | ok found =>
      obtain ⟨number, symbols⟩ := found
      obtain ⟨hhandle, htable⟩ := of_access_eq_ok haccess
      cases hintern : symbols.intern text with
      | error fault =>
        rw [attempt_of_error (step_intern_of_error haccess hintern)]
        exact .still nofun
      | ok given =>
        rw [attempt_of_ok (step_intern_of_ok haccess hintern)]
        exact .intern hhandle htable hintern
  | get handle text =>
    exact moves_of_reading (fun symbols => .name? (symbols.get? text)) rfl nofun
  | text handle name =>
    exact moves_of_reading (fun symbols => .text (symbols.text name)) rfl nofun

/-! ## What every step keeps -/

/-- A pool whose handles lead to tables, whose history used its own handles, and whose tables list
what was interned through their handles under the names that were given. -/
structure Sound (history : History) (pool : SymbolPool) : Prop where
  leads : ∀ {handle number : Nat}, pool.handles[handle]? = some number →
    number < pool.tables.size
  used : ∀ {handle : Nat} {text : String} {name : Name},
    (Step.intern handle text, Except.ok (Answer.name name)) ∈ history →
      handle < pool.handles.size
  consistent : ∀ {number : Nat} {symbols : SymbolTable}, pool.tables[number]? = some symbols →
    symbols.Consistent
  order : ∀ {number : Nat} {symbols : SymbolTable}, pool.tables[number]? = some symbols →
    symbols.texts.toList = ("" :: (pool.grants history number).map Prod.fst).eraseDups
  named : ∀ {number : Nat} {symbols : SymbolTable}, pool.tables[number]? = some symbols →
    ∀ grant ∈ pool.grants history number, symbols.Names grant.1 grant.2

/-- A step grants a name in a table if it interned the text through one of the table's handles. -/
theorem grant?_eq_some_iff {handles : Array Nat} {entry : Step × Except Fault Answer}
    {grant : String × Name} :
    grant? handles number entry = some grant ↔
      ∃ handle, handles[handle]? = some number ∧
        entry = (.intern handle grant.1, .ok (.name grant.2)) := by
  constructor
  · intro h
    unfold grant? at h
    split at h
    · next handle text name =>
      split at h
      · next hhandle =>
        cases h
        exact ⟨handle, hhandle, rfl⟩
      · cases h
    · cases h
    · cases h
  · rintro ⟨handle, hhandle, rfl⟩
    exact if_pos hhandle

/-- One more step adds the name it granted. -/
theorem grants_concat (pool : SymbolPool) (history : History) (entry : Step × Except Fault Answer)
    (number : Nat) :
    pool.grants (history ++ [entry]) number =
      pool.grants history number ++ (grant? pool.handles number entry).toList := by
  rw [grants, List.filterMap_append, grants]
  cases hgrant : grant? pool.handles number entry <;> simp [hgrant]

/-- Opening a handle changes no grant of a history that did not use it. -/
theorem Sound.grants_push (h : Sound history pool) {next : SymbolPool} {opened : Nat}
    (hnext : next.handles = pool.handles.push opened) (number : Nat) :
    next.grants history number = pool.grants history number := by
  refine List.filterMap_congr fun entry hentry => Option.ext fun grant => ?_
  rw [hnext, grant?_eq_some_iff, grant?_eq_some_iff]
  refine exists_congr fun handle => and_congr_left fun heq => ?_
  have hlt : handle < pool.handles.size := h.used (heq ▸ hentry)
  rw [Array.getElem?_push, if_neg (Nat.ne_of_lt hlt)]

/-- Nothing was interned in a table that does not exist. -/
theorem Sound.grants_eq_nil (h : Sound history pool) (hnumber : pool.tables.size ≤ number) :
    pool.grants history number = [] := by
  refine List.filterMap_eq_nil_iff.2 fun entry _ => Option.eq_none_iff_forall_ne_some.2 ?_
  intro grant hgrant
  obtain ⟨handle, hhandle, -⟩ := grant?_eq_some_iff.1 hgrant
  exact Nat.not_lt.2 hnumber (h.leads hhandle)

/-- The first table lists the empty text. -/
theorem order_initial : SymbolTable.initial.texts.toList = [""].eraseDups := by
  decide

/-- A pool starts with initial tables only. -/
theorem eq_initial_of_tables (htable : initial.tables[number]? = some symbols) :
    symbols = SymbolTable.initial := by
  rw [initial, Array.getElem?_singleton] at htable
  split at htable
  · cases htable
    rfl
  · cases htable

/-- A pool is sound at the start. -/
theorem sound_initial : Sound [] initial where
  leads {handle number} hhandle := by
    rw [initial, Array.getElem?_singleton] at hhandle
    split at hhandle
    · cases hhandle
      exact Nat.one_pos
    · cases hhandle
  used hmem := by cases hmem
  consistent htable := by
    rw [eq_initial_of_tables htable]
    exact SymbolTable.consistent_initial
  order htable := by
    rw [eq_initial_of_tables htable]
    exact order_initial
  named _ grant hgrant := by cases hgrant

/-- A step that interned nothing and left the tables alone, but for an initial table that it may
have added, keeps a pool sound. It may have opened a handle to any table. -/
theorem Sound.quiet (h : Sound history pool) {next : SymbolPool}
    {entry : Step × Except Fault Answer}
    (hentry : ∀ handle text name, entry ≠ (.intern handle text, .ok (.name name)))
    (hhandles : next.handles = pool.handles ∨
      ∃ opened < next.tables.size, next.handles = pool.handles.push opened)
    (hsize : pool.tables.size ≤ next.tables.size)
    (htables : ∀ number symbols, next.tables[number]? = some symbols →
      pool.tables[number]? = some symbols ∨
        (pool.tables.size ≤ number ∧ symbols = SymbolTable.initial)) :
    Sound (history ++ [entry]) next := by
  have hgrants : ∀ number, next.grants (history ++ [entry]) number = pool.grants history number := by
    intro number
    have hnone : grant? next.handles number entry = none :=
      Option.eq_none_iff_forall_ne_some.2 fun grant hgrant =>
        let ⟨handle, _, heq⟩ := grant?_eq_some_iff.1 hgrant
        hentry handle grant.1 grant.2 heq
    rw [grants_concat, hnone]
    rcases hhandles with hsame | ⟨opened, -, hpush⟩
    · simp [grants, hsame]
    · simp [h.grants_push hpush]
  have hhandlesSize : pool.handles.size ≤ next.handles.size := by
    rcases hhandles with hsame | ⟨opened, -, hpush⟩
    · rw [hsame]
    · rw [hpush, Array.size_push]
      omega
  refine ⟨fun {handle number} hhandle => ?_, fun {handle text name} hmem => ?_,
    fun htable => ?_, fun {number symbols} htable => ?_, fun {number symbols} htable => ?_⟩
  · rcases hhandles with hsame | ⟨opened, hopened, hpush⟩
    · rw [hsame] at hhandle
      exact Nat.lt_of_lt_of_le (h.leads hhandle) hsize
    · rw [hpush, Array.getElem?_push] at hhandle
      split at hhandle
      · cases hhandle
        exact hopened
      · exact Nat.lt_of_lt_of_le (h.leads hhandle) hsize
  · rcases List.mem_append.1 hmem with hold | hnew
    · exact Nat.lt_of_lt_of_le (h.used hold) hhandlesSize
    · exact absurd (List.mem_singleton.1 hnew).symm (hentry handle text name)
  · rcases htables _ _ htable with hold | ⟨-, rfl⟩
    · exact h.consistent hold
    · exact SymbolTable.consistent_initial
  · rw [hgrants]
    rcases htables _ _ htable with hold | ⟨hnumber, rfl⟩
    · exact h.order hold
    · rw [h.grants_eq_nil hnumber]
      exact order_initial
  · rw [hgrants]
    rcases htables _ _ htable with hold | ⟨hnumber, rfl⟩
    · exact h.named hold
    · rw [h.grants_eq_nil hnumber]
      exact fun grant hgrant => nomatch hgrant

/-- Interning a text in a table keeps a pool sound. -/
theorem Sound.intern (h : Sound history pool) (hhandle : pool.handles[handle]? = some number)
    (htable : pool.tables[number]? = some symbols)
    (hintern : symbols.intern text = .ok (name, symbols')) :
    Sound (history ++ [(.intern handle text, .ok (.name name))])
      { pool with tables := pool.tables.setIfInBounds number symbols' } := by
  obtain ⟨next, hnext⟩ : ∃ next, next =
      { pool with tables := pool.tables.setIfInBounds number symbols' } := ⟨_, rfl⟩
  have hhandles : next.handles = pool.handles := by rw [hnext]
  have hconsistent := h.consistent htable
  obtain ⟨hconsistent', hgains, hname⟩ := hconsistent.intern hintern
  -- A table is the one that was changed, with one grant more, or an old one.
  have hcases : ∀ {other : Nat} {found : SymbolTable}, next.tables[other]? = some found →
      (found = symbols' ∧
        next.grants (history ++ [(.intern handle text, .ok (.name name))]) other =
          pool.grants history number ++ [(text, name)]) ∨
      (pool.tables[other]? = some found ∧
        next.grants (history ++ [(.intern handle text, .ok (.name name))]) other =
          pool.grants history other) := by
    intro other found hfound
    rw [hnext, Array.getElem?_setIfInBounds] at hfound
    rw [grants_concat, grants, hhandles, ← grants]
    split at hfound
    · next heq =>
      subst heq
      have hgrant : grant? pool.handles number (.intern handle text, .ok (.name name)) =
          some (text, name) := grant?_eq_some_iff.2 ⟨handle, hhandle, rfl⟩
      split at hfound
      · cases hfound
        exact .inl ⟨rfl, by rw [hgrant]; rfl⟩
      · cases hfound
    · next hne =>
      have hgrant : grant? pool.handles other (.intern handle text, .ok (.name name)) = none := by
        refine if_neg fun hother => hne ?_
        rw [hhandle] at hother
        exact Option.some.inj hother
      exact .inr ⟨hfound, by rw [hgrant]; exact List.append_nil _⟩
  rw [← hnext]
  refine ⟨fun hlead => ?_, fun hmem => ?_, fun hfound => ?_, fun hfound => ?_,
    fun hfound grant hgrant => ?_⟩
  · rw [hhandles] at hlead
    rw [hnext, Array.size_setIfInBounds]
    exact h.leads hlead
  · rw [hhandles]
    rcases List.mem_append.1 hmem with hold | hnew
    · exact h.used hold
    · cases List.mem_singleton.1 hnew
      exact (Array.getElem?_eq_some_iff.1 hhandle).1
  · rcases hcases hfound with ⟨rfl, -⟩ | ⟨hold, -⟩
    · exact hconsistent'
    · exact h.consistent hold
  · rcases hcases hfound with ⟨rfl, hgrants⟩ | ⟨hold, hgrants⟩
    · rw [hgrants, List.map_append]
      exact hconsistent.order_intern (h.order htable) hintern
    · rw [hgrants]
      exact h.order hold
  · rcases hcases hfound with ⟨rfl, hgrants⟩ | ⟨hold, hgrants⟩
    · rw [hgrants, List.mem_append, List.mem_singleton] at hgrant
      rcases hgrant with hold | rfl
      · exact hgains.keeps (h.named htable grant hold)
      · exact hname
    · rw [hgrants] at hgrant
      exact h.named hold grant hgrant

/-- Every step keeps a pool sound. -/
theorem Sound.attempt (h : Sound history pool) (step : Step) :
    Sound (history ++ [(step, (pool.attempt step).1)]) (pool.attempt step).2 := by
  have hmoves := moves_attempt pool step
  generalize (pool.attempt step).1 = answer at hmoves ⊢
  generalize (pool.attempt step).2 = next at hmoves ⊢
  cases hmoves with
  | fresh =>
    refine h.quiet nofun (.inr ⟨_, ?_, rfl⟩) ?_ fun number symbols htable => ?_
    · rw [Array.size_push]
      exact Nat.lt_succ_self _
    · rw [Array.size_push]
      exact Nat.le_succ _
    · rw [Array.getElem?_push] at htable
      split at htable
      · next hlast =>
        cases htable
        exact .inr ⟨Nat.le_of_eq hlast.symm, rfl⟩
      · exact .inl htable
  | share hhandle =>
    exact h.quiet nofun (.inr ⟨_, h.leads hhandle, rfl⟩) (Nat.le_refl _) fun _ _ => .inl
  | intern hhandle htable hintern => exact h.intern hhandle htable hintern
  | still hquiet => exact h.quiet hquiet (.inl rfl) (Nat.le_refl _) fun _ _ => .inl

/-! ## What every sound pool does -/

/-- The names of a table are that of the empty text and those that were given. -/
theorem Sound.get?_eq_some_iff (h : Sound history pool)
    (htable : pool.tables[number]? = some symbols) :
    symbols.get? text = some name ↔
      (text = "" ∧ name = Name.empty) ∨ (text, name) ∈ pool.grants history number := by
  have hconsistent := h.consistent htable
  have hempty : symbols.Names "" Name.empty := (hconsistent.lists (h.order htable)).first
  rw [hconsistent text name]
  constructor
  · intro hname
    have hmem := SymbolTable.mem_texts_iff.2 ⟨name, hname⟩
    rw [h.order htable, List.mem_eraseDups, List.mem_cons, List.mem_map] at hmem
    rcases hmem with rfl | ⟨⟨_, given⟩, hgrant, rfl⟩
    · exact .inl ⟨rfl, hconsistent.unique hname hempty⟩
    · obtain rfl : name = given := hconsistent.unique hname (h.named htable _ hgrant)
      exact .inr hgrant
  · rintro (⟨rfl, rfl⟩ | hgrant)
    · exact hempty
    · exact h.named htable _ hgrant

/-- Writing back the table that stands at a place changes nothing. -/
theorem setIfInBounds_self (htable : pool.tables[number]? = some symbols) :
    pool.tables.setIfInBounds number symbols = pool.tables := by
  refine Array.ext_getElem? fun other => ?_
  rw [Array.getElem?_setIfInBounds]
  split
  · next heq =>
    subst heq
    rw [if_pos (Array.getElem?_eq_some_iff.1 htable).1, htable]
  · rfl

/-- What the handles of a sound pool give next. -/
theorem Sound.serves (h : Sound history pool) (hhandle : pool.handles[handle]? = some number)
    (htable : pool.tables[number]? = some symbols) :
    Serves history pool number symbols handle := by
  have haccess := access_eq_ok hhandle htable
  refine ⟨fun text name hgrant => ?_, fun text => ⟨symbols.get? text, step_get haccess,
    fun name => h.get?_eq_some_iff htable⟩, fun text hnone => ?_, fun name hname => ?_⟩
  · have hintern : symbols.intern text = .ok (name, symbols) := by
      rw [SymbolTable.intern, (h.get?_eq_some_iff htable).2 (.inr hgrant)]
    constructor
    · rw [step_intern_of_ok haccess hintern, setIfInBounds_self htable]
    · rw [step_text haccess, (h.named htable _ hgrant).text_eq]
  · have hget : symbols.get? text = none := by
      rw [step_get haccess] at hnone
      cases hget : symbols.get? text with
      | none => rfl
      | some name =>
        rw [hget] at hnone
        cases hnone
    constructor
    · intro hsize
      exact ⟨_, step_intern_of_ok haccess (by rw [SymbolTable.intern, hget]; exact if_pos hsize)⟩
    · intro hfull
      exact step_intern_of_error haccess
        (by rw [SymbolTable.intern, hget]; exact if_neg (Nat.not_le.2 hfull))
  · rw [step_text haccess, ((h.consistent htable).lists (h.order htable)).unissued name hname]

/-- Two names of one table differ exactly if their texts do. -/
theorem Sound.grant_eq_iff (h : Sound history pool) {first second : String × Name}
    (hfirst : first ∈ pool.grants history number) (hsecond : second ∈ pool.grants history number) :
    first.2 = second.2 ↔ first.1 = second.1 := by
  have hnumber : number < pool.tables.size := by
    refine Nat.lt_of_not_le fun hle => ?_
    rw [h.grants_eq_nil hle] at hfirst
    cases hfirst
  have htable : pool.tables[number]? = some pool.tables[number] :=
    Array.getElem?_eq_getElem hnumber
  have hnamed := h.named htable
  constructor
  · intro heq
    exact (hnamed _ hfirst).unique (heq ▸ hnamed _ hsecond)
  · intro heq
    exact (h.consistent htable).unique (hnamed _ hfirst) (heq ▸ hnamed _ hsecond)

/-- A move leaves alone every table but the one it interns a text in. -/
theorem Moves.getElem?_tables {step : Step} {answer : Except Fault Answer} {next : SymbolPool}
    (hmoves : Moves pool step answer next) (hnumber : number < pool.tables.size)
    (helsewhere : ∀ handle text, step = .intern handle text →
      pool.handles[handle]? ≠ some number) :
    next.tables[number]? = pool.tables[number]? := by
  cases hmoves with
  | fresh => rw [Array.getElem?_push, if_neg (Nat.ne_of_lt hnumber)]
  | share => rfl
  | still => rfl
  | intern hhandle htable hintern =>
    have hne := helsewhere _ _ rfl
    rw [hhandle] at hne
    exact Array.getElem?_setIfInBounds_ne fun heq => hne (congrArg some heq)

/-- A move leaves alone where a handle leads. -/
theorem Moves.getElem?_handles {step : Step} {answer : Except Fault Answer} {next : SymbolPool}
    (hmoves : Moves pool step answer next) (hhandle : handle < pool.handles.size) :
    next.handles[handle]? = pool.handles[handle]? := by
  cases hmoves with
  | fresh => rw [Array.getElem?_push, if_neg (Nat.ne_of_lt hhandle)]
  | share => rw [Array.getElem?_push, if_neg (Nat.ne_of_lt hhandle)]
  | intern => rfl
  | still => rfl

/-- A sound pool is lawful. -/
theorem Sound.lawful (h : Sound history pool) : Lawful history pool where
  lists number symbols htable := (h.consistent htable).lists (h.order htable)
  leads handle hlt := by
    have hhandle : pool.handles[handle]? = some pool.handles[handle] :=
      Array.getElem?_eq_getElem hlt
    have htable := Array.getElem?_eq_getElem (h.leads hhandle)
    exact ⟨_, _, hhandle, htable, h.serves hhandle htable⟩
  injective number first hfirst second hsecond := h.grant_eq_iff hfirst hsecond
  opens := ⟨_, rfl, Array.getElem?_push_size, Array.getElem?_push_size⟩
  shares handle hlt := by
    have hhandle : pool.handles[handle]? = some pool.handles[handle] :=
      Array.getElem?_eq_getElem hlt
    exact ⟨_, step_share_of_some hhandle, by rw [hhandle]; exact Array.getElem?_push_size⟩
  apart step :=
    ⟨fun _ => (moves_attempt pool step).getElem?_handles,
      fun _ => (moves_attempt pool step).getElem?_tables⟩

/-! ## Runs -/

/-- A pool is sound after any steps. -/
theorem sound_after_steps (steps : List Step) :
    Sound (Run.ofInputs attempt initial steps).history
      (Run.ofInputs attempt initial steps).state :=
  Run.ofInputs_induction (motive := Sound) sound_initial (fun _ _ step h => h.attempt step) steps

/-- After any steps, in any order and through any handles, every table lists exactly the texts that
were interned through its handles, in the order in which they first came, and names and texts stay
together for ever. -/
theorem lawful_after_steps (steps : List Step) :
    Lawful (Run.ofInputs attempt initial steps).history
      (Run.ofInputs attempt initial steps).state :=
  (sound_after_steps steps).lawful

end SymbolPool

end ConstFold
