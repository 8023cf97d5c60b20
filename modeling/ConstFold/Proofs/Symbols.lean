import ConstFold.Symbol
import Mathlib.Data.Set.Card

/-!
# Consistent symbol tables

A symbol table keeps its texts twice: by number, and with the name of each. The tables that come
about by interning keep the two in step (`SymbolTable.Reachable.consistent`), so a text has one name
and a name one text. Interning only ever adds: names keep their texts.
-/

set_option autoImplicit false

namespace ConstFold

namespace SymbolTable

/-- The tables that come about by interning texts one after the other. -/
inductive Reachable : SymbolTable → Prop where
  | initial : Reachable initial
  | intern {symbols symbols' : SymbolTable} {text : String} {name : Name} : Reachable symbols →
      symbols.intern text = .ok (name, symbols') → Reachable symbols'

/-- Intern a text, if there is room for it. -/
def including (symbols : SymbolTable) (text : String) : SymbolTable :=
  match symbols.intern text with
  | .ok (_, symbols') => symbols'
  | .error _ => symbols

/-- The table that comes about by interning texts one after the other. -/
def ofTexts (texts : List String) : SymbolTable := texts.foldl including initial

/-- `name` was issued for `text`. -/
def Names (symbols : SymbolTable) (text : String) (name : Name) : Prop :=
  symbols.texts[name.index]? = some text

/-- The name found for a text is the one issued for it. -/
def Consistent (symbols : SymbolTable) : Prop :=
  ∀ text name, symbols.get? text = some name ↔ symbols.Names text name

variable {symbols symbols' : SymbolTable} {text : String} {name : Name}

/-- The name of a text reads as the text. -/
theorem Names.text_eq (h : symbols.Names text name) : symbols.text name = text := by
  unfold Names at h
  simp [SymbolTable.text, h]

/-- A name was issued for one text only. -/
theorem Names.unique {text' : String} (h : symbols.Names text name)
    (h' : symbols.Names text' name) : text = text' :=
  Option.some.inj (h.symm.trans h')

/-- In a consistent table a text has one name. -/
theorem Consistent.unique (hsymbols : symbols.Consistent) {name' : Name}
    (h : symbols.Names text name) (h' : symbols.Names text name') : name = name' :=
  Option.some.inj (((hsymbols text name).2 h).symm.trans ((hsymbols text name').2 h'))

/-- At the start only the empty text has a name. -/
theorem names_initial_iff : initial.Names text name ↔ name.index = 0 ∧ text = "" := by
  unfold Names initial
  cases hindex : name.index with
  | zero => simp [eq_comm]
  | succ index => simp

/-- The table is consistent at the start. -/
theorem consistent_initial : initial.Consistent := by
  intro text name
  have hget : initial.get? text = if text = "" then some Name.empty else none :=
    Table.get?_insert _ _ _ _
  rw [hget, names_initial_iff]
  split
  · next htext =>
    simp only [htext, Option.some.injEq, and_true]
    exact ⟨fun h => h ▸ rfl, fun h => by cases name; cases h; rfl⟩
  · next htext => simp [htext]

/-- A table gives a text the name it has, or adds the text at its end. -/
theorem intern_eq_ok (h : symbols.intern text = .ok (name, symbols')) :
    (symbols.get? text = some name ∧ symbols' = symbols) ∨
    (symbols.get? text = none ∧ name = ⟨symbols.size⟩ ∧
      symbols' =
        { texts := symbols.texts.push text, names := symbols.names.insert text name }) := by
  unfold intern at h
  split at h
  · next found hget =>
    cases h
    exact .inl ⟨hget, rfl⟩
  · next hget =>
    split at h
    · cases h
      exact .inr ⟨hget, rfl, rfl⟩
    · cases h

/-- A table refuses a new text only when it is full. -/
theorem intern_eq_error {fault : Fault} (h : symbols.intern text = .error fault) :
    symbols.get? text = none ∧ maxIndex < symbols.size ∧ fault = .symbolsFull symbols.size := by
  unfold intern at h
  split at h
  · cases h
  · next hget =>
    split at h
    · cases h
    · next hsize =>
      cases h
      exact ⟨hget, Nat.lt_of_not_le hsize, rfl⟩

/-- A text that has been interned keeps its name when it is interned again. -/
theorem intern_again (h : symbols.intern text = .ok (name, symbols')) :
    symbols'.intern text = .ok (name, symbols') := by
  have hget : symbols'.get? text = some name := by
    rcases intern_eq_ok h with ⟨hget, rfl⟩ | ⟨-, -, rfl⟩
    · exact hget
    · exact Table.get?_insert_self _ _ _
  simp only [intern, hget]

/-- Names of the one table are names of the other, which has at most `text` besides. -/
structure Gains (text : String) (before after : SymbolTable) : Prop where
  keeps : ∀ {other : String} {name : Name}, before.Names other name → after.Names other name
  adds : ∀ {other : String} {name : Name}, after.Names other name →
    before.Names other name ∨ other = text

/-- Interning keeps a table consistent and gives the text a name, and no other text. -/
theorem Consistent.intern (hsymbols : symbols.Consistent)
    (h : symbols.intern text = .ok (name, symbols')) :
    symbols'.Consistent ∧ symbols.Gains text symbols' ∧ symbols'.Names text name := by
  rcases intern_eq_ok h with ⟨hget, rfl⟩ | ⟨hget, rfl, rfl⟩
  · exact ⟨hsymbols, ⟨id, .inl⟩, (hsymbols text name).1 hget⟩
  · have hnames : ∀ other (found : Name), SymbolTable.Names
        { texts := symbols.texts.push text, names := symbols.names.insert text ⟨symbols.size⟩ }
          other found ↔
        symbols.Names other found ∨ (found = ⟨symbols.size⟩ ∧ other = text) := by
      intro other found
      cases found with
      | mk index =>
        simp only [SymbolTable.Names, Array.getElem?_push, SymbolTable.size, Name.mk.injEq]
        split
        · next hlast => simp [hlast, eq_comm]
        · next hlast => simp [hlast]
    refine ⟨fun other found => ?_, ⟨fun h => (hnames _ _).2 (.inl h), fun h => ?_⟩,
      (hnames _ _).2 (.inr ⟨rfl, rfl⟩)⟩
    · rw [hnames, ← hsymbols]
      have hinsert : SymbolTable.get?
          { texts := symbols.texts.push text, names := symbols.names.insert text ⟨symbols.size⟩ }
            other = if other = text then some ⟨symbols.size⟩ else symbols.get? other :=
        Table.get?_insert _ _ _ _
      rw [hinsert]
      split
      · next htext =>
        subst htext
        simp [hget, eq_comm]
      · next htext => simp [htext]
    · exact ((hnames _ _).1 h).imp_right And.right

/-- A table that comes about by interning does so with one text more. -/
theorem Reachable.including (h : symbols.Reachable) (text : String) :
    (symbols.including text).Reachable := by
  unfold SymbolTable.including
  split
  · next hintern => exact .intern h hintern
  · exact h

/-- Texts can be interned one after the other. -/
theorem reachable_ofTexts (texts : List String) : (ofTexts texts).Reachable :=
  List.foldlRecOn texts SymbolTable.including .initial fun _ h text _ => h.including text

/-- In a table that comes about by interning, numbers and texts are in step. -/
theorem Reachable.consistent (h : symbols.Reachable) : symbols.Consistent := by
  induction h with
  | initial => exact consistent_initial
  | intern _ hintern ih => exact (ih.intern hintern).1

/-- A consistent table has no more texts than the vocabulary they come from. -/
theorem Consistent.size_le_encard (hsymbols : symbols.Consistent) {vocabulary : Set String}
    (h : ∀ text name, symbols.Names text name → text ∈ vocabulary) :
    (symbols.size : ℕ∞) ≤ vocabulary.encard := by
  have hinjective : Function.Injective fun index : Fin symbols.size => symbols.texts[index] := by
    intro left right heq
    have hleft : symbols.Names symbols.texts[left] ⟨left⟩ := Array.getElem?_eq_getElem left.2
    have hright : symbols.Names symbols.texts[left] ⟨right⟩ := by
      rw [show symbols.texts[left] = symbols.texts[right] from heq]
      exact Array.getElem?_eq_getElem right.2
    have hname := hsymbols.unique hleft hright
    exact Fin.ext (Name.mk.inj hname)
  have hrange : Set.range (fun index : Fin symbols.size => symbols.texts[index]) ⊆ vocabulary := by
    rintro text ⟨index, rfl⟩
    exact h _ ⟨index⟩ (Array.getElem?_eq_getElem index.2)
  have hcard := Set.encard_le_encard hrange
  rw [← Set.image_univ, hinjective.encard_image, Set.encard_univ] at hcard
  simpa using hcard

end SymbolTable

end ConstFold
