/-!
# Sixteen-bit units of a text

A character below U+10000 is one unit; any other is a pair of surrogates. Texts are measured and
ordered by their units, so a character beyond the basic plane counts twice and comes before the
characters from U+E000 to U+FFFF.
-/

set_option autoImplicit false

namespace ConstFold.Text

/-- The sixteen-bit units of one character. -/
def charUnits (c : Char) : List Nat :=
  if c.toNat < 0x10000 then [c.toNat]
  else [0xD800 + (c.toNat - 0x10000) / 0x400, 0xDC00 + (c.toNat - 0x10000) % 0x400]

/-- The sixteen-bit units of a text, in order. -/
def units (text : String) : List Nat :=
  text.toList.flatMap charUnits

/-- How many sixteen-bit units a text has. -/
def unitCount (text : String) : Nat :=
  (units text).length

/-- The lexicographic order of texts by their units. -/
def compareUnits (left right : String) : Ordering :=
  compare (units left) (units right)

/-- Joining texts joins their units. -/
@[simp] theorem units_append (left right : String) :
    units (left ++ right) = units left ++ units right := by
  simp [units]

/-- Joining texts adds their unit counts. -/
@[simp] theorem unitCount_append (left right : String) :
    unitCount (left ++ right) = unitCount left + unitCount right := by
  simp [unitCount]

end ConstFold.Text
