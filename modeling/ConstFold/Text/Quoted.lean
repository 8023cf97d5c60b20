import ConstFold.Text.Unprintable

/-!
# Quoted text

A text is quoted by enclosing it in double quotes. The quote itself, the backslash and four control
characters have short escapes, every other character without a visible form is written by its code
point in lower-case hexadecimal, and all else stands for itself.
-/

set_option autoImplicit false

namespace ConstFold.Text

/-- The letter of the short escape of a character, when it has one. -/
def shortEscape? : Char → Option Char
  | '\x00' => some '0'
  | '\t' => some 't'
  | '\r' => some 'r'
  | '\n' => some 'n'
  | '\\' => some '\\'
  | '\"' => some '\"'
  | _ => none

/-- The escape of a character by its code point. -/
def codeEscape (c : Char) : List Char :=
  ['\\', 'u', '\x7b'] ++ Nat.toDigits 16 c.toNat ++ ['\x7d']

/-- What a quoted text writes for one character. -/
def quoteChar (c : Char) : List Char :=
  match shortEscape? c with
  | some letter => ['\\', letter]
  | none => if isUnprintable c then codeEscape c else [c]

/-- A text between double quotes, with escapes where a character cannot stand for itself. -/
def quoted (text : String) : String :=
  String.ofList (['\"'] ++ text.toList.flatMap quoteChar ++ ['\"'])

end ConstFold.Text
