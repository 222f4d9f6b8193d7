/-
  Prototalk.Text.Visible
  ────────────────────────────────
  **TEXTS WITH EVERYTHING INVISIBLE SPELLED OUT.**

  The form in which error messages and token listings show a character or a
  string: between quotes, with `\0 \t \r \n \\` and the quote itself behind a
  backslash, and every other character that would not show by itself as
  `\u{…}` with its code point in lower-case hexadecimal digits.
-/
import Prototalk.Text.Unprintable

namespace Prototalk.Visible

/-- A number in hexadecimal digits, lower case, without leading zeros. -/
def hex (n : Nat) : List Char := Nat.toDigits 16 n

/-- One character between quotes of kind `quote`. -/
def escape (quote c : Char) : List Char :=
  if c == quote || c == '\\' then ['\\', c]
  else if c.toNat == 0 then ['\\', '0']
  else if c == '\t' then ['\\', 't']
  else if c == '\r' then ['\\', 'r']
  else if c == '\n' then ['\\', 'n']
  else if Unprintable.isUnprintable c then ['\\', 'u', '{'] ++ hex c.toNat ++ ['}']
  else [c]

/-- A character between single quotes. -/
def char (c : Char) : String := String.ofList ('\'' :: (escape '\'' c ++ ['\'']))

/-- A string between double quotes. -/
def string (s : String) : String :=
  String.ofList ('"' :: (s.toList.flatMap (escape '"') ++ ['"']))

end Prototalk.Visible
