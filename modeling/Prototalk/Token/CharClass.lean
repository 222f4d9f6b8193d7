/-
  Prototalk.Token.CharClass
  ────────────────────────────────
  **CLASSES OF CHARACTERS.**

  Which characters form words, operators and numbers, and which are skipped.
  Every character outside ASCII belongs to words.
-/

namespace Prototalk

namespace Lexer

/-- Characters that form operators. -/
def operatorChars : List Char :=
  ['!', '$', '%', '&', '\'', '*', '+', '-', '/', ':', '<', '=', '>', '?', '@', '\\', '^', '|', '~']

/-- Blanks that stand between tokens and mean nothing. -/
def spaceChars : List Char := [' ', '\r', '\x0c', '\t', '\x0b']

/-- Whether the character belongs to an operator. -/
def isOperator (c : Char) : Bool := operatorChars.contains c

/-- Whether the character is skipped between tokens. -/
def isSpace (c : Char) : Bool := spaceChars.contains c

/-- Whether the character lies outside ASCII. -/
def isForeign (c : Char) : Bool := decide (0x80 ≤ c.toNat)

/-- Whether a word may start with the character; a point may start one too. -/
def isWordStart (c : Char) : Bool := c.isAlpha || c == '_' || isForeign c

/-- Whether a word may go on with the character. -/
def isWordChar (c : Char) : Bool := c.isAlphanum || c == '_' || c == '.' || isForeign c

theorem isWordChar_of_isWordStart {c : Char} (h : isWordStart c = true) : isWordChar c = true := by
  simp only [isWordStart, isWordChar, Char.isAlphanum, Bool.or_eq_true] at h ⊢
  rcases h with (hletter | hdash) | hforeign
  · exact .inl (.inl (.inl (.inl hletter)))
  · exact .inl (.inl (.inr hdash))
  · exact .inr hforeign

/-- Whether the character is a hexadecimal digit. -/
def isHexDigit (c : Char) : Bool :=
  c.isDigit || ('a' ≤ c && c ≤ 'f') || ('A' ≤ c && c ≤ 'F')

end Lexer

end Prototalk
