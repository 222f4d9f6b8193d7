/-
  Prototalk.Text.Quoted
  ────────────────────────────────
  **STRING LITERALS.**

  A string literal is a text between double quotes in which a backslash
  starts an escape:

      \a \b \f \n \r \t \v \\ \"     one character each
      \xHH \uHHHH \UHHHHHHHH         a code point, in exactly so many places
      \ooo                           a code point below 256, in three octal digits

  The places after `\x`, `\u` and `\U` are read as an unsigned integer, which
  may carry a plus sign in its first place.

  `encode` writes a text as a literal, `decode` reads the inside of one; a
  text that is not well formed is refused with the escape that spoils it.
-/
import Prototalk.Number.Radix

namespace Prototalk.Quoted

/-! ## §1. Writing. -/

/-- A digit of a hexadecimal number. -/
def hexDigit (n : Nat) : Char := Nat.digitChar n

/-- One character inside a literal: quotes, backslashes and control characters are escaped. -/
def escape (c : Char) : List Char :=
  if c == '"' then ['\\', '"']
  else if c == '\\' then ['\\', '\\']
  else if c == '\n' then ['\\', 'n']
  else if c == '\t' then ['\\', 't']
  else if c == '\r' then ['\\', 'r']
  else if c.toNat < 0x20 || c.toNat == 0x7f then
    ['\\', 'x', hexDigit (c.toNat / 16), hexDigit (c.toNat % 16)]
  else [c]

/-- A text as a string literal. -/
def encode (text : List Char) : List Char := '"' :: (text.flatMap escape ++ ['"'])

/-! ## §2. Reading. -/

/-- The character with this code point, if there is one. -/
def scalar? (n : Nat) : Option Char := if h : n.isValidChar then some (Char.ofNatAux n h) else none

/-- The character that a one-letter escape stands for. -/
def letter? : Char → Option Char
  | 'a' => some '\x07'
  | 'b' => some '\x08'
  | 'f' => some '\x0c'
  | 'n' => some '\n'
  | 'r' => some '\r'
  | 't' => some '\t'
  | 'v' => some '\x0b'
  | '\\' => some '\\'
  | '"' => some '"'
  | _ => none

/-- Number of places that follow a code point escape of this letter. -/
def places? : Char → Option Nat
  | 'x' => some 2
  | 'u' => some 4
  | 'U' => some 8
  | _ => none

/-- Whether the character is one of `0` to `7`. -/
def isOctal (c : Char) : Bool := '0' ≤ c && c ≤ '7'

/-- The character that `places` hexadecimal places name. -/
def codePoint? (places : Nat) (digits : List Char) : Option Char :=
  if digits.length == places then
    match Radix.unsigned 16 32 digits with
    | .ok n => scalar? n
    | .error _ => none
  else none

/-- The character that three octal digits name. -/
def octal? (digits : List Char) : Option Char :=
  if digits.length == 3 && digits.all isOctal then
    match Radix.unsigned 8 32 digits with
    | .ok n => if n ≤ 0xff then scalar? n else none
    | .error _ => none
  else none

/-- The character an escape stands for, given what follows its backslash, and what follows the
escape.  An escape that stands for nothing is reported as it was written. -/
def unescape : List Char → Except (List Char) (Char × List Char)
  | [] => .error ['\\']
  | c :: rest =>
      match letter? c, places? c with
      | some d, _ => .ok (d, rest)
      | none, some n =>
          -- the places are taken first, whatever stands in them
          match codePoint? n (rest.take n) with
          | some d => .ok (d, rest.drop n)
          | none => .error ('\\' :: c :: rest.take n)
      | none, none =>
          if isOctal c then
            match octal? (c :: rest.take 2) with
            | some d => .ok (d, rest.drop 2)
            | none => .error ('\\' :: c :: rest.take 2)
          else .error ['\\', c]

/-- An escape takes characters away. -/
theorem unescape_shorter {text rest : List Char} {c : Char}
    (h : unescape text = .ok (c, rest)) : rest.length < text.length := by
  unfold unescape at h
  split at h
  · cases h
  · split at h
    · cases h
      simp
    · split at h
      · cases h
        simp only [List.length_drop, List.length_cons]
        omega
      · cases h
    · split at h
      · split at h
        · cases h
          simp only [List.length_drop, List.length_cons]
          omega
        · cases h
      · cases h

/-- Read the inside of a literal behind the characters already `read`, last one first. -/
def decodeFrom (text read : List Char) : Except (List Char) (List Char) :=
  match text with
  | [] => .ok read.reverse
  | c :: rest =>
      if c == '\\' then
        match _h : unescape rest with
        | .ok (d, rest') => decodeFrom rest' (d :: read)
        | .error bad => .error bad
      else decodeFrom rest (c :: read)
termination_by text.length
decreasing_by
  · have := unescape_shorter _h
    simp only [List.length_cons]
    omega
  · simp

/-- The text that the inside of a literal writes, or the first escape that is none. -/
def decode (text : List Char) : Except (List Char) (List Char) := decodeFrom text []

/-- What stands between an opening and a closing `mark`, which may not overlap. -/
def inside? (mark text : List Char) : Option (List Char) :=
  if mark.isPrefixOf text then
    let rest := text.drop mark.length
    if mark.isSuffixOf rest then some (rest.take (rest.length - mark.length)) else none
  else none

end Prototalk.Quoted
