/-
  Prototalk.Number.Decimal
  ────────────────────────────────
  **READING DECIMAL NUMBERS.**

  The accepted texts are

      [+-] digits [. digits] [e [+-] digits]

  with a digit before or after the point, and `inf`, `infinity` and `nan` in
  any case, also with a sign.  The value is the number nearest to what the
  digits say.
-/
import Prototalk.Number.Binary64

namespace Prototalk.Decimal

/-- The whole number that a run of digits writes. -/
def value (digits : List Char) : Nat :=
  digits.foldl (fun n c => 10 * n + (c.toNat - '0'.toNat)) 0

/-- Split off a leading sign; `true` for minus. -/
def sign : List Char → Bool × List Char
  | '-' :: rest => (true, rest)
  | '+' :: rest => (false, rest)
  | rest => (false, rest)

/-- What an exponent marker and its digits say: the whole rest must be an exponent. -/
def exponent? : List Char → Option Int
  | [] => some 0
  | c :: rest =>
      if c == 'e' || c == 'E' then
        let (negative, digits) := sign rest
        if !digits.isEmpty && digits.all Char.isDigit then
          some (if negative then -(value digits : Int) else value digits)
        else none
      else none

/-- A fraction after a whole part: the digits behind the point, and the rest. -/
def fraction : List Char → List Char × List Char
  | '.' :: rest => rest.span Char.isDigit
  | rest => ([], rest)

/-- The digits of the number without its point, and the power of ten that they count. -/
def parts? (text : List Char) : Option (List Char × Int) :=
  let (whole, rest) := text.span Char.isDigit
  let (frac, rest) := fraction rest
  let digits := whole ++ frac
  if digits.isEmpty then none
  else (exponent? rest).map fun e => (digits, e - frac.length)

/-- The values that have a word for a name. -/
def named? (text : List Char) : Option Binary64 :=
  let word := text.map Char.toLower
  if word == ['i', 'n', 'f'] || word == ['i', 'n', 'f', 'i', 'n', 'i', 't', 'y'] then
    some .infinity
  else if word == ['n', 'a', 'n'] then some .nan
  else none

/-- The number without a sign. -/
def unsigned? (text : List Char) : Option Binary64 :=
  match parts? text with
  | some (digits, e) => some (.ofDecimal (value digits) e)
  | none => named? text

/-- The number that a text writes, if it writes one. -/
def read? (text : List Char) : Option Binary64 :=
  let (negative, body) := sign text
  (unsigned? body).map fun x => if negative then x.negate else x

end Prototalk.Decimal
