/-
  Prototalk.Number.Shortest
  ────────────────────────────────
  **WRITING NUMBERS IN THE FEWEST DIGITS THAT READ BACK.**

  A finite number is written with the fewest significant digits from which
  the reader (`Binary64.ofDecimal`) recovers it; of several such digit
  strings the nearest one is taken, and of two equally near the larger.  The
  layout is positional: no exponent, no point in a whole number.

  Each candidate is tested with the reader, so a written number reads back
  because it was read back.
-/
import Prototalk.Number.Binary64

namespace Prototalk

/-- The value `digits * 10 ^ exponent`. -/
structure DecimalForm where
  /-- The significant digits as one whole number. -/
  digits : Nat
  /-- The power of ten that the last digit counts. -/
  exponent : Int

namespace DecimalForm

/-- The digits of a whole number, most significant first. -/
def wholeDigits (n : Nat) : List Char := Nat.toDigits 10 n

/-- Positional layout: the digits, with zeros or a point where the exponent asks for them. -/
def positional (d : DecimalForm) : List Char :=
  let ds := wholeDigits d.digits
  match d.exponent with
  | .ofNat e => ds ++ List.replicate e '0'
  | .negSucc e =>
      let places := e + 1
      if places < ds.length then
        ds.take (ds.length - places) ++ '.' :: ds.drop (ds.length - places)
      else '0' :: '.' :: (List.replicate (places - ds.length) '0' ++ ds)

end DecimalForm

namespace Binary64

/-- The value of `x` counted in units of `10 ^ exponent`, as a numerator and a denominator. -/
def inUnitsOf (x : Binary64) : Int → Nat × Nat
  | .ofNat e => (x.scaled, unitsPerOne * Nat.pow 10 e)
  | .negSucc e => (x.scaled * Nat.pow 10 (e + 1), unitsPerOne)

/-- The power of ten that the leading digit of a positive number counts. -/
def leadingExponent (x : Binary64) : Int :=
  ((DecimalForm.wholeDigits (x.scaled * Nat.pow 10 400 / unitsPerOne)).length : Int) - 401

/-- The nearest whole multiple of `10 ^ exponent` that reads back as `x`, if the multiple just
below or the one just above does. -/
def candidate? (x : Binary64) (exponent : Int) : Option DecimalForm :=
  let (num, den) := x.inUnitsOf exponent
  let below := num / den
  let readsBack := fun n => ofDecimal n exponent == x
  match readsBack below, readsBack (below + 1) with
  | true, true => some ⟨if 2 * (num % den) < den then below else below + 1, exponent⟩
  | true, false => some ⟨below, exponent⟩
  | false, true => some ⟨below + 1, exponent⟩
  | false, false => none

/-- All the digits of `x`. -/
def exactForm (x : Binary64) : DecimalForm := ⟨x.scaled * Nat.pow 5 1074, -1074⟩

/-- The fewest digits that read back as the finite positive number `x`.

The search goes from coarse to fine powers of ten.  It starts one power above the leading digit,
where the only multiple to try is the power of ten just above `x`, so that `0.0999…` is written
`0.1`.  Seventeen digits always read back. -/
def shortest (x : Binary64) : DecimalForm :=
  let top := x.leadingExponent + 1
  let found := (List.range 18).findSome? fun (n : Nat) => x.candidate? (top - n)
  found.getD x.exactForm

/-- The text of a number without its sign. -/
def unsignedText (x : Binary64) : List Char :=
  if x.isInfinite then ['i', 'n', 'f']
  else if x.isZero then ['0']
  else (ofWord x.magnitude).shortest.positional

/-- The text of a number as programs show it: `3`, `-0.5`, `inf`, `NaN`. -/
def chars (x : Binary64) : List Char :=
  if x.isNaN then ['N', 'a', 'N']
  else if x.isNegative then '-' :: x.unsignedText
  else x.unsignedText

/-- `chars` as a string. -/
def text (x : Binary64) : String := String.ofList x.chars

end Binary64

end Prototalk
