/-
  Prototalk.Number.Binary64
  ────────────────────────────────
  **DOUBLE-PRECISION NUMBERS AS EXACT ARITHMETIC.**

  A number is its 64-bit pattern.  A finite number is a whole multiple of
  the unit 2⁻¹⁰⁷⁴,

      x = ± x.scaled / unitsPerOne,

  so reading, comparing and rounding need natural numbers only.  `ofRatio`
  gives the number nearest to a quotient; a quotient halfway between two
  numbers goes to the one with the even pattern, and one too large for any
  finite number goes to infinity.
-/

namespace Prototalk

/-- A double-precision number, given by its bit pattern. -/
structure Binary64 where
  /-- Sign bit, 11 exponent bits, 52 fraction bits. -/
  bits : UInt64
  deriving DecidableEq

namespace Binary64

/-! ## §1. Reading the pattern. -/

/-- The pattern as a natural number. -/
def word (x : Binary64) : Nat := x.bits.toNat

/-- The number with this pattern. -/
def ofWord (w : Nat) : Binary64 := ⟨UInt64.ofNat w⟩

/-- The sign bit, 2⁶³. -/
def signBit : Nat := 0x8000000000000000

/-- The bit that normal numbers have above their fraction, 2⁵²; also the unit of the exponent
field. -/
def hiddenBit : Nat := 0x10000000000000

/-- The pattern of positive infinity: all exponent bits and no fraction bit. -/
def infinityWord : Nat := 0x7ff0000000000000

/-- Number of units in the number one, 2¹⁰⁷⁴. -/
def unitsPerOne : Nat := Nat.pow 2 1074

/-- The pattern without its sign bit. -/
def magnitude (x : Binary64) : Nat := x.word % signBit

/-- Whether the sign bit is set. -/
def isNegative (x : Binary64) : Bool := decide (signBit ≤ x.word)

/-- Whether the pattern stands for no number. -/
def isNaN (x : Binary64) : Bool := decide (infinityWord < x.magnitude)

/-- Whether the number is infinite, of either sign. -/
def isInfinite (x : Binary64) : Bool := decide (x.magnitude = infinityWord)

/-- Whether the number is zero, of either sign. -/
def isZero (x : Binary64) : Bool := decide (x.magnitude = 0)

/-- Whether the number is finite. -/
def isFinite (x : Binary64) : Bool := decide (x.magnitude < infinityWord)

/-- Absolute value of a finite number in units of 2⁻¹⁰⁷⁴. -/
def scaled (x : Binary64) : Nat :=
  let exponent := x.magnitude / hiddenBit
  let fraction := x.magnitude % hiddenBit
  if exponent = 0 then fraction else (hiddenBit + fraction) * Nat.pow 2 (exponent - 1)

/-! ## §2. Constants and sign. -/

/-- Positive zero. -/
def zero : Binary64 := ofWord 0

/-- Positive infinity. -/
def infinity : Binary64 := ofWord infinityWord

/-- The pattern every not-a-number is shown as. -/
def nan : Binary64 := ofWord 0x7ff8000000000000

/-- The number with its sign bit flipped. -/
def negate (x : Binary64) : Binary64 :=
  ofWord (if x.isNegative then x.magnitude else x.magnitude + signBit)

/-- The number itself, or `nan` for any pattern that stands for no number. -/
def canonical (x : Binary64) : Binary64 := if x.isNaN then nan else x

/-- Equality of values: the zeros are equal, and what is no number equals nothing. -/
def sameValue (x y : Binary64) : Bool :=
  !x.isNaN && !y.isNaN && (x.word == y.word || (x.isZero && y.isZero))

/-! ## §3. Rounding. -/

/-- The whole number nearest to `a / b`; a tie goes to the even one. -/
def roundHalfEven (a b : Nat) : Nat :=
  let q := a / b
  let r := a % b
  if 2 * r < b then q else if b < 2 * r then q + 1 else q + q % 2

/-- The number nearest to `num / den`, for a positive `den`.

The quotient in units of 2⁻¹⁰⁷⁴ is rounded to a multiple of `2 ^ unit`, where
`unit` is the least that leaves at most 53 bits.  A pattern is its exponent
field times 2⁵² plus its fraction, so a result that rounds up into the next
binade carries into the exponent by itself. -/
def ofRatio (num den : Nat) : Binary64 :=
  let units := num * unitsPerOne
  -- a quotient of less than 53 bits is rounded to whole units
  let unit := Nat.log2 (units / den) - 52
  ofWord (min (unit * hiddenBit + roundHalfEven units (den * Nat.pow 2 unit)) infinityWord)

/-- The number nearest to a whole number. -/
def ofNat (n : Nat) : Binary64 := ofRatio n 1

/-- The number nearest to an integer; zero has no sign. -/
def ofInt : Int → Binary64
  | .ofNat n => ofNat n
  | .negSucc n => (ofNat (n + 1)).negate

/-- The number nearest to `digits * 10 ^ exponent`.

A positive exponent beyond 400 is past every finite number, and a negative one
that far below the digits' own size is below half the least positive number;
both are answered without writing the power of ten out. -/
def ofDecimal (digits : Nat) (exponent : Int) : Binary64 :=
  if digits = 0 then zero
  else
    match exponent with
    | .ofNat e => if 400 < e then infinity else ofRatio (digits * Nat.pow 10 e) 1
    | .negSucc e =>
        if 400 + Nat.log2 digits < e then zero else ofRatio digits (Nat.pow 10 (e + 1))

/-! ## §4. Numbers as positions. -/

/-- The number as an index: whole, not below zero, and below 2⁶⁴. -/
def asIndex? (x : Binary64) : Option Nat :=
  if x.isFinite && (!x.isNegative || x.isZero) && x.scaled % unitsPerOne == 0 then
    let n := x.scaled / unitsPerOne
    if n < 0x10000000000000000 then some n else none
  else none

end Binary64

end Prototalk
