/-
  Prototalk.Number.Radix
  ────────────────────────────────
  **READING INTEGERS OF BOUNDED SIZE IN A GIVEN BASE.**

  Digits are taken left to right.  At each one a character that is no digit
  is reported before a value that has grown too large, so `FFFF…F` followed
  by junk is too large while junk followed by anything is invalid.  A plus
  sign is accepted in front, a minus sign where negative values exist; a
  sign alone is invalid.
-/

namespace Prototalk.Radix

/-- Why a text is no integer of the wanted size. -/
inductive Fault where
  /-- Empty, a lone sign, or a character that is no digit. -/
  | invalid
  /-- Greater than the greatest value. -/
  | above
  /-- Less than the least value. -/
  | below
  deriving DecidableEq

/-- The value of a digit in `base`, which is at most 36. -/
def digit? (base : Nat) (c : Char) : Option Nat :=
  let value :=
    if '0' ≤ c ∧ c ≤ '9' then some (c.toNat - '0'.toNat)
    else if 'a' ≤ c ∧ c ≤ 'z' then some (c.toNat - 'a'.toNat + 10)
    else if 'A' ≤ c ∧ c ≤ 'Z' then some (c.toNat - 'A'.toNat + 10)
    else none
  value.filter (· < base)

/-- Append one digit to a value of at most `limit`; `tooFar` names the error of passing it. -/
def appendDigit (base limit : Nat) (tooFar : Fault) (n : Nat) (c : Char) : Except Fault Nat :=
  match digit? base c with
  | none => .error .invalid
  | some d => if base * n + d ≤ limit then .ok (base * n + d) else .error tooFar

/-- The value of a non-empty run of digits, of at most `limit`. -/
def magnitude (base limit : Nat) (tooFar : Fault) (digits : List Char) : Except Fault Nat :=
  if digits.isEmpty then .error .invalid
  else digits.foldlM (appendDigit base limit tooFar) 0

/-- An integer from `-2 ^ width` up to and excluding `2 ^ width`. -/
def signed (base width : Nat) : List Char → Except Fault Int
  | '-' :: rest => (magnitude base (Nat.pow 2 width) .below rest).map fun n => -(n : Int)
  | '+' :: rest => (magnitude base (Nat.pow 2 width - 1) .above rest).map Int.ofNat
  | digits => (magnitude base (Nat.pow 2 width - 1) .above digits).map Int.ofNat

/-- A natural number below `2 ^ width`. -/
def unsigned (base width : Nat) : List Char → Except Fault Nat
  | '+' :: rest => magnitude base (Nat.pow 2 width - 1) .above rest
  | digits => magnitude base (Nat.pow 2 width - 1) .above digits

end Prototalk.Radix
