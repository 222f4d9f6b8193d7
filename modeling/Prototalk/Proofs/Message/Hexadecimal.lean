/-
  Prototalk.Proofs.Message.Hexadecimal
  ────────────────────────────────
  **HEXADECIMAL NUMBERS SATURATE AT 2⁶³.**

  A hexadecimal number is read digit by digit, into a number of 63 bits.
  The reader stops at the digit that would not fit, however many follow; the
  numbers that go through are the ones below 2⁶³, however many zeros they
  start with.

    • `Radix.exists_spells`, `Radix.Spells.unique` — digits have a value,
    • `Radix.magnitude_eq_error` — the reader stops exactly at those of a
      greater value,
    • `Literal.hexNumber_eq` — so the value alone decides the number.

  What is read is rounded to the nearest number, which may be 2⁶³ but is
  finite.  Main statement: `Literal.hexNumber_saturates`.
-/
import Mathlib.Data.List.Forall2
import Prototalk.Proofs.Message.Decoding
import Prototalk.Proofs.Number.Rounding
import Prototalk.Proofs.Text.Escape

namespace Prototalk

/-! ## §1. Digits and their value. -/

namespace Radix

variable {base limit n m : Nat} {tooFar : Fault} {digits : List Char}

/-- Digits have a value. -/
theorem exists_spells (hbase : base ≤ 16) (hdigits : ∀ c ∈ digits, digit? base c ≠ none) :
    ∃ n, Spells base digits n := by
  suffices hvalues : ∃ values, List.Forall₂ (Digit base) digits values by
    obtain ⟨values, hvalues⟩ := hvalues
    exact ⟨_, values, hvalues, rfl⟩
  induction digits with
  | nil => exact ⟨[], .nil⟩
  | cons c digits ih =>
    obtain ⟨hc, hrest⟩ := List.forall_mem_cons.mp hdigits
    obtain ⟨values, hvalues⟩ := ih hrest
    obtain ⟨d, hd⟩ := Option.ne_none_iff_exists'.mp hc
    exact ⟨d :: values, .cons ((digit?_eq_some_iff hbase).mp hd) hvalues⟩

/-- Every character of the digits is a digit. -/
theorem Spells.exists_digit (h : Spells base digits n) : ∀ c ∈ digits, ∃ d, Digit base c d := by
  obtain ⟨values, hvalues, -⟩ := h
  intro c hc
  induction hvalues with
  | nil => cases hc
  | cons hd _ ih =>
    cases hc with
    | head => exact ⟨_, hd⟩
    | tail _ hc => exact ih hc

theorem Spells.digit?_ne_none (hbase : base ≤ 16) (h : Spells base digits n) :
    ∀ c ∈ digits, digit? base c ≠ none := by
  intro c hc
  obtain ⟨d, hd⟩ := h.exists_digit c hc
  rw [(digit?_eq_some_iff hbase).mpr hd]
  exact Option.some_ne_none d

/-- What has a value in base 16 is a hexadecimal digit to the lexer. -/
theorem Spells.isHexDigit (h : Spells 16 digits n) :
    ∀ c ∈ digits, Lexer.isHexDigit c = true := by
  have hall : ∀ d < 16, Lexer.isHexDigit (Nat.digitChar d) = true
      ∧ Lexer.isHexDigit (Nat.digitChar d).toUpper = true := by decide
  intro c hc
  obtain ⟨d, hlt, rfl | rfl⟩ := h.exists_digit c hc
  · exact (hall d hlt).1
  · exact (hall d hlt).2

/-- Digits have one value. -/
theorem Spells.unique (hbase : base ≤ 16) (hn : Spells base digits n) (hm : Spells base digits m) :
    n = m := by
  obtain ⟨values, hvalues, rfl⟩ := hn
  obtain ⟨values', hvalues', rfl⟩ := hm
  have hdigit : Relator.RightUnique (Digit base) := by
    intro c d d' hd hd'
    have hread := (digit?_eq_some_iff hbase).mpr hd
    rw [(digit?_eq_some_iff hbase).mpr hd'] at hread
    exact (Option.some.inj hread).symm
  rw [List.right_unique_forall₂' hdigit hvalues hvalues']

/-- **Digits of a value that is too large are too large**, and nothing else. -/
theorem magnitude_eq_error (hbase : 1 ≤ base) (hbase' : base ≤ 16) (hne : digits ≠ [])
    (hn : Spells base digits n) (hlimit : limit < n) :
    magnitude base limit tooFar digits = .error tooFar := by
  have hfold : magnitude base limit tooFar digits
      = digits.foldlM (appendDigit base limit tooFar) 0 := if_neg (by simpa using hne)
  obtain ⟨m, hm⟩ | herror := foldlM_digits (hn.digit?_ne_none hbase') 0
  · have hmagnitude : magnitude base limit tooFar digits = .ok m := hfold.trans hm
    obtain ⟨-, hspells, hle⟩ := (magnitude_eq_ok_iff hbase hbase').mp hmagnitude
    rw [hspells.unique hbase' hn] at hle
    omega
  · exact hfold.trans herror

end Radix

/-! ## §2. Numbers. -/

namespace Literal

open Radix (Spells)

variable {mark : Char} {digits : List Char} {v : Nat}

/-- A marker, and at least one digit; the digits write the number. -/
def HexNumeral (text : String) (v : Nat) : Prop :=
  ∃ mark digits, (mark = 'x' ∨ mark = 'X') ∧ digits ≠ [] ∧ Spells 16 digits v
    ∧ text = String.ofList ('0' :: mark :: digits)

/-- The number that a value becomes. -/
def saturated (v : Nat) : Binary64 := if v < 2 ^ 63 then .ofNat v else .infinity

/-- **The value alone decides the number.** -/
theorem hexNumber_eq {text : String} (h : HexNumeral text v) :
    hexNumber text = .ok (saturated v) := by
  obtain ⟨mark, digits, hmark, hne, hspells, rfl⟩ := h
  have hvalue : hexValue? ('0' :: mark :: digits) = some (saturated v) := by
    rw [hexValue?_of_digits hmark hspells.isHexDigit, saturated]
    by_cases hv : v < 2 ^ 63
    · have hle : v ≤ Nat.pow 2 63 - 1 := Nat.le_sub_one_of_lt hv
      rw [(Radix.magnitude_eq_ok_iff (by decide) (by decide)).mpr ⟨hne, hspells, hle⟩, if_pos hv]
    · have hlt : Nat.pow 2 63 - 1 < v := Nat.lt_of_lt_of_le (by decide) (Nat.le_of_not_lt hv)
      rw [Radix.magnitude_eq_error (by decide) (by decide) hne hspells hlt, if_neg hv]
  unfold hexNumber
  rw [String.toList_ofList, hvalue]

theorem saturated_of_lt (hv : v < 2 ^ 63) : saturated v = .ofRatio v 1 := if_pos hv

theorem saturated_of_le (hv : 2 ^ 63 ≤ v) : saturated v = .infinity := if_neg (Nat.not_lt.mpr hv)

theorem nearest_saturated (hv : v < 2 ^ 63) : (saturated v).Nearest v 1 := by
  rw [saturated_of_lt hv]
  exact Binary64.nearest_ofRatio v Nat.one_pos (Binary64.isFinite_ofNat hv)

theorem plain_saturated (v : Nat) : (saturated v).Plain := by
  unfold saturated
  split
  · exact Binary64.plain_ofRatio v 1
  · exact Binary64.plain_infinity

/-- **A greater value becomes no smaller number.** -/
theorem saturated_mono {w : Nat} (hvw : v ≤ w) : (saturated v).AtMost (saturated w) := by
  refine ⟨(plain_saturated v).1, (plain_saturated w).1, ?_⟩
  right
  by_cases hw : w < 2 ^ 63
  · right
    have hv : v < 2 ^ 63 := Nat.lt_of_le_of_lt hvw hw
    have hnearest := nearest_saturated hv
    have hnearest' := nearest_saturated hw
    refine ⟨hnearest.finite, hnearest'.finite, ?_⟩
    obtain rfl | hlt := Nat.eq_or_lt_of_le hvw
    · exact Int.le_refl _
    · exact hnearest.units_le Nat.one_pos hnearest' hlt
  · left
    exact saturated_of_le (Nat.le_of_not_lt hw)

/-- What becomes of a hexadecimal number of the value `v`. -/
structure HexResult (text : String) (v : Nat) (x : Binary64) : Prop where
  /-- It is decoded. -/
  decoded : hexNumber text = .ok x
  /-- From 2⁶³ on it is infinity. -/
  saturates : 2 ^ 63 ≤ v → x = .infinity
  /-- Below it is the nearest finite number; of two, the even one. -/
  nearest : v < 2 ^ 63 → x.Nearest v 1
  /-- Up to 2⁵³ it is the value. -/
  value : v ≤ 2 ^ 53 → x.units = (v * Binary64.unitsPerOne : Nat)
  /-- Where the value is not smaller, the number is not smaller. -/
  monotone : ∀ text' v' x', HexNumeral text' v' → v ≤ v' → hexNumber text' = .ok x' → x.AtMost x'

theorem hexResult (text : String) (h : HexNumeral text v) :
    HexResult text v (saturated v) where
  decoded := hexNumber_eq h
  saturates := saturated_of_le
  nearest := nearest_saturated
  value := by
    intro hv
    rw [saturated_of_lt (Nat.lt_of_le_of_lt hv (by decide))]
    exact Binary64.units_ofNat hv
  monotone := by
    intro text' v' x' h' hle hx'
    rw [hexNumber_eq h'] at hx'
    obtain rfl := Except.ok.inj hx'
    exact saturated_mono hle

/-- **Hexadecimal numbers saturate at 2⁶³.**  Digits behind a marker, however many, have exactly one
value; the number is decoded, is infinity if the value is 2⁶³ or greater and the nearest number
otherwise, and grows with the value. -/
theorem hexNumber_saturates (hmark : mark = 'x' ∨ mark = 'X') (hne : digits ≠ [])
    (hdigits : ∀ c ∈ digits, Lexer.isHexDigit c = true) :
    ∃ v x, (∀ u, Spells 16 digits u ↔ u = v)
      ∧ HexResult (String.ofList ('0' :: mark :: digits)) v x := by
  obtain ⟨v, hv⟩ := Radix.exists_spells (by decide)
    fun c hc => digit?_of_isHexDigit (hdigits c hc)
  refine ⟨v, saturated v, ?_, hexResult _ ⟨mark, digits, hmark, hne, hv, rfl⟩⟩
  intro u
  constructor
  · intro hu
    exact hu.unique (by decide) hv
  · rintro rfl
    exact hv

/-- The last value that is finite, behind zeros, and the first one that is not. -/
theorem hexNumber_saturates_limit :
    ∃ x, hexNumber "0x007fffFFFFffffFFFF" = .ok x ∧ x.Nearest (2 ^ 63 - 1) 1
      ∧ hexNumber "0X8000000000000000" = .ok .infinity := by
  have hread : Radix.magnitude 16 (2 ^ 63) .above "007fffFFFFffffFFFF".toList
      = .ok (2 ^ 63 - 1) := by decide +kernel
  have hread' : Radix.magnitude 16 (2 ^ 63) .above "8000000000000000".toList
      = .ok (2 ^ 63) := by decide +kernel
  obtain ⟨hne, hspells, -⟩ := (Radix.magnitude_eq_ok_iff (by decide) (by decide)).mp hread
  obtain ⟨hne', hspells', -⟩ := (Radix.magnitude_eq_ok_iff (by decide) (by decide)).mp hread'
  obtain ⟨v, x, hv, hx⟩ := hexNumber_saturates (.inl rfl) hne hspells.isHexDigit
  obtain ⟨w, y, hw, hy⟩ := hexNumber_saturates (.inr rfl) hne' hspells'.isHexDigit
  obtain rfl := (hv _).mp hspells
  obtain rfl := (hw _).mp hspells'
  obtain rfl := hy.saturates (Nat.le_refl _)
  exact ⟨x, hx.decoded, hx.nearest (by decide), hy.decoded⟩

/-- The last finite value is rounded up to 2⁶³. -/
example : hexNumber "0x7fffffffffffffff" = .ok ⟨0x43e0000000000000⟩ := by decide +kernel

end Literal

end Prototalk
