/-
  Prototalk.Proofs.Number.Binary64
  ────────────────────────────────
  **NUMBERS THAT A LITERAL CAN STAND FOR.**

  A literal has no sign, so its number is not below zero, and it is always a
  number (`Plain`).  Rounding a quotient that is exactly a finite number
  gives that number (`ofRatio_of_scaled`).
-/
import Prototalk.Number.Binary64
import Mathlib.Data.Nat.Log
import Mathlib.Tactic.Ring

namespace Prototalk.Binary64

variable {x : Binary64}

/-- A number, or infinity, without the sign bit. -/
def Plain (x : Binary64) : Prop := x.isNaN = false ∧ x.isNegative = false

theorem ofWord_word (x : Binary64) : ofWord x.word = x := by
  obtain ⟨bits⟩ := x
  simp [ofWord, word]

theorem word_ofWord {w : Nat} (hw : w < 2 ^ 64) : (ofWord w).word = w := by
  show (UInt64.ofNat w).toNat = w
  rw [UInt64.toNat_ofNat']
  exact Nat.mod_eq_of_lt hw

theorem word_infinity : infinity.word = infinityWord := word_ofWord (by decide)

theorem magnitude_of_lt (hx : x.word < signBit) : x.magnitude = x.word := Nat.mod_eq_of_lt hx

theorem plain_iff : x.Plain ↔ x.word ≤ infinityWord := by
  unfold Plain isNaN isNegative
  constructor
  · rintro ⟨hnan, hneg⟩
    have hlt : x.word < signBit := by simpa using hneg
    rw [magnitude_of_lt hlt] at hnan
    simpa using hnan
  · intro hle
    have hlt : x.word < signBit := Nat.lt_of_le_of_lt hle (by decide)
    rw [magnitude_of_lt hlt]
    simp only [decide_eq_false_iff_not, not_lt, not_le]
    exact ⟨hle, hlt⟩

theorem Plain.magnitude_eq (hx : x.Plain) : x.magnitude = x.word :=
  magnitude_of_lt (Nat.lt_of_le_of_lt (plain_iff.mp hx) (by decide))

/-! ## §1. What literals give. -/

theorem plain_ofWord {w : Nat} (hw : w ≤ infinityWord) : (ofWord w).Plain := by
  rw [plain_iff, word_ofWord (Nat.lt_of_le_of_lt hw (by decide))]
  exact hw

theorem plain_zero : zero.Plain := plain_ofWord (by decide)

theorem plain_infinity : infinity.Plain := plain_ofWord (Nat.le_refl _)

theorem plain_ofRatio (num den : Nat) : (ofRatio num den).Plain :=
  plain_ofWord (Nat.min_le_right ..)

theorem plain_ofDecimal (digits : Nat) (exponent : Int) : (ofDecimal digits exponent).Plain := by
  unfold ofDecimal
  split
  · exact plain_zero
  · split
    · split
      · exact plain_infinity
      · exact plain_ofRatio ..
    · split
      · exact plain_zero
      · exact plain_ofRatio ..

/-! ## §2. Exact quotients. -/

theorem roundHalfEven_mul (m : Nat) {b : Nat} (hb : 0 < b) : roundHalfEven (m * b) b = m := by
  unfold roundHalfEven
  rw [Nat.mul_mod_left, Nat.mul_div_cancel m hb]
  simp [hb]

/-- A mantissa of exactly 53 bits fixes the size. -/
theorem log2_mantissa {m : Nat} (hlow : 2 ^ 52 ≤ m) (hhigh : m < 2 ^ 53) (k : Nat) :
    Nat.log2 (m * 2 ^ k) = 52 + k := by
  have hpos : 0 < 2 ^ k := Nat.two_pow_pos k
  have hne : m * 2 ^ k ≠ 0 := Nat.mul_ne_zero (by omega) (Nat.ne_of_gt hpos)
  rw [Nat.log2_eq_iff hne]
  constructor
  · rw [Nat.pow_add]
    exact Nat.mul_le_mul_right _ hlow
  · rw [show 52 + k + 1 = 53 + k by omega, Nat.pow_add]
    exact Nat.mul_lt_mul_of_pos_right hhigh hpos

/-- A finite number is a mantissa of at most 53 bits times the unit that rounding would choose. -/
theorem scaled_eq (hx : x.word < infinityWord) :
    ∃ m, x.scaled = m * 2 ^ (Nat.log2 x.scaled - 52)
      ∧ x.word = (Nat.log2 x.scaled - 52) * hiddenBit + m := by
  have hmag : x.magnitude = x.word := magnitude_of_lt (Nat.lt_trans hx (by decide))
  have hbit : hiddenBit = 2 ^ 52 := rfl
  have hdiv := Nat.div_add_mod x.word hiddenBit
  have hmod : x.word % hiddenBit < hiddenBit := Nat.mod_lt _ (by decide)
  by_cases hexp : x.word / hiddenBit = 0
  · -- subnormal numbers count in the least unit
    have hscaled : x.scaled = x.word % hiddenBit := by
      unfold scaled
      rw [hmag, if_pos hexp]
    have hunit : Nat.log2 x.scaled - 52 = 0 := by
      have hlt : x.scaled < 2 ^ 52 := by rw [hscaled]; exact hmod
      by_cases hzero : x.scaled = 0
      · rw [hzero]
        rfl
      · have := (Nat.log2_lt hzero).mpr hlt
        omega
    refine ⟨x.scaled, by rw [hunit]; simp, ?_⟩
    rw [hexp, Nat.mul_zero] at hdiv
    rw [hunit, hscaled]
    omega
  -- a normal number has the hidden bit, hence 53 bits
  · have hscaled : x.scaled
        = (hiddenBit + x.word % hiddenBit) * 2 ^ (x.word / hiddenBit - 1) := by
      unfold scaled
      rw [hmag, if_neg hexp]
      rfl
    have hlog : Nat.log2 x.scaled = 52 + (x.word / hiddenBit - 1) := by
      rw [hscaled]
      exact log2_mantissa (by omega) (by omega) _
    have hunit : Nat.log2 x.scaled - 52 = x.word / hiddenBit - 1 := by omega
    refine ⟨hiddenBit + x.word % hiddenBit, by rw [hunit]; exact hscaled, ?_⟩
    rw [hunit]
    obtain ⟨k, hk⟩ := Nat.exists_eq_succ_of_ne_zero hexp
    rw [hk, Nat.mul_succ] at hdiv
    rw [hk, Nat.succ_sub_one, Nat.mul_comm]
    omega

/-- **A quotient that is a finite number is rounded to it.** -/
theorem ofRatio_of_scaled (hx : x.word < infinityWord) {num den : Nat} (hden : 0 < den)
    (hnum : num * unitsPerOne = x.scaled * den) : ofRatio num den = x := by
  obtain ⟨m, hscaled, hword⟩ := scaled_eq hx
  have hquot : num * unitsPerOne / den = x.scaled := by rw [hnum, Nat.mul_div_cancel _ hden]
  -- the quotient is a whole multiple of the unit, so nothing is rounded
  have hround : roundHalfEven (num * unitsPerOne) (den * 2 ^ (Nat.log2 x.scaled - 52)) = m := by
    have hprod : num * unitsPerOne = m * (den * 2 ^ (Nat.log2 x.scaled - 52)) := by
      rw [hnum]
      conv_lhs => rw [hscaled]
      ring
    rw [hprod]
    exact roundHalfEven_mul m (Nat.mul_pos hden (Nat.two_pow_pos _))
  unfold ofRatio
  simp only [hquot, Nat.pow_eq, hround, ← hword]
  rw [Nat.min_eq_left (Nat.le_of_lt hx), ofWord_word]

end Prototalk.Binary64
