/-
  Prototalk.Proofs.Number.Rounding
  ────────────────────────────────
  **THE NUMBER NEAREST TO A QUOTIENT.**

  All finite numbers are whole multiples of one unit, so their distance from
  a quotient is a natural number, once the denominator is multiplied out
  (`gap`).  No finite number is nearer to the quotient than what rounding
  gives, and where another one is as near, it has the odd pattern
  (`nearest_ofRatio`).

  Rounding chooses among the multiples of `2 ^ k` units (`exists_rounded`).
  What it leaves out is not nearer:

    • `pow_dvd_scaled` — from 2^(52 + k) units on, every number is such a
      multiple,
    • below, and with a minus sign, the multiple 2^(52 + k) itself is nearer.

  A whole number below 2⁶³ is far from infinity (`isFinite_ofNat`), and one
  of up to 2⁵³ is exactly a number (`units_ofNat`).
-/
import Prototalk.Proofs.Number.Binary64

namespace Prototalk.Binary64

variable {x y : Binary64} {num den a b k m v : Nat}

/-! ## §1. Distances. -/

/-- The value of a finite number in units of 2⁻¹⁰⁷⁴, with its sign. -/
def units (x : Binary64) : Int := if x.isNegative then -(x.scaled : Int) else x.scaled

/-- The distance of a finite number from `num / den`, in units of 2⁻¹⁰⁷⁴ / `den`. -/
def gap (num den : Nat) (x : Binary64) : Nat := (x.units * den - (num * unitsPerOne : Nat)).natAbs

/-- Of all finite numbers, `x` is nearest to `num / den`.  Of two that are equally near it is the
one with the even pattern. -/
structure Nearest (num den : Nat) (x : Binary64) : Prop where
  /-- It is a number, and finite. -/
  finite : x.isFinite = true
  /-- No finite number is nearer. -/
  least : ∀ y, y.isFinite = true → gap num den x ≤ gap num den y
  /-- If a different number is as near, the last bit is not set. -/
  even : ∀ y, y.isFinite = true → y.units ≠ x.units → gap num den y = gap num den x →
    x.word % 2 = 0

/-- Comparison of numbers; what is no number is not comparable. -/
def AtMost (x y : Binary64) : Prop :=
  x.isNaN = false ∧ y.isNaN = false
    ∧ (x = infinity.negate ∨ y = infinity
      ∨ x.isFinite = true ∧ y.isFinite = true ∧ x.units ≤ y.units)

/-- The number of units in one, as a power that nothing tries to write out. -/
theorem exists_unitsPerOne : ∃ n, n = 1074 ∧ unitsPerOne = 2 ^ n := by
  refine ⟨1074, rfl, ?_⟩
  unfold unitsPerOne
  generalize 1074 = n
  rfl

theorem unitsPerOne_pos : 0 < unitsPerOne := by
  obtain ⟨n, -, hunits⟩ := exists_unitsPerOne
  rw [hunits]
  exact Nat.two_pow_pos n

theorem units_le_scaled (x : Binary64) : x.units ≤ x.scaled := by
  unfold units
  split <;> omega

theorem dvd_units {d : Nat} (hd : d ∣ x.scaled) : (d : Int) ∣ x.units := by
  have hscaled : (d : Int) ∣ (x.scaled : Int) := Int.natCast_dvd_natCast.mpr hd
  unfold units
  split
  · exact Int.dvd_neg.mpr hscaled
  · exact hscaled

theorem Plain.units_eq (hx : x.Plain) : x.units = x.scaled := by
  unfold units
  rw [if_neg (by simp [hx.2])]

/-- **Rounding is monotone**: the number nearest to a smaller quotient is not greater. -/
theorem Nearest.units_le (hden : 0 < den) (hx : x.Nearest a den) (hy : y.Nearest b den)
    (hab : a < b) : x.units ≤ y.units := by
  by_contra hlt
  -- `x` above `y`: the quotients would be on the wrong sides of the middle between them
  have hscaled : y.units * den < x.units * den :=
    Int.mul_lt_mul_of_pos_right (by omega) (by omega)
  have hquotients : a * unitsPerOne < b * unitsPerOne :=
    Nat.mul_lt_mul_of_pos_right hab unitsPerOne_pos
  have hgap := hx.least y hy.finite
  have hgap' := hy.least x hx.finite
  unfold gap at hgap hgap'
  omega

/-! ## §2. Rounding to whole numbers. -/

theorem roundHalfEven_bounds (a b : Nat) :
    a / b ≤ roundHalfEven a b ∧ roundHalfEven a b ≤ a / b + 1 := by
  unfold roundHalfEven
  dsimp only
  split
  · omega
  · split <;> omega

/-- The error is half a step at most, and less if the result is odd. -/
theorem roundHalfEven_error (a : Nat) (hb : 0 < b) :
    2 * ((roundHalfEven a b * b : Nat) - (a : Int)).natAbs ≤ b
    ∧ (2 * ((roundHalfEven a b * b : Nat) - (a : Int)).natAbs = b → roundHalfEven a b % 2 = 0) := by
  have hdiv : a / b * b + a % b = a := Nat.div_add_mod' a b
  have hmod : a % b < b := Nat.mod_lt a hb
  have hnext : (a / b + 1) * b = a / b * b + b := Nat.succ_mul ..
  unfold roundHalfEven
  dsimp only
  by_cases hlow : 2 * (a % b) < b
  · rw [if_pos hlow]
    omega
  · rw [if_neg hlow]
    by_cases hhigh : b < 2 * (a % b)
    · rw [if_pos hhigh]
      omega
    -- halfway, the even one of the two
    · rw [if_neg hhigh]
      obtain heven | hodd := Nat.mod_two_eq_zero_or_one (a / b)
      · rw [heven, Nat.add_zero]
        omega
      · rw [hodd]
        omega

/-- **No multiple is nearer than the one that rounding gives.** -/
theorem roundHalfEven_nearest (a : Nat) (hb : 0 < b) (t : Int) :
    ((roundHalfEven a b * b : Nat) - (a : Int)).natAbs ≤ (t * b - a).natAbs
    ∧ (t ≠ roundHalfEven a b →
        (t * b - a).natAbs = ((roundHalfEven a b * b : Nat) - (a : Int)).natAbs →
        roundHalfEven a b % 2 = 0) := by
  obtain ⟨herror, heven⟩ := roundHalfEven_error a hb
  generalize roundHalfEven a b = m at herror heven ⊢
  by_cases ht : t = m
  · subst ht
    rw [Nat.cast_mul]
    exact ⟨Nat.le_refl _, fun hne => absurd rfl hne⟩
  -- another multiple is a whole step away
  · have haway : t * b + b ≤ m * b ∨ m * b + b ≤ t * b := by
      obtain hlt | hgt := Int.lt_or_gt_of_ne ht
      · left
        have hle : (t + 1) * b ≤ m * b := Int.mul_le_mul_of_nonneg_right (by omega) (by omega)
        rw [Int.add_mul, Int.one_mul] at hle
        exact hle
      · right
        have hle : ((m : Int) + 1) * b ≤ t * b :=
          Int.mul_le_mul_of_nonneg_right (by omega) (by omega)
        rw [Int.add_mul, Int.one_mul] at hle
        exact hle
    rw [Nat.cast_mul] at herror heven ⊢
    constructor
    · omega
    · intro _ htie
      apply heven
      omega

/-! ## §3. The multiples of a unit. -/

/-- The pattern of `m` times `2 ^ k` units, also where rounding has taken `m` to 2⁵³. -/
theorem scaled_ofWord (hm : m ≤ 2 ^ 53) (hk : k = 0 ∨ 2 ^ 52 ≤ m)
    (hfinite : k * hiddenBit + m < infinityWord) :
    (ofWord (k * hiddenBit + m)).scaled = m * 2 ^ k := by
  have hbit : hiddenBit = 2 ^ 52 := rfl
  have hpos : 0 < hiddenBit := by decide
  have hword : (ofWord (k * hiddenBit + m)).word = k * hiddenBit + m :=
    word_ofWord (Nat.lt_trans hfinite (by decide))
  have hmagnitude : (ofWord (k * hiddenBit + m)).magnitude = k * hiddenBit + m := by
    rw [magnitude_of_lt (by rw [hword]; exact Nat.lt_trans hfinite (by decide)), hword]
  have hexponent : (k * hiddenBit + m) / hiddenBit = k + m / hiddenBit := by
    rw [Nat.add_comm, Nat.add_mul_div_right _ _ hpos, Nat.add_comm]
  have hfraction : (k * hiddenBit + m) % hiddenBit = m % hiddenBit := by
    rw [Nat.add_comm, Nat.add_mul_mod_self_right]
  unfold scaled
  rw [hmagnitude, hexponent, hfraction]
  dsimp only
  by_cases hsmall : m < 2 ^ 52
  · -- subnormal: the unit is the least one
    obtain rfl : k = 0 := by omega
    rw [← hbit] at hsmall
    rw [Nat.div_eq_of_lt hsmall, if_pos rfl, Nat.mod_eq_of_lt hsmall, Nat.pow_zero, Nat.mul_one]
  by_cases hfull : m = 2 ^ 53
  · -- the carry has gone into the exponent
    subst hfull
    rw [show 2 ^ 53 / hiddenBit = 2 from rfl, show 2 ^ 53 % hiddenBit = 0 from rfl,
      if_neg (by omega), show k + 2 - 1 = k + 1 by omega, Nat.pow_eq, Nat.pow_succ, hbit]
    ring
  · have hone : m / hiddenBit = 1 := by
      rw [hbit]
      omega
    have hrest : hiddenBit + m % hiddenBit = m := by
      rw [hbit]
      omega
    rw [hone, if_neg (by omega), hrest, Nat.add_sub_cancel, Nat.pow_eq]

/-- **Great numbers are multiples of great units.** -/
theorem pow_dvd_scaled (hk : 2 ^ (52 + k) ≤ x.scaled) : 2 ^ k ∣ x.scaled := by
  have hbit : hiddenBit = 2 ^ 52 := rfl
  have hmod : x.magnitude % hiddenBit < hiddenBit := Nat.mod_lt _ (by decide)
  unfold scaled at hk ⊢
  dsimp only at hk ⊢
  by_cases hexponent : x.magnitude / hiddenBit = 0
  · rw [if_pos hexponent] at hk
    have hle : 2 ^ 52 ≤ 2 ^ (52 + k) := Nat.pow_le_pow_right (by decide) (by omega)
    omega
  · rw [if_neg hexponent, Nat.pow_eq] at hk ⊢
    -- the mantissa has 53 bits, so the rest of the size is in the exponent
    have hlt : 2 ^ (52 + k) < 2 ^ (53 + (x.magnitude / hiddenBit - 1)) := by
      rw [Nat.pow_add 2 53]
      exact Nat.lt_of_le_of_lt hk (Nat.mul_lt_mul_of_pos_right (by omega) (Nat.two_pow_pos _))
    have hexponents := (Nat.pow_lt_pow_iff_right (by decide)).mp hlt
    exact Nat.dvd_mul_left_of_dvd (Nat.pow_dvd_pow 2 (by omega)) _

/-- The size of the quotient in the unit that is chosen for it. -/
theorem roundHalfEven_size {n : Nat} (hden : 0 < den) (hk : k = Nat.log2 (n / den) - 52) :
    roundHalfEven n (den * 2 ^ k) ≤ 2 ^ 53
    ∧ (k = 0 ∨ 2 ^ 52 ≤ roundHalfEven n (den * 2 ^ k) ∧ 2 ^ 52 * (den * 2 ^ k) ≤ n) := by
  obtain ⟨hlow, hhigh⟩ := roundHalfEven_bounds n (den * 2 ^ k)
  rw [← Nat.div_div_eq_div_mul] at hlow hhigh
  have hpos : 0 < 2 ^ k := Nat.two_pow_pos k
  constructor
  · have hlt : n / den < 2 ^ k * 2 ^ 53 := by
      rw [← Nat.pow_add]
      exact Nat.lt_of_lt_of_le Nat.lt_log2_self (Nat.pow_le_pow_right (by decide) (by omega))
    have hquotient := Nat.div_lt_of_lt_mul hlt
    omega
  by_cases hzero : k = 0
  · left
    exact hzero
  · right
    have hne : n / den ≠ 0 := by
      intro hquotient
      rw [hquotient] at hk
      exact hzero hk
    have hle : 2 ^ 52 * 2 ^ k ≤ n / den := by
      rw [← Nat.pow_add, show 52 + k = Nat.log2 (n / den) by omega]
      exact Nat.log2_self_le hne
    refine ⟨Nat.le_trans ((Nat.le_div_iff_mul_le hpos).mpr hle) hlow, ?_⟩
    have hmul := (Nat.le_div_iff_mul_le hden).mp hle
    rw [Nat.mul_comm den, ← Nat.mul_assoc]
    exact hmul

theorem ofRatio_eq (hk : k = Nat.log2 (num * unitsPerOne / den) - 52) : ofRatio num den
    = ofWord (min (k * hiddenBit + roundHalfEven (num * unitsPerOne) (den * 2 ^ k))
      infinityWord) := by
  rw [hk]
  rfl

/-- What rounding makes of a quotient: `m` times a unit of `2 ^ k`. -/
structure Rounded (x : Binary64) (num den k m : Nat) : Prop where
  /-- The unit leaves 53 bits at most. -/
  unit : k = Nat.log2 (num * unitsPerOne / den) - 52
  /-- The quotient is rounded to a multiple of it. -/
  multiple : m = roundHalfEven (num * unitsPerOne) (den * 2 ^ k)
  /-- It is the least unit, or the quotient fills the 53 bits. -/
  great : k = 0 ∨ 2 ^ 52 * (den * 2 ^ k) ≤ num * unitsPerOne
  /-- The pattern. -/
  word : x.word = k * hiddenBit + m
  /-- The value. -/
  units : x.units = (m * 2 ^ k : Nat)

theorem exists_rounded (num : Nat) (hden : 0 < den) (hfinite : (ofRatio num den).isFinite = true) :
    ∃ k m, (ofRatio num den).Rounded num den k m := by
  obtain ⟨k, hk⟩ : ∃ k, k = Nat.log2 (num * unitsPerOne / den) - 52 := ⟨_, rfl⟩
  obtain ⟨m, hm⟩ : ∃ m, m = roundHalfEven (num * unitsPerOne) (den * 2 ^ k) := ⟨_, rfl⟩
  obtain ⟨hsize, hunit⟩ := roundHalfEven_size hden hk
  have hround := ofRatio_eq hk
  have hplain : (ofRatio num den).Plain := plain_ofRatio num den
  rw [← hm] at hsize hunit hround
  rw [hround] at hfinite hplain ⊢
  have hlt : k * hiddenBit + m < infinityWord := by
    by_contra hge
    rw [Nat.min_eq_right (Nat.le_of_not_lt hge)] at hfinite
    revert hfinite
    decide
  rw [Nat.min_eq_left (Nat.le_of_lt hlt)] at hplain ⊢
  refine ⟨k, m, hk, hm, hunit.imp_right And.right, ?_, ?_⟩
  · exact word_ofWord (Nat.lt_trans hlt (by decide))
  · rw [hplain.units_eq, scaled_ofWord hsize (hunit.imp_right And.left) hlt]

/-! ## §4. The nearest number. -/

namespace Rounded

variable (hx : x.Rounded num den k m)

include hx

theorem gap_eq : gap num den x
    = ((m * (den * 2 ^ k) : Nat) - ((num * unitsPerOne : Nat) : Int)).natAbs := by
  rw [gap, hx.units, ← Nat.cast_mul, Nat.mul_assoc, Nat.mul_comm den]

/-- Among the multiples of its unit, the result is nearest. -/
theorem gap_le_of_dvd (hden : 0 < den) (hdvd : ((2 ^ k : Nat) : Int) ∣ y.units) :
    gap num den x ≤ gap num den y
    ∧ (y.units ≠ x.units → gap num den y = gap num den x → m % 2 = 0) := by
  obtain ⟨t, ht⟩ := hdvd
  have hgap : gap num den y
      = (t * (den * 2 ^ k : Nat) - ((num * unitsPerOne : Nat) : Int)).natAbs := by
    rw [gap, ht, Nat.mul_comm den, Nat.cast_mul (2 ^ k), ← Int.mul_assoc, Int.mul_comm t]
  obtain ⟨hle, heven⟩ := roundHalfEven_nearest (num * unitsPerOne)
    (Nat.mul_pos hden (Nat.two_pow_pos k)) t
  rw [← hx.multiple] at hle heven
  rw [hx.gap_eq, hgap]
  refine ⟨hle, fun hne => heven ?_⟩
  rintro rfl
  apply hne
  rw [ht, hx.units, Nat.cast_mul, Int.mul_comm]

/-- **What is no multiple of its unit is farther away**, because it is less than 2^(52 + k) units,
which the quotient is not. -/
theorem gap_lt_of_not_dvd (hden : 0 < den) (hdvd : ¬ ((2 ^ k : Nat) : Int) ∣ y.units) :
    gap num den x < gap num den y := by
  have hsmall : y.units < (2 ^ 52 * 2 ^ k : Nat) := by
    by_contra hlarge
    have hscaled : 2 ^ (52 + k) ≤ y.scaled := by
      have hle := y.units_le_scaled
      rw [Nat.pow_add]
      omega
    exact hdvd (dvd_units (pow_dvd_scaled hscaled))
  have hgreat : 2 ^ 52 * (den * 2 ^ k) ≤ num * unitsPerOne := by
    apply hx.great.resolve_left
    intro hzero
    rw [hzero] at hdvd
    exact hdvd (Int.one_dvd _)
  have hbelow : y.units * den < (2 ^ 52 * (den * 2 ^ k) : Nat) := by
    rw [Nat.mul_comm den, ← Nat.mul_assoc, Nat.cast_mul _ den]
    exact Int.mul_lt_mul_of_pos_right hsmall (by omega)
  -- the multiple 2⁵² is between `y` and the quotient
  obtain ⟨hbetween, -⟩ := roundHalfEven_nearest (num * unitsPerOne)
    (Nat.mul_pos hden (Nat.two_pow_pos k)) (2 ^ 52 : Nat)
  rw [← hx.multiple, ← Nat.cast_mul] at hbetween
  rw [hx.gap_eq, gap]
  omega

end Rounded

/-- **Rounding gives the nearest number**, unless it goes to infinity. -/
theorem nearest_ofRatio (num : Nat) (hden : 0 < den)
    (hfinite : (ofRatio num den).isFinite = true) : (ofRatio num den).Nearest num den := by
  obtain ⟨k, m, hx⟩ := exists_rounded num hden hfinite
  constructor
  · exact hfinite
  · intro y _
    by_cases hdvd : ((2 ^ k : Nat) : Int) ∣ y.units
    · exact (hx.gap_le_of_dvd hden hdvd).1
    · exact Nat.le_of_lt (hx.gap_lt_of_not_dvd hden hdvd)
  · intro y _ hne htie
    have heven : m % 2 = 0 := by
      by_cases hdvd : ((2 ^ k : Nat) : Int) ∣ y.units
      · exact (hx.gap_le_of_dvd hden hdvd).2 hne htie
      · exact absurd htie (Nat.ne_of_gt (hx.gap_lt_of_not_dvd hden hdvd))
    -- the exponent does not reach the last bit
    have hbit : hiddenBit % 2 = 0 := rfl
    rw [hx.word, Nat.add_mod, Nat.mul_mod, hbit, heven]
    rfl

/-! ## §5. Whole numbers. -/

theorem log2_units_lt {j : Nat} (hv : v < 2 ^ j) :
    Nat.log2 (v * unitsPerOne / 1) < j + 1074 := by
  obtain ⟨n, hn, hunits⟩ := exists_unitsPerOne
  rw [Nat.div_one, hunits, ← hn]
  by_cases hzero : v * 2 ^ n = 0
  · rw [hzero, Nat.log2_zero]
    omega
  · rw [Nat.log2_lt hzero, Nat.pow_add]
    exact Nat.mul_lt_mul_of_pos_right hv (Nat.two_pow_pos n)

/-- Whole numbers of up to 63 bits are finite. -/
theorem isFinite_ofNat (hv : v < 2 ^ 63) : (ofNat v).isFinite = true := by
  obtain ⟨k, hk⟩ : ∃ k, k = Nat.log2 (v * unitsPerOne / 1) - 52 := ⟨_, rfl⟩
  obtain ⟨hsize, -⟩ := roundHalfEven_size Nat.one_pos hk
  have hlog := log2_units_lt hv
  have hround : ofNat v = ofWord _ := ofRatio_eq hk
  generalize roundHalfEven (v * unitsPerOne) (1 * 2 ^ k) = m at hsize hround
  -- the exponent is 1084 at most, of 2046
  have hlt : k * hiddenBit + m < infinityWord := by
    have hle : k * hiddenBit ≤ 1084 * hiddenBit := Nat.mul_le_mul_right _ (by omega)
    have htop : 1084 * hiddenBit + 2 ^ 53 < infinityWord := by decide
    omega
  have hword : (ofNat v).word = k * hiddenBit + m := by
    rw [hround, Nat.min_eq_left (Nat.le_of_lt hlt)]
    exact word_ofWord (Nat.lt_trans hlt (by decide))
  rw [isFinite, magnitude_of_lt (by rw [hword]; exact Nat.lt_trans hlt (by decide)), hword]
  exact decide_eq_true hlt

/-- **Whole numbers of up to 53 bits, and 2⁵³, are numbers.** -/
theorem units_ofNat (hv : v ≤ 2 ^ 53) : (ofNat v).units = (v * unitsPerOne : Nat) := by
  have hfinite : (ofNat v).isFinite = true := isFinite_ofNat (Nat.lt_of_le_of_lt hv (by decide))
  obtain ⟨k, m, hx⟩ := exists_rounded v Nat.one_pos hfinite
  -- the unit divides the number, so nothing is rounded
  have hdvd : 2 ^ k ∣ v * unitsPerOne := by
    obtain ⟨n, hn, hunits⟩ := exists_unitsPerOne
    have hk := hx.unit
    rw [hunits]
    by_cases hfull : v = 2 ^ 53
    · have hlog := log2_units_lt (show v < 2 ^ 54 by omega)
      rw [hfull, ← Nat.pow_add]
      exact Nat.pow_dvd_pow 2 (by omega)
    · have hlog := log2_units_lt (show v < 2 ^ 53 by omega)
      exact Nat.dvd_mul_left_of_dvd (Nat.pow_dvd_pow 2 (by omega)) v
  obtain ⟨q, hq⟩ := hdvd
  have hm : m = q := by
    rw [hx.multiple, hq, Nat.one_mul, Nat.mul_comm]
    exact roundHalfEven_mul q (Nat.two_pow_pos k)
  show (ofRatio v 1).units = _
  rw [hx.units, hm, hq, Nat.mul_comm]

end Prototalk.Binary64
