/-
  Prototalk.Proofs.Number.Decimal
  ────────────────────────────────
  **A WRITTEN NUMBER READS BACK.**

  The text of a number is digits, or digits with a point between them, and
  the reader makes of it the same digits and the same power of ten
  (`read?_positional`).  The digits were chosen because they read back; where
  no choice did, all digits are written, and these are exact
  (`ofDecimal_shortest`).
-/
import Mathlib.Data.List.TakeDrop
import Mathlib.Tactic.Positivity
import Prototalk.Message.Printer
import Prototalk.Number.Decimal
import Prototalk.Number.Shortest
import Prototalk.Proofs.Number.Binary64
import Prototalk.Proofs.Token.Lexing

namespace Prototalk.Decimal

open Lexer (digitChars mem_digitChars)

variable {c : Char} {cs ds : List Char}

/-! ## §1. Reading. -/

theorem value_append_replicate_zero (ds : List Char) (k : Nat) :
    value (ds ++ List.replicate k '0') = value ds * 10 ^ k := by
  show Nat.ofDigitChars 10 (ds ++ List.replicate k '0') 0 = _
  rw [Nat.ofDigitChars_append, Nat.ofDigitChars_replicate_zero, Nat.mul_comm]
  rfl

theorem value_replicate_zero_append (k : Nat) (ds : List Char) :
    value (List.replicate k '0' ++ ds) = value ds := by
  show Nat.ofDigitChars 10 (List.replicate k '0' ++ ds) 0 = _
  rw [Nat.ofDigitChars_append, Nat.ofDigitChars_replicate_zero, Nat.mul_zero]
  rfl

theorem value_wholeDigits (n : Nat) : value (DecimalForm.wholeDigits n) = n :=
  Nat.ofDigitChars_ten_toDigits

theorem sign_of_not_sign {text : List Char} (hminus : c ≠ '-') (hplus : c ≠ '+') :
    sign (c :: text) = (false, c :: text) := by
  unfold sign
  split <;> simp_all

theorem sign_of_digit (hc : c.isDigit = true) (text : List Char) :
    sign (c :: text) = (false, c :: text) := by
  have hclass : ∀ x ∈ digitChars, x ≠ '-' ∧ x ≠ '+' := List.all_iff_forall_prop.mp (by decide)
  obtain ⟨hminus, hplus⟩ := hclass c (mem_digitChars hc)
  exact sign_of_not_sign hminus hplus

theorem span_digits (hcs : ∀ x ∈ cs, x.isDigit = true) (rest : List Char)
    (hrest : ∀ x ∈ rest.head?, x.isDigit = false) :
    (cs ++ rest).span Char.isDigit = (cs, rest) := by
  rw [List.span_eq_takeWhile_dropWhile, List.takeWhile_append_of_pos hcs,
    List.dropWhile_append_of_pos hcs]
  cases rest with
  | nil => simp
  | cons x rest =>
    have hx : ¬ x.isDigit = true := by simpa using hrest x rfl
    rw [List.takeWhile_cons_of_neg hx, List.dropWhile_cons_of_neg hx, List.append_nil]

theorem read?_whole (hc : c.isDigit = true) (hcs : ∀ x ∈ cs, x.isDigit = true) :
    read? (c :: cs) = some (.ofDecimal (value (c :: cs)) 0) := by
  have hall : ∀ x ∈ c :: cs, x.isDigit = true := List.forall_mem_cons.mpr ⟨hc, hcs⟩
  have hspan := span_digits hall [] (by simp)
  rw [List.append_nil] at hspan
  unfold read? unsigned? parts?
  rw [sign_of_digit hc]
  simp only [hspan]
  simp [fraction, exponent?]

theorem read?_fraction (hc : c.isDigit = true) (hcs : ∀ x ∈ cs, x.isDigit = true)
    (hds : ∀ x ∈ ds, x.isDigit = true) :
    read? (c :: (cs ++ '.' :: ds))
      = some (.ofDecimal (value (c :: cs ++ ds)) (-(ds.length : Int))) := by
  have hall : ∀ x ∈ c :: cs, x.isDigit = true := List.forall_mem_cons.mpr ⟨hc, hcs⟩
  have hspan := span_digits hall ('.' :: ds) (by simp)
  have hfrac := span_digits hds [] (by simp)
  rw [List.append_nil] at hfrac
  unfold read? unsigned? parts?
  rw [sign_of_digit hc, ← List.cons_append]
  simp only [hspan, fraction, hfrac]
  simp [exponent?]

/-- A text that starts like a number token has no sign and is no word, so it is plain. -/
theorem plain_of_read? {x : Binary64} (hc : c.isDigit = true ∨ c = '.')
    (h : read? (c :: cs) = some x) : x.Plain := by
  have hclass : ∀ d ∈ '.' :: digitChars,
      d ≠ '-' ∧ d ≠ '+' ∧ d.toLower ≠ 'i' ∧ d.toLower ≠ 'n' :=
    List.all_iff_forall_prop.mp (by decide)
  have hmem : c ∈ '.' :: digitChars := by
    rcases hc with hc | rfl
    · exact List.mem_cons_of_mem _ (mem_digitChars hc)
    · exact List.mem_cons_self
  obtain ⟨hminus, hplus, hi, hn⟩ := hclass c hmem
  unfold read? at h
  rw [sign_of_not_sign hminus hplus] at h
  simp only [Bool.false_eq_true, if_false, Option.map_eq_some_iff, exists_eq_right] at h
  unfold unsigned? at h
  split at h
  · cases h
    exact Binary64.plain_ofDecimal ..
  · simp [named?, hi, hn] at h

end Prototalk.Decimal

/-! ## §2. Writing. -/

namespace Prototalk.DecimalForm

open Decimal Lexer

theorem wholeDigits_eq (n : Nat) : ∃ c cs, wholeDigits n = c :: cs ∧ c.isDigit = true
    ∧ ∀ x ∈ cs, x.isDigit = true := by
  have hall : ∀ x ∈ wholeDigits n, x.isDigit = true :=
    fun x hx => Nat.isDigit_of_mem_toDigits (by decide) (by decide) hx
  cases hds : wholeDigits n with
  | nil => exact absurd hds Nat.toDigits_ne_nil
  | cons c cs =>
    rw [hds, List.forall_mem_cons] at hall
    exact ⟨c, cs, rfl, hall⟩

/-- Zeros at the end are as good as a power of ten. -/
theorem ofDecimal_mul_pow (digits e : Nat) (hfinite : Binary64.ofDecimal digits e ≠ .infinity) :
    Binary64.ofDecimal (digits * 10 ^ e) 0 = .ofDecimal digits e := by
  by_cases hzero : digits = 0
  · simp [Binary64.ofDecimal, hzero]
  · have hmul : digits * 10 ^ e ≠ 0 := Nat.mul_ne_zero hzero (by positivity)
    unfold Binary64.ofDecimal at hfinite ⊢
    rw [if_neg hzero] at hfinite
    rw [if_neg hzero, if_neg hmul]
    dsimp only at hfinite ⊢
    -- beyond that power the answer is infinity, which is excluded
    by_cases he : 400 < e
    · rw [if_pos he] at hfinite
      exact absurd rfl hfinite
    · rw [if_neg he, if_neg (by omega), Nat.pow_eq, Nat.pow_zero, Nat.mul_one]
      rfl

/-- Digits with a point between them. -/
theorem read?_point {whole frac : List Char} (hwhole : ∀ x ∈ whole, x.isDigit = true)
    (hfrac : ∀ x ∈ frac, x.isDigit = true) (hwholePos : 0 < whole.length)
    (hfracPos : 0 < frac.length) :
    IsNumeral (whole ++ '.' :: frac) ∧ read? (whole ++ '.' :: frac)
      = some (.ofDecimal (value (whole ++ frac)) (-(frac.length : Int))) := by
  cases whole with
  | nil => exact absurd hwholePos (Nat.lt_irrefl 0)
  | cons w whole =>
    cases frac with
    | nil => exact absurd hfracPos (Nat.lt_irrefl 0)
    | cons f frac =>
      obtain ⟨hw, hrest⟩ := List.forall_mem_cons.mp hwhole
      exact ⟨.fraction hw hrest hfrac, read?_fraction hw hrest hfrac⟩

/-- **The positional layout is a numeral that says the digits and the power of ten.** -/
theorem read?_positional (d : DecimalForm)
    (hfinite : Binary64.ofDecimal d.digits d.exponent ≠ .infinity) :
    IsNumeral d.positional ∧ read? d.positional = some (.ofDecimal d.digits d.exponent) := by
  obtain ⟨digits, exponent⟩ := d
  obtain ⟨c, cs, hds, hc, hcs⟩ := wholeDigits_eq digits
  have hvalue := value_wholeDigits digits
  have hall : ∀ x ∈ wholeDigits digits, x.isDigit = true := by
    rw [hds]
    exact List.forall_mem_cons.mpr ⟨hc, hcs⟩
  unfold positional
  cases exponent with
  | ofNat e =>
    have hzeros : ∀ x ∈ cs ++ List.replicate e '0', x.isDigit = true := by
      intro x hx
      rcases List.mem_append.mp hx with hx | hx
      · exact hcs x hx
      · rw [(List.mem_replicate.mp hx).2]
        rfl
    dsimp only
    rw [hds, List.cons_append]
    refine ⟨.whole hc hzeros, ?_⟩
    rw [read?_whole hc hzeros, ← List.cons_append, value_append_replicate_zero, ← hds, hvalue,
      ofDecimal_mul_pow digits e hfinite]
    rfl
  | negSucc e =>
    dsimp only
    by_cases hplaces : e + 1 < (wholeDigits digits).length
    -- the point stands inside the digits
    · rw [if_pos hplaces]
      have hcut : (wholeDigits digits).length - (e + 1) < (wholeDigits digits).length := by omega
      have hpoint := read?_point (fun x hx => hall x (List.mem_of_mem_take hx))
        (fun x hx => hall x (List.mem_of_mem_drop hx))
        (show 0 < ((wholeDigits digits).take ((wholeDigits digits).length - (e + 1))).length by
          rw [List.length_take]; omega)
        (show 0 < ((wholeDigits digits).drop ((wholeDigits digits).length - (e + 1))).length by
          rw [List.length_drop]; omega)
      rw [List.take_append_drop, hvalue, List.length_drop,
        show (wholeDigits digits).length - ((wholeDigits digits).length - (e + 1)) = e + 1 by omega]
        at hpoint
      exact hpoint
    -- the digits are too few and get zeros in front of them
    · rw [if_neg hplaces]
      have hfrac : ∀ x ∈ List.replicate (e + 1 - (wholeDigits digits).length) '0'
          ++ wholeDigits digits, x.isDigit = true := by
        intro x hx
        rcases List.mem_append.mp hx with hx | hx
        · rw [(List.mem_replicate.mp hx).2]
          rfl
        · exact hall x hx
      have hlen : (List.replicate (e + 1 - (wholeDigits digits).length) '0'
          ++ wholeDigits digits).length = e + 1 := by
        rw [List.length_append, List.length_replicate]
        omega
      have hzero : ∀ x ∈ ['0'], x.isDigit = true := List.all_eq_true.mp (by decide)
      have hpoint := read?_point hzero hfrac (by decide) (by omega)
      have hzeros : value (['0'] ++ (List.replicate (e + 1 - (wholeDigits digits).length) '0'
          ++ wholeDigits digits)) = digits := by
        rw [List.singleton_append, ← List.cons_append, ← List.replicate_succ,
          value_replicate_zero_append, hvalue]
      rw [hzeros, hlen] at hpoint
      exact hpoint

end Prototalk.DecimalForm

namespace Prototalk.Binary64

open Decimal Lexer

variable {x : Binary64}

/-! ## §3. Digits that read back. -/

theorem ofDecimal_candidate {exponent : Int} {d : DecimalForm}
    (h : x.candidate? exponent = some d) : ofDecimal d.digits d.exponent = x := by
  unfold candidate? at h
  dsimp only at h
  split at h
  · rename_i hbelow habove
    cases h
    dsimp only
    split
    · exact beq_iff_eq.mp hbelow
    · exact beq_iff_eq.mp habove
  · rename_i hbelow _
    cases h
    exact beq_iff_eq.mp hbelow
  · rename_i _ habove
    cases h
    exact beq_iff_eq.mp habove
  · cases h

theorem scaled_pos (hpos : 0 < x.word) (hx : x.word < infinityWord) : 0 < x.scaled := by
  obtain ⟨m, hscaled, hword⟩ := scaled_eq hx
  by_contra hzero
  have hzero : x.scaled = 0 := by omega
  rw [hzero] at hscaled hword
  simp at hscaled hword
  omega

/-- All the digits of a number, for a unit that is a power of two. -/
theorem ofDecimal_exact {k : Nat} (hunit : unitsPerOne = Nat.pow 2 (k + 1)) (hpos : 0 < x.word)
    (hx : x.word < infinityWord) : ofDecimal (x.scaled * Nat.pow 5 (k + 1)) (.negSucc k) = x := by
  have hscaled := scaled_pos hpos hx
  rw [Nat.pow_eq] at hunit ⊢
  have hdigits : x.scaled * 5 ^ (k + 1) ≠ 0 := Nat.mul_ne_zero (by omega) (by positivity)
  -- so many digits that the shortcut for tiny numbers is not taken
  have hlog : k + 1 ≤ Nat.log2 (x.scaled * 5 ^ (k + 1)) := by
    rw [Nat.le_log2 hdigits]
    calc 2 ^ (k + 1) ≤ 5 ^ (k + 1) := Nat.pow_le_pow_left (by decide) _
      _ ≤ x.scaled * 5 ^ (k + 1) := Nat.le_mul_of_pos_left _ hscaled
  have hexact : x.scaled * 5 ^ (k + 1) * unitsPerOne = x.scaled * 10 ^ (k + 1) := by
    rw [hunit, Nat.mul_assoc, ← Nat.mul_pow]
  unfold ofDecimal
  rw [if_neg hdigits]
  dsimp only
  rw [if_neg (by omega), Nat.pow_eq]
  exact ofRatio_of_scaled hx (by positivity) hexact

theorem ofDecimal_exactForm (hpos : 0 < x.word) (hx : x.word < infinityWord) :
    ofDecimal x.exactForm.digits x.exactForm.exponent = x :=
  ofDecimal_exact rfl hpos hx

theorem ofDecimal_getD {found : Option DecimalForm} {other : DecimalForm}
    (hfound : ∀ d, found = some d → ofDecimal d.digits d.exponent = x)
    (hother : ofDecimal other.digits other.exponent = x) :
    ofDecimal (found.getD other).digits (found.getD other).exponent = x := by
  cases found with
  | none => exact hother
  | some d => exact hfound d rfl

/-- **The digits that are written read back as the number.** -/
theorem ofDecimal_shortest (hpos : 0 < x.word) (hx : x.word < infinityWord) :
    ofDecimal x.shortest.digits x.shortest.exponent = x := by
  refine ofDecimal_getD (fun d hd => ?_) (ofDecimal_exactForm hpos hx)
  obtain ⟨n, -, hn⟩ := List.exists_of_findSome?_eq_some hd
  exact ofDecimal_candidate hn

end Prototalk.Binary64

namespace Prototalk.Symbol

open Decimal Lexer Binary64

variable {x : Binary64}

/-- **A number that has no sign is written as a numeral that reads back.** -/
theorem read?_numberChars (hx : x.Plain) :
    IsNumeral (numberChars x) ∧ read? (numberChars x) = some x := by
  have hword := plain_iff.mp hx
  unfold numberChars
  by_cases hinf : x.isInfinite = true
  · rw [if_pos hinf]
    have hx : x = infinity := by
      rw [← ofWord_word x, ← hx.magnitude_eq]
      exact congrArg ofWord (by simpa [isInfinite] using hinf)
    rw [hx]
    -- infinity is written as a power that is too large
    have hnumeral : IsNumeral ('1' :: ([] ++ 'e' :: '9' :: ['9', '9'])) :=
      .power rfl (by simp) (List.all_eq_true.mp (by decide))
    exact ⟨hnumeral, rfl⟩
  · rw [if_neg hinf]
    have hmag := hx.magnitude_eq
    have hlt : x.word < infinityWord := by
      have : x.word ≠ infinityWord := by simpa [isInfinite, hmag] using hinf
      omega
    have hchars : x.chars = x.unsignedText := by
      rw [chars, hx.1, hx.2, if_neg Bool.false_ne_true, if_neg Bool.false_ne_true]
    rw [hchars, unsignedText, if_neg hinf]
    by_cases hzero : x.isZero = true
    · have hx : x = zero := by
        rw [← ofWord_word x, ← hmag]
        exact congrArg ofWord (by simpa [isZero] using hzero)
      rw [if_pos hzero, hx]
      exact ⟨.whole rfl (by simp), rfl⟩
    · rw [if_neg hzero, hmag, ofWord_word]
      have hpos : 0 < x.word := by
        have : x.word ≠ 0 := by simpa [isZero, hmag] using hzero
        omega
      have hback := ofDecimal_shortest hpos hlt
      have hread := DecimalForm.read?_positional x.shortest (by
        rw [hback]
        intro hinfinity
        rw [hinfinity, word_infinity] at hlt
        exact Nat.lt_irrefl _ hlt)
      rw [hback] at hread
      exact hread

end Prototalk.Symbol
