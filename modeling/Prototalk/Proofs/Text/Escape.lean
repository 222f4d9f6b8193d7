/-
  Prototalk.Proofs.Text.Escape
  ────────────────────────────────
  **WHICH STRINGS CAN BE READ, AND AS WHAT.**

  The inside of a string is a row of pieces, each of which writes one
  character: a plain character, a letter behind a backslash, or a number
  behind a backslash (`Piece`, `Writes`).  Everything else is spoiled by the
  first place where a backslash starts no piece (`Spoiled`).

  Numbers are read as integers of a wanted size.  Where hexadecimal places are
  counted before they are read, this lets a plus sign pass in the first of
  them: `\x+5` is read like `\x05` (`Signed`).  So a grammar of digits alone is
  not what strings are read by (`not_forall_readBy_places`).

    • digits and their value decide a number (`magnitude_eq_ok_iff`),
    • a piece decides an escape (`unescape_of_piece`, `piece_of_unescape`),
    • and pieces decide the text (`decodeFrom_of_writes`,
      `decodeFrom_of_spoiled`, `writes_or_spoiled`).

  Main statement: `readBy_signed_and_places`.
-/
import Mathlib.Data.Bool.AllAny
import Mathlib.Data.List.Basic
import Mathlib.Data.Nat.Digits.Defs
import Prototalk.Message.Literal
import Prototalk.Proofs.Text.Paired
import Prototalk.Proofs.Text.Quoted

namespace Prototalk

/-! ## §1. Numbers as they are written. -/

namespace Radix

variable {base limit n m d : Nat} {tooFar : Fault} {c : Char} {digits : List Char}

/-- The character is the digit of this value; letters may be of either case. -/
def Digit (base : Nat) (c : Char) (d : Nat) : Prop :=
  d < base ∧ (c = Nat.digitChar d ∨ c = (Nat.digitChar d).toUpper)

/-- The digits write the number, the highest one first. -/
def Spells (base : Nat) (digits : List Char) (n : Nat) : Prop :=
  ∃ values, List.Forall₂ (Digit base) digits values ∧ n = Nat.ofDigits base values.reverse

theorem le_iff_toNat_le (c c' : Char) : c ≤ c' ↔ c.toNat ≤ c'.toNat := UInt32.le_iff_toNat_le

theorem digit_of_toNat (hd : d < 16) (hc : c.toNat = '0'.toNat + d ∧ d < 10
    ∨ c.toNat = 'a'.toNat + (d - 10) ∧ 10 ≤ d ∨ c.toNat = 'A'.toNat + (d - 10) ∧ 10 ≤ d) :
    c = Nat.digitChar d ∨ c = (Nat.digitChar d).toUpper := by
  have hdecimal : ∀ d < 10, Char.ofNat ('0'.toNat + d) = Nat.digitChar d := by decide
  have hlower : ∀ d < 6, Char.ofNat ('a'.toNat + d) = Nat.digitChar (d + 10) := by decide
  have hupper : ∀ d < 6, Char.ofNat ('A'.toNat + d) = (Nat.digitChar (d + 10)).toUpper := by decide
  rw [← Char.ofNat_toNat c]
  rcases hc with ⟨hc, hlt⟩ | ⟨hc, hle⟩ | ⟨hc, hle⟩ <;> rw [hc]
  · exact .inl (hdecimal d hlt)
  · rw [hlower (d - 10) (by omega), Nat.sub_add_cancel hle]
    exact .inl rfl
  · rw [hupper (d - 10) (by omega), Nat.sub_add_cancel hle]
    exact .inr rfl

theorem digit?_eq_some_iff (hbase : base ≤ 16) : digit? base c = some d ↔ Digit base c d := by
  constructor
  · intro h
    obtain ⟨hvalue, hlt⟩ := Option.filter_eq_some_iff.mp h
    have hd : d < base := by simpa using hlt
    have hzero : '0'.toNat = 48 ∧ 'a'.toNat = 97 ∧ 'A'.toNat = 65 := by decide
    refine ⟨hd, digit_of_toNat (by omega) ?_⟩
    simp only [le_iff_toNat_le] at hvalue
    split at hvalue
    · cases hvalue
      rename_i hc
      have hnine : '9'.toNat = 57 := rfl
      omega
    split at hvalue
    · cases hvalue
      omega
    split at hvalue
    · cases hvalue
      omega
    · cases hvalue
  · rintro ⟨hlt, hc⟩
    have hall : ∀ d < 16, digit? 16 (Nat.digitChar d) = some d
        ∧ digit? 16 (Nat.digitChar d).toUpper = some d := by decide
    have hread : digit? 16 c = some d := by
      rcases hc with rfl | rfl
      · exact (hall d (by omega)).1
      · exact (hall d (by omega)).2
    obtain ⟨hvalue, -⟩ := Option.filter_eq_some_iff.mp hread
    exact Option.filter_eq_some_iff.mpr ⟨hvalue, by simpa using hlt⟩

/-- Digits are put behind a number as long as it does not grow too large. -/
theorem foldlM_eq_ok_iff (hbase : 1 ≤ base) (hbase' : base ≤ 16) (hm : m ≤ limit) :
    digits.foldlM (appendDigit base limit tooFar) m = .ok n ↔ ∃ values,
      List.Forall₂ (Digit base) digits values
        ∧ n = values.foldl (fun n d => base * n + d) m ∧ n ≤ limit := by
  induction digits generalizing m with
  | nil =>
    constructor
    · rintro ⟨⟩
      exact ⟨[], .nil, rfl, hm⟩
    · rintro ⟨values, hvalues, rfl, -⟩
      cases hvalues
      rfl
  | cons c digits ih =>
    rw [List.foldlM_cons, appendDigit]
    constructor
    · intro h
      split at h
      · cases h
      · rename_i d hd
        split at h
        · rename_i hle
          obtain ⟨values, hvalues, hn, hlimit⟩ := (ih hle).mp h
          exact ⟨d :: values, .cons ((digit?_eq_some_iff hbase').mp hd) hvalues, hn, hlimit⟩
        · cases h
    · rintro ⟨_, hvalues, hn, hlimit⟩
      cases hvalues with
      | @cons _ d _ values hd hvalues =>
        -- a number does not get smaller by digits behind it
        have hgrows (values : List Nat) (k : Nat) :
            k ≤ values.foldl (fun n d => base * n + d) k := by
          induction values generalizing k with
          | nil => exact Nat.le_refl k
          | cons d values ih =>
            refine Nat.le_trans ?_ (ih (base * k + d))
            exact Nat.le_trans (Nat.le_mul_of_pos_left k hbase) (Nat.le_add_right ..)
        have hle : base * m + d ≤ limit := Nat.le_trans (hgrows values _) (hn ▸ hlimit)
        rw [(digit?_eq_some_iff hbase').mpr hd]
        dsimp only
        rw [if_pos hle]
        exact (ih hle).mpr ⟨values, hvalues, hn, hlimit⟩

theorem foldl_eq_ofDigits (values : List Nat) :
    values.foldl (fun n d => base * n + d) 0 = Nat.ofDigits base values.reverse := by
  rw [← List.foldr_reverse, Nat.ofDigits_eq_foldr]
  congr 1
  funext d n
  exact Nat.add_comm ..

/-- **Digits decide a number.** -/
theorem magnitude_eq_ok_iff (hbase : 1 ≤ base) (hbase' : base ≤ 16) :
    magnitude base limit tooFar digits = .ok n
      ↔ digits ≠ [] ∧ Spells base digits n ∧ n ≤ limit := by
  have hfold : digits.foldlM (appendDigit base limit tooFar) 0 = .ok n ↔ _ :=
    foldlM_eq_ok_iff hbase hbase' (Nat.zero_le limit)
  simp only [foldl_eq_ofDigits] at hfold
  unfold magnitude Spells
  cases digits with
  | nil => simp
  | cons c digits =>
    rw [if_neg (by simp), hfold]
    simp only [ne_eq, List.cons_ne_nil, not_false_eq_true, true_and]
    constructor
    · rintro ⟨values, hvalues, hn, hlimit⟩
      exact ⟨⟨values, hvalues, hn⟩, hlimit⟩
    · rintro ⟨⟨values, hvalues, hn⟩, hlimit⟩
      exact ⟨values, hvalues, hn, hlimit⟩

theorem not_digit_plus (hbase : base ≤ 16) : ¬ Digit base '+' d := by
  intro h
  have hread := (digit?_eq_some_iff hbase).mpr h
  cases hread

/-- A plus sign may stand in front of a number. -/
theorem unsigned_eq_ok_iff (hbase : 1 ≤ base) (hbase' : base ≤ 16) {width : Nat} :
    unsigned base width digits = .ok n ↔ n ≤ Nat.pow 2 width - 1
      ∧ (digits ≠ [] ∧ Spells base digits n
        ∨ ∃ more, digits = '+' :: more ∧ more ≠ [] ∧ Spells base more n) := by
  unfold unsigned
  split
  · rename_i more
    have hnone : ¬ Spells base ('+' :: more) n := by
      rintro ⟨values, hvalues, -⟩
      cases hvalues with
      | cons hd _ => exact not_digit_plus hbase' hd
    rw [magnitude_eq_ok_iff hbase hbase']
    constructor
    · rintro ⟨hne, hspells, hle⟩
      exact ⟨hle, .inr ⟨more, rfl, hne, hspells⟩⟩
    · rintro ⟨hle, ⟨-, hspells⟩ | ⟨_, hmore, hne, hspells⟩⟩
      · exact absurd hspells hnone
      · obtain ⟨-, rfl⟩ := List.cons.inj hmore
        exact ⟨hne, hspells, hle⟩
  · rename_i hplus
    rw [magnitude_eq_ok_iff hbase hbase']
    constructor
    · rintro ⟨hne, hspells, hle⟩
      exact ⟨hle, .inl ⟨hne, hspells⟩⟩
    · rintro ⟨hle, ⟨hne, hspells⟩ | ⟨more, rfl, -, -⟩⟩
      · exact ⟨hne, hspells, hle⟩
      · exact absurd rfl (hplus more)

end Radix

/-! ## §2. Strings as they are written. -/

namespace Quoted

open Radix (Spells)

/-- The letters that stand for one character each. -/
def letters : List (Char × Char) :=
  [('a', '\x07'), ('b', '\x08'), ('f', '\x0c'), ('n', '\n'), ('r', '\r'), ('t', '\t'),
    ('v', '\x0b'), ('\\', '\\'), ('"', '"')]

/-- The letters in front of hexadecimal places, and the number of places. -/
def markers : List (Char × Nat) := [('x', 2), ('u', 4), ('U', 8)]

/-- So many places filled with hexadecimal digits. -/
def Places (width : Nat) (digits : List Char) (n : Nat) : Prop :=
  digits.length = width ∧ Spells 16 digits n

/-- So many places, in the first of which a plus sign may stand. -/
def Signed (width : Nat) (digits : List Char) (n : Nat) : Prop :=
  Places width digits n
    ∨ ∃ more, digits = '+' :: more ∧ more.length + 1 = width ∧ Spells 16 more n

/-- What may be written for one character.  What fills the places of a code point is a
parameter. -/
inductive Piece (Fills : Nat → List Char → Nat → Prop) : List Char → Char → Prop where
  | plain {c : Char} (hc : c ≠ '\\') : Piece Fills [c] c
  | letter {e c : Char} (he : (e, c) ∈ letters) : Piece Fills ['\\', e] c
  | codePoint {marker c : Char} {width : Nat} {digits : List Char}
      (hmarker : (marker, width) ∈ markers) (hdigits : Fills width digits c.toNat) :
      Piece Fills ('\\' :: marker :: digits) c
  | octal {digits : List Char} {c : Char} (hlength : digits.length = 3)
      (hdigits : Spells 8 digits c.toNat) (hc : c.toNat ≤ 0xff) : Piece Fills ('\\' :: digits) c

/-- The pieces of a text write these characters, one after the other. -/
inductive Writes (Fills : Nat → List Char → Nat → Prop) : List Char → List Char → Prop where
  | nil : Writes Fills [] []
  | cons {word content out : List Char} {c : Char} (hword : Piece Fills word c)
      (hrest : Writes Fills content out) : Writes Fills (word ++ content) (c :: out)

/-- How many characters belong to an escape besides the one behind its backslash. -/
def asked (c : Char) : Nat :=
  if c ∈ ['0', '1', '2', '3', '4', '5', '6', '7'] then 2 else (markers.lookup c).getD 0

/-- A backslash with the characters that belong to its escape, as far as there are any. -/
def escapeOf : List Char → List Char
  | [] => ['\\']
  | c :: rest => '\\' :: c :: rest.take (asked c)

/-- Behind some pieces there is a backslash that starts no piece; `bad` is its escape. -/
def Spoiled (Fills : Nat → List Char → Nat → Prop) (content bad : List Char) : Prop :=
  ∃ front out rest, content = front ++ '\\' :: rest ∧ Writes Fills front out
    ∧ (∀ word c more, Piece Fills word c → '\\' :: rest ≠ word ++ more) ∧ bad = escapeOf rest

/-! ## §3. Escapes. -/

variable {text rest more word digits content out bad : List Char} {c d : Char} {width : Nat}

theorem letter?_eq_some_iff : letter? c = some d ↔ (c, d) ∈ letters := by
  constructor
  · intro h
    unfold letter? at h
    split at h <;> cases h <;> decide
  · intro h
    have hall : ∀ pair ∈ letters, letter? pair.1 = some pair.2 := by decide
    exact hall (c, d) h

theorem places?_eq_some_iff : places? c = some width ↔ (c, width) ∈ markers := by
  constructor
  · intro h
    unfold places? at h
    split at h <;> cases h <;> decide
  · intro h
    have hall : ∀ pair ∈ markers, places? pair.1 = some pair.2 := by decide
    exact hall (c, width) h

theorem scalar?_eq_some_iff {n : Nat} : scalar? n = some c ↔ c.toNat = n := by
  unfold scalar?
  by_cases hvalid : n.isValidChar
  · rw [dif_pos hvalid]
    constructor
    · rintro ⟨⟩
      rfl
    · rintro rfl
      exact congrArg some (Char.toNat_inj.mp rfl)
  · rw [dif_neg hvalid]
    constructor
    · rintro ⟨⟩
    · rintro rfl
      exact absurd c.valid hvalid

theorem two_le_of_mem_markers (h : (c, width) ∈ markers) : 2 ≤ width := by
  have hall : ∀ pair ∈ markers, 2 ≤ pair.2 := by decide
  exact hall (c, width) h

/-- **The places of a code point.** -/
theorem codePoint?_eq_some_iff (hwidth : 2 ≤ width) :
    codePoint? width digits = some c ↔ Signed width digits c.toNat := by
  have hunsigned : Radix.unsigned 16 32 digits = .ok c.toNat ↔ _ :=
    Radix.unsigned_eq_ok_iff (by decide) (by decide)
  unfold codePoint?
  constructor
  · intro h
    split at h
    · rename_i hlength
      rw [beq_iff_eq] at hlength
      split at h
      · rename_i n hread
        obtain rfl := scalar?_eq_some_iff.mp h
        obtain ⟨-, ⟨-, hspells⟩ | ⟨more, rfl, -, hspells⟩⟩ := hunsigned.mp hread
        · exact .inl ⟨hlength, hspells⟩
        · exact .inr ⟨more, rfl, hlength, hspells⟩
      · cases h
    · cases h
  · intro h
    have hle : c.toNat ≤ Nat.pow 2 32 - 1 := Nat.le_pred_of_lt c.val.toNat_lt
    have hread : digits.length = width ∧ Radix.unsigned 16 32 digits = .ok c.toNat := by
      rcases h with ⟨hlength, hspells⟩ | ⟨more, rfl, hlength, hspells⟩
      · have hne : digits ≠ [] := List.ne_nil_of_length_pos (by omega)
        exact ⟨hlength, hunsigned.mpr ⟨hle, .inl ⟨hne, hspells⟩⟩⟩
      · have hne : more ≠ [] := List.ne_nil_of_length_pos (by omega)
        exact ⟨hlength, hunsigned.mpr ⟨hle, .inr ⟨more, rfl, hne, hspells⟩⟩⟩
    rw [if_pos (by simpa using hread.1), hread.2]
    exact scalar?_eq_some_iff.mpr rfl

theorem isOctal_iff : isOctal c = true ↔ ∃ d, Radix.Digit 8 c d := by
  constructor
  · intro h
    simp only [isOctal, Bool.and_eq_true, decide_eq_true_eq, Radix.le_iff_toNat_le] at h
    have hends : '0'.toNat = 48 ∧ '7'.toNat = 55 := by decide
    exact ⟨c.toNat - 48, by omega, Radix.digit_of_toNat (by omega) (by omega)⟩
  · rintro ⟨d, hlt, hc⟩
    have hall : ∀ d < 8, isOctal (Nat.digitChar d) = true
        ∧ isOctal (Nat.digitChar d).toUpper = true := by decide
    rcases hc with rfl | rfl
    · exact (hall d hlt).1
    · exact (hall d hlt).2

theorem all_isOctal {n : Nat} (h : Spells 8 digits n) : ∀ c ∈ digits, isOctal c = true := by
  obtain ⟨values, hvalues, -⟩ := h
  induction hvalues with
  | nil => simp
  | cons hd _ ih => exact List.forall_mem_cons.mpr ⟨isOctal_iff.mpr ⟨_, hd⟩, ih⟩

/-- **Three octal digits.** -/
theorem octal?_eq_some_iff :
    octal? digits = some c ↔ digits.length = 3 ∧ Spells 8 digits c.toNat ∧ c.toNat ≤ 0xff := by
  have hunsigned : Radix.unsigned 8 32 digits = .ok c.toNat ↔ _ :=
    Radix.unsigned_eq_ok_iff (by decide) (by decide)
  unfold octal?
  constructor
  · intro h
    split at h
    · rename_i hshape
      rw [Bool.and_eq_true, beq_iff_eq, List.all_eq_true] at hshape
      split at h
      · rename_i n hread
        split at h
        · rename_i hle
          obtain rfl := scalar?_eq_some_iff.mp h
          obtain ⟨-, ⟨-, hspells⟩ | ⟨more, rfl, -, -⟩⟩ := hunsigned.mp hread
          · exact ⟨hshape.1, hspells, hle⟩
          · exact absurd (hshape.2 '+' List.mem_cons_self) (by decide)
        · cases h
      · cases h
    · cases h
  · rintro ⟨hlength, hspells, hle⟩
    have hne : digits ≠ [] := List.ne_nil_of_length_pos (by omega)
    have hlimit : c.toNat ≤ Nat.pow 2 32 - 1 := Nat.le_trans hle (by decide)
    have hread := hunsigned.mpr ⟨hlimit, .inl ⟨hne, hspells⟩⟩
    have hshape : (digits.length == 3 && digits.all isOctal) = true := by
      rw [Bool.and_eq_true, beq_iff_eq, List.all_eq_true]
      exact ⟨hlength, all_isOctal hspells⟩
    rw [if_pos hshape, hread]
    dsimp only
    rw [if_pos hle]
    exact scalar?_eq_some_iff.mpr rfl

theorem of_isOctal {p : Char → Bool} (hp : ∀ d < 8, p (Nat.digitChar d) = true
    ∧ p (Nat.digitChar d).toUpper = true) (hc : isOctal c = true) : p c = true := by
  obtain ⟨d, hlt, rfl | rfl⟩ := isOctal_iff.mp hc
  · exact (hp d hlt).1
  · exact (hp d hlt).2

/-- **A piece is read as its character**, whatever stands behind it. -/
theorem unescape_of_piece (h : Piece Signed ('\\' :: word) c) (more : List Char) :
    unescape (word ++ more) = .ok (c, more) := by
  cases h with
  | plain hc => exact absurd rfl hc
  | letter he =>
    simp only [List.cons_append, List.nil_append, unescape, letter?_eq_some_iff.mpr he]
  | @codePoint marker c width digits hmarker hdigits =>
    have hnone : ∀ pair ∈ markers, letter? pair.1 = none := by decide
    have hlength : digits.length = width := by
      rcases hdigits with ⟨hlength, -⟩ | ⟨more, rfl, hlength, -⟩
      · exact hlength
      · exact hlength
    have hpoint := (codePoint?_eq_some_iff (two_le_of_mem_markers hmarker)).mpr hdigits
    subst hlength
    simp only [List.cons_append, unescape, hnone _ hmarker, places?_eq_some_iff.mpr hmarker,
      List.take_left, List.drop_left, hpoint]
  | octal hlength hdigits hc =>
    obtain ⟨first, second, third, rfl⟩ := List.length_eq_three.mp hlength
    have hfirst : isOctal first = true := all_isOctal hdigits first List.mem_cons_self
    have hletter : (letter? first).isNone = true :=
      of_isOctal (p := fun c => (letter? c).isNone) (by decide) hfirst
    have hplaces : (places? first).isNone = true :=
      of_isOctal (p := fun c => (places? c).isNone) (by decide) hfirst
    have hoctal : octal? [first, second, third] = some c :=
      octal?_eq_some_iff.mpr ⟨rfl, hdigits, hc⟩
    simp only [List.cons_append, List.nil_append, unescape, Option.isNone_iff_eq_none.mp hletter,
      Option.isNone_iff_eq_none.mp hplaces, hfirst, if_true, List.take_succ_cons, List.take_zero,
      List.drop_succ_cons, List.drop_zero, hoctal]

/-- **What is read as a character is a piece.** -/
theorem piece_of_unescape (h : unescape rest = .ok (c, more)) :
    ∃ word, rest = word ++ more ∧ Piece Signed ('\\' :: word) c := by
  cases rest with
  | nil => cases h
  | cons e rest =>
    simp only [unescape] at h
    split at h
    · rename_i hletter
      cases h
      exact ⟨[e], rfl, .letter (letter?_eq_some_iff.mp hletter)⟩
    · rename_i width _ hplaces
      have hmarker := places?_eq_some_iff.mp hplaces
      split at h
      · rename_i hpoint
        cases h
        refine ⟨e :: rest.take width, by simp, .codePoint hmarker ?_⟩
        exact (codePoint?_eq_some_iff (two_le_of_mem_markers hmarker)).mp hpoint
      · cases h
    · split at h
      · split at h
        · rename_i hoctal
          cases h
          obtain ⟨hlength, hdigits, hle⟩ := octal?_eq_some_iff.mp hoctal
          exact ⟨e :: rest.take 2, by simp, .octal hlength hdigits hle⟩
        · cases h
      · cases h

theorem lookup_markers (c : Char) : markers.lookup c = places? c := by
  unfold places?
  split
  · rfl
  · rfl
  · rfl
  · rename_i hx hu hU
    simp only [markers, List.lookup_cons, List.lookup_nil, beq_false_of_ne hx, beq_false_of_ne hu,
      beq_false_of_ne hU]

/-- What is not read is reported as it was written. -/
theorem escapeOf_of_unescape (h : unescape rest = .error bad) : bad = escapeOf rest := by
  cases rest with
  | nil =>
    cases h
    rfl
  | cons e rest =>
    have hlisted : ∀ x ∈ ['0', '1', '2', '3', '4', '5', '6', '7'],
        isOctal x = true ∧ places? x = none := List.all_iff_forall_prop.mp (by decide)
    simp only [unescape] at h
    dsimp only [escapeOf, asked]
    rw [lookup_markers]
    split at h
    · cases h
    · rename_i width _ hplaces
      split at h
      · cases h
      · cases h
        have hnot : e ∉ ['0', '1', '2', '3', '4', '5', '6', '7'] := by
          intro hmem
          rw [(hlisted e hmem).2] at hplaces
          cases hplaces
        rw [if_neg hnot, hplaces]
        rfl
    · rename_i hplaces
      split at h
      · rename_i hoctal
        split at h
        · cases h
        · cases h
          have hmem : decide (e ∈ ['0', '1', '2', '3', '4', '5', '6', '7']) = true :=
            of_isOctal (p := fun c => decide (c ∈ ['0', '1', '2', '3', '4', '5', '6', '7']))
              (by decide) hoctal
          rw [if_pos (of_decide_eq_true hmem)]
      · rename_i hoctal
        cases h
        have hnot : e ∉ ['0', '1', '2', '3', '4', '5', '6', '7'] :=
          fun hmem => hoctal (hlisted e hmem).1
        rw [if_neg hnot, hplaces]
        rfl

/-! ## §4. Texts. -/

theorem decodeFrom_of_piece (h : Piece Signed word c) (rest read : List Char) :
    decodeFrom (word ++ rest) read = decodeFrom rest (c :: read) := by
  have hescape {more : List Char} (hmore : Piece Signed ('\\' :: more) c) :
      decodeFrom ('\\' :: (more ++ rest)) read = decodeFrom rest (c :: read) :=
    decodeFrom_unescape (unescape_of_piece hmore rest) read
  cases h with
  | plain hc =>
    rw [List.cons_append, List.nil_append, decodeFrom, if_neg (by simpa using hc)]
  | letter he => exact hescape (.letter he)
  | codePoint hmarker hdigits => exact hescape (.codePoint hmarker hdigits)
  | octal hlength hdigits hc => exact hescape (.octal hlength hdigits hc)

theorem decodeFrom_of_writes (h : Writes Signed content out) (rest read : List Char) :
    decodeFrom (content ++ rest) read = decodeFrom rest (out.reverse ++ read) := by
  induction h generalizing read with
  | nil => rfl
  | cons hword _ ih =>
    rw [List.append_assoc, decodeFrom_of_piece hword, ih]
    simp

theorem decodeFrom_of_spoiled (h : Spoiled Signed content bad) (read : List Char) :
    decodeFrom content read = .error bad := by
  obtain ⟨front, out, rest, rfl, hfront, hnone, rfl⟩ := h
  rw [decodeFrom_of_writes hfront, decodeFrom, if_pos (by decide)]
  split
  · rename_i d more hread
    obtain ⟨word, rfl, hpiece⟩ := piece_of_unescape hread
    exact absurd rfl (hnone _ d more hpiece)
  · rename_i hread
    rw [escapeOf_of_unescape hread]

theorem Spoiled.cons {Fills : Nat → List Char → Nat → Prop} (hword : Piece Fills word c)
    (h : Spoiled Fills content bad) : Spoiled Fills (word ++ content) bad := by
  obtain ⟨front, out, rest, rfl, hfront, hnone, rfl⟩ := h
  exact ⟨word ++ front, c :: out, rest, by simp, .cons hword hfront, hnone, rfl⟩

/-- **Every text is a row of pieces or spoiled.** -/
theorem writes_or_spoiled (content : List Char) :
    (∃ out, Writes Signed content out) ∨ ∃ bad, Spoiled Signed content bad := by
  induction h : content.length using Nat.strongRecOn generalizing content with
  | ind n ih =>
    cases content with
    | nil => exact .inl ⟨[], .nil⟩
    | cons c rest =>
      have hcons (word behind : List Char) {d : Char} (htext : c :: rest = word ++ behind)
          (hword : Piece Signed word d) (hlt : behind.length < (c :: rest).length) :
          (∃ out, Writes Signed (c :: rest) out) ∨ ∃ bad, Spoiled Signed (c :: rest) bad := by
        rw [htext]
        rcases ih behind.length (h ▸ hlt) behind rfl with ⟨out, hout⟩ | ⟨bad, hbad⟩
        · exact .inl ⟨d :: out, .cons hword hout⟩
        · exact .inr ⟨bad, hbad.cons hword⟩
      by_cases hslash : c = '\\'
      · subst hslash
        cases hread : unescape rest with
        | ok found =>
          obtain ⟨d, behind⟩ := found
          obtain ⟨word, rfl, hpiece⟩ := piece_of_unescape hread
          have hlt : behind.length < ('\\' :: (word ++ behind)).length := by
            rw [List.length_cons, List.length_append]
            omega
          exact hcons ('\\' :: word) behind rfl hpiece hlt
        | error bad =>
          refine .inr ⟨_, [], [], rest, rfl, .nil, ?_, rfl⟩
          intro word d more hpiece heq
          obtain ⟨e, behind, rfl⟩ : ∃ e behind, word = e :: behind := by cases hpiece <;> simp
          obtain ⟨rfl, rfl⟩ := List.cons.inj heq
          exact absurd (hread.symm.trans (unescape_of_piece hpiece more)) (by simp)
      · exact hcons [c] rest rfl (.plain hslash) (by simp)

/-- What strings are read by: which texts between quotes are read, as what, and what is reported of
the others. -/
def ReadBy (Fills : Nat → List Char → Nat → Prop) (content : List Char) : Prop :=
  (∀ out, Literal.string (String.ofList ('"' :: (content ++ ['"']))) = .ok out
      ↔ Writes Fills content out.toList)
    ∧ ∀ e, Literal.string (String.ofList ('"' :: (content ++ ['"']))) = .error e
      ↔ ∃ bad, Spoiled Fills content bad ∧ e = .invalidEscape (String.ofList bad)

theorem string_eq (content : List Char) :
    Literal.string (String.ofList ('"' :: (content ++ ['"'])))
      = match decode content with
        | .ok chars => .ok (String.ofList chars)
        | .error bad => .error (.invalidEscape (String.ofList bad)) := by
  have hinside : inside? ['"'] ('"' :: (content ++ ['"'])) = some content :=
    inside?_append ['"'] content
  unfold Literal.string
  cases hdecode : decode content with
  | ok chars => simp only [String.toList_ofList, hinside, hdecode]
  | error bad => simp only [String.toList_ofList, hinside, hdecode]

theorem string_of_writes (h : Writes Signed content out) :
    Literal.string (String.ofList ('"' :: (content ++ ['"']))) = .ok (String.ofList out) := by
  have hread := decodeFrom_of_writes h [] []
  rw [List.append_nil, List.append_nil, decodeFrom, List.reverse_reverse] at hread
  rw [string_eq, decode, hread]

theorem string_of_spoiled (h : Spoiled Signed content bad) :
    Literal.string (String.ofList ('"' :: (content ++ ['"'])))
      = .error (.invalidEscape (String.ofList bad)) := by
  rw [string_eq, decode, decodeFrom_of_spoiled h]

theorem readBy_signed (content : List Char) : ReadBy Signed content := by
  rcases writes_or_spoiled content with ⟨out, hout⟩ | ⟨bad, hbad⟩
  · have hread := string_of_writes hout
    refine ⟨fun out' => ⟨?_, ?_⟩, fun e => ⟨?_, ?_⟩⟩
    · intro h
      rw [hread] at h
      cases h
      rwa [String.toList_ofList]
    · intro h
      rw [string_of_writes h, String.ofList_toList]
    · intro h
      rw [hread] at h
      cases h
    · rintro ⟨bad, hbad, -⟩
      rw [string_of_spoiled hbad] at hread
      cases hread
  · have hread := string_of_spoiled hbad
    refine ⟨fun out' => ⟨?_, ?_⟩, fun e => ⟨?_, ?_⟩⟩
    · intro h
      rw [hread] at h
      cases h
    · intro h
      rw [string_of_writes h] at hread
      cases hread
    · intro h
      rw [hread] at h
      cases h
      exact ⟨bad, hbad, rfl⟩
    · rintro ⟨bad', hbad', rfl⟩
      exact string_of_spoiled hbad'

/-! ## §5. Plus signs. -/

theorem Piece.places (h : Piece Signed word c) (hplus : '+' ∉ word) : Piece Places word c := by
  cases h with
  | plain hc => exact .plain hc
  | letter he => exact .letter he
  | octal hlength hdigits hc => exact .octal hlength hdigits hc
  | codePoint hmarker hdigits =>
    rcases hdigits with hdigits | ⟨more, rfl, -, -⟩
    · exact .codePoint hmarker hdigits
    · exact absurd (by simp) hplus

theorem Piece.signed (h : Piece Places word c) : Piece Signed word c := by
  cases h with
  | plain hc => exact .plain hc
  | letter he => exact .letter he
  | octal hlength hdigits hc => exact .octal hlength hdigits hc
  | codePoint hmarker hdigits => exact .codePoint hmarker (.inl hdigits)

theorem writes_places_iff (hplus : '+' ∉ content) :
    Writes Places content out ↔ Writes Signed content out := by
  constructor
  · intro h
    clear hplus
    induction h with
    | nil => exact .nil
    | cons hword _ ih => exact .cons hword.signed ih
  · intro h
    induction h with
    | nil => exact .nil
    | cons hword _ ih =>
      rw [List.mem_append, not_or] at hplus
      exact .cons (hword.places hplus.1) (ih hplus.2)

theorem spoiled_places_iff (hplus : '+' ∉ content) :
    Spoiled Places content bad ↔ Spoiled Signed content bad := by
  unfold Spoiled
  refine exists_congr fun front => exists_congr fun out => exists_congr fun rest => ?_
  refine and_congr_right fun hcontent => ?_
  rw [hcontent, List.mem_append, not_or] at hplus
  refine and_congr (writes_places_iff hplus.1) (and_congr_left fun _ => ?_)
  constructor
  · intro h word c more hword heq
    rw [heq, List.mem_append, not_or] at hplus
    exact h word c more (hword.places hplus.2.1) heq
  · intro h word c more hword
    exact h word c more hword.signed

/-- **What strings are read by.**  Every string is read piece by piece, and one that is no row of
pieces is refused with the first escape that is none; in the places of a code point a plus sign may
stand for the first digit.  Strings without plus signs are read by digits alone. -/
theorem readBy_signed_and_places (content : List Char) :
    ReadBy Signed content ∧ ('+' ∉ content → ReadBy Places content) := by
  refine ⟨readBy_signed content, fun hplus => ?_⟩
  obtain ⟨hok, herror⟩ := readBy_signed content
  refine ⟨fun out => ?_, fun e => ?_⟩
  · rw [hok, writes_places_iff hplus]
  · rw [herror]
    simp only [spoiled_places_iff hplus]

/-- `\x+5` is read with its plus sign, and a string without one by digits alone. -/
theorem readBy_signed_and_places_codePoint :
    ReadBy Signed ['\\', 'x', '+', '5'] ∧ '+' ∉ ['\\', 'u', '0', '0', 'e', '9']
      ∧ ReadBy Places ['\\', 'u', '0', '0', 'e', '9'] :=
  ⟨(readBy_signed_and_places _).1, by decide, (readBy_signed_and_places _).2 (by decide)⟩

/-- **A plus sign is read where a digit is asked for**: `\x+5` is no row of pieces that are made of
digits, and it is read. -/
theorem not_forall_readBy_places : ¬ ∀ content, ReadBy Places content := by
  intro h
  have hread : Literal.string (String.ofList ('"' :: (['\\', 'x', '+', '5'] ++ ['"'])))
      = .ok "\x05" := by decide +kernel
  have hwrites : Writes Places ['\\', 'x', '+', '5'] ['\x05'] := ((h _).1 "\x05").mp hread
  generalize htext : ['\\', 'x', '+', '5'] = text at hwrites
  cases hwrites with
  | cons hword _ =>
    cases hword with
    | plain hc => exact hc (List.cons.inj htext).1.symm
    | letter he =>
      obtain ⟨rfl, -⟩ := List.cons.inj (List.cons.inj htext).2
      exact absurd he (by decide)
    | @octal digits _ hlength hdigits hc =>
      obtain ⟨first, digits, rfl⟩ := List.exists_cons_of_ne_nil (List.ne_nil_of_length_pos
        (Nat.lt_of_lt_of_eq (by decide) hlength.symm))
      obtain ⟨rfl, -⟩ := List.cons.inj (List.cons.inj htext).2
      exact absurd (all_isOctal hdigits 'x' List.mem_cons_self) (by decide)
    | @codePoint marker _ width digits hmarker hdigits =>
      obtain ⟨hlength, values, hvalues, -⟩ := hdigits
      have hwidth := two_le_of_mem_markers hmarker
      obtain ⟨first, digits, rfl⟩ := List.exists_cons_of_ne_nil (List.ne_nil_of_length_pos
        (Nat.lt_of_lt_of_le (by decide) (hlength ▸ hwidth)))
      obtain ⟨rfl, -⟩ := List.cons.inj (List.cons.inj (List.cons.inj htext).2).2
      cases hvalues with
      | cons hplus _ => exact Radix.not_digit_plus (by decide) hplus

end Quoted

end Prototalk
