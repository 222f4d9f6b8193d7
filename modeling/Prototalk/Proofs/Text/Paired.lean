/-
  Prototalk.Proofs.Text.Paired
  ────────────────────────────────
  **READING WHAT STANDS BETWEEN QUOTES.**

  Between the quotes of a string there are plain characters, and backslashes
  with the character behind each (`Paired`).  Resolving escapes takes more
  than one character behind a backslash, but never a backslash
  (`Paired.unescape`), so it does not fall out of step: it gives a text, or
  an escape with at least one character behind its backslash
  (`Paired.decode`).
-/
import Prototalk.Text.Quoted

namespace Prototalk

/-! ## §1. Integers. -/

namespace Radix

variable {base limit width n : Nat} {tooFar : Fault} {digits : List Char}

theorem digit?_backslash (base : Nat) : digit? base '\\' = none := rfl

/-- Every character of a number is a digit. -/
theorem digits_of_foldlM (h : digits.foldlM (appendDigit base limit tooFar) n = .ok width) :
    ∀ c ∈ digits, digit? base c ≠ none := by
  induction digits generalizing n with
  | nil => simp
  | cons c digits ih =>
    rw [List.foldlM_cons] at h
    unfold appendDigit at h
    cases hdigit : digit? base c with
    | none =>
      rw [hdigit] at h
      cases h
    | some d =>
      rw [hdigit] at h
      dsimp only at h
      split at h
      · exact List.forall_mem_cons.mpr ⟨by simp [hdigit], ih h⟩
      · cases h

theorem backslash_not_mem_of_magnitude (h : magnitude base limit tooFar digits = .ok n) :
    '\\' ∉ digits := by
  intro hmem
  unfold magnitude at h
  split at h
  · cases h
  · exact digits_of_foldlM h _ hmem (digit?_backslash base)

theorem backslash_not_mem_of_unsigned (h : unsigned base width digits = .ok n) :
    '\\' ∉ digits := by
  unfold unsigned at h
  split at h
  · simpa using backslash_not_mem_of_magnitude h
  · exact backslash_not_mem_of_magnitude h

/-- A number that consists of digits can only be too large. -/
theorem foldlM_digits (hdigits : ∀ c ∈ digits, digit? base c ≠ none) (n : Nat) :
    (∃ m, digits.foldlM (appendDigit base limit tooFar) n = .ok m)
      ∨ digits.foldlM (appendDigit base limit tooFar) n = .error tooFar := by
  induction digits generalizing n with
  | nil => exact .inl ⟨n, rfl⟩
  | cons c digits ih =>
    obtain ⟨hc, hdigits⟩ := List.forall_mem_cons.mp hdigits
    obtain ⟨d, hd⟩ := Option.ne_none_iff_exists'.mp hc
    rw [List.foldlM_cons]
    unfold appendDigit
    rw [hd]
    dsimp only
    split
    · exact ih hdigits _
    · exact .inr rfl

end Radix

namespace Quoted

variable {text rest digits : List Char} {c d : Char}

/-! ## §2. Pairs. -/

/-- Plain characters, and backslashes with the character behind each. -/
inductive Paired : List Char → Prop where
  | nil : Paired []
  | plain {c : Char} {rest : List Char} (hc : c ≠ '\\') (h : Paired rest) : Paired (c :: rest)
  | pair (c : Char) {rest : List Char} (h : Paired rest) : Paired ('\\' :: c :: rest)

/-- Characters in front that are no backslashes can be left away. -/
theorem Paired.of_append (h : Paired (digits ++ rest)) (hdigits : '\\' ∉ digits) :
    Paired rest := by
  induction digits with
  | nil => exact h
  | cons c digits ih =>
    rw [List.mem_cons, not_or] at hdigits
    rw [List.cons_append] at h
    generalize hbehind : digits ++ rest = behind at h
    cases h with
    | plain _ h => exact ih (hbehind ▸ h) hdigits.2
    | pair _ _ => exact absurd rfl hdigits.1

theorem Paired.drop (h : Paired text) (n : Nat) (hplain : '\\' ∉ text.take n) :
    Paired (text.drop n) := by
  rw [← List.take_append_drop n text] at h
  exact h.of_append hplain

/-! ## §3. Escapes. -/

theorem backslash_not_mem_of_codePoint? {places : Nat} (h : codePoint? places digits = some d) :
    '\\' ∉ digits := by
  unfold codePoint? at h
  split at h
  · split at h
    · rename_i hread
      exact Radix.backslash_not_mem_of_unsigned hread
    · cases h
  · cases h

theorem backslash_not_mem_of_octal? (h : octal? digits = some d) : '\\' ∉ digits := by
  unfold octal? at h
  split at h
  · rename_i hshape
    rw [Bool.and_eq_true, List.all_eq_true] at hshape
    intro hmem
    exact absurd (hshape.2 _ hmem) (by decide)
  · cases h

/-- An escape that stands for a character leaves whole pairs. -/
theorem Paired.unescape (h : Paired text) (hread : unescape (c :: text) = .ok (d, rest)) :
    Paired rest := by
  simp only [Quoted.unescape] at hread
  split at hread
  · cases hread
    exact h
  · split at hread
    · rename_i hpoint
      cases hread
      exact h.drop _ (backslash_not_mem_of_codePoint? hpoint)
    · cases hread
  · split at hread
    · split at hread
      · rename_i hoctal
        cases hread
        refine h.drop _ fun hmem => backslash_not_mem_of_octal? hoctal ?_
        exact List.mem_cons_of_mem _ hmem
      · cases hread
    · cases hread

/-- An escape that is none is reported with the character behind its backslash. -/
theorem unescape_error {bad : List Char} (hread : unescape (c :: text) = .error bad) :
    ∃ more, bad = '\\' :: c :: more := by
  simp only [unescape] at hread
  split at hread
  · cases hread
  · split at hread
    · cases hread
    · cases hread
      exact ⟨_, rfl⟩
  · split at hread
    · split at hread
      · cases hread
      · cases hread
        exact ⟨_, rfl⟩
    · cases hread
      exact ⟨_, rfl⟩

/-! ## §4. Whole literals. -/

/-- **Resolving escapes stays in step with the pairs.** -/
theorem Paired.decodeFrom (h : Paired text) (read : List Char) :
    (∃ chars, decodeFrom text read = .ok chars)
      ∨ ∃ c more, decodeFrom text read = .error ('\\' :: c :: more) := by
  fun_induction Quoted.decodeFrom text read with
  | case1 read => exact .inl ⟨_, rfl⟩
  | case2 read c rest hslash d rest' hread ih =>
    cases h with
    | plain hc _ => exact absurd (by simpa using hslash) hc
    | pair e h => exact ih (h.unescape hread)
  | case3 read c rest hslash bad hread =>
    cases h with
    | plain hc _ => exact absurd (by simpa using hslash) hc
    | pair e h =>
      obtain ⟨more, rfl⟩ := unescape_error hread
      exact .inr ⟨e, more, rfl⟩
  | case4 read c rest hslash ih =>
    cases h with
    | plain _ h => exact ih h
    | pair e h => exact absurd (by decide) hslash

theorem Paired.decode (h : Paired text) :
    (∃ chars, decode text = .ok chars) ∨ ∃ c more, decode text = .error ('\\' :: c :: more) :=
  h.decodeFrom []

/-- What stands between two marks is found. -/
theorem inside?_append (mark content : List Char) :
    inside? mark (mark ++ (content ++ mark)) = some content := by
  have hprefix : mark.isPrefixOf (mark ++ (content ++ mark)) = true := by
    rw [List.isPrefixOf_iff_prefix]
    exact List.prefix_append _ _
  have hsuffix : mark.isSuffixOf (content ++ mark) = true := by
    rw [List.isSuffixOf_iff_suffix]
    exact List.suffix_append _ _
  unfold inside?
  rw [if_pos hprefix, List.drop_left]
  dsimp only
  rw [if_pos hsuffix, List.length_append, Nat.add_sub_cancel, List.take_left]

end Quoted

end Prototalk
