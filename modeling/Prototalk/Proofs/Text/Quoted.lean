/-
  Prototalk.Proofs.Text.Quoted
  ────────────────────────────────
  **A WRITTEN STRING READS BACK.**

  A character inside a literal is written as itself, as a one-letter escape,
  or, if it is a control character, in two hexadecimal places
  (`escape_cases`).  Each of the three is read as the character.
-/
import Prototalk.Text.Quoted

namespace Prototalk.Quoted

theorem escape_cases (c : Char) :
    (∃ e, escape c = ['\\', e] ∧ letter? e = some c)
      ∨ ((c.toNat < 0x20 ∨ c.toNat = 0x7f)
        ∧ escape c = ['\\', 'x', hexDigit (c.toNat / 16), hexDigit (c.toNat % 16)])
      ∨ (c ≠ '"' ∧ c ≠ '\\' ∧ escape c = [c]) := by
  unfold escape
  by_cases hquote : c = '"'
  · subst hquote
    exact Or.inl ⟨'"', rfl, rfl⟩
  by_cases hslash : c = '\\'
  · subst hslash
    exact Or.inl ⟨'\\', rfl, rfl⟩
  by_cases hline : c = '\n'
  · subst hline
    exact Or.inl ⟨'n', rfl, rfl⟩
  by_cases htab : c = '\t'
  · subst htab
    exact Or.inl ⟨'t', rfl, rfl⟩
  by_cases hreturn : c = '\r'
  · subst hreturn
    exact Or.inl ⟨'r', rfl, rfl⟩
  simp only [beq_false_of_ne hquote, beq_false_of_ne hslash, beq_false_of_ne hline,
    beq_false_of_ne htab, beq_false_of_ne hreturn, Bool.false_eq_true, if_false]
  by_cases hcontrol : c.toNat < 0x20 ∨ c.toNat = 0x7f
  · right; left
    exact ⟨hcontrol, if_pos (by simpa using hcontrol)⟩
  · right; right
    exact ⟨hquote, hslash, if_neg (by simpa using hcontrol)⟩

/-- A hexadecimal digit is neither a quote nor a backslash. -/
theorem hexDigit_plain {n : Nat} (hn : n < 16) : hexDigit n ≠ '"' ∧ hexDigit n ≠ '\\' := by
  have hall : ∀ n < 16, hexDigit n ≠ '"' ∧ hexDigit n ≠ '\\' := by decide
  exact hall n hn

/-- The two places of a control character. -/
theorem codePoint?_control {c : Char} (hc : c.toNat < 0x20 ∨ c.toNat = 0x7f) :
    codePoint? 2 [hexDigit (c.toNat / 16), hexDigit (c.toNat % 16)] = some c := by
  have hall : ∀ n < 0x80, (n < 0x20 ∨ n = 0x7f) →
      codePoint? 2 [hexDigit (n / 16), hexDigit (n % 16)] = some (Char.ofNat n) := by decide
  have hread := hall c.toNat (by omega) hc
  rwa [Char.ofNat_toNat] at hread

theorem decodeFrom_unescape {rest more : List Char} {c : Char}
    (h : unescape rest = .ok (c, more)) (read : List Char) :
    decodeFrom ('\\' :: rest) read = decodeFrom more (c :: read) := by
  rw [decodeFrom, if_pos (by decide)]
  split <;> rename_i heq <;> rw [h] at heq <;> cases heq
  rfl

theorem decodeFrom_escape (c : Char) (more read : List Char) :
    decodeFrom (escape c ++ more) read = decodeFrom more (c :: read) := by
  rcases escape_cases c with ⟨e, hesc, hletter⟩ | ⟨hcontrol, hesc⟩ | ⟨-, hslash, hesc⟩
  · have hunescape : unescape (e :: more) = .ok (c, more) := by simp only [unescape, hletter]
    rw [hesc]
    exact decodeFrom_unescape hunescape read
  · -- the marker is no letter and asks for two places
    have hletter : letter? 'x' = none := rfl
    have hplaces : places? 'x' = some 2 := rfl
    have hunescape : unescape ('x' :: hexDigit (c.toNat / 16) :: hexDigit (c.toNat % 16) :: more)
        = .ok (c, more) := by
      simp only [unescape, hletter, hplaces, List.take_succ_cons, List.take_zero,
        List.drop_succ_cons, List.drop_zero, codePoint?_control hcontrol]
    rw [hesc]
    exact decodeFrom_unescape hunescape read
  · rw [hesc, List.cons_append, List.nil_append, decodeFrom, if_neg (by simpa using hslash)]

theorem decodeFrom_flatMap_escape (text read : List Char) :
    decodeFrom (text.flatMap escape) read = .ok (read.reverse ++ text) := by
  induction text generalizing read with
  | nil => simp [decodeFrom]
  | cons c text ih =>
    rw [List.flatMap_cons, decodeFrom_escape, ih]
    simp

theorem inside?_encode (text : List Char) :
    inside? ['"'] (encode text) = some (text.flatMap escape) := by
  have hprefix : ['"'].isPrefixOf (encode text) = true := by simp [encode, List.isPrefixOf]
  have hsuffix : ['"'].isSuffixOf (text.flatMap escape ++ ['"']) = true := by
    rw [List.isSuffixOf_iff_suffix]
    exact List.suffix_append _ _
  unfold inside?
  rw [if_pos hprefix]
  show (if ['"'].isSuffixOf (text.flatMap escape ++ ['"']) then _ else _) = _
  rw [if_pos hsuffix]
  simp [encode]

/-- **Reading what was written gives the text.** -/
theorem decode_inside?_encode (text : List Char) :
    ∃ content, inside? ['"'] (encode text) = some content ∧ decode content = .ok text :=
  ⟨_, inside?_encode text, by rw [decode, decodeFrom_flatMap_escape]; rfl⟩

end Prototalk.Quoted
