/-
  Prototalk.Proofs.Message.Decoding
  ────────────────────────────────
  **THE LEXER AND THE DECODERS AGREE.**

  The lexer decides the shape of a literal, the parser what it stands for.
  Each literal that can be cut off a text has the shape that its decoder asks
  for (`Cut.fits_first`), so it has a value:

      number, hexNumber, triQuote    always,
      string                         unless an escape in it names nothing.

  An error of the source takes the place of a token and never changes one, so
  the same holds for every source (`parseSource_decodes`).
-/
import Prototalk.Proofs.Message.Nesting
import Prototalk.Proofs.Number.Decimal
import Prototalk.Proofs.Text.Paired
import Prototalk.Proofs.Token.Handoff
import Prototalk.Proofs.Token.Interruption
import Prototalk.Proofs.Token.Tiling

namespace Prototalk

/-! ## §1. Numbers. -/

/-- Decimal digits. -/
def Digits (text : List Char) : Prop := ∀ x ∈ text, x.isDigit = true

theorem digits_takeWhile (text : List Char) : Digits (text.takeWhile Char.isDigit) :=
  fun _ hx => List.mem_takeWhile_imp hx

namespace Decimal

variable {whole frac tail : List Char}

/-- A possible exponent: a marker, and digits behind a possible sign. -/
inductive Exponent : List Char → Prop where
  | absent : Exponent []
  | present {mark : Char} {rest : List Char} (hmark : (mark == 'e' || mark == 'E') = true)
      (hne : (sign rest).2 ≠ []) (hdigits : Digits (sign rest).2) : Exponent (mark :: rest)

theorem exponent?_isSome (h : Exponent tail) : (exponent? tail).isSome = true := by
  cases h with
  | absent => rfl
  | @present mark rest hmark hne hdigits =>
    have hall : (sign rest).2.all Char.isDigit = true := List.all_eq_true.mpr hdigits
    have hshape : (!(sign rest).2.isEmpty && (sign rest).2.all Char.isDigit) = true := by
      simp [hall, hne]
    simp only [exponent?, hmark, hshape, if_true, Option.isSome_some]

/-- An exponent does not go on with digits. -/
theorem Exponent.head? (h : Exponent tail) : ∀ x ∈ tail.head?, x.isDigit = false ∧ x ≠ '.' := by
  cases h with
  | absent => simp
  | present hmark _ _ =>
    rw [Bool.or_eq_true, beq_iff_eq, beq_iff_eq] at hmark
    obtain rfl | rfl := hmark <;> simp

theorem read?_isSome_of_parts? {text : List Char} (hsign : sign text = (false, text))
    (hparts : (parts? text).isSome = true) : (read? text).isSome = true := by
  obtain ⟨found, hfound⟩ := Option.isSome_iff_exists.mp hparts
  unfold read? unsigned?
  rw [hsign]
  simp [hfound]

/-- Digits and an exponent. -/
theorem read?_digits (hne : whole ≠ []) (hwhole : Digits whole) (htail : Exponent tail) :
    (read? (whole ++ tail)).isSome = true := by
  obtain ⟨c, cs, rfl⟩ := List.exists_cons_of_ne_nil hne
  refine read?_isSome_of_parts? (sign_of_digit (hwhole c List.mem_cons_self) _) ?_
  have hfraction : fraction tail = ([], tail) := by
    unfold fraction
    split
    · exact absurd rfl (htail.head? _ rfl).2
    · rfl
  unfold parts?
  rw [span_digits hwhole tail fun x hx => (htail.head? x hx).1]
  simp [hfraction, exponent?_isSome htail]

/-- Digits with a point, and an exponent. -/
theorem read?_digits_point (hne : frac ≠ []) (hwhole : Digits whole) (hfrac : Digits frac)
    (htail : Exponent tail) : (read? (whole ++ '.' :: (frac ++ tail))).isSome = true := by
  have hsign : sign (whole ++ '.' :: (frac ++ tail)) = (false, whole ++ '.' :: (frac ++ tail)) := by
    cases whole with
    | nil => exact sign_of_not_sign (by decide) (by decide)
    | cons c cs => exact sign_of_digit (hwhole c List.mem_cons_self) _
  refine read?_isSome_of_parts? hsign ?_
  have hfraction : fraction ('.' :: (frac ++ tail)) = (frac, tail) :=
    span_digits hfrac tail fun x hx => (htail.head? x hx).1
  unfold parts?
  rw [span_digits hwhole ('.' :: (frac ++ tail)) (by simp)]
  simp [hfraction, exponent?_isSome htail, hne]

end Decimal

namespace Literal

theorem digit?_of_isHexDigit {c : Char} (hc : Lexer.isHexDigit c = true) :
    Radix.digit? 16 c ≠ none := by
  have hall : ∀ n < 0x80, Lexer.isHexDigit (Char.ofNat n) = true →
      Radix.digit? 16 (Char.ofNat n) ≠ none := by decide
  have hsmall : c.toNat < 0x80 := by
    simp only [Lexer.isHexDigit, Char.isDigit, Bool.or_eq_true, Bool.and_eq_true,
      decide_eq_true_eq, Char.le_def, UInt32.le_iff_toNat_le] at hc
    have hvalue : c.toNat = c.val.toNat := rfl
    have hnine : '9'.val.toNat = 57 := rfl
    have hlower : 'f'.val.toNat = 102 := rfl
    have hupper : 'F'.val.toNat = 70 := rfl
    omega
  have hc' := hall c.toNat hsmall
  rw [Char.ofNat_toNat] at hc'
  exact hc' hc

/-- Digits behind a hexadecimal marker are read as a number without a sign. -/
theorem hexValue?_of_digits {mark : Char} {digits : List Char} (hmark : mark = 'x' ∨ mark = 'X')
    (hdigits : ∀ x ∈ digits, Lexer.isHexDigit x = true) :
    hexValue? ('0' :: mark :: digits)
      = match Radix.magnitude 16 (Nat.pow 2 63 - 1) .above digits with
        | .ok n => some (.ofNat n)
        | .error .above => some .infinity
        | .error _ => none := by
  have hbehind : hexDigits? ('0' :: mark :: digits) = some digits := by
    obtain rfl | rfl := hmark <;> rfl
  have hsigned : Radix.signed 16 63 digits
      = (Radix.magnitude 16 (Nat.pow 2 63 - 1) .above digits).map Int.ofNat := by
    unfold Radix.signed
    split
    · exact absurd (hdigits '-' List.mem_cons_self) (by decide)
    · exact absurd (hdigits '+' List.mem_cons_self) (by decide)
    · rfl
  unfold hexValue?
  rw [hbehind]
  dsimp only
  rw [hsigned]
  cases Radix.magnitude 16 (Nat.pow 2 63 - 1) .above digits with
  | ok n => rfl
  | error fault => cases fault <;> rfl

/-- Digits behind a hexadecimal marker have a value. -/
theorem hexValue?_isSome {mark : Char} {digits : List Char}
    (hmark : (mark == 'x' || mark == 'X') = true) (hne : digits ≠ [])
    (hdigits : ∀ x ∈ digits, Lexer.isHexDigit x = true) :
    (hexValue? ('0' :: mark :: digits)).isSome = true := by
  rw [Bool.or_eq_true, beq_iff_eq, beq_iff_eq] at hmark
  rw [hexValue?_of_digits hmark hdigits, Radix.magnitude, if_neg (by simpa using hne)]
  obtain ⟨m, hm⟩ | habove :=
    Radix.foldlM_digits (fun c hc => digit?_of_isHexDigit (hdigits c hc)) 0
  · rw [hm]
    rfl
  · rw [habove]
    rfl

end Literal

/-! ## §2. Cutting off a literal. -/

namespace Cut

open Decimal
open Lexer (isHexDigit single?)

variable {text rest value : List Char} {kind : TokenKind} {c : Char}

theorem exponentDigits_eq_ok (h : (exponentDigits text).outcome = .ok kind) :
    kind = .number ∧ (exponentDigits text).value ≠ [] ∧ Digits (exponentDigits text).value := by
  unfold exponentDigits run1 at h ⊢
  split at h
  · cases h
  · rename_i hne
    cases h
    rw [if_neg hne]
    have hvalue : (run Char.isDigit (stop .number) text).value = text.takeWhile Char.isDigit :=
      List.append_nil _
    rw [hvalue]
    exact ⟨rfl, hne, digits_takeWhile text⟩

theorem exponentSign_eq_ok (h : (exponentSign text).outcome = .ok kind) :
    kind = .number ∧ (sign (exponentSign text).value).2 ≠ []
      ∧ Digits (sign (exponentSign text).value).2 := by
  -- digits alone have no sign in front
  have hunsigned {text : List Char} (h : (exponentDigits text).outcome = .ok kind) :
      kind = .number ∧ (sign (exponentDigits text).value).2 ≠ []
        ∧ Digits (sign (exponentDigits text).value).2 := by
    obtain ⟨hkind, hne, hdigits⟩ := exponentDigits_eq_ok h
    obtain ⟨d, ds, heq⟩ := List.exists_cons_of_ne_nil hne
    rw [heq] at hne hdigits ⊢
    rw [sign_of_digit (hdigits d List.mem_cons_self)]
    exact ⟨hkind, hne, hdigits⟩
  unfold exponentSign ifNext at h ⊢
  cases text with
  | nil => exact hunsigned h
  | cons x text =>
    dsimp only at h ⊢
    by_cases hx : (x == '+' || x == '-') = true
    · rw [if_pos hx] at h ⊢
      have hsign :
          (sign ((exponentDigits text).after [x]).value).2 = (exponentDigits text).value := by
        rw [Bool.or_eq_true, beq_iff_eq, beq_iff_eq] at hx
        obtain rfl | rfl := hx <;> rfl
      rw [hsign]
      exact exponentDigits_eq_ok h
    · rw [if_neg hx] at h ⊢
      exact hunsigned h

theorem exponent_eq_ok (h : (exponent text).outcome = .ok kind) :
    kind = .number ∧ Exponent (exponent text).value := by
  unfold exponent ifNext at h ⊢
  cases text with
  | nil =>
    cases h
    exact ⟨rfl, .absent⟩
  | cons x text =>
    dsimp only at h ⊢
    by_cases hx : (x == 'e' || x == 'E') = true
    · rw [if_pos hx] at h ⊢
      have hok : (exponentSign text).outcome = .ok kind := h
      obtain ⟨hkind, hne, hdigits⟩ := exponentSign_eq_ok hok
      exact ⟨hkind, .present hx hne hdigits⟩
    · rw [if_neg hx] at h ⊢
      cases h
      exact ⟨rfl, .absent⟩

theorem fraction_eq_ok (h : (fraction text).outcome = .ok kind) :
    kind = .number ∧ ∃ frac tail, (fraction text).value = frac ++ tail ∧ frac ≠ []
      ∧ Digits frac ∧ Exponent tail := by
  unfold fraction run1 at h ⊢
  split at h
  · cases h
  · rename_i hne
    have hok : (exponent (text.dropWhile Char.isDigit)).outcome = .ok kind := h
    obtain ⟨hkind, htail⟩ := exponent_eq_ok hok
    rw [if_neg hne]
    exact ⟨hkind, _, _, rfl, hne, digits_takeWhile text, htail⟩

/-- A number that starts with a digit. -/
theorem decimal_eq_ok (hc : c.isDigit = true) (h : (decimal text).outcome = .ok kind) :
    kind = .number ∧ (read? (c :: (decimal text).value)).isSome = true := by
  have hwhole : Digits (c :: text.takeWhile Char.isDigit) :=
    List.forall_mem_cons.mpr ⟨hc, digits_takeWhile text⟩
  unfold decimal run at h ⊢
  generalize text.dropWhile Char.isDigit = rest at h ⊢
  -- without a point there is an exponent at most
  have hplain (h : (exponent rest).outcome = .ok kind) : kind = .number
      ∧ (read? (c :: ((exponent rest).after (text.takeWhile Char.isDigit)).value)).isSome
        = true := by
    obtain ⟨hkind, htail⟩ := exponent_eq_ok h
    have hread := read?_digits (List.cons_ne_nil _ _) hwhole htail
    exact ⟨hkind, hread⟩
  unfold ifNext at h ⊢
  cases rest with
  | nil => exact hplain h
  | cons x rest =>
    dsimp only at h ⊢
    by_cases hx : (x == '.') = true
    · rw [if_pos hx] at h ⊢
      rw [beq_iff_eq] at hx
      have hok : (fraction rest).outcome = .ok kind := h
      obtain ⟨hkind, frac, tail, hvalue, hne, hfrac, htail⟩ := fraction_eq_ok hok
      refine ⟨hkind, ?_⟩
      have hread := read?_digits_point hne hwhole hfrac htail
      rw [← hvalue, ← hx] at hread
      exact hread
    · rw [if_neg hx] at h ⊢
      exact hplain h

/-! ### Shapes -/

/-- The text has the shape that the decoder of its class asks for. -/
def Fits (kind : TokenKind) (text : List Char) : Prop :=
  match kind with
  | .number => (read? text).isSome = true
  | .hexNumber => (Literal.hexValue? text).isSome = true
  | .string => ∃ content, Quoted.inside? ['"'] text = some content ∧ Quoted.Paired content
  | .triQuote => (Quoted.inside? ['"', '"', '"'] text).isSome = true
  | _ => True

theorem fits_number (hc : c.isDigit = true) (h : (number c text).outcome = .ok kind) :
    Fits kind (c :: (number c text).value) := by
  have hdecimal (h : (decimal text).outcome = .ok kind) :
      Fits kind (c :: (decimal text).value) := by
    obtain ⟨rfl, hread⟩ := decimal_eq_ok hc h
    exact hread
  unfold number at h ⊢
  split at h
  · exact hdecimal h
  · rename_i m rest hrest
    dsimp only at h ⊢
    split at h
    · rename_i hm
      rw [if_pos hm]
      split at h
      · rename_i hzero
        rw [if_pos hzero]
        obtain ⟨rfl, -⟩ := List.cons.inj hzero
        have hhex : (hex rest).outcome = .ok kind := h
        unfold hex run1 at hhex ⊢
        split at hhex
        · cases hhex
        · rename_i hne
          cases hhex
          rw [if_neg hne]
          have hvalue : (run isHexDigit (stop .hexNumber) rest).value = rest.takeWhile isHexDigit :=
            List.append_nil _
          show (Literal.hexValue?
            ('0' :: m :: (run isHexDigit (stop .hexNumber) rest).value)).isSome = true
          rw [hvalue]
          exact Literal.hexValue?_isSome hm hne fun x hx => List.mem_takeWhile_imp hx
      · cases h
    · rename_i hm
      rw [if_neg hm]
      exact hdecimal h

theorem string_eq_ok (h : (string text).outcome = .ok kind) :
    kind = .string ∧ ∃ content, (string text).value = content ++ ['"'] ∧ Quoted.Paired content := by
  fun_induction string text with
  | case1 => cases h
  | case2 c text hc =>
    cases h
    rw [beq_iff_eq] at hc
    subst hc
    exact ⟨rfl, [], rfl, .nil⟩
  | case3 c hc hslash => cases h
  | case4 c hc hslash e text ih =>
    rw [beq_iff_eq] at hslash
    subst hslash
    obtain ⟨hkind, content, hvalue, hpaired⟩ := ih h
    exact ⟨hkind, '\\' :: e :: content, by simp [after, hvalue], .pair e hpaired⟩
  | case5 c text hc hslash ih =>
    obtain ⟨hkind, content, hvalue, hpaired⟩ := ih h
    exact ⟨hkind, c :: content, by simp [after, hvalue], .plain (by simpa using hslash) hpaired⟩

theorem triQuote_eq_ok (h : (triQuote text).outcome = .ok kind) :
    kind = .triQuote ∧ ∃ content, (triQuote text).value = content ++ ['"', '"', '"'] := by
  fun_induction triQuote text with
  | case1 text =>
    cases h
    exact ⟨rfl, [], rfl⟩
  | case2 => cases h
  | case3 c text hquotes ih =>
    obtain ⟨hkind, content, hvalue⟩ := ih h
    exact ⟨hkind, c :: content, by simp [after, hvalue]⟩

theorem fits_quote (h : (quote text).outcome = .ok kind) :
    Fits kind ('"' :: (quote text).value) := by
  unfold quote at h ⊢
  split at h
  · obtain ⟨rfl, content, hvalue⟩ := triQuote_eq_ok h
    show (Quoted.inside? ['"', '"', '"'] ('"' :: '"' :: '"' :: (triQuote _).value)).isSome = true
    rw [hvalue]
    exact Option.isSome_of_eq_some (Quoted.inside?_append ['"', '"', '"'] content)
  · obtain ⟨rfl, content, hvalue, hpaired⟩ := string_eq_ok h
    rw [hvalue]
    exact ⟨content, Quoted.inside?_append ['"'] content, hpaired⟩

/-- A word or an operator is no literal. -/
theorem fits_word {p : Char → Bool} {value : List Char} (h : (word p text).outcome = .ok kind) :
    Fits kind value := by
  cases h
  trivial

theorem fits_point (h : (point text).outcome = .ok kind) :
    Fits kind ('.' :: (point text).value) := by
  unfold point at h ⊢
  split at h
  · exact fits_word h
  · split at h
    · rename_i hd
      obtain ⟨rfl, frac, tail, hvalue, hne, hfrac, htail⟩ := fraction_eq_ok h
      rw [if_pos hd, hvalue]
      have hwhole : Digits [] := by simp [Digits]
      have hread := read?_digits_point hne hwhole hfrac htail
      exact hread
    · exact fits_word h

/-- A token of one character is no literal. -/
theorem fits_single {value : List Char} (h : single? c = some kind) : Fits kind value := by
  unfold single? at h
  split_ifs at h <;> cases h <;> trivial

/-- **A token that is cut off a text has the shape of its class.** -/
theorem fits_first (h : (first c text).outcome = .ok kind) : Fits kind (first c text).value := by
  have hbehind : (behind c text).outcome = .ok kind := h
  show Fits kind (c :: (behind c text).value)
  unfold behind at hbehind ⊢
  split at hbehind
  · rename_i hsingle
    cases hbehind
    exact fits_single hsingle
  · split at hbehind
    · rename_i hdigit
      rw [if_pos hdigit]
      exact fits_number hdigit hbehind
    rename_i hdigit
    rw [if_neg hdigit]
    split at hbehind
    · rename_i hpoint
      rw [if_pos hpoint]
      rw [beq_iff_eq] at hpoint
      subst hpoint
      exact fits_point hbehind
    rename_i hpoint
    rw [if_neg hpoint]
    split at hbehind
    · rename_i hquote
      rw [if_pos hquote]
      rw [beq_iff_eq] at hquote
      subst hquote
      exact fits_quote hbehind
    split at hbehind
    · exact fits_word hbehind
    split at hbehind
    · exact fits_word hbehind
    · cases hbehind

end Cut

/-! ## §3. The tokens of a source. -/

theorem Tiles.fits {before text : List Char} {tokens : List Token} (h : Tiles before text tokens) :
    ∀ t ∈ tokens, t.kind ≠ .malformed → Cut.Fits t.kind t.value.toList := by
  induction h with
  | blank _ => simp
  | last _ _ hcut =>
    intro t ht hproper
    rw [List.mem_singleton] at ht
    subst ht
    exact absurd (by simp [Cut.token, hcut, Token.malformed]) hproper
  | @token before gap more c kind tokens _ _ hcut _ ih =>
    intro t ht hproper
    obtain rfl | ht := List.mem_cons.mp ht
    · have hkind : ((Cut.first c more).token (offsetOf (before ++ gap)) [] (before ++ gap)).kind
          = kind := by simp [Cut.token, hcut, Token.ofKind]
      rw [hkind, Cut.value_token]
      exact Cut.fits_first hcut
    · exact ih t ht hproper

namespace Source

/-- A source is a text, up to the first answer that is no character. -/
theorem exists_text (source : Source) : ∃ text, source = ofChars text
    ∨ ∃ answer later, answer.isStop = true ∧ source = ofChars text ++ answer :: later := by
  induction source with
  | nil => exact ⟨[], .inl rfl⟩
  | cons answer source ih =>
    cases answer with
    | char c =>
      obtain ⟨text, rfl | ⟨answer, later, hstop, rfl⟩⟩ := ih
      · exact ⟨c :: text, .inl rfl⟩
      · exact ⟨c :: text, .inr ⟨answer, later, hstop, rfl⟩⟩
    | endOfInput => exact ⟨[], .inr ⟨_, source, rfl, rfl⟩⟩
    | failed e => exact ⟨[], .inr ⟨_, source, rfl, rfl⟩⟩

/-- **Every token of a source has the shape of its class.** -/
theorem fits_of_mem_tokens {source : Source} {t : Token} (ht : t ∈ source.tokens)
    (hproper : t.kind ≠ .malformed) : Cut.Fits t.kind t.value.toList := by
  have htext (text : List Char) (ht : t ∈ (ofChars text).tokens) :
      Cut.Fits t.kind t.value.toList :=
    (Tiles.tiles_tokens (l := .ofSource (.ofChars text)) ⟨rfl, Cursor.at_ofSource text⟩).fits t ht
      hproper
  obtain ⟨text, rfl | ⟨answer, later, hstop, rfl⟩⟩ := source.exists_text
  · exact htext text ht
  · exact htext text ((interrupted_tokens text hstop later).mem_of_proper ht hproper)

end Source

/-! ## §4. What the decoders make of them. -/

/-- The decoders find a value in the token, or an escape with a character behind its backslash that
stands for nothing. -/
structure Token.Decodes (t : Token) : Prop where
  number : t.kind = .number → ∃ x, Literal.number t.value = .ok x
  hexNumber : t.kind = .hexNumber → ∃ x, Literal.hexNumber t.value = .ok x
  triQuote : t.kind = .triQuote → ∃ s, Literal.triQuote t.value = .ok s
  string : t.kind = .string → (∃ s, Literal.string t.value = .ok s)
    ∨ ∃ c more, Literal.string t.value = .error (.invalidEscape (String.ofList ('\\' :: c :: more)))

theorem Token.decodes_of_fits {t : Token} (h : Cut.Fits t.kind t.value.toList) : t.Decodes := by
  constructor
  · intro hkind
    rw [hkind] at h
    obtain ⟨x, hx⟩ := Option.isSome_iff_exists.mp h
    exact ⟨x, by rw [Literal.number, hx]⟩
  · intro hkind
    rw [hkind] at h
    obtain ⟨x, hx⟩ := Option.isSome_iff_exists.mp h
    exact ⟨x, by rw [Literal.hexNumber, hx]⟩
  · intro hkind
    rw [hkind] at h
    obtain ⟨content, hcontent⟩ := Option.isSome_iff_exists.mp h
    exact ⟨String.ofList content, by rw [Literal.triQuote, hcontent]⟩
  · intro hkind
    rw [hkind] at h
    obtain ⟨content, hcontent, hpaired⟩ := h
    unfold Literal.string
    rw [hcontent]
    dsimp only
    obtain ⟨chars, hchars⟩ | ⟨c, more, hbad⟩ := hpaired.decode
    · exact .inl ⟨String.ofList chars, by rw [hchars]⟩
    · exact .inr ⟨c, more, by rw [hbad]⟩

/-- A malformed token is no literal. -/
theorem Source.decodes_of_mem_tokens {source : Source} {t : Token} (ht : t ∈ source.tokens) :
    t.Decodes := by
  by_cases hproper : t.kind = .malformed
  · exact ⟨by simp [hproper], by simp [hproper], by simp [hproper], by simp [hproper]⟩
  · exact t.decodes_of_fits (Source.fits_of_mem_tokens ht hproper)

/-! ## §5. What the parser reports. -/

/-- Faults of a literal that a lexer would not have let through. -/
inductive ParseFault.Misshapen : ParseFault → Prop where
  | number (text : String) : Misshapen (.invalidNumber text)
  | string (text : String) : Misshapen (.invalidString text)
  | escape : Misshapen (.invalidEscape "\\")

namespace Parser

variable {p : Parser} {t : Token} {e : ParseError}

theorem literal_eq_error {α : Type} {span : Span} {value : Except ParseFault α}
    {symbol : α → Symbol} (h : p.literal span value symbol = .error e) :
    value = .error e.fault := by
  cases value with
  | ok x => cases h
  | error fault =>
    cases h
    rfl

/-- The parser reports what a decoder finds, or something about brackets. -/
theorem not_misshapen_of_step (ht : t.Decodes) (h : p.step t = .error e) : ¬ e.fault.Misshapen := by
  intro hbad
  unfold step at h
  cases hkind : t.kind with
  | malformed =>
    rw [hkind] at h
    cases h
    cases hbad
  | separator =>
    rw [hkind] at h
    dsimp only at h
    split at h <;> cases h
  | identifier =>
    rw [hkind] at h
    cases h
  | number =>
    rw [hkind] at h
    obtain ⟨x, hx⟩ := ht.number hkind
    cases hx.symm.trans (literal_eq_error h)
  | hexNumber =>
    rw [hkind] at h
    obtain ⟨x, hx⟩ := ht.hexNumber hkind
    cases hx.symm.trans (literal_eq_error h)
  | triQuote =>
    rw [hkind] at h
    obtain ⟨s, hs⟩ := ht.triQuote hkind
    cases hs.symm.trans (literal_eq_error h)
  | string =>
    rw [hkind] at h
    have hvalue := literal_eq_error h
    obtain ⟨s, hs⟩ | ⟨c, more, hescape⟩ := ht.string hkind
    · cases hs.symm.trans hvalue
    · -- a lone backslash is shorter than what is reported
      rw [← Except.error.inj (hescape.symm.trans hvalue)] at hbad
      generalize hreported : String.ofList ('\\' :: c :: more) = reported at hbad
      cases hbad
      have hchars := congrArg String.toList hreported
      simp at hchars
  | opening =>
    rw [hkind] at h
    cases h
  | closing =>
    rw [hkind] at h
    dsimp only [close] at h
    split at h
    · cases h
      cases hbad
    · split_ifs at h <;> cases h <;> cases hbad
  | comma =>
    rw [hkind] at h
    dsimp only [comma] at h
    split at h
    · cases h
      cases hbad
    · split_ifs at h
      cases h
      cases hbad

theorem not_misshapen_of_run {tokens : List Token} (htokens : ∀ t ∈ tokens, t.Decodes)
    (h : (p.run tokens).result = .error e) : ¬ e.fault.Misshapen := by
  induction tokens generalizing p with
  | nil =>
    unfold run result at h
    dsimp only at h
    split at h
    · cases h
      intro hbad
      cases hbad
    · cases h
  | cons t tokens ih =>
    obtain ⟨ht, htokens⟩ := List.forall_mem_cons.mp htokens
    unfold run at h
    split at h
    · exact ih htokens h
    · rename_i hstep
      cases h
      exact not_misshapen_of_step ht hstep

end Parser

/-- **The lexer and the decoders agree.**  Parsing a source reports no misshapen literal, as every
literal token of the source decodes; only tokens that no lexer gave are reported so. -/
theorem parseSource_decodes (names : Interner) (mode : LexMode) (source : Source) :
    (∀ e, (parseSource names mode source).result = .error e → ¬ e.fault.Misshapen)
    ∧ (∀ t ∈ source.tokensBy mode, t.Decodes)
    ∧ (∃ tokens span, (parseTokens names tokens).result = .error ⟨.invalidNumber "", span⟩)
    ∧ (∃ tokens span, (parseTokens names tokens).result = .error ⟨.invalidString "", span⟩)
    ∧ ∃ tokens span, (parseTokens names tokens).result = .error ⟨.invalidEscape "\\", span⟩ := by
  have hdecodes : ∀ t ∈ source.tokensBy mode, t.Decodes := by
    rw [Source.tokensBy_eq]
    exact fun t ht => Source.decodes_of_mem_tokens ht
  refine ⟨fun e h => Parser.not_misshapen_of_run hdecodes h, hdecodes, ?_, ?_, ?_⟩
  · have hempty : Literal.number "" = .error (.invalidNumber "") := by decide +kernel
    refine ⟨[.ofKind .number "" (.point 0)], .point 0, ?_⟩
    simp [parseTokens, Parser.run, Parser.step, Token.ofKind, hempty, Parser.literal]
  · have hempty : Literal.string "" = .error (.invalidString "") := by decide +kernel
    refine ⟨[.ofKind .string "" (.point 0)], .point 0, ?_⟩
    simp [parseTokens, Parser.run, Parser.step, Token.ofKind, hempty, Parser.literal]
  · have hlone : Literal.string "\"\\\"" = .error (.invalidEscape "\\") := by decide +kernel
    refine ⟨[.ofKind .string "\"\\\"" (.point 0)], .point 0, ?_⟩
    simp [parseTokens, Parser.run, Parser.step, Token.ofKind, hlone, Parser.literal]

end Prototalk
