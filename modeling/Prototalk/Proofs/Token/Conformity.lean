/-
  Prototalk.Proofs.Token.Conformity
  ────────────────────────────────
  **THE LEXER READS THE LANGUAGE.**

  What stands at the front of a text by the rules of the language is what the
  lexer cuts off there:

    • each part of a token is read as far as it goes (`run_of`, `exponent_of`,
      `found_of_mantissa`, `string_of_units`, `triQuote_of_first`);
    • so a token, and something broken, is found as it is (`found_of_lexeme`,
      `found_of_broken`).

  There is always a token or something broken, so the lexer finds nothing
  else.  And what it finds it finds again before every other text that goes on
  with the same character; so no longer token starts in the same place.

  Main statement: `lexed_iff_tokenize`.
-/
import Prototalk.Proofs.Token.Lexicon
import Prototalk.Proofs.Token.Lexing
import Prototalk.Proofs.Token.Locality
import Prototalk.Proofs.Token.Tiling

namespace Prototalk

open Lexer (isOperator isSpace isWordStart isWordChar isHexDigit)
open Lexicon (Stops Mantissa Exponent Units Lexeme Broken Lexed Starts quotes)

namespace Cut

variable {p : Char → Bool} {front rest text word dropped : List Char} {c : Char}

/-- The cut is what is found at the front of the text. -/
def Found (cut : Cut) (text : List Char) : Prop :=
  ∃ c more, text = c :: more ∧ first c more = cut

theorem after_after (cut : Cut) (front more : List Char) :
    (cut.after more).after front = cut.after (front ++ more) := by
  simp [after]

/-! ## §1. Runs and choices. -/

theorem stops_of_mem {chars : List Char} (h : Stops (· ∈ chars) rest)
    (hp : ∀ x, p x = true → x ∈ chars) : Stops p rest := by
  intro x hx
  have hnot : x ∉ chars := by simpa using h x hx
  by_contra hpx
  exact hnot (hp x (by simpa using hpx))

theorem run_of (h : Lexicon.Run p front rest) (next : List Char → Cut) :
    run p next (front ++ rest) = (next rest).after front := by
  obtain ⟨htake, hdrop⟩ := takeWhile_append_of h.all h.stops
  rw [run, htake, hdrop]

theorem run1_of (hne : front ≠ []) (h : Lexicon.Run p front rest) (missing : LexFault)
    (next : List Char → Cut) : run1 p missing next (front ++ rest) = (next rest).after front := by
  obtain ⟨htake, -⟩ := takeWhile_append_of h.all h.stops
  rw [run1, htake, if_neg hne, run_of h]

theorem run1_of_stops (h : Stops p rest) (missing : LexFault) (next : List Char → Cut) :
    run1 p missing next rest = wrong missing rest := by
  have hempty : ∀ x ∈ ([] : List Char), p x = true := by simp
  exact if_pos (takeWhile_append_of hempty h).1

theorem ifNext_of_stops (h : Stops p rest) (yes no : List Char → Cut) :
    ifNext p yes no rest = no rest := by
  cases rest with
  | nil => rfl
  | cons x rest =>
    have hx : p x = false := h x rfl
    rw [ifNext, hx]
    rfl

/-! ## §2. Numbers. -/

theorem exponentSign_of {sign : List Char} (hsign : sign ∈ [[], ['+'], ['-']])
    (hmore : sign = [] → Stops (· ∈ ['+', '-']) rest) :
    exponentSign (sign ++ rest) = (exponentDigits rest).after sign := by
  simp only [List.mem_cons, List.not_mem_nil, or_false] at hsign
  rcases hsign with rfl | rfl | rfl
  · exact ifNext_of_stops (stops_of_mem (hmore rfl) (by simp)) _ _
  · rfl
  · rfl

theorem exponent_marker {marker : Char} (hmarker : marker ∈ ['e', 'E']) (text : List Char) :
    exponent (marker :: text) = (exponentSign text).after [marker] := by
  simp only [List.mem_cons, List.not_mem_nil, or_false] at hmarker
  rcases hmarker with rfl | rfl <;> rfl

theorem exponent_of {tail : List Char} (h : Exponent tail rest) :
    exponent (tail ++ rest) = (stop .number rest).after tail := by
  cases h with
  | absent hnext => exact ifNext_of_stops (stops_of_mem hnext (by simp)) _ _
  | @present marker sign digits _ hmarker hsign hne hdigits =>
    -- a digit is no sign
    have hmore : sign = [] → Stops (· ∈ ['+', '-']) (digits ++ rest) := by
      intro _ x hx
      obtain ⟨d, more, rfl⟩ := List.exists_cons_of_ne_nil hne
      obtain rfl : d = x := Option.some.inj hx
      have hnot : d ∉ ['+', '-'] :=
        Lexer.not_mem_of_class (hdigits.all d List.mem_cons_self) (by decide)
      simpa using hnot
    rw [List.cons_append, List.append_assoc, exponent_marker hmarker, exponentSign_of hsign hmore,
      exponentDigits, run1_of hne hdigits, after_after, after_after]
    simp

theorem fraction_of {frac : List Char} (hne : frac ≠ []) (h : Lexicon.Run Char.isDigit frac rest) :
    fraction (frac ++ rest) = (exponent rest).after frac :=
  run1_of hne h _ _

/-- What a token that starts with a digit goes on with. -/
theorem first_digit (hc : c.isDigit = true) (text : List Char) :
    first c text = (number c text).after [c] := by
  have hsingle : Lexer.single? c = none :=
    Lexer.single?_eq_none (Lexer.not_mem_of_class hc (by decide))
  rw [first, behind, hsingle]
  simp [hc]

/-- Digits at the front, with no hexadecimal marker behind them. -/
theorem first_digits {more : List Char} (hdigits : Lexicon.Run Char.isDigit (c :: more) rest)
    (hmark : Stops (· ∈ ['x', 'X']) rest) : first c (more ++ rest)
      = (ifNext (fun x => x == '.') fraction exponent rest).after (c :: more) := by
  obtain ⟨hc, hmore⟩ := List.forall_mem_cons.mp hdigits.all
  have hnumber : number c (more ++ rest) = decimal (more ++ rest) := by
    refine number_of_not_marked ?_
    rw [(takeWhile_append_of hmore hdigits.stops).2]
    exact stops_of_mem hmark (by simp [isHexMarker])
  rw [first_digit hc, hnumber, decimal, run_of ⟨hmore, hdigits.stops⟩, after_after]
  rfl

theorem found_of_mantissa {mantissa : List Char} (h : Mantissa mantissa rest) :
    ((exponent rest).after mantissa).Found (mantissa ++ rest) := by
  cases h with
  | whole hne hdigits hnext =>
    obtain ⟨c, more, rfl⟩ := List.exists_cons_of_ne_nil hne
    refine ⟨c, more ++ rest, rfl, ?_⟩
    rw [first_digits hdigits (stops_of_mem hnext (by simp)),
      ifNext_of_stops (stops_of_mem hnext (by simp))]
  | @point digits frac _ hdigits hne hfrac =>
    cases digits with
    | nil =>
      obtain ⟨d, more, rfl⟩ := List.exists_cons_of_ne_nil hne
      have hd : d.isDigit = true := hfrac.all d List.mem_cons_self
      refine ⟨'.', (d :: more) ++ rest, rfl, ?_⟩
      show (point (d :: (more ++ rest))).after ['.'] = _
      rw [point, if_pos hd, ← List.cons_append, fraction_of hne hfrac, after_after]
      rfl
    | cons c more =>
      refine ⟨c, more ++ ('.' :: (frac ++ rest)), by simp, ?_⟩
      rw [first_digits ⟨hdigits, by simp [Stops]⟩ (by simp [Stops])]
      show ((fraction (frac ++ rest)).after ['.']).after (c :: more) = _
      rw [fraction_of hne hfrac, after_after, after_after]
      simp

/-! ## §3. Strings. -/

theorem string_of_units {units : List Char} (h : Units units) (text : List Char) :
    string (units ++ text) = (string text).after units := by
  induction h with
  | nil => rfl
  | @plain c rest hquote hslash _ ih =>
    rw [List.cons_append, string_cons, if_neg (by simpa using hquote),
      if_neg (by simpa using hslash), ih, after_after]
    rfl
  | @escape c rest _ ih =>
    rw [List.cons_append, List.cons_append, string_cons, if_neg (by decide), if_pos (by decide)]
    show (string (rest ++ text)).after ['\\', c] = _
    rw [ih, after_after]
    rfl

theorem triQuote_of_first {content : List Char} (h : ¬ quotes <:+: content ++ ['"', '"'])
    (rest : List Char) :
    triQuote (content ++ (quotes ++ rest)) = (stop .triQuote rest).after (content ++ quotes) := by
  induction content with
  | nil => rfl
  | cons c content ih =>
    rw [List.cons_append, List.infix_cons_iff, not_or] at h
    have hnot : ∀ more, c = '"' → content ++ (quotes ++ rest) = '"' :: '"' :: more → False := by
      intro more hc hmore
      refine h.1 ?_
      subst hc
      -- the first two characters behind `c` are those in front of the closing quotes
      match content, hmore with
      | [], _ => simp [quotes]
      | [a], hmore => simp_all [quotes]
      | a :: b :: content, hmore => simp_all [quotes]
    rw [List.cons_append, triQuote.eq_3 _ _ hnot, ih h.2, after_after]
    rfl

theorem triQuote_of_open {content : List Char} (h : ¬ quotes <:+: content) :
    triQuote content = (wrong .unterminatedTriQuote []).after content := by
  induction content with
  | nil => rfl
  | cons c content ih =>
    rw [List.infix_cons_iff, not_or] at h
    have hnot : ∀ more, c = '"' → content = '"' :: '"' :: more → False := by
      intro more hc hmore
      refine h.1 ⟨more, ?_⟩
      rw [hc, hmore]
      rfl
    rw [triQuote.eq_3 _ _ hnot, ih h.2, after_after]
    rfl

/-! ## §4. Tokens. -/

theorem first_word (hc : isWordStart c = true) (text : List Char) :
    first c text = (Cut.word isWordChar text).after [c] := by
  have hsingle : Lexer.single? c = none :=
    Lexer.single?_eq_none (Lexer.not_mem_of_class hc (by decide))
  have hother : c ∉ ['.', '"'] ++ Lexer.digitChars := Lexer.not_mem_of_class hc (by decide)
  simp only [List.mem_append, not_or] at hother
  have hdigit : ¬ c.isDigit = true := fun hd => hother.2 (Lexer.mem_digitChars hd)
  rw [first, behind, hsingle]
  simp_all

theorem first_operator (hc : isOperator c = true) (text : List Char) :
    first c text = (Cut.word isOperator text).after [c] := by
  have hclass : ∀ c ∈ Lexer.operatorChars, Lexer.single? c = none ∧ c.isDigit = false
      ∧ (c == '.') = false ∧ (c == '"') = false ∧ isWordStart c = false :=
    List.all_iff_forall_prop.mp (by decide)
  obtain ⟨hsingle, hdigit, hpoint, hquote, hword⟩ := hclass c (List.contains_iff_mem.mp hc)
  rw [first, behind, hsingle]
  simp [hdigit, hpoint, hquote, hword, hc]

theorem first_unexpected (h : ¬ Starts c) (text : List Char) :
    first c text = (wrong (.unexpectedChar c) text).after [c] := by
  have hsingle : Lexer.single? c = none := by
    refine Lexer.single?_eq_none fun hmem => h ?_
    simp only [Lexer.singleChars, List.mem_cons, List.not_mem_nil, or_false] at hmem
    rcases hmem with rfl | rfl | rfl | rfl | rfl | rfl | rfl | rfl | rfl
    · exact .separator (by simp)
    · exact .separator (by simp)
    · exact .opening (by simp)
    · exact .opening (by simp)
    · exact .opening (by simp)
    · exact .closing (by simp)
    · exact .closing (by simp)
    · exact .closing (by simp)
    · exact .other (by simp)
  have hdigit : ¬ c.isDigit = true := fun hc => h (.digit hc)
  have hword : ¬ isWordStart c = true := fun hc => h (.word hc)
  have hoperator : ¬ isOperator c = true := fun hc => h (.operator hc)
  have hpoint : c ≠ '.' := by
    rintro rfl
    exact h (.other (by simp))
  have hquote : c ≠ '"' := by
    rintro rfl
    exact h (.other (by simp))
  rw [first, behind, hsingle]
  simp [hdigit, hword, hoperator, hpoint, hquote]

theorem quote_of_single (h : ¬ ['"', '"'] <+: text) : quote text = string text := by
  refine quote.eq_2 text fun more hmore => h ⟨more, ?_⟩
  rw [hmore]
  rfl

/-- Two quotes do not follow the first one if units do, and a quote that stands alone. -/
theorem not_triple {units : List Char} (hunits : Units units)
    (hsingle : units = [] → Stops (· == '"') rest) : ¬ ['"', '"'] <+: units ++ '"' :: rest := by
  rintro ⟨more, hmore⟩
  cases hunits with
  | nil =>
    have hrest : '"' :: more = rest := (List.cons.inj hmore).2
    exact absurd (hsingle rfl '"' (by rw [← hrest]; rfl)) (by decide)
  | plain hquote hslash hrest => exact hquote (List.cons.inj hmore).1.symm
  | escape c hrest => exact absurd (List.cons.inj hmore).1 (by decide)

theorem not_triple_of_open {units slash : List Char} (hunits : Units units)
    (hslash : slash ∈ [[], ['\\']]) : ¬ ['"', '"'] <+: units ++ slash := by
  rintro ⟨more, hmore⟩
  cases hunits with
  | nil =>
    simp only [List.mem_cons, List.not_mem_nil, or_false] at hslash
    rcases hslash with rfl | rfl
    · cases hmore
    · exact absurd (List.cons.inj hmore).1 (by decide)
  | plain hquote _ hrest => exact hquote (List.cons.inj hmore).1.symm
  | escape c hrest => exact absurd (List.cons.inj hmore).1 (by decide)

/-- A character that is a token by itself. -/
theorem found_of_single {kind : TokenKind} (h : Lexer.single? c = some kind) :
    Found ⟨.ok kind, [c], [], rest⟩ (c :: rest) := by
  refine ⟨c, rest, rfl, ?_⟩
  rw [first, behind, h]
  rfl

/-- A point is the start of a word, unless a digit follows. -/
theorem point_of_stops {text : List Char} (h : Stops Char.isDigit text) :
    point text = Cut.word isWordChar text := by
  cases text with
  | nil => rfl
  | cons d text =>
    have hd : d.isDigit = false := h d rfl
    rw [point, hd]
    rfl

/-- **A token is found.** -/
theorem found_of_lexeme {kind : TokenKind} (h : Lexeme kind word rest) :
    Found ⟨.ok kind, word, [], rest⟩ (word ++ rest) := by
  cases h with
  | separator hc | opening hc | closing hc =>
    simp only [List.mem_cons, List.not_mem_nil, or_false] at hc
    rcases hc with rfl | rfl | rfl <;> exact found_of_single rfl
  | comma => exact found_of_single rfl
  | operator hne hrun =>
    obtain ⟨c, more, rfl⟩ := List.exists_cons_of_ne_nil hne
    obtain ⟨hc, hmore⟩ := List.forall_mem_cons.mp hrun.all
    refine ⟨c, more ++ rest, rfl, ?_⟩
    rw [first_operator hc, Cut.word, run_of ⟨hmore, hrun.stops⟩, after_after]
    simp [stop, after]
  | @word c more _ hc hrun =>
    refine ⟨c, more ++ rest, rfl, ?_⟩
    rw [first_word hc, Cut.word, run_of hrun, after_after]
    simp [stop, after]
  | @point more _ hnext hrun =>
    refine ⟨'.', more ++ rest, rfl, ?_⟩
    show (point (more ++ rest)).after ['.'] = _
    rw [point_of_stops hnext, Cut.word, run_of hrun, after_after]
    simp [stop, after]
  | @number mantissa tail _ hmantissa hexponent =>
    have hfound := found_of_mantissa hmantissa
    rw [exponent_of hexponent, after_after] at hfound
    simpa [stop, after] using hfound
  | @hexNumber marker digits _ hmarker hne hdigits =>
    refine ⟨'0', marker :: (digits ++ rest), rfl, ?_⟩
    have hmark : isHexMarker marker = true := by simpa [isHexMarker] using hmarker
    rw [first_digit (by decide), number_of_marked hmark, hex, run1_of hne hdigits, after_after,
      after_after]
    simp [stop, after]
  | @string units _ hunits hsingle =>
    refine ⟨'"', units ++ '"' :: rest, by simp, ?_⟩
    show (quote (units ++ '"' :: rest)).after ['"'] = _
    rw [quote_of_single (not_triple hunits hsingle), string_of_units hunits]
    simp [string_cons, stop, after]
  | @triQuote content _ hcontent =>
    refine ⟨'"', '"' :: '"' :: (content ++ (quotes ++ rest)), by simp [quotes], ?_⟩
    show ((triQuote (content ++ (quotes ++ rest))).after ['"', '"']).after ['"'] = _
    rw [triQuote_of_first hcontent, after_after, after_after]
    simp [stop, after, quotes]

/-- **Something broken is found.** -/
theorem found_of_broken {fault : LexFault} (h : Broken fault word dropped rest) :
    Found ⟨.error fault, word, dropped, rest⟩ (word ++ dropped ++ rest) := by
  cases h with
  | @unexpectedChar c _ hspace hnone =>
    refine ⟨c, rest, rfl, ?_⟩
    have hnot : ¬ Starts c := by
      intro hstarts
      obtain ⟨kind, more, rest, hlexeme⟩ := hstarts.exists_lexeme
      exact hnone _ _ _ hlexeme
    rw [first_unexpected hnot]
    rfl
  | @invalidHexPrefix digits _ marker hne hdigits hzero hmarker =>
    obtain ⟨c, more, rfl⟩ := List.exists_cons_of_ne_nil hne
    obtain ⟨hc, hmore⟩ := List.forall_mem_cons.mp hdigits
    refine ⟨c, more ++ (marker :: rest), by simp, ?_⟩
    have hmark : (marker == 'x' || marker == 'X') = true := by simpa using hmarker
    have hdigit : Stops Char.isDigit (marker :: rest) := by
      simp only [List.mem_cons, List.not_mem_nil, or_false] at hmarker
      rcases hmarker with rfl | rfl <;> simp [Stops]
    obtain ⟨htake, hdrop⟩ := takeWhile_append_of hmore hdigit
    rw [first_digit hc, number, hdrop]
    simp only [hmark, if_true, htake, if_neg hzero]
    rfl
  | @emptyHex marker _ hmarker hnext =>
    refine ⟨'0', marker :: rest, rfl, ?_⟩
    have hmark : isHexMarker marker = true := by simpa [isHexMarker] using hmarker
    rw [first_digit (by decide), number_of_marked hmark, hex, run1_of_stops hnext]
    rfl
  | @missingFraction digits _ hne hdigits hnext =>
    obtain ⟨c, more, rfl⟩ := List.exists_cons_of_ne_nil hne
    refine ⟨c, more ++ '.' :: rest, by simp, ?_⟩
    rw [first_digits ⟨hdigits, by simp [Stops]⟩ (by simp [Stops])]
    show ((fraction rest).after ['.']).after (c :: more) = _
    rw [fraction, run1_of_stops hnext, after_after]
    simp [wrong, after]
  | @emptyExponent mantissa sign _ marker hmantissa hmarker hsign hmore hnext =>
    have hfound := found_of_mantissa hmantissa
    rw [exponent_marker hmarker, exponentSign_of hsign hmore, exponentDigits, run1_of_stops hnext,
      after_after, after_after] at hfound
    simpa [wrong, after] using hfound
  | @unterminatedString units slash hunits hslash =>
    refine ⟨'"', units ++ slash, by simp, ?_⟩
    have hnot := not_triple_of_open hunits hslash
    show (quote (units ++ slash)).after ['"'] = _
    rw [quote_of_single hnot, string_of_units hunits]
    simp only [List.mem_cons, List.not_mem_nil, or_false] at hslash
    rcases hslash with rfl | rfl <;> simp [string, wrong, after]
  | @unterminatedTriQuote content hcontent =>
    refine ⟨'"', '"' :: '"' :: content, by simp [quotes], ?_⟩
    show ((triQuote content).after ['"', '"']).after ['"'] = _
    rw [triQuote_of_open hcontent, after_after, after_after]
    simp [wrong, after, quotes]

end Cut

/-! ## §5. All tokens. -/

namespace Lexicon

variable {kind : TokenKind} {fault : LexFault} {before text word dropped rest : List Char}
  {c : Char} {tokens : List Token}

theorem Starts.not_space (h : Starts c) : isSpace c = false := by
  have hclass (hnot : c ∉ Lexer.spaceChars) : isSpace c = false := by simpa [isSpace] using hnot
  have hlisted (chars : List Char) (hc : c ∈ chars)
      (hchars : chars.all (fun x => !isSpace x) = true) : isSpace c = false := by
    simpa using List.all_eq_true.mp hchars c hc
  cases h with
  | digit hc | word hc | operator hc => exact hclass (Lexer.not_mem_of_class hc (by decide))
  | separator hc => exact hlisted _ hc (by decide)
  | opening hc => exact hlisted _ hc (by decide)
  | closing hc => exact hlisted _ hc (by decide)
  | other hc => exact hlisted _ hc (by decide)

/-- No blank is broken. -/
theorem Broken.not_space (h : Broken fault word dropped rest) :
    ∃ c more, word = c :: more ∧ isSpace c = false := by
  cases h with
  | unexpectedChar hspace hnone => exact ⟨_, [], rfl, hspace⟩
  | invalidHexPrefix hne hdigits =>
    obtain ⟨c, more, rfl⟩ := List.exists_cons_of_ne_nil hne
    exact ⟨c, more, rfl, Starts.not_space (.digit (hdigits c List.mem_cons_self))⟩
  | emptyHex => exact ⟨'0', _, rfl, by decide⟩
  | missingFraction hne hdigits =>
    obtain ⟨c, more, rfl⟩ := List.exists_cons_of_ne_nil hne
    exact ⟨c, _, rfl, Starts.not_space (.digit (hdigits c List.mem_cons_self))⟩
  | emptyExponent hmantissa =>
    obtain ⟨c, more, rfl, hc⟩ := hmantissa.starts
    exact ⟨c, _, rfl, hc.not_space⟩
  | unterminatedString => exact ⟨'"', _, rfl, by decide⟩
  | unterminatedTriQuote => exact ⟨'"', _, rfl, by decide⟩

/-- The next token of a lexer, if a token of the language stands behind the blanks. -/
theorem Lexeme.next_eq {l : Lexer} {gap : List Char} (h : Lexeme kind word rest)
    (hgap : Blank gap) (hl : l.At before (gap ++ word ++ rest)) :
    ∃ l', l.next = (some (.ofKind kind (String.ofList word)
        ⟨offsetOf (before ++ gap), offsetOf (before ++ gap ++ word)⟩), l')
      ∧ l'.At (before ++ gap ++ word) rest := by
  obtain ⟨c, more, htext, hcut⟩ := Cut.found_of_lexeme h
  have hspace : isSpace c = false := by
    obtain ⟨x, w, rfl, hx⟩ := h.starts
    obtain ⟨rfl, -⟩ := List.cons.inj htext
    exact hx.not_space
  have hkind : kind ≠ .malformed := by
    rintro rfl
    cases h
  rw [List.append_assoc, htext] at hl
  obtain ⟨l', hnext, hcursor, hdone⟩ := hl.next_token hgap hspace
  rw [hcut] at hnext hcursor hdone
  refine ⟨l', ?_, ?_, by simpa using hcursor⟩
  · rw [hnext]
    simp [Cut.token, Lexer.textOf]
  · rw [hdone]
    simpa [Cut.token, Token.ofKind] using hkind

/-- The last token of a lexer, if something broken stands behind the blanks. -/
theorem Broken.next_eq {l : Lexer} {gap : List Char} (h : Broken fault word dropped rest)
    (hgap : Blank gap) (hl : l.At before (gap ++ word ++ dropped ++ rest)) :
    ∃ l', l.next = (some (.malformed (String.ofList word)
        ⟨fault, offsetOf (before ++ gap), offsetOf (before ++ gap ++ word ++ dropped)⟩), l')
      ∧ l'.done = true ∧ l'.cursor.At (before ++ gap ++ word ++ dropped) rest := by
  obtain ⟨c, more, htext, hcut⟩ := Cut.found_of_broken h
  have hspace : isSpace c = false := by
    obtain ⟨x, w, rfl, hx⟩ := h.not_space
    obtain ⟨rfl, -⟩ := List.cons.inj htext
    exact hx
  rw [List.append_assoc gap, List.append_assoc gap, htext] at hl
  obtain ⟨l', hnext, hcursor, hdone⟩ := hl.next_token hgap hspace
  rw [hcut] at hnext hcursor hdone
  refine ⟨l', ?_, ?_, by simpa using hcursor⟩
  · rw [hnext]
    simp [Cut.token, Lexer.textOf]
  · rw [hdone]
    rfl

/-- **The lexer gives the tokens of the language.** -/
theorem Lexed.tokens_eq (h : Lexed before text tokens) {l : Lexer} (hl : l.At before text) :
    l.tokens = tokens := by
  induction h generalizing l with
  | blank hgap =>
    obtain ⟨l', hnext⟩ := hl.next_blank hgap
    exact Lexer.tokens_of_next_none hnext
  | token hgap hword hrest ih =>
    obtain ⟨l', hnext, hl'⟩ := hword.next_eq hgap hl
    rw [Lexer.tokens_of_next hnext, ih hl']
  | broken hgap hword =>
    obtain ⟨l', hnext, hdone, -⟩ := hword.next_eq hgap hl
    rw [Lexer.tokens_of_next hnext, Lexer.tokens_of_next_none (Lexer.next_of_done hdone)]

/-- **A token is the longest one in its place.**  Text that follows it does not make it a longer
token, with whatever text behind. -/
theorem Lexeme.longest {more : List Char} (h : Lexeme kind word (more ++ rest)) (hmore : more ≠ [])
    (kind' : TokenKind) (rest' : List Char) : ¬ Lexeme kind' (word ++ more) rest' := by
  intro h'
  obtain ⟨c, text, htext, hcut⟩ := Cut.found_of_lexeme h
  obtain ⟨c', text', htext', hcut'⟩ := Cut.found_of_lexeme h'
  obtain ⟨x, tail, rfl⟩ := List.exists_cons_of_ne_nil hmore
  have hvalue : word = c :: (Cut.behind c text).value := by
    have hfirst : (Cut.first c text).value = word := by rw [hcut]
    rw [← hfirst]
    rfl
  -- the cut behind `word` does not see more than the one character
  have hagain : Cut.first c ((Cut.behind c text).value ++ (x :: tail ++ rest'))
      = { Cut.first c text with rest := x :: tail ++ rest' } := by
    have hkind : (Cut.first c text).outcome = .ok kind := by rw [hcut]
    refine Cut.first_append hkind ?_
    rw [hcut]
    exact fun y hy => hy
  rw [hvalue, List.append_assoc, List.cons_append] at htext'
  obtain ⟨rfl, rfl⟩ := List.cons.inj htext'
  rw [hagain, hcut] at hcut'
  have hsame : word = word ++ x :: tail := congrArg Cut.value hcut'
  simp at hsame

/-- What is broken is no token. -/
theorem Broken.not_lexeme (h : Broken fault word dropped rest) {word' rest' : List Char}
    (htext : word' ++ rest' = word ++ dropped ++ rest) : ¬ Lexeme kind word' rest' := by
  intro h'
  obtain ⟨c, text, heq, hcut⟩ := Cut.found_of_broken h
  obtain ⟨c', text', heq', hcut'⟩ := Cut.found_of_lexeme h'
  rw [htext, heq] at heq'
  obtain ⟨rfl, rfl⟩ := List.cons.inj heq'
  have houtcome : Except.ok kind = Except.error fault :=
    congrArg Cut.outcome (hcut'.symm.trans hcut)
  cases houtcome

/-- **The tokens of a text are what the rules of the language say**, the malformed ones included:
a text is broken exactly where no token can be read, and a token that can be read is the longest
one in its place. -/
theorem lexed_iff_tokenize :
    (∀ (s : String) (tokens : List Token), Lexed [] s.toList tokens ↔ tokenize s = tokens)
      ∧ (∀ c more, isSpace c = false → (IsBroken (c :: more) ↔ ¬ HasToken (c :: more)))
      ∧ ∀ kind word more rest, more ≠ [] → Lexeme kind word (more ++ rest) →
        ∀ kind' rest', ¬ Lexeme kind' (word ++ more) rest' := by
  refine ⟨fun s tokens => ⟨?_, ?_⟩, fun c more hspace => ⟨?_, ?_⟩, ?_⟩
  · intro h
    exact h.tokens_eq (Lexer.at_ofSource s)
  · intro h
    obtain ⟨tokens', hlexed⟩ := exists_lexed [] s.toList
    have heq : tokenize s = tokens' := hlexed.tokens_eq (Lexer.at_ofSource s)
    rw [← h, heq]
    exact hlexed
  · intro hbroken
    obtain ⟨fault, word, dropped, rest, htext, h⟩ := hbroken
    rintro ⟨kind, word', rest', htext', h'⟩
    exact h.not_lexeme (htext'.symm.trans htext) h'
  · intro hnone
    exact (lexeme_or_broken hspace more).resolve_left hnone
  · intro kind word more rest hmore hword
    exact hword.longest hmore

/-- The number `3.14` ends where a second point stands: the text is not a longer token.  And there
is a token at the point, so nothing is broken. -/
theorem lexed_iff_tokenize_number :
    Lexed [] "3.14.foo".toList (tokenize "3.14.foo")
      ∧ (isSpace '.' = false ∧ (IsBroken ['.', 'f', 'o', 'o'] ↔ ¬ HasToken ['.', 'f', 'o', 'o']))
      ∧ Lexeme .number ['3', '.', '1', '4'] (['.'] ++ ['f', 'o', 'o'])
      ∧ ∀ kind rest, ¬ Lexeme kind (['3', '.', '1', '4'] ++ ['.']) rest := by
  have hmantissa : Mantissa (['3'] ++ '.' :: ['1', '4']) ['.', 'f', 'o', 'o'] :=
    .point (by simp) (by simp) ⟨by simp, by simp [Stops]⟩
  have hnumber : Lexeme .number ((['3'] ++ '.' :: ['1', '4']) ++ []) ['.', 'f', 'o', 'o'] :=
    .number hmantissa (.absent (by simp [Stops]))
  exact ⟨(lexed_iff_tokenize.1 _ _).mpr rfl,
    ⟨by decide, lexed_iff_tokenize.2.1 '.' _ (by decide)⟩, hnumber,
    lexed_iff_tokenize.2.2 .number _ ['.'] ['f', 'o', 'o'] (by simp) hnumber⟩

end Lexicon

end Prototalk
