/-
  Prototalk.Proofs.Token.Lexicon
  ────────────────────────────────
  **THE TOKENS OF THE LANGUAGE, WITHOUT A LEXER.**

  Which texts are tokens, and what makes a text malformed, told without
  saying how they are found:

      Lexeme kind word rest     `word` is a token of its kind in front of `rest`
      Broken fault word …       `word` is what is wrong with a text
      Lexed before text tokens  the tokens of `text`, which stands behind `before`

  Of what follows a token only the first character is ever asked for: it must
  not carry on the run that the token ends with (`Stops`).

  The language leaves no text out: `lexeme_or_broken`, `exists_lexed`.
-/
import Mathlib.Data.List.Infix
import Prototalk.Proofs.Token.Position
import Prototalk.Token
import Prototalk.Token.CharClass

namespace Prototalk

namespace Lexicon

open Lexer (isOperator isSpace isWordStart isWordChar isHexDigit)

/-! ## §1. Runs. -/

/-- The text does not start with such a character. -/
def Stops (p : Char → Bool) (rest : List Char) : Prop := ∀ x ∈ rest.head?, p x = false

/-- All of `run` are such characters, and `rest` does not go on with one. -/
structure Run (p : Char → Bool) (run rest : List Char) : Prop where
  all : ∀ x ∈ run, p x = true
  stops : Stops p rest

/-- Every text starts with a run, which may be empty. -/
theorem exists_run (p : Char → Bool) (text : List Char) :
    ∃ run rest, text = run ++ rest ∧ Run p run rest := by
  induction text with
  | nil => exact ⟨[], [], rfl, by simp, by simp [Stops]⟩
  | cons x text ih =>
    cases hx : p x with
    | false => exact ⟨[], x :: text, rfl, by simp, by simp [Stops, hx]⟩
    | true =>
      obtain ⟨run, rest, rfl, hall, hstops⟩ := ih
      exact ⟨x :: run, rest, rfl, List.forall_mem_cons.mpr ⟨hx, hall⟩, hstops⟩

theorem exists_of_not_stops {chars rest : List Char} (h : ¬ Stops (· ∈ chars) rest) :
    ∃ x more, rest = x :: more ∧ x ∈ chars := by
  cases rest with
  | nil => exact absurd (by simp [Stops]) h
  | cons x more => exact ⟨x, more, rfl, by simpa [Stops] using h⟩

/-! ## §2. The parts of tokens. -/

/-- Digits, or digits with a point in between or in front of them; `rest` stands behind. -/
inductive Mantissa : List Char → List Char → Prop where
  | whole {digits rest : List Char} (hne : digits ≠ []) (hdigits : Run Char.isDigit digits rest)
      (hnext : Stops (· ∈ ['.', 'x', 'X']) rest) : Mantissa digits rest
  | point {digits frac rest : List Char} (hdigits : ∀ x ∈ digits, x.isDigit = true)
      (hne : frac ≠ []) (hfrac : Run Char.isDigit frac rest) :
      Mantissa (digits ++ '.' :: frac) rest

/-- Nothing, or a marker with digits behind it, between which a sign may stand. -/
inductive Exponent : List Char → List Char → Prop where
  | absent {rest : List Char} (hnext : Stops (· ∈ ['e', 'E']) rest) : Exponent [] rest
  | present {marker : Char} {sign digits rest : List Char} (hmarker : marker ∈ ['e', 'E'])
      (hsign : sign ∈ [[], ['+'], ['-']]) (hne : digits ≠ [])
      (hdigits : Run Char.isDigit digits rest) : Exponent (marker :: (sign ++ digits)) rest

/-- What may stand between the quotes of a string: characters other than quotes and backslashes,
and backslashes with any character behind them. -/
inductive Units : List Char → Prop where
  | nil : Units []
  | plain {c : Char} {rest : List Char} (hquote : c ≠ '"') (hslash : c ≠ '\\')
      (hrest : Units rest) : Units (c :: rest)
  | escape (c : Char) {rest : List Char} (hrest : Units rest) : Units ('\\' :: c :: rest)

/-- What opens and closes a long string. -/
def quotes : List Char := ['"', '"', '"']

/-! ## §3. Tokens. -/

/-- `word` is a token of its kind, in front of `rest`. -/
inductive Lexeme : TokenKind → List Char → List Char → Prop where
  | separator {c : Char} {rest : List Char} (hc : c ∈ [';', '\n']) : Lexeme .separator [c] rest
  | opening {c : Char} {rest : List Char} (hc : c ∈ ['(', '[', '{']) : Lexeme .opening [c] rest
  | closing {c : Char} {rest : List Char} (hc : c ∈ [')', ']', '}']) : Lexeme .closing [c] rest
  | comma {rest : List Char} : Lexeme .comma [','] rest
  | operator {word rest : List Char} (hne : word ≠ []) (hrun : Run isOperator word rest) :
      Lexeme .identifier word rest
  | word {c : Char} {more rest : List Char} (hc : isWordStart c = true)
      (hrun : Run isWordChar more rest) : Lexeme .identifier (c :: more) rest
  | point {more rest : List Char} (hnext : Stops Char.isDigit (more ++ rest))
      (hrun : Run isWordChar more rest) : Lexeme .identifier ('.' :: more) rest
  | number {mantissa exponent rest : List Char} (hmantissa : Mantissa mantissa (exponent ++ rest))
      (hexponent : Exponent exponent rest) : Lexeme .number (mantissa ++ exponent) rest
  | hexNumber {marker : Char} {digits rest : List Char} (hmarker : marker ∈ ['x', 'X'])
      (hne : digits ≠ []) (hdigits : Run isHexDigit digits rest) :
      Lexeme .hexNumber ('0' :: marker :: digits) rest
  | string {units rest : List Char} (hunits : Units units)
      (hsingle : units = [] → Stops (· == '"') rest) : Lexeme .string ('"' :: (units ++ ['"'])) rest
  -- only at the end of the token do three quotes stand together
  | triQuote {content rest : List Char} (hcontent : ¬ quotes <:+: content ++ ['"', '"']) :
      Lexeme .triQuote (quotes ++ (content ++ quotes)) rest

/-- `word` cannot be read in front of `rest`, and why.  A wrong hexadecimal marker is `dropped`
with it. -/
inductive Broken : LexFault → List Char → List Char → List Char → Prop where
  | unexpectedChar {c : Char} {rest : List Char} (hspace : isSpace c = false)
      (hnone : ∀ kind word rest, ¬ Lexeme kind (c :: word) rest) :
      Broken (.unexpectedChar c) [c] [] rest
  | invalidHexPrefix {digits rest : List Char} {marker : Char} (hne : digits ≠ [])
      (hdigits : ∀ x ∈ digits, x.isDigit = true) (hzero : digits ≠ ['0'])
      (hmarker : marker ∈ ['x', 'X']) :
      Broken (.invalidHexPrefix (String.ofList digits)) digits [marker] rest
  | emptyHex {marker : Char} {rest : List Char} (hmarker : marker ∈ ['x', 'X'])
      (hnext : Stops isHexDigit rest) : Broken .emptyHex ['0', marker] [] rest
  | missingFraction {digits rest : List Char} (hne : digits ≠ [])
      (hdigits : ∀ x ∈ digits, x.isDigit = true) (hnext : Stops Char.isDigit rest) :
      Broken .missingFraction (digits ++ ['.']) [] rest
  | emptyExponent {mantissa sign rest : List Char} {marker : Char}
      (hmantissa : Mantissa mantissa (marker :: (sign ++ rest))) (hmarker : marker ∈ ['e', 'E'])
      (hsign : sign ∈ [[], ['+'], ['-']]) (hmore : sign = [] → Stops (· ∈ ['+', '-']) rest)
      (hnext : Stops Char.isDigit rest) :
      Broken .emptyExponent (mantissa ++ marker :: sign) [] rest
  | unterminatedString {units slash : List Char} (hunits : Units units)
      (hslash : slash ∈ [[], ['\\']]) : Broken .unterminatedString ('"' :: (units ++ slash)) [] []
  | unterminatedTriQuote {content : List Char} (hcontent : ¬ quotes <:+: content) :
      Broken .unterminatedTriQuote (quotes ++ content) [] []

/-- `tokens` are the tokens of `text`, which stands behind `before`: blanks and tokens in turn, up
to the end or to the first thing that is broken. -/
inductive Lexed : List Char → List Char → List Token → Prop where
  | blank {before gap : List Char} (hgap : ∀ x ∈ gap, isSpace x = true) : Lexed before gap []
  | token {before gap word rest : List Char} {kind : TokenKind} {tokens : List Token}
      (hgap : ∀ x ∈ gap, isSpace x = true) (hword : Lexeme kind word rest)
      (hrest : Lexed (before ++ gap ++ word) rest tokens) :
      Lexed before (gap ++ word ++ rest) (.ofKind kind (String.ofList word)
        ⟨offsetOf (before ++ gap), offsetOf (before ++ gap ++ word)⟩ :: tokens)
  | broken {before gap word dropped rest : List Char} {fault : LexFault}
      (hgap : ∀ x ∈ gap, isSpace x = true) (hword : Broken fault word dropped rest) :
      Lexed before (gap ++ word ++ dropped ++ rest) [.malformed (String.ofList word)
        ⟨fault, offsetOf (before ++ gap), offsetOf (before ++ gap ++ word ++ dropped)⟩]

/-! ## §4. No text is left out. -/

/-- The characters that tokens start with. -/
inductive Starts (c : Char) : Prop where
  | digit (hc : c.isDigit = true)
  | word (hc : isWordStart c = true)
  | operator (hc : isOperator c = true)
  | separator (hc : c ∈ [';', '\n'])
  | opening (hc : c ∈ ['(', '[', '{'])
  | closing (hc : c ∈ [')', ']', '}'])
  | other (hc : c ∈ ['.', '"', ','])

theorem Mantissa.starts {mantissa rest : List Char} (h : Mantissa mantissa rest) :
    ∃ c more, mantissa = c :: more ∧ Starts c := by
  cases h with
  | @whole digits rest hne hdigits hnext =>
    cases mantissa with
    | nil => exact absurd rfl hne
    | cons d more => exact ⟨d, more, rfl, .digit (hdigits.all d List.mem_cons_self)⟩
  | @point digits frac rest hdigits hne hfrac =>
    cases digits with
    | nil => exact ⟨'.', frac, rfl, .other (by simp)⟩
    | cons d more => exact ⟨d, _, rfl, .digit (hdigits d List.mem_cons_self)⟩

theorem Lexeme.starts {kind : TokenKind} {word rest : List Char} (h : Lexeme kind word rest) :
    ∃ c more, word = c :: more ∧ Starts c := by
  cases h with
  | separator hc => exact ⟨_, [], rfl, .separator hc⟩
  | opening hc => exact ⟨_, [], rfl, .opening hc⟩
  | closing hc => exact ⟨_, [], rfl, .closing hc⟩
  | comma => exact ⟨',', [], rfl, .other (by simp)⟩
  | operator hne hrun =>
    cases word with
    | nil => exact absurd rfl hne
    | cons c more => exact ⟨c, more, rfl, .operator (hrun.all c List.mem_cons_self)⟩
  | word hc hrun => exact ⟨_, _, rfl, .word hc⟩
  | point hnext hrun => exact ⟨'.', _, rfl, .other (by simp)⟩
  | number hmantissa hexponent =>
    obtain ⟨c, more, rfl, hc⟩ := hmantissa.starts
    exact ⟨c, _, rfl, hc⟩
  | hexNumber hmarker hne hdigits => exact ⟨'0', _, rfl, .digit (by decide)⟩
  | string hunits hsingle => exact ⟨'"', _, rfl, .other (by simp)⟩
  | triQuote hcontent => exact ⟨'"', _, rfl, .other (by simp)⟩

/-- A token is at the front of the text. -/
def HasToken (text : List Char) : Prop :=
  ∃ kind word rest, text = word ++ rest ∧ Lexeme kind word rest

/-- The text is broken at its front. -/
def IsBroken (text : List Char) : Prop :=
  ∃ fault word dropped rest, text = word ++ dropped ++ rest ∧ Broken fault word dropped rest

/-- There is something at the front of the text. -/
def Begins (text : List Char) : Prop := HasToken text ∨ IsBroken text

theorem Begins.token {text : List Char} {kind : TokenKind} (word rest : List Char)
    (htext : text = word ++ rest) (hword : Lexeme kind word rest) : Begins text :=
  .inl ⟨kind, word, rest, htext, hword⟩

theorem Begins.broken {text : List Char} {fault : LexFault} (word dropped rest : List Char)
    (htext : text = word ++ dropped ++ rest) (hword : Broken fault word dropped rest) :
    Begins text :=
  .inr ⟨fault, word, dropped, rest, htext, hword⟩

theorem Starts.exists_lexeme {c : Char} (h : Starts c) :
    ∃ kind word rest, Lexeme kind (c :: word) rest := by
  cases h with
  | digit hc =>
    have hwhole : Mantissa [c] [] := .whole (by simp) ⟨by simpa using hc, by simp [Stops]⟩
      (by simp [Stops])
    exact ⟨_, [], [], .number hwhole (.absent (by simp [Stops]))⟩
  | word hc => exact ⟨_, [], [], .word hc ⟨by simp, by simp [Stops]⟩⟩
  | operator hc => exact ⟨_, [], [], .operator (by simp) ⟨by simpa using hc, by simp [Stops]⟩⟩
  | separator hc => exact ⟨_, [], [], .separator hc⟩
  | opening hc => exact ⟨_, [], [], .opening hc⟩
  | closing hc => exact ⟨_, [], [], .closing hc⟩
  | other hc =>
    simp only [List.mem_cons, List.not_mem_nil, or_false] at hc
    rcases hc with rfl | rfl | rfl
    · exact ⟨_, [], [], .point (by simp [Stops]) ⟨by simp, by simp [Stops]⟩⟩
    · exact ⟨_, ['"'], [], .string .nil (by simp [Stops])⟩
    · exact ⟨_, [], [], .comma⟩

/-- Behind a mantissa there is an exponent, or a marker without digits. -/
theorem begins_mantissa {mantissa rest : List Char} (h : Mantissa mantissa rest) :
    Begins (mantissa ++ rest) := by
  by_cases hmarked : Stops (· ∈ ['e', 'E']) rest
  · exact .token (mantissa ++ []) rest (by simp) (.number h (.absent hmarked))
  · obtain ⟨marker, more, rfl, hmarker⟩ := exists_of_not_stops hmarked
    obtain ⟨sign, behind, rfl, hsign, hmore⟩ : ∃ sign behind, more = sign ++ behind
        ∧ sign ∈ [[], ['+'], ['-']] ∧ (sign = [] → Stops (· ∈ ['+', '-']) behind) := by
      by_cases hsigned : Stops (· ∈ ['+', '-']) more
      · exact ⟨[], more, rfl, by simp, fun _ => hsigned⟩
      · obtain ⟨x, behind, rfl, hx⟩ := exists_of_not_stops hsigned
        exact ⟨[x], behind, rfl, by simpa using hx, by simp⟩
    obtain ⟨digits, rest, rfl, hdigits⟩ := exists_run Char.isDigit behind
    by_cases hne : digits = []
    · subst hne
      exact .broken (mantissa ++ marker :: sign) [] rest (by simp)
        (.emptyExponent h hmarker hsign hmore hdigits.stops)
    · exact .token (mantissa ++ (marker :: (sign ++ digits))) rest (by simp)
        (.number (by simpa using h) (.present hmarker hsign hne hdigits))

theorem begins_digit {c : Char} (hc : c.isDigit = true) (text : List Char) :
    Begins (c :: text) := by
  obtain ⟨more, rest, rfl, hdigits⟩ := exists_run Char.isDigit text
  have hall : ∀ x ∈ c :: more, x.isDigit = true := List.forall_mem_cons.mpr ⟨hc, hdigits.all⟩
  have hne : c :: more ≠ [] := List.cons_ne_nil _ _
  by_cases hnext : Stops (· ∈ ['.', 'x', 'X']) rest
  · exact begins_mantissa (.whole hne ⟨hall, hdigits.stops⟩ hnext)
  · obtain ⟨x, behind, rfl, hx⟩ := exists_of_not_stops hnext
    rcases List.mem_cons.mp hx with rfl | hx
    · obtain ⟨frac, rest, rfl, hfrac⟩ := exists_run Char.isDigit behind
      by_cases hfracne : frac = []
      · subst hfracne
        exact .broken (c :: more ++ ['.']) [] rest (by simp)
          (.missingFraction hne hall hfrac.stops)
      · have h := begins_mantissa (.point hall hfracne hfrac)
        simpa using h
    · by_cases hzero : c :: more = ['0']
      · obtain ⟨rfl, rfl⟩ := List.cons.inj hzero
        obtain ⟨digits, rest, rfl, hhex⟩ := exists_run isHexDigit behind
        by_cases hhexne : digits = []
        · subst hhexne
          exact .broken ['0', x] [] rest (by simp)
            (.emptyHex hx hhex.stops)
        · exact .token ('0' :: x :: digits) rest (by simp)
            (.hexNumber hx hhexne hhex)
      · exact .broken (c :: more) [x] behind (by simp)
          (.invalidHexPrefix hne hall hzero hx)

theorem begins_point (text : List Char) : Begins ('.' :: text) := by
  obtain ⟨frac, rest, rfl, hfrac⟩ := exists_run Char.isDigit text
  by_cases hne : frac = []
  · subst hne
    obtain ⟨more, rest, rfl, hrun⟩ := exists_run isWordChar rest
    exact .token ('.' :: more) rest (by simp) (.point hfrac.stops hrun)
  · have hnone : ∀ x ∈ ([] : List Char), x.isDigit = true := by simp
    exact begins_mantissa (.point hnone hne hfrac)

/-- Units go on up to a quote or up to the end, where a backslash may be left alone. -/
theorem units_or_open (text : List Char) :
    (∃ units rest, text = units ++ '"' :: rest ∧ Units units)
      ∨ ∃ units slash, text = units ++ slash ∧ Units units ∧ slash ∈ [[], ['\\']] := by
  induction h : text.length using Nat.strongRecOn generalizing text with
  | ind n ih =>
    cases text with
    | nil => exact .inr ⟨[], [], rfl, .nil, by simp⟩
    | cons c text =>
      by_cases hquote : c = '"'
      · subst hquote
        exact .inl ⟨[], text, rfl, .nil⟩
      by_cases hslash : c = '\\'
      · subst hslash
        cases text with
        | nil => exact .inr ⟨[], ['\\'], rfl, .nil, by simp⟩
        | cons e text =>
          -- the character behind a backslash is not looked at
          have hlt : text.length < n := by
            rw [List.length_cons, List.length_cons] at h
            omega
          rcases ih text.length hlt text rfl with
            ⟨units, rest, rfl, hunits⟩ | ⟨units, slash, rfl, hunits, hslash⟩
          · exact .inl ⟨'\\' :: e :: units, rest, rfl, .escape e hunits⟩
          · exact .inr ⟨'\\' :: e :: units, slash, rfl, .escape e hunits, hslash⟩
      · rcases ih text.length (by rw [← h]; simp) text rfl with
          ⟨units, rest, rfl, hunits⟩ | ⟨units, slash, rfl, hunits, hopen⟩
        · exact .inl ⟨c :: units, rest, rfl, .plain hquote hslash hunits⟩
        · exact .inr ⟨c :: units, slash, rfl, .plain hquote hslash hunits, hopen⟩

/-- A text has three quotes together, and then a first place where they stand, or it has none. -/
theorem exists_first_quotes (text : List Char) :
    (∃ content rest, text = content ++ quotes ++ rest ∧ ¬ quotes <:+: content ++ ['"', '"'])
      ∨ ¬ quotes <:+: text := by
  induction text with
  | nil => exact .inr (by simp [quotes])
  | cons c text ih =>
    by_cases hhere : quotes <+: c :: text
    · obtain ⟨rest, hrest⟩ := hhere
      refine .inl ⟨[], rest, hrest.symm, ?_⟩
      intro hinfix
      have hlength := hinfix.length_le
      simp [quotes] at hlength
    rcases ih with ⟨content, rest, rfl, hfirst⟩ | hnone
    · refine .inl ⟨c :: content, rest, rfl, ?_⟩
      rw [List.cons_append, List.infix_cons_iff]
      rintro (hstart | hlater)
      · refine hhere (hstart.trans ⟨'"' :: rest, ?_⟩)
        simp [quotes]
      · exact hfirst hlater
    · refine .inr ?_
      rw [List.infix_cons_iff]
      rintro (hstart | hlater)
      · exact hhere hstart
      · exact hnone hlater

theorem begins_quote (text : List Char) : Begins ('"' :: text) := by
  by_cases htriple : ['"', '"'] <+: text
  · obtain ⟨text, rfl⟩ := htriple
    rcases exists_first_quotes text with ⟨content, rest, rfl, hfirst⟩ | hnone
    · exact .token (quotes ++ (content ++ quotes)) rest (by simp [quotes])
        (.triQuote hfirst)
    · exact .broken (quotes ++ text) [] [] (by simp [quotes])
        (.unterminatedTriQuote hnone)
  · rcases units_or_open text with ⟨units, rest, rfl, hunits⟩ | ⟨units, slash, rfl, hunits, hslash⟩
    · refine .token ('"' :: (units ++ ['"'])) rest (by simp) (.string hunits ?_)
      intro hnil x hx
      subst hnil
      obtain ⟨more, rfl⟩ := List.head?_eq_some_iff.mp (Option.mem_def.mp hx)
      by_contra hquote
      refine htriple ⟨more, ?_⟩
      rw [Bool.not_eq_false, beq_iff_eq] at hquote
      simp [hquote]
    · exact .broken ('"' :: (units ++ slash)) [] [] (by simp)
        (.unterminatedString hunits hslash)

/-- **Every text that does not start with a blank starts with a token or with something broken.** -/
theorem lexeme_or_broken {c : Char} (hspace : isSpace c = false) (text : List Char) :
    Begins (c :: text) := by
  by_cases hdigit : c.isDigit = true
  · exact begins_digit hdigit text
  by_cases hpoint : c = '.'
  · subst hpoint
    exact begins_point text
  by_cases hquote : c = '"'
  · subst hquote
    exact begins_quote text
  by_cases hword : isWordStart c = true
  · obtain ⟨more, rest, rfl, hrun⟩ := exists_run isWordChar text
    exact .token (c :: more) rest rfl (.word hword hrun)
  by_cases hoperator : isOperator c = true
  · obtain ⟨more, rest, rfl, hrun⟩ := exists_run isOperator text
    refine .token (c :: more) rest rfl (.operator (by simp) ⟨?_, hrun.stops⟩)
    exact List.forall_mem_cons.mpr ⟨hoperator, hrun.all⟩
  by_cases hseparator : c ∈ [';', '\n']
  · exact .token [c] text rfl (.separator hseparator)
  by_cases hopening : c ∈ ['(', '[', '{']
  · exact .token [c] text rfl (.opening hopening)
  by_cases hclosing : c ∈ [')', ']', '}']
  · exact .token [c] text rfl (.closing hclosing)
  by_cases hcomma : c = ','
  · subst hcomma
    exact .token [','] text rfl .comma
  · refine .broken [c] [] text rfl (.unexpectedChar hspace ?_)
    intro kind word rest h
    obtain ⟨x, more, heq, hx⟩ := h.starts
    obtain ⟨rfl, -⟩ := List.cons.inj heq
    cases hx with
    | digit hc => exact hdigit hc
    | word hc => exact hword hc
    | operator hc => exact hoperator hc
    | separator hc => exact hseparator hc
    | opening hc => exact hopening hc
    | closing hc => exact hclosing hc
    | other hc =>
      simp only [List.mem_cons, List.not_mem_nil, or_false] at hc
      rcases hc with rfl | rfl | rfl
      · exact hpoint rfl
      · exact hquote rfl
      · exact hcomma rfl

/-- **Every text has tokens by the rules of the language.** -/
theorem exists_lexed (before text : List Char) : ∃ tokens, Lexed before text tokens := by
  induction h : text.length using Nat.strongRecOn generalizing before text with
  | ind n ih =>
    obtain ⟨gap, behind, rfl, hgap⟩ := exists_run isSpace text
    cases behind with
    | nil =>
      refine ⟨[], .blank ?_⟩
      rw [List.append_nil]
      exact hgap.all
    | cons c behind =>
      have hspace : isSpace c = false := hgap.stops c rfl
      rcases lexeme_or_broken hspace behind with
        ⟨kind, word, rest, htext, hword⟩ | ⟨fault, word, dropped, rest, htext, hword⟩
      · obtain ⟨x, more, rfl, -⟩ := hword.starts
        have hlength : rest.length < n := by
          rw [← h, htext]
          simp
          omega
        obtain ⟨tokens, hrest⟩ := ih _ hlength (before ++ gap ++ (x :: more)) rest rfl
        rw [htext, ← List.append_assoc]
        exact ⟨_, .token hgap.all hword hrest⟩
      · rw [htext, ← List.append_assoc, ← List.append_assoc]
        exact ⟨_, .broken hgap.all hword⟩

end Lexicon

end Prototalk
