/-
  Prototalk.Token.Scan
  ────────────────────────────────
  **READING ONE TOKEN.**

  The first character of a token decides its class, except that

      .    starts a number if a digit follows, and a word otherwise;
      "    starts a long string if two more quotes follow.

  All of this is only looked at: the class is known before the first
  character is taken.  Every run is as long as possible.  An error of the
  source takes the place of the token during which it was met, so it is never
  lost.
-/
import Prototalk.Token
import Prototalk.Token.CharClass
import Prototalk.Token.Cursor

namespace Prototalk

namespace Lexer

variable {ρ : Type}

/-! ## §1. Ending a token.

`taken` holds the characters of the token, last one first, and the cursor stands behind them. -/

/-- The text of the characters taken. -/
def textOf (taken : List Char) : String := String.ofList taken.reverse

/-- The range from `start` to the cursor. -/
def spanFrom (start : Nat) (cur : Cursor ρ) : Span := ⟨start, cur.offset⟩

/-- A malformed token. -/
def fail (fault : LexFault) (taken : List Char) (start : Nat) (cur : Cursor ρ) : Token :=
  .malformed (textOf taken) ⟨fault, spanFrom start cur⟩

/-- A finished token, unless the source failed right behind it. -/
def finish (kind : TokenKind) (taken : List Char) (start : Nat) (cur : Cursor ρ) : Token :=
  match cur.faultHere with
  | some e => fail (.read e) taken start cur
  | none => .ofKind kind (textOf taken) (spanFrom start cur)

/-- A literal that the input ends in; an error of the source is the better reason. -/
def unterminated (fault : LexFault) (taken : List Char) (start : Nat) (cur : Cursor ρ) : Token :=
  match cur.faultHere with
  | some e => fail (.read e) taken start cur
  | none => fail fault taken start cur

variable [Record ρ]

/-! ## §2. The classes of several characters. -/

/-- A word or an operator: a run of characters of one class. -/
def scanRun (p : Char → Bool) (cur : Cursor ρ) : Token × Cursor ρ :=
  let start := cur.offset
  let (taken, cur) := cur.eatWhile p []
  (finish .identifier taken start cur, cur)

/-- Digits that have to be there, and the end of the token. -/
def scanDigits (p : Char → Bool) (missing : LexFault) (kind : TokenKind) (start : Nat)
    (taken : List Char) (cur : Cursor ρ) : Token × Cursor ρ :=
  let (all, cur) := cur.eatWhile p taken
  if all.length == taken.length then (fail missing all start cur, cur)
  else (finish kind all start cur, cur)

/-- Go on in one of two ways; only the first takes the next character. -/
def scanIfNext (p : Char → Bool) (yes no : List Char → Cursor ρ → Token × Cursor ρ)
    (taken : List Char) (cur : Cursor ρ) : Token × Cursor ρ :=
  match cur.current with
  | (some x, cur) => if p x then yes (x :: taken) cur.advance else no taken cur
  | (none, cur) => no taken cur

/-- The digits behind a hexadecimal marker. -/
def scanHex (start : Nat) : List Char → Cursor ρ → Token × Cursor ρ :=
  scanDigits isHexDigit .emptyHex .hexNumber start

/-- The digits behind an exponent marker and its sign. -/
def scanExponentDigits (start : Nat) : List Char → Cursor ρ → Token × Cursor ρ :=
  scanDigits Char.isDigit .emptyExponent .number start

/-- The rest of an exponent, behind its marker. -/
def scanExponentSign (start : Nat) : List Char → Cursor ρ → Token × Cursor ρ :=
  scanIfNext (fun x => x == '+' || x == '-') (scanExponentDigits start) (scanExponentDigits start)

/-- A possible exponent, and the end of a number. -/
def scanExponent (start : Nat) : List Char → Cursor ρ → Token × Cursor ρ :=
  scanIfNext (fun x => x == 'e' || x == 'E') (scanExponentSign start)
    fun taken cur => (finish .number taken start cur, cur)

/-- The rest of a number, behind its point. -/
def scanFraction (start : Nat) (taken : List Char) (cur : Cursor ρ) : Token × Cursor ρ :=
  match cur.current with
  | (some d, cur) =>
      if d.isDigit then
        let (taken, cur) := cur.eatWhile Char.isDigit taken
        scanExponent start taken cur
      else (fail .missingFraction taken start cur, cur)
  | (none, cur) => (fail .missingFraction taken start cur, cur)

/-- The rest of a number, behind the digits that it starts with. -/
def scanMarker (start : Nat) (taken : List Char) (cur : Cursor ρ) : Token × Cursor ρ :=
  match cur.current with
  | (some m, cur) =>
      if m == 'x' || m == 'X' then
        let cur := cur.advance
        if taken == ['0'] then scanHex start (m :: taken) cur
        else (fail (.invalidHexPrefix (textOf taken)) taken start cur, cur)
      else if m == '.' then scanFraction start (m :: taken) cur.advance
      else scanExponent start taken cur
  | (none, cur) => scanExponent start taken cur

/-- A number, which starts with a digit or with a point and a digit. -/
def scanNumber (cur : Cursor ρ) : Token × Cursor ρ :=
  let start := cur.offset
  let (taken, cur) := cur.eatWhile Char.isDigit []
  scanMarker start taken cur

/-- The rest of a string; a character behind a backslash never ends it. -/
def scanString (start : Nat) (taken : List Char) (cur : Cursor ρ) : Token × Cursor ρ :=
  match _h : cur.bump with
  | (none, cur₁) => (unterminated .unterminatedString taken start cur₁, cur₁)
  | (some c, cur₁) =>
      if c == '"' then (finish .string (c :: taken) start cur₁, cur₁)
      else if c == '\\' then
        match _h' : cur₁.bump with
        | (none, cur₂) => (unterminated .unterminatedString (c :: taken) start cur₂, cur₂)
        | (some e, cur₂) => scanString start (e :: c :: taken) cur₂
      else scanString start (c :: taken) cur₁
termination_by cur.remaining
decreasing_by
  · exact Nat.lt_trans (Cursor.remaining_bump_lt _h') (Cursor.remaining_bump_lt _h)
  · exact Cursor.remaining_bump_lt _h

theorem scanString_of_none {cur cur₁ : Cursor ρ} (h : cur.bump = (none, cur₁)) (start : Nat)
    (taken : List Char) :
    scanString start taken cur = (unterminated .unterminatedString taken start cur₁, cur₁) := by
  rw [scanString]
  split <;> rename_i heq <;> rw [h] at heq <;> cases heq
  rfl

/-- The character that is taken decides how the string goes on. -/
theorem scanString_of_some {c : Char} {cur cur₁ : Cursor ρ} (h : cur.bump = (some c, cur₁))
    (start : Nat) (taken : List Char) :
    scanString start taken cur =
      if c == '"' then (finish .string (c :: taken) start cur₁, cur₁)
      else if c == '\\' then
        match cur₁.bump with
        | (none, cur₂) => (unterminated .unterminatedString (c :: taken) start cur₂, cur₂)
        | (some e, cur₂) => scanString start (e :: c :: taken) cur₂
      else scanString start (c :: taken) cur₁ := by
  rw [scanString]
  split <;> rename_i heq <;> rw [h] at heq <;> cases heq
  split
  · rfl
  split
  · split <;> rename_i hescaped <;> rw [hescaped]
  · rfl

/-- The rest of a long string, up to the first three quotes in a row. -/
def scanTriQuote (start : Nat) (taken : List Char) (cur : Cursor ρ) : Token × Cursor ρ :=
  match _h : cur.lookingAt ['"', '"', '"'] with
  | (true, cur₁) =>
      let cur₁ := Cursor.advanceBy 3 cur₁
      (finish .triQuote ('"' :: '"' :: '"' :: taken) start cur₁, cur₁)
  | (false, cur₁) =>
      match _h' : cur₁.bump with
      | (none, cur₂) => (unterminated .unterminatedTriQuote taken start cur₂, cur₂)
      | (some c, cur₂) => scanTriQuote start (c :: taken) cur₂
termination_by cur.remaining
decreasing_by
  exact Nat.lt_of_lt_of_le (Cursor.remaining_bump_lt _h') (Cursor.remaining_lookingAt_le _h)

theorem scanTriQuote_of_true {cur cur₁ : Cursor ρ}
    (h : cur.lookingAt ['"', '"', '"'] = (true, cur₁)) (start : Nat) (taken : List Char) :
    scanTriQuote start taken cur =
      (finish .triQuote ('"' :: '"' :: '"' :: taken) start (Cursor.advanceBy 3 cur₁),
        Cursor.advanceBy 3 cur₁) := by
  rw [scanTriQuote]
  split <;> rename_i heq <;> rw [h] at heq <;> cases heq
  rfl

theorem scanTriQuote_of_false {cur cur₁ : Cursor ρ}
    (h : cur.lookingAt ['"', '"', '"'] = (false, cur₁)) (start : Nat) (taken : List Char) :
    scanTriQuote start taken cur =
      match cur₁.bump with
      | (none, cur₂) => (unterminated .unterminatedTriQuote taken start cur₂, cur₂)
      | (some c, cur₂) => scanTriQuote start (c :: taken) cur₂ := by
  rw [scanTriQuote]
  split <;> rename_i heq <;> rw [h] at heq <;> cases heq
  split <;> rename_i hbump <;> rw [hbump]

/-- A string of either kind. -/
def scanQuote (cur : Cursor ρ) : Token × Cursor ρ :=
  let start := cur.offset
  match cur.lookingAt ['"', '"', '"'] with
  | (true, cur) => scanTriQuote start ['"', '"', '"'] (Cursor.advanceBy 3 cur)
  | (false, cur) => scanString start ['"'] cur.advance

/-- A number or a word that starts with a point. -/
def scanPoint (cur : Cursor ρ) : Token × Cursor ρ :=
  match cur.peek 1 with
  | (some d, cur) => if d.isDigit then scanNumber cur else scanRun isWordChar cur
  | (none, cur) => scanRun isWordChar cur

/-! ## §3. One token. -/

/-- The class of the tokens that consist of the one character `c`. -/
def single? (c : Char) : Option TokenKind :=
  if c == ';' || c == '\n' then some .separator
  else if c == '(' || c == '[' || c == '{' then some .opening
  else if c == ')' || c == ']' || c == '}' then some .closing
  else if c == ',' then some .comma
  else none

/-- The token that starts with `c`, the next character that waits. -/
def scan (c : Char) (cur : Cursor ρ) : Token × Cursor ρ :=
  match single? c with
  | some kind => (.ofKind kind (textOf [c]) (spanFrom cur.offset cur.advance), cur.advance)
  | none =>
      if c.isDigit then scanNumber cur
      else if c == '.' then scanPoint cur
      else if c == '"' then scanQuote cur
      else if isWordStart c then scanRun isWordChar cur
      else if isOperator c then scanRun isOperator cur
      else (fail (.unexpectedChar c) [c] cur.offset cur.advance, cur.advance)

/-! ## §4. Scanning never adds to what is left. -/

theorem remaining_scanDigits_le (p : Char → Bool) (missing : LexFault) (kind : TokenKind)
    (start : Nat) (taken : List Char) (cur : Cursor ρ) :
    (scanDigits p missing kind start taken cur).2.remaining ≤ cur.remaining := by
  have h := cur.remaining_eatWhile_le p taken
  dsimp only [scanDigits]
  split <;> exact h

theorem remaining_scanIfNext_le {p : Char → Bool}
    {yes no : List Char → Cursor ρ → Token × Cursor ρ}
    (hyes : ∀ taken cur, (yes taken cur).2.remaining ≤ cur.remaining)
    (hno : ∀ taken cur, (no taken cur).2.remaining ≤ cur.remaining) (taken : List Char)
    (cur : Cursor ρ) : (scanIfNext p yes no taken cur).2.remaining ≤ cur.remaining := by
  unfold scanIfNext
  split
  · rename_i h
    have hc := Cursor.remaining_current_le h
    split
    · exact Nat.le_trans (hyes ..) (Nat.le_trans (Cursor.remaining_advance_le _) hc)
    · exact Nat.le_trans (hno ..) hc
  · rename_i h
    exact Nat.le_trans (hno ..) (Cursor.remaining_current_le h)

theorem remaining_scanHex_le (start : Nat) (taken : List Char) (cur : Cursor ρ) :
    (scanHex start taken cur).2.remaining ≤ cur.remaining :=
  remaining_scanDigits_le ..

theorem remaining_scanExponent_le (start : Nat) (taken : List Char) (cur : Cursor ρ) :
    (scanExponent start taken cur).2.remaining ≤ cur.remaining :=
  have hdigits := remaining_scanDigits_le Char.isDigit .emptyExponent .number start
  remaining_scanIfNext_le (remaining_scanIfNext_le hdigits hdigits) (fun _ _ => Nat.le_refl _) ..

theorem remaining_scanFraction_le (start : Nat) (taken : List Char) (cur : Cursor ρ) :
    (scanFraction start taken cur).2.remaining ≤ cur.remaining := by
  unfold scanFraction
  split
  · rename_i cur' h
    have hc := Cursor.remaining_current_le h
    split
    · exact Nat.le_trans (remaining_scanExponent_le ..)
        (Nat.le_trans (cur'.remaining_eatWhile_le ..) hc)
    · exact hc
  · rename_i h
    exact Cursor.remaining_current_le h

theorem remaining_scanMarker_le (start : Nat) (taken : List Char) (cur : Cursor ρ) :
    (scanMarker start taken cur).2.remaining ≤ cur.remaining := by
  unfold scanMarker
  split
  · rename_i cur' h
    have hc := Cursor.remaining_current_le h
    have ha := Nat.le_trans (cur'.remaining_advance_le) hc
    split
    · dsimp only
      split
      · exact Nat.le_trans (remaining_scanHex_le ..) ha
      · exact ha
    · split
      · exact Nat.le_trans (remaining_scanFraction_le ..) ha
      · exact Nat.le_trans (remaining_scanExponent_le ..) hc
  · rename_i h
    exact Nat.le_trans (remaining_scanExponent_le ..) (Cursor.remaining_current_le h)

theorem remaining_scanString_le (start : Nat) (taken : List Char) (cur : Cursor ρ) :
    (scanString start taken cur).2.remaining ≤ cur.remaining := by
  fun_induction scanString start taken cur with
  | case1 taken cur cur₁ h =>
    have hb := cur.remaining_bump_le
    rw [h] at hb
    exact hb
  | case2 taken cur c cur₁ h hq => exact Nat.le_of_lt (Cursor.remaining_bump_lt h)
  | case3 taken cur c cur₁ h hq hs cur₂ h' =>
    have hb := cur₁.remaining_bump_le
    rw [h'] at hb
    exact Nat.le_trans hb (Nat.le_of_lt (Cursor.remaining_bump_lt h))
  | case4 taken cur c cur₁ h hq hs e cur₂ h' ih =>
    exact Nat.le_trans ih (Nat.le_trans (Nat.le_of_lt (Cursor.remaining_bump_lt h'))
      (Nat.le_of_lt (Cursor.remaining_bump_lt h)))
  | case5 taken cur c cur₁ h hq hs ih =>
    exact Nat.le_trans ih (Nat.le_of_lt (Cursor.remaining_bump_lt h))

theorem remaining_scanTriQuote_le (start : Nat) (taken : List Char) (cur : Cursor ρ) :
    (scanTriQuote start taken cur).2.remaining ≤ cur.remaining := by
  fun_induction scanTriQuote start taken cur with
  | case1 taken cur cur₁ h =>
    exact Nat.le_trans (Cursor.remaining_advanceBy_le 3 _) (Cursor.remaining_lookingAt_le h)
  | case2 taken cur cur₁ h cur₂ h' =>
    have hb := cur₁.remaining_bump_le
    rw [h'] at hb
    exact Nat.le_trans hb (Cursor.remaining_lookingAt_le h)
  | case3 taken cur cur₁ h c cur₂ h' ih =>
    exact Nat.le_trans ih (Nat.le_trans (Nat.le_of_lt (Cursor.remaining_bump_lt h'))
      (Cursor.remaining_lookingAt_le h))

/-! ## §5. A token takes its first character. -/

variable {cur : Cursor ρ} {c : Char}

theorem remaining_scanRun_lt {p : Char → Bool} (h : cur.ahead.head? = some c) (hc : p c = true) :
    (scanRun p cur).2.remaining < cur.remaining :=
  Cursor.remaining_eatWhile_lt h hc []

/-- Without a leading digit a number starts with its point. -/
theorem scanNumber_point (h : cur.ahead.head? = some '.') :
    scanNumber cur = scanFraction cur.offset ['.'] cur.advance := by
  unfold scanNumber scanMarker
  rw [Cursor.eatWhile_stop h (by decide)]
  simp only [Cursor.current_of_head? h]
  rfl

theorem remaining_scanNumber_lt (h : cur.ahead.head? = some c)
    (hc : c.isDigit = true ∨ c = '.') : (scanNumber cur).2.remaining < cur.remaining := by
  rcases hc with hc | rfl
  · exact Nat.lt_of_le_of_lt (remaining_scanMarker_le ..) (Cursor.remaining_eatWhile_lt h hc [])
  · rw [scanNumber_point h]
    exact Nat.lt_of_le_of_lt (remaining_scanFraction_le ..) (Cursor.remaining_advance_lt h)

theorem remaining_scanQuote_lt (h : cur.ahead.head? = some c) :
    (scanQuote cur).2.remaining < cur.remaining := by
  have hlook := Cursor.head?_matchesFrom h 0 ['"', '"', '"']
  have hle := cur.remaining_matchesFrom_le 0 ['"', '"', '"']
  unfold scanQuote Cursor.lookingAt
  cases hfound : Cursor.matchesFrom 0 ['"', '"', '"'] cur with
  | mk found cur' =>
    rw [hfound] at hlook hle
    have hlt := Nat.lt_of_lt_of_le (Cursor.remaining_advance_lt hlook) hle
    cases found with
    | true =>
      exact Nat.lt_of_le_of_lt (remaining_scanTriQuote_le ..)
        (Nat.lt_of_le_of_lt (Cursor.remaining_advanceBy_le 2 _) hlt)
    | false => exact Nat.lt_of_le_of_lt (remaining_scanString_le ..) hlt

theorem remaining_scanPoint_lt (h : cur.ahead.head? = some '.') :
    (scanPoint cur).2.remaining < cur.remaining := by
  have hpeek := Cursor.head?_peek h 1
  have hle := cur.remaining_peek_le 1
  unfold scanPoint
  cases hfound : cur.peek 1 with
  | mk d cur' =>
    rw [hfound] at hpeek hle
    have hword := Nat.lt_of_lt_of_le (remaining_scanRun_lt (p := isWordChar) hpeek (by decide)) hle
    have hnumber := Nat.lt_of_lt_of_le (remaining_scanNumber_lt hpeek (.inr rfl)) hle
    cases d with
    | none => exact hword
    | some d =>
      dsimp only
      split
      · exact hnumber
      · exact hword

theorem remaining_scan_lt (h : cur.ahead.head? = some c) :
    (scan c cur).2.remaining < cur.remaining := by
  have htaken := Cursor.remaining_advance_lt h
  unfold scan
  split
  · exact htaken
  split
  · rename_i hdigit
    exact remaining_scanNumber_lt h (.inl hdigit)
  split
  · rename_i hpoint
    exact remaining_scanPoint_lt (eq_of_beq hpoint ▸ h)
  split
  · exact remaining_scanQuote_lt h
  split
  · rename_i hword
    exact remaining_scanRun_lt h (isWordChar_of_isWordStart hword)
  split
  · rename_i hoperator
    exact remaining_scanRun_lt h hoperator
  · exact htaken

end Lexer

end Prototalk
