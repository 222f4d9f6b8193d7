/-
  Prototalk.Proofs.Token.Cut
  ────────────────────────────────
  **ONE TOKEN AS A FUNCTION OF THE TEXT.**

  `Cut.first c text` is what the lexer finds at the front of `c :: text`: a
  class or a fault, the text of the token, and what is left.  It is put
  together from three ways to read on,

      run      take a run of characters, which may be empty,
      run1     take a run that has to be there,
      ifNext   take the next character if it is of some class,

  and from the two kinds of strings.  Scanning with a cursor makes exactly
  this cut, in the right place (`Cut.made_scan`), and no character is lost
  by it (`Cut.divides_or_misprefixed`).
-/
import Prototalk.Proofs.Token.Position
import Prototalk.Token.Lexer

namespace Prototalk

open Lexer

/-! ## §1. Cutting a text. -/

/-- What is found at the front of a text. -/
structure Cut where
  /-- The class of a token, or what is wrong. -/
  outcome : Except LexFault TokenKind
  /-- The text of the token. -/
  value : List Char
  /-- What is taken behind it and is not part of it. -/
  dropped : List Char
  /-- What is left. -/
  rest : List Char

namespace Cut

/-- A token ends here. -/
def stop (kind : TokenKind) (rest : List Char) : Cut := ⟨.ok kind, [], [], rest⟩

/-- No token can be read here. -/
def wrong (fault : LexFault) (rest : List Char) : Cut := ⟨.error fault, [], [], rest⟩

/-- The cut with more text in front. -/
def after (front : List Char) (cut : Cut) : Cut := { cut with value := front ++ cut.value }

/-- A run of characters, and what follows it. -/
def run (p : Char → Bool) (next : List Char → Cut) (text : List Char) : Cut :=
  (next (text.dropWhile p)).after (text.takeWhile p)

/-- A run of at least one character, and what follows it. -/
def run1 (p : Char → Bool) (missing : LexFault) (next : List Char → Cut) (text : List Char) : Cut :=
  if text.takeWhile p = [] then wrong missing text else run p next text

/-- Go on in one of two ways; only the first takes the next character. -/
def ifNext (p : Char → Bool) (yes no : List Char → Cut) : List Char → Cut
  | [] => no []
  | x :: text => if p x then (yes text).after [x] else no (x :: text)

/-- A word or an operator. -/
def word (p : Char → Bool) : List Char → Cut := run p (stop .identifier)

/-- The digits behind a hexadecimal marker. -/
def hex : List Char → Cut := run1 isHexDigit .emptyHex (stop .hexNumber)

/-- The digits of an exponent. -/
def exponentDigits : List Char → Cut := run1 Char.isDigit .emptyExponent (stop .number)

/-- The rest of an exponent, behind its marker. -/
def exponentSign : List Char → Cut :=
  ifNext (fun x => x == '+' || x == '-') exponentDigits exponentDigits

/-- A possible exponent, and the end of a number. -/
def exponent : List Char → Cut :=
  ifNext (fun x => x == 'e' || x == 'E') exponentSign (stop .number)

/-- The rest of a number, behind its point. -/
def fraction : List Char → Cut := run1 Char.isDigit .missingFraction exponent

/-- The rest of a number without a hexadecimal marker. -/
def decimal : List Char → Cut := run Char.isDigit (ifNext (fun x => x == '.') fraction exponent)

/-- The rest of a number that starts with the digit `c`. -/
def number (c : Char) (text : List Char) : Cut :=
  match text.dropWhile Char.isDigit with
  | [] => decimal text
  | m :: rest =>
      if m == 'x' || m == 'X' then
        let digits := text.takeWhile Char.isDigit
        if c :: digits = ['0'] then (hex rest).after [m]
        else ⟨.error (.invalidHexPrefix (String.ofList (c :: digits))), digits, [m], rest⟩
      else decimal text

/-- The rest of a string. -/
def string : List Char → Cut
  | [] => wrong .unterminatedString []
  | c :: text =>
      if c == '"' then (stop .string text).after [c]
      else if c == '\\' then
        match text with
        | [] => (wrong .unterminatedString []).after [c]
        | e :: text => (string text).after [c, e]
      else (string text).after [c]

/-- The rest of a long string. -/
def triQuote : List Char → Cut
  | '"' :: '"' :: '"' :: text => (stop .triQuote text).after ['"', '"', '"']
  | [] => wrong .unterminatedTriQuote []
  | c :: text => (triQuote text).after [c]

/-- A string of either kind, behind its first quote. -/
def quote : List Char → Cut
  | '"' :: '"' :: text => (triQuote text).after ['"', '"']
  | text => string text

/-- A number or a word, behind its leading point. -/
def point : List Char → Cut
  | [] => word isWordChar []
  | d :: text => if d.isDigit then fraction (d :: text) else word isWordChar (d :: text)

/-- The rest of a token that starts with `c`. -/
def behind (c : Char) (text : List Char) : Cut :=
  match single? c with
  | some kind => stop kind text
  | none =>
      if c.isDigit then number c text
      else if c == '.' then point text
      else if c == '"' then quote text
      else if isWordStart c then word isWordChar text
      else if isOperator c then word isOperator text
      else wrong (.unexpectedChar c) text

/-- What is found at the front of `c :: text`. -/
def first (c : Char) (text : List Char) : Cut := (behind c text).after [c]

/-! ## §2. Scanning makes the cut. -/

/-- The token of a cut behind `before`, which starts at `start` with the characters `taken`. -/
def token (cut : Cut) (start : Nat) (taken before : List Char) : Token :=
  let value := textOf (cut.value.reverse ++ taken)
  let span : Span := ⟨start, offsetOf (before ++ (cut.value ++ cut.dropped))⟩
  match cut.outcome with
  | .ok kind => .ofKind kind value span
  | .error fault => .malformed value ⟨fault, span⟩

/-- Scanning gave the token of the cut, and the cursor stands behind it. -/
structure Made (cut : Cut) (start : Nat) (taken before : List Char) (scanned : Token × Cursor) :
    Prop where
  token : scanned.1 = cut.token start taken before
  cursor : scanned.2.At (before ++ (cut.value ++ cut.dropped)) cut.rest

section

variable {cut : Cut} {start : Nat} {taken before text rest : List Char} {cur : Cursor}
  {p : Char → Bool} {yes no next : List Char → Cut} {scanned : Token × Cursor}

theorem Made.after (front : List Char)
    (h : cut.Made start (front.reverse ++ taken) (before ++ front) scanned) :
    (cut.after front).Made start taken before scanned := by
  obtain ⟨htoken, hcursor⟩ := h
  refine ⟨?_, by simpa [Cut.after] using hcursor⟩
  rw [htoken]
  simp [Cut.token, Cut.after]

theorem made_fail (h : cur.At before rest) (fault : LexFault) (start : Nat) (taken : List Char) :
    (wrong fault rest).Made start taken before (fail fault taken start cur, cur) := by
  refine ⟨?_, by simpa [wrong] using h⟩
  simp [fail, token, wrong, spanFrom, h.offset]

theorem made_finish (h : cur.At before rest) (kind : TokenKind) (start : Nat)
    (taken : List Char) :
    (stop kind rest).Made start taken before (finish kind taken start cur, cur) := by
  refine ⟨?_, by simpa [stop] using h⟩
  -- no read of a text fails
  have hfault : cur.faultHere = none := by simp [Cursor.faultHere, h.holds.fault]
  simp [finish, hfault, token, stop, spanFrom, h.offset]

theorem made_unterminated (h : cur.At before rest) (fault : LexFault) (start : Nat)
    (taken : List Char) :
    (wrong fault rest).Made start taken before (unterminated fault taken start cur, cur) := by
  have hfault : cur.faultHere = none := by simp [Cursor.faultHere, h.holds.fault]
  rw [unterminated, hfault]
  exact made_fail h fault start taken

/-! ### Runs and choices -/

theorem made_run {f : List Char → Cursor → Token × Cursor}
    (hnext : ∀ {taken before rest cur}, cur.At before rest →
      (next rest).Made start taken before (f taken cur))
    (h : cur.At before text) :
    (run p next text).Made start taken before
      (f (cur.eatWhile p taken).1 (cur.eatWhile p taken).2) := by
  obtain ⟨cur', heat, hcur'⟩ := h.eatWhile p taken
  rw [heat]
  exact (hnext hcur').after _

theorem made_scanDigits {missing : LexFault} {kind : TokenKind} (h : cur.At before text) :
    (run1 p missing (stop kind) text).Made start taken before
      (scanDigits p missing kind start taken cur) := by
  obtain ⟨cur', heat, hcur'⟩ := h.eatWhile p taken
  have hrun : (run p (stop kind) text).Made start taken before _ :=
    made_run (f := fun all cur => (finish kind all start cur, cur))
      (fun hcur => made_finish hcur kind start _) h
  unfold run1 scanDigits
  rw [heat] at hrun ⊢
  dsimp only
  by_cases hempty : text.takeWhile p = []
  · -- an empty run leaves everything as it was
    have hdrop : text.dropWhile p = text := by
      have hsplit := List.takeWhile_append_dropWhile (p := p) (l := text)
      rwa [hempty, List.nil_append] at hsplit
    rw [hdrop, hempty, List.append_nil] at hcur'
    rw [if_pos hempty, hempty, List.reverse_nil, List.nil_append, if_pos (by simp)]
    exact made_fail hcur' missing start taken
  · have hlength : ¬ ((text.takeWhile p).reverse ++ taken).length = taken.length := by
      have := List.length_pos_iff.mpr hempty
      simp only [List.length_append, List.length_reverse]
      omega
    rw [if_neg hempty, if_neg (by simpa using hlength)]
    exact hrun

theorem made_scanIfNext {f g : List Char → Cursor → Token × Cursor}
    (hyes : ∀ {taken before rest cur}, cur.At before rest →
      (yes rest).Made start taken before (f taken cur))
    (hno : ∀ {taken before rest cur}, cur.At before rest →
      (no rest).Made start taken before (g taken cur))
    (h : cur.At before text) :
    (ifNext p yes no text).Made start taken before (scanIfNext p f g taken cur) := by
  unfold scanIfNext
  cases text with
  | nil =>
    obtain ⟨cur', hcurrent, hcur'⟩ := h.current_nil
    rw [hcurrent]
    exact hno hcur'
  | cons x text =>
    obtain ⟨cur', hcurrent, hcur', hadvance⟩ := h.current_cons
    rw [hcurrent]
    unfold ifNext
    dsimp only
    split
    · exact (hyes hadvance).after [x]
    · exact hno hcur'

/-! ### Words and numbers -/

theorem run_cons {c : Char} (hc : p c = true) (text : List Char) :
    run p next (c :: text) = (run p next text).after [c] := by
  unfold run
  rw [List.takeWhile_cons_of_pos hc, List.dropWhile_cons_of_pos hc]
  rfl

theorem made_scanRun {c : Char} (h : cur.At before (c :: text)) (hc : p c = true) :
    ((word p text).after [c]).Made (offsetOf before) [] before (scanRun p cur) := by
  have hrun : (run p (stop .identifier) (c :: text)).Made (offsetOf before) [] before _ :=
    made_run (f := fun taken cur => (finish .identifier taken (offsetOf before) cur, cur))
      (fun hcur => made_finish hcur .identifier (offsetOf before) _) h
  rw [run_cons hc] at hrun
  unfold scanRun
  rw [h.offset]
  exact hrun

theorem made_scanHex (h : cur.At before text) :
    (hex text).Made start taken before (scanHex start taken cur) :=
  made_scanDigits h

theorem made_scanExponentDigits (h : cur.At before text) :
    (exponentDigits text).Made start taken before (scanExponentDigits start taken cur) :=
  made_scanDigits h

theorem made_scanExponent (h : cur.At before text) :
    (exponent text).Made start taken before (scanExponent start taken cur) :=
  made_scanIfNext (made_scanIfNext made_scanExponentDigits made_scanExponentDigits)
    (fun hcur => made_finish hcur .number start _) h

theorem made_scanFraction (h : cur.At before text) :
    (fraction text).Made start taken before (scanFraction start taken cur) := by
  unfold scanFraction fraction run1
  cases text with
  | nil =>
    obtain ⟨cur', hcurrent, hcur'⟩ := h.current_nil
    rw [hcurrent]
    exact made_fail hcur' .missingFraction start taken
  | cons d text =>
    obtain ⟨cur', hcurrent, hcur', -⟩ := h.current_cons
    rw [hcurrent]
    dsimp only
    by_cases hd : d.isDigit = true
    · rw [if_pos hd, List.takeWhile_cons_of_pos hd, if_neg (List.cons_ne_nil _ _)]
      exact made_run (f := scanExponent start) made_scanExponent hcur'
    · rw [if_neg hd, List.takeWhile_cons_of_neg hd, if_pos rfl]
      exact made_fail hcur' .missingFraction start taken

theorem made_scanNumber {c : Char} (h : cur.At before (c :: text)) (hc : c.isDigit = true) :
    ((number c text).after [c]).Made (offsetOf before) [] before (scanNumber cur) := by
  refine Made.after [c] ?_
  rw [List.reverse_singleton, List.append_nil]
  obtain ⟨cur₁, heat, hcur₁⟩ := h.eatWhile Char.isDigit []
  rw [List.takeWhile_cons_of_pos hc, List.dropWhile_cons_of_pos hc, ← List.singleton_append,
    ← List.append_assoc] at hcur₁
  rw [List.takeWhile_cons_of_pos hc, List.reverse_cons, List.append_nil] at heat
  unfold scanNumber scanMarker number decimal run
  rw [heat, h.offset]
  cases hrest : text.dropWhile Char.isDigit with
  | nil =>
    rw [hrest] at hcur₁
    obtain ⟨cur₂, hcurrent, hcur₂⟩ := hcur₁.current_nil
    simp only [hcurrent]
    exact (made_scanExponent hcur₂).after _
  | cons m rest =>
    rw [hrest] at hcur₁
    obtain ⟨cur₂, hcurrent, hcur₂, hadvance⟩ := hcur₁.current_cons
    simp only [hcurrent]
    split
    · -- the digits in front of a hexadecimal marker are a single zero, or the marker is wrong
      have hzero : ((text.takeWhile Char.isDigit).reverse ++ [c] == ['0']) = true
          ↔ c :: text.takeWhile Char.isDigit = ['0'] := by
        rw [beq_iff_eq, ← List.reverse_inj]
        simp
      by_cases hc : c :: text.takeWhile Char.isDigit = ['0']
      · rw [if_pos hc, if_pos (hzero.mpr hc)]
        obtain ⟨rfl, hdigits⟩ := List.cons.inj hc
        rw [hdigits] at hadvance ⊢
        exact Made.after [m] (made_scanHex (by simpa using hadvance))
      · rw [if_neg hc, if_neg (mt hzero.mp hc)]
        refine ⟨?_, by simpa using hadvance⟩
        simp [fail, token, textOf, spanFrom, hadvance.offset]
    · refine Made.after _ ?_
      unfold ifNext
      dsimp only
      split
      · exact (made_scanFraction hadvance).after [m]
      · exact made_scanExponent hcur₂

/-! ### Strings -/

theorem made_scanString (h : cur.At before text) :
    (string text).Made start taken before (scanString start taken cur) := by
  fun_induction string text generalizing taken before cur with
  | case1 =>
    obtain ⟨cur₁, hbump, hcur₁⟩ := h.bump_nil
    rw [scanString_of_none hbump]
    exact made_unterminated hcur₁ .unterminatedString start taken
  | case2 c text hc =>
    obtain ⟨cur₁, hbump, hcur₁⟩ := h.bump_cons
    rw [scanString_of_some hbump, if_pos hc]
    exact Made.after [c] (made_finish hcur₁ .string start _)
  | case3 c hc hslash =>
    obtain ⟨cur₁, hbump, hcur₁⟩ := h.bump_cons
    obtain ⟨cur₂, hbump₂, hcur₂⟩ := hcur₁.bump_nil
    rw [scanString_of_some hbump, if_neg hc, if_pos hslash, hbump₂]
    exact Made.after [c] (made_unterminated hcur₂ .unterminatedString start _)
  | case4 c hc hslash e text ih =>
    obtain ⟨cur₁, hbump, hcur₁⟩ := h.bump_cons
    obtain ⟨cur₂, hbump₂, hcur₂⟩ := hcur₁.bump_cons
    rw [scanString_of_some hbump, if_neg hc, if_pos hslash, hbump₂]
    exact Made.after [c, e] (ih (by simpa using hcur₂))
  | case5 c text hc hslash ih =>
    obtain ⟨cur₁, hbump, hcur₁⟩ := h.bump_cons
    rw [scanString_of_some hbump, if_neg hc, if_neg hslash]
    exact Made.after [c] (ih hcur₁)

theorem made_scanTriQuote (h : cur.At before text) :
    (triQuote text).Made start taken before (scanTriQuote start taken cur) := by
  fun_induction triQuote text generalizing taken before cur with
  | case1 text =>
    obtain ⟨cur₁, hlook, hcur₁⟩ := Cursor.At.lookingAt_append ['"', '"', '"'] (by simp) h
    rw [scanTriQuote_of_true hlook]
    exact Made.after ['"', '"', '"'] (made_finish hcur₁ .triQuote start _)
  | case2 =>
    obtain ⟨cur₁, hlook, hcur₁⟩ := h.lookingAt ['"', '"', '"']
    obtain ⟨cur₂, hbump, hcur₂⟩ := hcur₁.bump_nil
    rw [scanTriQuote_of_false hlook, hbump]
    exact made_unterminated hcur₂ .unterminatedTriQuote start taken
  | case3 c text hquotes ih =>
    obtain ⟨cur₁, hlook, hcur₁⟩ := h.lookingAt ['"', '"', '"']
    obtain ⟨cur₂, hbump, hcur₂⟩ := hcur₁.bump_cons
    have hnot : ['"', '"', '"'].isPrefixOf (c :: text) = false := by
      by_contra hprefix
      rw [Bool.not_eq_false, List.isPrefixOf_iff_prefix] at hprefix
      obtain ⟨rest, hrest⟩ := hprefix
      obtain ⟨hc, htext⟩ := List.cons.inj hrest
      exact hquotes rest hc.symm htext.symm
    rw [hnot] at hlook
    rw [scanTriQuote_of_false hlook, hbump]
    exact (ih hcur₂).after [c]

theorem made_scanQuote (h : cur.At before ('"' :: text)) (hahead : cur.ahead ≠ []) :
    ((quote text).after ['"']).Made (offsetOf before) [] before (scanQuote cur) := by
  refine Made.after ['"'] ?_
  unfold scanQuote
  rw [h.offset]
  fun_cases quote text with
  | case1 text =>
    obtain ⟨cur₁, hlook, hcur₁⟩ := Cursor.At.lookingAt_append ['"', '"', '"'] (by simp) h
    rw [hlook]
    rw [← List.singleton_append, ← List.append_assoc] at hcur₁
    exact Made.after ['"', '"'] (made_scanTriQuote hcur₁)
  | case2 text hquotes =>
    obtain ⟨cur₁, hlook, hcur₁⟩ := h.lookingAt ['"', '"', '"']
    have hnot : ['"', '"', '"'].isPrefixOf ('"' :: text) = false := by
      by_contra hprefix
      rw [Bool.not_eq_false, List.isPrefixOf_iff_prefix] at hprefix
      obtain ⟨rest, hrest⟩ := hprefix
      exact hquotes rest (List.cons.inj hrest).2.symm
    rw [hlook, hnot]
    have hahead₁ := Cursor.head?_matchesFrom (h.head? hahead) 0 ['"', '"', '"']
    rw [show Cursor.matchesFrom 0 ['"', '"', '"'] cur = _ from hlook] at hahead₁
    exact made_scanString (hcur₁.advance (Cursor.ahead_ne_nil hahead₁))

/-! ### One token -/

theorem made_scanPoint (h : cur.At before ('.' :: text)) (hahead : cur.ahead ≠ []) :
    ((point text).after ['.']).Made (offsetOf before) [] before (scanPoint cur) := by
  have hcur₁ := h.peek 1
  have hahead₁ : (cur.peek 1).2.ahead.head? = some '.' := Cursor.head?_peek (h.head? hahead) 1
  unfold scanPoint point
  rw [show cur.peek 1 = (text.head?, (cur.peek 1).2) from
    Prod.ext ((h.holds.peek 1).1.trans List.head?_eq_getElem?.symm) rfl]
  cases text with
  | nil => exact made_scanRun hcur₁ (by decide)
  | cons d text =>
    simp only [List.head?_cons]
    by_cases hd : d.isDigit = true
    · rw [if_pos hd, if_pos hd, scanNumber_point hahead₁, hcur₁.offset]
      exact Made.after ['.'] (made_scanFraction (hcur₁.advance (Cursor.ahead_ne_nil hahead₁)))
    · rw [if_neg hd, if_neg hd]
      exact made_scanRun hcur₁ (by decide)

/-- **Scanning makes the cut.** -/
theorem made_scan {c : Char} (h : cur.At before (c :: text)) (hahead : cur.ahead ≠ []) :
    (first c text).Made (offsetOf before) [] before (scan c cur) := by
  have hadvance := h.advance hahead
  unfold scan first behind
  cases single? c with
  | some kind =>
    refine Made.after [c] ⟨?_, by simpa [stop] using hadvance⟩
    simp [token, stop, spanFrom, h.offset, hadvance.offset]
  | none =>
    dsimp only
    by_cases hdigit : c.isDigit = true
    · rw [if_pos hdigit, if_pos hdigit]
      exact made_scanNumber h hdigit
    rw [if_neg hdigit, if_neg hdigit]
    by_cases hpoint : (c == '.') = true
    · rw [if_pos hpoint, if_pos hpoint]
      rw [eq_of_beq hpoint] at h ⊢
      exact made_scanPoint h hahead
    rw [if_neg hpoint, if_neg hpoint]
    by_cases hquote : (c == '"') = true
    · rw [if_pos hquote, if_pos hquote]
      rw [eq_of_beq hquote] at h ⊢
      exact made_scanQuote h hahead
    rw [if_neg hquote, if_neg hquote]
    by_cases hword : isWordStart c = true
    · rw [if_pos hword, if_pos hword]
      exact made_scanRun h (isWordChar_of_isWordStart hword)
    rw [if_neg hword, if_neg hword]
    by_cases hoperator : isOperator c = true
    · rw [if_pos hoperator, if_pos hoperator]
      exact made_scanRun h hoperator
    rw [if_neg hoperator, if_neg hoperator, h.offset]
    exact Made.after [c] (made_fail hadvance _ _ [c])

end

/-! ## §3. Nothing is lost. -/

/-- The cut divides the text into its value and its rest. -/
structure Divides (cut : Cut) (text : List Char) : Prop where
  text : cut.value ++ cut.rest = text
  dropped : cut.dropped = []
  fault : ∀ digits, cut.outcome ≠ .error (.invalidHexPrefix digits)
  kind : cut.outcome ≠ .ok .malformed

section

variable {cut : Cut} {text front : List Char} {p : Char → Bool} {yes no next : List Char → Cut}

theorem divides_stop {kind : TokenKind} (h : kind ≠ .malformed) (text : List Char) :
    (stop kind text).Divides text :=
  ⟨rfl, rfl, nofun, fun hkind => h (Except.ok.inj hkind)⟩

theorem divides_wrong {fault : LexFault} (h : ∀ digits, fault ≠ .invalidHexPrefix digits)
    (text : List Char) : (wrong fault text).Divides text :=
  ⟨rfl, rfl, fun digits hfault => h digits (Except.error.inj hfault), nofun⟩

theorem Divides.after (h : cut.Divides text) (front : List Char) :
    (cut.after front).Divides (front ++ text) :=
  ⟨by simp [Cut.after, h.text], h.dropped, h.fault, h.kind⟩

theorem divides_run (hnext : ∀ text, (next text).Divides text) (text : List Char) :
    (run p next text).Divides text := by
  have h := (hnext (text.dropWhile p)).after (text.takeWhile p)
  rwa [List.takeWhile_append_dropWhile] at h

theorem divides_run1 {missing : LexFault} (h : ∀ digits, missing ≠ .invalidHexPrefix digits)
    (hnext : ∀ text, (next text).Divides text) (text : List Char) :
    (run1 p missing next text).Divides text := by
  unfold run1
  split
  · exact divides_wrong h text
  · exact divides_run hnext text

theorem divides_ifNext (hyes : ∀ text, (yes text).Divides text)
    (hno : ∀ text, (no text).Divides text) (text : List Char) :
    (ifNext p yes no text).Divides text := by
  unfold ifNext
  split
  · exact hno []
  · split
    · exact (hyes _).after [_]
    · exact hno _

theorem divides_word (p : Char → Bool) : ∀ text, (word p text).Divides text :=
  divides_run (divides_stop (by decide))

theorem divides_hex : ∀ text, (hex text).Divides text :=
  divides_run1 (by simp) (divides_stop (by decide))

theorem divides_exponentDigits : ∀ text, (exponentDigits text).Divides text :=
  divides_run1 (by simp) (divides_stop (by decide))

theorem divides_exponent : ∀ text, (exponent text).Divides text :=
  divides_ifNext (divides_ifNext divides_exponentDigits divides_exponentDigits)
    (divides_stop (by decide))

theorem divides_fraction : ∀ text, (fraction text).Divides text :=
  divides_run1 (by simp) divides_exponent

theorem divides_decimal : ∀ text, (decimal text).Divides text :=
  divides_run (divides_ifNext divides_fraction divides_exponent)

theorem divides_string (text : List Char) : (string text).Divides text := by
  fun_induction string text with
  | case1 => exact divides_wrong (by simp) []
  | case2 c text hc => exact (divides_stop (by decide) text).after [c]
  | case3 c hc hslash => exact (divides_wrong (by simp) []).after [c]
  | case4 c hc hslash e text ih => exact ih.after [c, e]
  | case5 c text hc hslash ih => exact ih.after [c]

theorem divides_triQuote (text : List Char) : (triQuote text).Divides text := by
  fun_induction triQuote text with
  | case1 text => exact (divides_stop (by decide) text).after ['"', '"', '"']
  | case2 => exact divides_wrong (by simp) []
  | case3 c text hquotes ih => exact ih.after [c]

theorem divides_quote (text : List Char) : (quote text).Divides text := by
  fun_cases quote text with
  | case1 text => exact (divides_triQuote text).after ['"', '"']
  | case2 text hquotes => exact divides_string text

theorem divides_point (text : List Char) : (point text).Divides text := by
  unfold point
  split
  · exact divides_word isWordChar []
  · split
    · exact divides_fraction _
    · exact divides_word isWordChar _

/-- The one cut that takes more than its value: a hexadecimal marker behind digits that are no
single zero. -/
structure Misprefixed (cut : Cut) (text : List Char) : Prop where
  text : cut.value ++ cut.dropped ++ cut.rest = text
  dropped : cut.dropped = ['x'] ∨ cut.dropped = ['X']
  fault : cut.outcome = .error (.invalidHexPrefix (String.ofList cut.value))

theorem divides_or_misprefixed_number (c : Char) (text : List Char) :
    ((number c text).after [c]).Divides (c :: text)
      ∨ ((number c text).after [c]).Misprefixed (c :: text) := by
  have hsplit := List.takeWhile_append_dropWhile (p := Char.isDigit) (l := text)
  unfold number
  split
  · exact .inl ((divides_decimal text).after [c])
  · rename_i m rest hrest
    rw [hrest] at hsplit
    split
    · rename_i hm
      dsimp only
      split
      · rename_i hzero
        rw [(List.cons.inj hzero).2, List.nil_append] at hsplit
        exact .inl (hsplit ▸ ((divides_hex rest).after [m]).after [c])
      · refine .inr ⟨by simpa [Cut.after] using hsplit, ?_, rfl⟩
        simpa [Cut.after] using hm
    · exact .inl ((divides_decimal text).after [c])

theorem single?_ne_malformed {c : Char} {kind : TokenKind} (h : single? c = some kind) :
    kind ≠ .malformed := by
  rintro rfl
  unfold single? at h
  repeat' split at h
  all_goals cases h

/-- **Nothing is lost.** -/
theorem divides_or_misprefixed (c : Char) (text : List Char) :
    (first c text).Divides (c :: text) ∨ (first c text).Misprefixed (c :: text) := by
  unfold first behind
  split
  · rename_i hsingle
    exact .inl ((divides_stop (single?_ne_malformed hsingle) text).after [c])
  · split
    · exact divides_or_misprefixed_number c text
    · left
      refine Divides.after ?_ [c]
      repeat' split
      · exact divides_point text
      · exact divides_quote text
      · exact divides_word isWordChar text
      · exact divides_word isOperator text
      · exact divides_wrong (by simp) text

/-- A token is its value and is no malformed one. -/
theorem divides_of_ok {c : Char} {kind : TokenKind} (h : (first c text).outcome = .ok kind) :
    (first c text).Divides (c :: text) ∧ kind ≠ .malformed := by
  rcases divides_or_misprefixed c text with hdivides | hmisprefixed
  · refine ⟨hdivides, ?_⟩
    rintro rfl
    exact hdivides.kind h
  · have hfault := hmisprefixed.fault
    rw [h] at hfault
    cases hfault

end

end Cut

end Prototalk
