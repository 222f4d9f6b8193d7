/-
  Prototalk.Proofs.Token.Lexing
  ────────────────────────────────
  **HOW A TEXT IS CUT INTO TOKENS.**

  `Lexes text keys` says that a lexer that has `text` left will give tokens
  with these classes and texts.  Texts are put together from the right: a
  lexeme in front of a text is one more token, if the text starts with
  something that cannot go on with it (`Bounded`).
-/
import Mathlib.Data.Bool.AllAny
import Mathlib.Tactic.IntervalCases
import Prototalk.Proofs.Text.Quoted
import Prototalk.Proofs.Token.Lexeme
import Prototalk.Proofs.Token.Requests

namespace Prototalk.Lexer

/-- What is left of the text that a lexer cuts; it has not stopped. -/
structure Holds (l : Lexer) (text : List Char) : Prop where
  going : l.done = false
  cursor : l.cursor.Holds text

/-- The classes and texts of the tokens that a text is cut into. -/
def Lexes (text : List Char) (keys : List (TokenKind × List Char)) : Prop :=
  ∀ (l : Lexer) (given : List Token), l.Holds text →
    (l.drain given).map Token.key = given.reverse.map Token.key ++ keys

/-- Characters behind which every word and every number has ended. -/
def boundaryChars : List Char := [' ', '\n', '(', ')', ']', '}', ',']

/-- A text that cannot go on with a word or a number. -/
def Bounded (text : List Char) : Prop := ∀ x ∈ text.head?, x ∈ boundaryChars

theorem bounded_nil : Bounded [] := by
  intro x hx
  cases hx

theorem bounded_cons {c : Char} (hc : c ∈ boundaryChars) (text : List Char) :
    Bounded (c :: text) := by
  intro x hx
  cases hx
  exact hc

theorem Bounded.not_of {text : List Char} (h : Bounded text) {p : Char → Bool}
    (hp : boundaryChars.all (fun x => !p x) = true) : ∀ x ∈ text.head?, p x = false := by
  intro x hx
  simpa using List.all_eq_true.mp hp x (h x hx)

variable {text rest : List Char} {keys : List (TokenKind × List Char)}

/-! ## §1. Ends, blanks and tokens. -/

theorem tokens_of_lexes {source : String} (h : Lexes source.toList keys) :
    (tokenize source).map Token.key = keys := by
  exact h (.ofSource (.ofString source)) [] ⟨rfl, Cursor.holds_ofSource _⟩

theorem lexes_nil : Lexes [] [] := by
  intro l given hl
  obtain ⟨cur, heat, hcur⟩ := Cursor.eatWhile_eq hl.cursor isSpace []
  obtain ⟨cur', hcurrent, hcur'⟩ := Cursor.current_nil hcur
  have hnext : l.next = (none, ⟨cur', true⟩) := by
    unfold next
    simp only [hl.going, heat, hcurrent, Cursor.faultHere, hcur'.fault]
    simp
  rw [drain_of_next_none hnext]
  simp

theorem drain_congr {l l' : Lexer} (h : l.next = l'.next) (given : List Token) :
    l.drain given = l'.drain given := by
  rw [drain, drain]
  split <;> split <;> simp_all

theorem eatWhile_snd (p : Char → Bool) (cur : Cursor) (taken : List Char) :
    (cur.eatWhile p taken).2 = (cur.eatWhile p []).2 := by
  -- `eatWhile` is by well-founded recursion on what remains, and so is this
  induction hn : cur.remaining using Nat.strongRecOn generalizing cur taken with
  | ind n ih =>
    rw [Cursor.eatWhile, Cursor.eatWhile]
    split
    · rename_i x cur' heq
      split
      · have hlt := Cursor.remaining_taken_lt heq
        rw [ih _ (hn ▸ hlt) cur'.advance (x :: taken) rfl, ih _ (hn ▸ hlt) cur'.advance [x] rfl]
      · rfl
    · rfl

/-- A blank in front of a text makes no difference. -/
theorem Lexes.space {c : Char} (hc : isSpace c = true) (h : Lexes text keys) :
    Lexes (c :: text) keys := by
  intro l given hl
  obtain ⟨cur, hcurrent, -, hadvance⟩ := Cursor.current_cons hl.cursor
  -- the lexer skips blanks first: with or without `c` it ends up at the same place
  have hskip : (l.cursor.eatWhile isSpace []).2 = (cur.advance.eatWhile isSpace []).2 := by
    rw [Cursor.eatWhile_of_some hcurrent, if_pos hc, eatWhile_snd]
  have hnext : l.next = Lexer.next ⟨cur.advance, false⟩ := by
    unfold next
    simp only [hl.going, hskip]
    rfl
  rw [drain_congr hnext]
  exact h _ given ⟨rfl, hadvance⟩

/-- **One more token.**  The scanner, in front of a lexeme, takes the lexeme and nothing else. -/
theorem Lexes.token {kind : TokenKind} (c : Char) (cs : List Char) (hspace : isSpace c = false)
    (hkind : kind ≠ .malformed)
    (hscan : ∀ cur : Cursor, cur.Holds (c :: cs ++ rest) → cur.ahead.head? = some c →
      ∃ t cur', scan c cur = (t, cur') ∧ t.key = (kind, c :: cs) ∧ cur'.Holds rest)
    (h : Lexes rest keys) : Lexes (c :: cs ++ rest) ((kind, c :: cs) :: keys) := by
  intro l given hl
  obtain ⟨cur, heat, hcur⟩ := Cursor.eatWhile_eq hl.cursor isSpace []
  rw [List.cons_append, List.dropWhile_cons_of_neg (by simp [hspace])] at hcur
  obtain ⟨cur₁, hcurrent, hcur₁, -⟩ := Cursor.current_cons hcur
  obtain ⟨t, cur', hscanned, hkey, hcur'⟩ := hscan cur₁ hcur₁ (Cursor.head?_of_current hcurrent)
  -- only a malformed token would stop the lexer
  have hgood : (t.kind == .malformed) = false := by
    have : t.kind = kind := congrArg Prod.fst hkey
    simpa [this] using hkind
  have hnext : l.next = (some t, ⟨cur', false⟩) := by
    unfold next
    simp only [hl.going, heat, hcurrent, hscanned, hgood]
    simp
  rw [drain_of_next hnext, h _ (t :: given) ⟨rfl, hcur'⟩]
  simp [hkey]

theorem key_finish {cur : Cursor} (h : cur.Holds text) (kind : TokenKind) (taken : List Char)
    (start : Nat) : (finish kind taken start cur).key = (kind, taken.reverse) := by
  unfold finish Cursor.faultHere
  rw [h.fault, ite_self]
  simp [Token.key, Token.ofKind, textOf]

/-! ## §2. Single characters. -/

/-- A token of one character needs no boundary. -/
theorem Lexes.single {kind : TokenKind} {c : Char} (hspace : isSpace c = false)
    (hsingle : single? c = some kind) (hkind : kind ≠ .malformed) (h : Lexes rest keys) :
    Lexes (c :: rest) ((kind, [c]) :: keys) := by
  refine Lexes.token c [] hspace hkind (fun cur hcur hahead => ?_) h
  refine ⟨.ofKind kind (textOf [c]) (spanFrom cur.offset cur.advance), cur.advance, ?_, ?_,
    Cursor.Holds.advance hcur (Cursor.ahead_ne_nil hahead)⟩
  · simp only [scan, hsingle]
  · simp [Token.key, Token.ofKind, textOf]

/-- The characters that are tokens by themselves. -/
def singleChars : List Char := [';', '\n', '(', '[', '{', ')', ']', '}', ',']

theorem single?_eq_none {c : Char} (hc : c ∉ singleChars) : single? c = none := by
  simp only [singleChars, List.mem_cons, List.not_mem_nil, or_false, not_or] at hc
  simp [single?, hc]

/-- A character of a class that no character of a list is in is not in the list. -/
theorem not_mem_of_class {chars : List Char} {p : Char → Bool} {c : Char} (hc : p c = true)
    (hp : chars.all (fun x => !p x) = true) : c ∉ chars := by
  intro hmem
  have hnot := List.all_eq_true.mp hp c hmem
  rw [hc] at hnot
  cases hnot

/-! ## §3. Words. -/

/-- A run that ends at a boundary is one token. -/
theorem scanRun_eq {p : Char → Bool} {cur : Cursor} {cs : List Char}
    (hcur : cur.Holds (cs ++ rest)) (hcs : ∀ x ∈ cs, p x = true)
    (hp : boundaryChars.all (fun x => !p x) = true) (hrest : Bounded rest) :
    ∃ t cur', scanRun p cur = (t, cur') ∧ t.key = (.identifier, cs) ∧ cur'.Holds rest := by
  obtain ⟨cur', heat, hcur'⟩ := Cursor.eatWhile_run hcur hcs (hrest.not_of hp) []
  refine ⟨finish .identifier (cs.reverse ++ []) cur.offset cur', cur', ?_, ?_, hcur'⟩
  · unfold scanRun
    rw [heat]
  · rw [key_finish hcur']
    simp

/-- The decimal digits. -/
def digitChars : List Char := ['0', '1', '2', '3', '4', '5', '6', '7', '8', '9']

theorem mem_digitChars {c : Char} (hc : c.isDigit = true) : c ∈ digitChars := by
  have hrange : 48 ≤ c.toNat ∧ c.toNat ≤ 57 := by
    simpa [Char.isDigit, UInt32.le_iff_toNat_le] using hc
  obtain ⟨hlow, hhigh⟩ := hrange
  rw [← Char.ofNat_toNat c]
  generalize c.toNat = n at hlow hhigh
  interval_cases n <;> decide

theorem Lexes.name {word : List Char} (hword : IsName word) (hrest : Bounded rest)
    (h : Lexes rest keys) : Lexes (word ++ rest) ((.identifier, word) :: keys) := by
  cases hword with
  | @word c cs hc hcs =>
    -- none of the branches before the one for words takes `c`
    have hnot : c ∉ singleChars ++ spaceChars ++ ['.', '"'] := not_mem_of_class hc (by decide)
    simp only [List.mem_append, List.mem_cons, List.not_mem_nil, or_false, not_or] at hnot
    obtain ⟨⟨hsingle, hblank⟩, hpoint, hquote⟩ := hnot
    have hspace : isSpace c = false := by simpa [isSpace] using hblank
    have hdigit : c.isDigit = false := by
      by_contra hd
      exact not_mem_of_class hc (by decide) (mem_digitChars (by simpa using hd))
    have hall : ∀ x ∈ c :: cs, isWordChar x = true :=
      List.forall_mem_cons.mpr ⟨isWordChar_of_isWordStart hc, hcs⟩
    refine Lexes.token c cs hspace (by decide) (fun cur hcur _ => ?_) h
    simp only [scan, single?_eq_none hsingle, hdigit, beq_false_of_ne hpoint,
      beq_false_of_ne hquote, hc]
    exact scanRun_eq hcur hall (by decide) hrest
  | @point cs hhead hcs =>
    have hall : ∀ x ∈ '.' :: cs, isWordChar x = true := List.forall_mem_cons.mpr ⟨by decide, hcs⟩
    refine Lexes.token '.' cs (by decide) (by decide) (fun cur hcur _ => ?_) h
    -- no digit follows the point, in the word or behind it
    have hnext : ∀ x ∈ (cs ++ rest).head?, x.isDigit = false := by
      cases cs with
      | nil => exact hrest.not_of (by decide)
      | cons x cs => simpa using hhead
    obtain ⟨hsecond, hcur'⟩ := hcur.peek 1
    have hpeek : cur.peek 1 = ((cs ++ rest).head?, (cur.peek 1).2) :=
      Prod.ext (hsecond.trans List.head?_eq_getElem?.symm) rfl
    have hscan : scan '.' cur = scanPoint cur := by
      simp [scan, single?]
    rw [hscan, scanPoint, hpeek]
    split
    · rename_i d cur' heq
      obtain ⟨hd, rfl⟩ := Prod.mk.inj heq
      rw [hnext d hd, if_neg Bool.false_ne_true]
      exact scanRun_eq hcur' hall (by decide) hrest
    · rename_i cur' heq
      obtain ⟨-, rfl⟩ := Prod.mk.inj heq
      exact scanRun_eq hcur' hall (by decide) hrest
  | @operator c cs hc hcs =>
    -- operator characters are in no other class
    have hmem : c ∈ operatorChars := by simpa [isOperator] using hc
    have hclass : ∀ x ∈ operatorChars, x ∉ singleChars ∧ isSpace x = false ∧ x.isDigit = false
        ∧ x ≠ '.' ∧ x ≠ '"' ∧ isWordStart x = false := List.all_iff_forall_prop.mp (by decide)
    obtain ⟨hsingle, hspace, hdigit, hpoint, hquote, hstart⟩ := hclass c hmem
    refine Lexes.token c cs hspace (by decide) (fun cur hcur _ => ?_) h
    simp only [scan, single?_eq_none hsingle, hdigit, beq_false_of_ne hpoint,
      beq_false_of_ne hquote, hstart, hc]
    exact scanRun_eq hcur (List.forall_mem_cons.mpr ⟨hc, hcs⟩) (by decide) hrest

/-! ## §4. Numbers. -/

/-- Texts of numbers: digits, digits with a fraction, digits with an exponent. -/
inductive IsNumeral : List Char → Prop where
  | whole {c : Char} {cs : List Char} (hc : c.isDigit = true)
      (hcs : ∀ x ∈ cs, x.isDigit = true) : IsNumeral (c :: cs)
  | fraction {c d : Char} {cs ds : List Char} (hc : c.isDigit = true)
      (hcs : ∀ x ∈ cs, x.isDigit = true) (hds : ∀ x ∈ d :: ds, x.isDigit = true) :
      IsNumeral (c :: (cs ++ '.' :: d :: ds))
  | power {c d : Char} {cs ds : List Char} (hc : c.isDigit = true)
      (hcs : ∀ x ∈ cs, x.isDigit = true) (hds : ∀ x ∈ d :: ds, x.isDigit = true) :
      IsNumeral (c :: (cs ++ 'e' :: d :: ds))

/-- A number token that ends at a boundary. -/
def EndsNumber (word rest : List Char) (scanned : Token × Cursor) : Prop :=
  scanned.1.key = (.number, word) ∧ scanned.2.Holds rest

theorem endsNumber_finish {cur : Cursor} (hcur : cur.Holds rest) (taken : List Char) (start : Nat) :
    EndsNumber taken.reverse rest (finish .number taken start cur, cur) :=
  ⟨key_finish hcur .number taken start, hcur⟩

/-- At a boundary there is no exponent. -/
theorem endsNumber_scanExponent {cur : Cursor} (hcur : cur.Holds rest) (hrest : Bounded rest)
    (taken : List Char) (start : Nat) :
    EndsNumber taken.reverse rest (scanExponent start taken cur) := by
  unfold scanExponent scanIfNext
  cases rest with
  | nil =>
    obtain ⟨cur', hcurrent, hcur'⟩ := Cursor.current_nil hcur
    rw [hcurrent]
    exact endsNumber_finish hcur' taken start
  | cons x rest =>
    obtain ⟨cur', hcurrent, hcur', -⟩ := Cursor.current_cons hcur
    have hmarker : (x == 'e' || x == 'E') = false :=
      hrest.not_of (p := fun x => x == 'e' || x == 'E') (by decide) x rfl
    rw [hcurrent]
    simp only [hmarker]
    exact endsNumber_finish hcur' taken start

theorem endsNumber_scanFraction {cur : Cursor} {d : Char} {ds : List Char}
    (hcur : cur.Holds (d :: ds ++ rest)) (hds : ∀ x ∈ d :: ds, x.isDigit = true)
    (hrest : Bounded rest) (taken : List Char) (start : Nat) :
    EndsNumber (taken.reverse ++ d :: ds) rest (scanFraction start taken cur) := by
  obtain ⟨cur₁, hcurrent, hcur₁, -⟩ := Cursor.current_cons hcur
  obtain ⟨cur₂, heat, hcur₂⟩ := Cursor.eatWhile_run hcur₁ hds (hrest.not_of (by decide)) taken
  unfold scanFraction
  rw [hcurrent]
  simp only [hds d List.mem_cons_self, if_true]
  rw [heat]
  have hend := endsNumber_scanExponent hcur₂ hrest ((d :: ds).reverse ++ taken) start
  simpa using hend

theorem endsNumber_scanPower {cur : Cursor} {d : Char} {ds : List Char}
    (hcur : cur.Holds ('e' :: d :: ds ++ rest)) (hds : ∀ x ∈ d :: ds, x.isDigit = true)
    (hrest : Bounded rest) (taken : List Char) (start : Nat) :
    EndsNumber (taken.reverse ++ 'e' :: d :: ds) rest (scanExponent start taken cur) := by
  obtain ⟨cur₁, hcurrent, -, hadvance⟩ := Cursor.current_cons hcur
  obtain ⟨cur₂, hcurrent₂, hcur₂, -⟩ := Cursor.current_cons hadvance
  obtain ⟨cur₃, heat, hcur₃⟩ :=
    Cursor.eatWhile_run hcur₂ hds (hrest.not_of (by decide)) ('e' :: taken)
  have hsign : ∀ x ∈ digitChars, (x == '+' || x == '-') = false :=
    List.all_iff_forall_prop.mp (by decide)
  unfold scanExponent scanIfNext
  rw [hcurrent]
  simp only [BEq.rfl, Bool.true_or, if_true]
  unfold scanExponentSign scanIfNext
  rw [hcurrent₂]
  simp only [hsign d (mem_digitChars (hds d List.mem_cons_self))]
  unfold scanExponentDigits scanDigits
  simp only [heat]
  -- the exponent has a digit, so more was taken than the marker
  have hlen : (((d :: ds).reverse ++ 'e' :: taken).length == ('e' :: taken).length) = false := by
    rw [beq_eq_false_iff_ne, List.length_append, List.length_reverse, List.length_cons]
    omega
  simp only [hlen]
  have hend := endsNumber_finish hcur₃ ((d :: ds).reverse ++ 'e' :: taken) start
  simpa using hend

theorem scan_digit {c : Char} (hc : c.isDigit = true) (cur : Cursor) :
    scan c cur = scanNumber cur := by
  have hsingle : c ∉ singleChars := not_mem_of_class hc (by decide)
  simp only [scan, single?_eq_none hsingle, hc, if_true]

/-- The digits that a number starts with are taken first. -/
theorem scanNumber_eq {cur : Cursor} {digits more : List Char} (hcur : cur.Holds (digits ++ more))
    (hdigits : ∀ x ∈ digits, x.isDigit = true) (hmore : ∀ x ∈ more.head?, x.isDigit = false) :
    ∃ cur', scanNumber cur = scanMarker cur.offset digits.reverse cur' ∧ cur'.Holds more := by
  obtain ⟨cur', heat, hcur'⟩ := Cursor.eatWhile_run hcur hdigits hmore []
  rw [List.append_nil] at heat
  refine ⟨cur', ?_, hcur'⟩
  unfold scanNumber
  rw [heat]

theorem Lexes.number {word : List Char} (hword : IsNumeral word) (hrest : Bounded rest)
    (h : Lexes rest keys) : Lexes (word ++ rest) ((.number, word) :: keys) := by
  -- every numeral starts with a digit, so `scanNumber` is what has to be followed
  have hends : ∀ {c : Char} {cs : List Char}, c.isDigit = true →
      (∀ cur : Cursor, cur.Holds (c :: cs ++ rest) → EndsNumber (c :: cs) rest (scanNumber cur)) →
      Lexes (c :: cs ++ rest) ((.number, c :: cs) :: keys) := by
    intro c cs hc hscan
    have hspace : isSpace c = false := by
      have hclass : ∀ x ∈ digitChars, isSpace x = false := List.all_iff_forall_prop.mp (by decide)
      exact hclass c (mem_digitChars hc)
    refine Lexes.token c cs hspace (by decide) (fun cur hcur _ => ?_) h
    rw [scan_digit hc]
    exact ⟨_, _, rfl, hscan cur hcur⟩
  cases hword with
  | @whole c cs hc hcs =>
    refine hends hc fun cur hcur => ?_
    obtain ⟨cur₁, hnumber, hcur₁⟩ := scanNumber_eq hcur (List.forall_mem_cons.mpr ⟨hc, hcs⟩)
      (hrest.not_of (by decide))
    rw [hnumber, scanMarker]
    cases rest with
    | nil =>
      obtain ⟨cur₂, hcurrent, hcur₂⟩ := Cursor.current_nil hcur₁
      rw [hcurrent]
      simpa using endsNumber_scanExponent hcur₂ hrest (c :: cs).reverse cur.offset
    | cons x rest =>
      obtain ⟨cur₂, hcurrent, hcur₂, -⟩ := Cursor.current_cons hcur₁
      have hhex : (x == 'x' || x == 'X') = false :=
        hrest.not_of (p := fun x => x == 'x' || x == 'X') (by decide) x rfl
      have hpoint : (x == '.') = false := hrest.not_of (p := fun x => x == '.') (by decide) x rfl
      rw [hcurrent]
      simp only [hhex, hpoint]
      simpa using endsNumber_scanExponent hcur₂ hrest (c :: cs).reverse cur.offset
  | @fraction c d cs ds hc hcs hds =>
    refine hends hc fun cur hcur => ?_
    rw [← List.cons_append, List.append_assoc] at hcur
    obtain ⟨cur₁, hnumber, hcur₁⟩ := scanNumber_eq hcur (List.forall_mem_cons.mpr ⟨hc, hcs⟩)
      (by simp)
    obtain ⟨cur₂, hcurrent, -, hadvance⟩ := Cursor.current_cons hcur₁
    rw [hnumber, scanMarker]
    simp only [hcurrent]
    simpa using endsNumber_scanFraction hadvance hds hrest ('.' :: (c :: cs).reverse) cur.offset
  | @power c d cs ds hc hcs hds =>
    refine hends hc fun cur hcur => ?_
    rw [← List.cons_append, List.append_assoc] at hcur
    obtain ⟨cur₁, hnumber, hcur₁⟩ := scanNumber_eq hcur (List.forall_mem_cons.mpr ⟨hc, hcs⟩)
      (by simp)
    obtain ⟨cur₂, hcurrent, hcur₂, -⟩ := Cursor.current_cons hcur₁
    rw [hnumber, scanMarker]
    simp only [hcurrent]
    simpa using endsNumber_scanPower hcur₂ hds hrest (c :: cs).reverse cur.offset

/-! ## §5. Strings. -/

theorem scanString_close {cur : Cursor} (hcur : cur.Holds ('"' :: rest)) (start : Nat)
    (taken : List Char) :
    ∃ cur', scanString start taken cur = (finish .string ('"' :: taken) start cur', cur')
      ∧ cur'.Holds rest := by
  obtain ⟨cur', hbump, hcur'⟩ := Cursor.bump_cons hcur
  refine ⟨cur', ?_, hcur'⟩
  rw [scanString_of_some hbump]
  rfl

theorem scanString_plain {cur : Cursor} {c : Char} {more : List Char}
    (hcur : cur.Holds (c :: more)) (hquote : c ≠ '"') (hslash : c ≠ '\\') (start : Nat)
    (taken : List Char) :
    ∃ cur', scanString start taken cur = scanString start (c :: taken) cur' ∧ cur'.Holds more := by
  obtain ⟨cur', hbump, hcur'⟩ := Cursor.bump_cons hcur
  refine ⟨cur', ?_, hcur'⟩
  rw [scanString_of_some hbump, if_neg (by simpa using hquote), if_neg (by simpa using hslash)]

/-- Whatever follows a backslash is taken with it. -/
theorem scanString_escaped {cur : Cursor} {e : Char} {more : List Char}
    (hcur : cur.Holds ('\\' :: e :: more)) (start : Nat) (taken : List Char) :
    ∃ cur', scanString start taken cur = scanString start (e :: '\\' :: taken) cur'
      ∧ cur'.Holds more := by
  obtain ⟨cur₁, hbump₁, hcur₁⟩ := Cursor.bump_cons hcur
  obtain ⟨cur₂, hbump₂, hcur₂⟩ := Cursor.bump_cons hcur₁
  refine ⟨cur₂, ?_, hcur₂⟩
  rw [scanString_of_some hbump₁, if_neg (by decide), if_pos (by decide), hbump₂]

theorem scanString_escape {cur : Cursor} (c : Char) {more : List Char}
    (hcur : cur.Holds (Quoted.escape c ++ more)) (start : Nat) (taken : List Char) :
    ∃ cur', scanString start taken cur
        = scanString start ((Quoted.escape c).reverse ++ taken) cur' ∧ cur'.Holds more := by
  rcases Quoted.escape_cases c with ⟨e, hesc, -⟩ | ⟨hcontrol, hesc⟩ | ⟨hquote, hslash, hesc⟩
  · rw [hesc] at hcur ⊢
    exact scanString_escaped hcur start taken
  · rw [hesc] at hcur ⊢
    -- the backslash takes the marker with it; the two places are plain characters
    have hhigh := Quoted.hexDigit_plain (show c.toNat / 16 < 16 by omega)
    have hlow := Quoted.hexDigit_plain (show c.toNat % 16 < 16 by omega)
    obtain ⟨cur₁, hscan₁, hcur₁⟩ := scanString_escaped hcur start taken
    obtain ⟨cur₂, hscan₂, hcur₂⟩ := scanString_plain hcur₁ hhigh.1 hhigh.2 start _
    obtain ⟨cur₃, hscan₃, hcur₃⟩ := scanString_plain hcur₂ hlow.1 hlow.2 start _
    exact ⟨cur₃, hscan₁.trans (hscan₂.trans hscan₃), hcur₃⟩
  · rw [hesc] at hcur ⊢
    exact scanString_plain hcur hquote hslash start taken

theorem scanString_encoded {cur : Cursor} (s : List Char)
    (hcur : cur.Holds (s.flatMap Quoted.escape ++ '"' :: rest)) (start : Nat) (taken : List Char) :
    ∃ t cur', scanString start taken cur = (t, cur')
      ∧ t.key = (.string, taken.reverse ++ (s.flatMap Quoted.escape ++ ['"']))
      ∧ cur'.Holds rest := by
  induction s generalizing cur taken with
  | nil =>
    obtain ⟨cur', hscan, hcur'⟩ := scanString_close hcur start taken
    refine ⟨_, cur', hscan, ?_, hcur'⟩
    rw [key_finish hcur']
    simp
  | cons c s ih =>
    rw [List.flatMap_cons, List.append_assoc] at hcur
    obtain ⟨cur₁, hscan, hcur₁⟩ := scanString_escape c hcur start taken
    obtain ⟨t, cur', hscan', hkey, hcur'⟩ := ih hcur₁ ((Quoted.escape c).reverse ++ taken)
    exact ⟨t, cur', hscan.trans hscan', by simpa using hkey, hcur'⟩

/-- A string literal does not start with three quotes. -/
theorem not_long_string (s : List Char) (hrest : Bounded rest) :
    ['"', '"'].isPrefixOf (s.flatMap Quoted.escape ++ '"' :: rest) = false := by
  cases s with
  | nil =>
    cases rest with
    | nil => rfl
    | cons x rest =>
      have hquote : ('"' == x) = false := hrest.not_of (p := fun x => '"' == x) (by decide) x rfl
      show ('"' == '"' && ('"' == x && true)) = false
      rw [hquote]
      rfl
  | cons c s =>
    rw [List.flatMap_cons, List.append_assoc]
    rcases Quoted.escape_cases c with ⟨e, hesc, -⟩ | ⟨-, hesc⟩ | ⟨hquote, -, hesc⟩
    · rw [hesc]
      rfl
    · rw [hesc]
      rfl
    · rw [hesc]
      show ('"' == c && _) = false
      rw [beq_false_of_ne hquote.symm]
      rfl

theorem Lexes.string (s : List Char) (hrest : Bounded rest) (h : Lexes rest keys) :
    Lexes (Quoted.encode s ++ rest) ((.string, Quoted.encode s) :: keys) := by
  refine Lexes.token '"' (s.flatMap Quoted.escape ++ ['"']) (by decide) (by decide)
    (fun cur hcur hahead => ?_) h
  rw [List.cons_append, List.append_assoc] at hcur
  -- the scanner looks for three quotes before it takes the first one
  obtain ⟨hmatch, hcur'⟩ := hcur.matchesFrom 0 ['"', '"', '"']
  have hahead' := Cursor.head?_matchesFrom hahead 0 ['"', '"', '"']
  have hlook : cur.lookingAt ['"', '"', '"']
      = (false, (Cursor.matchesFrom 0 ['"', '"', '"'] cur).2) :=
    Prod.ext (hmatch.trans (not_long_string s hrest)) rfl
  have hscan : scan '"' cur = scanString cur.offset ['"']
      (Cursor.matchesFrom 0 ['"', '"', '"'] cur).2.advance := by
    show scanQuote cur = _
    unfold scanQuote
    rw [hlook]
  rw [hscan]
  exact scanString_encoded s (hcur'.advance (Cursor.ahead_ne_nil hahead')) cur.offset ['"']

end Prototalk.Lexer
