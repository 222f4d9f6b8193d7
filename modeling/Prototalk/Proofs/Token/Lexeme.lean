/-
  Prototalk.Proofs.Token.Lexeme
  ────────────────────────────────
  **WHAT TOKENS LOOK LIKE.**

  What an identifier or a number token looks like, whatever source it comes
  from (`shaped_of_mem_tokens`).  Every way to end a token is followed once;
  a malformed token may have any text.

  Places play no part: a token counts by its class and its text (`key`).
-/
import Prototalk.Proofs.Token.Cursor
import Prototalk.Token.Lexer

namespace Prototalk

/-- A token without its place. -/
def Token.key (t : Token) : TokenKind × List Char := (t.kind, t.value.toList)

namespace Lexer

/-! ## §1. The shape of words and numbers. -/

/-- The text of an identifier: a word, a word with a leading point, or an operator. -/
inductive IsName : List Char → Prop where
  | word {c : Char} {cs : List Char} (hc : isWordStart c = true)
      (hcs : ∀ x ∈ cs, isWordChar x = true) : IsName (c :: cs)
  | point {cs : List Char} (hhead : ∀ x ∈ cs.head?, x.isDigit = false)
      (hcs : ∀ x ∈ cs, isWordChar x = true) : IsName ('.' :: cs)
  | operator {c : Char} {cs : List Char} (hc : isOperator c = true)
      (hcs : ∀ x ∈ cs, isOperator x = true) : IsName (c :: cs)

/-- The text of a hexadecimal number. -/
def IsHex (text : List Char) : Prop :=
  ∃ m digits, text = '0' :: m :: digits ∧ (m = 'x' ∨ m = 'X') ∧ ∀ x ∈ digits, isHexDigit x = true

/-- What is known of the text of a token by its class. -/
def Shaped (key : TokenKind × List Char) : Prop :=
  match key.1 with
  | .identifier => IsName key.2
  | .number => ∃ c cs, key.2 = c :: cs ∧ (c.isDigit = true ∨ c = '.')
  | .hexNumber => IsHex key.2
  | _ => True

/-- What `eatWhile` takes is a run, and starts with the character that was looked at. -/
theorem eatWhile_taken (p : Char → Bool) (cur : Cursor) (taken : List Char) :
    ∃ run : List Char, (cur.eatWhile p taken).1 = run.reverse ++ taken ∧ (∀ x ∈ run, p x = true)
      ∧ ∀ x ∈ run.head?, cur.current.1 = some x := by
  fun_induction Cursor.eatWhile p cur taken with
  | case1 cur taken x cur' h hx ih =>
    obtain ⟨run, hrun, hall, -⟩ := ih
    refine ⟨x :: run, by simp [hrun], ?_, by simp [h]⟩
    intro y hy
    rcases List.mem_cons.mp hy with rfl | hy
    · exact hx
    · exact hall y hy
  | case2 cur taken x cur' h hx => exact ⟨[], rfl, by simp, by simp⟩
  | case3 cur taken cur' h => exact ⟨[], rfl, by simp, by simp⟩

theorem shaped_fail (fault : LexFault) (taken : List Char) (start : Nat) (cur : Cursor) :
    Shaped (fail fault taken start cur).key :=
  trivial

theorem shaped_unterminated (fault : LexFault) (taken : List Char) (start : Nat) (cur : Cursor) :
    Shaped (unterminated fault taken start cur).key := by
  unfold unterminated
  split <;> exact trivial

theorem shaped_finish {kind : TokenKind} {taken : List Char} (h : Shaped (kind, taken.reverse))
    (start : Nat) (cur : Cursor) : Shaped (finish kind taken start cur).key := by
  unfold finish
  split
  · exact trivial
  · simpa [Token.key, Token.ofKind, textOf] using h

/-- Characters taken for a number, last one first. -/
def StartsNumber (taken : List Char) : Prop :=
  ∃ c cs, taken.reverse = c :: cs ∧ (c.isDigit = true ∨ c = '.')

theorem StartsNumber.shaped {taken : List Char} (h : StartsNumber taken) :
    Shaped (.number, taken.reverse) :=
  h

theorem StartsNumber.append {taken : List Char} (h : StartsNumber taken) (run : List Char) :
    StartsNumber (run ++ taken) := by
  obtain ⟨c, cs, hrev, hc⟩ := h
  exact ⟨c, cs ++ run.reverse, by simp [hrev], hc⟩

theorem StartsNumber.eatWhile {taken : List Char} (h : StartsNumber taken) (p : Char → Bool)
    (cur : Cursor) : StartsNumber (cur.eatWhile p taken).1 := by
  obtain ⟨run, hrun, -, -⟩ := eatWhile_taken p cur taken
  rw [hrun]
  exact h.append _

theorem shaped_scanExponent {taken : List Char} (h : StartsNumber taken) (start : Nat)
    (cur : Cursor) : Shaped (scanExponent start taken cur).1.key := by
  have hdigits {taken : List Char} (h : StartsNumber taken) (cur : Cursor) :
      Shaped (scanExponentDigits start taken cur).1.key := by
    unfold scanExponentDigits scanDigits
    dsimp only
    split
    · exact shaped_fail ..
    · exact shaped_finish (h.eatWhile _ _).shaped ..
  have hsign {taken : List Char} (h : StartsNumber taken) (cur : Cursor) :
      Shaped (scanExponentSign start taken cur).1.key := by
    unfold scanExponentSign scanIfNext
    split
    · split
      · exact hdigits (h.append [_]) _
      · exact hdigits h _
    · exact hdigits h _
  unfold scanExponent scanIfNext
  split
  · split
    · exact hsign (h.append [_]) _
    · exact shaped_finish h.shaped ..
  · exact shaped_finish h.shaped ..

theorem shaped_scanFraction {taken : List Char} (h : StartsNumber taken) (start : Nat)
    (cur : Cursor) : Shaped (scanFraction start taken cur).1.key := by
  unfold scanFraction
  split
  · split
    · exact shaped_scanExponent (h.eatWhile _ _) ..
    · exact shaped_fail ..
  · exact shaped_fail ..

theorem shaped_scanHex {m : Char} (hm : m = 'x' ∨ m = 'X') (start : Nat) (cur : Cursor) :
    Shaped (scanHex start [m, '0'] cur).1.key := by
  unfold scanHex scanDigits
  dsimp only
  obtain ⟨run, hrun, hall, -⟩ := eatWhile_taken isHexDigit cur [m, '0']
  rw [hrun]
  split
  · exact shaped_fail ..
  · refine shaped_finish ?_ ..
    exact ⟨m, run, by simp, hm, hall⟩

theorem shaped_scanNumber {cur : Cursor} {c : Char} (h : cur.ahead.head? = some c)
    (hc : c.isDigit = true) : Shaped (scanNumber cur).1.key := by
  have hstart : StartsNumber [c] := ⟨c, [], rfl, Or.inl hc⟩
  have hdigits := hstart.eatWhile Char.isDigit cur.advance
  unfold scanNumber scanMarker
  rw [Cursor.eatWhile_of_head? h hc]
  dsimp only
  split
  · rename_i m _ _
    split
    · rename_i hm
      split
      · rename_i hzero
        rw [beq_iff_eq.mp hzero]
        exact shaped_scanHex (by simpa using hm) ..
      · exact shaped_fail ..
    · split
      · exact shaped_scanFraction (hdigits.append [m]) ..
      · exact shaped_scanExponent hdigits ..
  · exact shaped_scanExponent hdigits ..

theorem shaped_scanString (start : Nat) (taken : List Char) (cur : Cursor) :
    Shaped (scanString start taken cur).1.key := by
  fun_induction scanString start taken cur with
  | case1 => exact shaped_unterminated ..
  | case2 =>
    refine shaped_finish ?_ ..
    exact trivial
  | case3 => exact shaped_unterminated ..
  | case4 _ _ _ _ _ _ _ _ _ _ ih => exact ih
  | case5 _ _ _ _ _ _ _ ih => exact ih

theorem shaped_scanTriQuote (start : Nat) (taken : List Char) (cur : Cursor) :
    Shaped (scanTriQuote start taken cur).1.key := by
  fun_induction scanTriQuote start taken cur with
  | case1 =>
    refine shaped_finish ?_ ..
    exact trivial
  | case2 => exact shaped_unterminated ..
  | case3 _ _ _ _ _ _ _ ih => exact ih

/-- A run with the first character `c` is a name, if every such run is one. -/
theorem shaped_scanRun {p : Char → Bool} {cur : Cursor} {c : Char} (h : cur.ahead.head? = some c)
    (hc : p c = true)
    (hname : ∀ run, (∀ x ∈ run, p x = true) →
      (∀ x ∈ run.head?, cur.advance.current.1 = some x) → IsName (c :: run)) :
    Shaped (scanRun p cur).1.key := by
  unfold scanRun
  rw [Cursor.eatWhile_of_head? h hc]
  dsimp only
  obtain ⟨run, hrun, hall, hhead⟩ := eatWhile_taken p cur.advance [c]
  rw [hrun]
  refine shaped_finish ?_ ..
  show IsName (run.reverse ++ [c]).reverse
  rw [List.reverse_append, List.reverse_reverse]
  exact hname run hall hhead

theorem shaped_scanPoint {cur : Cursor} (h : cur.ahead.head? = some '.') :
    Shaped (scanPoint cur).1.key := by
  unfold scanPoint
  have hfront : ∀ {found cur'}, cur.peek 1 = (found, cur') → cur'.ahead.head? = some '.' := by
    intro found cur' hpeek
    have hhead := Cursor.head?_peek h 1
    rwa [hpeek] at hhead
  split
  · rename_i d cur' hpeek
    split
    · rw [scanNumber_point (hfront hpeek)]
      exact shaped_scanFraction ⟨'.', [], rfl, Or.inr rfl⟩ ..
    · rename_i hd
      refine shaped_scanRun (hfront hpeek) (by decide)
        fun run hall hhead => .point (fun x hx => ?_) hall
      -- the run goes on with the character behind the point, which is no digit
      have hsecond : cur'.advance.current.1 = some d := Cursor.current_advance_of_peek hpeek
      have hx := hhead x hx
      rw [hsecond] at hx
      cases hx
      simpa using hd
  · rename_i cur' hpeek
    refine shaped_scanRun (hfront hpeek) (by decide)
      fun run hall hhead => .point (fun x hx => ?_) hall
    have hsecond : cur'.advance.current.1 = none := Cursor.current_advance_of_peek hpeek
    have hx := hhead x hx
    rw [hsecond] at hx
    cases hx

theorem shaped_scan {cur : Cursor} {c : Char} (h : cur.ahead.head? = some c) :
    Shaped (scan c cur).1.key := by
  unfold scan
  split
  · rename_i kind hkind
    -- a token of one character is neither a word nor a number
    unfold single? at hkind
    repeat' split at hkind
    all_goals first
      | (cases hkind; exact trivial)
      | cases hkind
  split
  · rename_i hc
    exact shaped_scanNumber h hc
  split
  · rename_i hpoint
    exact shaped_scanPoint (eq_of_beq hpoint ▸ h)
  split
  · unfold scanQuote
    dsimp only
    split
    · exact shaped_scanTriQuote ..
    · exact shaped_scanString ..
  split
  · rename_i hword
    exact shaped_scanRun h (isWordChar_of_isWordStart hword) fun run hall _ => .word hword hall
  split
  · rename_i hoperator
    exact shaped_scanRun h hoperator fun run hall _ => .operator hoperator hall
  · exact shaped_fail ..

theorem shaped_next {l l' : Lexer} {t : Token} (h : l.next = (some t, l')) : Shaped t.key := by
  unfold next at h
  split at h
  · cases h
  · dsimp only at h
    split at h
    · rename_i hcurrent
      cases h
      exact shaped_scan (Cursor.head?_of_current hcurrent)
    · split at h
      · cases h
        exact trivial
      · cases h

/-- **Every token of a source has the shape of its class.** -/
theorem shaped_of_mem_drain (l : Lexer) (given : List Token) (hgiven : ∀ t ∈ given, Shaped t.key) :
    ∀ t ∈ l.drain given, Shaped t.key := by
  fun_induction drain l given with
  | case1 l given t l' h ih =>
    refine ih fun u hu => ?_
    rcases List.mem_cons.mp hu with rfl | hu
    · exact shaped_next h
    · exact hgiven u hu
  | case2 l given l' h => simpa using hgiven

theorem shaped_of_mem_tokens {source : Source} {t : Token} (ht : t ∈ source.tokens) :
    Shaped t.key :=
  shaped_of_mem_drain _ [] (by simp) t ht

end Lexer

end Prototalk
