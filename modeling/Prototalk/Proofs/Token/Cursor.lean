/-
  Prototalk.Proofs.Token.Cursor
  ────────────────────────────────
  **A CURSOR IN A TEXT IS WHAT IS LEFT OF THE TEXT.**

  A cursor in a source that answers with characters only holds the list of
  characters that are still to be taken, however many of them it has looked
  at.  Looking and taking are functions of that list.
-/
import Mathlib.Data.List.Basic
import Prototalk.Token.Cursor

namespace Prototalk.Cursor

variable {cur : Cursor} {text : List Char} {p : Char → Bool}

/-- What is left of the text that a cursor reads; no read has failed. -/
structure Holds (cur : Cursor) (text : List Char) : Prop where
  fault : cur.fault = none
  chars : ∃ rest, cur.unread = Source.ofChars rest ∧ cur.ahead ++ rest = text
    ∧ (cur.exhausted = true → rest = [])

theorem holds_ofSource (text : List Char) : (ofSource (.ofChars text)).Holds text :=
  ⟨rfl, text, rfl, rfl, fun h => by cases h⟩

/-! ## §1. Looking. -/

theorem pull_nil (h : cur.unread = Source.ofChars []) :
    cur.pull = { cur with exhausted := true } := by
  unfold Cursor.pull
  rw [h]
  rfl

theorem pull_cons {x : Char} {rest : List Char} (h : cur.unread = Source.ofChars (x :: rest)) :
    cur.pull = { cur with unread := Source.ofChars rest, ahead := cur.ahead ++ [x] } := by
  unfold Cursor.pull
  rw [h]
  rfl

theorem Holds.pull (h : cur.Holds text) : cur.pull.Holds text := by
  obtain ⟨hfault, rest, hunread, htext, hdone⟩ := h
  cases rest with
  | nil =>
    rw [pull_nil hunread]
    exact ⟨hfault, [], hunread, htext, fun _ => rfl⟩
  | cons x rest =>
    rw [pull_cons hunread]
    refine ⟨hfault, rest, rfl, by simpa using htext, fun hex => ?_⟩
    have := hdone hex
    contradiction

/-- Reading on either gets all that was asked for or finds the end. -/
theorem Holds.pullUpTo (n : Nat) (h : cur.Holds text) :
    (pullUpTo n cur).Holds text
      ∧ (cur.ahead.length + n ≤ (pullUpTo n cur).ahead.length
        ∨ (pullUpTo n cur).ahead = text) := by
  induction n generalizing cur with
  | zero => exact ⟨h, Or.inl (Nat.le_refl _)⟩
  | succ n ih =>
    unfold Cursor.pullUpTo
    split
    · rename_i hex
      obtain ⟨rest, -, htext, hdone⟩ := h.chars
      rw [hdone hex, List.append_nil] at htext
      exact ⟨h, Or.inr htext⟩
    · obtain ⟨hholds, hgot⟩ := ih h.pull
      refine ⟨hholds, ?_⟩
      rcases hgot with hgot | hgot
      · obtain ⟨rest, hunread, htext, -⟩ := h.chars
        cases rest with
        | nil =>
          -- the end is found by one read, and nothing comes after it
          right
          have hstay : ∀ n, Cursor.pullUpTo n cur.pull = cur.pull := by
            intro n
            cases n with
            | zero => rfl
            | succ n =>
              unfold Cursor.pullUpTo
              rw [pull_nil hunread]
              rfl
          rw [hstay, pull_nil hunread]
          simpa using htext
        | cons x rest =>
          left
          have hlen : cur.pull.ahead.length = cur.ahead.length + 1 := by
            rw [pull_cons hunread]
            simp
          omega
      · exact Or.inr hgot

theorem Holds.peek (n : Nat) (h : cur.Holds text) :
    (cur.peek n).1 = text[n]? ∧ (cur.peek n).2.Holds text := by
  obtain ⟨hholds, hgot⟩ := h.pullUpTo (n + 1 - cur.ahead.length)
  refine ⟨?_, hholds⟩
  show (Cursor.pullUpTo _ cur).ahead[n]? = _
  rcases hgot with hgot | hgot
  · obtain ⟨rest, -, htext, -⟩ := hholds.chars
    rw [← htext, List.getElem?_append_left (by omega)]
  -- the whole text is ahead, and the place is beyond or within it
  · rw [hgot]

/-- Having looked at some places, what was seen is ahead. -/
theorem Holds.ahead_of_peek (n : Nat) (h : cur.Holds text) (hn : n < text.length) :
    n < (cur.peek n).2.ahead.length := by
  obtain ⟨-, hgot⟩ := h.pullUpTo (n + 1 - cur.ahead.length)
  show n < (Cursor.pullUpTo (n + 1 - cur.ahead.length) cur).ahead.length
  rcases hgot with hgot | hgot
  · omega
  · rw [hgot]
    exact hn

theorem Holds.matchesFrom (n : Nat) (word : List Char) (h : cur.Holds text) :
    (matchesFrom n word cur).1 = word.isPrefixOf (text.drop n)
      ∧ (matchesFrom n word cur).2.Holds text := by
  induction word generalizing n cur with
  | nil => exact ⟨by simp [Cursor.matchesFrom], h⟩
  | cons x word ih =>
    obtain ⟨hfound, hholds⟩ := h.peek n
    obtain ⟨hmatch, hholds'⟩ := ih (n + 1) hholds
    simp only [Cursor.matchesFrom]
    -- one place is looked at; the rest of the word only if it fits
    by_cases hx : text[n]? = some x
    · rw [hfound, hx, if_pos (by simp)]
      refine ⟨?_, hholds'⟩
      obtain ⟨hn, hget⟩ := List.getElem?_eq_some_iff.mp hx
      rw [hmatch, List.drop_eq_getElem_cons hn, hget]
      simp
    · rw [hfound, if_neg (by simpa using hx)]
      refine ⟨?_, hholds⟩
      cases hdrop : text.drop n with
      | nil => rfl
      | cons y rest =>
        have hy : text[n]? = some y := by
          rw [← List.head?_drop, hdrop]
          rfl
        rw [hy] at hx
        have hne : (x == y) = false := by simpa using fun hxy : x = y => hx (hxy ▸ rfl)
        show false = (x == y && word.isPrefixOf rest)
        rw [hne, Bool.false_and]

/-- A look that found less than it looked for has met the end of the source. -/
theorem exhausted_or_length_le_pullUpTo (n : Nat) (cur : Cursor) :
    (pullUpTo n cur).exhausted = true
      ∨ cur.ahead.length + n ≤ (pullUpTo n cur).ahead.length := by
  induction n generalizing cur with
  | zero => exact .inr (Nat.le_refl _)
  | succ n ih =>
    unfold Cursor.pullUpTo
    split
    · rename_i hex
      exact .inl hex
    rcases ih cur.pull with hex | hlength
    · exact .inl hex
    -- one read ends the source or adds one character
    by_cases hex : cur.pull.exhausted = true
    · left
      cases n with
      | zero => exact hex
      | succ n =>
        unfold Cursor.pullUpTo
        rw [if_pos hex]
        exact hex
    · have hpull : cur.pull.ahead.length = cur.ahead.length + 1 := by
        unfold Cursor.pull at hex ⊢
        split at hex <;> simp_all
      exact .inr (by omega)

theorem exhausted_of_peek {n : Nat} {cur' : Cursor} (h : cur.peek n = (none, cur')) :
    cur'.exhausted = true ∧ cur'.ahead.length ≤ n := by
  obtain ⟨hnone, rfl⟩ := Prod.mk.inj h
  have hlength : (cur.fill (n + 1)).ahead.length ≤ n := List.getElem?_eq_none_iff.mp hnone
  refine ⟨?_, hlength⟩
  rcases exhausted_or_length_le_pullUpTo (n + 1 - cur.ahead.length) cur with hex | hle
  · exact hex
  · unfold fill at hlength
    omega

/-- The source is not read again behind its end. -/
theorem current_of_exhausted (hex : cur.exhausted = true) (hahead : cur.ahead = []) :
    cur.current = (none, cur) := by
  have hfill : cur.fill 1 = cur := by
    rw [fill, hahead, List.length_nil, Nat.sub_zero, Cursor.pullUpTo, if_pos hex]
  rw [current, Cursor.peek, hfill, hahead]
  rfl

/-! ## §2. Taking. -/

/-- Behind the first character waits what was looked at behind it. -/
theorem current_advance_of_peek {found : Option Char} {cur' : Cursor}
    (h : cur.peek 1 = (found, cur')) : cur'.advance.current.1 = found := by
  have hsecond : cur'.advance.ahead = cur'.ahead.tail := by
    unfold Cursor.advance
    split <;> simp_all
  cases found with
  | some d =>
    obtain ⟨hfound, rfl⟩ := Prod.mk.inj h
    have hhead : (cur.fill 2).advance.ahead.head? = some d := by
      rw [hsecond, List.head?_tail]
      exact hfound
    rw [current_of_head? hhead]
  | none =>
    obtain ⟨hex, hlength⟩ := exhausted_of_peek h
    have hstill : cur'.advance.exhausted = true := by
      unfold Cursor.advance
      split <;> exact hex
    have hnil : cur'.advance.ahead = [] := by
      rw [hsecond, ← List.length_eq_zero_iff, List.length_tail]
      omega
    rw [current_of_exhausted hstill hnil]

theorem Holds.advance {x : Char} {rest : List Char} (h : cur.Holds (x :: rest))
    (hahead : cur.ahead ≠ []) : cur.advance.Holds rest := by
  obtain ⟨hfault, more, hunread, htext, hdone⟩ := h
  cases hcur : cur.ahead with
  | nil => exact absurd hcur hahead
  | cons y ahead =>
    rw [hcur] at htext
    have hadvance : cur.advance
        = { cur with ahead := ahead, offset := offsetAfter cur.offset y } := by
      unfold Cursor.advance
      rw [hcur]
    rw [hadvance]
    exact ⟨hfault, more, hunread, (List.cons.inj htext).2, hdone⟩

theorem current_nil (h : cur.Holds []) : ∃ cur', cur.current = (none, cur') ∧ cur'.Holds [] := by
  obtain ⟨hfound, hholds⟩ := h.peek 0
  exact ⟨(cur.peek 0).2, Prod.ext hfound rfl, hholds⟩

theorem current_cons {x : Char} {rest : List Char} (h : cur.Holds (x :: rest)) :
    ∃ cur', cur.current = (some x, cur') ∧ cur'.Holds (x :: rest) ∧ cur'.advance.Holds rest := by
  obtain ⟨hfound, hholds⟩ := h.peek 0
  have hahead : (cur.peek 0).2.ahead ≠ [] := by
    have := h.ahead_of_peek 0 (by simp)
    exact List.ne_nil_of_length_pos this
  exact ⟨(cur.peek 0).2, Prod.ext hfound rfl, hholds, hholds.advance hahead⟩

theorem bump_cons {x : Char} {rest : List Char} (h : cur.Holds (x :: rest)) :
    ∃ cur', cur.bump = (some x, cur') ∧ cur'.Holds rest := by
  obtain ⟨cur', hcurrent, -, hadvance⟩ := current_cons h
  refine ⟨cur'.advance, ?_, hadvance⟩
  rw [bump, hcurrent]

theorem eatWhile_eq (h : cur.Holds text) (p : Char → Bool) (taken : List Char) :
    ∃ cur', cur.eatWhile p taken = ((text.takeWhile p).reverse ++ taken, cur')
      ∧ cur'.Holds (text.dropWhile p) := by
  induction text generalizing cur taken with
  | nil =>
    obtain ⟨cur', hcurrent, hholds⟩ := current_nil h
    refine ⟨cur', ?_, hholds⟩
    rw [eatWhile_of_none hcurrent]
    rfl
  | cons x text ih =>
    obtain ⟨cur', hcurrent, hholds, hadvance⟩ := current_cons h
    rw [eatWhile_of_some hcurrent]
    by_cases hx : p x = true
    · rw [if_pos hx, List.takeWhile_cons_of_pos hx, List.dropWhile_cons_of_pos hx]
      obtain ⟨cur'', heat, hholds'⟩ := ih hadvance (x :: taken)
      refine ⟨cur'', ?_, hholds'⟩
      rw [heat]
      simp
    · rw [if_neg hx, List.takeWhile_cons_of_neg hx, List.dropWhile_cons_of_neg hx]
      exact ⟨cur', rfl, hholds⟩

/-- A run that is followed by something else is taken whole. -/
theorem eatWhile_run {word rest : List Char} (h : cur.Holds (word ++ rest))
    (hword : ∀ x ∈ word, p x = true) (hrest : ∀ x ∈ rest.head?, p x = false)
    (taken : List Char) :
    ∃ cur', cur.eatWhile p taken = (word.reverse ++ taken, cur') ∧ cur'.Holds rest := by
  have htake : rest.takeWhile p = [] := by
    cases rest with
    | nil => rfl
    | cons x rest => exact List.takeWhile_cons_of_neg (by simpa using hrest x rfl)
  have hdrop : rest.dropWhile p = rest := by
    cases rest with
    | nil => rfl
    | cons x rest => exact List.dropWhile_cons_of_neg (by simpa using hrest x rfl)
  obtain ⟨cur', heat, hholds⟩ := eatWhile_eq h p taken
  rw [List.takeWhile_append_of_pos hword, htake, List.append_nil] at heat
  rw [List.dropWhile_append_of_pos hword, hdrop] at hholds
  exact ⟨cur', heat, hholds⟩

end Prototalk.Cursor
