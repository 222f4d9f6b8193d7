/-
  Prototalk.Proofs.Token.Position
  ────────────────────────────────
  **WHERE A CURSOR STANDS IN ITS TEXT.**

  `At before text` says that a cursor has taken `before` and has `text` left:
  its offset counts the bytes of `before`.  Looking does not move a cursor,
  and taking moves it behind what was taken, so each way to read carries the
  place along with the text that is left.
-/
import Mathlib.Data.String.Basic
import Prototalk.Proofs.Token.Cursor

namespace Prototalk

/-! ## §1. Offsets. -/

/-- The offset behind some text; it sticks to the largest one that a span can hold. -/
def offsetOf (before : List Char) : Nat := min (String.utf8Len before) Span.maxOffset

theorem offsetOf_nil : offsetOf [] = 0 := by
  simp [offsetOf]

theorem offsetOf_le_append (before more : List Char) :
    offsetOf before ≤ offsetOf (before ++ more) := by
  simp only [offsetOf, String.utf8Len_append]
  omega

theorem offsetOf_eq {before : List Char} (h : String.utf8Len before ≤ Span.maxOffset) :
    offsetOf before = String.utf8Len before :=
  Nat.min_eq_left h

theorem offsetAfter_offsetOf (before : List Char) (x : Char) :
    Cursor.offsetAfter (offsetOf before) x = offsetOf (before ++ [x]) := by
  simp only [Cursor.offsetAfter, offsetOf, String.utf8Len_append, String.utf8Len_cons,
    String.utf8Len_nil]
  omega

theorem foldl_offsetAfter_offsetOf (before run : List Char) :
    run.foldl Cursor.offsetAfter (offsetOf before) = offsetOf (before ++ run) := by
  induction run generalizing before with
  | nil => simp
  | cons x run ih =>
    rw [List.foldl_cons, offsetAfter_offsetOf, ih]
    simp

namespace Cursor

variable {cur : Cursor} {before text : List Char}

/-! ## §2. Looking stays, taking moves. -/

theorem offset_pull (cur : Cursor) : cur.pull.offset = cur.offset := by
  unfold pull
  split <;> rfl

theorem offset_pullUpTo (n : Nat) (cur : Cursor) : (pullUpTo n cur).offset = cur.offset := by
  induction n generalizing cur with
  | zero => rfl
  | succ n ih =>
    unfold pullUpTo
    split
    · rfl
    · rw [ih, offset_pull]

theorem offset_peek (n : Nat) (cur : Cursor) : (cur.peek n).2.offset = cur.offset :=
  offset_pullUpTo _ cur

theorem offset_matchesFrom (n : Nat) (word : List Char) (cur : Cursor) :
    (matchesFrom n word cur).2.offset = cur.offset := by
  induction word generalizing n cur with
  | nil => rfl
  | cons x word ih =>
    simp only [matchesFrom]
    split
    · rw [ih, offset_peek]
    · exact offset_peek n cur

/-- What `eatWhile` takes is what the offset moves behind. -/
theorem offset_eatWhile (p : Char → Bool) (cur : Cursor) (taken : List Char) :
    ∃ run : List Char, (cur.eatWhile p taken).1 = run.reverse ++ taken
      ∧ (cur.eatWhile p taken).2.offset = run.foldl offsetAfter cur.offset := by
  fun_induction eatWhile p cur taken with
  | case1 cur taken x cur' h hx ih =>
    obtain ⟨run, htaken, hoffset⟩ := ih
    refine ⟨x :: run, by simp [htaken], ?_⟩
    have hahead : cur'.ahead.head? = some x := by
      have hseen : (cur.fill 1).ahead[0]? = some x := congrArg Prod.fst h
      have hcur : cur.fill 1 = cur' := congrArg Prod.snd h
      rwa [hcur, ← List.head?_eq_getElem?] at hseen
    have hcur' : cur'.offset = cur.offset := by
      rw [← offset_peek 0 cur]
      exact congrArg (fun found => found.2.offset) h.symm
    rw [hoffset, List.foldl_cons, ← hcur']
    congr 1
    unfold advance
    cases hcases : cur'.ahead with
    | nil =>
      rw [hcases] at hahead
      cases hahead
    | cons y rest =>
      rw [hcases] at hahead
      cases hahead
      rfl
  | case2 cur taken x cur' h hx =>
    refine ⟨[], rfl, ?_⟩
    rw [List.foldl_nil, ← offset_peek 0 cur]
    exact congrArg (fun found => found.2.offset) h.symm
  | case3 cur taken cur' h =>
    refine ⟨[], rfl, ?_⟩
    rw [List.foldl_nil, ← offset_peek 0 cur]
    exact congrArg (fun found => found.2.offset) h.symm

/-! ## §3. Cursors between two pieces of text. -/

/-- The cursor stands behind `before`, which is taken, and before `text`, which is left. -/
structure At (cur : Cursor) (before text : List Char) : Prop where
  holds : cur.Holds text
  offset : cur.offset = offsetOf before

theorem at_ofSource (text : List Char) : (ofSource (.ofChars text)).At [] text :=
  ⟨holds_ofSource text, offsetOf_nil.symm⟩

theorem At.peek (h : cur.At before text) (n : Nat) : (cur.peek n).2.At before text :=
  ⟨(h.holds.peek n).2, (offset_peek n cur).trans h.offset⟩

/-- What waits in front is what the text starts with. -/
theorem At.head? {x : Char} {rest : List Char} (h : cur.At before (x :: rest))
    (hahead : cur.ahead ≠ []) : cur.ahead.head? = some x := by
  obtain ⟨-, more, -, htext, -⟩ := h.holds
  cases hcur : cur.ahead with
  | nil => exact absurd hcur hahead
  | cons y ahead =>
    rw [hcur] at htext
    obtain ⟨rfl, -⟩ := List.cons.inj htext
    rfl

theorem At.advance {x : Char} {rest : List Char} (h : cur.At before (x :: rest))
    (hahead : cur.ahead ≠ []) : cur.advance.At (before ++ [x]) rest := by
  refine ⟨h.holds.advance hahead, ?_⟩
  obtain ⟨-, more, -, htext, -⟩ := h.holds
  unfold Cursor.advance
  cases hcur : cur.ahead with
  | nil => exact absurd hcur hahead
  | cons y ahead =>
    rw [hcur] at htext
    obtain ⟨rfl, -⟩ := List.cons.inj htext
    show offsetAfter cur.offset y = _
    rw [h.offset, offsetAfter_offsetOf]

theorem At.current_nil (h : cur.At before []) :
    ∃ cur', cur.current = (none, cur') ∧ cur'.At before [] :=
  ⟨(cur.peek 0).2, Prod.ext (h.holds.peek 0).1 rfl, h.peek 0⟩

theorem At.current_cons {x : Char} {rest : List Char} (h : cur.At before (x :: rest)) :
    ∃ cur', cur.current = (some x, cur') ∧ cur'.At before (x :: rest)
      ∧ cur'.advance.At (before ++ [x]) rest := by
  have hahead : (cur.peek 0).2.ahead ≠ [] :=
    List.ne_nil_of_length_pos (h.holds.ahead_of_peek 0 (by simp))
  exact ⟨(cur.peek 0).2, Prod.ext (h.holds.peek 0).1 rfl, h.peek 0, (h.peek 0).advance hahead⟩

theorem At.bump_nil (h : cur.At before []) :
    ∃ cur', cur.bump = (none, cur') ∧ cur'.At before [] := by
  obtain ⟨cur', hcurrent, hat⟩ := h.current_nil
  refine ⟨cur', ?_, hat⟩
  rw [bump, hcurrent]

theorem At.bump_cons {x : Char} {rest : List Char} (h : cur.At before (x :: rest)) :
    ∃ cur', cur.bump = (some x, cur') ∧ cur'.At (before ++ [x]) rest := by
  obtain ⟨cur', hcurrent, -, hadvance⟩ := h.current_cons
  refine ⟨cur'.advance, ?_, hadvance⟩
  rw [bump, hcurrent]

theorem At.eatWhile (h : cur.At before text) (p : Char → Bool) (taken : List Char) :
    ∃ cur', cur.eatWhile p taken = ((text.takeWhile p).reverse ++ taken, cur')
      ∧ cur'.At (before ++ text.takeWhile p) (text.dropWhile p) := by
  obtain ⟨cur', heat, hholds⟩ := eatWhile_eq h.holds p taken
  refine ⟨cur', heat, hholds, ?_⟩
  obtain ⟨run, htaken, hoffset⟩ := offset_eatWhile p cur taken
  rw [heat] at htaken hoffset
  obtain rfl : text.takeWhile p = run := by simpa using htaken
  rw [hoffset, h.offset, foldl_offsetAfter_offsetOf]

theorem At.lookingAt (h : cur.At before text) (word : List Char) :
    ∃ cur', cur.lookingAt word = (word.isPrefixOf text, cur') ∧ cur'.At before text := by
  obtain ⟨hmatch, hholds⟩ := h.holds.matchesFrom 0 word
  exact ⟨(Cursor.matchesFrom 0 word cur).2, Prod.ext hmatch rfl, hholds,
    (offset_matchesFrom 0 word cur).trans h.offset⟩

/-- A word that was found is ahead as a whole. -/
theorem length_le_of_matchesFrom {n : Nat} {word : List Char} {cur' : Cursor}
    (h : matchesFrom n word cur = (true, cur')) (hword : word ≠ []) :
    n + word.length ≤ cur'.ahead.length := by
  induction word generalizing n cur with
  | nil => exact absurd rfl hword
  | cons x word ih =>
    simp only [matchesFrom] at h
    split at h
    · rename_i hfound
      cases word with
      | nil =>
        obtain ⟨-, rfl⟩ := Prod.mk.inj h
        have hx : (cur.fill (n + 1)).ahead[n]? = some x := eq_of_beq hfound
        obtain ⟨hlt, -⟩ := List.getElem?_eq_some_iff.mp hx
        exact hlt
      | cons y word =>
        have := ih h (by simp)
        simp only [List.length_cons] at this ⊢
        omega
    · cases h

theorem At.advanceBy {word rest : List Char} (h : cur.At before (word ++ rest))
    (hahead : word.length ≤ cur.ahead.length) :
    (advanceBy word.length cur).At (before ++ word) rest := by
  induction word generalizing cur before with
  | nil =>
    rw [List.append_nil]
    exact h
  | cons x word ih =>
    rw [List.length_cons] at hahead
    have hne : cur.ahead ≠ [] := List.ne_nil_of_length_pos (by omega)
    have hless : word.length ≤ cur.advance.ahead.length := by
      unfold Cursor.advance
      cases hcur : cur.ahead with
      | nil => exact absurd hcur hne
      | cons y ahead =>
        rw [hcur] at hahead
        simpa using hahead
    have hrest := ih (h.advance hne) hless
    rw [List.append_assoc, List.singleton_append] at hrest
    exact hrest

/-- A word that is found can be taken. -/
theorem At.lookingAt_append {rest : List Char} (word : List Char) (hword : word ≠ [])
    (h : cur.At before (word ++ rest)) : ∃ cur', cur.lookingAt word = (true, cur')
      ∧ (Cursor.advanceBy word.length cur').At (before ++ word) rest := by
  obtain ⟨cur', hlook, hat⟩ := h.lookingAt word
  rw [List.isPrefixOf_iff_prefix.mpr (List.prefix_append word rest)] at hlook
  have hahead := length_le_of_matchesFrom hlook hword
  exact ⟨cur', hlook, hat.advanceBy (by omega)⟩

end Cursor

end Prototalk
