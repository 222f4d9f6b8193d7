/-
  Prototalk.Proofs.Token.Stop
  ────────────────────────────────
  **CURSORS OF A TEXT THAT A STOP FOLLOWS.**

  A source yields a text and then stops: with the end of the input, or with
  an error, and what it would answer after that does not matter.
  `Cursor.followedBy` is the cursor of such a source, given one of the text
  alone.  Looking and taking commute with it, and the two cursors see the
  same characters; only the error that is seen at the end of the text differs
  (`Cursor.faultHere_followedBy`).
-/
import Prototalk.Proofs.Token.Cursor

namespace Prototalk

/-! ## §1. A stop behind a text. -/

/-- The error that an answer reports. -/
def Read.fault? : Read → Option SourceError
  | .failed e => some e
  | _ => none

/-- Whether an answer is the last one that a lexer takes note of. -/
def Read.isStop : Read → Bool
  | .char _ => false
  | _ => true

namespace Cursor

variable {c c' : Cursor} {answer : Read} {p : Char → Bool} {taken : List Char}

/-- The cursor of a text that goes on with `answer` and `later`. -/
def followedBy (c : Cursor) (answer : Read) (later : Source) : Cursor :=
  if c.exhausted then { c with unread := later, fault := answer.fault? }
  else { c with unread := c.unread ++ answer :: later }

/-- The cursor reads a text, of which no read fails. -/
structure Textual (c : Cursor) : Prop where
  fault : c.fault = none
  unread : ∃ rest, c.unread = Source.ofChars rest

/-- Every character is taken, and the source is known to have no more. -/
structure AtEnd (c : Cursor) : Prop where
  ahead : c.ahead = []
  exhausted : c.exhausted = true

theorem textual_ofSource (text : List Char) : (ofSource (.ofChars text)).Textual :=
  ⟨rfl, text, rfl⟩

@[simp] theorem ahead_followedBy (later : Source) :
    (c.followedBy answer later).ahead = c.ahead := by
  unfold followedBy
  split <;> rfl

@[simp] theorem offset_followedBy (later : Source) :
    (c.followedBy answer later).offset = c.offset := by
  unfold followedBy
  split <;> rfl

@[simp] theorem exhausted_followedBy (later : Source) :
    (c.followedBy answer later).exhausted = c.exhausted := by
  unfold followedBy
  split <;> rfl

/-- The error is seen at the end of the text and nowhere else. -/
theorem faultHere_followedBy (h : c.Textual) (later : Source) :
    (c.followedBy answer later).faultHere
      = if c.ahead.isEmpty && c.exhausted then answer.fault? else none := by
  unfold faultHere
  rw [ahead_followedBy]
  unfold followedBy
  cases c.exhausted <;> simp [h.fault]

theorem Textual.faultHere (h : c.Textual) : c.faultHere = none := by
  simp [Cursor.faultHere, h.fault]

/-! ## §2. Looking. -/

theorem pull_followedBy (h : c.Textual) (hgoing : c.exhausted = false)
    (hanswer : answer.isStop = true) (later : Source) :
    (c.followedBy answer later).pull = c.pull.followedBy answer later ∧ c.pull.Textual := by
  obtain ⟨hfault, rest, hunread⟩ := h
  have hbefore : c.followedBy answer later = { c with unread := c.unread ++ answer :: later } := by
    rw [followedBy, hgoing]
    rfl
  rw [hbefore]
  cases rest with
  | nil =>
    rw [pull_nil hunread]
    refine ⟨?_, hfault, [], hunread⟩
    unfold pull
    rw [hunread]
    cases answer with
    | char x => cases hanswer
    | endOfInput => simp [Source.ofChars, followedBy, Read.fault?, hfault]
    | failed e => simp [Source.ofChars, followedBy, Read.fault?]
  | cons x rest =>
    rw [pull_cons hunread]
    refine ⟨?_, hfault, rest, rfl⟩
    unfold pull
    rw [hunread]
    simp [Source.ofChars, followedBy, hgoing]

theorem pullUpTo_followedBy (h : c.Textual) (hanswer : answer.isStop = true) (later : Source)
    (n : Nat) :
    pullUpTo n (c.followedBy answer later) = (pullUpTo n c).followedBy answer later
      ∧ (pullUpTo n c).Textual := by
  induction n generalizing c with
  | zero => exact ⟨rfl, h⟩
  | succ n ih =>
    unfold pullUpTo
    rw [exhausted_followedBy]
    by_cases hex : c.exhausted = true
    · rw [if_pos hex, if_pos hex]
      exact ⟨rfl, h⟩
    · obtain ⟨hpull, htextual⟩ := pull_followedBy h (by simpa using hex) hanswer later
      rw [if_neg hex, if_neg hex, hpull]
      exact ih htextual

/-- Looking shows the same. -/
theorem peek_followedBy (h : c.Textual) (hanswer : answer.isStop = true) (later : Source)
    (n : Nat) :
    (c.followedBy answer later).peek n = ((c.peek n).1, (c.peek n).2.followedBy answer later)
      ∧ (c.peek n).2.Textual := by
  obtain ⟨hpull, htextual⟩ :=
    pullUpTo_followedBy h hanswer later (n + 1 - c.ahead.length)
  refine ⟨?_, htextual⟩
  unfold peek fill
  rw [ahead_followedBy, hpull]
  simp

theorem matchesFrom_followedBy (h : c.Textual) (hanswer : answer.isStop = true) (later : Source)
    (n : Nat) (word : List Char) :
    matchesFrom n word (c.followedBy answer later)
        = ((matchesFrom n word c).1, (matchesFrom n word c).2.followedBy answer later)
      ∧ (matchesFrom n word c).2.Textual := by
  induction word generalizing n c with
  | nil => exact ⟨rfl, h⟩
  | cons x word ih =>
    obtain ⟨hpeek, htextual⟩ := peek_followedBy h hanswer later n
    unfold matchesFrom
    rw [hpeek]
    dsimp only
    split
    · exact ih htextual (n + 1)
    · exact ⟨rfl, htextual⟩

/-- A look that finds nothing has met the end. -/
theorem atEnd_of_current (h : c.current = (none, c')) : c'.AtEnd := by
  obtain ⟨hex, hlength⟩ := exhausted_of_peek h
  exact ⟨List.eq_nil_of_length_eq_zero (Nat.le_zero.mp hlength), hex⟩

theorem AtEnd.current (h : c.AtEnd) : c.current = (none, c) :=
  current_of_exhausted h.exhausted h.ahead

/-! ## §3. Taking. -/

theorem advance_followedBy (later : Source) :
    (c.followedBy answer later).advance = c.advance.followedBy answer later := by
  unfold advance
  rw [ahead_followedBy]
  cases c.ahead with
  | nil => rfl
  | cons x rest =>
    unfold followedBy
    cases c.exhausted <;> rfl

theorem Textual.advance (h : c.Textual) : c.advance.Textual := by
  unfold Cursor.advance
  split
  · exact h
  · exact ⟨h.fault, h.unread⟩

theorem advanceBy_followedBy (h : c.Textual) (answer : Read) (later : Source) (n : Nat) :
    advanceBy n (c.followedBy answer later) = (advanceBy n c).followedBy answer later
      ∧ (advanceBy n c).Textual := by
  induction n generalizing c with
  | zero => exact ⟨rfl, h⟩
  | succ n ih =>
    unfold advanceBy
    rw [advance_followedBy]
    exact ih h.advance

theorem bump_followedBy (h : c.Textual) (hanswer : answer.isStop = true) (later : Source) :
    (c.followedBy answer later).bump = (c.bump.1, c.bump.2.followedBy answer later)
      ∧ c.bump.2.Textual := by
  obtain ⟨hpeek, htextual⟩ := peek_followedBy h hanswer later 0
  unfold bump current
  rw [hpeek]
  cases hfound : c.peek 0 with
  | mk x c' =>
    rw [hfound] at htextual
    cases x with
    | none => exact ⟨rfl, htextual⟩
    | some x =>
      refine ⟨?_, htextual.advance⟩
      show (some x, (c'.followedBy answer later).advance) = _
      rw [advance_followedBy]

theorem eatWhile_followedBy (h : c.Textual) (hanswer : answer.isStop = true) (later : Source)
    (p : Char → Bool) (taken : List Char) :
    (c.followedBy answer later).eatWhile p taken
        = ((c.eatWhile p taken).1, (c.eatWhile p taken).2.followedBy answer later)
      ∧ (c.eatWhile p taken).2.Textual := by
  fun_induction eatWhile p c taken with
  | case1 c taken x c' hcurrent hx ih =>
    obtain ⟨hpeek, htextual⟩ := peek_followedBy h hanswer later 0
    unfold current at hcurrent
    rw [hcurrent] at hpeek htextual
    rw [eatWhile_of_some hpeek, if_pos hx, advance_followedBy]
    exact ih htextual.advance
  | case2 c taken x c' hcurrent hx =>
    obtain ⟨hpeek, htextual⟩ := peek_followedBy h hanswer later 0
    unfold current at hcurrent
    rw [hcurrent] at hpeek htextual
    rw [eatWhile_of_some hpeek, if_neg hx]
    exact ⟨rfl, htextual⟩
  | case3 c taken c' hcurrent =>
    obtain ⟨hpeek, htextual⟩ := peek_followedBy h hanswer later 0
    unfold current at hcurrent
    rw [hcurrent] at hpeek htextual
    rw [eatWhile_of_none hpeek]
    exact ⟨rfl, htextual⟩

end Cursor

end Prototalk
