/-
  Prototalk.Token.Cursor
  ────────────────────────────────
  **READING A SOURCE WITH LOOKAHEAD.**

  A cursor reads a source only as far as it is asked to look.  Characters
  that were looked at but not taken wait in `ahead`.  The end of the input
  and the first error are final: the source is not read again.  An error
  waits behind the characters in `ahead` and is seen once they are taken.

  A cursor keeps a record of its reads.  There is nothing in it unless the
  reads are watched, and nothing that a cursor does depends on it.
-/
import Prototalk.Source
import Prototalk.Span

namespace Prototalk

/-- Records of the reads of a source. -/
class Record (ρ : Type) where
  /-- The record after one more read: what the source answered, and how many characters wait
  then. -/
  note : ρ → Read → Nat → ρ

/-- The record of a cursor that is not watched. -/
instance : Record Unit := ⟨fun _ _ _ => ()⟩

/-- A position in a source. -/
structure Cursor (ρ : Type := Unit) where
  /-- The answers that further reads will give. -/
  unread : Source
  /-- Characters that were read but not taken. -/
  ahead : List Char
  /-- The source has ended or failed. -/
  exhausted : Bool
  /-- The error that the source failed with. -/
  fault : Option SourceError
  /-- Byte offset of the next character to be taken. -/
  offset : Nat
  /-- What is kept of the reads. -/
  record : ρ

namespace Cursor

variable {ρ : Type}

/-- The start of a source, of which nothing is read yet; reads will be added to `record`. -/
def recording (record : ρ) (source : Source) : Cursor ρ := ⟨source, [], false, none, 0, record⟩

/-- The start of a source, of which nothing is read yet. -/
def ofSource (source : Source) : Cursor := recording () source

/-- Number of answers and characters that may still be taken. -/
def remaining (c : Cursor ρ) : Nat := c.unread.length + c.ahead.length

/-- The error that the source failed with, if every character before it is taken. -/
def faultHere (c : Cursor ρ) : Option SourceError := if c.ahead.isEmpty then c.fault else none

/-! ## §1. Taking what waits. -/

/-- The offset behind a character at `offset`. -/
def offsetAfter (offset : Nat) (x : Char) : Nat := min (offset + x.utf8Size) Span.maxOffset

/-- Take the next of the characters that were looked at. -/
def advance (c : Cursor ρ) : Cursor ρ :=
  match c.ahead with
  | [] => c
  | x :: rest => { c with ahead := rest, offset := offsetAfter c.offset x }

/-- Take several of them. -/
def advanceBy : Nat → Cursor ρ → Cursor ρ
  | 0, c => c
  | n + 1, c => advanceBy n c.advance

theorem ahead_ne_nil {c : Cursor ρ} {x : Char} (h : c.ahead.head? = some x) : c.ahead ≠ [] := by
  rintro hnil
  rw [hnil] at h
  cases h

theorem remaining_advance_le (c : Cursor ρ) : c.advance.remaining ≤ c.remaining := by
  unfold advance remaining
  split <;> simp_all

theorem remaining_advanceBy_le (n : Nat) (c : Cursor ρ) :
    (advanceBy n c).remaining ≤ c.remaining := by
  induction n generalizing c with
  | zero => exact Nat.le_refl _
  | succ n ih => exact Nat.le_trans (ih _) (remaining_advance_le c)

theorem remaining_advance_lt {c : Cursor ρ} {x : Char} (h : c.ahead.head? = some x) :
    c.advance.remaining < c.remaining := by
  obtain ⟨rest, hahead⟩ := List.head?_eq_some_iff.mp h
  unfold advance remaining
  simp [hahead]

section

variable [Record ρ]

/-! ## §2. Looking. -/

/-- Take note of a read. -/
def noted (answer : Read) (c : Cursor ρ) : Cursor ρ :=
  { c with record := Record.note c.record answer c.ahead.length }

/-- Read the source once.  Behind its last answer it has ended. -/
def pull (c : Cursor ρ) : Cursor ρ :=
  match c.unread with
  | [] => noted .endOfInput { c with exhausted := true }
  | .char x :: rest => noted (.char x) { c with unread := rest, ahead := c.ahead ++ [x] }
  | .endOfInput :: rest => noted .endOfInput { c with unread := rest, exhausted := true }
  | .failed e :: rest =>
      noted (.failed e) { c with unread := rest, exhausted := true, fault := some e }

/-- Read the source up to `n` times, as long as it answers with characters. -/
def pullUpTo : Nat → Cursor ρ → Cursor ρ
  | 0, c => c
  | n + 1, c => if c.exhausted then c else pullUpTo n c.pull

/-- Have `count` characters ahead, if the source has them. -/
def fill (c : Cursor ρ) (count : Nat) : Cursor ρ := pullUpTo (count - c.ahead.length) c

/-- The character `n` places ahead, if there is one. -/
def peek (c : Cursor ρ) (n : Nat) : Option Char × Cursor ρ :=
  let c := c.fill (n + 1)
  (c.ahead[n]?, c)

/-- The next character, if there is one. -/
def current (c : Cursor ρ) : Option Char × Cursor ρ := c.peek 0

/-- Whether the characters from `n` places ahead are those of a text.  The first character that
differs ends the search. -/
def matchesFrom : Nat → List Char → Cursor ρ → Bool × Cursor ρ
  | _, [], c => (true, c)
  | n, x :: text, c =>
      match c.peek n with
      | (y, c) => if y == some x then matchesFrom (n + 1) text c else (false, c)

/-- Whether the next characters are those of a text. -/
def lookingAt (c : Cursor ρ) (text : List Char) : Bool × Cursor ρ := matchesFrom 0 text c

/-- Take the next character, if there is one. -/
def bump (c : Cursor ρ) : Option Char × Cursor ρ :=
  match c.current with
  | (some x, c) => (some x, c.advance)
  | (none, c) => (none, c)

/-! ## §3. What waits keeps waiting. -/

@[simp] theorem noted_unit (answer : Read) (c : Cursor) : noted answer c = c := rfl

@[simp] theorem ahead_noted (answer : Read) (c : Cursor ρ) : (noted answer c).ahead = c.ahead := rfl

@[simp] theorem unread_noted (answer : Read) (c : Cursor ρ) :
    (noted answer c).unread = c.unread := rfl

@[simp] theorem exhausted_noted (answer : Read) (c : Cursor ρ) :
    (noted answer c).exhausted = c.exhausted := rfl

@[simp] theorem offset_noted (answer : Read) (c : Cursor ρ) :
    (noted answer c).offset = c.offset := rfl

theorem head?_pull {c : Cursor ρ} {x : Char} (h : c.ahead.head? = some x) :
    c.pull.ahead.head? = some x := by
  unfold pull
  split <;> simp [h]

theorem head?_pullUpTo {n : Nat} {c : Cursor ρ} {x : Char} (h : c.ahead.head? = some x) :
    (pullUpTo n c).ahead.head? = some x := by
  induction n generalizing c with
  | zero => exact h
  | succ n ih =>
    unfold pullUpTo
    split
    · exact h
    · exact ih (head?_pull h)

theorem head?_peek {c : Cursor ρ} {x : Char} (h : c.ahead.head? = some x) (n : Nat) :
    (c.peek n).2.ahead.head? = some x :=
  head?_pullUpTo h

theorem head?_matchesFrom {c : Cursor ρ} {x : Char} (h : c.ahead.head? = some x) (n : Nat)
    (text : List Char) : (matchesFrom n text c).2.ahead.head? = some x := by
  induction text generalizing n c with
  | nil => exact h
  | cons y text ih =>
    simp only [matchesFrom]
    split
    · exact ih (head?_peek h n) _
    · exact head?_peek h n

/-- The character that was looked at waits. -/
theorem head?_of_current {c c' : Cursor ρ} {x : Char} (h : c.current = (some x, c')) :
    c'.ahead.head? = some x := by
  obtain ⟨hseen, rfl⟩ := Prod.mk.inj h
  rw [List.head?_eq_getElem?]
  exact hseen

/-- Where a character waits there is nothing to read. -/
theorem current_of_head? {c : Cursor ρ} {x : Char} (h : c.ahead.head? = some x) :
    c.current = (some x, c) := by
  obtain ⟨rest, hahead⟩ := List.head?_eq_some_iff.mp h
  have hfill : c.fill 1 = c := by
    rw [fill, hahead, List.length_cons, Nat.sub_eq_zero_of_le (Nat.le_add_left 1 _), pullUpTo]
  rw [current, peek, hfill, ← List.head?_eq_getElem?, h]

/-! ## §4. What is left never grows. -/

theorem remaining_pull_le (c : Cursor ρ) : c.pull.remaining ≤ c.remaining := by
  unfold pull
  split
  · exact Nat.le_refl _
  all_goals
    rename_i hunread
    simp only [remaining, unread_noted, ahead_noted, hunread, List.length_append,
      List.length_cons, List.length_nil]
    omega

theorem remaining_pullUpTo_le (n : Nat) (c : Cursor ρ) :
    (pullUpTo n c).remaining ≤ c.remaining := by
  induction n generalizing c with
  | zero => exact Nat.le_refl _
  | succ n ih =>
    unfold pullUpTo
    split
    · exact Nat.le_refl _
    · exact Nat.le_trans (ih _) (remaining_pull_le c)

theorem remaining_peek_le (c : Cursor ρ) (n : Nat) : (c.peek n).2.remaining ≤ c.remaining :=
  remaining_pullUpTo_le _ c

theorem remaining_current_le {c c' : Cursor ρ} {x : Option Char} (h : c.current = (x, c')) :
    c'.remaining ≤ c.remaining := by
  have hp := c.remaining_peek_le 0
  unfold current at h
  rw [h] at hp
  exact hp

theorem remaining_matchesFrom_le (n : Nat) (text : List Char) (c : Cursor ρ) :
    (matchesFrom n text c).2.remaining ≤ c.remaining := by
  induction text generalizing n c with
  | nil => exact Nat.le_refl _
  | cons x text ih =>
    have hp := remaining_peek_le c n
    simp only [matchesFrom]
    split
    · exact Nat.le_trans (ih _ _) hp
    · exact hp

theorem remaining_lookingAt_le {c c' : Cursor ρ} {text : List Char} {found : Bool}
    (h : c.lookingAt text = (found, c')) : c'.remaining ≤ c.remaining := by
  have hm := remaining_matchesFrom_le 0 text c
  unfold lookingAt at h
  rw [h] at hm
  exact hm

theorem remaining_taken_lt {c c' : Cursor ρ} {x : Char} (h : c.current = (some x, c')) :
    c'.advance.remaining < c.remaining :=
  Nat.lt_of_lt_of_le (remaining_advance_lt (head?_of_current h)) (remaining_current_le h)

theorem remaining_bump_lt {c c' : Cursor ρ} {x : Char} (h : c.bump = (some x, c')) :
    c'.remaining < c.remaining := by
  unfold bump at h
  split at h
  · rename_i hc
    cases h
    exact remaining_taken_lt hc
  · cases h

theorem remaining_bump_le (c : Cursor ρ) : c.bump.2.remaining ≤ c.remaining := by
  unfold bump
  split
  · rename_i hc
    exact Nat.le_of_lt (remaining_taken_lt hc)
  · rename_i hc
    exact remaining_current_le hc

/-! ## §5. Runs of characters. -/

/-- Take characters as long as `p` holds, behind those already `taken`, last one first. -/
def eatWhile (p : Char → Bool) (c : Cursor ρ) (taken : List Char) : List Char × Cursor ρ :=
  match _h : c.current with
  | (some x, c') => if p x then eatWhile p c'.advance (x :: taken) else (taken, c')
  | (none, c') => (taken, c')
termination_by c.remaining
decreasing_by exact remaining_taken_lt _h

theorem eatWhile_of_some {p : Char → Bool} {c c' : Cursor ρ} {x : Char}
    (h : c.current = (some x, c')) (taken : List Char) :
    c.eatWhile p taken = if p x then c'.advance.eatWhile p (x :: taken) else (taken, c') := by
  rw [eatWhile]
  split <;> rename_i heq <;> rw [h] at heq <;> cases heq
  rfl

theorem eatWhile_of_none {p : Char → Bool} {c c' : Cursor ρ} (h : c.current = (none, c'))
    (taken : List Char) : c.eatWhile p taken = (taken, c') := by
  rw [eatWhile]
  split <;> rename_i heq <;> rw [h] at heq <;> cases heq
  rfl

theorem remaining_eatWhile_le (p : Char → Bool) (c : Cursor ρ) (taken : List Char) :
    (eatWhile p c taken).2.remaining ≤ c.remaining := by
  fun_induction eatWhile p c taken with
  | case1 c taken x c' h _ ih => exact Nat.le_trans ih (Nat.le_of_lt (remaining_taken_lt h))
  | case2 c taken x c' h _ => exact remaining_current_le h
  | case3 c taken c' h => exact remaining_current_le h

/-- A waiting character of the run is taken first. -/
theorem eatWhile_of_head? {p : Char → Bool} {c : Cursor ρ} {x : Char}
    (h : c.ahead.head? = some x) (hx : p x = true) (taken : List Char) :
    c.eatWhile p taken = c.advance.eatWhile p (x :: taken) := by
  rw [eatWhile_of_some (current_of_head? h), if_pos hx]

/-- A waiting character outside the run ends it. -/
theorem eatWhile_stop {p : Char → Bool} {c : Cursor ρ} {x : Char}
    (h : c.ahead.head? = some x) (hx : p x = false) (taken : List Char) :
    c.eatWhile p taken = (taken, c) := by
  rw [eatWhile_of_some (current_of_head? h), if_neg (by simp [hx])]

theorem remaining_eatWhile_lt {p : Char → Bool} {c : Cursor ρ} {x : Char}
    (h : c.ahead.head? = some x) (hx : p x = true) (taken : List Char) :
    (c.eatWhile p taken).2.remaining < c.remaining := by
  rw [eatWhile_of_head? h hx]
  exact Nat.lt_of_le_of_lt (remaining_eatWhile_le ..) (remaining_advance_lt h)

end

end Cursor

end Prototalk
