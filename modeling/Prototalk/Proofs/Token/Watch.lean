/-
  Prototalk.Proofs.Token.Watch
  ────────────────────────────────
  **LEXERS WHOSE READS ARE WATCHED.**

  What a lexer read, and how far it looked ahead on the way, cannot be seen
  in its tokens.  It is in the record of its cursor, if the record keeps
  anything.  Whatever is kept, a lexer does what it does without it
  (`Follows.same`), and on its way a cursor makes two kinds of steps only
  (`Cursor.Step`): it reads a source that has not stopped, with at most two
  characters waiting, or it takes a character (`Follows.goes`).
-/
import Mathlib.Logic.Function.Iterate
import Mathlib.Logic.Relation
import Prototalk.Proofs.Token.Cursor
import Prototalk.Token.Lexer

namespace Prototalk

/-! ## §1. Cursors. -/

namespace Cursor

variable {ρ : Type}

/-- The cursor without its record. -/
def plain (c : Cursor ρ) : Cursor := { c with record := () }

variable [Record ρ]

/-- A read of a source that has not stopped, with room for one more character; or a character is
taken. -/
inductive Step (c : Cursor ρ) : Cursor ρ → Prop where
  | pull (hopen : c.exhausted = false) (hroom : c.ahead.length < 3) : Step c c.pull
  | advance : Step c c.advance

/-- Steps, one after another. -/
def Goes : Cursor ρ → Cursor ρ → Prop := Relation.ReflTransGen Step

theorem Goes.refl (c : Cursor ρ) : Goes c c := Relation.ReflTransGen.refl

theorem Goes.trans {c c' c'' : Cursor ρ} (h : Goes c c') (h' : Goes c' c'') : Goes c c'' :=
  Relation.ReflTransGen.trans h h'

/-- What a watched cursor does: the same as without its record, by steps. -/
structure Follows {α : Type} (c : Cursor ρ) (ran : α × Cursor ρ) (bare : α × Cursor) : Prop where
  same : bare = (ran.1, ran.2.plain)
  goes : Goes c ran.2

section

variable {α : Type} {c c' : Cursor ρ} {ran : α × Cursor ρ} {bare : α × Cursor}

theorem Follows.here (c : Cursor ρ) (x : α) : Follows c (x, c) (x, c.plain) := ⟨rfl, .refl c⟩

theorem Follows.after (hgoes : Goes c c') (h : Follows c' ran bare) : Follows c ran bare :=
  ⟨h.same, hgoes.trans h.goes⟩

end

variable {c : Cursor ρ}

end Cursor

/-! ## §2. Tokens. -/

namespace Lexer

open Cursor

variable {ρ : Type} [Record ρ] {start : Nat} {taken : List Char} {p : Char → Bool}

/-- The lexer without its record. -/
def plain (l : Lexer ρ) : Lexer := ⟨l.cursor.plain, l.done⟩

end Lexer

end Prototalk
