/-
  Prototalk.Token.Lexer
  ────────────────────────────────
  **CUTTING A SOURCE INTO TOKENS.**

  Between tokens, blanks other than the end of a line are skipped.  Tokens
  are read when they are asked for.  A malformed token is the last one, and
  behind the last one there is nothing, however often it is asked for.
-/
import Prototalk.Token.Scan

namespace Prototalk

/-! ## §1. One token after another. -/

/-- A source that is being cut into tokens. -/
structure Lexer (ρ : Type := Unit) where
  /-- What is left of the source. -/
  cursor : Cursor ρ
  /-- The last token was given. -/
  done : Bool

namespace Lexer

variable {ρ : Type}

/-- The start of a source; reads will be added to `record`. -/
def recording (record : ρ) (source : Source) : Lexer ρ := ⟨.recording record source, false⟩

/-- The start of a source. -/
def ofSource (source : Source) : Lexer := recording () source

/-- What is still to be done: nothing after the last token. -/
def remaining (l : Lexer ρ) : Nat := if l.done then 0 else l.cursor.remaining + 1

variable [Record ρ]

/-- The next token, if there is one. -/
def next (l : Lexer ρ) : Option Token × Lexer ρ :=
  if l.done then (none, l)
  else
    let (_, cur) := l.cursor.eatWhile isSpace []
    match cur.current with
    | (some c, cur) =>
        let (token, cur) := scan c cur
        (some token, ⟨cur, token.kind == .malformed⟩)
    | (none, cur) =>
        match cur.faultHere with
        | some e => (some (.malformed "" ⟨.read e, .point cur.offset⟩), ⟨cur, true⟩)
        | none => (none, ⟨cur, true⟩)

/-- A token leaves less to be done. -/
theorem remaining_next_lt {l l' : Lexer ρ} {t : Token} (h : l.next = (some t, l')) :
    l'.remaining < l.remaining := by
  unfold next at h
  split at h
  · cases h
  · rename_i hd
    have he := l.cursor.remaining_eatWhile_le isSpace []
    have hl : l.remaining = l.cursor.remaining + 1 := by simp [remaining, hd]
    dsimp only at h
    split at h
    · rename_i c cur hc
      cases h
      have hs := remaining_scan_lt (Cursor.head?_of_current hc)
      have hr := Cursor.remaining_current_le hc
      rw [hl]
      unfold remaining
      split
      · exact Nat.succ_pos _
      · exact Nat.succ_lt_succ (Nat.lt_of_lt_of_le hs (Nat.le_trans hr he))
    · split at h
      · cases h
        rw [hl]
        simp [remaining]
      · cases h

/-! ## §2. All tokens. -/

/-- The tokens that are left, behind those already given, last one first. -/
def drain (l : Lexer ρ) (given : List Token) : List Token :=
  match _h : l.next with
  | (some t, l') => drain l' (t :: given)
  | (none, _) => given.reverse
termination_by l.remaining
decreasing_by exact remaining_next_lt _h

/-- The tokens that are left. -/
def tokens (l : Lexer ρ) : List Token := l.drain []

/-- What `n` requests for a token give. -/
def pulls : Nat → Lexer ρ → List (Option Token)
  | 0, _ => []
  | n + 1, l =>
      let (t, l) := l.next
      t :: pulls n l

end Lexer

/-- The tokens of a source. -/
def Source.tokens (source : Source) : List Token := (Lexer.ofSource source).tokens

/-- The tokens of a text. -/
def tokenize (text : String) : List Token := (Source.ofString text).tokens

end Prototalk
