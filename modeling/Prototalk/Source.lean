/-
  Prototalk.Source
  ────────────────────────────────
  **WHERE CHARACTERS COME FROM.**

  A source answers one read after another: with a character, with the end of
  the input, or with an error.  It is the list of those answers; past the
  list every answer is the end of the input.

  Text in memory answers with its characters.  Byte streams are sources too
  (`Prototalk.Source.Stream`).
-/

namespace Prototalk

/-- Why a read gave no character. -/
inductive SourceError where
  /-- The stream failed, and said why. -/
  | io (reason : String)
  /-- The bytes from `offset` on are not UTF-8. -/
  | invalidUtf8 (offset : Nat)
  deriving DecidableEq

namespace SourceError

/-- The text of the error. -/
def message : SourceError → String
  | .io reason => "read error: " ++ reason
  | .invalidUtf8 offset => "invalid UTF-8 at byte " ++ toString offset

end SourceError

/-- The answer to one read. -/
inductive Read where
  /-- The next character. -/
  | char (c : Char)
  /-- There is nothing more to read. -/
  | endOfInput
  /-- The read failed. -/
  | failed (e : SourceError)
  deriving DecidableEq

/-- The answers that a source gives, first to last. -/
abbrev Source := List Read

namespace Source

/-- The source that reads a text. -/
def ofChars (text : List Char) : Source := text.map Read.char

/-- The source that reads a string. -/
def ofString (text : String) : Source := ofChars text.toList

/-- The text of a source that answers with characters only. -/
def text? (source : Source) : Option (List Char) :=
  source.mapM fun
    | .char c => some c
    | _ => none

end Source

end Prototalk
