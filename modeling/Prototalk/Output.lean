/-
  Prototalk.Output
  ────────────────────────────────
  **WHERE PROGRAMS WRITE TO.**

  Text goes to the standard output, into a buffer that can be read back, or
  nowhere.
-/

namespace Prototalk

/-- A place to write to. -/
inductive Output where
  /-- The standard output; `written` is for the outside to show. -/
  | standard (written : String)
  /-- A buffer. -/
  | buffer (text : String)
  /-- Nowhere. -/
  | silent

namespace Output

/-- Write a text as it is. -/
def print (o : Output) (text : String) : Output :=
  match o with
  | .standard written => .standard (written ++ text)
  | .buffer buffered => .buffer (buffered ++ text)
  | .silent => .silent

/-- Write a text and end the line. -/
def println (o : Output) (text : String) : Output := (o.print text).print "\n"

/-- What can be read back: the text in the buffer. -/
def contents : Output → String
  | .buffer text => text
  | _ => ""

/-- What was written to the standard output. -/
def written : Output → String
  | .standard text => text
  | _ => ""

/-- Empty the buffer. -/
def clear : Output → Output
  | .buffer _ => .buffer ""
  | o => o

end Output

end Prototalk
