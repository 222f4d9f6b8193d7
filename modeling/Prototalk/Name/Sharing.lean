/-
  Prototalk.Name.Sharing
  ────────────────────────────────
  **ONE TABLE OF NAMES, MANY CALLERS.**

  Callers that share a table take their turns in any order.  Reading the
  table is one turn.  Naming a text may take two: the caller looks the text
  up, and if it has no name yet, the caller comes back to add it.  Others
  may add the same text in between, which is why `InternTable.insert` looks
  again.  Nothing here presumes that the map of the table and its list are
  in step.

      seek      a caller begins to name a text
      insert    a caller that found no name comes back
      get       a caller asks for the name of a text
      tell      a caller asks for the text of a name
      count     a caller asks for the number of texts

  All answers are kept, so that what is true of the table can be compared
  with what callers were told.
-/
import Prototalk.Name.Interner

namespace Prototalk

namespace InternTable

/-- An answer that a caller got. -/
inductive Answer where
  /-- The text was to be named, and this is its name. -/
  | named (text : String) (name : Name)
  /-- The text was to be named, and gets no name. -/
  | refused (text : String) (e : InternError)
  /-- The name of a text, if it has one. -/
  | got (text : String) (name : Option Name)
  /-- The text of a name, if it is a name of the table. -/
  | told (name : Name) (text : Option String)
  /-- The number of texts. -/
  | counted (size : Nat)
  deriving DecidableEq

/-- The answer to a caller that names a text. -/
def Answer.ofResult (text : String) : Except InternError Name → Answer
  | .ok n => .named text n
  | .error e => .refused text e

/-- A turn of one of the callers, who are numbered. -/
inductive Turn where
  /-- Look a text up that is to be named. -/
  | seek (caller : Nat) (text : String)
  /-- Add the text that was looked up in vain. -/
  | insert (caller : Nat)
  /-- Ask for the name of a text. -/
  | get (caller : Nat) (text : String)
  /-- Ask for the text of a name. -/
  | tell (caller : Nat) (name : Name)
  /-- Ask for the number of texts. -/
  | count (caller : Nat)

/-- A table and its callers. -/
structure Shared where
  /-- The table. -/
  table : InternTable
  /-- The texts that callers looked up in vain and have not added yet. -/
  missed : Nat → Option String
  /-- All answers, latest first. -/
  answers : List Answer

namespace Shared

/-- A new table, which nobody has asked anything. -/
def new : Shared := ⟨.new, fun _ => none, []⟩

/-- A new note of what a caller looked up in vain. -/
def note (s : Shared) (caller : Nat) (text : Option String) : Nat → Option String :=
  fun c => if c = caller then text else s.missed c

/-- An answer to a caller that is not about to add a text. -/
def answer? (s : Shared) (caller : Nat) (answer : Answer) : Option Shared :=
  match s.missed caller with
  | none => some { s with answers := answer :: s.answers }
  | some _ => none

/-- The state after a turn, where the turn is possible. -/
def take? (s : Shared) : Turn → Option Shared
  | .seek caller text =>
      match s.missed caller, s.table.get? text with
      | none, some n => some { s with answers := .named text n :: s.answers }
      | none, none => some { s with missed := s.note caller (some text) }
      | some _, _ => none
  | .insert caller =>
      match s.missed caller with
      | none => none
      | some text =>
          let (result, table) := s.table.insert text
          some ⟨table, s.note caller none, .ofResult text result :: s.answers⟩
  | .get caller text => s.answer? caller (.got text (s.table.get? text))
  | .tell caller name => s.answer? caller (.told name (s.table.lookup? name))
  | .count caller => s.answer? caller (.counted s.table.size)

/-- The state after several turns. -/
def run? (s : Shared) (turns : List Turn) : Option Shared := turns.foldlM take? s

end Shared

end InternTable

end Prototalk
