/-
  Prototalk.Name
  ────────────────────────────────
  **SLOT NAMES.**

  Every identifier of a program and every slot of an object is known by a
  number, its position in a table of distinct texts (`Prototalk.Interner`).
  Two names of one table are equal exactly when their texts are.
-/

namespace Prototalk

/-- A slot name: an index into the table of name texts. -/
structure Name where
  /-- Position of the name's text in its table. -/
  index : Nat
  deriving DecidableEq

namespace Name

/-- The name of the empty text, which a bare bracket group `(...)` sends. -/
def empty : Name := ⟨0⟩

/-- A name shown by its index: `Name(7)`. -/
def debugText (n : Name) : String := "Name(" ++ toString n.index ++ ")"

end Name

end Prototalk
