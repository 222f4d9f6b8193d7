/-
  Prototalk.Object.Lookup
  ────────────────────────────────
  **FINDING SLOTS.**

  A slot is looked for in the object itself, then in each of its protos in
  order, with everything behind the proto; the first one found counts.
  Objects may delegate to each other in circles, so an object is searched at
  most once.
-/
import Prototalk.Object.Heap

namespace Prototalk

namespace Heap

/-- Search the objects `todo`, in order, for a slot.  An object without the slot puts its protos in
front of the others; an object that was `visited` is not searched again.  Every round visits an
object, so as many rounds as there are objects are enough. -/
def search (h : Heap) (n : Name) : Nat → List Ref → List Ref → Option Ref
  | 0, _, _ => none
  | rounds + 1, visited, todo =>
      match todo.dropWhile fun r => visited.contains r || (h.get? r).isNone with
      | [] => none
      | r :: rest =>
          match h.ownSlot? r n with
          | some v => some v
          | none => h.search n rounds (r :: visited) (h.protos r ++ rest)

/-- The value of a slot of an object or of what it delegates to: the object itself first, then
each proto in order with everything behind it, and the first one found. -/
def lookup? (h : Heap) (r : Ref) (n : Name) : Option Ref := h.search n (h.cells.size + 1) [] [r]

end Heap

end Prototalk
