/-
  Prototalk.Object.Collection
  ────────────────────────────────
  **WHEN OBJECTS GO.**

  An object that nothing refers to is gone (`release`), and so is, in turn,
  whatever only it referred to.  Objects that refer to each other in a
  circle stay, and what they refer to stays with them, until a collection:

      1. `tally` counts the references to each object, with and without the
         handles that are held outside the heap;
      2. an object with more references than other objects hold is held from
         outside, and everything it leads to is in use (`mark`);
      3. the rest is garbage: its slots and protos are cleared, which opens
         every circle, and `release` does the rest.

  Payloads are not cleared.  What a payload refers to is older than the
  object, so payloads alone form no circle.
-/
import Prototalk.Object.Heap

namespace Prototalk.Heap

/-! ## §1. Counting references. -/

/-- Count one more reference. -/
def countRef (counts : Array Nat) (r : Ref) : Array Nat := counts.modify r.index (· + 1)

/-- Count the references of an object. -/
def countCell (counts : Array Nat) : Option Object → Array Nat
  | none => counts
  | some o => o.refs.foldl countRef counts

/-- How many of the handles and of the slots, protos and payloads of all objects refer to each
object. -/
def tally (h : Heap) (handles : List Ref) : Array Nat :=
  h.cells.foldl countCell (handles.foldl countRef (Array.replicate h.cells.size 0))

/-! ## §2. Objects that nothing refers to. -/

/-- Count one reference less; an object that has none left is to be released. -/
def uncountRef (state : Array Nat × List Ref) (r : Ref) : Array Nat × List Ref :=
  let (counts, todo) := state
  let left := counts.getD r.index 0 - 1
  (counts.setIfInBounds r.index left, if left = 0 then r :: todo else todo)

/-- Remove the objects `todo`, to which nothing refers, and those that lose their last reference
by it.  Every round removes an object. -/
def releaseFrom : Nat → Array Nat → List Ref → Heap → Heap
  | 0, _, _, h => h
  | _ + 1, _, [], h => h
  | rounds + 1, counts, r :: todo, h =>
      match h.get? r with
      | none => releaseFrom rounds counts todo h
      | some o =>
          -- what the object referred to has lost a reference
          let (counts, todo) := o.refs.foldl uncountRef (counts, todo)
          releaseFrom rounds counts todo (h.erase r)

/-- Remove what neither a handle nor another object refers to. -/
def release (h : Heap) (handles : List Ref) : Heap :=
  let counts := h.tally handles
  let unused := h.refs.filter fun r => counts.getD r.index 0 == 0
  releaseFrom h.cells.size counts unused h

/-- Number of objects that are there. -/
def live (h : Heap) (handles : List Ref) : Nat := (h.release handles).size

/-! ## §3. Objects that are in use. -/

/-- Mark an object that was not marked before, and remember it. -/
def markRef (state : Array Bool × List Ref) (r : Ref) : Array Bool × List Ref :=
  let (marked, pending) := state
  if marked.getD r.index true then (marked, pending)
  else (marked.setIfInBounds r.index true, r :: pending)

/-- Mark what the `pending` objects lead to.  Every round settles an object. -/
def markFrom (h : Heap) : Nat → Array Bool → List Ref → Array Bool
  | 0, marked, _ => marked
  | _ + 1, marked, [] => marked
  | rounds + 1, marked, r :: pending =>
      let next := match h.get? r with
        | none => []
        | some o => o.refs
      let (marked, pending) := next.foldl markRef (marked, pending)
      h.markFrom rounds marked pending

/-- The objects that are referred to more often than by other objects. -/
def roots (h : Heap) (handles : List Ref) : List Ref :=
  let all := h.tally handles
  let internal := h.tally []
  h.refs.filter fun r => internal.getD r.index 0 < all.getD r.index 0

/-- Which objects are in use: the roots and everything they lead to. -/
def mark (h : Heap) (handles : List Ref) : Array Bool :=
  let (marked, pending) :=
    (h.roots handles).foldl markRef (Array.replicate h.cells.size false, [])
  h.markFrom h.cells.size marked pending

/-! ## §4. Collection. -/

/-- The objects that are not in use. -/
def garbage (h : Heap) (handles : List Ref) : List Ref :=
  let marked := h.mark handles
  h.refs.filter fun r => !marked.getD r.index false

/-- Clear the slots and protos of some objects. -/
def clear (h : Heap) (refs : List Ref) : Heap := refs.foldl (fun h r => h.modify r Object.cleared) h

/-- Remove what is not in use; also the number of objects that a circle had kept. -/
def collect (h : Heap) (handles : List Ref) : Nat × Heap :=
  let h := h.release handles
  let unused := h.garbage handles
  (unused.length, { (h.clear unused).release handles with fresh := 0 })

end Prototalk.Heap
