/-
  Prototalk.Object.Heap
  ────────────────────────────────
  **ALL OBJECTS TOGETHER.**

  The heap gives every object a number, in the order in which objects are
  made.  Numbers are not used again: the place of an object that is gone
  stays empty.
-/
import Prototalk.Object

namespace Prototalk

/-- All objects. -/
structure Heap where
  /-- The objects by number; `none` where one is gone. -/
  cells : Array (Option Object)
  /-- Number of objects made since the last collection. -/
  fresh : Nat
  /-- A collection is due when so many were made. -/
  threshold : Nat

namespace Heap

/-- No objects yet. -/
def new (threshold : Nat) : Heap := ⟨#[], 0, threshold⟩

/-- The object with this identity, if it is not gone. -/
def get? (h : Heap) (r : Ref) : Option Object := (h.cells[r.index]?).join

/-- Make an object. -/
def alloc (h : Heap) (o : Object) : Ref × Heap :=
  (⟨h.cells.size⟩, { h with cells := h.cells.push (some o), fresh := h.fresh + 1 })

/-- Change an object. -/
def modify (h : Heap) (r : Ref) (f : Object → Object) : Heap :=
  { h with cells := h.cells.modify r.index (Option.map f) }

/-- Remove an object. -/
def erase (h : Heap) (r : Ref) : Heap :=
  { h with cells := h.cells.setIfInBounds r.index none }

/-- Number of objects. -/
def size (h : Heap) : Nat := h.cells.countP Option.isSome

/-- The identities of all objects, oldest first. -/
def refs (h : Heap) : List Ref :=
  (List.range h.cells.size).filterMap fun i =>
    if (h.get? ⟨i⟩).isSome then some ⟨i⟩ else none

/-- The payload of an object; what is gone is a plain object. -/
def payload (h : Heap) (r : Ref) : Payload :=
  match h.get? r with
  | some o => o.payload
  | none => .plain

/-- The protos of an object. -/
def protos (h : Heap) (r : Ref) : List Ref :=
  match h.get? r with
  | some o => o.protos
  | none => []

/-- The value of an object's own slot. -/
def ownSlot? (h : Heap) (r : Ref) (n : Name) : Option Ref := (h.get? r).bind (·.slot? n)

/-- Set a slot of an object. -/
def setSlot (h : Heap) (r : Ref) (n : Name) (v : Ref) : Heap := h.modify r (·.setSlot n v)

/-- Let an object delegate to one more. -/
def appendProto (h : Heap) (r p : Ref) : Heap := h.modify r (·.appendProto p)

/-- Whether enough objects were made for a collection. -/
def isDue (h : Heap) : Bool := decide (h.threshold ≤ h.fresh)

end Heap

end Prototalk
