/-
  Prototalk.Object
  ────────────────────────────────
  **OBJECTS.**

  Everything that exists while a program runs is an object: a table of
  slots, a list of objects to delegate to, and a payload that says what it
  is besides.  Slots and protos change; the payload stays, except that a
  block may be told whether finding it runs it.
-/
import Prototalk.Message.Site
import Prototalk.Name.Interner
import Prototalk.Object.Native

namespace Prototalk

/-- The identity of an object. -/
structure Ref where
  /-- Objects are numbered in the order in which they were made. -/
  index : Nat
  deriving DecidableEq

/-- The object that every image has in this role. -/
def Builtin.ref (b : Builtin) : Ref := ⟨b.index⟩

/-- Code with parameters. -/
structure Block where
  /-- The code, if there is any. -/
  body : Option Chain
  /-- The locals that a closure was made in; a method has none. -/
  captured : Option Ref
  /-- The names of the parameters. -/
  params : List Name
  /-- Finding the block in a slot runs it. -/
  activatable : Bool

namespace Block

/-- A new block; methods run when they are found, closures do not. -/
def new (body : Option Chain) (params : List Name) (captured : Option Ref) : Block :=
  ⟨body, captured, params, captured.isNone⟩

/-- Whether the block works on the object that it is sent to. -/
def isMethod (b : Block) : Bool := b.captured.isNone

end Block

/-- The circumstances of an activation. -/
structure CallRecord where
  /-- The locals of the code that sent the message. -/
  sender : Ref
  /-- The object that the message was sent to. -/
  target : Ref
  /-- The block that was activated. -/
  activated : Ref
  /-- The message. -/
  site : Site

/-- What an object is besides its slots and protos. -/
inductive Payload where
  /-- Nothing more. -/
  | plain
  /-- The absent value. -/
  | nil
  /-- A truth value. -/
  | boolean (b : Bool)
  /-- A number. -/
  | number (x : Binary64)
  /-- A string. -/
  | text (s : String)
  /-- Code. -/
  | block (b : Block)
  /-- A built-in operation. -/
  | native (op : Native)
  /-- An activation. -/
  | call (c : CallRecord)
  /-- A message in its chain. -/
  | message (site : Site)

namespace Payload

/-- Everything but `nil` and `false` counts as true. -/
def isTruthy : Payload → Bool
  | .nil => false
  | .boolean b => b
  | _ => true

/-- The objects that the payload refers to. -/
def refs : Payload → List Ref
  | .block b => b.captured.toList
  | .call c => [c.sender, c.target, c.activated]
  | _ => []

/-- The payload of a block that was told whether finding it runs it. -/
def setActivatable (flag : Bool) : Payload → Payload
  | .block b => .block { b with activatable := flag }
  | p => p

end Payload

/-- An object. -/
structure Object where
  /-- What it is. -/
  payload : Payload
  /-- Its own slots, each name once, oldest first. -/
  slots : List (Name × Ref)
  /-- The objects it delegates to, first one first. -/
  protos : List Ref

namespace Object

/-- An object without slots. -/
def new (payload : Payload) (protos : List Ref) : Object := ⟨payload, [], protos⟩

/-- The value of its own slot. -/
def slot? (o : Object) (n : Name) : Option Ref := o.slots.lookup n

/-- A table of slots with one of them set. -/
def putSlot (n : Name) (v : Ref) : List (Name × Ref) → List (Name × Ref)
  | [] => [(n, v)]
  | (m, w) :: rest => if m = n then (n, v) :: rest else (m, w) :: putSlot n v rest

/-- Set a slot. -/
def setSlot (o : Object) (n : Name) (v : Ref) : Object := { o with slots := putSlot n v o.slots }

/-- Delegate to one more object, after all others. -/
def appendProto (o : Object) (p : Ref) : Object := { o with protos := o.protos ++ [p] }

/-- The objects that it refers to. -/
def refs (o : Object) : List Ref := o.slots.map (·.2) ++ o.protos ++ o.payload.refs

/-- The object without its slots and protos. -/
def cleared (o : Object) : Object := { o with slots := [], protos := [] }

end Object

end Prototalk
