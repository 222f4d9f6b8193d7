/-
  Prototalk.Host.View
  ────────────────────────────────
  **WHAT A HOST SEES OF AN OBJECT.**

  Views hold no references: they are what can be told about an object at one
  moment.
-/
import Prototalk.Object

namespace Prototalk

/-- An object as the host sees it. -/
structure View where
  /-- What it is. -/
  payload : Payload
  /-- The text that programs write for it. -/
  display : String
  /-- The names by which the host knows it: built-in ones first, then those it is kept under. -/
  identities : List String

/-- What a block consists of. -/
structure BlockView where
  /-- It works on the object that it is sent to. -/
  isMethod : Bool
  /-- Finding it runs it. -/
  activatable : Bool
  /-- The names of its parameters. -/
  params : List String
  /-- Its code. -/
  body : Option String
  /-- The locals of a closure. -/
  captured : Option View
  /-- All of it as source text. -/
  source : String

/-- What a call consists of. -/
structure CallView where
  /-- The locals of the sender. -/
  sender : View
  /-- The object that the message was sent to. -/
  target : View
  /-- The block. -/
  activated : View
  /-- The message. -/
  message : String

/-- What is particular to a kind of object. -/
inductive Details where
  /-- Nothing. -/
  | none
  /-- A string. -/
  | text (s : String)
  /-- A block. -/
  | block (b : BlockView)
  /-- A call. -/
  | call (c : CallView)
  /-- A message in its chain. -/
  | message (index siblings : Nat)

/-- An object, looked at closely. -/
structure Inspection where
  /-- The object. -/
  view : View
  /-- The text that shows what it is made of. -/
  debug : String
  /-- It counts as true. -/
  truthy : Bool
  /-- Number of its protos. -/
  protos : Nat
  /-- What is particular to its kind. -/
  details : Details

end Prototalk
