/-
  Prototalk.Message.Listing
  ────────────────────────────────
  **TREES OF MESSAGES AS LISTS.**

  The messages of a chain in the order of the source: each one, then the
  messages of its arguments.
-/
import Prototalk.Message

namespace Prototalk

/-- A message as one line of a listing. -/
structure Node where
  /-- Number of argument lists around the message. -/
  depth : Nat
  /-- The message. -/
  message : Message

mutual

/-- The message and everything in its arguments, in the order of the source. -/
def Message.nodes (depth : Nat) : Message → List Node
  | ⟨s, args, span⟩ => ⟨depth, ⟨s, args, span⟩⟩ :: Message.argNodes (depth + 1) args

/-- The messages of a chain, each followed by its arguments. -/
def Chain.nodes (depth : Nat) : List Message → List Node
  | [] => []
  | m :: ms => m.nodes depth ++ Chain.nodes depth ms

/-- The messages of several chains. -/
def Message.argNodes (depth : Nat) : List (List Message) → List Node
  | [] => []
  | a :: as => Chain.nodes depth a ++ Message.argNodes depth as

end

end Prototalk
