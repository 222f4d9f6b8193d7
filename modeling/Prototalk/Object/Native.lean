/-
  Prototalk.Object.Native
  ────────────────────────────────
  **THE BUILT-IN OPERATIONS AND OBJECTS.**

  The operations that are not written in the language itself, grouped by the
  object whose slots hold them, and the ten objects that every image starts
  with.
-/

namespace Prototalk

/-! ## §1. Operations. -/

/-- Operations that every object has. -/
inductive ObjectOp where
  /-- Make a closure over the sender's locals. -/
  | makeBlock
  /-- Make a method, which works on the object that it is sent to. -/
  | makeMethod
  /-- End the innermost activation with a value. -/
  | returnValue
  /-- Set a slot. -/
  | setSlot
  /-- Set a slot that can already be found. -/
  | updateSlot
  /-- Find a slot without activating its value. -/
  | getSlot
  /-- Ask whether a slot can be found. -/
  | hasSlot
  /-- Make an object that delegates to the receiver. -/
  | clone
  /-- Add an object to delegate to. -/
  | appendProto
  /-- Evaluate with the receiver as locals. -/
  | doWithin
  /-- The message being sent. -/
  | thisMessage
  /-- Write the receiver. -/
  | print
  /-- Write the receiver and end the line. -/
  | println
  /-- Write the arguments and end the line. -/
  | writeln
  deriving DecidableEq

/-- Operations of blocks. -/
inductive BlockOp where
  /-- Run the block. -/
  | call
  /-- The block as source text. -/
  | asString
  /-- The names of the parameters. -/
  | argumentNames
  /-- Set whether finding the block runs it. -/
  | setIsActivatable
  deriving DecidableEq

/-- Operations of calls. -/
inductive CallOp where
  /-- The locals of the sender. -/
  | sender
  /-- The object that the message was sent to. -/
  | target
  /-- The message that was sent. -/
  | message
  /-- The block that runs. -/
  | activated
  /-- Number of arguments at the call. -/
  | argCount
  /-- Evaluate an argument of the call in the sender. -/
  | evalArgAt
  deriving DecidableEq

/-- Operations of messages. -/
inductive MessageOp where
  /-- The slot name, or the text of anything else. -/
  | name
  /-- Number of arguments. -/
  | argCount
  /-- The message as source text. -/
  | asString
  /-- The message behind it. -/
  | next
  /-- The message before it. -/
  | previous
  deriving DecidableEq

/-- A built-in operation. -/
inductive Native where
  /-- Of every object. -/
  | object (op : ObjectOp)
  /-- Of blocks. -/
  | block (op : BlockOp)
  /-- Of calls. -/
  | call (op : CallOp)
  /-- Of messages. -/
  | message (op : MessageOp)
  deriving DecidableEq

namespace Native

/-- The slot that holds the operation. -/
def name : Native → String
  | .object .makeBlock => "block"
  | .object .makeMethod => "method"
  | .object .returnValue => "return"
  | .object .setSlot => "setSlot"
  | .object .updateSlot => "updateSlot"
  | .object .getSlot => "getSlot"
  | .object .hasSlot => "hasSlot"
  | .object .clone => "clone"
  | .object .appendProto => "appendProto"
  | .object .doWithin => "do"
  | .object .thisMessage => "thisMessage"
  | .object .print => "print"
  | .object .println => "println"
  | .object .writeln => "writeln"
  | .block .call => "call"
  | .block .asString => "asString"
  | .block .argumentNames => "argumentNames"
  | .block .setIsActivatable => "setIsActivatable"
  | .call .sender => "sender"
  | .call .target => "target"
  | .call .message => "message"
  | .call .activated => "activated"
  | .call .argCount => "argCount"
  | .call .evalArgAt => "evalArgAt"
  | .message .name => "name"
  | .message .argCount => "argCount"
  | .message .asString => "asString"
  | .message .next => "next"
  | .message .previous => "previous"

/-- All operations, in the order in which an image gets them. -/
def all : List Native :=
  [.object .makeBlock, .object .makeMethod, .object .returnValue, .object .setSlot,
    .object .updateSlot, .object .getSlot, .object .hasSlot, .object .clone, .object .appendProto,
    .object .doWithin, .object .thisMessage, .object .print, .object .println, .object .writeln,
    .block .call, .block .asString, .block .argumentNames, .block .setIsActivatable,
    .call .sender, .call .target, .call .message, .call .activated, .call .argCount,
    .call .evalArgAt,
    .message .name, .message .argCount, .message .asString, .message .next, .message .previous]

end Native

/-! ## §2. Objects. -/

/-- An object that every image starts with. -/
inductive Builtin where
  /-- What everything delegates to. -/
  | object
  /-- Where programs run. -/
  | lobby
  /-- The absent value. -/
  | nil
  /-- The true value. -/
  | yes
  /-- The false value. -/
  | no
  /-- What numbers delegate to. -/
  | number
  /-- What strings delegate to. -/
  | string
  /-- What blocks delegate to. -/
  | block
  /-- What calls delegate to. -/
  | call
  /-- What messages delegate to. -/
  | message
  deriving DecidableEq

namespace Builtin

/-- The slot under which programs find the object. -/
def name : Builtin → String
  | .object => "Object"
  | .lobby => "Lobby"
  | .nil => "nil"
  | .yes => "true"
  | .no => "false"
  | .number => "Number"
  | .string => "String"
  | .block => "Block"
  | .call => "Call"
  | .message => "Message"

/-- All of them, in the order in which an image gets them. -/
def all : List Builtin :=
  [.object, .lobby, .nil, .yes, .no, .number, .string, .block, .call, .message]

/-- Position in that order. -/
def index : Builtin → Nat
  | .object => 0
  | .lobby => 1
  | .nil => 2
  | .yes => 3
  | .no => 4
  | .number => 5
  | .string => 6
  | .block => 7
  | .call => 8
  | .message => 9

end Builtin

/-- The object in whose slots an operation stands. -/
def Native.owner : Native → Builtin
  | .object _ => .object
  | .block _ => .block
  | .call _ => .call
  | .message _ => .message

end Prototalk
