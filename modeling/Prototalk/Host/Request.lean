/-
  Prototalk.Host.Request
  ────────────────────────────────
  **WHAT A HOST MAY ASK.**

  Objects are named by strings: the names under which the host keeps them, and
  the names of the built-in ones.
-/
import Prototalk.Evaluation.EvalError
import Prototalk.Host.Draft
import Prototalk.Host.View

namespace Prototalk

/-- Something that the host does. -/
inductive Request where
  /-- Run the program in a text. -/
  | run (text : String)
  /-- Run the program that a source reads. -/
  | runSource (source : Source)
  /-- Evaluate a text in an object. -/
  | evaluate (text locals : String)
  /-- Evaluate code that the host has put together in an object. -/
  | evaluateDraft (draft : Draft Chain) (locals : String)
  /-- Count the objects. -/
  | live
  /-- Collect. -/
  | collect
  /-- Keep an object no longer. -/
  | drop (name : String)
  /-- Compare two objects. -/
  | same (a b : String)
  /-- Look at an object's own slot. -/
  | ownSlot (object slot : String)
  /-- Look a slot up. -/
  | lookup (object slot : String)
  /-- Set a slot. -/
  | setSlot (object slot value : String)
  /-- Add a proto. -/
  | appendProto (object proto : String)
  /-- List the protos. -/
  | protos (object : String)
  /-- Make a number. -/
  | number (x : Binary64)
  /-- Make a string. -/
  | string (s : String)
  /-- The object of a truth value. -/
  | boolean (b : Bool)
  /-- Make an object that delegates to another. -/
  | cloneOf (object : String)
  /-- Make an object that the host has put together, of some `objects`, and that delegates to
  others. -/
  | make (draft : Draft Payload) (objects protos : List String)
  /-- Look at an object closely. -/
  | inspect (object : String)
  /-- Tell a block whether finding it runs it. -/
  | setActivatable (object : String) (flag : Bool)
  /-- Read the output back. -/
  | output
  /-- Empty the output. -/
  | clearOutput
  /-- The limit of activations inside each other. -/
  | maxDepth
  /-- Number of names. -/
  | nameCount
  /-- The name of a text, if it has one. -/
  | nameOf (text : String)

/-- The answer to a request. -/
inductive Reply where
  /-- An object, and what was written meanwhile. -/
  | value (v : View) (printed : String)
  /-- An error, and what was written meanwhile. -/
  | failed (e : EvalError) (printed : String)
  /-- The text does not parse. -/
  | unparsed (e : ParseError)
  /-- Several objects. -/
  | values (vs : List View)
  /-- An object, looked at closely. -/
  | inspected (i : Inspection)
  /-- A number. -/
  | count (n : Nat)
  /-- Yes or no. -/
  | flag (b : Bool)
  /-- Whether two objects are one, and whether they are equal. -/
  | comparison (identical equal : Bool)
  /-- A text. -/
  | text (s : String)
  /-- Nothing to say. -/
  | nothing
  /-- The request names an object that is not there. -/
  | noHandle
  /-- The program did not end in time. -/
  | unfinished

end Prototalk
