/-
  Prototalk.Evaluation.Machine
  ────────────────────────────────
  **THE STATE OF A RUNNING PROGRAM.**

  Evaluation is a machine that takes one small step after another.  Its
  state is the image, what it is doing right now, and a stack of frames,
  each of which waits for the result of what was started above it:

      send      a chain waits for the answer to the message it sent
      native    an operation waits for one of its arguments
      bind      an activation waits for the value of a parameter
      body      an activation waits for the end of its code

  A result goes to the topmost frame; so does a signal, which most frames
  pass on.
-/
import Prototalk.Evaluation.EvalError
import Prototalk.Image.Display

namespace Prototalk

/-- Progress through a chain. -/
structure Walk where
  /-- The object that statements start with and arguments are evaluated in. -/
  locals : Ref
  /-- The object that the next message goes to. -/
  receiver : Ref
  /-- The last result. -/
  result : Ref
  /-- The messages that were sent, last one first. -/
  passed : List Message
  /-- The messages to come. -/
  coming : List Message

namespace Walk

/-- The start of a chain. -/
def start (chain : Chain) (locals : Ref) : Walk := ⟨locals, locals, Builtin.nil.ref, [], chain⟩

/-- The objects that a walk holds. -/
def refs (w : Walk) : List Ref := [w.locals, w.receiver, w.result]

end Walk

/-- The circumstances in which a slot is activated. -/
structure Activation where
  /-- The object that the message was sent to. -/
  target : Ref
  /-- The locals of the sender. -/
  locals : Ref
  /-- The message. -/
  site : Site

namespace Activation

/-- The arguments of the message. -/
def args (a : Activation) : List Chain := a.site.message.args

/-- The objects that an activation holds. -/
def refs (a : Activation) : List Ref := [a.target, a.locals]

end Activation

/-- What is done with a slot once its name is known. -/
inductive SlotUse where
  /-- Set it. -/
  | set
  /-- Set it, if it can be found. -/
  | update
  /-- Answer its value. -/
  | get
  /-- Answer whether it can be found. -/
  | has
  deriving DecidableEq

/-- What an operation does with the argument that it waits for. -/
inductive Pending where
  /-- Return it from the innermost activation. -/
  | returning
  /-- Take it as the name of a slot. -/
  | slotName (use : SlotUse)
  /-- Take it as the value of a slot. -/
  | slotValue (name : Name)
  /-- Delegate to it. -/
  | proto
  /-- Drop it. -/
  | done
  /-- Write it, behind the texts before it; then the arguments to come. -/
  | line (text : String) (coming : List Chain)
  /-- Take it as a flag. -/
  | flag
  /-- Take it as the index of an argument. -/
  | index

/-- Parameters of a block that are being bound. -/
structure Binding where
  /-- The block. -/
  block : Ref
  /-- Its code. -/
  code : Block
  /-- The activation. -/
  activation : Activation
  /-- The object that holds the parameters. -/
  scope : Ref
  /-- The parameters to come. -/
  params : List Name
  /-- The arguments to come. -/
  args : List Chain

namespace Binding

/-- The objects that a binding holds. -/
def refs (b : Binding) : List Ref := b.block :: b.scope :: b.activation.refs

end Binding

/-- Something that waits for a result. -/
inductive Frame where
  /-- A chain, for the answer of the value of `slot` to the message at `site`. -/
  | send (locals receiver result slot : Ref) (site : Site)
  /-- An operation, for an argument. -/
  | native (activation : Activation) (pending : Pending)
  /-- An activation, for the value of the parameter `param`. -/
  | bind (binding : Binding) (param : Name)
  /-- An activation, for the end of its code, which runs in `scope`. -/
  | body (scope : Ref)

namespace Frame

/-- The objects that a frame holds. -/
def refs : Frame → List Ref
  | .send locals receiver result slot _ => [locals, receiver, result, slot]
  | .native activation _ => activation.refs
  | .bind binding _ => binding.refs
  | .body scope => [scope]

end Frame

/-- What the machine is doing. -/
inductive Control where
  /-- It goes through a chain. -/
  | walk (w : Walk)
  /-- It has a result for the topmost frame. -/
  | value (v : Ref)
  /-- It leaves the topmost frame. -/
  | unwind (s : Signal)

/-- A running program. -/
structure Machine where
  /-- The image it runs in. -/
  image : Image
  /-- What it is doing. -/
  control : Control
  /-- What waits for it, innermost first. -/
  stack : List Frame

namespace Machine

/-- The start of a chain. -/
def start (image : Image) (chain : Chain) (locals : Ref) : Machine :=
  ⟨image, .walk (.start chain locals), []⟩

/-- Whether the program has ended. -/
def isDone (m : Machine) : Bool :=
  match m.control, m.stack with
  | .walk _, _ => false
  | _, [] => true
  | _, _ :: _ => false

/-- The objects that a stack of frames holds. -/
def stackRefs (stack : List Frame) : List Ref := stack.flatMap Frame.refs

/-- How the program ended. -/
def result (m : Machine) : Except EvalError Ref :=
  match m.control with
  | .walk w => .ok w.result
  | .value v => .ok v
  | .unwind s => s.toResult

end Machine

end Prototalk
