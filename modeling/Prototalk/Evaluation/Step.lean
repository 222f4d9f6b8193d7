/-
  Prototalk.Evaluation.Step
  ────────────────────────────────
  **ONE STEP OF A PROGRAM.**

  A chain is walked left to right.  A literal is its object; a separator
  sets the receiver back to the locals; a name is looked up in the receiver,
  or `forward` in its place, and what is found is activated.

  Activating an operation starts it, activating a block that runs when it is
  found starts an activation, and anything else is its own answer.  An
  activation makes a scope, binds the parameters to the arguments, evaluated
  in the sender, sets `self` and `call`, and walks the code in the scope.  A
  `return` ends at the code it was met in.

  Whenever the code of an activation has ended, however it did, its scope is
  let go and a collection runs if one is due.
-/
import Prototalk.Evaluation.Operation

namespace Prototalk.Machine

/-! ## §1. Activations of blocks. -/

/-- Run the code of a block whose parameters are bound. -/
def enterBody (image : Image) (b : Binding) (stack : List Frame) : Machine :=
  let a := b.activation
  let (call, image) :=
    image.alloc (.call ⟨a.locals, a.target, b.block, a.site⟩) [Builtin.call.ref]
  -- set behind the parameters, so that a parameter of the same name gives way
  let image := image.setSlot b.scope image.selfName (b.code.captured.getD a.target)
  let image := image.setSlot b.scope image.callName call
  match b.code.body with
  | some body => ⟨image, .walk (.start body b.scope), .body b.scope :: stack⟩
  | none => ⟨{ image with depth := image.depth - 1 }, .value Builtin.nil.ref, stack⟩

/-- Ask for the value of the next parameter, if there is one. -/
def bindNext (image : Image) (b : Binding) (stack : List Frame) : Machine :=
  match b.params, b.args with
  | [], _ => enterBody image b stack
  | p :: params, [] =>
      ⟨image, .value Builtin.nil.ref, .bind { b with params := params } p :: stack⟩
  | p :: params, arg :: args =>
      ⟨image, .walk (.start arg b.activation.locals),
        .bind { b with params := params, args := args } p :: stack⟩

/-- Activate a block, unless there are too many activations already. -/
def enterBlock (image : Image) (block : Ref) (code : Block) (a : Activation)
    (stack : List Frame) : Machine :=
  if image.maxDepth ≤ image.depth then
    ⟨image, .unwind (.ofFault (.stackOverflow image.maxDepth)), stack⟩
  else
    let (scope, image) := { image with depth := image.depth + 1 }.cloneOf Builtin.object.ref
    bindNext image ⟨block, code, a, scope, code.params, a.args⟩ stack

/-! ## §2. Operations and slots. -/

/-- Give an operation what it asks for. -/
def meet (image : Image) (d : Demand) (a : Activation) (stack : List Frame) : Machine :=
  match d with
  | .answer v => ⟨image, .value v, stack⟩
  | .raise s => ⟨image, .unwind s, stack⟩
  | .argument (some chain) locals pending =>
      ⟨image, .walk (.start chain locals), .native a pending :: stack⟩
  | .argument none _ pending => ⟨image, .value Builtin.nil.ref, .native a pending :: stack⟩
  | .delegate chain locals => ⟨image, .walk (.start chain locals), stack⟩
  | .activate block code => enterBlock image block code a stack

/-- Activate the value of a slot. -/
def activate (image : Image) (slot : Ref) (a : Activation) (stack : List Frame) : Machine :=
  match image.payload slot with
  | .native op =>
      let (image, d) := op.begin image a
      meet image d a stack
  | .block b =>
      if b.activatable then enterBlock image slot b a stack else ⟨image, .value slot, stack⟩
  | _ => ⟨image, .value slot, stack⟩

/-- The slot that answers a message to `receiver`. -/
def findSlot? (image : Image) (receiver : Ref) (n : Name) : Option Ref :=
  match image.lookup? receiver n with
  | some slot => some slot
  | none => image.lookup? receiver image.forwardName

/-- Send the name `n`, which is the next message of a chain. -/
def send (image : Image) (w : Walk) (n : Name) (m : Message) (rest : List Message)
    (stack : List Frame) : Machine :=
  match findSlot? image w.receiver n with
  | some slot =>
      let site : Site := ⟨w.passed, m, rest⟩
      activate image slot ⟨w.receiver, w.locals, site⟩
        (.send w.locals w.receiver w.result slot site :: stack)
  | none =>
      let error := EvalError.ofFault (.slotNotFound (image.names.text n))
      ⟨image, .unwind (.failed (error.withSpan m.span)), stack⟩

/-! ## §3. Chains. -/

/-- Go on behind a message with its answer. -/
def continueWith (image : Image) (w : Walk) (v : Ref) (m : Message) (rest : List Message)
    (stack : List Frame) : Machine :=
  ⟨image, .walk ⟨w.locals, v, v, m :: w.passed, rest⟩, stack⟩

/-- The next message of a chain, or its result. -/
def stepWalk (image : Image) (w : Walk) (stack : List Frame) : Machine :=
  match w.coming with
  | [] => ⟨image, .value w.result, stack⟩
  | m :: rest =>
      match m.symbol with
      | .separator _ =>
          ⟨image, .walk ⟨w.locals, w.locals, w.result, m :: w.passed, rest⟩, stack⟩
      | .number x =>
          let (v, image) := image.literal (.number x.bits)
          continueWith image w v m rest stack
      | .text s =>
          let (v, image) := image.literal (.text s)
          continueWith image w v m rest stack
      | .ident n => send image w n m rest stack

/-! ## §4. Frames. -/

/-- The end of an activation's code: the scope is let go, `kept` stays in use. -/
def leaveBody (image : Image) (kept : List Ref) (stack : List Frame) : Image :=
  -- the scope itself is no longer held, unless the result leads to it
  let image := image.collectIfDue (kept ++ stackRefs stack)
  { image with depth := image.depth - 1 }

/-- Give a result to a frame. -/
def resume (image : Image) (v : Ref) (frame : Frame) (stack : List Frame) : Machine :=
  match frame with
  | .send locals receiver result _ site =>
      continueWith image ⟨locals, receiver, result, site.before, site.after⟩ v site.message
        site.after stack
  | .native a pending =>
      let (image, d) := pending.resume image a v
      meet image d a stack
  | .bind b param => bindNext (image.setSlot b.scope param v) b stack
  | .body _ => ⟨leaveBody image [v] stack, .value v, stack⟩

/-- Leave a frame with a signal. -/
def unwind (image : Image) (s : Signal) (frame : Frame) (stack : List Frame) : Machine :=
  match frame with
  | .send _ _ _ _ site => ⟨image, .unwind (s.withSpanIfError site.message.span), stack⟩
  | .native _ _ => ⟨image, .unwind s, stack⟩
  | .bind _ _ => ⟨{ image with depth := image.depth - 1 }, .unwind s, stack⟩
  | .body _ =>
      let image := leaveBody image s.refs stack
      match s with
      | .returning v => ⟨image, .value v, stack⟩
      | .failed e => ⟨image, .unwind (.failed e), stack⟩

/-- One step; a program that has ended stays as it is. -/
def step (m : Machine) : Machine :=
  match m with
  | ⟨image, .walk w, stack⟩ => stepWalk image w stack
  | ⟨image, .value v, frame :: stack⟩ => resume image v frame stack
  | ⟨image, .unwind s, frame :: stack⟩ => unwind image s frame stack
  | ⟨image, control, []⟩ => ⟨image, control, []⟩

/-- Up to `fuel` steps; nothing if the program has not ended by then. -/
def run : Nat → Machine → Option Machine
  | 0, m => if m.isDone then some m else none
  | fuel + 1, m => if m.isDone then some m else run fuel m.step

end Prototalk.Machine
