/-
  Prototalk.Evaluation.Operation
  ────────────────────────────────
  **WHAT THE BUILT-IN OPERATIONS DO.**

  Arguments reach an operation unevaluated.  It evaluates those that it
  needs, one at a time, in the locals of the sender: `Native.begin` says what
  an operation does first, `Pending.resume` what it does with an argument
  once that is evaluated.  An argument that is not there counts as `nil`
  where it is not required.
-/
import Prototalk.Evaluation.Machine

namespace Prototalk

/-- What an operation asks for next. -/
inductive Demand where
  /-- Nothing: this is its answer. -/
  | answer (v : Ref)
  /-- To be left with a signal. -/
  | raise (s : Signal)
  /-- The value of a chain; `nil` if there is no chain. -/
  | argument (chain : Option Chain) (locals : Ref) (pending : Pending)
  /-- That a chain answers in its place. -/
  | delegate (chain : Chain) (locals : Ref)
  /-- That a block runs in its place. -/
  | activate (block : Ref) (code : Block)

namespace Activation

/-- The name of the slot that was sent. -/
def slotName (a : Activation) (names : Interner) : String :=
  match a.site.message.name? with
  | some n => names.text n
  | none => ""

/-- Leave with a fault. -/
def fail (fault : EvalFault) : Demand := .raise (.ofFault fault)

/-- Ask for an argument that may be missing. -/
def optional (a : Activation) (index : Nat) (pending : Pending) : Demand :=
  .argument a.args[index]? a.locals pending

/-- Ask for an argument that must be there. -/
def required (a : Activation) (names : Interner) (index : Nat) (pending : Pending) : Demand :=
  match a.args[index]? with
  | some chain => .argument (some chain) a.locals pending
  | none => fail (.missingArgument (a.slotName names) index)

/-- The fault of an argument of the wrong kind. -/
def wrongArgument (a : Activation) (names : Interner) (index : Nat) (expected : Wanted) : Demand :=
  fail (.wrongArgumentType (a.slotName names) index expected)

/-- The fault of a receiver of the wrong kind. -/
def wrongReceiver (a : Activation) (names : Interner) (expected : Wanted) : Demand :=
  fail (.wrongReceiver (a.slotName names) expected)

end Activation

/-! ## §1. Making blocks. -/

/-- The parameters that chains name, or the index of the first that names none. -/
def paramNames (index : Nat) : List Chain → Except Nat (List Name)
  | [] => .ok []
  | c :: rest =>
      match c.bareName? with
      | none => .error index
      | some n =>
          match paramNames (index + 1) rest with
          | .ok ns => .ok (n :: ns)
          | .error i => .error i

/-- Make a block of the arguments of a message: parameters first, the code last. -/
def blockOfArgs (image : Image) (a : Activation) (captured : Option Ref) : Image × Demand :=
  match paramNames 0 a.args.dropLast with
  | .error index => (image, a.wrongArgument image.names index .parameterName)
  | .ok params =>
      let (r, image) := image.block (.new a.args.getLast? params captured)
      (image, .answer r)

/-! ## §2. Starting an operation. -/

/-- Operations of every object. -/
def ObjectOp.begin (op : ObjectOp) (image : Image) (a : Activation) : Image × Demand :=
  match op with
  | .makeBlock => blockOfArgs image a (some a.locals)
  | .makeMethod => blockOfArgs image a none
  | .returnValue => (image, a.optional 0 .returning)
  | .setSlot => (image, a.required image.names 0 (.slotName .set))
  | .updateSlot => (image, a.required image.names 0 (.slotName .update))
  | .getSlot => (image, a.required image.names 0 (.slotName .get))
  | .hasSlot => (image, a.required image.names 0 (.slotName .has))
  | .clone =>
      let (r, image) := image.cloneOf a.target
      (image, .answer r)
  | .appendProto => (image, a.required image.names 0 .proto)
  | .doWithin => (image, .argument a.args[0]? a.target .done)
  | .thisMessage =>
      let (r, image) := image.message a.site
      (image, .answer r)
  | .print => (image.print (image.display a.target), .answer a.target)
  | .println => (image.println (image.display a.target), .answer a.target)
  | .writeln =>
      match a.args with
      | [] => (image.println "", .answer Builtin.nil.ref)
      | c :: rest => (image, .argument (some c) a.locals (.line "" rest))

/-- Operations of blocks. -/
def BlockOp.begin (op : BlockOp) (image : Image) (a : Activation) : Image × Demand :=
  match image.payload a.target with
  | .block b =>
      match op with
      | .call => (image, .activate a.target b)
      | .asString =>
          let (r, image) := image.string (Image.blockText image.names b)
          (image, .answer r)
      | .argumentNames =>
          let text := String.intercalate ", " (b.params.map image.names.text)
          let (r, image) := image.string text
          (image, .answer r)
      | .setIsActivatable => (image, a.optional 0 .flag)
  | _ => (image, a.wrongReceiver image.names .block)

/-- Operations of calls. -/
def CallOp.begin (op : CallOp) (image : Image) (a : Activation) : Image × Demand :=
  match image.payload a.target with
  | .call c =>
      match op with
      | .sender => (image, .answer c.sender)
      | .target => (image, .answer c.target)
      | .message =>
          let (r, image) := image.message c.site
          (image, .answer r)
      | .activated => (image, .answer c.activated)
      | .argCount =>
          let (r, image) := image.number (.ofNat c.site.message.args.length)
          (image, .answer r)
      | .evalArgAt => (image, a.required image.names 0 .index)
  | _ => (image, a.wrongReceiver image.names .call)

/-- The object of a message that may be missing. -/
def siteObject (image : Image) : Option Site → Image × Demand
  | some site =>
      let (r, image) := image.message site
      (image, .answer r)
  | none => (image, .answer Builtin.nil.ref)

/-- Operations of messages. -/
def MessageOp.begin (op : MessageOp) (image : Image) (a : Activation) : Image × Demand :=
  match image.payload a.target with
  | .message site =>
      match op with
      | .name =>
          let text := match site.message.name? with
            | some n => image.names.text n
            | none => site.message.toSource image.names
          let (r, image) := image.string text
          (image, .answer r)
      | .argCount =>
          let (r, image) := image.number (.ofNat site.message.args.length)
          (image, .answer r)
      | .asString =>
          let (r, image) := image.string (site.message.toSource image.names)
          (image, .answer r)
      | .next => siteObject image site.next?
      | .previous => siteObject image site.previous?
  | _ => (image, a.wrongReceiver image.names .message)

/-- What an operation does first. -/
def Native.begin (op : Native) (image : Image) (a : Activation) : Image × Demand :=
  match op with
  | .object op => op.begin image a
  | .block op => op.begin image a
  | .call op => op.begin image a
  | .message op => op.begin image a

/-! ## §3. Going on with an argument. -/

/-- What is done with a slot once its name is known. -/
def SlotUse.perform (use : SlotUse) (image : Image) (a : Activation) (n : Name) : Image × Demand :=
  match use with
  | .set => (image, a.required image.names 1 (.slotValue n))
  | .update =>
      match image.lookup? a.target n with
      | some _ => (image, a.required image.names 1 (.slotValue n))
      | none => (image, Activation.fail (.slotNotFound (image.names.text n)))
  | .get => (image, .answer ((image.lookup? a.target n).getD Builtin.nil.ref))
  | .has => (image, .answer (Image.boolean (image.lookup? a.target n).isSome))

/-- Evaluate the argument of a call that a number names. -/
def evalArgAt (image : Image) (a : Activation) (x : Binary64) : Image × Demand :=
  match image.payload a.target with
  | .call c =>
      match x.asIndex?.bind fun i => c.site.message.args[i]? with
      | some chain => (image, .delegate chain c.sender)
      | none => (image, Activation.fail (.argumentOutOfRange x c.site.message.args.length))
  | _ => (image, a.wrongReceiver image.names .call)

/-- What an operation does with an argument. -/
def Pending.resume (p : Pending) (image : Image) (a : Activation) (v : Ref) : Image × Demand :=
  match p with
  | .returning => (image, .raise (.returning v))
  | .slotName use =>
      match image.payload v with
      | .text s =>
          let (n, image) := image.intern s
          use.perform image a n
      | _ => (image, a.wrongArgument image.names 0 .string)
  | .slotValue n => (image.setSlot a.target n v, .answer v)
  | .proto => (image.appendProto a.target v, .answer a.target)
  | .done => (image, .answer a.target)
  | .line text coming =>
      let text := text ++ image.display v
      match coming with
      | [] => (image.println text, .answer Builtin.nil.ref)
      | c :: rest => (image, .argument (some c) a.locals (.line text rest))
  | .flag => (image.setActivatable a.target (image.payload v).isTruthy, .answer a.target)
  | .index =>
      match image.payload v with
      | .number x => evalArgAt image a x
      | _ => (image, a.wrongArgument image.names 0 .number)

end Prototalk
