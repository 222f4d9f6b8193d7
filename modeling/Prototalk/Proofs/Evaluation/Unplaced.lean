/-
  Prototalk.Proofs.Evaluation.Unplaced
  ────────────────────────────────
  **EVALUATION DOES NOT LOOK AT WHERE MESSAGES STAND.**

  Programs can look at their own code: at messages, at the messages beside
  them, at the text of blocks.  None of that shows places, so a machine
  without places takes the same steps as the machine itself:

    • `Native.begin_unplaced`, `Pending.resume_unplaced` — operations ask for
      the same and do the same,
    • `Machine.step_unplaced` — one step, and `Machine.run_unplaced` — a run.

  An error knows where it was raised, which `EvalError.unplaced` forgets.
-/
import Prototalk.Evaluation.Program
import Prototalk.Proofs.Image.Unplaced

namespace Prototalk

/-! ## §1. Machines without places. -/

/-- The error raised nowhere in particular. -/
def EvalError.unplaced (e : EvalError) : EvalError :=
  { e with span := e.span.map fun _ => .nowhere }

/-- The signal without the place of an error. -/
def Signal.unplaced : Signal → Signal
  | .failed e => .failed e.unplaced
  | .returning v => .returning v

/-- The walk without the places in the source. -/
def Walk.unplaced (w : Walk) : Walk :=
  { w with passed := Chain.unplaced w.passed, coming := Chain.unplaced w.coming }

/-- The activation without the places in the source. -/
def Activation.unplaced (a : Activation) : Activation := { a with site := a.site.unplaced }

/-- What an operation waits for, without the places in the source. -/
def Pending.unplaced : Pending → Pending
  | .line text coming => .line text (coming.map Chain.unplaced)
  | p => p

/-- The binding without the places in the source. -/
def Binding.unplaced (b : Binding) : Binding :=
  { b with
    code := b.code.unplaced
    activation := b.activation.unplaced
    args := b.args.map Chain.unplaced }

/-- The frame without the places in the source. -/
def Frame.unplaced : Frame → Frame
  | .send locals receiver result slot site => .send locals receiver result slot site.unplaced
  | .native activation pending => .native activation.unplaced pending.unplaced
  | .bind binding param => .bind binding.unplaced param
  | .body scope => .body scope

/-- What the machine is doing, without the places in the source. -/
def Control.unplaced : Control → Control
  | .walk w => .walk w.unplaced
  | .value v => .value v
  | .unwind s => .unwind s.unplaced

/-- The machine without the places in the source. -/
def Machine.unplaced (m : Machine) : Machine :=
  ⟨m.image.unplaced, m.control.unplaced, m.stack.map Frame.unplaced⟩

/-- The demand without the places in the source. -/
def Demand.unplaced : Demand → Demand
  | .answer v => .answer v
  | .raise s => .raise s.unplaced
  | .argument chain locals pending => .argument (chain.map Chain.unplaced) locals pending.unplaced
  | .delegate chain locals => .delegate (Chain.unplaced chain) locals
  | .activate block code => .activate block code.unplaced

/-- An image and a demand without the places in the source. -/
abbrev unplacedDemand (x : Image × Demand) : Image × Demand := (x.1.unplaced, x.2.unplaced)

/-! ## §2. Operations. -/

section

variable (i : Image) (a : Activation)

@[simp] theorem Image.names_unplaced : i.unplaced.names = i.names := rfl

namespace Activation

@[simp] theorem args_unplaced : a.unplaced.args = a.args.map Chain.unplaced :=
  a.site.message.args_unplaced

@[simp] theorem slotName_unplaced (names : Interner) :
    a.unplaced.slotName names = a.slotName names := by
  simp [slotName, unplaced, Site.unplaced]

theorem fail_unplaced (fault : EvalFault) : (fail fault).unplaced = fail fault := rfl

theorem optional_unplaced (index : Nat) (pending : Pending) :
    a.unplaced.optional index pending.unplaced = (a.optional index pending).unplaced := by
  simp [optional, Demand.unplaced]
  rfl

theorem required_unplaced (names : Interner) (index : Nat) (pending : Pending) :
    a.unplaced.required names index pending.unplaced
      = (a.required names index pending).unplaced := by
  unfold required
  rw [args_unplaced, List.getElem?_map, slotName_unplaced]
  cases a.args[index]? <;> rfl

theorem wrongArgument_unplaced (names : Interner) (index : Nat) (expected : Wanted) :
    a.unplaced.wrongArgument names index expected
      = (a.wrongArgument names index expected).unplaced := by
  rw [wrongArgument, slotName_unplaced, wrongArgument, fail_unplaced]

theorem wrongReceiver_unplaced (names : Interner) (expected : Wanted) :
    a.unplaced.wrongReceiver names expected = (a.wrongReceiver names expected).unplaced := by
  rw [wrongReceiver, slotName_unplaced, wrongReceiver, fail_unplaced]

end Activation

/-! ### Starting an operation -/

theorem paramNames_unplaced (index : Nat) (chains : List Chain) :
    paramNames index (chains.map Chain.unplaced) = paramNames index chains := by
  induction chains generalizing index with
  | nil => rfl
  | cons c chains ih => simp only [List.map_cons, paramNames, Chain.bareName?_unplaced, ih]

theorem blockOfArgs_unplaced (captured : Option Ref) :
    blockOfArgs i.unplaced a.unplaced captured = unplacedDemand (blockOfArgs i a captured) := by
  unfold blockOfArgs
  rw [Activation.args_unplaced, ← List.map_dropLast, paramNames_unplaced, List.getLast?_map]
  cases paramNames 0 a.args.dropLast with
  | error index => exact congrArg _ (a.wrongArgument_unplaced _ _ _)
  | ok params =>
    have hblock := i.block_unplaced (.new a.args.getLast? params captured)
    rw [show (Block.new a.args.getLast? params captured).unplaced
      = .new (a.args.getLast?.map Chain.unplaced) params captured from rfl] at hblock
    simp only [hblock]
    rfl

theorem ObjectOp.begin_unplaced (op : ObjectOp) :
    op.begin i.unplaced a.unplaced = unplacedDemand (op.begin i a) := by
  cases op with
  | makeBlock => exact blockOfArgs_unplaced i a (some a.locals)
  | makeMethod => exact blockOfArgs_unplaced i a none
  | returnValue => exact congrArg _ (a.optional_unplaced 0 .returning)
  | setSlot => exact congrArg _ (a.required_unplaced i.names 0 (.slotName .set))
  | updateSlot => exact congrArg _ (a.required_unplaced i.names 0 (.slotName .update))
  | getSlot => exact congrArg _ (a.required_unplaced i.names 0 (.slotName .get))
  | hasSlot => exact congrArg _ (a.required_unplaced i.names 0 (.slotName .has))
  | clone =>
    simp only [ObjectOp.begin]
    rw [show a.unplaced.target = a.target from rfl, i.cloneOf_unplaced]
    rfl
  | appendProto => exact congrArg _ (a.required_unplaced i.names 0 .proto)
  | doWithin =>
    simp only [ObjectOp.begin, Activation.args_unplaced, List.getElem?_map]
    rfl
  | thisMessage =>
    simp only [ObjectOp.begin]
    rw [show a.unplaced.site = a.site.unplaced from rfl, i.message_unplaced]
    rfl
  | print =>
    simp only [ObjectOp.begin, Image.display_unplaced]
    rfl
  | println =>
    simp only [ObjectOp.begin, Image.display_unplaced]
    rfl
  | writeln =>
    simp only [ObjectOp.begin, Activation.args_unplaced]
    cases a.args <;> rfl

theorem BlockOp.begin_unplaced (op : BlockOp) :
    op.begin i.unplaced a.unplaced = unplacedDemand (op.begin i a) := by
  unfold BlockOp.begin
  rw [show a.unplaced.target = a.target from rfl, i.payload_unplaced]
  cases i.payload a.target with
  | block b =>
    cases op with
    | call => rfl
    | asString =>
      simp only [Payload.unplaced, Image.names_unplaced, Image.blockText_unplaced,
        i.string_unplaced]
      rfl
    | argumentNames =>
      simp only [Payload.unplaced, Image.names_unplaced, i.string_unplaced]
      rfl
    | setIsActivatable => exact congrArg _ (a.optional_unplaced 0 .flag)
  | _ => exact congrArg _ (a.wrongReceiver_unplaced i.names .block)

theorem CallOp.begin_unplaced (op : CallOp) :
    op.begin i.unplaced a.unplaced = unplacedDemand (op.begin i a) := by
  unfold CallOp.begin
  rw [show a.unplaced.target = a.target from rfl, i.payload_unplaced]
  cases i.payload a.target with
  | call c =>
    cases op with
    | message =>
      simp only [Payload.unplaced, CallRecord.unplaced, i.message_unplaced]
      rfl
    | argCount =>
      simp only [Payload.unplaced, CallRecord.unplaced, Site.unplaced, Message.args_unplaced,
        List.length_map, i.number_unplaced]
      rfl
    | evalArgAt => exact congrArg _ (a.required_unplaced i.names 0 .index)
    | _ => rfl
  | _ => exact congrArg _ (a.wrongReceiver_unplaced i.names .call)

theorem siteObject_unplaced (site : Option Site) :
    siteObject i.unplaced (site.map Site.unplaced) = unplacedDemand (siteObject i site) := by
  cases site with
  | none => rfl
  | some site =>
    simp only [siteObject, Option.map_some, i.message_unplaced]
    rfl

theorem MessageOp.begin_unplaced (op : MessageOp) :
    op.begin i.unplaced a.unplaced = unplacedDemand (op.begin i a) := by
  unfold MessageOp.begin
  rw [show a.unplaced.target = a.target from rfl, i.payload_unplaced]
  cases i.payload a.target with
  | message site =>
    have hmessage : site.unplaced.message = site.message.unplaced := rfl
    cases op with
    | name =>
      simp only [Payload.unplaced, hmessage, Message.name?_unplaced, Message.toSource_unplaced,
        Image.names_unplaced, i.string_unplaced]
      rfl
    | argCount =>
      simp only [Payload.unplaced, hmessage, Message.args_unplaced, List.length_map,
        i.number_unplaced]
      rfl
    | asString =>
      simp only [Payload.unplaced, hmessage, Message.toSource_unplaced, Image.names_unplaced,
        i.string_unplaced]
      rfl
    | next =>
      simp only [Payload.unplaced, Site.next?_unplaced]
      exact siteObject_unplaced i site.next?
    | previous =>
      simp only [Payload.unplaced, Site.previous?_unplaced]
      exact siteObject_unplaced i site.previous?
  | _ => exact congrArg _ (a.wrongReceiver_unplaced i.names .message)

/-- **An operation starts without looking at places.** -/
theorem Native.begin_unplaced (op : Native) :
    op.begin i.unplaced a.unplaced = unplacedDemand (op.begin i a) := by
  cases op with
  | object op => exact op.begin_unplaced i a
  | block op => exact op.begin_unplaced i a
  | call op => exact op.begin_unplaced i a
  | message op => exact op.begin_unplaced i a

/-! ### Going on with an argument -/

theorem SlotUse.perform_unplaced (use : SlotUse) (n : Name) :
    use.perform i.unplaced a.unplaced n = unplacedDemand (use.perform i a n) := by
  have htarget : a.unplaced.target = a.target := rfl
  cases use with
  | set => exact congrArg _ (a.required_unplaced i.names 1 (.slotValue n))
  | update =>
    simp only [SlotUse.perform, htarget, Image.lookup?_unplaced]
    cases i.lookup? a.target n with
    | some v => exact congrArg _ (a.required_unplaced i.names 1 (.slotValue n))
    | none => rfl
  | get =>
    simp only [SlotUse.perform, htarget, Image.lookup?_unplaced]
    rfl
  | has =>
    simp only [SlotUse.perform, htarget, Image.lookup?_unplaced]
    rfl

theorem evalArgAt_unplaced (x : Binary64) :
    evalArgAt i.unplaced a.unplaced x = unplacedDemand (evalArgAt i a x) := by
  unfold evalArgAt
  rw [show a.unplaced.target = a.target from rfl, i.payload_unplaced]
  cases i.payload a.target with
  | call c =>
    have hargs : c.unplaced.site.message.args = c.site.message.args.map Chain.unplaced :=
      c.site.message.args_unplaced
    simp only [Payload.unplaced, hargs, List.getElem?_map, List.length_map]
    cases x.asIndex? with
    | none => rfl
    | some index =>
      simp only [Option.bind_some]
      cases c.site.message.args[index]? <;> rfl
  | _ => exact congrArg _ (a.wrongReceiver_unplaced i.names .call)

/-- **An operation goes on without looking at places.** -/
theorem Pending.resume_unplaced (p : Pending) (v : Ref) :
    p.unplaced.resume i.unplaced a.unplaced v = unplacedDemand (p.resume i a v) := by
  cases p with
  | returning => rfl
  | slotName use =>
    simp only [Pending.unplaced, Pending.resume, i.payload_unplaced]
    cases i.payload v with
    | text s => exact use.perform_unplaced (i.intern s).2 a (i.intern s).1
    | _ => exact congrArg _ (a.wrongArgument_unplaced i.names 0 .string)
  | slotValue n => exact congrArg (·, _) (i.setSlot_unplaced a.target n v)
  | proto => exact congrArg (·, _) (i.appendProto_unplaced a.target v)
  | done => rfl
  | line text coming =>
    simp only [Pending.unplaced, Pending.resume, Image.display_unplaced]
    cases coming <;> rfl
  | flag =>
    simp only [Pending.unplaced, Pending.resume, i.payload_unplaced, Payload.isTruthy_unplaced]
    exact congrArg (·, _) (i.setActivatable_unplaced a.target _)
  | index =>
    simp only [Pending.unplaced, Pending.resume, i.payload_unplaced]
    cases i.payload v with
    | number x => exact evalArgAt_unplaced i a x
    | _ => exact congrArg _ (a.wrongArgument_unplaced i.names 0 .number)

end

/-! ## §3. Steps. -/

namespace Signal

@[simp] theorem refs_unplaced (s : Signal) : s.unplaced.refs = s.refs := by
  cases s <;> rfl

/-- Where an error without a place is put does not matter. -/
theorem withSpanIfError_unplaced (s : Signal) (span : Span) :
    s.unplaced.withSpanIfError .nowhere = (s.withSpanIfError span).unplaced := by
  rcases s with v | ⟨fault, _ | place⟩ <;> rfl

end Signal

@[simp] theorem Frame.refs_unplaced (f : Frame) : f.unplaced.refs = f.refs := by
  cases f <;> rfl

namespace Machine

variable (i : Image) (stack : List Frame) (a : Activation) (b : Binding)

@[simp] theorem stackRefs_unplaced : stackRefs (stack.map Frame.unplaced) = stackRefs stack := by
  simp [stackRefs, List.flatMap_map]

/-! ### Activations of blocks -/

/-- The image in which the code of a block runs: with the call, and with two slots of the scope. -/
def entered (i : Image) (b : Binding) : Image :=
  let a := b.activation
  let (call, image) :=
    i.alloc (.call ⟨a.locals, a.target, b.block, a.site⟩) [Builtin.call.ref]
  let image := image.setSlot b.scope image.selfName (b.code.captured.getD a.target)
  image.setSlot b.scope image.callName call

theorem enterBody_eq : enterBody i b stack =
    match b.code.body with
    | some body => ⟨entered i b, .walk (.start body b.scope), .body b.scope :: stack⟩
    | none =>
        ⟨{ entered i b with depth := (entered i b).depth - 1 }, .value Builtin.nil.ref, stack⟩ :=
  rfl

theorem entered_unplaced : entered i.unplaced b.unplaced = (entered i b).unplaced := by
  have halloc := i.alloc_unplaced (.call ⟨b.activation.locals, b.activation.target, b.block,
    b.activation.site⟩) [Builtin.call.ref]
  unfold entered
  dsimp only [Binding.unplaced, Activation.unplaced]
  dsimp only [Payload.unplaced, CallRecord.unplaced] at halloc
  rw [halloc]
  dsimp only
  rw [← Image.setSlot_unplaced, ← Image.setSlot_unplaced]
  rfl

theorem enterBody_unplaced :
    enterBody i.unplaced b.unplaced (stack.map Frame.unplaced)
      = (enterBody i b stack).unplaced := by
  rw [enterBody_eq, enterBody_eq, entered_unplaced,
    show b.unplaced.code.body = b.code.body.map Chain.unplaced from rfl]
  cases b.code.body <;> rfl

theorem bindNext_unplaced :
    bindNext i.unplaced b.unplaced (stack.map Frame.unplaced) = (bindNext i b stack).unplaced := by
  obtain ⟨block, code, activation, scope, params, args⟩ := b
  cases params with
  | nil => exact enterBody_unplaced i stack _
  | cons p params => cases args <;> rfl

theorem enterBlock_unplaced (block : Ref) (code : Block) :
    enterBlock i.unplaced block code.unplaced a.unplaced (stack.map Frame.unplaced)
      = (enterBlock i block code a stack).unplaced := by
  by_cases hfull : i.maxDepth ≤ i.depth
  · have hfull' : i.unplaced.maxDepth ≤ i.unplaced.depth := hfull
    rw [enterBlock, enterBlock, if_pos hfull, if_pos hfull']
    rfl
  · have hfull' : ¬ i.unplaced.maxDepth ≤ i.unplaced.depth := hfull
    let deeper : Image := { i with depth := i.depth + 1 }
    rw [enterBlock, enterBlock, if_neg hfull, if_neg hfull', Activation.args_unplaced]
    show bindNext (deeper.unplaced.cloneOf Builtin.object.ref).2 ⟨block, code.unplaced, a.unplaced,
      (deeper.unplaced.cloneOf Builtin.object.ref).1, code.params, _⟩ _ = _
    rw [deeper.cloneOf_unplaced]
    exact bindNext_unplaced _ stack ⟨block, code, a, _, code.params, a.args⟩

/-! ### Operations and slots -/

theorem meet_unplaced (d : Demand) :
    meet i.unplaced d.unplaced a.unplaced (stack.map Frame.unplaced)
      = (meet i d a stack).unplaced := by
  cases d with
  | argument chain locals pending => cases chain <;> rfl
  | activate block code => exact enterBlock_unplaced i stack a block code
  | _ => rfl

theorem activate_unplaced (slot : Ref) :
    activate i.unplaced slot a.unplaced (stack.map Frame.unplaced)
      = (activate i slot a stack).unplaced := by
  unfold activate
  rw [i.payload_unplaced]
  cases i.payload slot with
  | native op =>
    simp only [Payload.unplaced, op.begin_unplaced]
    exact meet_unplaced _ stack a _
  | block b =>
    simp only [Payload.unplaced]
    rw [show b.unplaced.activatable = b.activatable from rfl]
    split
    · exact enterBlock_unplaced i stack a slot b
    · rfl
  | _ => rfl

theorem findSlot?_unplaced (receiver : Ref) (n : Name) :
    findSlot? i.unplaced receiver n = findSlot? i receiver n := by
  unfold findSlot?
  rw [i.lookup?_unplaced, i.lookup?_unplaced]
  rfl

theorem send_unplaced (w : Walk) (n : Name) (m : Message) (rest : List Message) :
    send i.unplaced w.unplaced n m.unplaced (Chain.unplaced rest) (stack.map Frame.unplaced)
      = (send i w n m rest stack).unplaced := by
  unfold send
  rw [findSlot?_unplaced, show w.unplaced.receiver = w.receiver from rfl]
  cases findSlot? i w.receiver n with
  | some slot =>
    exact activate_unplaced i (.send w.locals w.receiver w.result slot ⟨w.passed, m, rest⟩ :: stack)
      ⟨w.receiver, w.locals, ⟨w.passed, m, rest⟩⟩ slot
  | none =>
    simp only [Message.span_unplaced]
    rfl

/-! ### Chains and frames -/

theorem stepWalk_unplaced (w : Walk) :
    stepWalk i.unplaced w.unplaced (stack.map Frame.unplaced) = (stepWalk i w stack).unplaced := by
  obtain ⟨locals, receiver, result, passed, coming⟩ := w
  cases coming with
  | nil => rfl
  | cons m rest =>
    show stepWalk i.unplaced ⟨locals, receiver, result, _, m.unplaced :: Chain.unplaced rest⟩ _ = _
    unfold stepWalk
    simp only [Message.symbol_unplaced]
    cases m.symbol with
    | separator mark => rfl
    | number x =>
      simp only [i.literal_unplaced]
      rfl
    | text s =>
      simp only [i.literal_unplaced]
      rfl
    | ident n => exact send_unplaced i stack ⟨locals, receiver, result, passed, m :: rest⟩ n m rest

theorem leaveBody_unplaced (kept : List Ref) :
    leaveBody i.unplaced kept (stack.map Frame.unplaced) = (leaveBody i kept stack).unplaced := by
  unfold leaveBody
  rw [stackRefs_unplaced, i.collectIfDue_unplaced]
  rfl

theorem resume_unplaced (v : Ref) (frame : Frame) :
    resume i.unplaced v frame.unplaced (stack.map Frame.unplaced)
      = (resume i v frame stack).unplaced := by
  cases frame with
  | send locals receiver result slot site => rfl
  | native a pending =>
    simp only [resume, Frame.unplaced, pending.resume_unplaced]
    exact meet_unplaced _ stack a _
  | bind b p =>
    simp only [resume, Frame.unplaced]
    rw [show b.unplaced.scope = b.scope from rfl, i.setSlot_unplaced]
    exact bindNext_unplaced _ stack b
  | body scope =>
    simp only [resume, Frame.unplaced, leaveBody_unplaced]
    rfl

theorem unwind_unplaced (s : Signal) (frame : Frame) :
    unwind i.unplaced s.unplaced frame.unplaced (stack.map Frame.unplaced)
      = (unwind i s frame stack).unplaced := by
  cases frame with
  | send locals receiver result slot site =>
    simp only [unwind, Frame.unplaced, Site.unplaced, Message.span_unplaced]
    rw [s.withSpanIfError_unplaced site.message.span]
    rfl
  | native a pending => rfl
  | bind b p => rfl
  | body scope =>
    simp only [unwind, Frame.unplaced, Signal.refs_unplaced, leaveBody_unplaced]
    cases s <;> rfl

variable (m : Machine)

/-- **A step does not look at places.** -/
theorem step_unplaced : m.unplaced.step = m.step.unplaced := by
  obtain ⟨i, control, stack⟩ := m
  cases control with
  | walk w => exact stepWalk_unplaced i stack w
  | value v =>
    cases stack with
    | nil => rfl
    | cons frame stack => exact resume_unplaced i stack v frame
  | unwind s =>
    cases stack with
    | nil => rfl
    | cons frame stack => exact unwind_unplaced i stack s frame

/-! ## §4. Runs. -/

@[simp] theorem isDone_unplaced : m.unplaced.isDone = m.isDone := by
  obtain ⟨i, control, stack⟩ := m
  cases control <;> cases stack <;> rfl

/-- **A run does not look at places.** -/
theorem run_unplaced (fuel : Nat) : run fuel m.unplaced = (run fuel m).map unplaced := by
  induction fuel generalizing m with
  | zero =>
    rw [run, run, isDone_unplaced]
    split <;> rfl
  | succ fuel ih =>
    rw [run, run, isDone_unplaced, step_unplaced, ih]
    split <;> rfl

end Machine

/-- How a run ended, without the places in the source. -/
def Ran.unplaced (ran : Ran) : Ran := ⟨ran.result.mapError EvalError.unplaced, ran.image.unplaced⟩

theorem Machine.result_unplaced (m : Machine) :
    m.unplaced.result = m.result.mapError EvalError.unplaced := by
  obtain ⟨i, control, stack⟩ := m
  rcases control with w | v | ⟨v⟩ | ⟨e⟩ <;> rfl

namespace Image

variable (i : Image) (fuel : Nat)

theorem resultRefs_mapError (f : EvalError → EvalError) (result : Except EvalError Ref) :
    resultRefs (result.mapError f) = resultRefs result := by
  cases result <;> rfl

theorem evaluate_unplaced (chain : Chain) (locals : Ref) :
    i.unplaced.evaluate fuel (Chain.unplaced chain) locals
      = (i.evaluate fuel chain locals).map Ran.unplaced := by
  have hstart : Machine.start i.unplaced (Chain.unplaced chain) locals
      = (Machine.start i chain locals).unplaced := rfl
  rw [evaluate, evaluate, hstart, Machine.run_unplaced, Option.map_map, Option.map_map]
  refine congrArg (Option.map · _) (funext fun m => ?_)
  simp only [Function.comp_apply, Machine.result_unplaced]
  rfl

/-- **A program does the same wherever its messages, and those in the image, stand.** -/
theorem runChain_unplaced (chain : Chain) :
    i.unplaced.runChain fuel (some (Chain.unplaced chain))
      = (i.runChain fuel (some chain)).map Ran.unplaced := by
  simp only [runChain, evaluate_unplaced, Option.map_map]
  refine congrArg (Option.map · _) (funext fun ran => ?_)
  simp only [Function.comp_apply, Ran.unplaced, resultRefs_mapError, collectIfDue_unplaced]

end Image

end Prototalk
