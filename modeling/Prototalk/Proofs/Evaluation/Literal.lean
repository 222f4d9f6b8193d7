/-
  Prototalk.Proofs.Evaluation.Literal
  ────────────────────────────────
  **WHAT A PROGRAM DOES TO THE TABLE OF LITERALS.**

  A step that meets a literal asks the image for its object.  No other step
  touches the table:

    • `Machine.literals_step` — without a literal the table stays as it is,
    • `Machine.Meets.lookup_step` — what a literal yields is in the table
      from then on,
    • `Machine.notes_step` — in either case there is at most one new entry.

  Programs get numbers and strings in one more way.  Six operations make
  them, and each answer is a new object (`Native.begin_of_composes`).
-/
import Prototalk.Evaluation.Step
import Prototalk.Proofs.Image.Literal

namespace Prototalk

/-! ## §1. Steps that meet no literal. -/

/-- The literal that a symbol is. -/
def Symbol.constant? : Symbol → Option Constant
  | .number x => some (.number x.bits)
  | .text s => some (.text s)
  | _ => none

section

variable {i : Image} {a : Activation}

theorem literals_blockOfArgs (captured : Option Ref) :
    (blockOfArgs i a captured).1.literals = i.literals := by
  unfold blockOfArgs
  split <;> rfl

theorem ObjectOp.literals_begin (op : ObjectOp) : (op.begin i a).1.literals = i.literals := by
  cases op with
  | makeBlock => exact literals_blockOfArgs (some a.locals)
  | makeMethod => exact literals_blockOfArgs none
  | writeln =>
    unfold begin
    dsimp only
    split <;> rfl
  | _ => rfl

theorem BlockOp.literals_begin (op : BlockOp) : (op.begin i a).1.literals = i.literals := by
  unfold begin
  cases i.payload a.target <;> cases op <;> rfl

theorem CallOp.literals_begin (op : CallOp) : (op.begin i a).1.literals = i.literals := by
  unfold begin
  cases i.payload a.target <;> cases op <;> rfl

theorem literals_siteObject (site : Option Site) : (siteObject i site).1.literals = i.literals := by
  cases site <;> rfl

theorem MessageOp.literals_begin (op : MessageOp) : (op.begin i a).1.literals = i.literals := by
  unfold begin
  cases i.payload a.target with
  | message site =>
    cases op with
    | next => exact literals_siteObject site.next?
    | previous => exact literals_siteObject site.previous?
    | _ => rfl
  | _ => rfl

theorem Native.literals_begin (op : Native) : (op.begin i a).1.literals = i.literals := by
  cases op with
  | object op => exact op.literals_begin
  | block op => exact op.literals_begin
  | call op => exact op.literals_begin
  | message op => exact op.literals_begin

theorem SlotUse.literals_perform (use : SlotUse) (n : Name) :
    (use.perform i a n).1.literals = i.literals := by
  cases use with
  | update =>
    unfold perform
    dsimp only
    split <;> rfl
  | _ => rfl

theorem literals_evalArgAt (x : Binary64) : (evalArgAt i a x).1.literals = i.literals := by
  unfold evalArgAt
  split
  · split <;> rfl
  · rfl

theorem Pending.literals_resume (p : Pending) (v : Ref) :
    (p.resume i a v).1.literals = i.literals := by
  cases p with
  | slotName use =>
    unfold resume
    dsimp only
    cases i.payload v with
    | text s => exact use.literals_perform (i := (i.intern s).2) (i.intern s).1
    | _ => rfl
  | line text coming => cases coming <;> rfl
  | index =>
    unfold resume
    dsimp only
    cases i.payload v with
    | number x => exact literals_evalArgAt x
    | _ => rfl
  | _ => rfl

theorem Image.literals_collectIfDue (i : Image) (inUse : List Ref) :
    (i.collectIfDue inUse).literals = i.literals := by
  unfold collectIfDue
  split <;> rfl

end

namespace Machine

variable {m : Machine} {c : Constant} {r : Ref}

theorem literals_enterBody (i : Image) (b : Binding) (stack : List Frame) :
    (enterBody i b stack).image.literals = i.literals := by
  unfold enterBody
  dsimp only
  cases b.code.body <;> rfl

theorem literals_bindNext (i : Image) (b : Binding) (stack : List Frame) :
    (bindNext i b stack).image.literals = i.literals := by
  unfold bindNext
  split
  · exact literals_enterBody i b stack
  · rfl
  · rfl

theorem literals_enterBlock (i : Image) (block : Ref) (code : Block) (a : Activation)
    (stack : List Frame) : (enterBlock i block code a stack).image.literals = i.literals := by
  unfold enterBlock
  split
  · rfl
  · exact literals_bindNext _ _ stack

theorem literals_meet (i : Image) (d : Demand) (a : Activation) (stack : List Frame) :
    (meet i d a stack).image.literals = i.literals := by
  cases d with
  | argument chain locals pending => cases chain <;> rfl
  | activate block code => exact literals_enterBlock i block code a stack
  | _ => rfl

theorem literals_activate (i : Image) (slot : Ref) (a : Activation) (stack : List Frame) :
    (activate i slot a stack).image.literals = i.literals := by
  unfold activate
  split
  · exact (literals_meet _ _ a stack).trans (Native.literals_begin _)
  · split
    · exact literals_enterBlock i slot _ a stack
    · rfl
  · rfl

theorem literals_send (i : Image) (w : Walk) (n : Name) (msg : Message) (rest : List Message)
    (stack : List Frame) : (send i w n msg rest stack).image.literals = i.literals := by
  unfold send
  split
  · exact literals_activate i _ _ _
  · rfl

theorem literals_leaveBody (i : Image) (kept : List Ref) (stack : List Frame) :
    (leaveBody i kept stack).literals = i.literals :=
  i.literals_collectIfDue _

theorem literals_resume (i : Image) (v : Ref) (frame : Frame) (stack : List Frame) :
    (resume i v frame stack).image.literals = i.literals := by
  cases frame with
  | send => rfl
  | native a pending => exact (literals_meet _ _ a stack).trans (pending.literals_resume v)
  | bind b param => exact literals_bindNext _ b stack
  | body scope => exact literals_leaveBody i [v] stack

theorem literals_unwind (i : Image) (s : Signal) (frame : Frame) (stack : List Frame) :
    (unwind i s frame stack).image.literals = i.literals := by
  cases frame with
  | body scope => cases s <;> exact literals_leaveBody i _ stack
  | _ => rfl

/-! ## §2. Steps that meet a literal. -/

/-- The literal that the next step meets. -/
def literal? (m : Machine) : Option Constant :=
  match m.control with
  | .walk w => w.coming.head?.bind fun msg => msg.symbol.constant?
  | _ => none

/-- The next message is the literal `c`, and the chain goes on behind it with `r`. -/
structure Meets (m : Machine) (c : Constant) (r : Ref) : Prop where
  literal : m.literal? = some c
  yields : ∃ w, m.step.control = .walk w ∧ w.receiver = r ∧ w.result = r

/-- **Only literals are noted.** -/
theorem literals_step (hnone : m.literal? = none) : m.step.image.literals = m.image.literals := by
  obtain ⟨i, control, stack⟩ := m
  cases control with
  | walk w =>
    obtain ⟨locals, receiver, result, passed, coming⟩ := w
    cases coming with
    | nil => rfl
    | cons msg rest =>
      obtain ⟨symbol, args, span⟩ := msg
      cases symbol with
      | separator s => rfl
      | number x => cases hnone
      | text s => cases hnone
      | ident n => exact literals_send i _ n _ rest stack
  | value v =>
    cases stack with
    | nil => rfl
    | cons frame stack => exact literals_resume i v frame stack
  | unwind s =>
    cases stack with
    | nil => rfl
    | cons frame stack => exact literals_unwind i s frame stack

/-- A literal is asked for, and is what the chain goes on with. -/
theorem step_of_literal (hsome : m.literal? = some c) :
    m.step.image = (m.image.literal c).2
      ∧ ∃ w, m.step.control = .walk w ∧ w.receiver = (m.image.literal c).1
        ∧ w.result = (m.image.literal c).1 := by
  obtain ⟨i, control, stack⟩ := m
  cases control with
  | walk w =>
    obtain ⟨locals, receiver, result, passed, coming⟩ := w
    cases coming with
    | nil => cases hsome
    | cons msg rest =>
      obtain ⟨symbol, args, span⟩ := msg
      cases symbol with
      | separator s => cases hsome
      | ident n => cases hsome
      | number x =>
        obtain rfl : Constant.number x.bits = c := Option.some.inj hsome
        exact ⟨rfl, _, rfl, rfl, rfl⟩
      | text s =>
        obtain rfl : Constant.text s = c := Option.some.inj hsome
        exact ⟨rfl, _, rfl, rfl, rfl⟩
  | _ => cases hsome

/-- A literal always yields an object. -/
theorem exists_meets (hsome : m.literal? = some c) : ∃ r, m.Meets c r :=
  ⟨_, hsome, (step_of_literal hsome).2⟩

/-- **What a literal yields is in the table from then on.** -/
theorem Meets.lookup_step (h : m.Meets c r) : m.step.image.literals.lookup c = some r := by
  obtain ⟨himage, w, hcontrol, hreceiver, -⟩ := step_of_literal h.literal
  obtain ⟨w', hcontrol', hr, -⟩ := h.yields
  obtain rfl : w = w' := Control.walk.inj (hcontrol.symm.trans hcontrol')
  rw [himage, ← hr, hreceiver]
  exact Image.lookup_literal m.image c

/-- What a step may do to the table. -/
theorem notes_step (m : Machine) : m.image.Notes m.step.image := by
  cases hliteral : m.literal? with
  | none => exact .same (literals_step hliteral)
  | some c =>
    rw [(step_of_literal hliteral).1]
    exact Image.notes_literal m.image c

end Machine

/-! ## §3. Numbers and strings that are no literals. -/

/-- Whether an operation answers with a number or a string of its own making. -/
def Native.composes : Native → Bool
  | .block .asString | .block .argumentNames => true
  | .call .argCount => true
  | .message .name | .message .argCount | .message .asString => true
  | _ => false

/-- **Operations that make a number or a string make a new one**, unless the receiver is of the
wrong kind. -/
theorem Native.begin_of_composes {op : Native} (hop : op.composes = true) (i : Image)
    (a : Activation) :
    (∃ (c : Constant) (protos : List Ref), op.begin i a
        = ((i.alloc c.payload protos).2, .answer (i.alloc c.payload protos).1))
      ∨ ∃ s, op.begin i a = (i, .raise s) := by
  have htext (s : String) : ∃ (c : Constant) (protos : List Ref),
      ((i.string s).2, Demand.answer (i.string s).1)
        = ((i.alloc c.payload protos).2, .answer (i.alloc c.payload protos).1) :=
    ⟨.text s, [Builtin.string.ref], rfl⟩
  have hnumber (x : Binary64) : ∃ (c : Constant) (protos : List Ref),
      ((i.number x).2, Demand.answer (i.number x).1)
        = ((i.alloc c.payload protos).2, .answer (i.alloc c.payload protos).1) :=
    ⟨.number x.bits, [Builtin.number.ref], rfl⟩
  cases op with
  | object op => cases hop
  | block op =>
    unfold begin BlockOp.begin
    cases i.payload a.target with
    | block b =>
      cases op with
      | asString => exact .inl (htext _)
      | argumentNames => exact .inl (htext _)
      | call => cases hop
      | setIsActivatable => cases hop
    | _ => exact .inr ⟨_, rfl⟩
  | call op =>
    unfold begin CallOp.begin
    cases i.payload a.target with
    | call c =>
      cases op with
      | argCount => exact .inl (hnumber _)
      | _ => cases hop
    | _ => exact .inr ⟨_, rfl⟩
  | message op =>
    unfold begin MessageOp.begin
    cases i.payload a.target with
    | message site =>
      cases op with
      | name => exact .inl (htext _)
      | argCount => exact .inl (hnumber _)
      | asString => exact .inl (htext _)
      | next => cases hop
      | previous => cases hop
    | _ => exact .inr ⟨_, rfl⟩

namespace Machine

variable {m : Machine} {v : Ref} {op : Native}

/-- The operation that the next step starts. -/
def operation? (m : Machine) : Option Native :=
  match m.control with
  | .walk ⟨_, receiver, _, _, ⟨.ident n, _, _⟩ :: _⟩ =>
      match (findSlot? m.image receiver n).map m.image.payload with
      | some (.native op) => some op
      | _ => none
  | _ => none

/-- The next step starts the operation `op`, which answers `v` at once. -/
structure Answers (m : Machine) (op : Native) (v : Ref) : Prop where
  starts : m.operation? = some op
  yields : m.step.control = .value v

/-- The next step sends a message to a slot that holds the operation `op`.  This starts it in the
circumstances `a`, above the frames `stack`, the first of which waits for its answer. -/
inductive Invokes : Machine → Native → Activation → List Frame → Prop where
  | message {i : Image} {w : Walk} {stack : List Frame} {msg : Message} {rest : List Message}
      {n : Name} {slot : Ref} {op : Native} (hcoming : w.coming = msg :: rest)
      (hsymbol : msg.symbol = .ident n) (hslot : findSlot? i w.receiver n = some slot)
      (hpayload : i.payload slot = .native op) :
      Invokes ⟨i, .walk w, stack⟩ op ⟨w.receiver, w.locals, ⟨w.passed, msg, rest⟩⟩
        (.send w.locals w.receiver w.result slot ⟨w.passed, msg, rest⟩ :: stack)

/-- An operation is started by a message to the slot that holds it. -/
theorem exists_invokes (h : m.operation? = some op) : ∃ a stack, m.Invokes op a stack := by
  obtain ⟨i, control, stack⟩ := m
  cases control with
  | walk w =>
    obtain ⟨locals, receiver, result, passed, coming⟩ := w
    cases coming with
    | nil => cases h
    | cons msg rest =>
      obtain ⟨symbol, args, span⟩ := msg
      cases symbol with
      | ident n =>
        unfold operation? at h
        dsimp only at h
        cases hslot : findSlot? i receiver n with
        | none =>
          rw [hslot] at h
          cases h
        | some slot =>
          rw [hslot, Option.map_some] at h
          cases hpayload : i.payload slot with
          | native op' =>
            rw [hpayload] at h
            obtain rfl : op' = op := Option.some.inj h
            exact ⟨_, _, .message rfl rfl hslot hpayload⟩
          | _ =>
            rw [hpayload] at h
            cases h
      | _ => cases h
  | _ => cases h

/-- A step that starts an operation gives it what it asks for first. -/
theorem Invokes.step {a : Activation} {stack : List Frame} (h : m.Invokes op a stack) :
    m.step = meet (op.begin m.image a).1 (op.begin m.image a).2 a stack := by
  cases h with
  | @message i w stack msg rest n slot _ hcoming hsymbol hslot hpayload =>
    have hsend : Machine.step ⟨i, .walk w, stack⟩ = send i w n msg rest stack := by
      show stepWalk i w stack = _
      rw [stepWalk, hcoming]
      dsimp only
      rw [hsymbol]
    rw [hsend, send, hslot]
    dsimp only
    rw [activate, hpayload]

/-- A step that starts an operation meets no literal. -/
theorem literal?_of_operation (h : m.operation? = some op) : m.literal? = none := by
  obtain ⟨a, stack, hcoming, hsymbol, -⟩ := exists_invokes h
  unfold literal?
  dsimp only
  rw [hcoming, List.head?_cons, Option.bind_some, hsymbol]
  rfl

/-- **The answer is new**, and a number or a string. -/
theorem Answers.of_composes (h : m.Answers op v) (hop : op.composes = true) :
    v = ⟨m.image.objects.cells.size⟩ ∧ ∃ c : Constant, m.step.image.payload v = c.payload := by
  obtain ⟨a, stack, hinvokes⟩ := exists_invokes h.starts
  have hstep := hinvokes.step
  have hyields := h.yields
  rw [hstep] at hyields ⊢
  -- it answers, or the receiver is of the wrong kind
  rcases Native.begin_of_composes hop m.image a with ⟨c, protos, hbegin⟩ | ⟨s, hbegin⟩
  · rw [hbegin] at hyields ⊢
    obtain rfl : (m.image.alloc c.payload protos).1 = v := Control.value.inj hyields
    exact ⟨rfl, c, Image.payload_alloc m.image c.payload protos⟩
  · rw [hbegin] at hyields
    cases hyields

end Machine

end Prototalk
