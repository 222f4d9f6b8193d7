/-
  Prototalk.Proofs.Evaluation.Limit
  ────────────────────────────────
  **WHAT THE LIMIT OF ACTIVATIONS DOES TO A STEP.**

  The depth of an image counts the activations that wait on the stack, and
  one place looks at it: where a block is about to be activated.

    • `Machine.activates` — the next step activates a block,
    • `Machine.freeStep` — a step that no limit stops,
    • `Machine.frees` — a step under a limit is the free step, if it
      activates no block or is not at the limit yet,
    • `Machine.step_limited_full` — at the limit an activation is a stack
      overflow instead,
    • `Machine.counted_step` — every step keeps the count.
-/
import Mathlib.Logic.Function.Iterate
import Prototalk.Proofs.Evaluation.Unplaced

namespace Prototalk

/-! ## §1. Operations. -/

/-- The image with other counters. -/
def Image.counted (i : Image) (depth maxDepth : Nat) : Image :=
  { i with depth := depth, maxDepth := maxDepth }

/-- Whether a signal says that there are too many activations. -/
def Signal.isOverflow : Signal → Bool
  | .failed ⟨.stackOverflow _, _⟩ => true
  | _ => false

/-- A demand that neither activates a block nor says that there are too many activations. -/
def Demand.Calm : Demand → Prop
  | .raise s => s.isOverflow = false
  | .activate _ _ => False
  | _ => True

/-- The counters neither matter to an operation nor are changed by it. -/
structure Uncounted (f : Image → Image × Demand) (i : Image) : Prop where
  counted : ∀ depth maxDepth,
    f (i.counted depth maxDepth) = ((f i).1.counted depth maxDepth, (f i).2)
  calm : (f i).2.Calm

theorem Uncounted.depth {f : Image → Image × Demand} {i : Image} (h : Uncounted f i) :
    (f i).1.depth = i.depth :=
  congrArg (·.1.depth) (h.counted i.depth i.maxDepth)

section

variable (i : Image) (a : Activation)

theorem Activation.calm_required (names : Interner) (index : Nat) (pending : Pending) :
    (a.required names index pending).Calm := by
  unfold required
  split
  · trivial
  · rfl

theorem uncounted_blockOfArgs (captured : Option Ref) :
    Uncounted (blockOfArgs · a captured) i := by
  constructor
  · intro depth maxDepth
    unfold blockOfArgs
    cases paramNames 0 a.args.dropLast <;> rfl
  · unfold blockOfArgs
    cases paramNames 0 a.args.dropLast with
    | ok params => trivial
    | error index => rfl

theorem ObjectOp.uncounted_begin (op : ObjectOp) : Uncounted (op.begin · a) i := by
  cases op with
  | makeBlock => exact uncounted_blockOfArgs i a (some a.locals)
  | makeMethod => exact uncounted_blockOfArgs i a none
  | setSlot | updateSlot | getSlot | hasSlot | appendProto =>
    exact ⟨fun _ _ => rfl, a.calm_required ..⟩
  | returnValue | clone | doWithin | thisMessage | print | println =>
    exact ⟨fun _ _ => rfl, trivial⟩
  | writeln =>
    unfold ObjectOp.begin
    cases a.args <;> exact ⟨fun _ _ => rfl, trivial⟩

/-- Of the operations of blocks, only `call` activates a block. -/
theorem BlockOp.uncounted_begin (op : BlockOp)
    (hop : op = .call → ∀ b, i.payload a.target ≠ .block b) : Uncounted (op.begin · a) i := by
  have hpayload (depth maxDepth : Nat) :
      (i.counted depth maxDepth).payload a.target = i.payload a.target := rfl
  constructor
  · intro depth maxDepth
    unfold BlockOp.begin
    rw [hpayload]
    cases i.payload a.target <;> cases op <;> rfl
  · unfold BlockOp.begin
    cases hblock : i.payload a.target with
    | block b =>
      cases op with
      | call => exact absurd hblock (hop rfl b)
      | _ => trivial
    | _ => rfl

theorem CallOp.uncounted_begin (op : CallOp) : Uncounted (op.begin · a) i := by
  have hpayload (depth maxDepth : Nat) :
      (i.counted depth maxDepth).payload a.target = i.payload a.target := rfl
  constructor
  · intro depth maxDepth
    unfold CallOp.begin
    rw [hpayload]
    cases i.payload a.target <;> cases op <;> rfl
  · unfold CallOp.begin
    cases i.payload a.target with
    | call c =>
      cases op with
      | evalArgAt => exact a.calm_required ..
      | _ => trivial
    | _ => rfl

theorem uncounted_siteObject (site : Option Site) : Uncounted (siteObject · site) i := by
  cases site <;> exact ⟨fun _ _ => rfl, trivial⟩

theorem MessageOp.uncounted_begin (op : MessageOp) : Uncounted (op.begin · a) i := by
  have hpayload (depth maxDepth : Nat) :
      (i.counted depth maxDepth).payload a.target = i.payload a.target := rfl
  constructor
  · intro depth maxDepth
    unfold MessageOp.begin
    rw [hpayload]
    cases i.payload a.target with
    | message site =>
      cases op with
      | next => exact (uncounted_siteObject i site.next?).counted depth maxDepth
      | previous => exact (uncounted_siteObject i site.previous?).counted depth maxDepth
      | _ => rfl
    | _ => rfl
  · unfold MessageOp.begin
    cases i.payload a.target with
    | message site =>
      cases op with
      | next => exact (uncounted_siteObject i site.next?).calm
      | previous => exact (uncounted_siteObject i site.previous?).calm
      | _ => trivial
    | _ => rfl

theorem Native.uncounted_begin (op : Native)
    (hop : op = .block .call → ∀ b, i.payload a.target ≠ .block b) :
    Uncounted (op.begin · a) i := by
  cases op with
  | object op => exact op.uncounted_begin i a
  | block op => exact op.uncounted_begin i a fun h => hop (by rw [h])
  | call op => exact op.uncounted_begin i a
  | message op => exact op.uncounted_begin i a

theorem SlotUse.uncounted_perform (use : SlotUse) (n : Name) :
    Uncounted (use.perform · a n) i := by
  have hlookup (depth maxDepth : Nat) :
      (i.counted depth maxDepth).lookup? a.target n = i.lookup? a.target n := rfl
  cases use with
  | set => exact ⟨fun _ _ => rfl, a.calm_required ..⟩
  | get | has => exact ⟨fun _ _ => rfl, trivial⟩
  | update =>
    constructor
    · intro depth maxDepth
      unfold SlotUse.perform
      dsimp only
      rw [hlookup]
      cases i.lookup? a.target n <;> rfl
    · unfold SlotUse.perform
      dsimp only
      cases i.lookup? a.target n with
      | none => rfl
      | some _ => exact a.calm_required ..

theorem uncounted_evalArgAt (x : Binary64) : Uncounted (evalArgAt · a x) i := by
  have hpayload (depth maxDepth : Nat) :
      (i.counted depth maxDepth).payload a.target = i.payload a.target := rfl
  constructor
  · intro depth maxDepth
    unfold evalArgAt
    rw [hpayload]
    cases i.payload a.target with
    | call c =>
      dsimp only
      cases x.asIndex?.bind fun index => c.site.message.args[index]? <;> rfl
    | _ => rfl
  · unfold evalArgAt
    cases i.payload a.target with
    | call c =>
      dsimp only
      cases x.asIndex?.bind fun index => c.site.message.args[index]? with
      | some chain => trivial
      | none => rfl
    | _ => rfl

/-- No operation activates a block once it has got an argument. -/
theorem Pending.uncounted_resume (p : Pending) (v : Ref) : Uncounted (p.resume · a v) i := by
  have hpayload (depth maxDepth : Nat) :
      (i.counted depth maxDepth).payload v = i.payload v := rfl
  cases p with
  | returning => exact ⟨fun _ _ => rfl, rfl⟩
  | slotValue n => exact ⟨fun _ _ => rfl, trivial⟩
  | proto | done | flag => exact ⟨fun _ _ => rfl, trivial⟩
  | line text coming => cases coming <;> exact ⟨fun _ _ => rfl, trivial⟩
  | slotName use =>
    constructor
    · intro depth maxDepth
      unfold Pending.resume
      dsimp only
      rw [hpayload]
      cases i.payload v with
      | text s =>
        exact (use.uncounted_perform (i.intern s).2 a (i.intern s).1).counted depth maxDepth
      | _ => rfl
    · unfold Pending.resume
      dsimp only
      cases i.payload v with
      | text s => exact (use.uncounted_perform (i.intern s).2 a (i.intern s).1).calm
      | _ => rfl
  | index =>
    constructor
    · intro depth maxDepth
      unfold Pending.resume
      dsimp only
      rw [hpayload]
      cases i.payload v with
      | number x => exact (uncounted_evalArgAt i a x).counted depth maxDepth
      | _ => rfl
    · unfold Pending.resume
      dsimp only
      cases i.payload v with
      | number x => exact (uncounted_evalArgAt i a x).calm
      | _ => rfl

end

/-! ## §2. Machines. -/

/-- The image with another limit. -/
def Image.limited (i : Image) (n : Nat) : Image := i.counted i.depth n

/-- The frame belongs to an activation that has not ended. -/
def Frame.isActivation : Frame → Bool
  | .bind _ _ | .body _ => true
  | _ => false

/-- Number of activations that wait on a stack. -/
def waiting (stack : List Frame) : Nat := stack.countP Frame.isActivation

@[simp] theorem waiting_send (locals receiver result slot : Ref) (site : Site)
    (stack : List Frame) :
    waiting (.send locals receiver result slot site :: stack) = waiting stack :=
  List.countP_cons_of_neg (by simp [Frame.isActivation])

@[simp] theorem waiting_native (a : Activation) (pending : Pending) (stack : List Frame) :
    waiting (.native a pending :: stack) = waiting stack :=
  List.countP_cons_of_neg (by simp [Frame.isActivation])

@[simp] theorem waiting_bind (b : Binding) (param : Name) (stack : List Frame) :
    waiting (.bind b param :: stack) = waiting stack + 1 :=
  List.countP_cons_of_pos rfl

@[simp] theorem waiting_body (scope : Ref) (stack : List Frame) :
    waiting (.body scope :: stack) = waiting stack + 1 :=
  List.countP_cons_of_pos rfl

/-- The machine is not about to end with too many activations. -/
def Control.Calm : Control → Prop
  | .unwind s => s.isOverflow = false
  | _ => True

/-- Activating the value of `slot` in `target` activates a block. -/
def Image.runsBlock (i : Image) (slot target : Ref) : Bool :=
  match i.payload slot, i.payload target with
  | .block b, _ => b.activatable
  | .native (.block .call), .block _ => true
  | _, _ => false

namespace Machine

/-- The machine with another limit. -/
def limited (m : Machine) (n : Nat) : Machine := { m with image := m.image.limited n }

/-- Whether the next step activates a block. -/
def activates (m : Machine) : Bool :=
  match m.control with
  | .walk ⟨_, receiver, _, _, ⟨.ident n, _, _⟩ :: _⟩ =>
      (findSlot? m.image receiver n).any fun slot => m.image.runsBlock slot receiver
  | _ => false

/-- Number of activations in progress while the next step is taken. -/
def inProgress (m : Machine) : Nat := waiting m.stack + m.activates.toNat

/-- A step that no limit stops. -/
def freeStep (m : Machine) : Machine := (m.limited (m.image.depth + 1)).step

/-- The depth counts the activations that wait, from `base` on. -/
def Counted (base : Nat) (m : Machine) : Prop := m.image.depth = base + waiting m.stack

variable {base n limit : Nat} {i : Image} {m : Machine} {stack : List Frame}

/-- What a part of a step does that starts with the control `c`: the limit does not matter to it, it
raises no overflow, it keeps the count, and no more than `limit` activations wait afterwards. -/
structure Steady (base limit : Nat) (c : Control) (g : Image → Machine) (i : Image) : Prop where
  limited : ∀ n, g (i.limited n) = (g i).limited n
  calm : c.Calm → (g i).control.Calm
  counted : (g i).Counted base
  waiting_le : waiting (g i).stack ≤ limit

theorem Steady.congr {c : Control} {g g' : Image → Machine} (h : Steady base limit c g i)
    (heq : ∀ n, g' (i.limited n) = g (i.limited n)) : Steady base limit c g' i := by
  have hhere : g' i = g i := heq i.maxDepth
  constructor
  · intro n
    rw [heq, hhere]
    exact h.limited n
  all_goals rw [hhere]
  · exact h.calm
  · exact h.counted
  · exact h.waiting_le

/-- Only the control changes. -/
theorem steady_stay {c : Control} (next : Control) (hcalm : c.Calm → next.Calm)
    (hdepth : i.depth = base + waiting stack) :
    Steady base (waiting stack) c (fun i => ⟨i, next, stack⟩) i :=
  ⟨fun _ => rfl, hcalm, hdepth, Nat.le_refl _⟩

/-! ## §3. Activations of blocks. -/

variable {c : Control}

theorem steady_enterBody (b : Binding) (hdepth : i.depth = base + waiting stack + 1) :
    Steady base (waiting stack + 1) c (enterBody · b stack) i := by
  have hentered : (entered i b).depth = i.depth := rfl
  constructor
  · intro n
    rw [enterBody_eq, enterBody_eq]
    cases b.code.body <;> rfl
  all_goals rw [enterBody_eq]
  all_goals cases b.code.body
  · exact fun _ => trivial
  · exact fun _ => trivial
  · -- an activation without code has ended
    show (entered i b).depth - 1 = base + waiting stack
    omega
  · show (entered i b).depth = base + waiting (.body b.scope :: stack)
    rw [waiting_body]
    omega
  · exact Nat.le_succ _
  · exact Nat.le_of_eq (waiting_body ..)

theorem steady_bindNext (b : Binding) (hdepth : i.depth = base + waiting stack + 1) :
    Steady base (waiting stack + 1) c (bindNext · b stack) i := by
  obtain ⟨block, code, activation, scope, params, args⟩ := b
  cases params with
  | nil => exact steady_enterBody _ hdepth
  | cons p params =>
    have hcount (rest : Binding) : i.depth = base + waiting (.bind rest p :: stack) := by
      rw [waiting_bind]
      omega
    cases args with
    | nil => exact ⟨fun _ => rfl, fun _ => trivial, hcount _, Nat.le_of_eq (waiting_bind ..)⟩
    | cons arg args =>
      exact ⟨fun _ => rfl, fun _ => trivial, hcount _, Nat.le_of_eq (waiting_bind ..)⟩

/-- Below the limit the parameters are bound one activation deeper. -/
theorem enterBlock_of_lt (block : Ref) (code : Block) (a : Activation) (h : i.depth < i.maxDepth) :
    let opened := (i.counted (i.depth + 1) i.maxDepth).cloneOf Builtin.object.ref
    enterBlock i block code a stack
      = bindNext opened.2 ⟨block, code, a, opened.1, code.params, a.args⟩ stack := by
  rw [enterBlock, if_neg (by omega)]
  rfl

theorem enterBlock_of_le (block : Ref) (code : Block) (a : Activation) (h : i.maxDepth ≤ i.depth) :
    enterBlock i block code a stack
      = ⟨i, .unwind (.ofFault (.stackOverflow i.maxDepth)), stack⟩ :=
  if_pos h

/-- All limits that are not reached give the same activation. -/
theorem free_enterBlock (block : Ref) (code : Block) (a : Activation)
    (hdepth : i.depth = base + waiting stack) (hfree : i.depth < i.maxDepth) :
    (∀ n, i.depth < n →
      enterBlock (i.limited n) block code a stack = (enterBlock i block code a stack).limited n)
    ∧ (enterBlock i block code a stack).control.Calm
    ∧ (enterBlock i block code a stack).Counted base
    ∧ waiting (enterBlock i block code a stack).stack ≤ waiting stack + 1 := by
  let opened := (i.counted (i.depth + 1) i.maxDepth).cloneOf Builtin.object.ref
  have hopened : opened.2.depth = base + waiting stack + 1 := by
    show i.depth + 1 = _
    omega
  obtain ⟨hlimited, hcalm, hcounted, hle⟩ := steady_bindNext (c := .value block)
    ⟨block, code, a, opened.1, code.params, a.args⟩ hopened
  rw [enterBlock_of_lt block code a hfree]
  refine ⟨?_, hcalm trivial, hcounted, hle⟩
  intro n hn
  rw [enterBlock_of_lt (i := i.limited n) block code a hn]
  exact hlimited n

/-! ## §4. Operations and slots. -/

theorem steady_meet {d : Demand} (hd : d.Calm) (a : Activation)
    (hdepth : i.depth = base + waiting stack) :
    Steady base (waiting stack) c (meet · d a stack) i := by
  have hpushed (pending : Pending) : i.depth = base + waiting (.native a pending :: stack) := by
    rw [waiting_native]
    exact hdepth
  cases d with
  | answer v => exact steady_stay _ (fun _ => trivial) hdepth
  | raise s => exact steady_stay _ (fun _ => hd) hdepth
  | argument chain locals pending =>
    have hle : waiting (.native a pending :: stack) ≤ waiting stack :=
      Nat.le_of_eq (waiting_native ..)
    cases chain with
    | none => exact ⟨fun _ => rfl, fun _ => trivial, hpushed pending, hle⟩
    | some chain => exact ⟨fun _ => rfl, fun _ => trivial, hpushed pending, hle⟩
  | delegate chain locals => exact steady_stay _ (fun _ => trivial) hdepth
  | activate block code => exact hd.elim

/-- An operation and what it asks for. -/
theorem steady_operation {f : Image → Image × Demand} (hf : Uncounted f i) (a : Activation)
    (hdepth : i.depth = base + waiting stack) :
    Steady base (waiting stack) c (fun i => meet (f i).1 (f i).2 a stack) i := by
  obtain ⟨hlimited, hcalm, hcounted, hle⟩ :=
    steady_meet (i := (f i).1) (c := c) hf.calm a (hf.depth.trans hdepth)
  refine ⟨fun n => ?_, hcalm, hcounted, hle⟩
  have hsame : f (i.limited n) = ((f i).1.limited n, (f i).2) := by
    rw [Image.limited, hf.counted, Image.limited, hf.depth]
  show meet (f (i.limited n)).1 (f (i.limited n)).2 a stack = _
  rw [hsame]
  exact hlimited n

theorem steady_activate {slot : Ref} {a : Activation} (h : i.runsBlock slot a.target = false)
    (hdepth : i.depth = base + waiting stack) :
    Steady base (waiting stack) c (activate · slot a stack) i := by
  have hpayload (n : Nat) : (i.limited n).payload slot = i.payload slot := rfl
  have hplain (hslot : ∀ n,
      activate (i.limited n) slot a stack = ⟨i.limited n, .value slot, stack⟩) :
      Steady base (waiting stack) c (activate · slot a stack) i :=
    (steady_stay (.value slot) (fun _ => trivial) hdepth).congr hslot
  cases hslot : i.payload slot with
  | native op =>
    have hop : op = .block .call → ∀ b, i.payload a.target ≠ .block b := by
      rintro rfl b htarget
      simp [Image.runsBlock, hslot, htarget] at h
    refine (steady_operation (op.uncounted_begin i a hop) a hdepth).congr fun n => ?_
    rw [activate, hpayload, hslot]
  | block b =>
    have hb : b.activatable = false := by simpa [Image.runsBlock, hslot] using h
    refine hplain fun n => ?_
    rw [activate, hpayload, hslot]
    dsimp only
    rw [hb]
    rfl
  | _ =>
    refine hplain fun n => ?_
    rw [activate, hpayload, hslot]

/-! ## §5. Chains. -/

theorem literal_counted (i : Image) (constant : Constant) (depth maxDepth : Nat) :
    (i.counted depth maxDepth).literal constant
      = ((i.literal constant).1, (i.literal constant).2.counted depth maxDepth) := by
  have hknown : (i.counted depth maxDepth).literals = i.literals := rfl
  unfold Image.literal
  rw [hknown]
  cases i.literals.lookup constant with
  | some r => rfl
  | none => cases constant <;> rfl

theorem steady_literal (constant : Constant) (w : Walk) (m : Message) (rest : List Message)
    (hdepth : i.depth = base + waiting stack) :
    Steady base (waiting stack) c
      (fun i => continueWith (i.literal constant).2 w (i.literal constant).1 m rest stack) i := by
  have hkept : (i.literal constant).2.depth = i.depth :=
    congrArg (·.2.depth) (literal_counted i constant i.depth i.maxDepth)
  refine ⟨fun n => ?_, fun _ => trivial, hkept.trans hdepth, Nat.le_refl _⟩
  show continueWith ((i.limited n).literal constant).2 w ((i.limited n).literal constant).1 m rest
    stack = _
  rw [Image.limited, literal_counted, ← hkept]
  rfl

theorem steady_stepWalk {w : Walk} (h : activates ⟨i, .walk w, stack⟩ = false)
    (hdepth : i.depth = base + waiting stack) :
    Steady base (waiting stack) c (stepWalk · w stack) i := by
  obtain ⟨locals, receiver, result, passed, coming⟩ := w
  cases coming with
  | nil => exact steady_stay _ (fun _ => trivial) hdepth
  | cons m rest =>
    obtain ⟨symbol, args, span⟩ := m
    cases symbol with
    | separator s => exact steady_stay _ (fun _ => trivial) hdepth
    | number x => exact steady_literal (.number x.bits) _ _ rest hdepth
    | text s => exact steady_literal (.text s) _ _ rest hdepth
    | ident n =>
      have hfind (k : Nat) : findSlot? (i.limited k) receiver n = findSlot? i receiver n := rfl
      cases hslot : findSlot? i receiver n with
      | none =>
        let missing : Control :=
          .unwind (.failed ((EvalError.ofFault (.slotNotFound (i.names.text n))).withSpan span))
        refine (steady_stay missing (fun _ => rfl) hdepth).congr fun k => ?_
        show send (i.limited k) _ n _ rest stack = _
        rw [send, hfind, hslot]
        rfl
      | some slot =>
        have hruns : i.runsBlock slot receiver = false := by
          simpa [activates, hslot] using h
        let site : Site := ⟨passed, ⟨.ident n, args, span⟩, rest⟩
        have hsent :
            i.depth = base + waiting (.send locals receiver result slot site :: stack) := by
          rw [waiting_send]
          exact hdepth
        have hsteady := steady_activate (c := c) (a := ⟨receiver, locals, site⟩) hruns hsent
        rw [waiting_send] at hsteady
        refine hsteady.congr fun k => ?_
        show send (i.limited k) _ n _ rest stack = _
        rw [send, hfind, hslot]

/-! ## §6. Frames. -/

theorem collectIfDue_counted (i : Image) (inUse : List Ref) (depth maxDepth : Nat) :
    (i.counted depth maxDepth).collectIfDue inUse
      = (i.collectIfDue inUse).counted depth maxDepth := by
  have hdue : (i.counted depth maxDepth).objects.isDue = i.objects.isDue := rfl
  unfold Image.collectIfDue
  rw [hdue]
  cases i.objects.isDue <;> rfl

theorem depth_collectIfDue (i : Image) (inUse : List Ref) :
    (i.collectIfDue inUse).depth = i.depth :=
  congrArg (·.depth) (collectIfDue_counted i inUse i.depth i.maxDepth)

theorem leaveBody_limited (i : Image) (kept : List Ref) (stack : List Frame) (n : Nat) :
    leaveBody (i.limited n) kept stack = (leaveBody i kept stack).limited n := by
  unfold leaveBody
  rw [Image.limited, collectIfDue_counted]
  dsimp only [Image.limited, Image.counted]
  rw [depth_collectIfDue]

theorem depth_leaveBody (i : Image) (kept : List Ref) (stack : List Frame) :
    (leaveBody i kept stack).depth = i.depth - 1 := by
  unfold leaveBody
  dsimp only
  rw [depth_collectIfDue]

theorem steady_leaveBody (kept : List Ref) (next : Control) (hcalm : c.Calm → next.Calm)
    (hdepth : i.depth = base + waiting stack + 1) :
    Steady base (waiting stack) c (fun i => ⟨leaveBody i kept stack, next, stack⟩) i := by
  refine ⟨fun n => ?_, hcalm, ?_, Nat.le_refl _⟩
  · show (⟨leaveBody (i.limited n) kept stack, next, stack⟩ : Machine) = _
    rw [leaveBody_limited]
    rfl
  · show (leaveBody i kept stack).depth = base + waiting stack
    rw [depth_leaveBody]
    omega

theorem Steady.mono {g : Image → Machine} {more : Nat} (h : Steady base limit c g i)
    (hle : limit ≤ more) : Steady base more c g i :=
  ⟨h.limited, h.calm, h.counted, Nat.le_trans h.waiting_le hle⟩

theorem steady_resume (v : Ref) (frame : Frame)
    (hdepth : i.depth = base + waiting (frame :: stack)) :
    Steady base (waiting (frame :: stack)) c (resume · v frame stack) i := by
  cases frame with
  | send locals receiver result slot site =>
    rw [waiting_send] at hdepth ⊢
    exact steady_stay _ (fun _ => trivial) hdepth
  | native a pending =>
    rw [waiting_native] at hdepth ⊢
    exact steady_operation (pending.uncounted_resume i a v) a hdepth
  | bind b param =>
    rw [waiting_bind] at hdepth ⊢
    obtain ⟨hlimited, hcalm, hcounted, hle⟩ :=
      steady_bindNext (i := i.setSlot b.scope param v) (c := c) b hdepth
    exact ⟨hlimited, hcalm, hcounted, hle⟩
  | body scope =>
    rw [waiting_body] at hdepth ⊢
    exact (steady_leaveBody [v] (.value v) (fun _ => trivial) hdepth).mono (Nat.le_succ _)

theorem isOverflow_withSpanIfError (s : Signal) (span : Span) :
    (s.withSpanIfError span).isOverflow = s.isOverflow := by
  cases s with
  | returning v => rfl
  | failed e =>
    obtain ⟨fault, place⟩ := e
    cases place <;> cases fault <;> rfl

theorem steady_unwind (s : Signal) (frame : Frame)
    (hdepth : i.depth = base + waiting (frame :: stack)) :
    Steady base (waiting (frame :: stack)) (.unwind s) (unwind · s frame stack) i := by
  cases frame with
  | send locals receiver result slot site =>
    rw [waiting_send] at hdepth ⊢
    exact steady_stay _ (fun h => (isOverflow_withSpanIfError ..).trans h) hdepth
  | native a pending =>
    rw [waiting_native] at hdepth ⊢
    exact steady_stay _ id hdepth
  | bind b param =>
    rw [waiting_bind] at hdepth ⊢
    refine ⟨fun n => rfl, id, ?_, Nat.le_succ _⟩
    show i.depth - 1 = base + waiting stack
    omega
  | body scope =>
    rw [waiting_body] at hdepth ⊢
    cases s with
    | returning v =>
      exact (steady_leaveBody [v] (.value v) (fun _ => trivial) hdepth).mono (Nat.le_succ _)
    | failed e => exact (steady_leaveBody [] _ id hdepth).mono (Nat.le_succ _)

/-! ## §7. Steps. -/

/-- A step that activates no block. -/
theorem steady_step (h : m.activates = false) (hm : m.Counted base) :
    Steady base (waiting m.stack) m.control (fun i => step ⟨i, m.control, m.stack⟩) m.image := by
  obtain ⟨i, control, stack⟩ := m
  cases control with
  | walk w => exact steady_stepWalk h hm
  | value v =>
    cases stack with
    | nil => exact steady_stay _ id hm
    | cons frame stack => exact steady_resume v frame hm
  | unwind s =>
    cases stack with
    | nil => exact steady_stay _ id hm
    | cons frame stack => exact steady_unwind s frame hm

/-- A step that activates a block, in whatever limit. -/
theorem step_of_activates (h : m.activates = true) :
    ∃ block code a stack, waiting stack = waiting m.stack
      ∧ ∀ n, (m.limited n).step = enterBlock (m.image.limited n) block code a stack := by
  obtain ⟨i, control, stack⟩ := m
  unfold activates at h
  dsimp only at h
  split at h
  · rename_i locals receiver result passed n args span rest
    rw [Option.any_eq_true] at h
    obtain ⟨slot, hslot, hruns⟩ := h
    let site : Site := ⟨passed, ⟨.ident n, args, span⟩, rest⟩
    let a : Activation := ⟨receiver, locals, site⟩
    let sent : List Frame := .send locals receiver result slot site :: stack
    have hstep (k : Nat) : (limited ⟨i, .walk ⟨locals, receiver, result, passed,
        ⟨.ident n, args, span⟩ :: rest⟩, stack⟩ k).step = activate (i.limited k) slot a sent := by
      have hfind : findSlot? (i.limited k) receiver n = some slot := hslot
      show send (i.limited k) _ n _ rest stack = _
      rw [send, hfind]
    have hpayload (k : Nat) (r : Ref) : (i.limited k).payload r = i.payload r := rfl
    unfold Image.runsBlock at hruns
    split at hruns
    · rename_i _ b hblock
      refine ⟨slot, b, a, sent, waiting_send .., fun k => ?_⟩
      rw [hstep, activate, hpayload, hblock]
      exact if_pos hruns
    · rename_i b hcall hblock
      refine ⟨receiver, b, a, sent, waiting_send .., fun k => ?_⟩
      have hbegin : Native.begin (.block .call) (i.limited k) a
          = (i.limited k, .activate receiver b) := by
        show BlockOp.begin .call (i.limited k) a = _
        rw [BlockOp.begin, hpayload, hblock]
      rw [hstep, activate, hpayload, hcall]
      dsimp only
      rw [hbegin]
      rfl
    · cases hruns
  · cases h

/-- What a free step does. -/
structure Frees (base : Nat) (m : Machine) : Prop where
  limited : ∀ n, (m.activates = true → m.image.depth < n) →
    (m.limited n).step = m.freeStep.limited n
  calm : m.control.Calm → m.freeStep.control.Calm
  counted : m.freeStep.Counted base
  waiting_le : waiting m.freeStep.stack ≤ m.inProgress

/-- **A step below the limit is the free step.** -/
theorem frees (hm : m.Counted base) : m.Frees base := by
  cases h : m.activates with
  | false =>
    obtain ⟨hlimited, hcalm, hcounted, hle⟩ := steady_step h hm
    have hfree : m.freeStep = m.step.limited (m.image.depth + 1) := hlimited _
    constructor
    · intro n _
      rw [hfree]
      exact hlimited n
    all_goals rw [hfree]
    · exact hcalm
    · exact hcounted
    · rw [inProgress, h]
      exact hle
  | true =>
    obtain ⟨block, code, a, stack, hwaiting, hstep⟩ := step_of_activates h
    have hfree : m.freeStep = enterBlock (m.image.limited (m.image.depth + 1)) block code a stack :=
      hstep _
    obtain ⟨hlimited, hcalm, hcounted, hle⟩ :=
      free_enterBlock (i := m.image.limited (m.image.depth + 1)) block code a
        (hm.trans (by rw [hwaiting])) (Nat.lt_succ_self m.image.depth)
    constructor
    · intro n hn
      rw [hstep, hfree]
      exact hlimited n (hn h)
    all_goals rw [hfree]
    · exact fun _ => hcalm
    · exact hcounted
    · rw [inProgress, h, ← hwaiting]
      exact hle

/-- **At the limit an activation is a stack overflow instead.** -/
theorem step_limited_full (h : m.activates = true) (hfull : n ≤ m.image.depth) :
    ∃ stack, waiting stack = waiting m.stack
      ∧ (m.limited n).step
        = ⟨m.image.limited n, .unwind (.ofFault (.stackOverflow n)), stack⟩ := by
  obtain ⟨block, code, a, stack, hwaiting, hstep⟩ := step_of_activates h
  refine ⟨stack, hwaiting, ?_⟩
  rw [hstep]
  exact enterBlock_of_le block code a hfull

/-- **Every step keeps the count.** -/
theorem counted_step (hm : m.Counted base) : m.step.Counted base := by
  by_cases hfree : m.activates = true → m.image.depth < m.image.maxDepth
  · have hstep : m.step = m.freeStep.limited m.image.maxDepth := (frees hm).limited _ hfree
    rw [hstep]
    exact (frees hm).counted
  · obtain ⟨h, hfull⟩ : m.activates = true ∧ ¬ m.image.depth < m.image.maxDepth := by
      simpa using hfree
    obtain ⟨stack, hwaiting, hstep⟩ := step_limited_full h (Nat.not_lt.mp hfull)
    have hstep' : m.step = ⟨m.image, .unwind (.ofFault (.stackOverflow m.image.maxDepth)), stack⟩ :=
      hstep
    rw [hstep']
    exact hm.trans (by rw [hwaiting])

end Machine

end Prototalk
