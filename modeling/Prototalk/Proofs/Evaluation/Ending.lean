/-
  Prototalk.Proofs.Evaluation.Ending
  ────────────────────────────────
  **WHICH PROGRAMS END.**

  Going through a chain uses the chain up, and so does evaluating arguments.
  Activating a block brings in new code, but the number of activations inside
  each other is limited.  So every step uses up some of the `potential` of
  the machine, with one exception: `evalArgAt` evaluates an argument of a
  call, which may be any code of the image, and which counts as no
  activation (`Machine.delegates`).

    • `Machine.Light.step` — no step brings in code heavier than the bound,
    • `Machine.Light.step_lt` — a step without an argument of a call
      lowers the potential,
    • `Machine.exists_run_start_iff` — a program ends if and only if it
      evaluates arguments of calls a limited number of times.
-/
import Prototalk.Evaluation.Program
import Prototalk.Proofs.Evaluation.Weight

namespace Prototalk

/-! ## §1. Machines without heavy code. -/

/-- What is left to bind and to run weighs no more than `bound`. -/
structure Binding.Light (bound : Nat) (b : Binding) : Prop where
  sent : Message.argWeight b.activation.args ≤ bound
  args : Message.argWeight b.args ≤ bound
  body : Message.argWeight b.code.body.toList ≤ bound

/-- What a frame goes on with weighs no more than `bound`. -/
def Frame.Light (bound : Nat) : Frame → Prop
  | .send _ _ _ _ site => Chain.weight site.after ≤ bound
  | .native a pending => Message.argWeight a.args ≤ bound ∧ pending.weight a ≤ bound
  | .bind b _ => b.Light bound
  | .body _ => True

/-- The chain that the machine goes through weighs no more than `bound`. -/
def Control.Light (bound : Nat) : Control → Prop
  | .walk w => Chain.weight w.coming ≤ bound
  | _ => True

/-- No code weighs more than `bound`, in the image or in the program. -/
structure Machine.Light (bound : Nat) (m : Machine) : Prop where
  image : m.image.objects.Light bound
  control : m.control.Light bound
  stack : ∀ f ∈ m.stack, f.Light bound

/-! ## §2. The potential. -/

/-- What a message may use up where so many more activations fit inside each other.  An activation
uses up the code of a block, each message at the rate one activation further in. -/
def rate (bound : Nat) : Nat → Nat
  | 0 => 4
  | left + 1 => rate bound left * (bound + 1) + 2 * bound + 4

/-- What a binding may use up, with the code of the block. -/
def Binding.cost (unit : Nat) (b : Binding) : Nat :=
  2 * b.params.length + unit * (Message.argWeight b.args + Message.argWeight b.code.body.toList) + 2

/-- What a frame may use up once it gets its result. -/
def Frame.cost (unit : Nat) : Frame → Nat
  | .send _ _ _ _ site => unit * Chain.weight site.after + 1
  | .native a pending => unit * pending.weight a + 1
  | .bind b _ => b.cost unit + 1
  | .body _ => 1

/-- The number of activations behind a frame. -/
def Frame.outerDepth (depth : Nat) : Frame → Nat
  | .bind _ _ => depth - 1
  | .body _ => depth - 1
  | _ => depth

/-- What the machine may use up before the topmost frame gets a result. -/
def Control.cost (unit : Nat) : Control → Nat
  | .walk w => unit * Chain.weight w.coming
  | _ => 0

namespace Machine

/-- What waiting frames may use up, the first of them `depth` activations deep. -/
def reserve (bound maxDepth : Nat) : Nat → List Frame → Nat
  | _, [] => 0
  | depth, f :: stack =>
      f.cost (rate bound (maxDepth - depth)) + reserve bound maxDepth (f.outerDepth depth) stack

end Machine

namespace Image

/-- The rate at the depth of the image. -/
def rate (bound : Nat) (i : Image) : Nat := Prototalk.rate bound (i.maxDepth - i.depth)

/-- What waiting frames may use up, the first of them at the depth of the image. -/
def reserve (bound : Nat) (i : Image) (stack : List Frame) : Nat :=
  Machine.reserve bound i.maxDepth i.depth stack

/-- What frames behind an activation may use up. -/
def outerReserve (bound : Nat) (i : Image) (stack : List Frame) : Nat :=
  Machine.reserve bound i.maxDepth (i.depth - 1) stack

end Image

/-- How many steps the machine may take as long as it evaluates no argument of a call. -/
def Machine.potential (bound : Nat) (m : Machine) : Nat :=
  m.control.cost (m.image.rate bound) + m.image.reserve bound m.stack

theorem Chain.weight_pos (c : Chain) : 0 < Chain.weight c := by
  cases c with
  | nil => exact Nat.one_pos
  | cons m rest =>
    rw [Chain.weight, m.weight_eq]
    omega

theorem Machine.reserve_cons_pos (bound : Nat) (i : Image) (f : Frame) (stack : List Frame) :
    0 < i.reserve bound (f :: stack) := by
  rw [Image.reserve, Machine.reserve]
  refine Nat.add_pos_left ?_ _
  cases f <;> exact Nat.succ_pos _

theorem four_le_rate (bound left : Nat) : 4 ≤ rate bound left := by
  cases left with
  | zero => exact Nat.le_refl 4
  | succ left => exact Nat.le_add_left 4 _

theorem rate_le_succ (bound left : Nat) : rate bound left ≤ rate bound (left + 1) := by
  rw [rate, Nat.mul_add, Nat.mul_one]
  omega

namespace Machine

/-- Whether the next step evaluates an argument of a call. -/
def delegates (m : Machine) : Bool :=
  match m.control, m.stack with
  | .value v, .native a pending :: _ => (pending.resume m.image a v).2.isDelegate
  | _, _ => false

/-! ## §3. What each part of a step uses up. -/

/-- A machine without heavy code and with no more than some potential. -/
structure Within (bound limit : Nat) (m : Machine) : Prop where
  light : m.Light bound
  potential_le : m.potential bound ≤ limit

theorem Within.mono {bound limit more : Nat} {m : Machine} (hm : m.Within bound limit)
    (hle : limit ≤ more) : m.Within bound more :=
  ⟨hm.light, hm.potential_le.trans hle⟩

section

variable {bound : Nat} {i : Image} {stack : List Frame} {a : Activation} {b : Binding}
variable (hi : i.objects.Light bound) (hstack : ∀ f ∈ stack, f.Light bound)

include hi hstack

theorem within_value (v : Ref) : Within bound (i.reserve bound stack) ⟨i, .value v, stack⟩ :=
  ⟨⟨hi, trivial, hstack⟩, by simp [potential, Control.cost]⟩

theorem within_unwind (s : Signal) : Within bound (i.reserve bound stack) ⟨i, .unwind s, stack⟩ :=
  ⟨⟨hi, trivial, hstack⟩, by simp [potential, Control.cost]⟩

theorem within_walk {w : Walk} (hw : Chain.weight w.coming ≤ bound) :
    Within bound (i.rate bound * Chain.weight w.coming + i.reserve bound stack)
      ⟨i, .walk w, stack⟩ :=
  ⟨⟨hi, hw, hstack⟩, Nat.le_refl _⟩

omit hi in
theorem light_push {f : Frame} (hf : f.Light bound) : ∀ g ∈ f :: stack, g.Light bound := by
  intro g hg
  rcases List.mem_cons.mp hg with rfl | hg
  · exact hf
  · exact hstack g hg

/-! ### Activations of blocks -/

theorem within_enterBody (hb : b.Light bound) :
    Within bound
      (i.rate bound * Message.argWeight b.code.body.toList + 1 + i.outerReserve bound stack)
      (enterBody i b stack) := by
  have hcall : (Payload.call ⟨b.activation.locals, b.activation.target, b.block,
      b.activation.site⟩).weight ≤ bound := hb.sent
  have hkeeps := ((Image.Keeps.alloc i hcall [Builtin.call.ref]).trans (.setSlot _ b.scope
    i.selfName (b.code.captured.getD b.activation.target))).trans
    (.setSlot _ b.scope i.callName ⟨i.objects.cells.size⟩)
  have hlight := hkeeps.light hi
  have hbody := hb.body
  unfold enterBody
  cases hcode : b.code.body with
  | none =>
    refine (within_value ?_ hstack _).mono ?_
    · exact hlight
    · show i.outerReserve bound stack ≤ _
      omega
  | some body =>
    rw [hcode, Option.toList_some, Message.argWeight, Message.argWeight] at hbody
    have hframe : (Frame.body b.scope).Light bound := trivial
    refine (within_walk hlight (light_push hstack hframe)
      (by show Chain.weight body ≤ _; omega)).mono ?_
    show i.rate bound * Chain.weight body + (1 + i.outerReserve bound stack) ≤ _
    rw [Option.toList_some, Message.argWeight, Message.argWeight, Nat.mul_add, Nat.mul_add]
    omega

theorem within_bindNext (hb : b.Light bound) :
    Within bound (b.cost (i.rate bound) + i.outerReserve bound stack) (bindNext i b stack) := by
  obtain ⟨block, code, activation, scope, params, args⟩ := b
  obtain ⟨hsent, hargs, hbody⟩ := hb
  cases params with
  | nil =>
    refine (within_enterBody hi hstack ⟨hsent, hargs, hbody⟩).mono ?_
    rw [Binding.cost, Nat.mul_add]
    dsimp only
    omega
  | cons p params =>
    cases args with
    | nil =>
      have hframe : (Frame.bind ⟨block, code, activation, scope, params, []⟩ p).Light bound :=
        ⟨hsent, hargs, hbody⟩
      refine (within_value hi (light_push hstack hframe) _).mono ?_
      show Binding.cost (i.rate bound) ⟨block, code, activation, scope, params, []⟩ + 1
        + i.outerReserve bound stack ≤ _
      simp only [Binding.cost, List.length_cons]
      omega
    | cons arg args =>
      simp only [Message.argWeight] at hargs
      have hframe : (Frame.bind ⟨block, code, activation, scope, params, args⟩ p).Light bound :=
        ⟨hsent, by show Message.argWeight args ≤ _; omega, hbody⟩
      refine (within_walk hi (light_push hstack hframe)
        (by show Chain.weight arg ≤ _; omega)).mono ?_
      show i.rate bound * Chain.weight arg
        + (Binding.cost (i.rate bound) ⟨block, code, activation, scope, params, args⟩ + 1
          + i.outerReserve bound stack) ≤ _
      simp only [Binding.cost, Message.argWeight, List.length_cons, Nat.mul_add]
      omega

theorem within_enterBlock {code : Block} (block : Ref) (hcode : code.weight ≤ bound)
    (hargs : Message.argWeight a.args ≤ bound) :
    Within bound
      (i.rate bound * (Message.argWeight a.args + 1) - 2 + i.reserve bound stack)
      (enterBlock i block code a stack) := by
  unfold enterBlock
  split
  · exact (within_unwind hi hstack _).mono (Nat.le_add_left _ _)
  · rename_i hdepth
    let deeper : Image := { i with depth := i.depth + 1 }
    have hscope : (deeper.cloneOf Builtin.object.ref).2.objects.Light bound :=
      (Image.Keeps.alloc deeper (Nat.zero_le _) _).light hi
    unfold Block.weight at hcode
    refine (within_bindNext hscope hstack ⟨hargs, hargs, by dsimp only; omega⟩).mono ?_
    show Binding.cost (rate bound (i.maxDepth - (i.depth + 1))) _ + i.reserve bound stack ≤ _
    refine Nat.add_le_add_right ?_ _
    -- one activation more fits inside the sender than inside the block
    have hleft : i.maxDepth - i.depth = i.maxDepth - (i.depth + 1) + 1 := by omega
    rw [Image.rate, hleft]
    generalize i.maxDepth - (i.depth + 1) = left
    have hunit := Nat.mul_le_mul_right (Message.argWeight a.args) (rate_le_succ bound left)
    have hbody := Nat.mul_le_mul_left (rate bound left)
      (show Message.argWeight code.body.toList ≤ bound by omega)
    have hrate : rate bound (left + 1)
        = rate bound left * bound + rate bound left + 2 * bound + 4 := by
      rw [rate, Nat.mul_add, Nat.mul_one]
    simp only [Binding.cost, Nat.mul_add, Nat.mul_one]
    omega

/-! ### Operations and slots -/

theorem within_meet {budget : Nat} {d : Demand} (hargs : Message.argWeight a.args ≤ bound)
    (hbudget : budget ≤ bound + 1) (hd : d.Affordable bound budget a)
    (hown : d.isDelegate = false) :
    Within bound (i.rate bound * budget - 2 + i.reserve bound stack) (meet i d a stack) := by
  have hunit := four_le_rate bound (i.maxDepth - i.depth)
  cases d with
  | answer v => exact (within_value hi hstack v).mono (Nat.le_add_left _ _)
  | raise s => exact (within_unwind hi hstack s).mono (Nat.le_add_left _ _)
  | argument chain locals pending =>
    change chain.elim 0 Chain.weight + pending.weight a + 1 ≤ budget at hd
    have hframe : (Frame.native a pending).Light bound := ⟨hargs, by omega⟩
    have hmul := Nat.mul_le_mul_left (i.rate bound) hd
    simp only [Nat.mul_add, Nat.mul_one] at hmul
    have hrate : 4 ≤ i.rate bound := hunit
    cases chain with
    | none =>
      refine (within_value hi (light_push hstack hframe) _).mono ?_
      show i.rate bound * pending.weight a + 1 + i.reserve bound stack ≤ _
      omega
    | some chain =>
      simp only [Option.elim_some] at hd hmul
      refine (within_walk hi (light_push hstack hframe)
        (by show Chain.weight chain ≤ _; omega)).mono ?_
      show i.rate bound * Chain.weight chain
        + (i.rate bound * pending.weight a + 1 + i.reserve bound stack) ≤ _
      omega
  | delegate chain locals => cases hown
  | activate block code =>
    refine (within_enterBlock hi hstack block hd.1 hargs).mono ?_
    have hmul := Nat.mul_le_mul_left (i.rate bound) hd.2
    omega

theorem within_activate (slot : Ref) (hargs : Message.argWeight a.args ≤ bound) :
    Within bound (i.rate bound * (Message.argWeight a.args + 1) - 2 + i.reserve bound stack)
      (activate i slot a stack) := by
  have hslot : (i.payload slot).weight ≤ bound := hi.payload slot
  unfold activate
  cases hpayload : i.payload slot with
  | native op =>
    obtain ⟨⟨hkeeps, hdemand⟩, hown⟩ := op.start_begin hi hargs
    have hmeet := within_meet (hkeeps.light hi) hstack hargs (by omega) hdemand hown
    rw [Image.rate, Image.reserve, hkeeps.depth_eq, hkeeps.maxDepth_eq] at hmeet
    exact hmeet
  | block b =>
    rw [hpayload] at hslot
    dsimp only
    split
    · exact within_enterBlock hi hstack slot hslot hargs
    · exact (within_value hi hstack slot).mono (Nat.le_add_left _ _)
  | _ => exact (within_value hi hstack slot).mono (Nat.le_add_left _ _)

theorem within_send {w : Walk} {m : Message} {rest : List Message} (n : Name)
    (hm : m.weight + Chain.weight rest ≤ bound) :
    Within bound
      (i.rate bound * (m.weight + Chain.weight rest) - 1 + i.reserve bound stack)
      (send i w n m rest stack) := by
  have hunit : 4 ≤ i.rate bound := four_le_rate bound _
  rw [m.weight_eq] at hm ⊢
  unfold send
  split
  · rename_i slot hslot
    have hframe : (Frame.send w.locals w.receiver w.result slot ⟨w.passed, m, rest⟩).Light bound :=
      show Chain.weight rest ≤ bound by omega
    have hargs : Message.argWeight m.args ≤ bound := by omega
    refine (within_activate hi (light_push hstack hframe) slot
      (a := ⟨w.receiver, w.locals, ⟨w.passed, m, rest⟩⟩) hargs).mono ?_
    show i.rate bound * (Message.argWeight m.args + 1) - 2
      + (i.rate bound * Chain.weight rest + 1 + i.reserve bound stack) ≤ _
    simp only [Nat.mul_add, Nat.mul_one]
    omega
  · exact (within_unwind hi hstack _).mono (Nat.le_add_left _ _)

/-! ### Chains and frames -/

theorem within_stepWalk {w : Walk} (hw : Chain.weight w.coming ≤ bound) :
    Within bound (i.rate bound * Chain.weight w.coming - 1 + i.reserve bound stack)
      (stepWalk i w stack) := by
  have hunit : 4 ≤ i.rate bound := four_le_rate bound _
  unfold stepWalk
  cases hcoming : w.coming with
  | nil => exact (within_value hi hstack _).mono (Nat.le_add_left _ _)
  | cons m rest =>
    rw [hcoming, Chain.weight] at hw
    -- the rest of the chain, in an image that keeps to the bound
    have hrest : ∀ (j : Image) (v : Walk), Image.Keeps bound i j → v.coming = rest →
        Within bound (i.rate bound * Chain.weight (m :: rest) - 1 + i.reserve bound stack)
          ⟨j, .walk v, stack⟩ := by
      intro j v hkeeps hv
      have hwalk := within_walk (hkeeps.light hi) hstack (w := v) (by rw [hv]; omega)
      rw [Image.rate, Image.reserve, hkeeps.depth_eq, hkeeps.maxDepth_eq, hv] at hwalk
      refine hwalk.mono ?_
      show i.rate bound * Chain.weight rest + i.reserve bound stack ≤ _
      rw [Chain.weight, m.weight_eq]
      simp only [Nat.mul_add, Nat.mul_one]
      omega
    dsimp only
    split
    · exact hrest i _ (.refl i) rfl
    · exact hrest _ _ (.literal i _) rfl
    · exact hrest _ _ (.literal i _) rfl
    · rw [Chain.weight]
      exact within_send hi hstack _ hw

/-- The end of a body, with a result or a signal. -/
theorem within_leaveBody (kept : List Ref) {c : Control} (hlight : c.Light bound)
    (hcost : ∀ unit, c.cost unit = 0) :
    Within bound (i.outerReserve bound stack) ⟨leaveBody i kept stack, c, stack⟩ := by
  have hkeeps : Image.Keeps bound i _ := .collectIfDue i (kept ++ stackRefs stack)
  refine ⟨⟨hkeeps.light hi, hlight, hstack⟩, ?_⟩
  show c.cost _ + Machine.reserve bound (i.collectIfDue _).maxDepth
    ((i.collectIfDue _).depth - 1) stack ≤ _
  rw [hcost, hkeeps.depth_eq, hkeeps.maxDepth_eq, Nat.zero_add]
  exact Nat.le_refl _

theorem within_resume {frame : Frame} (hframe : frame.Light bound) (v : Ref)
    (hown : delegates ⟨i, .value v, frame :: stack⟩ = false) :
    Within bound (i.reserve bound (frame :: stack) - 1) (resume i v frame stack) := by
  cases frame with
  | send locals receiver result slot site =>
    refine (within_walk (w := ⟨locals, v, v, site.message :: site.before, site.after⟩) hi hstack
      hframe).mono ?_
    show i.rate bound * Chain.weight site.after + i.reserve bound stack
      ≤ i.rate bound * Chain.weight site.after + 1 + i.reserve bound stack - 1
    omega
  | native a pending =>
    obtain ⟨hkeeps, hdemand⟩ := pending.affordable_resume hi (a := a) v
    have hmeet := within_meet (hkeeps.light hi) hstack hframe.1 (hframe.2.trans (Nat.le_succ _))
      hdemand hown
    rw [Image.rate, Image.reserve, hkeeps.depth_eq, hkeeps.maxDepth_eq] at hmeet
    refine hmeet.mono ?_
    show i.rate bound * pending.weight a - 2 + i.reserve bound stack
      ≤ i.rate bound * pending.weight a + 1 + i.reserve bound stack - 1
    omega
  | bind b p =>
    have hslot : Image.Keeps bound i _ := .setSlot i b.scope p v
    refine (within_bindNext (hslot.light hi) hstack hframe).mono ?_
    show b.cost (i.rate bound) + i.outerReserve bound stack
      ≤ b.cost (i.rate bound) + 1 + i.outerReserve bound stack - 1
    omega
  | body scope =>
    refine (within_leaveBody hi hstack [v] (c := .value v) trivial fun _ => rfl).mono ?_
    show _ ≤ 1 + i.outerReserve bound stack - 1
    omega

theorem within_unwindFrame (frame : Frame) (s : Signal) :
    Within bound (i.reserve bound (frame :: stack) - 1) (unwind i s frame stack) := by
  cases frame with
  | send locals receiver result slot site =>
    refine (within_unwind hi hstack _).mono ?_
    show i.reserve bound stack
      ≤ i.rate bound * Chain.weight site.after + 1 + i.reserve bound stack - 1
    omega
  | native a pending =>
    refine (within_unwind hi hstack _).mono ?_
    show i.reserve bound stack
      ≤ i.rate bound * pending.weight a + 1 + i.reserve bound stack - 1
    omega
  | bind b p =>
    refine (within_unwind (i := { i with depth := i.depth - 1 }) hi hstack s).mono ?_
    show i.outerReserve bound stack
      ≤ b.cost (i.rate bound) + 1 + i.outerReserve bound stack - 1
    omega
  | body scope =>
    have hle : i.outerReserve bound stack ≤ i.reserve bound (.body scope :: stack) - 1 := by
      show _ ≤ 1 + i.outerReserve bound stack - 1
      omega
    cases s with
    | returning v =>
      exact (within_leaveBody hi hstack _ (c := .value v) trivial fun _ => rfl).mono hle
    | failed e =>
      exact (within_leaveBody hi hstack _ (c := .unwind (.failed e)) trivial fun _ => rfl).mono hle

end

/-! ## §4. Steps. -/

variable {bound : Nat} {m : Machine}

/-- A step that evaluates no argument of a call brings in no heavy code and uses up potential. -/
theorem Light.step_lt (hm : m.Light bound) (hdone : m.isDone = false) (hown : m.delegates = false) :
    m.step.Light bound ∧ m.step.potential bound < m.potential bound := by
  obtain ⟨i, control, stack⟩ := m
  have hi : i.objects.Light bound := hm.image
  have hstack : ∀ f ∈ stack, f.Light bound := hm.stack
  cases control with
  | walk w =>
    obtain ⟨hlight, hle⟩ := within_stepWalk hi hstack hm.control
    refine ⟨hlight, Nat.lt_of_le_of_lt hle ?_⟩
    have hunit : 4 ≤ i.rate bound := four_le_rate bound _
    have hweight : 0 < Chain.weight w.coming := Chain.weight_pos w.coming
    have hpos : 0 < i.rate bound * Chain.weight w.coming := Nat.mul_pos (by omega) hweight
    show _ < i.rate bound * Chain.weight w.coming + i.reserve bound stack
    omega
  | value v =>
    cases stack with
    | nil => cases hdone
    | cons frame stack =>
      obtain ⟨hframe, hrest⟩ := List.forall_mem_cons.mp hstack
      obtain ⟨hlight, hle⟩ := within_resume hi hrest hframe v hown
      refine ⟨hlight, Nat.lt_of_le_of_lt hle ?_⟩
      have hpos := reserve_cons_pos bound i frame stack
      show _ < 0 + i.reserve bound (frame :: stack)
      omega
  | unwind s =>
    cases stack with
    | nil => cases hdone
    | cons frame stack =>
      obtain ⟨hlight, hle⟩ := within_unwindFrame hi (List.forall_mem_cons.mp hstack).2 frame s
      refine ⟨hlight, Nat.lt_of_le_of_lt hle ?_⟩
      have hpos := reserve_cons_pos bound i frame stack
      show _ < 0 + i.reserve bound (frame :: stack)
      omega

theorem step_of_isDone (hdone : m.isDone = true) : m.step = m := by
  obtain ⟨i, control, stack⟩ := m
  cases control with
  | walk w => cases hdone
  | _ =>
    cases stack with
    | nil => rfl
    | cons frame stack => cases hdone

/-- An argument of a call weighs no more than the code of the image. -/
theorem Light.step_of_delegates (hm : m.Light bound) (hm' : m.delegates = true) :
    m.step.Light bound := by
  obtain ⟨i, control, stack⟩ := m
  obtain ⟨hi, -, hstack⟩ := hm
  unfold delegates at hm'
  dsimp only at hm'
  split at hm'
  · rename_i v a pending rest
    obtain ⟨hkeeps, hdemand⟩ := pending.affordable_resume hi (a := a) v
    show (meet (pending.resume i a v).1 (pending.resume i a v).2 a rest).Light bound
    cases hd : (pending.resume i a v).2 with
    | delegate chain locals =>
      rw [hd] at hdemand
      exact ⟨hkeeps.light hi, hdemand, (List.forall_mem_cons.mp hstack).2⟩
    | _ =>
      rw [hd] at hm'
      cases hm'
  · cases hm'

/-- **No step brings in code heavier than the bound.** -/
theorem Light.step (hm : m.Light bound) : m.step.Light bound := by
  by_cases hdone : m.isDone = true
  · rw [step_of_isDone hdone]
    exact hm
  · by_cases hown : m.delegates = true
    · exact hm.step_of_delegates hown
    · exact (hm.step_lt (by simpa using hdone) (by simpa using hown)).1

/-! ## §5. Runs. -/

/-- How many of the first steps evaluate an argument of a call. -/
def delegations : Nat → Machine → Nat
  | 0, _ => 0
  | n + 1, m => m.delegates.toNat + m.step.delegations n

theorem delegates_of_isDone (hdone : m.isDone = true) : m.delegates = false := by
  obtain ⟨i, control, stack⟩ := m
  cases control with
  | walk w => rfl
  | unwind s => rfl
  | value v =>
    cases stack with
    | nil => rfl
    | cons frame stack => cases hdone

theorem delegations_of_isDone (hdone : m.isDone = true) (n : Nat) : m.delegations n = 0 := by
  induction n with
  | zero => rfl
  | succ n ih => rw [delegations, step_of_isDone hdone, delegates_of_isDone hdone, ih]; rfl

/-- A program that ends evaluates no more arguments than it takes steps. -/
theorem delegations_le_of_run {fuel : Nat} {last : Machine} (hrun : run fuel m = some last)
    (n : Nat) : m.delegations n ≤ fuel := by
  induction fuel generalizing m n with
  | zero =>
    have hdone : m.isDone = true := by
      by_contra hnot
      simp [run, hnot] at hrun
    rw [delegations_of_isDone hdone]
  | succ fuel ih =>
    by_cases hdone : m.isDone = true
    · rw [delegations_of_isDone hdone]
      exact Nat.zero_le _
    · cases n with
      | zero => exact Nat.zero_le _
      | succ n =>
        rw [run, if_neg hdone] at hrun
        have hrest := ih hrun n
        have hone := Bool.toNat_le m.delegates
        rw [delegations]
        omega

/-- A program ends if there is a limit to how often it evaluates an argument of a call: every such
step brings the program nearer to the limit, and every other step uses up potential. -/
theorem exists_run_of_delegations_le (limit : Nat) (m : Machine) (hm : m.Light bound)
    (hlimit : ∀ n, m.delegations n ≤ limit) : ∃ fuel last, run fuel m = some last := by
  by_cases hdone : m.isDone = true
  · exact ⟨0, m, by rw [run, if_pos hdone]⟩
  · by_cases hown : m.delegates = true
    · have hnext : ∀ n, m.step.delegations n ≤ limit - 1 := by
        intro n
        have hn := hlimit (n + 1)
        rw [delegations, hown, Bool.toNat_true] at hn
        omega
      have hlt : limit - 1 < limit := by
        have hone := hlimit 1
        rw [delegations, hown, Bool.toNat_true] at hone
        omega
      obtain ⟨fuel, last, hrun⟩ := exists_run_of_delegations_le (limit - 1) m.step hm.step hnext
      exact ⟨fuel + 1, last, by rw [run, if_neg hdone, hrun]⟩
    · have hown' : m.delegates = false := by simpa using hown
      have hnext : ∀ n, m.step.delegations n ≤ limit := by
        intro n
        have hn := hlimit (n + 1)
        rw [delegations, hown', Bool.toNat_false] at hn
        omega
      have hlt := (hm.step_lt (by simpa using hdone) hown').2
      obtain ⟨fuel, last, hrun⟩ := exists_run_of_delegations_le limit m.step hm.step hnext
      exact ⟨fuel + 1, last, by rw [run, if_neg hdone, hrun]⟩
termination_by (limit, m.potential bound)
decreasing_by
  · exact Prod.Lex.left _ _ hlt
  · exact Prod.Lex.right _ hlt

/-- **Which programs end.** -/
theorem exists_run_start_iff (image : Image) (chain : Chain) (locals : Ref) :
    (∃ fuel last, run fuel (start image chain locals) = some last)
      ↔ ∃ limit, ∀ n, (start image chain locals).delegations n ≤ limit := by
  constructor
  · rintro ⟨fuel, last, hrun⟩
    exact ⟨fuel, delegations_le_of_run hrun⟩
  · rintro ⟨limit, hlimit⟩
    obtain ⟨bound, hbound⟩ := image.objects.exists_light
    have hlight : (start image chain locals).Light (max bound (Chain.weight chain)) :=
      ⟨hbound.mono (Nat.le_max_left _ _), Nat.le_max_right _ _, by simp [start]⟩
    exact exists_run_of_delegations_le limit _ hlight hlimit

end Machine

/-- How many of the first steps of a program evaluate an argument of a call. -/
def Image.delegations (image : Image) (text : String) (n : Nat) : Nat :=
  let parsed := parse image.names text
  match parsed.result with
  | .ok (some chain) =>
      (Machine.start { image with names := parsed.names } chain Builtin.lobby.ref).delegations n
  | _ => 0

/-- **A program ends, with a value or an error, if and only if it evaluates arguments of calls a
limited number of times.**  Nothing else can go on forever, whatever the greatest depth is. -/
theorem Image.doString_ends_iff (image : Image) (text : String) :
    (∃ fuel ran, image.doString fuel text = some ran)
      ↔ ∃ limit, ∀ n, image.delegations text n ≤ limit := by
  unfold Image.delegations doString runParsed
  dsimp only
  cases (parse image.names text).result with
  | error e => simp
  | ok program =>
    cases program with
    | none => simp [runChain]
    | some chain =>
      refine Iff.trans ?_ (Machine.exists_run_start_iff _ chain Builtin.lobby.ref)
      simp only [runChain, evaluate, Option.map_map]
      constructor
      · rintro ⟨fuel, ran, hran⟩
        obtain ⟨last, hlast, -⟩ := Option.map_eq_some_iff.mp hran
        exact ⟨fuel, last, hlast⟩
      · rintro ⟨fuel, last, hlast⟩
        exact ⟨fuel, _, by rw [hlast]; rfl⟩

end Prototalk
