/-
  Prototalk.Proofs.Evaluation.Legible
  ────────────────────────────────
  **PROGRAMS MAKE LEGIBLE BLOCKS ONLY.**

  A machine is `Legible` if its image is, and if so is the code that it is
  going through and the code that its frames will go on with.  All of that
  came from a text once, so it can be written again, and a block that is made
  of the arguments of a message can be written too.

    • `lands_blockOfArgs` — the one place where blocks are made,
    • `Native.lands_begin`, `Pending.lands_resume` — what an operation does
      to the image, and the code that it asks for,
    • `Machine.Legible.step` — one step.
-/
import Prototalk.Evaluation.Step
import Prototalk.Proofs.Image.Legible

namespace Prototalk

/-! ## §1. Code that is waiting. -/

/-- The message that an activation answers can be written. -/
def Activation.Legible (names : Interner) (a : Activation) : Prop :=
  a.site.message.WellFormed names

/-- The arguments to come can be written. -/
def Pending.Legible (names : Interner) : Pending → Prop
  | .line _ coming => ∀ c ∈ coming, Chain.WellFormed names c
  | _ => True

/-- The code of the block can be written, and so can the arguments to come. -/
structure Binding.Legible (names : Interner) (b : Binding) : Prop where
  code : b.code.Legible names
  activation : b.activation.Legible names
  args : ∀ c ∈ b.args, Chain.WellFormed names c

/-- What a frame goes on with can be written. -/
def Frame.Legible (names : Interner) : Frame → Prop
  | .send _ _ _ _ site => ∀ m ∈ site.after, m.WellFormed names
  | .native a pending => a.Legible names ∧ pending.Legible names
  | .bind b _ => b.Legible names
  | .body _ => True

/-- The messages to come can be written. -/
def Control.Legible (names : Interner) : Control → Prop
  | .walk w => ∀ m ∈ w.coming, m.WellFormed names
  | _ => True

/-- A demand for code asks for code that can be written. -/
def Demand.Legible (names : Interner) : Demand → Prop
  | .argument chain _ pending =>
      (∀ c, chain = some c → Chain.WellFormed names c) ∧ pending.Legible names
  | .delegate chain _ => Chain.WellFormed names chain
  | .activate _ code => code.Legible names
  | _ => True

section

variable {names names' : Interner} (hext : names.Extends names')

include hext

theorem Pending.Legible.mono {p : Pending} (h : p.Legible names) : p.Legible names' := by
  cases p with
  | line text coming => exact fun c hc => (h c hc).mono hext
  | _ => trivial

theorem Binding.Legible.mono {b : Binding} (h : b.Legible names) : b.Legible names' where
  code := h.code.mono hext
  activation := Message.WellFormed.mono hext h.activation
  args := fun c hc => (h.args c hc).mono hext

theorem Frame.Legible.mono {f : Frame} (h : f.Legible names) : f.Legible names' := by
  cases f with
  | send locals receiver result slot site => exact fun m hm => (h m hm).mono hext
  | native a pending => exact ⟨Message.WellFormed.mono hext h.1, h.2.mono hext⟩
  | bind b param => exact Binding.Legible.mono hext h
  | body scope => trivial

end

/-! ## §2. Arguments. -/

section

variable {names : Interner} {m : Message} {c : Chain} {n : Name}

theorem Message.WellFormed.arg (h : m.WellFormed names) :
    ∀ a ∈ m.args, Chain.WellFormed names a := by
  cases h with
  | ident _ _ hargs => exact hargs
  | _ => simp

/-- The name of a parameter is the name of a message. -/
theorem Chain.WellFormed.writes (h : Chain.WellFormed names c) (hn : Chain.bareName? c = some n) :
    names.Writes n := by
  unfold Chain.bareName? at hn
  split at hn
  · cases hn
    cases h.all _ List.mem_cons_self with
    | ident hname htext _ => exact ⟨_, hname, htext⟩
  · cases hn

theorem writes_paramNames {index : Nat} {chains : List Chain} {params : List Name}
    (hchains : ∀ c ∈ chains, Chain.WellFormed names c) (h : paramNames index chains = .ok params) :
    ∀ n ∈ params, names.Writes n := by
  induction chains generalizing index params with
  | nil =>
    cases h
    simp
  | cons c chains ih =>
    unfold paramNames at h
    cases hname : Chain.bareName? c with
    | none =>
      rw [hname] at h
      cases h
    | some n =>
      rw [hname] at h
      cases hrest : paramNames (index + 1) chains with
      | error i =>
        simp only [hrest] at h
        cases h
      | ok rest =>
        simp only [hrest] at h
        cases h
        refine List.forall_mem_cons.mpr ⟨(hchains c List.mem_cons_self).writes hname, ?_⟩
        exact ih (fun d hd => hchains d (List.mem_cons_of_mem _ hd)) hrest

end

/-! ## §3. Operations. -/

/-- What an operation has done: names at most added, the image legible still, and legible code
asked for. -/
structure Lands (i : Image) (x : Image × Demand) : Prop where
  grows : i.names.Extends x.1.names
  image : x.1.Legible
  demand : x.2.Legible x.1.names

section

variable {i j : Image} {a : Activation} {d : Demand}

/-- An operation that knows the names that there were. -/
theorem Lands.of_eq (hj : j.Legible) (hnames : j.names = i.names) (hd : d.Legible i.names) :
    Lands i (j, d) :=
  ⟨hnames ▸ .refl _, hj, hnames ▸ hd⟩

/-- An operation that does nothing to the image. -/
theorem Image.Legible.lands (h : i.Legible) (hd : d.Legible i.names) : Lands i (i, d) :=
  .of_eq h rfl hd

/-- A new object that is no code, and any answer. -/
theorem Image.Legible.lands_alloc (h : i.Legible) {p : Payload} (hp : p.Legible i.names)
    (protos : List Ref) (v : Ref) : Lands i ((i.alloc p protos).2, .answer v) :=
  .of_eq (h.alloc hp protos) rfl trivial

variable (ha : a.Legible i.names)

include ha in
theorem Activation.Legible.arg : ∀ c ∈ a.args, Chain.WellFormed i.names c :=
  Message.WellFormed.arg ha

include ha in
theorem Activation.Legible.optional (index : Nat) {pending : Pending}
    (hpending : pending.Legible i.names) : (a.optional index pending).Legible i.names :=
  ⟨fun c hc => ha.arg c (List.mem_of_getElem? hc), hpending⟩

include ha in
theorem Activation.Legible.required (names : Interner) (index : Nat) {pending : Pending}
    (hpending : pending.Legible i.names) : (a.required names index pending).Legible i.names := by
  unfold Activation.required
  cases hchain : a.args[index]? with
  | none => trivial
  | some chain =>
    refine ⟨fun c hc => ?_, hpending⟩
    cases hc
    exact ha.arg chain (List.mem_of_getElem? hchain)

variable (h : i.Legible)

include h ha

/-- **A block is made of the arguments of a message**, so it can be written. -/
theorem lands_blockOfArgs (captured : Option Ref) : Lands i (blockOfArgs i a captured) := by
  unfold blockOfArgs
  cases hparams : paramNames 0 a.args.dropLast with
  | error index => exact h.lands trivial
  | ok params =>
    have hb : Block.Legible i.names (.new a.args.getLast? params captured) := by
      refine ⟨fun c hc => ha.arg c (List.mem_of_getLast? hc), ?_, fun hnone => ?_⟩
      · exact writes_paramNames (fun c hc => ha.arg c (List.mem_of_mem_dropLast hc)) hparams
      · -- without a last argument there are none before it
        rw [List.getLast?_eq_none_iff.mp hnone] at hparams
        cases hparams
        rfl
    exact h.lands_alloc (p := .block _) hb _ _

theorem ObjectOp.lands_begin (op : ObjectOp) : Lands i (op.begin i a) := by
  cases op with
  | makeBlock => exact lands_blockOfArgs ha h (some a.locals)
  | makeMethod => exact lands_blockOfArgs ha h none
  | returnValue => exact h.lands (ha.optional 0 trivial)
  | setSlot | updateSlot | getSlot | hasSlot | appendProto =>
    exact h.lands (ha.required _ 0 trivial)
  | clone => exact h.lands_alloc (p := .plain) trivial _ _
  | doWithin => exact h.lands ⟨fun c hc => ha.arg c (List.mem_of_getElem? hc), trivial⟩
  | thisMessage => exact h.lands_alloc (p := .message _) trivial _ _
  | print | println => exact .of_eq (h.of_eq rfl rfl) rfl trivial
  | writeln =>
    have hargs := ha.arg
    unfold begin
    dsimp only
    cases hsplit : a.args with
    | nil => exact .of_eq (h.of_eq rfl rfl) rfl trivial
    | cons c rest =>
      rw [hsplit] at hargs
      obtain ⟨hc, hrest⟩ := List.forall_mem_cons.mp hargs
      exact h.lands ⟨fun d hd => Option.some.inj hd ▸ hc, hrest⟩

theorem BlockOp.lands_begin (op : BlockOp) : Lands i (op.begin i a) := by
  have hblock := h.payload a.target
  unfold begin
  cases hpayload : i.payload a.target with
  | block b =>
    rw [hpayload] at hblock
    cases op with
    | call => exact h.lands hblock
    | asString | argumentNames => exact h.lands_alloc (p := .text _) trivial _ _
    | setIsActivatable => exact h.lands (ha.optional 0 trivial)
  | _ => exact h.lands trivial

theorem CallOp.lands_begin (op : CallOp) : Lands i (op.begin i a) := by
  unfold begin
  cases i.payload a.target with
  | call c =>
    cases op with
    | sender | target | activated => exact h.lands trivial
    | message => exact h.lands_alloc (p := .message _) trivial _ _
    | argCount => exact h.lands_alloc (p := .number _) trivial _ _
    | evalArgAt => exact h.lands (ha.required _ 0 trivial)
  | _ => exact h.lands trivial

omit ha in
theorem lands_siteObject (site : Option Site) : Lands i (siteObject i site) := by
  cases site with
  | none => exact h.lands trivial
  | some site => exact h.lands_alloc (p := .message _) trivial _ _

omit ha in
theorem MessageOp.lands_begin (op : MessageOp) : Lands i (op.begin i a) := by
  unfold begin
  cases i.payload a.target with
  | message site =>
    cases op with
    | name | asString => exact h.lands_alloc (p := .text _) trivial _ _
    | argCount => exact h.lands_alloc (p := .number _) trivial _ _
    | next => exact lands_siteObject h site.next?
    | previous => exact lands_siteObject h site.previous?
  | _ => exact h.lands trivial

/-- **How an operation starts.** -/
theorem Native.lands_begin (op : Native) : Lands i (op.begin i a) := by
  cases op with
  | object op => exact op.lands_begin ha h
  | block op => exact op.lands_begin ha h
  | call op => exact op.lands_begin ha h
  | message op => exact op.lands_begin h

theorem SlotUse.lands_perform (use : SlotUse) (n : Name) : Lands i (use.perform i a n) := by
  cases use with
  | set => exact h.lands (ha.required _ 1 trivial)
  | update =>
    unfold perform
    dsimp only
    cases i.lookup? a.target n with
    | none => exact h.lands trivial
    | some v => exact h.lands (ha.required _ 1 trivial)
  | get | has => exact h.lands trivial

omit ha in
/-- The arguments of a call can be written, whoever evaluates them. -/
theorem lands_evalArgAt (x : Binary64) : Lands i (evalArgAt i a x) := by
  have hcall := h.payload a.target
  unfold evalArgAt
  cases hpayload : i.payload a.target with
  | call c =>
    rw [hpayload] at hcall
    dsimp only
    split
    · rename_i chain hchain
      obtain ⟨index, -, hindex⟩ := Option.bind_eq_some_iff.mp hchain
      exact h.lands (Message.WellFormed.arg hcall chain (List.mem_of_getElem? hindex))
    · exact h.lands trivial
  | _ => exact h.lands trivial

/-- **How an operation goes on.** -/
theorem Pending.lands_resume {p : Pending} (hp : p.Legible i.names) (v : Ref) :
    Lands i (p.resume i a v) := by
  cases p with
  | returning | done => exact h.lands trivial
  | slotName use =>
    unfold resume
    dsimp only
    cases i.payload v with
    | text s =>
      have hext := Interner.extends_intern i.names s
      have hperform := use.lands_perform (i := (i.intern s).2)
        (Message.WellFormed.mono hext ha) (h.intern s) (i.intern s).1
      exact ⟨hext.trans hperform.grows, hperform.image, hperform.demand⟩
    | _ => exact h.lands trivial
  | slotValue n => exact .of_eq (h.setSlot a.target n v) rfl trivial
  | proto => exact .of_eq (h.appendProto a.target v) rfl trivial
  | line text coming =>
    cases coming with
    | nil => exact .of_eq (h.of_eq rfl rfl) rfl trivial
    | cons c rest =>
      obtain ⟨hc, hrest⟩ := List.forall_mem_cons.mp hp
      exact h.lands ⟨fun d hd => Option.some.inj hd ▸ hc, hrest⟩
  | flag => exact .of_eq (h.setActivatable a.target _) rfl trivial
  | index =>
    unfold resume
    dsimp only
    cases i.payload v with
    | number x => exact lands_evalArgAt h x
    | _ => exact h.lands trivial

end

/-! ## §4. Steps. -/

namespace Machine

/-- All the code that a machine holds can be written. -/
structure Legible (m : Machine) : Prop where
  image : m.image.Legible
  control : m.control.Legible m.image.names
  stack : ∀ f ∈ m.stack, f.Legible m.image.names

/-- An image, and frames whose code can be written with its names. -/
structure Backs (i : Image) (stack : List Frame) : Prop where
  image : i.Legible
  stack : ∀ f ∈ stack, f.Legible i.names

section

variable {i j : Image} {stack : List Frame} (h : Backs i stack)

include h

/-- Another image behind the same frames. -/
theorem Backs.after (hj : j.Legible) (hext : i.names.Extends j.names) : Backs j stack :=
  ⟨hj, fun f hf => (h.stack f hf).mono hext⟩

/-- The image with another number of activations. -/
theorem Backs.setDepth (depth : Nat) : Backs { i with depth := depth } stack :=
  h.after (h.image.of_eq rfl rfl) (.refl _)

/-- One more frame. -/
theorem Backs.push {f : Frame} (hf : f.Legible i.names) : Backs i (f :: stack) :=
  ⟨h.image, List.forall_mem_cons.mpr ⟨hf, h.stack⟩⟩

theorem Backs.legible {control : Control} (hcontrol : control.Legible i.names) :
    Legible ⟨i, control, stack⟩ :=
  ⟨h.image, hcontrol, h.stack⟩

/-- A result for the topmost frame. -/
theorem Backs.value (v : Ref) : Legible ⟨i, .value v, stack⟩ := h.legible trivial

/-- A signal for the topmost frame. -/
theorem Backs.unwind (s : Signal) : Legible ⟨i, .unwind s, stack⟩ := h.legible trivial

/-- A whole chain is gone through. -/
theorem Backs.walk {c : Chain} (hc : Chain.WellFormed i.names c) (locals : Ref) :
    Legible ⟨i, .walk (.start c locals), stack⟩ :=
  h.legible hc.all

theorem legible_enterBody {b : Binding} (hb : b.Legible i.names) :
    (enterBody i b stack).Legible := by
  have hcalled := ((h.image.alloc (p := .call ⟨b.activation.locals, b.activation.target, b.block,
    b.activation.site⟩) hb.activation [Builtin.call.ref]).setSlot b.scope i.selfName
      (b.code.captured.getD b.activation.target)).setSlot b.scope i.callName
      ⟨i.objects.cells.size⟩
  have hafter := h.after hcalled (.refl _)
  unfold enterBody
  dsimp only
  cases hbody : b.code.body with
  | some body => exact (hafter.push (f := .body b.scope) trivial).walk (hb.code.body body hbody) _
  | none => exact (hafter.setDepth _).value _

theorem legible_bindNext {b : Binding} (hb : b.Legible i.names) : (bindNext i b stack).Legible := by
  have hargs := hb.args
  unfold bindNext
  split
  · exact legible_enterBody h hb
  · rename_i p params _ _
    exact (h.push (f := .bind { b with params := params } p)
      ⟨hb.code, hb.activation, hargs⟩).value _
  · rename_i p params arg args _ hsplit
    rw [hsplit] at hargs
    obtain ⟨harg, hrest⟩ := List.forall_mem_cons.mp hargs
    exact (h.push (f := .bind { b with params := params, args := args } p)
      ⟨hb.code, hb.activation, hrest⟩).walk harg _

theorem legible_enterBlock {code : Block} (hcode : code.Legible i.names) {a : Activation}
    (ha : a.Legible i.names) (block : Ref) : (enterBlock i block code a stack).Legible := by
  unfold enterBlock
  split
  · exact h.unwind _
  · have hscope := (h.setDepth (i.depth + 1)).image.alloc (p := .plain) trivial
      [Builtin.object.ref]
    exact legible_bindNext (h.after hscope (.refl _)) ⟨hcode, ha, ha.arg⟩

theorem legible_meet {d : Demand} (hd : d.Legible i.names) {a : Activation}
    (ha : a.Legible i.names) : (meet i d a stack).Legible := by
  cases d with
  | answer v => exact h.value v
  | raise s => exact h.unwind s
  | argument chain locals pending =>
    have hpushed := h.push (f := .native a pending) ⟨ha, hd.2⟩
    cases chain with
    | none => exact hpushed.value _
    | some chain => exact hpushed.walk (hd.1 chain rfl) locals
  | delegate chain locals => exact h.walk hd locals
  | activate block code => exact legible_enterBlock h hd ha block

/-- An operation that has done something is given what it asks for. -/
theorem legible_meet_of_lands {x : Image × Demand} (hx : Lands i x) {a : Activation}
    (ha : a.Legible i.names) : (meet x.1 x.2 a stack).Legible :=
  legible_meet (h.after hx.image hx.grows) hx.demand (Message.WellFormed.mono hx.grows ha)

theorem legible_activate (slot : Ref) {a : Activation} (ha : a.Legible i.names) :
    (activate i slot a stack).Legible := by
  have hslot := h.image.payload slot
  unfold activate
  cases hpayload : i.payload slot with
  | native op => exact legible_meet_of_lands h (op.lands_begin ha h.image) ha
  | block b =>
    rw [hpayload] at hslot
    dsimp only
    split
    · exact legible_enterBlock h hslot ha slot
    · exact h.value slot
  | _ => exact h.value slot

theorem legible_stepWalk {w : Walk} (hw : ∀ m ∈ w.coming, m.WellFormed i.names) :
    (stepWalk i w stack).Legible := by
  unfold stepWalk
  cases hcoming : w.coming with
  | nil => exact h.value w.result
  | cons m rest =>
    rw [hcoming] at hw
    obtain ⟨hm, hrest⟩ := List.forall_mem_cons.mp hw
    -- a literal may be met for the first time, which changes no name
    have hliteral (c : Constant) :
        (continueWith (i.literal c).2 w (i.literal c).1 m rest stack).Legible := by
      have hnames : (i.literal c).2.names = i.names := by
        unfold Image.literal
        cases i.literals.lookup c with
        | some r => rfl
        | none => cases c <;> rfl
      have hext : i.names.Extends (i.literal c).2.names := hnames ▸ .refl _
      exact (h.after (h.image.literal c) hext).legible fun m' hm' => (hrest m' hm').mono hext
    dsimp only
    cases m.symbol with
    | separator mark => exact h.legible hrest
    | number x => exact hliteral (.number x.bits)
    | text s => exact hliteral (.text s)
    | ident n =>
      dsimp only
      unfold send
      split
      · exact legible_activate (h.push (f := .send _ _ _ _ ⟨w.passed, m, rest⟩) hrest) _ hm
      · exact h.unwind _

/-- The end of an activation, with or without a collection. -/
theorem Backs.leaveBody (kept : List Ref) : Backs (leaveBody i kept stack) stack := by
  have hnames : (i.collectIfDue (kept ++ stackRefs stack)).names = i.names := by
    unfold Image.collectIfDue
    split <;> rfl
  have hcollected := h.after (h.image.collectIfDue (kept ++ stackRefs stack)) (hnames ▸ .refl _)
  exact hcollected.setDepth _

end

variable {i : Image} {stack : List Frame} {frame : Frame} {m : Machine}

theorem legible_resume (h : Backs i (frame :: stack)) (v : Ref) :
    (resume i v frame stack).Legible := by
  obtain ⟨hframe, hstack⟩ := List.forall_mem_cons.mp h.stack
  have hrest : Backs i stack := ⟨h.image, hstack⟩
  cases frame with
  | send locals receiver result slot site => exact hrest.legible hframe
  | native a pending =>
    exact legible_meet_of_lands hrest (pending.lands_resume hframe.1 h.image hframe.2 v) hframe.1
  | bind b param =>
    exact legible_bindNext (hrest.after (h.image.setSlot b.scope param v) (.refl _)) hframe
  | body scope => exact (hrest.leaveBody [v]).value v

theorem legible_unwind (h : Backs i (frame :: stack)) (s : Signal) :
    (unwind i s frame stack).Legible := by
  have hrest : Backs i stack := ⟨h.image, (List.forall_mem_cons.mp h.stack).2⟩
  cases frame with
  | send locals receiver result slot site => exact hrest.unwind _
  | native a pending => exact hrest.unwind s
  | bind b param => exact (hrest.setDepth _).unwind s
  | body scope => cases s <;> exact (hrest.leaveBody _).legible trivial

/-- **A step keeps machines legible.** -/
theorem Legible.step (h : m.Legible) : m.step.Legible := by
  obtain ⟨i, control, stack⟩ := m
  have hbacks : Backs i stack := ⟨h.image, h.stack⟩
  cases control with
  | walk w => exact legible_stepWalk hbacks h.control
  | value v =>
    cases stack with
    | nil => exact h
    | cons frame stack => exact legible_resume hbacks v
  | unwind s =>
    cases stack with
    | nil => exact h
    | cons frame stack => exact legible_unwind hbacks s

/-- **As far as a program has come**, its machine is legible. -/
theorem Legible.iterate (h : m.Legible) (k : Nat) : (Machine.step^[k] m).Legible := by
  induction k with
  | zero => exact h
  | succ k ih =>
    rw [Function.iterate_succ_apply']
    exact ih.step

end Machine

end Prototalk
