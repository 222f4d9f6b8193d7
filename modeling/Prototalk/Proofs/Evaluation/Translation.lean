/-
  Prototalk.Proofs.Evaluation.Translation
  ────────────────────────────────
  **THE SAME PROGRAM WITH OTHER NAMES.**

  Two machines are translations of each other if they are at the same point
  of programs that say the same, in images that are translations of each
  other.  They take the same step, and stay translations of each other in a
  dictionary that has grown by at most one pair: a program gives a text a
  name when it asks for a slot by a string.

    • `Native.begin_translates`, `Pending.resume_translates` — operations ask
      for the same and do the same,
    • `Machine.Translates.step` — one step, and `Machine.Translates.run` — a
      run,
    • `Image.Translates.doSource` — whole programs.
-/
import Prototalk.Proofs.Evaluation.Program
import Prototalk.Proofs.Evaluation.Unplaced
import Prototalk.Proofs.Image.Translation
import Prototalk.Proofs.Message.Reading

namespace Prototalk

/-! ## §1. Machines with other names. -/

/-- The walks are at the same point of chains that say the same. -/
structure Walk.Translates (d : Dictionary) (w w' : Walk) : Prop where
  locals_eq : w'.locals = w.locals
  receiver_eq : w'.receiver = w.receiver
  result_eq : w'.result = w.result
  passed : Chain.Translates d w.passed w'.passed
  coming : Chain.Translates d w.coming w'.coming

/-- The activations are of the same message in the same circumstances. -/
structure Activation.Translates (d : Dictionary) (a a' : Activation) : Prop where
  target_eq : a'.target = a.target
  locals_eq : a'.locals = a.locals
  site : a.site.Translates d a'.site

/-- The operations wait for the same. -/
inductive Pending.Translates (d : Dictionary) : Pending → Pending → Prop where
  | returning : Pending.Translates d .returning .returning
  | slotName (use : SlotUse) : Pending.Translates d (.slotName use) (.slotName use)
  | slotValue {n k : Name} (h : d.Pairs n k) : Pending.Translates d (.slotValue n) (.slotValue k)
  | proto : Pending.Translates d .proto .proto
  | done : Pending.Translates d .done .done
  | line (text : String) {cs cs' : List Chain} (h : List.Forall₂ (Chain.Translates d) cs cs') :
      Pending.Translates d (.line text cs) (.line text cs')
  | flag : Pending.Translates d .flag .flag
  | index : Pending.Translates d .index .index

/-- The bindings are of the same block and equally far. -/
structure Binding.Translates (d : Dictionary) (b b' : Binding) : Prop where
  block_eq : b'.block = b.block
  code : b.code.Translates d b'.code
  activation : b.activation.Translates d b'.activation
  scope_eq : b'.scope = b.scope
  params : List.Forall₂ d.Pairs b.params b'.params
  args : List.Forall₂ (Chain.Translates d) b.args b'.args

/-- The frames wait for the same. -/
inductive Frame.Translates (d : Dictionary) : Frame → Frame → Prop where
  | send (locals receiver result slot : Ref) {s s' : Site} (h : s.Translates d s') :
      Frame.Translates d (.send locals receiver result slot s)
        (.send locals receiver result slot s')
  | native {a a' : Activation} {p p' : Pending} (ha : a.Translates d a') (hp : p.Translates d p') :
      Frame.Translates d (.native a p) (.native a' p')
  | bind {b b' : Binding} {n k : Name} (hb : b.Translates d b') (hnk : d.Pairs n k) :
      Frame.Translates d (.bind b n) (.bind b' k)
  | body (scope : Ref) : Frame.Translates d (.body scope) (.body scope)

/-- The machines do the same. -/
inductive Control.Translates (d : Dictionary) : Control → Control → Prop where
  | walk {w w' : Walk} (h : w.Translates d w') : Control.Translates d (.walk w) (.walk w')
  | value (v : Ref) : Control.Translates d (.value v) (.value v)
  | unwind (s : Signal) : Control.Translates d (.unwind s) (.unwind s)

/-- The machines are at the same point of programs that say the same. -/
structure Machine.Translates (d : Dictionary) (m m' : Machine) : Prop where
  image : m.image.Translates d m'.image
  control : m.control.Translates d m'.control
  stack : List.Forall₂ (Frame.Translates d) m.stack m'.stack

/-- The demands ask for the same. -/
inductive Demand.Translates (d : Dictionary) : Demand → Demand → Prop where
  | answer (v : Ref) : Demand.Translates d (.answer v) (.answer v)
  | raise (s : Signal) : Demand.Translates d (.raise s) (.raise s)
  | argument {c c' : Option Chain} {p p' : Pending} (hc : Option.Rel (Chain.Translates d) c c')
      (locals : Ref) (hp : p.Translates d p') :
      Demand.Translates d (.argument c locals p) (.argument c' locals p')
  | delegate {c c' : Chain} (hc : Chain.Translates d c c') (locals : Ref) :
      Demand.Translates d (.delegate c locals) (.delegate c' locals)
  | activate (block : Ref) {code code' : Block} (hcode : code.Translates d code') :
      Demand.Translates d (.activate block code) (.activate block code')

/-- The same demand, in images that are translations of each other. -/
structure Demanded (d : Dictionary) (x y : Image × Demand) : Prop where
  image : x.1.Translates d y.1
  demand : x.2.Translates d y.2

/-! ### Larger dictionaries -/

section

variable {d d' : Dictionary} (hext : d.Extends d')

include hext

theorem Activation.Translates.mono {a a' : Activation} (h : a.Translates d a') :
    a.Translates d' a' :=
  ⟨h.target_eq, h.locals_eq, h.site.mono hext⟩

theorem Pending.Translates.mono {p p' : Pending} (h : p.Translates d p') :
    p.Translates d' p' := by
  cases h with
  | returning => exact .returning
  | slotName use => exact .slotName use
  | slotValue h => exact .slotValue (h.mono hext)
  | proto => exact .proto
  | done => exact .done
  | line text h => exact .line text (h.imp fun _ _ hc => Chain.Translates.mono hext hc)
  | flag => exact .flag
  | index => exact .index

theorem Binding.Translates.mono {b b' : Binding} (h : b.Translates d b') : b.Translates d' b' where
  block_eq := h.block_eq
  code := h.code.mono hext
  activation := h.activation.mono hext
  scope_eq := h.scope_eq
  params := h.params.imp fun _ _ hn => hn.mono hext
  args := h.args.imp fun _ _ hc => Chain.Translates.mono hext hc

theorem Frame.Translates.mono {f f' : Frame} (h : f.Translates d f') : f.Translates d' f' := by
  cases h with
  | send locals receiver result slot h => exact .send locals receiver result slot (h.mono hext)
  | native ha hp => exact .native (ha.mono hext) (hp.mono hext)
  | bind hb hnk => exact .bind (hb.mono hext) (hnk.mono hext)
  | body scope => exact .body scope

end

/-! ## §2. Operations. -/

section

variable {d : Dictionary} {i j : Image} {a a' : Activation}

theorem Demand.Translates.fail (fault : EvalFault) :
    (Activation.fail fault).Translates d (Activation.fail fault) := .raise _

namespace Activation.Translates

variable (ha : a.Translates d a')

include ha

theorem args : List.Forall₂ (Chain.Translates d) a.args a'.args := ha.site.message.args

theorem slotName_eq : a'.slotName d.right = a.slotName d.left := by
  have hname := ha.site.message.name?
  unfold slotName
  generalize a.site.message.name? = x, a'.site.message.name? = y at hname ⊢
  cases hname with
  | none => rfl
  | some hn => exact hn.text_eq

theorem optional (index : Nat) {p p' : Pending} (hp : p.Translates d p') :
    (a.optional index p).Translates d (a'.optional index p') := by
  unfold Activation.optional
  rw [ha.locals_eq]
  exact .argument (rel_getElem? ha.args index) _ hp

theorem required (index : Nat) {p p' : Pending} (hp : p.Translates d p') :
    (a.required d.left index p).Translates d (a'.required d.right index p') := by
  have harg := rel_getElem? ha.args index
  unfold Activation.required
  rw [ha.locals_eq, ha.slotName_eq]
  generalize a.args[index]? = x, a'.args[index]? = y at harg ⊢
  cases harg with
  | none => exact .fail _
  | some hc => exact .argument (.some hc) _ hp

theorem wrongArgument (index : Nat) (expected : Wanted) :
    (a.wrongArgument d.left index expected).Translates d
      (a'.wrongArgument d.right index expected) := by
  rw [Activation.wrongArgument, Activation.wrongArgument, ha.slotName_eq]
  exact .fail _

theorem wrongReceiver (expected : Wanted) :
    (a.wrongReceiver d.left expected).Translates d (a'.wrongReceiver d.right expected) := by
  rw [Activation.wrongReceiver, Activation.wrongReceiver, ha.slotName_eq]
  exact .fail _

end Activation.Translates

/-! ### Starting an operation -/

theorem paramNames_translates {cs cs' : List Chain}
    (h : List.Forall₂ (Chain.Translates d) cs cs') (index : Nat) :
    Agree (List.Forall₂ d.Pairs) (paramNames index cs) (paramNames index cs') := by
  induction h generalizing index with
  | nil => exact .ok .nil
  | @cons c c' cs cs' hc _ ih =>
    have hname := hc.bareName?
    have hrest := ih (index + 1)
    unfold paramNames
    generalize c.bareName? = x, c'.bareName? = y at hname ⊢
    cases hname with
    | none => exact .error index
    | some hn =>
      dsimp only
      generalize paramNames (index + 1) cs = x, paramNames (index + 1) cs' = y at hrest ⊢
      cases hrest with
      | ok hns => exact .ok (.cons hn hns)
      | error e => exact .error e

variable (h : i.Translates d j) (ha : a.Translates d a')

/-- The answer is a new object. -/
theorem Made.demanded {x y : Ref × Image} (hmade : Made d x y) :
    Demanded d (x.2, .answer x.1) (y.2, .answer y.1) := by
  refine ⟨hmade.image, ?_⟩
  rw [hmade.ref_eq]
  exact .answer x.1

include h ha

theorem blockOfArgs_translates (captured : Option Ref) :
    Demanded d (blockOfArgs i a captured) (blockOfArgs j a' captured) := by
  have hparams := paramNames_translates (forall₂_dropLast ha.args) 0
  unfold blockOfArgs
  rw [h.left, h.right]
  generalize paramNames 0 a.args.dropLast = x, paramNames 0 a'.args.dropLast = y at hparams ⊢
  cases hparams with
  | error index => exact ⟨h, ha.wrongArgument index .parameterName⟩
  | ok hns => exact (h.block (.new (rel_getLast? ha.args) hns captured)).demanded

theorem ObjectOp.begin_translates (op : ObjectOp) :
    Demanded d (op.begin i a) (op.begin j a') := by
  unfold ObjectOp.begin
  rw [h.left, h.right, ha.target_eq, ha.locals_eq]
  cases op with
  | makeBlock => exact blockOfArgs_translates h ha (some a.locals)
  | makeMethod => exact blockOfArgs_translates h ha none
  | returnValue => exact ⟨h, ha.optional 0 .returning⟩
  | setSlot => exact ⟨h, ha.required 0 (.slotName .set)⟩
  | updateSlot => exact ⟨h, ha.required 0 (.slotName .update)⟩
  | getSlot => exact ⟨h, ha.required 0 (.slotName .get)⟩
  | hasSlot => exact ⟨h, ha.required 0 (.slotName .has)⟩
  | clone => exact (h.cloneOf a.target).demanded
  | appendProto => exact ⟨h, ha.required 0 .proto⟩
  | doWithin => exact ⟨h, .argument (rel_getElem? ha.args 0) _ .done⟩
  | thisMessage => exact (h.message ha.site).demanded
  | print =>
    dsimp only
    rw [h.display_eq]
    exact ⟨h.print _, .answer _⟩
  | println =>
    dsimp only
    rw [h.display_eq]
    exact ⟨h.println _, .answer _⟩
  | writeln =>
    have hargs := ha.args
    dsimp only
    generalize a.args = x, a'.args = y at hargs ⊢
    cases hargs with
    | nil => exact ⟨h.println "", .answer _⟩
    | cons hc hrest => exact ⟨h, .argument (.some hc) _ (.line "" hrest)⟩

theorem BlockOp.begin_translates (op : BlockOp) : Demanded d (op.begin i a) (op.begin j a') := by
  have hpayload := h.payload a.target
  unfold BlockOp.begin
  rw [h.left, h.right, ha.target_eq]
  generalize i.payload a.target = p, j.payload a.target = p' at hpayload ⊢
  cases hpayload with
  | block hb =>
    cases op with
    | call => exact ⟨h, .activate _ hb⟩
    | asString =>
      dsimp only
      rw [hb.blockText_eq]
      exact (h.string _).demanded
    | argumentNames =>
      dsimp only
      rw [map_text_eq hb.params]
      exact (h.string _).demanded
    | setIsActivatable => exact ⟨h, ha.optional 0 .flag⟩
  | _ => exact ⟨h, ha.wrongReceiver .block⟩

theorem CallOp.begin_translates (op : CallOp) : Demanded d (op.begin i a) (op.begin j a') := by
  have hpayload := h.payload a.target
  unfold CallOp.begin
  rw [h.left, h.right, ha.target_eq]
  generalize i.payload a.target = p, j.payload a.target = p' at hpayload ⊢
  cases hpayload with
  | call hc =>
    dsimp only
    rw [hc.sender_eq, hc.target_eq, hc.activated_eq]
    cases op with
    | sender => exact ⟨h, .answer _⟩
    | target => exact ⟨h, .answer _⟩
    | message => exact (h.message hc.site).demanded
    | activated => exact ⟨h, .answer _⟩
    | argCount =>
      dsimp only
      rw [← hc.site.message.args.length_eq]
      exact (h.number _).demanded
    | evalArgAt => exact ⟨h, ha.required 0 .index⟩
  | _ => exact ⟨h, ha.wrongReceiver .call⟩

omit ha in
theorem siteObject_translates {s s' : Option Site} (hs : Option.Rel (Site.Translates d) s s') :
    Demanded d (siteObject i s) (siteObject j s') := by
  cases hs with
  | none => exact ⟨h, .answer _⟩
  | some hs => exact (h.message hs).demanded

theorem MessageOp.begin_translates (op : MessageOp) :
    Demanded d (op.begin i a) (op.begin j a') := by
  have hpayload := h.payload a.target
  unfold MessageOp.begin
  rw [h.left, h.right, ha.target_eq]
  generalize i.payload a.target = p, j.payload a.target = p' at hpayload ⊢
  cases hpayload with
  | @message s s' hs =>
    have hmessage := hs.message
    cases op with
    | name =>
      have hname := hmessage.name?
      dsimp only
      rw [hmessage.toSource_eq]
      generalize s.message.name? = x, s'.message.name? = y at hname ⊢
      cases hname with
      | none => exact (h.string _).demanded
      | some hn =>
        dsimp only
        rw [hn.text_eq]
        exact (h.string _).demanded
    | argCount =>
      dsimp only
      rw [← hmessage.args.length_eq]
      exact (h.number _).demanded
    | asString =>
      dsimp only
      rw [hmessage.toSource_eq]
      exact (h.string _).demanded
    | next => exact siteObject_translates h hs.next?
    | previous => exact siteObject_translates h hs.previous?
  | _ => exact ⟨h, ha.wrongReceiver .message⟩

/-- **An operation starts in the same way.** -/
theorem Native.begin_translates (op : Native) : Demanded d (op.begin i a) (op.begin j a') := by
  cases op with
  | object op => exact op.begin_translates h ha
  | block op => exact op.begin_translates h ha
  | call op => exact op.begin_translates h ha
  | message op => exact op.begin_translates h ha

/-! ### Going on with an argument -/

theorem SlotUse.perform_translates (use : SlotUse) {n k : Name} (hnk : d.Pairs n k) :
    Demanded d (use.perform i a n) (use.perform j a' k) := by
  have hvalue := ha.required 1 (.slotValue hnk)
  unfold SlotUse.perform
  rw [h.left, h.right, ha.target_eq, h.lookup?_eq _ hnk, hnk.text_eq]
  cases use with
  | set => exact ⟨h, hvalue⟩
  | update =>
    dsimp only
    cases i.lookup? a.target n with
    | some v => exact ⟨h, hvalue⟩
    | none => exact ⟨h, .fail _⟩
  | get => exact ⟨h, .answer _⟩
  | has => exact ⟨h, .answer _⟩

theorem evalArgAt_translates (x : Binary64) : Demanded d (evalArgAt i a x) (evalArgAt j a' x) := by
  have hpayload := h.payload a.target
  unfold evalArgAt
  rw [h.left, h.right, ha.target_eq]
  generalize i.payload a.target = p, j.payload a.target = p' at hpayload ⊢
  cases hpayload with
  | @call c c' hc =>
    have hargs := hc.site.message.args
    dsimp only
    rw [hc.sender_eq, ← hargs.length_eq]
    cases x.asIndex? with
    | none => exact ⟨h, .fail _⟩
    | some index =>
      have harg := rel_getElem? hargs index
      simp only [Option.bind_some]
      generalize c.site.message.args[index]? = y, c'.site.message.args[index]? = y' at harg ⊢
      cases harg with
      | none => exact ⟨h, .fail _⟩
      | some harg => exact ⟨h, .delegate harg _⟩
  | _ => exact ⟨h, ha.wrongReceiver .call⟩

/-- **An operation goes on in the same way.**  A string that is taken as the name of a slot is
given a name on both sides. -/
theorem Pending.resume_translates {p p' : Pending} (hp : p.Translates d p') (v : Ref) :
    ∃ d', d.Extends d' ∧ Demanded d' (p.resume i a v) (p'.resume j a' v) := by
  have hstays : ∀ {x y : Image × Demand}, Demanded d x y → ∃ d', d.Extends d' ∧ Demanded d' x y :=
    fun hxy => ⟨d, .refl d, hxy⟩
  have hpayload := h.payload v
  cases hp with
  | returning => exact hstays ⟨h, .raise _⟩
  | slotName use =>
    unfold Pending.resume
    rw [h.left, h.right]
    generalize i.payload v = q, j.payload v = q' at hpayload ⊢
    cases hpayload with
    | text s =>
      have hext := d.extends_intern s
      exact ⟨d.intern s, hext,
        use.perform_translates (h.intern s) (ha.mono hext) (h.pairs_intern s)⟩
    | _ => exact hstays ⟨h, ha.wrongArgument 0 .string⟩
  | slotValue hnk =>
    unfold Pending.resume
    rw [ha.target_eq]
    exact hstays ⟨h.setSlot _ hnk v, .answer v⟩
  | proto =>
    unfold Pending.resume
    rw [ha.target_eq]
    exact hstays ⟨h.appendProto _ v, .answer _⟩
  | done =>
    unfold Pending.resume
    rw [ha.target_eq]
    exact hstays ⟨h, .answer _⟩
  | line text hcs =>
    unfold Pending.resume
    rw [h.display_eq, ha.locals_eq]
    cases hcs with
    | nil => exact hstays ⟨h.println _, .answer _⟩
    | cons hc hrest => exact hstays ⟨h, .argument (.some hc) _ (.line _ hrest)⟩
  | flag =>
    unfold Pending.resume
    rw [ha.target_eq, hpayload.isTruthy_eq]
    exact hstays ⟨h.setActivatable _ _, .answer _⟩
  | index =>
    unfold Pending.resume
    rw [h.left, h.right]
    generalize i.payload v = q, j.payload v = q' at hpayload ⊢
    cases hpayload with
    | number x => exact hstays (evalArgAt_translates h ha x)
    | _ => exact hstays ⟨h, ha.wrongArgument 0 .number⟩

end

/-! ## §3. Steps. -/

theorem Frame.Translates.refs_eq {d : Dictionary} {f f' : Frame} (h : f.Translates d f') :
    f'.refs = f.refs := by
  cases h with
  | send locals receiver result slot h => rfl
  | native ha hp => rw [refs, refs, Activation.refs, Activation.refs, ha.target_eq, ha.locals_eq]
  | bind hb hnk =>
    rw [refs, refs, Binding.refs, Binding.refs, hb.block_eq, hb.scope_eq, Activation.refs,
      Activation.refs, hb.activation.target_eq, hb.activation.locals_eq]
  | body scope => rfl

theorem Walk.Translates.start {d : Dictionary} {c c' : Chain} (h : Chain.Translates d c c')
    (locals : Ref) : (Walk.start c locals).Translates d (.start c' locals) :=
  ⟨rfl, rfl, rfl, .nil, h⟩

namespace Machine

variable {d : Dictionary} {i j : Image} {a a' : Activation} {stack stack' : List Frame}

theorem stackRefs_eq (hstack : List.Forall₂ (Frame.Translates d) stack stack') :
    stackRefs stack' = stackRefs stack := by
  unfold stackRefs
  induction hstack with
  | nil => rfl
  | cons hf _ ih => rw [List.flatMap_cons, List.flatMap_cons, hf.refs_eq, ih]

variable (h : i.Translates d j) (hstack : List.Forall₂ (Frame.Translates d) stack stack')

include h hstack

/-! ### Activations of blocks -/

omit hstack in
theorem entered_translates {b b' : Binding} (hb : b.Translates d b') :
    (entered i b).Translates d (entered j b') := by
  obtain ⟨block, code, ⟨target, locals, site⟩, scope, params, args⟩ := b
  obtain ⟨block', code', ⟨target', locals', site'⟩, scope', params', args'⟩ := b'
  obtain ⟨hblock, hcode, ⟨htarget, hlocals, hsite⟩, hscope, -, -⟩ := hb
  dsimp only at hblock hcode htarget hlocals hsite hscope
  subst hblock htarget hlocals hscope
  have hcall : CallRecord.Translates d ⟨locals', target', block', site⟩
      ⟨locals', target', block', site'⟩ := ⟨rfl, rfl, rfl, hsite⟩
  have hmade := h.alloc (.call hcall) [Builtin.call.ref]
  -- `self` and `call` are slots of the scope under the names that each image has for them
  have hself := hmade.image.setSlot scope' hmade.image.selfName (code.captured.getD target')
  unfold entered
  dsimp only
  rw [hmade.ref_eq, hcode.captured_eq]
  exact hself.setSlot scope' hself.callName _

theorem enterBody_translates {b b' : Binding} (hb : b.Translates d b') :
    (enterBody i b stack).Translates d (enterBody j b' stack') := by
  have hentered := entered_translates h hb
  have hbody := hb.code.body
  rw [enterBody_eq, enterBody_eq, hb.scope_eq, hentered.depth_eq]
  generalize b.code.body = x, b'.code.body = y at hbody ⊢
  cases hbody with
  | some hc => exact ⟨hentered, .walk (.start hc _), .cons (.body _) hstack⟩
  | none => exact ⟨hentered.withDepth _, .value _, hstack⟩

theorem bindNext_translates {b b' : Binding} (hb : b.Translates d b') :
    (bindNext i b stack).Translates d (bindNext j b' stack') := by
  have hparams := hb.params
  have hargs := hb.args
  unfold bindNext
  rw [hb.activation.locals_eq]
  generalize b.params = ps, b'.params = ps' at hparams ⊢
  generalize b.args = cs, b'.args = cs' at hargs ⊢
  cases hparams with
  | nil => exact enterBody_translates h hstack hb
  | cons hp hparams =>
    have hrest : ∀ {cs cs' : List Chain}, List.Forall₂ (Chain.Translates d) cs cs' →
        Binding.Translates d { b with params := _, args := cs }
          { b' with params := _, args := cs' } :=
      fun hcs => { hb with params := hparams, args := hcs }
    cases hargs with
    | nil => exact ⟨h, .value _, .cons (.bind (hrest .nil) hp) hstack⟩
    | cons hc hcs =>
      exact ⟨h, .walk (.start hc _), .cons (.bind (hrest hcs) hp) hstack⟩

variable (ha : a.Translates d a')

include ha

theorem enterBlock_translates (block : Ref) {code code' : Block} (hcode : code.Translates d code') :
    (enterBlock i block code a stack).Translates d (enterBlock j block code' a' stack') := by
  have hsame : j.maxDepth ≤ j.depth ↔ i.maxDepth ≤ i.depth := by
    rw [h.maxDepth_eq, h.depth_eq]
  unfold enterBlock
  by_cases hfull : i.maxDepth ≤ i.depth
  · rw [if_pos hfull, if_pos (hsame.mpr hfull), h.maxDepth_eq]
    exact ⟨h, .unwind _, hstack⟩
  · rw [if_neg hfull, if_neg fun hfull' => hfull (hsame.mp hfull'), h.depth_eq]
    have hscope := (h.withDepth (i.depth + 1)).cloneOf Builtin.object.ref
    refine bindNext_translates hscope.image hstack ?_
    exact ⟨rfl, hcode, ha, hscope.ref_eq, hcode.params, ha.args⟩

/-! ### Operations and slots -/

theorem meet_translates {q q' : Demand} (hq : q.Translates d q') :
    (meet i q a stack).Translates d (meet j q' a' stack') := by
  cases hq with
  | answer v => exact ⟨h, .value v, hstack⟩
  | raise s => exact ⟨h, .unwind s, hstack⟩
  | argument hc locals hp =>
    cases hc with
    | some hc => exact ⟨h, .walk (.start hc locals), .cons (.native ha hp) hstack⟩
    | none => exact ⟨h, .value _, .cons (.native ha hp) hstack⟩
  | delegate hc locals => exact ⟨h, .walk (.start hc locals), hstack⟩
  | activate block hcode => exact enterBlock_translates h hstack ha block hcode

theorem activate_translates (slot : Ref) :
    (activate i slot a stack).Translates d (activate j slot a' stack') := by
  have hpayload := h.payload slot
  unfold activate
  generalize i.payload slot = p, j.payload slot = p' at hpayload ⊢
  cases hpayload with
  | native op =>
    have hbegin := op.begin_translates h ha
    exact meet_translates hbegin.image hstack ha hbegin.demand
  | block hb =>
    dsimp only
    rw [hb.activatable_eq]
    split
    · exact enterBlock_translates h hstack ha slot hb
    · exact ⟨h, .value slot, hstack⟩
  | _ => exact ⟨h, .value slot, hstack⟩

omit ha hstack in
theorem findSlot?_eq_of_pairs (receiver : Ref) {n k : Name} (hnk : d.Pairs n k) :
    findSlot? j receiver k = findSlot? i receiver n := by
  rw [findSlot?, findSlot?, h.lookup?_eq receiver hnk, h.lookup?_eq receiver h.forwardName]

omit ha

theorem send_translates {w w' : Walk} (hw : w.Translates d w') {n k : Name} (hnk : d.Pairs n k)
    {m m' : Message} (hm : m.Translates d m') {rest rest' : List Message}
    (hrest : Chain.Translates d rest rest') :
    (send i w n m rest stack).Translates d (send j w' k m' rest' stack') := by
  have hsite : Site.Translates d ⟨w.passed, m, rest⟩ ⟨w'.passed, m', rest'⟩ :=
    ⟨hw.passed, hm, hrest⟩
  unfold send
  rw [hw.receiver_eq, findSlot?_eq_of_pairs h w.receiver hnk, hw.locals_eq, hw.result_eq, h.left,
    h.right, hnk.text_eq, hm.span_eq]
  cases findSlot? i w.receiver n with
  | some slot =>
    refine activate_translates h (.cons (.send _ _ _ _ hsite) hstack) ?_ slot
    exact ⟨rfl, rfl, hsite⟩
  | none => exact ⟨h, .unwind _, hstack⟩

/-! ### Chains and frames -/

theorem continueWith_translates {w w' : Walk} (hw : w.Translates d w') (v : Ref) {m m' : Message}
    (hm : m.Translates d m') {rest rest' : List Message} (hrest : Chain.Translates d rest rest') :
    (continueWith i w v m rest stack).Translates d (continueWith j w' v m' rest' stack') :=
  ⟨h, .walk ⟨hw.locals_eq, rfl, rfl, .cons hm hw.passed, hrest⟩, hstack⟩

theorem stepWalk_translates {w w' : Walk} (hw : w.Translates d w') :
    (stepWalk i w stack).Translates d (stepWalk j w' stack') := by
  have hcoming := hw.coming
  unfold stepWalk
  generalize w.coming = x, w'.coming = y at hcoming ⊢
  cases hcoming with
  | nil =>
    dsimp only
    rw [hw.result_eq]
    exact ⟨h, .value _, hstack⟩
  | @cons m m' rest rest' hm hrest =>
    have hsymbol := hm.symbol
    dsimp only
    generalize m.symbol = s, m'.symbol = s' at hsymbol ⊢
    cases hsymbol with
    | separator mark =>
      refine ⟨h, .walk ⟨hw.locals_eq, hw.locals_eq, hw.result_eq, ?_, hrest⟩, hstack⟩
      exact .cons hm hw.passed
    | number x =>
      have hmade := h.literal (.number x.bits)
      dsimp only
      rw [hmade.ref_eq]
      exact continueWith_translates hmade.image hstack hw _ hm hrest
    | text s =>
      have hmade := h.literal (.text s)
      dsimp only
      rw [hmade.ref_eq]
      exact continueWith_translates hmade.image hstack hw _ hm hrest
    | ident hnk => exact send_translates h hstack hw hnk hm hrest

theorem leaveBody_translates (kept : List Ref) :
    (leaveBody i kept stack).Translates d (leaveBody j kept stack') := by
  have hcollected := h.collectIfDue (kept ++ stackRefs stack)
  unfold leaveBody
  -- the frames hold the same objects, so the collections start from the same handles
  rw [stackRefs_eq hstack]
  dsimp only
  rw [hcollected.depth_eq]
  exact hcollected.withDepth _

theorem resume_translates (v : Ref) {f f' : Frame} (hf : f.Translates d f') :
    ∃ d', (resume i v f stack).Translates d' (resume j v f' stack') := by
  cases hf with
  | send locals receiver result slot hs =>
    refine ⟨d, continueWith_translates h hstack ?_ v hs.message hs.after⟩
    exact ⟨rfl, rfl, rfl, hs.before, hs.after⟩
  | native ha hp =>
    -- the one step that may enlarge the dictionary: all that waits is carried over
    obtain ⟨d', hext, hdemanded⟩ := Pending.resume_translates h ha hp v
    exact ⟨d', meet_translates hdemanded.image (hstack.imp fun _ _ hf => hf.mono hext)
      (ha.mono hext) hdemanded.demand⟩
  | bind hb hnk =>
    unfold resume
    dsimp only
    rw [hb.scope_eq]
    exact ⟨d, bindNext_translates (h.setSlot _ hnk v) hstack hb⟩
  | body scope => exact ⟨d, leaveBody_translates h hstack [v], .value v, hstack⟩

theorem unwind_translates (s : Signal) {f f' : Frame} (hf : f.Translates d f') :
    (unwind i s f stack).Translates d (unwind j s f' stack') := by
  cases hf with
  | send locals receiver result slot hs =>
    unfold unwind
    dsimp only
    rw [hs.message.span_eq]
    exact ⟨h, .unwind _, hstack⟩
  | native ha hp => exact ⟨h, .unwind s, hstack⟩
  | bind hb hnk =>
    unfold unwind
    rw [h.depth_eq]
    exact ⟨h.withDepth _, .unwind s, hstack⟩
  | body scope =>
    have hleft := leaveBody_translates h hstack s.refs
    cases s with
    | returning v => exact ⟨hleft, .value v, hstack⟩
    | failed e => exact ⟨hleft, .unwind _, hstack⟩

omit h hstack

variable {m m' : Machine}

/-- **Machines that are translations of each other take the same step.** -/
theorem Translates.step (hm : m.Translates d m') : ∃ d', m.step.Translates d' m'.step := by
  obtain ⟨i, control, stack⟩ := m
  obtain ⟨j, control', stack'⟩ := m'
  obtain ⟨himage, hcontrol, hstack⟩ := hm
  dsimp only at himage hcontrol hstack
  cases hcontrol with
  | walk hw => exact ⟨d, stepWalk_translates himage hstack hw⟩
  | value v =>
    cases hstack with
    | nil => exact ⟨d, himage, .value v, .nil⟩
    | cons hf hstack => exact resume_translates himage hstack v hf
  | unwind s =>
    cases hstack with
    | nil => exact ⟨d, himage, .unwind s, .nil⟩
    | cons hf hstack => exact ⟨d, unwind_translates himage hstack s hf⟩

/-! ## §4. Runs. -/

theorem Translates.isDone_eq (hm : m.Translates d m') : m'.isDone = m.isDone := by
  obtain ⟨i, control, stack⟩ := m
  obtain ⟨j, control', stack'⟩ := m'
  obtain ⟨-, hcontrol, hstack⟩ := hm
  dsimp only at hcontrol hstack
  cases hcontrol <;> cases hstack <;> rfl

theorem Translates.result_eq (hm : m.Translates d m') : m'.result = m.result := by
  have hcontrol := hm.control
  unfold result
  generalize m.control = x, m'.control = y at hcontrol ⊢
  cases hcontrol with
  | walk hw => exact congrArg Except.ok hw.result_eq
  | value v => rfl
  | unwind s => rfl

/-- **Machines that are translations of each other run alike.** -/
theorem Translates.run (hm : m.Translates d m') (fuel : Nat) :
    Option.Rel (fun m m' => ∃ d', m.Translates d' m') (run fuel m) (run fuel m') := by
  induction fuel generalizing d m m' with
  | zero =>
    rw [Machine.run, Machine.run, hm.isDone_eq]
    split
    · exact .some ⟨d, hm⟩
    · exact .none
  | succ fuel ih =>
    obtain ⟨d', hstep⟩ := hm.step
    rw [Machine.run, Machine.run, hm.isDone_eq]
    split
    · exact .some ⟨d, hm⟩
    · exact ih hstep

end Machine

/-! ## §5. Programs. -/

/-- The runs ended with the same result, in images that are translations of each other. -/
def Ran.Translates (x y : Ran) : Prop := y.result = x.result ∧ ∃ d, x.image.Translates d y.image

namespace Image.Translates

variable {d : Dictionary} {i j : Image} (h : i.Translates d j) (fuel : Nat)

include h

theorem evaluate {c c' : Chain} (hc : Chain.Translates d c c') (locals : Ref) :
    Option.Rel Ran.Translates (i.evaluate fuel c locals) (j.evaluate fuel c' locals) := by
  have hstart : (Machine.start i c locals).Translates d (.start j c' locals) :=
    ⟨h, .walk (.start hc locals), .nil⟩
  refine rel_map (hstart.run fuel) fun m m' hm => ?_
  obtain ⟨d', hm⟩ := hm
  exact ⟨hm.result_eq, d', hm.image⟩

theorem runChain {c c' : Option Chain} (hc : Option.Rel (Chain.Translates d) c c') :
    Option.Rel Ran.Translates (i.runChain fuel c) (j.runChain fuel c') := by
  cases hc with
  | none => exact .some ⟨rfl, d, h⟩
  | some hc =>
    refine rel_map (h.evaluate fuel hc Builtin.lobby.ref) fun x y hxy => ?_
    obtain ⟨hresult, d', himage⟩ := hxy
    refine ⟨hresult, d', ?_⟩
    rw [hresult]
    exact himage.collectIfDue _

/-- The names that a source has are paired, whether it is a program or not. -/
theorem parsed (mode : LexMode) (source : Source) :
    ∃ d', d.Extends d' ∧
      (parseSource i.names mode source).Translates d' (parseSource j.names mode source) := by
  rw [h.left, h.right]
  exact parsed_parseSource d mode source

theorem runParsed (mode : LexMode) (source : Source) :
    Option.Rel Ran.Translates (i.runParsed fuel (parseSource i.names mode source))
      (j.runParsed fuel (parseSource j.names mode source)) := by
  obtain ⟨d', hext, hparsed⟩ := h.parsed mode source
  have hresult := hparsed.result
  have hnames := h.withNames hext
  unfold Image.runParsed
  rw [hparsed.left, hparsed.right]
  generalize (parseSource i.names mode source).result = x,
    (parseSource j.names mode source).result = y at hresult ⊢
  cases hresult with
  | ok hc => exact hnames.runChain fuel hc
  | error e => exact .some ⟨rfl, d', hnames⟩

/-- **A source gives the same result whatever the order of names.** -/
theorem doSource (source : Source) :
    Option.Rel Ran.Translates (i.doSource fuel source) (j.doSource fuel source) := by
  unfold Image.doSource
  rw [h.lexMode_eq]
  exact h.runParsed fuel i.lexMode source

/-- **A text gives the same result whatever the order of names.** -/
theorem doString (text : String) :
    Option.Rel Ran.Translates (i.doString fuel text) (j.doString fuel text) :=
  h.runParsed fuel .inline (.ofString text)

end Image.Translates

end Prototalk
