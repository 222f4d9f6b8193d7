/-
  Prototalk.Proofs.Evaluation.Location
  ────────────────────────────────
  **WHERE A PROGRAM FAILED.**

  An error is raised while a message is sent: when its slot is not found,
  or when the operation or the block that answers it fails.  At that moment
  the frame on top waits for the answer to this very message (`Anchored`),
  so the first place that the error gets is the message's own (`sent_step`,
  `FailsAt.placed`).  From then on nothing changes the error
  (`failure?_iterate_placed`), however many chains, arguments, operations
  and activations it leaves, and so it is the result of the program
  (`blames_of_run`).

  A text that is no program fails with the place of its parse error.
-/
import Prototalk.Proofs.Evaluation.Propagation

namespace Prototalk

/-! ## §1. The message that is sent. -/

/-- The frame on top waits for the answer to the message at `site`. -/
def Awaits (stack : List Frame) (site : Site) : Prop :=
  ∃ locals receiver result slot rest, stack = .send locals receiver result slot site :: rest

/-- An operation waits for its argument right above the message that it answers. -/
def Anchored : List Frame → Prop
  | [] => True
  | .native a _ :: rest => Awaits rest a.site ∧ Anchored rest
  | _ :: rest => Anchored rest

theorem Anchored.tail {frame : Frame} {rest : List Frame} (h : Anchored (frame :: rest)) :
    Anchored rest := by
  cases frame with
  | native a p => exact h.2
  | _ => exact h

namespace Machine

/-- The message that the next step sends, or goes on to answer: the next one of a chain, or the
innermost one that waits, if an operation got an argument. -/
def sending? (m : Machine) : Option Message :=
  match m.control, m.stack with
  | .walk w, _ => w.coming.head?
  | .value _, .native _ _ :: .send _ _ _ _ site :: _ => some site.message
  | _, _ => none

/-- The error that the frames are being left with. -/
def failure? (m : Machine) : Option EvalError :=
  match m.control with
  | .unwind (.failed e) => some e
  | _ => none

/-- The next step sends the message `msg`, and fails with `fault`. -/
structure Raises (m : Machine) (msg : Message) (fault : EvalFault) : Prop where
  sending : m.sending? = some msg
  raised : ∃ span, m.step.failure? = some ⟨fault, span⟩

/-! ## §2. Errors without a place. -/

variable {stack : List Frame} {i : Image} {a : Activation} {b : Binding} {m : Machine}
  {e : EvalError} {site : Site} {msg : Message}

theorem control_of_failure? (h : m.failure? = some e) : m.control = .unwind (.failed e) := by
  unfold failure? at h
  split at h
  case h_1 e' hcontrol => exact hcontrol.trans (congrArg _ (congrArg _ (Option.some.inj h)))
  case h_2 => cases h

/-- What was started above `stack` keeps operations at their messages; an error that it raises has
no place yet and is about to leave `stack`. -/
structure Bare (stack : List Frame) (m : Machine) : Prop where
  anchored : Anchored m.stack
  failing : ∀ e, m.failure? = some e → e.span = none ∧ m.stack = stack

theorem bare_of_calm (hanchored : Anchored m.stack) (hcalm : m.failure? = none) :
    Bare stack m := by
  refine ⟨hanchored, fun e he => ?_⟩
  rw [hcalm] at he
  cases he

theorem bare_raise (hstack : Anchored stack) {s : Signal} (hs : s.Bare) :
    Bare stack ⟨i, .unwind s, stack⟩ := by
  refine ⟨hstack, fun e he => ⟨?_, rfl⟩⟩
  cases control_of_failure? he
  exact hs

theorem failure?_bindNext (i : Image) (b : Binding) (stack : List Frame) :
    (bindNext i b stack).failure? = none := by
  unfold bindNext
  split
  · unfold enterBody
    dsimp only
    split <;> rfl
  · rfl
  · rfl

theorem anchored_bindNext (hstack : Anchored stack) : Anchored (bindNext i b stack).stack := by
  unfold bindNext
  split
  · unfold enterBody
    dsimp only
    split <;> exact hstack
  · exact hstack
  · exact hstack

theorem bare_enterBlock (hstack : Anchored stack) (block : Ref) (code : Block) :
    Bare stack (enterBlock i block code a stack) := by
  unfold enterBlock
  split
  · exact bare_raise hstack rfl
  · exact bare_of_calm (anchored_bindNext hstack) (failure?_bindNext ..)

theorem bare_meet (hstack : Anchored stack) (hsite : Awaits stack a.site) {d : Demand}
    (hd : d.Bare) : Bare stack (meet i d a stack) := by
  cases d with
  | answer v => exact bare_of_calm hstack rfl
  | raise s => exact bare_raise hstack hd
  | argument chain locals p => cases chain <;> exact bare_of_calm ⟨hsite, hstack⟩ rfl
  | delegate chain locals => exact bare_of_calm hstack rfl
  | activate block code => exact bare_enterBlock hstack block code

theorem bare_activate (hstack : Anchored stack) (hsite : Awaits stack a.site) (slot : Ref) :
    Bare stack (activate i slot a stack) := by
  unfold activate
  split
  · exact bare_meet hstack hsite (Native.discreet_begin _).failing
  · split
    · exact bare_enterBlock hstack slot _
    · exact bare_of_calm hstack rfl
  · exact bare_of_calm hstack rfl

/-! ## §3. The step that fails. -/

/-- If the machine fails, it fails because of the message `msg`: the error has its place, or is
about to get it from the frame that waits for the answer. -/
def FailsAt (msg : Message) (m : Machine) : Prop :=
  ∀ e, m.failure? = some e →
    e.span = some msg.span ∨ e.span = none ∧ ∃ site, site.message = msg ∧ Awaits m.stack site

theorem Bare.failsAt (h : Bare stack m) (hsite : Awaits stack site) : m.FailsAt site.message := by
  intro e he
  obtain ⟨hspan, hstack⟩ := h.failing e he
  exact .inr ⟨hspan, site, rfl, hstack ▸ hsite⟩

/-- What is left of a step that was to send `msg?`. -/
structure Sent (msg? : Option Message) (m : Machine) : Prop where
  anchored : Anchored m.stack
  failing : ∀ e, m.failure? = some e → ∃ msg, msg? = some msg ∧ m.FailsAt msg

theorem sent_of_calm {msg? : Option Message} (hanchored : Anchored m.stack)
    (hcalm : m.failure? = none) : Sent msg? m := by
  refine ⟨hanchored, fun e he => ?_⟩
  rw [hcalm] at he
  cases he

theorem sent_of_failsAt (hanchored : Anchored m.stack) (h : m.FailsAt msg) : Sent (some msg) m :=
  ⟨hanchored, fun _ _ => ⟨msg, rfl, h⟩⟩

theorem sent_send (hstack : Anchored stack) (w : Walk) (n : Name) (rest : List Message) :
    Sent (some msg) (send i w n msg rest stack) := by
  unfold send
  split
  · rename_i slot _
    let site : Site := ⟨w.passed, msg, rest⟩
    let waiting : List Frame := .send w.locals w.receiver w.result slot site :: stack
    have hwaiting : Anchored waiting := hstack
    have hsite : Awaits waiting site := ⟨_, _, _, _, _, rfl⟩
    have hbare : Bare waiting (activate i slot ⟨w.receiver, w.locals, site⟩ waiting) :=
      bare_activate hwaiting hsite slot
    exact sent_of_failsAt hbare.anchored (hbare.failsAt hsite)
  · -- a message that is not answered at all puts its place there itself
    refine sent_of_failsAt hstack fun e he => .inl ?_
    cases control_of_failure? he
    rfl

theorem sent_stepWalk (hstack : Anchored stack) (w : Walk) :
    Sent w.coming.head? (stepWalk i w stack) := by
  unfold stepWalk
  cases w.coming with
  | nil => exact sent_of_calm hstack rfl
  | cons msg rest =>
    dsimp only
    cases msg.symbol with
    | ident n => exact sent_send hstack w n rest
    | _ => exact sent_of_calm hstack rfl

theorem sent_resume {frame : Frame} (hstack : Anchored (frame :: stack)) (v : Ref) :
    Sent (sending? ⟨i, .value v, frame :: stack⟩) (resume i v frame stack) := by
  cases frame with
  | native a p =>
    obtain ⟨hsite, hrest⟩ := hstack
    have hbare : Bare stack (meet (p.resume i a v).1 (p.resume i a v).2 a stack) := by
      obtain ⟨names, hdiscreet⟩ := p.discreet_resume v
      exact bare_meet hrest hsite hdiscreet.failing
    have hfails := hbare.failsAt hsite
    -- the message that waits innermost is the one that the operation answers
    obtain ⟨_, _, _, _, rest, rfl⟩ := hsite
    exact sent_of_failsAt hbare.anchored hfails
  | bind b param =>
    -- the limit was checked before the first parameter, so nothing can fail here
    exact sent_of_calm (anchored_bindNext hstack.tail) (failure?_bindNext ..)
  | _ => exact sent_of_calm hstack.tail rfl

/-- **A step that fails sends a message**, and the error gets the place of this message. -/
theorem sent_step (hstack : Anchored m.stack) (hcalm : m.failure? = none) :
    Sent m.sending? m.step := by
  obtain ⟨i, control, stack⟩ := m
  cases control with
  | walk w => exact sent_stepWalk hstack w
  | value v =>
    cases stack with
    | nil => exact sent_of_calm hstack rfl
    | cons frame stack => exact sent_resume hstack v
  | unwind s =>
    cases s with
    | failed e => cases hcalm
    | returning v =>
      cases stack with
      | nil => exact sent_of_calm hstack rfl
      | cons frame stack => cases frame <;> exact sent_of_calm hstack.tail rfl

/-- **An error that has a place keeps it.** -/
theorem failure?_iterate_placed {span : Span} (hm : m.failure? = some e) (he : e.span = some span)
    (k : Nat) : (step^[k] m).failure? = some e := by
  induction k with
  | zero => exact hm
  | succ k ih =>
    rw [Function.iterate_succ_apply']
    generalize step^[k] m = n at ih ⊢
    obtain ⟨i, control, stack⟩ := n
    have hcontrol : control = .unwind (.failed e) := control_of_failure? ih
    subst hcontrol
    cases stack with
    | nil => rfl
    | cons frame stack =>
      cases frame with
      | send locals receiver result slot site =>
        -- the only frame that gives an error a place
        show some (e.withSpanIfMissing site.message.span) = some e
        rw [EvalError.withSpanIfMissing, he]
      | _ => rfl

/-- The error of a step has its place one step later. -/
theorem FailsAt.placed (h : m.FailsAt msg) (hm : m.failure? = some e) :
    m.step.failure? = some ⟨e.fault, some msg.span⟩ := by
  obtain hspan | ⟨hspan, site, rfl, locals, receiver, result, slot, rest, hstack⟩ := h e hm
  · rw [← hspan]
    exact failure?_iterate_placed hm hspan 1
  · obtain ⟨i, control, stack⟩ := m
    have hcontrol : control = .unwind (.failed e) := control_of_failure? hm
    subst hcontrol hstack
    show some (e.withSpanIfMissing site.message.span) = _
    rw [EvalError.withSpanIfMissing, hspan]
    rfl

/-! ## §4. A run that fails. -/

/-- The run from `start` fails with `e`: a step that sends a message raises its fault, the place is
this message's, and two steps later the error is what it is for good. -/
def Blames (start : Machine) (e : EvalError) : Prop :=
  ∃ k msg, (step^[k] start).Raises msg e.fault ∧ e.span = some msg.span
    ∧ ∀ l, k + 2 ≤ l → (step^[l] start).failure? = some e

theorem anchored_iterate {k : Nat} (hstack : Anchored m.stack)
    (hcalm : ∀ l < k, (step^[l] m).failure? = none) : Anchored (step^[k] m).stack := by
  induction k with
  | zero => exact hstack
  | succ k ih =>
    rw [Function.iterate_succ_apply']
    have hbefore := ih fun l hl => hcalm l (Nat.lt_succ_of_lt hl)
    exact (sent_step hbefore (hcalm k (Nat.lt_succ_self k))).anchored

/-- A run in which an error leaves frames blames a message for one. -/
theorem exists_blames {n : Nat} (hstack : Anchored m.stack) (hstart : m.failure? = none)
    (hfailed : (step^[n] m).failure? = some e) : ∃ e', m.Blames e' := by
  classical
  have hexists : ∃ k e, (step^[k] m).failure? = some e := ⟨n, e, hfailed⟩
  -- the first step that fails is the one that raises the error
  obtain ⟨k, ⟨e₁, he₁⟩, hfirst⟩ := Nat.findX hexists
  have hcalm (l : Nat) (hl : l < k) : (step^[l] m).failure? = none :=
    Option.eq_none_iff_forall_ne_some.mpr fun e he => hfirst l hl ⟨e, he⟩
  cases k with
  | zero =>
    rw [Function.iterate_zero_apply, hstart] at he₁
    cases he₁
  | succ k =>
    have hanchored : Anchored (step^[k] m).stack :=
      anchored_iterate hstack fun l hl => hcalm l (Nat.lt_succ_of_lt hl)
    rw [Function.iterate_succ_apply'] at he₁
    obtain ⟨msg, hsending, hfails⟩ :=
      (sent_step hanchored (hcalm k (Nat.lt_succ_self k))).failing e₁ he₁
    refine ⟨⟨e₁.fault, some msg.span⟩, k, msg, ⟨hsending, e₁.span, he₁⟩, rfl, fun l hl => ?_⟩
    obtain ⟨d, rfl⟩ := Nat.exists_eq_add_of_le hl
    rw [Nat.add_comm, Function.iterate_add_apply, Function.iterate_succ_apply',
      Function.iterate_succ_apply']
    exact failure?_iterate_placed (hfails.placed he₁) rfl d

theorem failure?_of_result_eq_error (h : m.result = .error e) : m.failure? = some e := by
  obtain ⟨i, control, stack⟩ := m
  cases control with
  | walk w => cases h
  | value v => cases h
  | unwind s =>
    cases s with
    | returning v => cases h
    | failed e' => exact congrArg some (Except.error.inj h)

/-- **A run that ends with an error blames a message for it.** -/
theorem blames_of_run {fuel : Nat} {last : Machine} (hstack : Anchored m.stack)
    (hstart : m.failure? = none) (hrun : run fuel m = some last)
    (hresult : last.result = .error e) : m.Blames e := by
  obtain ⟨hdone, rfl⟩ := run_eq_some_iff.mp hrun
  have hfailed := failure?_of_result_eq_error hresult
  obtain ⟨e', k, msg, hraises, hspan, hlater⟩ := exists_blames hstack hstart hfailed
  -- the machine stays as it ended, so its error is the one that was blamed
  have hend : step^[k + 2 + fuel] m = step^[fuel] m := by
    rw [Function.iterate_add_apply, Function.iterate_fixed (step_of_isDone hdone)]
  have hsame := hlater (k + 2 + fuel) (Nat.le_add_right _ _)
  rw [hend, hfailed] at hsame
  cases hsame
  exact ⟨k, msg, hraises, hspan, hlater⟩

end Machine

/-! ## §5. Programs. -/

namespace Image

/-- What a call parses. -/
def parsedOf? (image : Image) : EntryPoint → Option Parsed
  | .text text => some (parse image.names text)
  | .source source => some (parseSource image.names image.lexMode source)
  | .chain _ _ => none

/-- Where a call failed. -/
structure Located (image : Image) (entry : EntryPoint) : Prop where
  /-- A text that is no program has the place of its parse error. -/
  unparsed : ∀ parsed p, image.parsedOf? entry = some parsed → parsed.result = .error p →
    ∀ fuel, image.enter fuel entry
      = some ⟨.error ⟨.parse p, some p.span⟩, { image with names := parsed.names }⟩
  /-- Any other call that fails has run a machine, and has the place of the message that raised the
  error. -/
  raised : ∀ fuel ran e, image.enter fuel entry = some ran → ran.result = .error e →
    (∀ parsed p, image.parsedOf? entry = some parsed → parsed.result ≠ .error p) →
      ∃ start, image.machineOf? entry = some start ∧ start.Blames e

variable {image : Image} {fuel : Nat} {ran : Ran} {e : EvalError} {parsed : Parsed}

theorem blames_of_evaluate {chain : Chain} {locals : Ref}
    (h : image.evaluate fuel chain locals = some ran) (hresult : ran.result = .error e) :
    (Machine.start image chain locals).Blames e := by
  obtain ⟨last, hrun, rfl⟩ := Option.map_eq_some_iff.mp h
  exact Machine.blames_of_run trivial rfl hrun hresult

theorem blames_of_runParsed (h : image.runParsed fuel parsed = some ran)
    (hresult : ran.result = .error e) (hparsed : ∀ p, parsed.result ≠ .error p) :
    ∃ start, image.machineOfParsed? parsed = some start ∧ start.Blames e := by
  unfold machineOfParsed?
  unfold runParsed at h
  cases hchain : parsed.result with
  | error p => exact absurd hchain (hparsed p)
  | ok chain =>
    rw [hchain] at h
    cases chain with
    | none =>
      cases h
      cases hresult
    | some chain =>
      obtain ⟨ran, hran, rfl⟩ := Option.map_eq_some_iff.mp h
      exact ⟨_, rfl, blames_of_evaluate hran hresult⟩

theorem runParsed_of_error {p : ParseError} (h : parsed.result = .error p) :
    image.runParsed fuel parsed
      = some ⟨.error ⟨.parse p, some p.span⟩, { image with names := parsed.names }⟩ := by
  unfold runParsed
  rw [h]
  rfl

/-- A call that parses and runs a text. -/
theorem located_of_parsed {entry : EntryPoint} (hparsed : image.parsedOf? entry = some parsed)
    (hmachine : image.machineOf? entry = image.machineOfParsed? parsed)
    (henter : ∀ fuel, image.enter fuel entry = image.runParsed fuel parsed) :
    image.Located entry where
  unparsed := by
    intro parsed' p hparsed' hp fuel
    cases hparsed.symm.trans hparsed'
    rw [henter]
    exact runParsed_of_error hp
  raised := by
    intro fuel ran e h hresult hgood
    rw [henter] at h
    rw [hmachine]
    exact blames_of_runParsed h hresult fun p => hgood parsed p hparsed

/-- **Where a call failed.** -/
theorem located (image : Image) (entry : EntryPoint) : image.Located entry := by
  cases entry with
  | text text => exact located_of_parsed rfl rfl fun _ => rfl
  | source source => exact located_of_parsed rfl rfl fun _ => rfl
  | chain chain locals =>
    refine ⟨fun parsed p hparsed => ?_, fun fuel ran e h hresult _ => ?_⟩
    · cases hparsed
    · exact ⟨_, rfl, blames_of_evaluate h hresult⟩

/-- The place is that of `nope`, not that of `do`, whose argument it is. -/
example : ((Image.new {}).doString 9 "do(nope)").map Ran.result
    = some (.error ⟨.slotNotFound "nope", some ⟨3, 7⟩⟩) := by decide +kernel

end Image

end Prototalk
