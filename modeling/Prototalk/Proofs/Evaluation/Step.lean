/-
  Prototalk.Proofs.Evaluation.Step
  ────────────────────────────────
  **TWO RUNS OF ONE PROGRAM IN ALIKE IMAGES STAY TOGETHER.**

  Two machines are alike if they do the same thing, with the same frames
  waiting, in images that are alike on everything the machines hold.  A step
  keeps them alike, although a collection may come in one of them and not in
  the other:

    • a step that does not end an activation has the same effects in both
      images, and what it then holds it was given or has made (`Stepped`),
    • a step that ends an activation may collect, which spares whatever the
      machine still holds: its result, and what the waiting frames hold.

  A frame that binds parameters keeps the code of its block beside the block.
  The captured locals in that code are held through the block (`Linked`).
-/
import Prototalk.Evaluation.Step
import Prototalk.Proofs.Evaluation.Operation

namespace Prototalk

open Image (Twins)

/-! ## §1. What a machine holds. -/

/-- The objects that a control holds. -/
def Control.refs : Control → List Ref
  | .walk w => w.refs
  | .value v => [v]
  | .unwind s => s.refs

/-- What becomes of a result or a signal at the end of an activation: a returned value lands. -/
def Control.caught : Control → Control
  | .unwind (.returning v) => .value v
  | c => c

theorem Control.refs_caught (c : Control) : c.caught.refs = c.refs := by
  cases c with
  | unwind s => cases s <;> rfl
  | _ => rfl

/-- What the code of a binding has captured is what its block has captured. -/
def Binding.Linked (image : Image) (b : Binding) : Prop :=
  (image.payload b.block).captured? = some b.code.captured

/-- The code that a frame keeps is that of its block. -/
def Frame.Linked (image : Image) : Frame → Prop
  | .bind b _ => b.Linked image
  | _ => True

section

variable {known : Set Ref} {i j : Image}

/-- What a frame holds includes the block of a binding. -/
theorem Frame.block_mem_of_bind {b : Binding} {p : Name}
    (hrefs : ∀ r ∈ (Frame.bind b p).refs, r ∈ known) : b.block ∈ known :=
  hrefs _ (by simp [Frame.refs, Binding.refs])

theorem Frame.Linked.after {frame : Frame} (ht : Twins known i j) (effects : List Effect)
    (hrefs : ∀ r ∈ frame.refs, r ∈ known) (hl : frame.Linked i) :
    frame.Linked (i.after effects) := by
  cases frame with
  | bind b p => exact (ht.captured?_eq effects (Frame.block_mem_of_bind hrefs)).trans hl
  | _ => trivial

end

namespace Machine

variable {known : Set Ref} {held : List Ref} {i j : Image} {stack : List Frame} {frame : Frame}

/-- Twin images in which the same frames wait, while `held` is held from outside. -/
structure Poised (known : Set Ref) (held : List Ref) (i j : Image) (stack : List Frame) :
    Prop where
  /-- The images are alike and sound. -/
  twins : Twins known i j
  /-- What is held from outside. -/
  outside : i.held = held
  /-- What the frames hold is known. -/
  waiting : ∀ f ∈ stack, ∀ r ∈ f.refs, r ∈ known
  /-- The frames keep the code of their blocks. -/
  linked : ∀ f ∈ stack, f.Linked i

/-- Machines that do the same in images that are alike on what they hold. -/
structure Alike (held : List Ref) (m n : Machine) : Prop where
  /-- They do the same. -/
  control_eq : n.control = m.control
  /-- The same frames wait. -/
  stack_eq : n.stack = m.stack
  /-- The images are alike on all that is held. -/
  held : ∃ known, Poised known held m.image n.image m.stack ∧ ∀ r ∈ m.control.refs, r ∈ known

/-- Machines that do the same after the same effects in two images; what they hold was known before
or is made by the effects. -/
def Stepped (known : Set Ref) (held : List Ref) (i j : Image) (m n : Machine) : Prop :=
  ∃ effects, i.Fits known effects ∧ m.image = i.after effects ∧ n.image = j.after effects
    ∧ n.control = m.control ∧ n.stack = m.stack
    ∧ Poised (i.knownAfter known effects) held m.image n.image m.stack
    ∧ ∀ r ∈ m.control.refs, r ∈ i.knownAfter known effects

namespace Stepped

variable {m n : Machine}

theorem alike (hs : Stepped known held i j m n) : Alike held m n := by
  obtain ⟨effects, -, -, -, hcontrol, hstack, hp, hrefs⟩ := hs
  exact ⟨hcontrol, hstack, _, hp, hrefs⟩

/-- First some effects, then the rest. -/
theorem of_after {effects : List Effect} (hfits : i.Fits known effects)
    (hs : Stepped (i.knownAfter known effects) held (i.after effects) (j.after effects) m n) :
    Stepped known held i j m n := by
  obtain ⟨more, hmore, hm, hn, hcontrol, hstack, hp, hrefs⟩ := hs
  rw [← Image.knownAfter_append] at hp hrefs
  rw [← Image.after_append] at hm hn
  exact ⟨effects ++ more, hfits.append hmore, hm, hn, hcontrol, hstack, hp, hrefs⟩

end Stepped

namespace Poised

variable (hp : Poised known held i j stack)

include hp

/-- The same effects keep the images poised. -/
theorem after (effects : List Effect) (hfits : i.Fits known effects) :
    Poised (i.knownAfter known effects) held (i.after effects) (j.after effects) stack where
  twins := hp.twins.after hfits
  outside := (Image.held_after i effects).trans hp.outside
  waiting := fun f hf r hr => Image.mem_knownAfter effects (hp.waiting f hf r hr)
  linked := fun f hf => Frame.Linked.after hp.twins effects (hp.waiting f hf) (hp.linked f hf)

theorem push (frame : Frame) (hrefs : ∀ r ∈ frame.refs, r ∈ known) (hl : frame.Linked i) :
    Poised known held i j (frame :: stack) where
  twins := hp.twins
  outside := hp.outside
  waiting := by
    intro f hf
    rcases List.mem_cons.mp hf with rfl | hf
    · exact hrefs
    · exact hp.waiting f hf
  linked := by
    intro f hf
    rcases List.mem_cons.mp hf with rfl | hf
    · exact hl
    · exact hp.linked f hf

theorem stepped {control : Control} (hcontrol : ∀ r ∈ control.refs, r ∈ known) :
    Stepped known held i j ⟨i, control, stack⟩ ⟨j, control, stack⟩ :=
  ⟨[], trivial, rfl, rfl, rfl, rfl, hp, hcontrol⟩

theorem stepped_value {v : Ref} (hv : v ∈ known) :
    Stepped known held i j ⟨i, .value v, stack⟩ ⟨j, .value v, stack⟩ :=
  hp.stepped (by simpa [Control.refs] using hv)

theorem stepped_start (chain : Chain) {locals : Ref} (hlocals : locals ∈ known) :
    Stepped known held i j ⟨i, .walk (.start chain locals), stack⟩
      ⟨j, .walk (.start chain locals), stack⟩ := by
  refine hp.stepped fun r hr => ?_
  simp only [Control.refs, Walk.refs, Walk.start, List.mem_cons, List.not_mem_nil, or_false] at hr
  rcases hr with rfl | rfl | rfl
  · exact hlocals
  · exact hlocals
  · exact hp.twins.alike.mem_builtin .nil

end Poised

theorem Poised.tail (hp : Poised known held i j (frame :: stack)) : Poised known held i j stack :=
  ⟨hp.twins, hp.outside, fun f hf => hp.waiting f (List.mem_cons_of_mem _ hf),
    fun f hf => hp.linked f (List.mem_cons_of_mem _ hf)⟩

/-! ## §2. Activations of blocks. -/

section

variable (hp : Poised known held i j stack) {a : Activation} {b : Binding}

include hp

/-- Another depth, which is the same in both images. -/
theorem Poised.setDepth (f : Nat → Nat) :
    Poised known held { i with depth := f i.depth } { j with depth := f j.depth } stack := by
  rw [hp.twins.alike.depth_eq]
  have hafter := hp.after [.setDepth (f i.depth)] ⟨by simp [Effect.refs], trivial⟩
  simpa [Image.after, Image.knownAfter, Effect.apply, Effect.made] using hafter

/-- First another depth, then the rest. -/
theorem Poised.stepped_setDepth (f : Nat → Nat) {m n : Machine}
    (hs : Stepped known held { i with depth := f i.depth } { j with depth := f j.depth } m n) :
    Stepped known held i j m n := by
  rw [hp.twins.alike.depth_eq] at hs
  have hfits : i.Fits known [.setDepth (f i.depth)] := ⟨by simp [Effect.refs], trivial⟩
  refine .of_after hfits ?_
  simpa [Image.after, Image.knownAfter, Effect.apply, Effect.made] using hs

/-- What the code of a binding has captured is held with its block. -/
theorem Poised.captured_mem (hb : ∀ r ∈ b.refs, r ∈ known) (hl : b.Linked i) {r : Ref}
    (hr : b.code.captured = some r) : r ∈ known := by
  have hblock : b.block ∈ known := hb _ (by simp [Binding.refs])
  refine hp.twins.alike.mem_of_mem_payload_refs hblock ?_
  unfold Binding.Linked at hl
  cases hpayload : i.payload b.block with
  | block c =>
    rw [hpayload, hr] at hl
    simp only [Payload.captured?, Option.some.injEq] at hl
    simp [Payload.refs, hl]
  | _ =>
    rw [hpayload] at hl
    cases hl

theorem stepped_enterBody (hb : ∀ r ∈ b.refs, r ∈ known) (hl : b.Linked i) :
    Stepped known held i j (enterBody i b stack) (enterBody j b stack) := by
  have hscope : b.scope ∈ known := hb _ (by simp [Binding.refs])
  have hself : b.code.captured.getD b.activation.target ∈ known := by
    cases hcaptured : b.code.captured with
    | some r => exact hp.captured_mem hb hl hcaptured
    | none => exact hb _ (by simp [Binding.refs, Activation.refs])
  -- entering a body makes the call object and two slots, the same in both images
  let call : Ref := ⟨i.objects.cells.size⟩
  let record : CallRecord :=
    ⟨b.activation.locals, b.activation.target, b.block, b.activation.site⟩
  let effects : List Effect :=
    [.make (.call record) [Builtin.call.ref],
      .setSlot b.scope i.selfName (b.code.captured.getD b.activation.target),
      .setSlot b.scope i.callName call]
  have hfits : i.Fits known effects := by
    refine ⟨fun r hr => ?_, fun r hr => ?_, fun r hr => ?_, trivial⟩
    · simp only [Effect.refs, Payload.refs, List.mem_append, List.mem_cons, List.not_mem_nil,
        or_false] at hr
      rcases hr with (rfl | rfl | rfl) | rfl
      · exact hb _ (by simp [Binding.refs, Activation.refs, record])
      · exact hb _ (by simp [Binding.refs, Activation.refs, record])
      · exact hb _ (by simp [Binding.refs, record])
      · exact hp.twins.alike.mem_builtin .call
    · simp only [Effect.refs, List.mem_cons, List.not_mem_nil, or_false] at hr
      rcases hr with rfl | rfl
      · exact Or.inl hscope
      · exact Or.inl hself
    · simp only [Effect.refs, List.mem_cons, List.not_mem_nil, or_false] at hr
      rcases hr with rfl | rfl
      · exact Or.inl (Or.inl hscope)
      · exact Or.inl (Or.inr rfl)
  have hafter := hp.after effects hfits
  -- for either image: it has these names and this number of cells
  have hleft : ∀ k : Image, k.selfName = i.selfName → k.callName = i.callName →
      k.objects.cells.size = i.objects.cells.size →
      enterBody k b stack = b.code.body.elim
        ⟨{ k.after effects with depth := (k.after effects).depth - 1 },
          .value Builtin.nil.ref, stack⟩
        fun body => ⟨k.after effects, .walk (.start body b.scope), .body b.scope :: stack⟩ := by
    intro k hselfName hcallName hsize
    simp only [enterBody, effects, call, record, ← hselfName, ← hcallName, ← hsize]
    cases b.code.body <;> rfl
  have ha := hp.twins.alike
  rw [hleft i rfl rfl rfl, hleft j ha.selfName_eq ha.callName_eq ha.objects.size_cells]
  refine .of_after hfits ?_
  cases b.code.body with
  | some body =>
    have hscope' : b.scope ∈ i.knownAfter known effects := Image.mem_knownAfter effects hscope
    have hpushed := hafter.push (.body b.scope) (by simpa [Frame.refs] using hscope') trivial
    exact hpushed.stepped_start body hscope'
  | none =>
    refine hafter.stepped_setDepth (· - 1) ?_
    exact (hafter.setDepth (· - 1)).stepped_value (hafter.twins.alike.mem_builtin .nil)

theorem stepped_bindNext (hb : ∀ r ∈ b.refs, r ∈ known) (hl : b.Linked i) :
    Stepped known held i j (bindNext i b stack) (bindNext j b stack) := by
  unfold bindNext
  split
  · exact stepped_enterBody hp hb hl
  · rename_i p params _ _
    exact (hp.push (.bind { b with params := params } p) hb hl).stepped_value
      (hp.twins.alike.mem_builtin .nil)
  · rename_i p params arg args _ _
    exact (hp.push (.bind { b with params := params, args := args } p) hb hl).stepped_start arg
      (hb _ (by simp [Binding.refs, Activation.refs]))

theorem stepped_enterBlock {block : Ref} {code : Block} (hblock : block ∈ known)
    (hl : (i.payload block).captured? = some code.captured) (ha : ∀ r ∈ a.refs, r ∈ known) :
    Stepped known held i j (enterBlock i block code a stack) (enterBlock j block code a stack) := by
  have halike := hp.twins.alike
  unfold enterBlock
  by_cases hlimit : i.maxDepth ≤ i.depth
  -- too deep in one image is too deep in the other
  · rw [if_pos hlimit, if_pos (by rwa [halike.maxDepth_eq, halike.depth_eq]), halike.maxDepth_eq]
    exact hp.stepped (by simp [Control.refs, Signal.ofFault, Signal.refs])
  · rw [if_neg hlimit, if_neg (by rwa [halike.maxDepth_eq, halike.depth_eq]), halike.depth_eq]
    let effects : List Effect :=
      [.setDepth (i.depth + 1), .make .plain [Builtin.object.ref]]
    have hfits : i.Fits known effects := by
      refine ⟨by simp [Effect.refs], fun r hr => ?_, trivial⟩
      simp only [Effect.refs, Payload.refs, List.nil_append, List.mem_singleton] at hr
      exact Or.inl (hr ▸ halike.mem_builtin .object)
    have hafter := hp.after effects hfits
    have hscope : (⟨j.objects.cells.size⟩ : Ref) = ⟨i.objects.cells.size⟩ := by
      rw [halike.objects.size_cells]
    refine .of_after hfits ?_
    show Stepped _ held _ _
      (bindNext (i.after effects) ⟨block, code, a, ⟨i.objects.cells.size⟩, _, _⟩ stack)
      (bindNext (j.after effects) ⟨block, code, a, ⟨j.objects.cells.size⟩, _, _⟩ stack)
    rw [hscope]
    refine stepped_bindNext hafter (fun r hr => ?_) ?_
    · simp only [Binding.refs, List.mem_cons] at hr
      rcases hr with rfl | rfl | hr
      · exact Image.mem_knownAfter effects hblock
      · exact Or.inr rfl
      · exact Image.mem_knownAfter effects (ha r hr)
    -- the scope is new, the block is as it was
    · exact (hp.twins.captured?_eq effects hblock).trans hl

/-! ## §3. Operations and slots. -/

theorem stepped_meet {d : Demand} (hd : ∀ r ∈ d.refs, r ∈ known) (hl : d.Linked i)
    (ha : ∀ r ∈ a.refs, r ∈ known) :
    Stepped known held i j (meet i d a stack) (meet j d a stack) := by
  cases d with
  | answer v => exact hp.stepped_value (hd v (by simp [Demand.refs]))
  | raise s => exact hp.stepped hd
  | argument chain locals pending =>
    have hpushed := hp.push (.native a pending) ha trivial
    cases chain with
    | some chain => exact hpushed.stepped_start chain (hd locals (by simp [Demand.refs]))
    | none => exact hpushed.stepped_value (hp.twins.alike.mem_builtin .nil)
  | delegate chain locals => exact hp.stepped_start chain (hd locals (by simp [Demand.refs]))
  | activate block code => exact stepped_enterBlock hp (hd block (by simp [Demand.refs])) hl ha

/-- An operation that has done something is given what it asks for. -/
theorem stepped_meet_of_agreed {x y : Image × Demand} (hagreed : Agreed known i j x y)
    (ha : ∀ r ∈ a.refs, r ∈ known) :
    Stepped known held i j (meet x.1 x.2 a stack) (meet y.1 y.2 a stack) := by
  obtain ⟨effects, hfits, hi, hj, heq, hrefs, hlinked⟩ := hagreed
  refine .of_after hfits ?_
  rw [heq, hi, hj]
  rw [hi] at hlinked
  exact stepped_meet (hp.after effects hfits) hrefs hlinked fun r hr =>
    Image.mem_knownAfter effects (ha r hr)

theorem stepped_activate {slot : Ref} (hslot : slot ∈ known) (ha : ∀ r ∈ a.refs, r ∈ known) :
    Stepped known held i j (activate i slot a stack) (activate j slot a stack) := by
  have halike := hp.twins.alike
  unfold activate
  rw [halike.payload_eq hslot]
  cases hpayload : i.payload slot with
  | native op => exact stepped_meet_of_agreed hp (op.begin_agreed halike ha) ha
  | block b =>
    dsimp only
    split
    · refine stepped_enterBlock hp hslot ?_ ha
      rw [hpayload]
      rfl
    · exact hp.stepped_value hslot
  | _ => exact hp.stepped_value hslot

theorem findSlot?_eq {receiver : Ref} (hreceiver : receiver ∈ known) (n : Name) :
    findSlot? j receiver n = findSlot? i receiver n
      ∧ ∀ slot, findSlot? i receiver n = some slot → slot ∈ known := by
  have halike := hp.twins.alike
  unfold findSlot?
  rw [halike.lookup?_eq hreceiver, halike.lookup?_eq hreceiver, halike.forwardName_eq]
  refine ⟨rfl, fun slot hslot => ?_⟩
  split at hslot
  · rename_i found hfound
    cases hslot
    exact halike.mem_of_lookup? hreceiver hfound
  · exact halike.mem_of_lookup? hreceiver hslot

/-! ## §4. Chains. -/

section

variable {w : Walk} (hw : ∀ r ∈ w.refs, r ∈ known)

include hw

theorem stepped_send (n : Name) (m : Message) (rest : List Message) :
    Stepped known held i j (send i w n m rest stack) (send j w n m rest stack) := by
  have hlocals : w.locals ∈ known := hw _ (by simp [Walk.refs])
  have hreceiver : w.receiver ∈ known := hw _ (by simp [Walk.refs])
  obtain ⟨hfind, hmem⟩ := findSlot?_eq hp hreceiver n
  unfold send
  rw [hfind, hp.twins.alike.names_eq]
  cases hslot : findSlot? i w.receiver n with
  | some slot =>
    have hknown := hmem slot hslot
    have hframe : ∀ r ∈ (Frame.send w.locals w.receiver w.result slot ⟨w.passed, m, rest⟩).refs,
        r ∈ known := by
      intro r hr
      simp only [Frame.refs, List.mem_cons, List.not_mem_nil, or_false] at hr
      rcases hr with rfl | rfl | rfl | rfl
      · exact hlocals
      · exact hreceiver
      · exact hw _ (by simp [Walk.refs])
      · exact hknown
    refine stepped_activate (hp.push _ hframe trivial) hknown fun r hr => ?_
    simp only [Activation.refs, List.mem_cons, List.not_mem_nil, or_false] at hr
    rcases hr with rfl | rfl
    · exact hreceiver
    · exact hlocals
  | none => exact hp.stepped (by simp [Control.refs, Signal.refs])

theorem stepped_continueWith {v : Ref} (hv : v ∈ known) (m : Message) (rest : List Message) :
    Stepped known held i j (continueWith i w v m rest stack)
      (continueWith j w v m rest stack) := by
  refine hp.stepped fun r hr => ?_
  simp only [Control.refs, Walk.refs, List.mem_cons, List.not_mem_nil, or_false] at hr
  rcases hr with rfl | rfl | rfl
  · exact hw _ (by simp [Walk.refs])
  · exact hv
  · exact hv

theorem stepped_literal (c : Constant) (m : Message) (rest : List Message) :
    Stepped known held i j (continueWith (i.literal c).2 w (i.literal c).1 m rest stack)
      (continueWith (j.literal c).2 w (j.literal c).1 m rest stack) := by
  obtain ⟨effects, hfits, hi, hj, heq, hrefs, -⟩ := literal_agreed hp.twins.alike c
  have hv : (j.literal c).1 = (i.literal c).1 := by simpa using heq
  refine .of_after hfits ?_
  rw [hv, show (i.literal c).2 = _ from hi, show (j.literal c).2 = _ from hj]
  exact stepped_continueWith (hp.after effects hfits)
    (fun r hr => Image.mem_knownAfter effects (hw r hr)) (hrefs _ (by simp [Demand.refs])) m rest

theorem stepped_stepWalk : Stepped known held i j (stepWalk i w stack) (stepWalk j w stack) := by
  have hlocals : w.locals ∈ known := hw _ (by simp [Walk.refs])
  have hresult : w.result ∈ known := hw _ (by simp [Walk.refs])
  unfold stepWalk
  cases w.coming with
  | nil => exact hp.stepped_value hresult
  | cons m rest =>
    dsimp only
    cases m.symbol with
    | separator mark =>
      refine hp.stepped fun r hr => ?_
      simp only [Control.refs, Walk.refs, List.mem_cons, List.not_mem_nil, or_false] at hr
      rcases hr with rfl | rfl | rfl
      · exact hlocals
      · exact hlocals
      · exact hresult
    | number x => exact stepped_literal hp hw (.number x.bits) m rest
    | text s => exact stepped_literal hp hw (.text s) m rest
    | ident n => exact stepped_send hp hw n m rest

end

/-! ## §5. Frames. -/

/-- **The end of an activation, with or without a collection.** -/
theorem Poised.leaveBody {kept : List Ref} (hkept : ∀ r ∈ kept, r ∈ known) :
    ∃ known', Poised known' held (leaveBody i kept stack) (leaveBody j kept stack) stack
      ∧ ∀ r ∈ kept, r ∈ known' := by
  have hinUse : ∀ r ∈ kept ++ stackRefs stack, r ∈ known := by
    intro r hr
    rcases List.mem_append.mp hr with hr | hr
    · exact hkept r hr
    · obtain ⟨f, hf, hr⟩ := List.mem_flatMap.mp hr
      exact hp.waiting f hf r hr
  have htwins := hp.twins.collectIfDue hinUse
  have hspared : ∀ r ∈ kept ++ stackRefs stack, r ∈ i.reach (kept ++ stackRefs stack) :=
    fun r hr => .handle (List.mem_append_left _ hr)
  have hwaiting : ∀ f ∈ stack, ∀ r ∈ f.refs, r ∈ i.reach (kept ++ stackRefs stack) :=
    fun f hf r hr => hspared r (List.mem_append_right _ (List.mem_flatMap.mpr ⟨f, hf, hr⟩))
  have hcollected : Poised (i.reach (kept ++ stackRefs stack)) held
      (i.collectIfDue (kept ++ stackRefs stack)) (j.collectIfDue (kept ++ stackRefs stack))
      stack := by
    refine ⟨htwins, (Image.held_collectIfDue i _).trans hp.outside, hwaiting, fun f hf => ?_⟩
    -- the block of a waiting frame is spared, and with it what it has captured
    have hsame := (hp.twins.left.collectIfDue fun r hr =>
      hp.twins.alike.objects.there r (hinUse r hr)).2
    cases f with
    | bind b p =>
      have hlinked : b.Linked i := hp.linked _ hf
      show (Image.payload _ b.block).captured? = _
      rw [hsame.payload_eq (Frame.block_mem_of_bind (hwaiting _ hf))]
      exact hlinked
    | _ => trivial
  exact ⟨_, hcollected.setDepth (· - 1), fun r hr => hspared r (List.mem_append_left _ hr)⟩

end

theorem stepped_resume {v : Ref} (hp : Poised known held i j (frame :: stack)) (hv : v ∈ known)
    (hframe : ∀ scope, frame ≠ .body scope) :
    Stepped known held i j (resume i v frame stack) (resume j v frame stack) := by
  have hrefs := hp.waiting frame List.mem_cons_self
  cases frame with
  | send locals receiver result slot site =>
    refine stepped_continueWith hp.tail (fun r hr => hrefs r ?_) hv site.message site.after
    simp only [Walk.refs, List.mem_cons, List.not_mem_nil, or_false] at hr
    rcases hr with rfl | rfl | rfl <;> simp [Frame.refs]
  | native a pending =>
    exact stepped_meet_of_agreed hp.tail (pending.resume_agreed hp.twins.alike hrefs hv) hrefs
  | bind b param =>
    have hscope : b.scope ∈ known := hrefs _ (by simp [Frame.refs, Binding.refs])
    -- the parameter is set in the scope of the block, then the next one is bound
    let effects : List Effect := [.setSlot b.scope param v]
    have hfits : i.Fits known effects := ⟨by simp [Effect.refs, hscope, hv], trivial⟩
    have hafter := hp.after effects hfits
    refine .of_after hfits ?_
    exact stepped_bindNext hafter.tail (hafter.waiting _ List.mem_cons_self)
      (hafter.linked _ List.mem_cons_self)
  | body scope => exact absurd rfl (hframe scope)

theorem stepped_unwind {s : Signal} (hp : Poised known held i j (frame :: stack))
    (hs : ∀ r ∈ s.refs, r ∈ known) (hframe : ∀ scope, frame ≠ .body scope) :
    Stepped known held i j (unwind i s frame stack) (unwind j s frame stack) := by
  cases frame with
  | send locals receiver result slot site =>
    refine hp.tail.stepped fun r hr => hs r ?_
    cases s <;> exact hr
  | native a pending => exact hp.tail.stepped hs
  | bind b param =>
    refine hp.tail.stepped_setDepth (· - 1) ?_
    exact (hp.tail.setDepth (· - 1)).stepped hs
  | body scope => exact absurd rfl (hframe scope)

/-! ## §6. Steps and runs. -/

/-- **A step has the same effects in both images, or it ends an activation in both.** -/
theorem step_cases {control : Control} (hp : Poised known held i j stack)
    (hrefs : ∀ r ∈ control.refs, r ∈ known) :
    Stepped known held i j (step ⟨i, control, stack⟩) (step ⟨j, control, stack⟩)
    ∨ ∃ scope rest, stack = .body scope :: rest ∧ ∀ k : Image, step ⟨k, control, stack⟩
        = ⟨leaveBody k control.refs rest, control.caught, rest⟩ := by
  cases control with
  | walk w => exact .inl (stepped_stepWalk hp hrefs)
  | value v =>
    cases stack with
    | nil => exact .inl (hp.stepped hrefs)
    | cons frame rest =>
      by_cases hframe : ∃ scope, frame = .body scope
      · obtain ⟨scope, rfl⟩ := hframe
        exact .inr ⟨scope, rest, rfl, fun k => rfl⟩
      · exact .inl (stepped_resume hp (hrefs v (by simp [Control.refs])) (not_exists.mp hframe))
  | unwind s =>
    cases stack with
    | nil => exact .inl (hp.stepped hrefs)
    | cons frame rest =>
      by_cases hframe : ∃ scope, frame = .body scope
      · obtain ⟨scope, rfl⟩ := hframe
        exact .inr ⟨scope, rest, rfl, fun k => by cases s <;> rfl⟩
      · exact .inl (stepped_unwind hp hrefs (not_exists.mp hframe))

/-- **A step keeps machines alike.** -/
theorem Alike.step {m n : Machine} (ha : Alike held m n) : Alike held m.step n.step := by
  obtain ⟨hcontrol, hstack, known, hp, hrefs⟩ := ha
  obtain ⟨i, control, stack⟩ := m
  obtain ⟨j, control', stack'⟩ := n
  cases hcontrol
  cases hstack
  obtain hstepped | ⟨scope, rest, rfl, hstep⟩ := step_cases hp hrefs
  · exact hstepped.alike
  · obtain ⟨known', hp', hkept⟩ := hp.tail.leaveBody hrefs
    rw [hstep i, hstep j]
    refine ⟨rfl, rfl, known', hp', fun r hr => hkept r ?_⟩
    rwa [Control.refs_caught] at hr

theorem Alike.isDone_eq {m n : Machine} (ha : Alike held m n) : n.isDone = m.isDone := by
  unfold isDone
  rw [ha.control_eq, ha.stack_eq]

/-- **Runs of alike machines end together, and in alike machines.** -/
theorem Alike.run {m n : Machine} (ha : Alike held m n) (fuel : Nat) :
    Option.Rel (Alike held) (run fuel m) (run fuel n) := by
  induction fuel generalizing m n with
  | zero =>
    unfold Machine.run
    rw [ha.isDone_eq]
    split
    · exact .some ha
    · exact .none
  | succ fuel ih =>
    unfold Machine.run
    rw [ha.isDone_eq]
    split
    · exact .some ha
    · exact ih ha.step

end Machine

end Prototalk
