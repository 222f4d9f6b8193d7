/-
  Prototalk.Proofs.Evaluation.Operation
  ────────────────────────────────
  **AN OPERATION DOES THE SAME IN ALIKE IMAGES.**

  An operation reads an image only through the names, the payloads and the
  slots of objects that it was given, and changes it by effects.  So in two
  images that are alike on what it was given, it asks for the same and has
  the same effects (`Agreed`): `Native.begin_agreed` for how an operation
  starts, `Pending.resume_agreed` for how it goes on with an argument.
-/
import Prototalk.Evaluation.Operation
import Prototalk.Proofs.Image.Alike

namespace Prototalk

/-! ## §1. What an operation hands on. -/

namespace Demand

/-- The objects that a demand mentions. -/
def refs : Demand → List Ref
  | .answer v => [v]
  | .raise s => s.refs
  | .argument _ locals _ => [locals]
  | .delegate _ locals => [locals]
  | .activate block _ => [block]

/-- The code to run is that of the block, as far as the captured locals go. -/
def Linked (image : Image) : Demand → Prop
  | .activate block code => (image.payload block).captured? = some code.captured
  | _ => True

end Demand

/-- Two images with the same demand, made by the same effects from two others. -/
def Agreed (known : Set Ref) (i j : Image) (x y : Image × Demand) : Prop :=
  ∃ effects, i.Fits known effects ∧ x.1 = i.after effects ∧ y.1 = j.after effects ∧ y.2 = x.2
    ∧ (∀ r ∈ x.2.refs, r ∈ i.knownAfter known effects) ∧ x.2.Linked x.1

namespace Agreed

variable {known : Set Ref} {i j : Image} {d : Demand} {x y : Image × Demand}

theorem of_demand (hd : ∀ r ∈ d.refs, r ∈ known) (hlinked : d.Linked i) :
    Agreed known i j (i, d) (j, d) :=
  ⟨[], trivial, rfl, rfl, rfl, hd, hlinked⟩

theorem answer {v : Ref} (hv : v ∈ known) : Agreed known i j (i, .answer v) (j, .answer v) :=
  of_demand (by simpa [Demand.refs] using hv) trivial

theorem fail (fault : EvalFault) :
    Agreed known i j (i, Activation.fail fault) (j, Activation.fail fault) :=
  of_demand (by simp [Activation.fail, Demand.refs, Signal.ofFault, Signal.refs]) trivial

/-- One effect, then an answer that was known. -/
theorem answer_after {v : Ref} (e : Effect) (he : ∀ r ∈ e.refs, r ∈ known) (hv : v ∈ known) :
    Agreed known i j (e.apply i, .answer v) (e.apply j, .answer v) := by
  refine ⟨[e], ⟨he, trivial⟩, rfl, rfl, rfl, fun r hr => ?_, trivial⟩
  rw [List.mem_singleton.mp hr]
  exact Image.mem_knownAfter [e] hv

/-- A new object as the answer. -/
theorem answer_made (ha : Image.Alike known i j) (payload : Payload) (protos : List Ref)
    (hpayload : ∀ r ∈ payload.refs, r ∈ known) (hprotos : ∀ r ∈ protos, r ∈ known) :
    Agreed known i j ((i.alloc payload protos).2, .answer (i.alloc payload protos).1)
      ((j.alloc payload protos).2, .answer (j.alloc payload protos).1) := by
  refine ⟨[.make payload protos], ⟨fun r hr => ?_, trivial⟩, rfl, rfl, ?_, fun r hr => ?_, trivial⟩
  · exact (List.mem_append.mp hr).elim (hpayload r) (hprotos r)
  · show Demand.answer ⟨j.objects.cells.size⟩ = .answer ⟨i.objects.cells.size⟩
    rw [ha.objects.size_cells]
  · exact Or.inr (List.mem_singleton.mp hr)

/-- The answer becomes the object of a literal. -/
theorem remember {k l : Image} {r s : Ref} (c : Constant)
    (hmade : Agreed known i j (k, .answer r) (l, .answer s)) :
    Agreed known i j ({ k with literals := (c, r) :: k.literals }, .answer r)
      ({ l with literals := (c, s) :: l.literals }, .answer s) := by
  obtain ⟨effects, hfits, hi, hj, heq, hrefs, -⟩ := hmade
  have hr : r ∈ i.knownAfter known effects := hrefs r (by simp [Demand.refs])
  -- both images got the same object, so `r` and `s` are one
  cases heq
  refine ⟨effects ++ [.remember c r], hfits.append ⟨by simpa [Effect.refs] using hr, trivial⟩,
    ?_, ?_, rfl, fun t ht => ?_, trivial⟩
  · rw [Image.after_append, ← hi]
    rfl
  · rw [Image.after_append, ← hj]
    rfl
  · rw [Image.knownAfter_append]
    exact Image.mem_knownAfter _ (hrefs t ht)

/-- What is done with a larger table of names. -/
theorem of_know {names : Interner}
    (hrest : Agreed known { i with names := names } { j with names := names } x y) :
    Agreed known i j x y := by
  obtain ⟨effects, hfits, hi, hj, heq, hrefs, hlinked⟩ := hrest
  have hmade : known ∪ Effect.made i (.know names) = known := Set.union_empty known
  refine ⟨.know names :: effects, ⟨by simp [Effect.refs], by rw [hmade]; exact hfits⟩, hi, hj, heq,
    ?_, hlinked⟩
  show ∀ r ∈ x.2.refs, r ∈ Image.knownAfter _ (known ∪ Effect.made i (.know names)) effects
  rw [hmade]
  exact hrefs

end Agreed

/-! ## §2. Starting an operation. -/

section

variable {known : Set Ref} {i j : Image} {a : Activation}
variable (ha : Image.Alike known i j) (hrefs : ∀ r ∈ a.refs, r ∈ known)

include hrefs

theorem Activation.target_mem : a.target ∈ known := hrefs _ (by simp [Activation.refs])

theorem Activation.locals_mem : a.locals ∈ known := hrefs _ (by simp [Activation.refs])

theorem Activation.optional_agreed (index : Nat) (pending : Pending) :
    Agreed known i j (i, a.optional index pending) (j, a.optional index pending) :=
  .of_demand (by simpa [Activation.optional, Demand.refs] using a.locals_mem hrefs) trivial

include ha

theorem Activation.required_agreed (index : Nat) (pending : Pending) :
    Agreed known i j (i, a.required i.names index pending)
      (j, a.required j.names index pending) := by
  rw [ha.names_eq]
  unfold Activation.required
  split
  · exact .of_demand (by simpa [Demand.refs] using a.locals_mem hrefs) trivial
  · exact .fail _

omit hrefs in
theorem Activation.wrongArgument_agreed (index : Nat) (expected : Wanted) :
    Agreed known i j (i, a.wrongArgument i.names index expected)
      (j, a.wrongArgument j.names index expected) := by
  rw [ha.names_eq]
  exact .fail _

omit hrefs in
theorem Activation.wrongReceiver_agreed (expected : Wanted) :
    Agreed known i j (i, a.wrongReceiver i.names expected)
      (j, a.wrongReceiver j.names expected) := by
  rw [ha.names_eq]
  exact .fail _

omit hrefs in
theorem blockOfArgs_agreed (captured : Option Ref) (hcaptured : ∀ r ∈ captured, r ∈ known) :
    Agreed known i j (blockOfArgs i a captured) (blockOfArgs j a captured) := by
  unfold blockOfArgs
  split
  · exact a.wrongArgument_agreed ha _ _
  · refine .answer_made ha _ _ (fun r hr => hcaptured r ?_) (by simpa using ha.mem_builtin .block)
    simpa [Payload.refs, Block.new] using hr

omit hrefs in
theorem string_agreed (s : String) :
    Agreed known i j ((i.string s).2, .answer (i.string s).1)
      ((j.string s).2, .answer (j.string s).1) :=
  .answer_made ha _ _ (by simp [Payload.refs]) (by simpa using ha.mem_builtin .string)

omit hrefs in
theorem number_agreed (x : Binary64) :
    Agreed known i j ((i.number x).2, .answer (i.number x).1)
      ((j.number x).2, .answer (j.number x).1) :=
  .answer_made ha _ _ (by simp [Payload.refs]) (by simpa using ha.mem_builtin .number)

omit hrefs in
theorem message_agreed (site : Site) :
    Agreed known i j ((i.message site).2, .answer (i.message site).1)
      ((j.message site).2, .answer (j.message site).1) :=
  .answer_made ha _ _ (by simp [Payload.refs]) (by simpa using ha.mem_builtin .message)

omit hrefs in
theorem siteObject_agreed (site : Option Site) :
    Agreed known i j (siteObject i site) (siteObject j site) := by
  cases site with
  | none => exact .answer (ha.mem_builtin .nil)
  | some site => exact message_agreed ha site

omit hrefs in
/-- The object of a literal is remembered in both images, or made in both. -/
theorem literal_agreed (c : Constant) :
    Agreed known i j ((i.literal c).2, .answer (i.literal c).1)
      ((j.literal c).2, .answer (j.literal c).1) := by
  unfold Image.literal
  rw [ha.literals_eq]
  cases hlookup : i.literals.lookup c with
  | some r => exact .answer (ha.mem_literal hlookup)
  | none =>
    cases c with
    | number bits => exact (number_agreed ha ⟨bits⟩).remember _
    | text s => exact (string_agreed ha s).remember _

omit hrefs in
/-- The output is the same, so it is the same after writing the same. -/
theorem println_agreed (text : String) {v : Ref} (hv : v ∈ known) :
    Agreed known i j (i.println text, .answer v) (j.println text, .answer v) := by
  have hj : j.println text = Effect.apply j (.write (i.output.println text)) := by
    rw [Image.println, ha.output_eq]
    rfl
  rw [hj]
  exact .answer_after (.write (i.output.println text)) (by simp [Effect.refs]) hv

theorem ObjectOp.begin_agreed (op : ObjectOp) :
    Agreed known i j (op.begin i a) (op.begin j a) := by
  have htarget := a.target_mem hrefs
  have hlocals := a.locals_mem hrefs
  cases op with
  | makeBlock => exact blockOfArgs_agreed ha (some a.locals) (by simpa using hlocals)
  | makeMethod => exact blockOfArgs_agreed ha none (by simp)
  | returnValue => exact a.optional_agreed hrefs 0 .returning
  | setSlot => exact a.required_agreed ha hrefs 0 (.slotName .set)
  | updateSlot => exact a.required_agreed ha hrefs 0 (.slotName .update)
  | getSlot => exact a.required_agreed ha hrefs 0 (.slotName .get)
  | hasSlot => exact a.required_agreed ha hrefs 0 (.slotName .has)
  | clone =>
    exact .answer_made ha .plain [a.target] (by simp [Payload.refs]) (by simpa using htarget)
  | appendProto => exact a.required_agreed ha hrefs 0 .proto
  | doWithin => exact .of_demand (by simpa [Demand.refs] using htarget) trivial
  | thisMessage => exact message_agreed ha a.site
  | print =>
    have hj : j.print (j.display a.target)
        = Effect.apply j (.write (i.output.print (i.display a.target))) := by
      rw [Image.print, ha.output_eq, ha.display_eq htarget]
      rfl
    show Agreed known i j _ (j.print (j.display a.target), _)
    rw [hj]
    exact .answer_after (.write (i.output.print (i.display a.target))) (by simp [Effect.refs])
      htarget
  | println =>
    show Agreed known i j _ (j.println (j.display a.target), _)
    rw [ha.display_eq htarget]
    exact println_agreed ha _ htarget
  | writeln =>
    unfold ObjectOp.begin
    cases a.args with
    | nil => exact println_agreed ha "" (ha.mem_builtin .nil)
    | cons c rest => exact .of_demand (by simpa [Demand.refs] using hlocals) trivial

theorem BlockOp.begin_agreed (op : BlockOp) : Agreed known i j (op.begin i a) (op.begin j a) := by
  have htarget := a.target_mem hrefs
  unfold BlockOp.begin
  rw [ha.payload_eq htarget]
  cases hpayload : i.payload a.target with
  | block b =>
    cases op with
    | call =>
      refine .of_demand (by simpa [Demand.refs] using htarget) ?_
      show (i.payload a.target).captured? = some b.captured
      rw [hpayload]
      rfl
    | asString =>
      simp only [ha.names_eq]
      exact string_agreed ha _
    | argumentNames =>
      simp only [ha.names_eq]
      exact string_agreed ha _
    | setIsActivatable => exact a.optional_agreed hrefs 0 .flag
  | _ => exact a.wrongReceiver_agreed ha .block

theorem CallOp.begin_agreed (op : CallOp) : Agreed known i j (op.begin i a) (op.begin j a) := by
  have htarget := a.target_mem hrefs
  unfold CallOp.begin
  rw [ha.payload_eq htarget]
  cases hpayload : i.payload a.target with
  | call c =>
    -- the three objects of a call are known with the call itself
    have hcall : ∀ r ∈ [c.sender, c.target, c.activated], r ∈ known := by
      intro r hr
      refine ha.mem_of_mem_payload_refs htarget ?_
      rw [hpayload]
      exact hr
    cases op with
    | sender => exact .answer (hcall _ (by simp))
    | target => exact .answer (hcall _ (by simp))
    | message => exact message_agreed ha c.site
    | activated => exact .answer (hcall _ (by simp))
    | argCount => exact number_agreed ha _
    | evalArgAt => exact a.required_agreed ha hrefs 0 .index
  | _ => exact a.wrongReceiver_agreed ha .call

theorem MessageOp.begin_agreed (op : MessageOp) :
    Agreed known i j (op.begin i a) (op.begin j a) := by
  unfold MessageOp.begin
  rw [ha.payload_eq (a.target_mem hrefs)]
  cases i.payload a.target with
  | message site =>
    cases op with
    | name =>
      simp only [ha.names_eq]
      exact string_agreed ha _
    | argCount => exact number_agreed ha _
    | asString =>
      simp only [ha.names_eq]
      exact string_agreed ha _
    | next => exact siteObject_agreed ha site.next?
    | previous => exact siteObject_agreed ha site.previous?
  | _ => exact a.wrongReceiver_agreed ha .message

/-- **An operation starts in the same way in alike images.** -/
theorem Native.begin_agreed (op : Native) : Agreed known i j (op.begin i a) (op.begin j a) := by
  cases op with
  | object op => exact op.begin_agreed ha hrefs
  | block op => exact op.begin_agreed ha hrefs
  | call op => exact op.begin_agreed ha hrefs
  | message op => exact op.begin_agreed ha hrefs

/-! ## §3. Going on with an argument. -/

theorem SlotUse.perform_agreed (use : SlotUse) (n : Name) :
    Agreed known i j (use.perform i a n) (use.perform j a n) := by
  have htarget := a.target_mem hrefs
  cases use with
  | set => exact a.required_agreed ha hrefs 1 (.slotValue n)
  | update =>
    unfold SlotUse.perform
    dsimp only
    rw [ha.lookup?_eq htarget]
    cases i.lookup? a.target n with
    | some v => exact a.required_agreed ha hrefs 1 (.slotValue n)
    | none =>
      rw [ha.names_eq]
      exact .fail _
  | get =>
    unfold SlotUse.perform
    dsimp only
    rw [ha.lookup?_eq htarget]
    refine .answer ?_
    cases hv : i.lookup? a.target n with
    | some v => exact ha.mem_of_lookup? htarget hv
    | none => exact ha.mem_builtin .nil
  | has =>
    unfold SlotUse.perform
    dsimp only
    rw [ha.lookup?_eq htarget]
    refine .answer ?_
    cases (i.lookup? a.target n).isSome with
    | true => exact ha.mem_builtin .yes
    | false => exact ha.mem_builtin .no

theorem evalArgAt_agreed (x : Binary64) : Agreed known i j (evalArgAt i a x) (evalArgAt j a x) := by
  have htarget := a.target_mem hrefs
  unfold evalArgAt
  rw [ha.payload_eq htarget]
  cases hpayload : i.payload a.target with
  | call c =>
    dsimp only
    cases x.asIndex?.bind fun k => c.site.message.args[k]? with
    | some chain =>
      refine .of_demand (fun r hr => ha.mem_of_mem_payload_refs htarget ?_) trivial
      rw [hpayload]
      simp only [Demand.refs, List.mem_singleton] at hr
      simp [Payload.refs, hr]
    | none => exact .fail _
  | _ => exact a.wrongReceiver_agreed ha .call

/-- **An operation goes on in the same way in alike images.** -/
theorem Pending.resume_agreed (p : Pending) {v : Ref} (hv : v ∈ known) :
    Agreed known i j (p.resume i a v) (p.resume j a v) := by
  have htarget := a.target_mem hrefs
  have hlocals := a.locals_mem hrefs
  cases p with
  | returning => exact .of_demand (by simpa [Demand.refs, Signal.refs] using hv) trivial
  | slotName use =>
    unfold Pending.resume
    dsimp only
    rw [ha.payload_eq hv]
    cases i.payload v with
    | text s =>
      -- the text becomes a name before the slot is used
      have hknow : Image.Alike known { i with names := (i.names.intern s).2 }
          { j with names := (i.names.intern s).2 } := by
        simpa [Effect.made, Effect.apply] using
          ha.apply (e := .know (i.names.intern s).2) (by simp [Effect.refs])
      simp only [Image.intern, ha.names_eq]
      exact .of_know (use.perform_agreed hknow hrefs _)
    | _ => exact a.wrongArgument_agreed ha 0 .string
  | slotValue n =>
    exact .answer_after (.setSlot a.target n v) (by simp [Effect.refs, htarget, hv]) hv
  | proto =>
    exact .answer_after (.appendProto a.target v) (by simp [Effect.refs, htarget, hv]) htarget
  | done => exact .answer htarget
  | line text coming =>
    unfold Pending.resume
    simp only [ha.display_eq hv]
    cases coming with
    | nil => exact println_agreed ha _ (ha.mem_builtin .nil)
    | cons c rest => exact .of_demand (by simpa [Demand.refs] using hlocals) trivial
  | flag =>
    unfold Pending.resume
    simp only [ha.payload_eq hv]
    exact .answer_after (.setActivatable a.target _) (by simp [Effect.refs, htarget]) htarget
  | index =>
    unfold Pending.resume
    dsimp only
    rw [ha.payload_eq hv]
    cases i.payload v with
    | number x => exact evalArgAt_agreed ha hrefs x
    | _ => exact a.wrongArgument_agreed ha 0 .number

end

end Prototalk
