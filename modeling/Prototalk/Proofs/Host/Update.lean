/-
  Prototalk.Proofs.Host.Update
  ────────────────────────────────
  **UPDATING A SLOT INTRODUCES NO NAME.**

  `updateSlot` takes its name, looks for it, evaluates the new value and
  sets the slot.  In between any program may run: it may set slots, append
  protos, collect, or update slots in turn.  What was found before is found
  after it all the same, because the operation itself keeps the receiver in
  use, and what stays in use keeps its names (`Stage.Reached.endures_iterate`).

    • `Performs.exists_of_required` — an operation that has a value has got
      the argument it required,
    • `Image.Updated` — the write alone: the name was found, so no search
      that failed succeeds now,
    • `Stage.updates_of_invokes` — what an update comes to, wherever a
      history invokes it.
-/
import Prototalk.Proofs.Evaluation.Propagation
import Prototalk.Proofs.Host.Literal
import Prototalk.Proofs.Name.Interner
import Prototalk.Proofs.Object.Inheritance

open Relation (ReflTransGen)

namespace Prototalk

/-! ## §1. The write. -/

/-- The slot `n` of `r` has got the value `v`, and no name is found that was not. -/
structure Image.Updated (before : Image) (r : Ref) (n : Name) (v : Ref) (after : Image) : Prop where
  /-- One slot is set. -/
  written : after = before.setSlot r n v
  /-- Its name was found before. -/
  known : (before.lookup? r n).isSome
  /-- No name is introduced, on no object. -/
  introduces : ∀ x m, before.lookup? x m = none → after.lookup? x m = none
  /-- The name is found. -/
  found : after.lookup? r n = some v

theorem Image.updated_setSlot {i : Image} {r : Ref} {n : Name} (hr : (i.objects.get? r).isSome)
    (hknown : (i.lookup? r n).isSome) (v : Ref) : i.Updated r n v (i.setSlot r n v) where
  written := rfl
  known := hknown
  introduces := by
    intro x m hnone
    exact Heap.lookup?_setSlot_eq_none hr v hknown hnone
  found := Heap.lookup?_setSlot_self hr n v

namespace Machine

variable {stack : List Frame} {a : Activation} {i j : Image} {k c : Nat} {m : Machine} {w v : Ref}
  {text : String}

/-! ## §2. The operation. -/

/-- An operation that gets the argument it requires evaluates it in the sender. -/
theorem meet_required {names : Interner} {index : Nat} {chain : Chain}
    (hchain : a.args[index]? = some chain) (i : Image) (p : Pending) (stack : List Frame) :
    meet i (a.required names index p) a stack
      = ⟨i, .walk (.start chain a.locals), .native a p :: stack⟩ := by
  unfold Activation.required
  rw [hchain]
  rfl

/-- **An operation that has a value has got the argument it required.** -/
theorem Performs.exists_of_required {names : Interner} {index : Nat} {p : Pending}
    (h : Performs stack a (i, a.required names index p) k j (.value w)) :
    ∃ chain n i' v l, a.args[index]? = some chain
      ∧ Comes (.native a p :: stack) (meet i (a.required names index p) a stack) n i' (.value v)
      ∧ Performs stack a (p.resume i' a v) l j (.value w) ∧ k = n + 1 + l := by
  cases hchain : a.args[index]? with
  | none =>
    unfold Activation.required at h
    rw [hchain] at h
    cases h
  | some chain =>
    rw [meet_required hchain]
    unfold Activation.required at h
    rw [hchain] at h
    cases h with
    | argument hvalue hrest => exact ⟨chain, _, _, _, _, rfl, hvalue, hrest, rfl⟩

/-- The first argument of the update is a text, `c` steps after its start. -/
def Named (stack : List Frame) (a : Activation) (m : Machine) (c : Nat) (i : Image)
    (text : String) : Prop :=
  ∃ v, i.payload v = .text text
    ∧ Comes (.native a (.slotName .update) :: stack) m c i (.value v)

/-- One step later its name is looked for. -/
theorem Named.passes (h : Named stack a m c i text) :
    Passes stack m (c + 1)
      (let x := SlotUse.update.perform (i.intern text).2 a (i.intern text).1
       meet x.1 x.2 a stack) := by
  obtain ⟨v, htext, hcomes⟩ := h
  have hresume : (Pending.slotName .update).resume i a v
      = SlotUse.update.perform (i.intern text).2 a (i.intern text).1 := by
    unfold Pending.resume
    dsimp only
    rw [htext]
  rw [← hresume]
  exact hcomes.passes

theorem perform_update_of_none {n : Name} (hnone : i.lookup? a.target n = none) :
    SlotUse.update.perform i a n = (i, Activation.fail (.slotNotFound (i.names.text n))) := by
  unfold SlotUse.perform
  dsimp only
  rw [hnone]

theorem perform_update_of_isSome {n : Name} (hsome : (i.lookup? a.target n).isSome) :
    SlotUse.update.perform i a n = (i, a.required i.names 1 (.slotValue n)) := by
  obtain ⟨slot, hslot⟩ := Option.isSome_iff_exists.mp hsome
  unfold SlotUse.perform
  dsimp only
  rw [hslot]

/-- What an update comes to that starts with the machine `m`. -/
structure Updates (stack : List Frame) (a : Activation) (m : Machine) : Prop where
  /-- If it has a value, its first argument was a text whose name was found on the receiver; then
  the second argument came to the value, after whatever it did, and then one slot was written. -/
  updated : ∀ k j w, Comes stack m k j (.value w) →
    ∃ (c d : Nat) (i before : Image) (text : String) (chain : Chain),
      Named stack a m c i text
      ∧ ((i.intern text).2.lookup? a.target (i.intern text).1).isSome
      ∧ a.args[1]? = some chain
      ∧ Comes (.native a (.slotValue (i.intern text).1) :: stack)
        ⟨(i.intern text).2, .walk (.start chain a.locals),
          .native a (.slotValue (i.intern text).1) :: stack⟩ d before (.value w)
      ∧ k = c + 1 + (d + 1)
      ∧ before.Updated a.target (i.intern text).1 w j
  /-- If the name is found, and the second argument comes to a value, that is the value. -/
  succeeds : ∀ (c d : Nat) (i before : Image) (text : String) (chain : Chain) (w : Ref),
    Named stack a m c i text →
    ((i.intern text).2.lookup? a.target (i.intern text).1).isSome →
    a.args[1]? = some chain →
    Comes (.native a (.slotValue (i.intern text).1) :: stack)
      ⟨(i.intern text).2, .walk (.start chain a.locals),
        .native a (.slotValue (i.intern text).1) :: stack⟩ d before (.value w) →
    Comes stack m (c + 1 + (d + 1)) (before.setSlot a.target (i.intern text).1 w) (.value w)
  /-- If the name is not found when it is looked for, the update fails at once: the second argument
  is not evaluated, and the objects are what they were when the first one had its value. -/
  refused : ∀ c i text, Named stack a m c i text →
    (i.intern text).2.lookup? a.target (i.intern text).1 = none →
    Comes stack m (c + 1) (i.intern text).2 (.signal (.ofFault (.slotNotFound text)))
    ∧ (i.intern text).2.objects = i.objects

theorem refused_of_named (h : Named stack a m c i text)
    (hnone : (i.intern text).2.lookup? a.target (i.intern text).1 = none) :
    Comes stack m (c + 1) (i.intern text).2 (.signal (.ofFault (.slotNotFound text))) := by
  have hpasses := h.passes
  rw [perform_update_of_none hnone] at hpasses
  have htext : (i.intern text).2.names.text (i.intern text).1 = text := i.names.text_intern text
  rw [htext] at hpasses
  exact hpasses

/-- The receiver of an operation that waits is in use. -/
theorem target_mem_reach (i : Image) (control : Control) (p : Pending) :
    a.target ∈ (Machine.mk i control (.native a p :: stack)).moment.reach := by
  apply mem_reach_of_mem_refs
  apply List.mem_append_right
  exact List.mem_append_left _ List.mem_cons_self

/-- An update that has a value was given a text, and found its name. -/
theorem Performs.exists_named (h : Performs stack a ((Pending.slotName .update).resume i a v) k j
    (.value w)) : ∃ text, i.payload v = .text text
      ∧ ((i.intern text).2.lookup? a.target (i.intern text).1).isSome
      ∧ Performs stack a ((i.intern text).2, a.required (i.intern text).2.names 1
        (.slotValue (i.intern text).1)) k j (.value w) := by
  unfold Pending.resume at h
  dsimp only at h
  cases hpayload : i.payload v with
  | text text =>
    rw [hpayload] at h
    dsimp only at h
    cases hfound : (i.intern text).2.lookup? a.target (i.intern text).1 with
    | none =>
      rw [perform_update_of_none hfound] at h
      cases h
    | some slot =>
      have hsome : ((i.intern text).2.lookup? a.target (i.intern text).1).isSome := by
        rw [hfound]
        rfl
      rw [perform_update_of_isSome hsome] at h
      exact ⟨text, rfl, hsome, h⟩
  | _ =>
    rw [hpayload] at h
    cases h

/-- **What an update comes to**, if what happens from its start on endures. -/
theorem updates_of_endures {names : Interner}
    (hm : m = meet i (a.required names 0 (.slotName .update)) a stack)
    (hendures : ∀ k l, (step^[k] m).moment.Endures (step^[k + l] m).moment) :
    Updates stack a m where
  updated := by
    intro k j w h
    rw [hm] at h
    obtain ⟨chain₀, c, i₁, v, l, -, hname, hresume, rfl⟩ :=
      ((comes_meet_iff (i, _)).mp h).exists_of_required
    rw [← hm] at hname
    obtain ⟨text, htext, hfound, hrequired⟩ := hresume.exists_named
    obtain ⟨chain, d, before, v', l, hchain, hvalue, hwrite, rfl⟩ := hrequired.exists_of_required
    have hnamed : Named stack a m c i₁ text := ⟨v, htext, hname⟩
    -- the second argument starts when the name has been found, and ends before the write
    have hstarts : step^[c + 1] m = ⟨(i₁.intern text).2, .walk (.start chain a.locals),
        .native a (.slotValue (i₁.intern text).1) :: stack⟩ := by
      rw [hnamed.passes.last, perform_update_of_isSome hfound]
      exact meet_required hchain _ _ stack
    have hends : step^[c + 1 + d] m
        = ⟨before, .value v', .native a (.slotValue (i₁.intern text).1) :: stack⟩ := by
      rw [Nat.add_comm, Function.iterate_add_apply, hstarts, ← meet_required hchain _ _ stack]
      exact hvalue.last
    cases hwrite with
    | answer =>
      have hlasts := hendures (c + 1) d
      have hthere := (hendures (c + 1 + d) 0).there
      rw [hstarts, hends] at hlasts
      rw [hends] at hthere
      have hknown : (before.lookup? a.target (i₁.intern text).1).isSome :=
        hlasts.isSome_lookup? (target_mem_reach _ _ _) (target_mem_reach _ _ _) hfound
      rw [meet_required hchain] at hvalue
      refine ⟨c, d, i₁, before, text, chain, hnamed, hfound, hchain, hvalue, by omega, ?_⟩
      exact Image.updated_setSlot (hthere _ (target_mem_reach _ _ _)) hknown w
  succeeds := by
    intro c d i before text chain w h hfound hchain hvalue
    have hpasses := h.passes
    rw [perform_update_of_isSome hfound] at hpasses
    dsimp only at hpasses
    rw [meet_required hchain] at hpasses
    exact hpasses.trans hvalue.passes
  refused := by
    intro c i text h hnone
    exact ⟨refused_of_named h hnone, rfl⟩

end Machine

/-! ## §3. Histories. -/

namespace Stage

variable {config : Config} {a : Stage} {m : Machine}

theorem next_steps (h : Host) (turn : Host.Turn) (start : Machine) (steps k : Nat) :
    ReflTransGen Next (.running h turn start steps) (.running h turn start (steps + k)) := by
  induction k with
  | zero => exact .refl
  | succ k ih => exact ih.tail (.step h turn start (steps + k))

/-- **A program of a history endures**, from any of its steps to any later one. -/
theorem Reached.endures_iterate (ha : Reached config a) (hm : a.machine? = some m) (k l : Nat) :
    (Machine.step^[k] m).moment.Endures (Machine.step^[k + l] m).moment := by
  cases a with
  | idle h => cases hm
  | running h turn start steps =>
    obtain rfl : Machine.step^[steps] start = m := Option.some.inj hm
    have hk : Reached config (.running h turn start (steps + k)) :=
      ha.trans (next_steps h turn start steps k)
    have hendures := (endures (next_steps h turn start (steps + k) l) hk.sound).2
    have hmoment (d : Nat) : Machine.step^[d] (Machine.step^[steps] start)
        = Machine.step^[steps + d] start := by
      rw [← Function.iterate_add_apply, Nat.add_comm]
    rw [hmoment, hmoment, ← Nat.add_assoc]
    exact hendures

/-- **Updating a slot introduces no name**, wherever a history of a new host invokes it, whatever
its arguments do. -/
theorem updates_of_invokes (ha : Reached config a) (hm : a.machine? = some m) {act : Activation}
    {stack : List Frame} (hinvokes : m.Invokes (.object .updateSlot) act stack) :
    Machine.Updates stack act m.step := by
  apply Machine.updates_of_endures hinvokes.step
  intro k l
  -- the machine is one step on
  have hendures := ha.endures_iterate hm (k + 1) l
  rw [Nat.add_right_comm, Function.iterate_succ_apply, Function.iterate_succ_apply] at hendures
  exact hendures

/-- An update in the second argument of another one, behind the assignment that made the slot. -/
theorem updates_of_invokes_nested :
    let first := Host.new {}
    let request : Request := .run "setSlot(\"x\", 1); updateSlot(\"x\", updateSlot(\"x\", 2))"
    ∃ m act stack, first.machineOf? request = some m
      ∧ (Machine.step^[13] m).Invokes (.object .updateSlot) act stack
      ∧ Machine.Updates stack act (Machine.step^[14] m) := by
  intro first request
  have hoperation : (first.machineOf? request).bind (fun m => (Machine.step^[13] m).operation?)
      = some (.object .updateSlot) := by decide +kernel
  obtain ⟨m, hm, hupdate⟩ := Option.bind_eq_some_iff.mp hoperation
  obtain ⟨act, stack, hinvokes⟩ := Machine.exists_invokes hupdate
  have hstart : Reached {} (.running first (none, request) m 0) := .single (.start hm none trivial)
  have hreached : Reached {} (.running first (none, request) m (0 + 13)) :=
    hstart.trans (next_steps first (none, request) m 0 13)
  refine ⟨m, act, stack, hm, hinvokes, ?_⟩
  rw [Function.iterate_succ_apply']
  exact updates_of_invokes hreached rfl hinvokes

/-- No slot `ghost` is found, so `y` is not set and does not even get a name. -/
example : ((Image.new {}).doString 40 "updateSlot(\"ghost\", setSlot(\"y\", 1))").map
    (fun ran => (ran.result, ran.image.names.get? "y"))
      = some (.error ⟨.slotNotFound "ghost", some ⟨0, 36⟩⟩, none) := by decide +kernel

end Stage

end Prototalk
