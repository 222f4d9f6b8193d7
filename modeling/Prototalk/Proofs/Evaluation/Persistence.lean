/-
  Prototalk.Proofs.Evaluation.Persistence
  ────────────────────────────────
  **WHAT A PROGRAM LEAVES TO THE OBJECTS IT FINDS.**

  A running program uses what it is doing right now and what its frames
  wait with.  A step endures (`Machine.endures_step`): either its effects
  mention what the machine held before, or it ends an activation, and then
  it collects at most what is out of use.  So do any number of steps, the
  start of a program, and its end with the result still in use.
-/
import Prototalk.Proofs.Evaluation.Program
import Prototalk.Proofs.Image.Persistence

namespace Prototalk

namespace Machine

variable {held : List Ref} {m : Machine}

/-- The objects that a running program uses. -/
def refs (m : Machine) : List Ref := m.control.refs ++ stackRefs m.stack

/-- The objects of a running program, and what it uses. -/
def moment (m : Machine) : Moment := m.image.moment m.refs

/-- A machine that is like itself is poised on what it reaches. -/
theorem Alike.poised (ha : Alike held m m) :
    Poised m.moment.reach held m.image m.image m.stack := by
  obtain ⟨-, -, known, hp, hrefs⟩ := ha
  have hrefs' : ∀ r ∈ m.refs, r ∈ known := by
    intro r hr
    rcases List.mem_append.mp hr with hr | hr
    · exact hrefs r hr
    · obtain ⟨f, hf, hr⟩ := List.mem_flatMap.mp hr
      exact hp.waiting f hf r hr
  refine ⟨⟨hp.twins.alike.reach hrefs', hp.twins.left, hp.twins.right⟩, hp.outside, ?_, hp.linked⟩
  intro f hf r hr
  refine .handle (List.mem_append_left _ (List.mem_append_right _ ?_))
  exact List.mem_flatMap.mpr ⟨f, hf, hr⟩

theorem mem_reach_of_mem_refs {r : Ref} (hr : r ∈ m.refs) : r ∈ m.moment.reach :=
  .handle (List.mem_append_left _ hr)

/-- The same objects with less in use. -/
theorem Alike.endures_of_inUse (ha : Alike held m m) {i : Image} {inUse : List Ref}
    (hobjects : i.objects = m.image.objects) (hhandles : i.handles = m.image.handles)
    (hinUse : ∀ r ∈ inUse, r ∈ m.moment.reach) : m.moment.Endures (i.moment inUse) := by
  have halike := ha.poised.twins.alike
  refine .of_inUse halike.objects.there hobjects fun r hr => ?_
  rcases List.mem_append.mp hr with hr | hr
  · exact hinUse r hr
  · rw [hhandles] at hr
    exact halike.handled r hr

/-- **A step endures.** -/
theorem Alike.endures_step (ha : Alike held m m) : m.moment.Endures m.step.moment := by
  have hp := ha.poised
  obtain ⟨i, control, stack⟩ := m
  have hcontrol : ∀ r ∈ control.refs, r ∈ (Machine.mk i control stack).moment.reach :=
    fun r hr => mem_reach_of_mem_refs (List.mem_append_left _ hr)
  obtain ⟨effects, hfits, himage, -, -, -, hp', hrefs⟩ | ⟨scope, rest, rfl, hstep⟩ :=
    step_cases hp hcontrol
  · unfold moment
    rw [himage]
    refine Image.endures_after hp.twins.alike hfits fun r hr => ?_
    rcases List.mem_append.mp hr with hr | hr
    · exact hrefs r hr
    · obtain ⟨f, hf, hr⟩ := List.mem_flatMap.mp hr
      exact hp'.waiting f hf r hr
  · -- first the scope goes out of use, then there may be a collection
    have hwaiting : ∀ r ∈ control.refs ++ stackRefs rest,
        r ∈ (Machine.mk i control (.body scope :: rest)).moment.reach := by
      intro r hr
      refine mem_reach_of_mem_refs ?_
      rcases List.mem_append.mp hr with hr | hr
      · exact List.mem_append_left _ hr
      · exact List.mem_append_right _ (List.mem_append_right _ hr)
    have hleft := ha.endures_of_inUse rfl rfl hwaiting
    have hcollected := (hp.twins.left.collectIfDue fun r hr =>
      hp.twins.alike.objects.there r (hwaiting r hr)).2.endures
    refine hleft.trans ?_
    rw [hstep i]
    unfold moment refs
    rw [Control.refs_caught]
    exact hcollected

theorem Alike.iterate (ha : Alike held m m) (k : Nat) :
    Alike held (Machine.step^[k] m) (Machine.step^[k] m) := by
  induction k with
  | zero => exact ha
  | succ k ih =>
    rw [Function.iterate_succ_apply']
    exact ih.step

/-- **Any number of steps endures.** -/
theorem Alike.endures_iterate (ha : Alike held m m) (k : Nat) :
    m.moment.Endures (Machine.step^[k] m).moment := by
  induction k with
  | zero => exact ha.endures_of_inUse rfl rfl fun r => mem_reach_of_mem_refs
  | succ k ih =>
    rw [Function.iterate_succ_apply']
    exact ih.trans (ha.iterate k).endures_step

end Machine

/-! ## §2. Starts and ends. -/

/-- What a run leaves, with its result in use. -/
def Ran.moment (ran : Ran) : Moment := ran.image.moment (Image.resultRefs ran.result)

namespace Machine

variable {held : List Ref} {m : Machine}

theorem Alike.endures_result (ha : Alike held m m) :
    m.moment.Endures (Ran.moment ⟨m.result, m.image⟩) :=
  ha.endures_of_inUse rfl rfl fun r hr =>
    mem_reach_of_mem_refs (List.mem_append_left _ (Image.resultRefs_subset m r hr))

/-- **The end of a program endures**, also if it collects. -/
theorem Alike.endures_collected (ha : Alike held m m) :
    m.moment.Endures
      (Ran.moment ⟨m.result, m.image.collectIfDue (Image.resultRefs m.result)⟩) := by
  have hresult := ha.endures_result
  have htwins := ha.poised.twins
  refine hresult.trans (htwins.left.collectIfDue fun r hr => ?_).2.endures
  exact htwins.alike.objects.there r
    (mem_reach_of_mem_refs (List.mem_append_left _ (Image.resultRefs_subset m r hr)))

end Machine

end Prototalk
