/-
  Prototalk.Proofs.Evaluation.Program
  ────────────────────────────────
  **A PROGRAM RUN IN TWIN IMAGES.**

  The two runs have the same result, or neither ends in time; the images
  they leave are twins again, on the result and on whatever is held.
-/
import Prototalk.Evaluation.Program
import Prototalk.Proofs.Evaluation.Step

namespace Prototalk

open Image (Twins)

/-- Runs with the same result and with twin images. -/
structure Ran.Alike (held : List Ref) (x y : Ran) : Prop where
  /-- They have the same result. -/
  result_eq : y.result = x.result
  /-- What is held from outside. -/
  outside : x.image.held = held
  /-- The images are twins on the result. -/
  twins : ∃ known, Twins known x.image y.image ∧ ∀ r ∈ Image.resultRefs x.result, r ∈ known

/-- Related results, or none on either side, after functions that relate them. -/
theorem rel_map {α β γ δ : Type} {R : α → β → Prop} {S : γ → δ → Prop} {f : α → γ} {g : β → δ}
    {x : Option α} {y : Option β} (hxy : Option.Rel R x y) (hfg : ∀ a b, R a b → S (f a) (g b)) :
    Option.Rel S (x.map f) (y.map g) := by
  cases hxy with
  | none => exact .none
  | some hab => exact .some (hfg _ _ hab)

namespace Image

variable {known : Set Ref} {held : List Ref} {i j : Image}

theorem resultRefs_subset (m : Machine) : ∀ r ∈ resultRefs m.result, r ∈ m.control.refs := by
  intro r hr
  unfold Machine.result at hr
  cases hcontrol : m.control with
  | walk w =>
    rw [hcontrol] at hr
    have : r = w.result := by simpa [resultRefs] using hr
    simp [Control.refs, Walk.refs, this]
  | value v =>
    rw [hcontrol] at hr
    exact hr
  | unwind s =>
    rw [hcontrol] at hr
    cases s <;> exact hr

end Image

section

variable {held : List Ref}

/-- Machines that are alike end in the same way. -/
theorem Machine.Alike.ran {m n : Machine} (h : Machine.Alike held m n) :
    Ran.Alike held ⟨m.result, m.image⟩ ⟨n.result, n.image⟩ := by
  obtain ⟨hcontrol, -, known, hp, hrefs⟩ := h
  refine ⟨?_, hp.outside, known, hp.twins, fun r hr => hrefs r (Image.resultRefs_subset m r hr)⟩
  show n.result = m.result
  rw [Machine.result, Machine.result, hcontrol]

/-- The result is held while the end of a run collects. -/
theorem Ran.Alike.collected {x y : Ran} (h : x.Alike held y) :
    Ran.Alike held ⟨x.result, x.image.collectIfDue (Image.resultRefs x.result)⟩
      ⟨y.result, y.image.collectIfDue (Image.resultRefs y.result)⟩ := by
  obtain ⟨hresult, houtside, known, htwins, hrefs⟩ := h
  have hcollected := htwins.collectIfDue hrefs
  refine ⟨hresult, (Image.held_collectIfDue _ _).trans houtside,
    x.image.reach (Image.resultRefs x.result), ?_, fun r hr => ?_⟩
  · rw [hresult]
    exact hcollected
  · exact Heap.Reaches.handle (List.mem_append_left _ hr)

end

namespace Image

variable {known : Set Ref} {held : List Ref} {i j : Image}

section

variable (ht : Twins known i j) (hheld : i.held = held)

include ht hheld

theorem alike_evaluate (fuel : Nat) (chain : Chain) {locals : Ref} (hlocals : locals ∈ known) :
    Option.Rel (Ran.Alike held) (i.evaluate fuel chain locals) (j.evaluate fuel chain locals) := by
  -- no frame waits at the start
  have hpoised : Machine.Poised known held i j [] := ⟨ht, hheld, by simp, by simp⟩
  exact rel_map ((hpoised.stepped_start chain hlocals).alike.run fuel) fun m n hmn => hmn.ran

theorem alike_runChain (fuel : Nat) (chain : Option Chain) :
    Option.Rel (Ran.Alike held) (i.runChain fuel chain) (j.runChain fuel chain) := by
  cases chain with
  | none =>
    refine .some ⟨rfl, hheld, known, ht, fun r hr => ?_⟩
    rw [List.mem_singleton.mp hr]
    exact ht.alike.mem_builtin .nil
  | some chain =>
    have hrun := alike_evaluate ht hheld fuel chain (ht.alike.mem_builtin .lobby)
    exact rel_map hrun fun x y hxy => hxy.collected

theorem alike_runParsed (fuel : Nat) (parsed : Parsed) :
    Option.Rel (Ran.Alike held) (i.runParsed fuel parsed) (j.runParsed fuel parsed) := by
  have hknow := ht.know parsed.names
  unfold runParsed
  cases parsed.result with
  | ok chain => exact alike_runChain hknow hheld fuel chain
  | error e => exact .some ⟨rfl, hheld, known, hknow, by simp [resultRefs]⟩

/-- **A program does the same in twin images.** -/
theorem alike_doString (fuel : Nat) (text : String) :
    Option.Rel (Ran.Alike held) (i.doString fuel text) (j.doString fuel text) := by
  unfold doString
  rw [ht.alike.names_eq]
  exact alike_runParsed ht hheld fuel _

/-- **A program that a source reads does the same in twin images.** -/
theorem alike_doSource (fuel : Nat) (source : Source) :
    Option.Rel (Ran.Alike held) (i.doSource fuel source) (j.doSource fuel source) := by
  unfold doSource
  rw [ht.alike.names_eq, ht.alike.lexMode_eq]
  exact alike_runParsed ht hheld fuel _

end

end Image

end Prototalk
