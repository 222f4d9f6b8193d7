/-
  Prototalk.Proofs.Host.Depth
  ────────────────────────────────
  **NO ACTIVATION OUTLIVES ITS CALL.**

  Between two requests the depth of an image is zero, whatever the requests
  before were and however they ended (`Host.depth_session`).  So what the
  limit of activations means to a call does not depend on earlier ones
  (`Host.limitLaw_session`).
-/
import Prototalk.Proofs.Evaluation.Depth
import Prototalk.Proofs.Host.Session

namespace Prototalk

theorem Image.depth_enter {image : Image} {fuel : Nat} {ran : Ran} (entry : EntryPoint)
    (hdepth : image.depth = 0) (hran : image.enter fuel entry = some ran) : ran.image.depth = 0 :=
  (image.limitLaw entry hdepth (Nat.le_refl image.maxDepth)).depth fuel ran hran

theorem Image.depth_new (config : Config) : (Image.new config).depth = 0 := rfl

namespace Host

variable {h : Host}

theorem depth_keep (h : Host) (as : Option String) (r : Ref) :
    (h.keep as r).image.depth = h.image.depth := by
  cases as <;> rfl

theorem depth_answerOption (h : Host) (as : Option String) (found : Option Ref) :
    (h.answerOption as found).2.image.depth = h.image.depth := by
  cases found with
  | none => rfl
  | some r => exact depth_keep h as r

theorem depth_answerRun (as : Option String) {ran : Option Ran} (hdepth : h.image.depth = 0)
    (hran : ∀ r ∈ ran, r.image.depth = 0) : (h.answerRun as ran).2.image.depth = 0 := by
  cases ran with
  | none => exact hdepth
  | some ran =>
    have hafter := hran ran rfl
    unfold answerRun
    dsimp only
    cases ran.result with
    | error e => exact hafter
    | ok r => exact (depth_keep ..).trans hafter

theorem depth_evaluateIn (as : Option String) (text : String) (locals : Ref)
    (hdepth : h.image.depth = 0) : (h.evaluateIn as text locals).2.image.depth = 0 := by
  unfold evaluateIn
  dsimp only
  split
  · exact hdepth
  · exact hdepth
  · rename_i chain _
    let image : Image := { h.image with names := (parse h.image.names text).names }
    have hstart : image.depth = 0 := hdepth
    refine depth_answerRun (h := { h with image := image }) as hstart fun ran hran => ?_
    exact Image.depth_enter (.chain chain locals) hstart hran

theorem depth_evaluateDraft (as : Option String) (draft : Draft Chain) (locals : Ref)
    (hdepth : h.image.depth = 0) : (h.evaluateDraft as draft locals).2.image.depth = 0 := by
  have hstart : (h.know draft.texts).image.depth = 0 := hdepth
  exact depth_answerRun as hstart fun ran hran => Image.depth_enter (.chain _ locals) hstart hran

/-- **A request leaves no activation behind.** -/
theorem depth_handle (as : Option String) (request : Request) (hdepth : h.image.depth = 0) :
    (h.handle as request).2.image.depth = 0 := by
  cases request with
  | run text =>
    exact depth_answerRun as hdepth fun ran hran => Image.depth_enter (.text text) hdepth hran
  | runSource source =>
    exact depth_answerRun as hdepth fun ran hran =>
      Image.depth_enter (.source source) hdepth hran
  | evaluate text locals =>
    unfold handle
    dsimp only
    split
    · exact depth_evaluateIn as text _ hdepth
    · exact hdepth
  | evaluateDraft draft locals =>
    unfold handle
    dsimp only
    split
    · exact depth_evaluateDraft as draft _ hdepth
    · exact hdepth
  | ownSlot object slot | lookup object slot =>
    unfold handle
    dsimp only
    split
    · exact (depth_answerOption ..).trans hdepth
    · exact hdepth
  | number x | string s => exact (depth_keep ..).trans hdepth
  | boolean b => exact (depth_keep ..).trans hdepth
  | cloneOf object | make draft objects protos | inspect object =>
    unfold handle
    dsimp only
    split
    · exact (depth_keep ..).trans hdepth
    · exact hdepth
  | setActivatable object flag =>
    unfold handle
    dsimp only
    split
    · split <;> exact hdepth
    · exact hdepth
  | same a b | setSlot a s b | appendProto a b | protos a | nameOf a =>
    unfold handle
    dsimp only
    split <;> exact hdepth
  | live | collect | drop name | output | clearOutput | maxDepth | nameCount => exact hdepth

theorem depth_session (turns : List Turn) (hdepth : h.image.depth = 0) :
    (h.session turns).2.image.depth = 0 := by
  induction turns generalizing h with
  | nil => exact hdepth
  | cons turn turns ih => exact ih (depth_handle turn.1 turn.2 hdepth)

/-- **What the limit of activations means**, in every image in which no activation is in progress,
hence in the image of every host, whatever its requests were and however they ended. -/
theorem limitLaw_session {n m : Nat} (hnm : n ≤ m) :
    (∀ (image : Image) (entry : EntryPoint), image.depth = 0 → image.LimitLaw entry n m)
    ∧ ∀ (config : Config) (turns : List Turn), ((new config).session turns).2.image.depth = 0 :=
  ⟨fun image entry hdepth => image.limitLaw entry hdepth hnm,
    fun config turns => depth_session turns (Image.depth_new config)⟩

/-- One activation fits into a limit of one, so a limit of two makes no difference to it. -/
theorem limitLaw_session_oneActivation :
    ∃ ran, ((Image.new {}).limited 1).enter 40 (.text "method(7) call") = some ran
      ∧ ((Image.new {}).limited 2).enter 40 (.text "method(7) call")
        = some ⟨ran.result, ran.image.limited 2⟩ := by
  have hlaw := (limitLaw_session (n := 1) (m := 2) (by decide)).1 (Image.new {})
    (.text "method(7) call") rfl
  have hended : (((Image.new {}).limited 1).enter 40 (.text "method(7) call")).map
      (fun ran => ran.result.toOption.isSome) = some true := by decide +kernel
  obtain ⟨ran, hran, hok⟩ := Option.map_eq_some_iff.mp hended
  refine ⟨ran, hran, hlaw.same 40 ran hran fun limit span hoverflow => ?_⟩
  rw [hoverflow] at hok
  cases hok

end Host

end Prototalk
