/-
  Prototalk.Proofs.Host.Persistence
  ────────────────────────────────
  **WHAT IS FOUND ONCE IS FOUND EVER AFTER.**

  A history goes from stage to stage: a host answers requests, and while it
  answers one that runs a program, there is a stage after every step of the
  program.  Every stage is a moment, and of two stages of a history the
  later one endures from the earlier one (`Stage.endures`): whatever is in
  use at both has kept its slots and protos and is what it was.

    • `Host.Paired.endures_handle` — from one request to the next,
    • `Host.Paired.spans_handle` — from inside a program to the reply,
    • `Stage.Next.endures` — from one stage to the next.
-/
import Prototalk.Proofs.Evaluation.Persistence
import Prototalk.Proofs.Host.Depth

namespace Prototalk

/-- Whether a request runs a program. -/
def Request.runsProgram : Request → Bool
  | .run _ => true
  | .runSource _ => true
  | .evaluate _ _ => true
  | .evaluateDraft _ _ => true
  | _ => false

namespace Host

variable {known : Set Ref} {h : Host} {r : Ref} {inUse : List Ref} {start : Machine}

/-! ## §1. Hosts between requests. -/

/-- The objects of a host between requests. -/
def moment (h : Host) : Moment := h.image.moment []

namespace Paired

variable (hp : Paired known h h)

include hp

/-- A host that is paired with itself is so on what it reaches. -/
theorem onReach (hinUse : ∀ s ∈ inUse, s ∈ known) : Paired (h.image.reach inUse) h h :=
  ⟨rfl, rfl, hp.outside, hp.twins.alike.reach hinUse, hp.twins.left, hp.twins.right⟩

/-- The same objects, of which no others are in use. -/
theorem endures_of_inUse {i : Image} (hinUse : ∀ s ∈ inUse, s ∈ known)
    (hobjects : i.objects = h.image.objects) {inUse' : List Ref}
    (hinUse' : ∀ s ∈ inUse' ++ i.handles, s ∈ h.image.reach inUse) :
    (h.image.moment inUse).Endures (i.moment inUse') :=
  .of_inUse (hp.onReach hinUse).twins.alike.objects.there hobjects hinUse'

/-- The same objects, of which no program uses any. -/
theorem endures_idle {g : Host} (hinUse : ∀ s ∈ inUse, s ∈ known)
    (hobjects : g.image.objects = h.image.objects)
    (hhandles : ∀ s ∈ g.image.handles, s ∈ h.image.reach inUse) :
    (h.image.moment inUse).Endures g.moment :=
  hp.endures_of_inUse hinUse hobjects hhandles

theorem endures_setKept (hinUse : ∀ s ∈ inUse, s ∈ known) {kept : List (String × Ref)}
    (hkept : ∀ k ∈ kept, k.2 ∈ h.image.reach inUse) :
    (h.image.moment inUse).Endures (h.setKept kept).moment := by
  refine hp.endures_idle hinUse rfl fun s hs => ?_
  rcases List.mem_append.mp hs with hs | hs
  · exact (hp.onReach hinUse).twins.alike.handled s (List.mem_append_left _ hs)
  · obtain ⟨k, hk, rfl⟩ := List.mem_map.mp hs
    exact hkept k hk

/-- Whether or not what is in use is kept. -/
theorem endures_keep (hinUse : ∀ s ∈ inUse, s ∈ known) (as : Option String)
    (hr : r ∈ h.image.reach inUse) : (h.image.moment inUse).Endures (h.keep as r).moment := by
  have hp' := hp.onReach hinUse
  cases as with
  | none => exact hp.endures_idle hinUse rfl hp'.twins.alike.handled
  | some name =>
    refine hp.endures_setKept hinUse fun k hk => ?_
    rcases mem_putKept hk with rfl | hk
    · exact hr
    · exact hp'.mem_of_mem_kept hk

/-- The same objects, and the same in use. -/
theorem endures_same {g : Host} (hobjects : g.image.objects = h.image.objects)
    (hhandles : g.image.handles = h.image.handles) : h.moment.Endures g.moment := by
  refine hp.endures_idle (by simp) hobjects fun s hs => .handle ?_
  rw [hhandles] at hs
  exact hs

/-! ## §2. Programs. -/

/-- The end of a run, and what is kept of it. -/
theorem endures_answerRun (as : Option String) {ran : Ran} (hran : ran.Alike h.image.held ran) :
    ran.moment.Endures (h.answerRun as (some ran)).2.moment := by
  obtain ⟨-, hheld, known', ht, hrefs⟩ := hran
  obtain ⟨result, image⟩ := ran
  -- the host with the image of the run, before the result is kept
  let after : Host := report { h with image := image }
  have hafter : Paired known' after after := ⟨rfl, rfl, hheld.trans hp.outside, ht⟩
  cases result with
  | ok r =>
    have hr : r ∈ Image.resultRefs (.ok r) := List.mem_singleton.mpr rfl
    show Moment.Endures _ (after.keep as r).moment
    exact hafter.endures_keep hrefs as (.handle (List.mem_append_left _ hr))
  | error e =>
    show Moment.Endures _ after.moment
    exact hafter.endures_idle hrefs rfl (hafter.onReach hrefs).twins.alike.handled

/-- A program starts with an object that is in use. -/
theorem alike_start (chain : Chain) (hr : r ∈ known) :
    Machine.Alike h.image.held (.start h.image chain r) (.start h.image chain r) := by
  have hpoised : Machine.Poised known h.image.held h.image h.image [] :=
    ⟨hp.twins, rfl, by simp, by simp⟩
  exact (hpoised.stepped_start chain hr).alike

theorem endures_start (chain : Chain) (hr : r ∈ h.image.handles) :
    h.moment.Endures (Machine.start h.image chain r).moment := by
  refine hp.endures_of_inUse (by simp) rfl fun s hs => .handle ?_
  rcases List.mem_append.mp hs with hs | hs
  · simp only [Machine.refs, Machine.start, Control.refs, Walk.refs, Walk.start,
      Machine.stackRefs, List.flatMap_nil, List.append_nil, List.mem_cons, List.not_mem_nil,
      or_false] at hs
    rcases hs with rfl | rfl | rfl
    · exact hr
    · exact hr
    · exact h.image.mem_handles_builtin .nil
  · exact hs

end Paired

/-- A way to end a run that leaves its result in use. -/
structure Finishes (held : List Ref) (finish : Machine → Ran) : Prop where
  alike : ∀ m, Machine.Alike held m m → (finish m).Alike held (finish m)
  endures : ∀ m, Machine.Alike held m m → m.moment.Endures (finish m).moment

theorem finishes_result (held : List Ref) : Finishes held fun m => ⟨m.result, m.image⟩ :=
  ⟨fun _ hm => hm.ran, fun _ hm => hm.endures_result⟩

theorem finishes_collected (held : List Ref) :
    Finishes held fun m => ⟨m.result, m.image.collectIfDue (Image.resultRefs m.result)⟩ :=
  ⟨fun _ hm => hm.ran.collected, fun _ hm => hm.endures_collected⟩

/-- From the moment before a machine starts, through its steps, to the moment after its end. -/
structure Spans (before : Moment) (start? : Option Machine) (after : Moment) : Prop where
  whole : before.Endures after
  first : ∀ start, start? = some start → before.Endures start.moment
  steps : ∀ start k, start? = some start →
    (Machine.step^[k] start).moment.Endures (Machine.step^[k + 1] start).moment
  last : ∀ start k, start? = some start → (Machine.step^[k] start).isDone = true →
    k ≤ patience → (Machine.step^[k] start).moment.Endures after

/-- The machine that a text starts in an object. -/
def machineIn? (h : Host) (text : String) (locals : Ref) : Option Machine :=
  let parsed := parse h.image.names text
  match parsed.result with
  | .ok (some chain) => some (.start { h.image with names := parsed.names } chain locals)
  | _ => none

/-- The machine that code which the host has put together starts in an object. -/
def machineOfDraft (h : Host) (draft : Draft Chain) (locals : Ref) : Machine :=
  let h := h.know draft.texts
  .start h.image (draft.code h.image.names) locals

/-- The machine that a request starts, unless it runs no program. -/
def machineOf? (h : Host) : Request → Option Machine
  | .run text => h.image.machineOf? (.text text)
  | .runSource source => h.image.machineOf? (.source source)
  | .evaluate text locals => (h.find? locals).bind (h.machineIn? text)
  | .evaluateDraft draft locals => (h.find? locals).map (h.machineOfDraft draft)
  | _ => none

theorem Spans.of_none {before after : Moment} (hwhole : before.Endures after) :
    Spans before none after where
  whole := hwhole
  first := fun _ hstart => by cases hstart
  steps := fun _ _ hstart => by cases hstart
  last := fun _ _ hstart => by cases hstart

namespace Paired

variable (hp : Paired known h h)

include hp

/-- A machine runs, and ends in time or not at all. -/
theorem spans_machine (as : Option String) (hstart : Machine.Alike h.image.held start start)
    (hfirst : h.moment.Endures start.moment) {finish : Machine → Ran}
    (hfinish : Finishes h.image.held finish) :
    Spans h.moment (some start)
      (h.answerRun as ((Machine.run patience start).map finish)).2.moment := by
  have hlast (k : Nat) (hdone : (Machine.step^[k] start).isDone = true) (hk : k ≤ patience) :
      (Machine.step^[k] start).moment.Endures
        (h.answerRun as ((Machine.run patience start).map finish)).2.moment := by
    rw [Machine.run_of_isDone_iterate hdone hk]
    have hend := hstart.iterate k
    exact (hfinish.endures _ hend).trans (hp.endures_answerRun as (hfinish.alike _ hend))
  constructor
  · cases hrun : Machine.run patience start with
    | none => exact hp.endures_same rfl rfl
    | some last =>
      obtain ⟨hdone, -⟩ := Machine.run_eq_some_iff.mp hrun
      rw [← hrun]
      exact (hfirst.trans (hstart.endures_iterate patience)).trans
        (hlast patience hdone (Nat.le_refl _))
  · rintro _ ⟨⟩
    exact hfirst
  · rintro _ k ⟨⟩
    rw [Function.iterate_succ_apply']
    exact (hstart.iterate k).endures_step
  · rintro _ k ⟨⟩
    exact hlast k

/-- A program in the lobby. -/
theorem spans_runParsed (as : Option String) (parsed : Parsed) :
    Spans h.moment (h.image.machineOfParsed? parsed)
      (h.answerRun as (h.image.runParsed patience parsed)).2.moment := by
  let image : Image := { h.image with names := parsed.names }
  have hknow : Paired known { h with image := image } { h with image := image } :=
    hp.withImage (hp.twins.know parsed.names) rfl
  -- a text that starts no machine has its result at once
  have hstays (result : Except EvalError Ref)
      (hrefs : ∀ r ∈ Image.resultRefs result, r ∈ image.handles) :
      Spans h.moment none (h.answerRun as (some ⟨result, image⟩)).2.moment := by
    refine .of_none ?_
    have hresult : h.moment.Endures (Ran.moment ⟨result, image⟩) :=
      hp.endures_of_inUse (by simp) rfl fun s hs =>
        .handle ((List.mem_append.mp hs).elim (hrefs s) id)
    refine hresult.trans (hp.endures_answerRun as ⟨rfl, rfl, known, hknow.twins, fun r hr => ?_⟩)
    exact hknow.twins.alike.handled r (hrefs r hr)
  unfold Image.machineOfParsed? Image.runParsed
  cases hresult : parsed.result with
  | error e => exact hstays _ (by simp [Image.resultRefs])
  | ok chain =>
    cases chain with
    | none =>
      exact hstays _ (List.forall_mem_singleton.mpr (image.mem_handles_builtin .nil))
    | some chain =>
      have hlobby := image.mem_handles_builtin .lobby
      have hspans := hknow.spans_machine as
        (hknow.alike_start chain (hknow.twins.alike.handled _ hlobby))
        (hknow.endures_start chain hlobby) (finishes_collected _)
      -- a run that does not end leaves the host as it was, but for the names
      have hout (x : Option Ran) : (h.answerRun as x).2.moment
          = (Host.answerRun { h with image := image } as x).2.moment := by
        cases x <;> rfl
      dsimp only [Image.runChain, Image.evaluate]
      rw [Option.map_map, hout]
      exact hspans

/-- A text, evaluated in an object. -/
theorem spans_evaluateIn (as : Option String) (text : String) (hr : r ∈ h.image.handles) :
    Spans h.moment (h.machineIn? text r) (h.evaluateIn as text r).2.moment := by
  let image : Image := { h.image with names := (parse h.image.names text).names }
  have hknow : Paired known { h with image := image } { h with image := image } :=
    hp.withImage (hp.twins.know _) rfl
  unfold machineIn? Host.evaluateIn
  cases hresult : (parse h.image.names text).result with
  | error e =>
    simp only [hresult]
    exact .of_none (hp.endures_same rfl rfl)
  | ok chain =>
    simp only [hresult]
    cases chain with
    | none => exact .of_none (hp.endures_same rfl rfl)
    | some chain =>
      exact hknow.spans_machine as
        (hknow.alike_start chain (hknow.twins.alike.handled r hr))
        (hknow.endures_start chain hr) (finishes_result _)

/-- Code that the host has put together, evaluated in an object. -/
theorem spans_evaluateDraft (as : Option String) (draft : Draft Chain)
    (hr : r ∈ h.image.handles) :
    Spans h.moment (some (h.machineOfDraft draft r)) (h.evaluateDraft as draft r).2.moment := by
  have hknow := (hp.know draft.texts).2
  exact hknow.spans_machine as (hknow.alike_start _ (hknow.twins.alike.handled r hr))
    (hknow.endures_start _ hr) (finishes_result _)

/-! ## §3. Requests. -/

/-- An effect on objects that are in use. -/
theorem endures_apply (e : Effect) (he : ∀ s ∈ e.refs, s ∈ h.image.reach []) {inUse : List Ref}
    (hinUse : ∀ s ∈ inUse, s ∈ h.image.reach [] ∪ e.made h.image) :
    h.moment.Endures ((e.apply h.image).moment inUse) := by
  have hp' := hp.onReach (List.forall_mem_nil _)
  have hfits : h.image.Fits (h.image.reach []) [e] := ⟨he, trivial⟩
  exact Image.endures_after hp'.twins.alike hfits hinUse

/-- A new object, as the answer. -/
theorem endures_made (as : Option String) (payload : Payload) (protos : List Ref)
    (hpayload : ∀ r ∈ payload.refs, r ∈ h.image.reach [])
    (hprotos : ∀ r ∈ protos, r ∈ h.image.reach []) :
    h.moment.Endures ({ h with image := (h.image.alloc payload protos).2 }.answerValue as
      (h.image.alloc payload protos).1).2.moment := by
  have hp' := hp.onReach (List.forall_mem_nil _)
  have hrefs : ∀ s ∈ (Effect.make payload protos).refs, s ∈ h.image.reach [] :=
    fun s hs => (List.mem_append.mp hs).elim (hpayload s) (hprotos s)
  -- the new object is in use until it is kept or dropped
  have hmade := hp.endures_apply (.make payload protos) hrefs
    (List.forall_mem_singleton.mpr (Or.inr rfl))
  have hfits : h.image.Fits (h.image.reach []) [.make payload protos] := ⟨hrefs, trivial⟩
  have hafter := hp'.withImage (hp'.twins.after hfits) (Image.held_after _ _)
  refine hmade.trans (hafter.endures_keep (List.forall_mem_singleton.mpr (Or.inr rfl)) as ?_)
  exact .handle (List.mem_append_left _ (List.mem_singleton.mpr rfl))

theorem endures_answerOption (as : Option String) {o : Option Ref}
    (ho : ∀ r ∈ o, r ∈ h.image.reach []) :
    h.moment.Endures (h.answerOption as o).2.moment := by
  cases o with
  | none => exact hp.endures_same rfl rfl
  | some r => exact hp.endures_keep (List.forall_mem_nil _) as (ho r rfl)

/-- A request about one object that may not be there. -/
theorem endures_found (name : String) {f : Ref → Reply × Host}
    (hf : ∀ r ∈ h.image.reach [], h.moment.Endures (f r).2.moment) :
    h.moment.Endures
      (match h.find? name with | some r => f r | none => (.noHandle, h)).2.moment := by
  cases hr : h.find? name with
  | none => exact hp.endures_same rfl rfl
  | some r => exact hf r (.handle (hp.mem_handles_of_find? hr))

/-- A request about two objects that may not be there. -/
theorem endures_foundBoth (a b : String) {f : Ref → Ref → Reply × Host}
    (hf : ∀ r ∈ h.image.reach [], ∀ s ∈ h.image.reach [], h.moment.Endures (f r s).2.moment) :
    h.moment.Endures (match h.find? a, h.find? b with
      | some r, some s => f r s
      | _, _ => (.noHandle, h)).2.moment := by
  cases hr : h.find? a with
  | none => exact hp.endures_same rfl rfl
  | some r =>
    cases hs : h.find? b with
    | none => exact hp.endures_same rfl rfl
    | some s =>
      exact hf r (.handle (hp.mem_handles_of_find? hr)) s (.handle (hp.mem_handles_of_find? hs))

/-- A request about objects some of which may not be there. -/
theorem endures_foundAll (as bs : List String) {f : List Ref → List Ref → Reply × Host}
    (hf : ∀ rs ss, (∀ r ∈ rs, r ∈ h.image.reach []) → (∀ s ∈ ss, s ∈ h.image.reach []) →
      h.moment.Endures (f rs ss).2.moment) :
    h.moment.Endures (match h.findAll? as, h.findAll? bs with
      | some rs, some ss => f rs ss
      | _, _ => (.noHandle, h)).2.moment := by
  have hreach {names : List String} {rs : List Ref} (hrs : h.findAll? names = some rs) :
      ∀ r ∈ rs, r ∈ h.image.reach [] :=
    fun r hr => .handle (hp.mem_handles_of_findAll? hrs r hr)
  cases hrs : h.findAll? as with
  | none => exact hp.endures_same rfl rfl
  | some rs =>
    cases hss : h.findAll? bs with
    | none => exact hp.endures_same rfl rfl
    | some ss => exact hf rs ss (hreach hrs) (hreach hss)

/-- A request that runs no program. -/
theorem endures_handle (as : Option String) (request : Request)
    (hrequest : request.runsProgram = false) : h.moment.Endures (h.handle as request).2.moment := by
  -- from here on, what is known is what the handles lead to
  have hp := hp.onReach (List.forall_mem_nil _)
  have ht := hp.twins
  have ha := ht.alike
  cases request with
  | run | runSource | evaluate | evaluateDraft => cases hrequest
  | collect => exact (ht.left.collect (List.forall_mem_nil _)).2.endures
  | drop name =>
    exact hp.endures_setKept (List.forall_mem_nil _) fun k hk =>
      hp.mem_of_mem_kept (List.mem_filter.mp hk).1
  | ownSlot object slot =>
    refine hp.endures_found object fun r hr => ?_
    obtain ⟨-, hintern⟩ := hp.intern slot
    exact hintern.endures_answerOption as fun v hv => ha.objects.mem_of_ownSlot? hr hv
  | lookup object slot =>
    refine hp.endures_found object fun r hr => ?_
    obtain ⟨-, hintern⟩ := hp.intern slot
    exact hintern.endures_answerOption as fun v hv => ha.mem_of_lookup? hr hv
  | setSlot object slot value =>
    refine hp.endures_foundBoth object value fun r hr v hv => ?_
    obtain ⟨-, hintern⟩ := hp.intern slot
    exact hintern.endures_apply (.setSlot r _ v)
      (List.forall_mem_cons.mpr ⟨hr, List.forall_mem_singleton.mpr hv⟩) (List.forall_mem_nil _)
  | appendProto object proto =>
    refine hp.endures_foundBoth object proto fun r hr p hpr => ?_
    exact hp.endures_apply (.appendProto r p)
      (List.forall_mem_cons.mpr ⟨hr, List.forall_mem_singleton.mpr hpr⟩) (List.forall_mem_nil _)
  | number x =>
    exact hp.endures_made as _ _ (by simp [Payload.refs])
      (List.forall_mem_singleton.mpr (ha.mem_builtin .number))
  | string s =>
    exact hp.endures_made as _ _ (by simp [Payload.refs])
      (List.forall_mem_singleton.mpr (ha.mem_builtin .string))
  | boolean b =>
    refine hp.endures_keep (List.forall_mem_nil _) as ?_
    cases b with
    | true => exact ha.mem_builtin .yes
    | false => exact ha.mem_builtin .no
  | cloneOf object =>
    exact hp.endures_found object fun r hr =>
      hp.endures_made as .plain [r] (by simp [Payload.refs]) (List.forall_mem_singleton.mpr hr)
  | make draft objects protos =>
    refine hp.endures_foundAll objects protos fun rs ss hrs hss => ?_
    obtain ⟨-, hknow⟩ := hp.know draft.texts
    exact hknow.endures_made as _ ss (fun r hr => hp.mem_of_mem_refs_draft hrs hr) hss
  | inspect object =>
    exact hp.endures_found object fun r hr => hp.endures_keep (List.forall_mem_nil _) as hr
  | setActivatable object flag =>
    refine hp.endures_found object fun r hr => ?_
    cases h.image.payload r with
    | block b =>
      exact hp.endures_apply (.setActivatable r flag) (List.forall_mem_singleton.mpr hr)
        (List.forall_mem_nil _)
    | _ => exact hp.endures_same rfl rfl
  | protos object => exact hp.endures_found object fun r _ => hp.endures_same rfl rfl
  | same a b => exact hp.endures_foundBoth a b fun r _ s _ => hp.endures_same rfl rfl
  | nameOf text =>
    unfold Host.handle
    dsimp only
    split <;> exact hp.endures_same rfl rfl
  | live | output | maxDepth | nameCount | clearOutput => exact hp.endures_same rfl rfl

/-- **A request endures**, and so does every step of a program that it runs. -/
theorem spans_handle (as : Option String) (request : Request) :
    Spans h.moment (h.machineOf? request) (h.handle as request).2.moment := by
  cases request with
  | run text => exact hp.spans_runParsed as _
  | runSource source => exact hp.spans_runParsed as _
  | evaluate text locals =>
    show Spans _ ((h.find? locals).bind (h.machineIn? text))
      (match h.find? locals with
        | some r => h.evaluateIn as text r
        | none => (.noHandle, h)).2.moment
    cases hfind : h.find? locals with
    | none => exact .of_none (hp.endures_same rfl rfl)
    | some r => exact hp.spans_evaluateIn as text (hp.mem_handles_of_find? hfind)
  | evaluateDraft draft locals =>
    show Spans _ ((h.find? locals).map (h.machineOfDraft draft))
      (match h.find? locals with
        | some r => h.evaluateDraft as draft r
        | none => (.noHandle, h)).2.moment
    cases hfind : h.find? locals with
    | none => exact .of_none (hp.endures_same rfl rfl)
    | some r => exact hp.spans_evaluateDraft as draft (hp.mem_handles_of_find? hfind)
  | _ => exact .of_none (hp.endures_handle as _ rfl)

end Paired

end Host

/-! ## §4. Histories. -/

/-- Where a history is. -/
inductive Stage where
  /-- Between two requests. -/
  | idle (h : Host)
  /-- So many steps into the program of a request. -/
  | running (h : Host) (turn : Host.Turn) (start : Machine) (steps : Nat)

namespace Stage

/-- The moment of a stage. -/
def moment : Stage → Moment
  | .idle h => h.moment
  | .running _ _ start steps => (Machine.step^[steps] start).moment

/-- How a history goes on with requests of some kind. -/
inductive NextBy (kind : Request → Prop) : Stage → Stage → Prop where
  /-- A request is answered. -/
  | answer (h : Host) (as : Option String) (request : Request) (hkind : kind request) :
      NextBy kind (.idle h) (.idle (h.handle as request).2)
  /-- A request starts a program. -/
  | start {h : Host} {request : Request} {start : Machine}
      (hstart : h.machineOf? request = some start) (as : Option String) (hkind : kind request) :
      NextBy kind (.idle h) (.running h (as, request) start 0)
  /-- The program takes a step. -/
  | step (h : Host) (turn : Host.Turn) (start : Machine) (steps : Nat) :
      NextBy kind (.running h turn start steps) (.running h turn start (steps + 1))
  /-- The program has ended, and its request is answered. -/
  | finish {start : Machine} {steps : Nat}
      (hdone : (Machine.step^[steps] start).isDone = true) (hsteps : steps ≤ Host.patience)
      (h : Host) (as : Option String) (request : Request) :
      NextBy kind (.running h (as, request) start steps) (.idle (h.handle as request).2)

/-- How a history goes on. -/
abbrev Next : Stage → Stage → Prop := NextBy fun _ => True

/-- A host that is sound, and a program that one of its requests has started. -/
def Sound : Stage → Prop
  | .idle h => ∃ known, Host.Paired known h h
  | .running h turn start _ =>
      (∃ known, Host.Paired known h h) ∧ h.machineOf? turn.2 = some start

variable {a b : Stage}

theorem sound_new (config : Config) : (Stage.idle (Host.new config)).Sound :=
  Host.paired_new config config.threshold

/-- **From one stage to the next.** -/
theorem Next.endures (hn : a.Next b) (ha : a.Sound) : b.Sound ∧ a.moment.Endures b.moment := by
  cases hn with
  | answer h as request =>
    obtain ⟨known, hp⟩ := ha
    exact ⟨hp.after_handle as request, (hp.spans_handle as request).whole⟩
  | start hstart as =>
    obtain ⟨known, hp⟩ := ha
    exact ⟨⟨⟨known, hp⟩, hstart⟩, (hp.spans_handle as _).first _ hstart⟩
  | step h turn start steps =>
    obtain ⟨⟨known, hp⟩, hstart⟩ := ha
    exact ⟨⟨⟨known, hp⟩, hstart⟩, (hp.spans_handle turn.1 turn.2).steps start steps hstart⟩
  | finish hdone hsteps h as request =>
    obtain ⟨⟨known, hp⟩, hstart⟩ := ha
    exact ⟨hp.after_handle as request,
      (hp.spans_handle as request).last _ _ hstart hdone hsteps⟩

/-- Every stage has one that may come next. -/
theorem exists_next (a : Stage) : ∃ b, a.Next b := by
  cases a with
  | idle h => exact ⟨_, .answer h none .live trivial⟩
  | running h turn start steps => exact ⟨_, .step h turn start steps⟩

/-- **From one stage to any later one.** -/
theorem endures (hab : Relation.ReflTransGen Next a b) (ha : a.Sound) :
    b.Sound ∧ a.moment.Endures b.moment := by
  induction hab with
  | refl =>
    obtain ⟨c, hc⟩ := a.exists_next
    exact ⟨ha, .of_inUse (hc.endures ha).2.there rfl fun r hr => .handle hr⟩
  | tail _ hn ih =>
    obtain ⟨hb, hendures⟩ := ih
    obtain ⟨hc, hnext⟩ := hn.endures hb
    exact ⟨hc, hendures.trans hnext⟩

end Stage

/-- What is in use at both moments has kept its slots and its protos and is what it was, and a name
that was found on it is found. -/
structure Moment.Keeps (a b : Moment) : Prop where
  objects : ∀ r ∈ a.reach, r ∈ b.reach →
    ∃ o o', a.objects.get? r = some o ∧ b.objects.get? r = some o' ∧ o.Persists o'
  found : ∀ r ∈ a.reach, r ∈ b.reach → ∀ n, (a.objects.lookup? r n).isSome →
    (b.objects.lookup? r n).isSome

theorem Moment.Endures.keeps {a b : Moment} (h : a.Endures b) : a.Keeps b where
  objects := by
    intro r ha hb
    obtain ⟨o, ho⟩ := Option.isSome_iff_exists.mp (h.there r ha)
    obtain ⟨o', ho', hpersists⟩ := h.persists r ha hb o ho
    exact ⟨o, o', ho, ho', hpersists⟩
  found := fun _ ha hb _ hn => h.isSome_lookup? ha hb hn

/-- **Slots and protos never disappear.**  In every history of a new host, whatever its requests and
their programs are, what is in use at some stage and at a later one has kept all it had. -/
theorem Stage.keeps_of_later (config : Config) {a b : Stage}
    (ha : Relation.ReflTransGen Next (.idle (Host.new config)) a)
    (hab : Relation.ReflTransGen Next a b) : a.moment.Keeps b.moment :=
  (endures hab (endures ha (sound_new config)).1).2.keeps

/-- A slot that a program has made in the lobby is found there after a collection. -/
theorem Stage.keeps_of_later_collected :
    let before := ((Host.new {}).handle none (.run "setSlot(\"x\", 7)")).2
    let after := (before.handle none .collect).2
    ∃ n, before.image.names.get? "x" = some n
      ∧ (after.image.lookup? Builtin.lobby.ref n).isSome := by
  intro before after
  have hkeeps := keeps_of_later {}
    (.single (.answer (Host.new {}) none (.run "setSlot(\"x\", 7)") trivial))
    (.single (.answer before none .collect trivial))
  have hmade : (before.image.names.get? "x").map (fun n =>
      (before.image.lookup? Builtin.lobby.ref n).isSome) = some true := by decide +kernel
  obtain ⟨n, hn, hfound⟩ := Option.map_eq_some_iff.mp hmade
  refine ⟨n, hn, hkeeps.found _ ?_ ?_ n hfound⟩
  · exact .handle (before.image.mem_handles_builtin .lobby)
  · exact .handle (after.image.mem_handles_builtin .lobby)

end Prototalk
