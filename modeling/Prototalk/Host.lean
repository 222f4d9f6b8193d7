/-
  Prototalk.Host
  ────────────────────────────────
  **DRIVING AN IMAGE FROM OUTSIDE.**

  A host runs programs in an image one after another and looks at what they
  leave.  It keeps results under names of its own; an object kept that way
  stays in use.  A request that names an object means one that is kept, or a
  built-in one.
-/
import Prototalk.Evaluation.Program
import Prototalk.Host.Request

namespace Prototalk

/-! ## §1. The host. -/

/-- An image and what is kept of it. -/
structure Host where
  /-- The image. -/
  image : Image
  /-- The objects that are kept, sorted by their names. -/
  kept : List (String × Ref)
  /-- Length of the output that was reported. -/
  reported : Nat

namespace Host

/-- A host that keeps nothing. -/
def new (config : Config) : Host := ⟨.new config, [], 0⟩

/-- Number of steps after which a program is given up: far more than any machine takes. -/
def patience : Nat := 0x4000000000000000

/-- The object that a name of the host means. -/
def find? (h : Host) (name : String) : Option Ref :=
  match h.kept.lookup name with
  | some r => some r
  | none => (Builtin.all.find? fun b => b.name == name).map Builtin.ref

/-- The objects that several names mean, if each of them means one. -/
def findAll? (h : Host) : List String → Option (List Ref)
  | [] => some []
  | name :: names =>
      match h.find? name, h.findAll? names with
      | some r, some rs => some (r :: rs)
      | _, _ => none

/-- Keep an object under a name, in a list that is sorted by name. -/
def putKept (name : String) (r : Ref) : List (String × Ref) → List (String × Ref)
  | [] => [(name, r)]
  | (n, s) :: rest =>
      if name < n then (name, r) :: (n, s) :: rest
      else if name = n then (name, r) :: rest
      else (n, s) :: putKept name r rest

/-- Replace the list of kept objects; the image holds exactly them. -/
def setKept (h : Host) (kept : List (String × Ref)) : Host :=
  { h with kept := kept, image := { h.image with held := kept.map (·.2) } }

/-- Keep an object, if there is a name to keep it under. -/
def keep (h : Host) (name : Option String) (r : Ref) : Host :=
  match name with
  | some name =>
      let kept := putKept name r h.kept
      h.setKept kept
  | none => h

/-! ## §2. Looking. -/

/-- The names by which the host knows an object. -/
def identities (h : Host) (r : Ref) : List String :=
  (Builtin.all.filter fun b => b.ref = r).map Builtin.name
    ++ (h.kept.filter fun k => k.2 = r).map fun k => "$" ++ k.1

/-- An object as the host sees it. -/
def view (h : Host) (r : Ref) : View := ⟨h.image.payload r, h.image.display r, h.identities r⟩

/-- What is particular to an object. -/
def details (h : Host) (r : Ref) : Details :=
  let names := h.image.names
  match h.image.payload r with
  | .text s => .text s
  | .block b =>
      .block ⟨b.isMethod, b.activatable, b.params.map names.text,
        b.body.map (Chain.toSource names), b.captured.map h.view, Image.blockText names b⟩
  | .call c =>
      .call ⟨h.view c.sender, h.view c.target, h.view c.activated,
        c.site.message.toSource names⟩
  | .message site => .message site.index site.siblings
  | _ => .none

/-- An object, looked at closely. -/
def inspect (h : Host) (r : Ref) : Inspection :=
  ⟨h.view r, h.image.debugText r, (h.image.payload r).isTruthy, (h.image.objects.protos r).length,
    h.details r⟩

/-- What was written since the last report. -/
def unreported (h : Host) : String := String.ofList (h.image.output.contents.toList.drop h.reported)

/-- Take note that everything written is reported. -/
def report (h : Host) : Host := { h with reported := h.image.output.contents.length }

/-! ## §3. Answering. -/

/-- Answer with an object, and keep it if asked to. -/
def answerValue (h : Host) (as : Option String) (r : Ref) : Reply × Host :=
  let h := h.keep as r
  (.value (h.view r) "", h)

/-- Answer with an object that may be missing. -/
def answerOption (h : Host) (as : Option String) : Option Ref → Reply × Host
  | some r => h.answerValue as r
  | none => (.nothing, h)

/-- Answer with the end of a run, and with what it wrote. -/
def answerRun (h : Host) (as : Option String) : Option Ran → Reply × Host
  | none => (.unfinished, h)
  | some ran =>
      let h := { h with image := ran.image }
      let printed := h.unreported
      let h := h.report
      match ran.result with
      | .ok r =>
          let h := h.keep as r
          (.value (h.view r) printed, h)
      | .error e => (.failed e printed, h)

/-- Evaluate a text in an object. -/
def evaluateIn (h : Host) (as : Option String) (text : String) (locals : Ref) : Reply × Host :=
  let parsed := parse h.image.names text
  let h := { h with image := { h.image with names := parsed.names } }
  match parsed.result with
  | .error e => (.unparsed e, h)
  | .ok none => (.nothing, h)
  | .ok (some chain) =>
      let ran := h.image.evaluate patience chain locals
      h.answerRun as ran

/-- Give a text a name. -/
def intern (h : Host) (text : String) : Name × Host :=
  let (n, image) := h.image.intern text
  (n, { h with image := image })

/-- Give names to some texts. -/
def know (h : Host) (texts : List String) : Host :=
  { h with image := { h.image with names := h.image.names.internAll texts } }

/-- Evaluate code that the host has put together in an object. -/
def evaluateDraft (h : Host) (as : Option String) (draft : Draft Chain) (locals : Ref) :
    Reply × Host :=
  let h := h.know draft.texts
  let ran := h.image.evaluate patience (draft.code h.image.names) locals
  h.answerRun as ran

/-- Make an object that the host has put together, of the objects `refs`. -/
def make (h : Host) (as : Option String) (draft : Draft Payload) (refs protos : List Ref) :
    Reply × Host :=
  let h := h.know draft.texts
  let (r, image) := h.image.alloc (draft.payload h.image.names refs) protos
  { h with image := image }.answerValue as r

/-- Answer a request; an object that is the answer may be kept under the name `as`. -/
def handle (h : Host) (as : Option String) (request : Request) : Reply × Host :=
  match request with
  | .run text =>
      let ran := h.image.doString patience text
      h.answerRun as ran
  | .runSource source =>
      let ran := h.image.doSource patience source
      h.answerRun as ran
  | .evaluate text locals =>
      match h.find? locals with
      | some r => h.evaluateIn as text r
      | none => (.noHandle, h)
  | .evaluateDraft draft locals =>
      match h.find? locals with
      | some r => h.evaluateDraft as draft r
      | none => (.noHandle, h)
  | .live => (.count h.image.live, h)
  | .collect =>
      let (n, image) := h.image.collect []
      (.count n, { h with image := image })
  | .drop name =>
      let wasKept := (h.kept.lookup name).isSome
      let kept := h.kept.filter fun k => k.1 != name
      (.flag wasKept, h.setKept kept)
  | .same a b =>
      match h.find? a, h.find? b with
      | some r, some s => (.comparison (r = s) (r = s), h)
      | _, _ => (.noHandle, h)
  | .ownSlot object slot =>
      match h.find? object with
      | some r =>
          let (n, h) := h.intern slot
          h.answerOption as (h.image.objects.ownSlot? r n)
      | none => (.noHandle, h)
  | .lookup object slot =>
      match h.find? object with
      | some r =>
          let (n, h) := h.intern slot
          h.answerOption as (h.image.lookup? r n)
      | none => (.noHandle, h)
  | .setSlot object slot value =>
      match h.find? object, h.find? value with
      | some r, some v =>
          let (n, h) := h.intern slot
          (.nothing, { h with image := h.image.setSlot r n v })
      | _, _ => (.noHandle, h)
  | .appendProto object proto =>
      match h.find? object, h.find? proto with
      | some r, some p => (.nothing, { h with image := h.image.appendProto r p })
      | _, _ => (.noHandle, h)
  | .protos object =>
      match h.find? object with
      | some r => (.values ((h.image.objects.protos r).map h.view), h)
      | none => (.noHandle, h)
  | .number x =>
      let (r, image) := h.image.number x
      { h with image := image }.answerValue as r
  | .string s =>
      let (r, image) := h.image.string s
      { h with image := image }.answerValue as r
  | .boolean b => h.answerValue as (Image.boolean b)
  | .cloneOf object =>
      match h.find? object with
      | some r =>
          let (c, image) := h.image.cloneOf r
          { h with image := image }.answerValue as c
      | none => (.noHandle, h)
  | .make draft objects protos =>
      match h.findAll? objects, h.findAll? protos with
      | some refs, some protos => h.make as draft refs protos
      | _, _ => (.noHandle, h)
  | .inspect object =>
      match h.find? object with
      | some r =>
          let h := h.keep as r
          (.inspected (h.inspect r), h)
      | none => (.noHandle, h)
  | .setActivatable object flag =>
      match h.find? object with
      | some r =>
          match h.image.payload r with
          | .block _ => (.flag flag, { h with image := h.image.setActivatable r flag })
          | _ => (.nothing, h)
      | none => (.noHandle, h)
  | .output => (.text h.image.output.contents, h)
  | .clearOutput =>
      (.nothing, { h with image := { h.image with output := h.image.output.clear }, reported := 0 })
  | .maxDepth => (.count h.image.maxDepth, h)
  | .nameCount => (.count h.image.names.size, h)
  | .nameOf text =>
      match h.image.names.get? text with
      | some n => (.count n.index, h)
      | none => (.nothing, h)

end Host

end Prototalk
