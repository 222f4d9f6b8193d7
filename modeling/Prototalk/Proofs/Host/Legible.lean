/-
  Prototalk.Proofs.Host.Legible
  ────────────────────────────────
  **THE TEXT OF A BLOCK READS BACK.**

  Whatever was a text first is legible: parsing gives legible code
  (`legible_parseSource`).  A host may also put code together itself, which
  need not be legible, so a request is called so if what it brings along is
  (`Request.Legible`); all requests are that bring texts.  Such a request keeps
  images legible (`Host.Legible.handle`), and so does whatever happens from
  one stage of a history to the next (`Stage.legible_next`).

  The text of a block that a program has made therefore reads back as the
  message that makes one like it, with one exception.  `()` is a bare name as
  well, the empty one, and may be given to a parameter; written by itself it
  leaves no trace in the text (`Stage.not_forall_blockText_readsBack`).
-/
import Prototalk.Proofs.Evaluation.Legible
import Prototalk.Proofs.Host.Literal
import Prototalk.Proofs.Token.Handoff

namespace Prototalk

open Relation (ReflTransGen)

/-! ## §1. Programs. -/

/-- What was parsed can be written, with the names that are known by then. -/
structure Parsed.Legible (names : Interner) (parsed : Parsed) : Prop where
  grows : names.Extends parsed.names
  valid : parsed.names.Valid
  chain : ∀ c, parsed.result = .ok (some c) → Chain.WellFormed parsed.names c

section

variable {names : Interner} {i : Image} {parsed : Parsed} {m last : Machine} {ran : Ran}
  {fuel : Nat}

theorem legible_parseSource (hv : names.Valid) (mode : LexMode) (source : Source) :
    (parseSource names mode source).Legible names := by
  have hshaped : ∀ t ∈ source.tokensBy mode, Lexer.Shaped t.key := by
    rw [Source.tokensBy_eq]
    exact fun t ht => Lexer.shaped_of_mem_tokens ht
  obtain ⟨hvalid, hchain⟩ := (Parser.sound_new hv).run hshaped
  have hgrows := ((Parser.rooted_new hv).run (source.tokensBy mode)).2
  exact ⟨(Parser.extends_new names).trans hgrows, hvalid, hchain⟩

theorem legible_parse (hv : names.Valid) (text : String) : (parse names text).Legible names :=
  legible_parseSource hv .inline (.ofString text)

/-- The image that knows the names of a program. -/
theorem Parsed.Legible.image (hp : parsed.Legible i.names) (h : i.Legible) :
    Image.Legible { i with names := parsed.names } :=
  h.know hp.valid hp.grows

/-- The start of a program. -/
theorem Image.Legible.start (h : i.Legible) {c : Chain} (hc : Chain.WellFormed i.names c)
    (locals : Ref) : (Machine.start i c locals).Legible :=
  ⟨h, hc.all, by simp [Machine.start]⟩

theorem Machine.Legible.run (h : m.Legible) (hrun : Machine.run fuel m = some last) :
    last.Legible := by
  obtain ⟨-, rfl⟩ := Machine.run_eq_some_iff.mp hrun
  exact h.iterate fuel

theorem Image.Legible.evaluate (h : i.Legible) {c : Chain} (hc : Chain.WellFormed i.names c)
    {locals : Ref} (hran : i.evaluate fuel c locals = some ran) : ran.image.Legible := by
  obtain ⟨last, hrun, rfl⟩ := Option.map_eq_some_iff.mp hran
  exact ((h.start hc locals).run hrun).image

/-- A program leaves a legible image, whether it runs or fails to parse. -/
theorem Parsed.Legible.run (hp : parsed.Legible i.names) (h : i.Legible)
    (hran : i.runParsed fuel parsed = some ran) : ran.image.Legible := by
  have himage := hp.image h
  unfold Image.runParsed at hran
  cases hresult : parsed.result with
  | error e =>
    rw [hresult] at hran
    cases hran
    exact himage
  | ok chain =>
    rw [hresult] at hran
    cases chain with
    | none =>
      cases hran
      exact himage
    | some c =>
      obtain ⟨ended, hended, rfl⟩ := Option.map_eq_some_iff.mp hran
      exact (himage.evaluate (hp.chain c hresult) hended).collectIfDue _

/-- A program starts with a legible machine. -/
theorem Parsed.Legible.machine (hp : parsed.Legible i.names) (h : i.Legible)
    (hm : i.machineOfParsed? parsed = some m) : m.Legible := by
  unfold Image.machineOfParsed? at hm
  split at hm
  · rename_i c hresult
    cases hm
    exact (hp.image h).start (hp.chain c hresult) _
  · cases hm

end

/-! ## §2. Requests. -/

/-- What the request brings along can be written, in any table that knows its texts. -/
def Request.Legible : Request → Prop
  | .evaluateDraft draft _ => ∀ names : Interner, names.Valid →
      (∀ s ∈ draft.texts, names.Knows s) → Chain.WellFormed names (draft.code names)
  | .make draft _ _ => ∀ names : Interner, names.Valid →
      (∀ s ∈ draft.texts, names.Knows s) → ∀ refs, (draft.payload names refs).Legible names
  | _ => True

namespace Host

/-- The image of the host is legible. -/
def Legible (h : Host) : Prop := h.image.Legible

namespace Legible

variable {h : Host} {m : Machine} (hl : h.Legible)

include hl

theorem keep (as : Option String) (r : Ref) : (h.keep as r).Legible := by
  cases as with
  | none => exact hl
  | some name => exact Image.Legible.of_eq hl rfl rfl

theorem answerOption (as : Option String) (o : Option Ref) : (h.answerOption as o).2.Legible := by
  cases o with
  | none => exact hl
  | some r => exact hl.keep as r

/-- The image that a run has left, if it has ended. -/
theorem answerRun (as : Option String) {ran : Option Ran}
    (hran : ∀ ended, ran = some ended → ended.image.Legible) : (h.answerRun as ran).2.Legible := by
  cases ran with
  | none => exact hl
  | some ended =>
    obtain ⟨result, image⟩ := ended
    have himage : image.Legible := hran _ rfl
    cases result with
    | ok r => exact keep (h := report { h with image := image }) himage as r
    | error e => exact himage

theorem evaluateIn (as : Option String) (text : String) (r : Ref) :
    (h.evaluateIn as text r).2.Legible := by
  have hparsed := legible_parse hl.names text
  have himage := hparsed.image hl
  unfold Host.evaluateIn
  dsimp only
  cases hresult : (parse h.image.names text).result with
  | error e => exact himage
  | ok chain =>
    cases chain with
    | none => exact himage
    | some c =>
      refine answerRun (h := { h with image := _ }) himage as fun ended hended => ?_
      exact himage.evaluate (hparsed.chain c hresult) hended

/-- Texts that are given names. -/
theorem know (texts : List String) : (h.know texts).Legible :=
  Image.Legible.know hl (hl.names.internAll texts) (Interner.extends_internAll _ texts)

theorem evaluateDraft (as : Option String) {draft : Draft Chain} {locals : String}
    (hdraft : (Request.evaluateDraft draft locals).Legible) (r : Ref) :
    (h.evaluateDraft as draft r).2.Legible := by
  have hknow := hl.know draft.texts
  refine hknow.answerRun as fun ended hended => Image.Legible.evaluate hknow ?_ hended
  exact hdraft _ hknow.names fun s hs => Interner.knows_of_mem _ hs

/-- A request about one object that may not be there. -/
theorem found (name : String) {f : Ref → Reply × Host} (hf : ∀ r, (f r).2.Legible) :
    (match h.find? name with | some r => f r | none => (.noHandle, h)).2.Legible := by
  cases h.find? name with
  | none => exact hl
  | some r => exact hf r

/-- A request about two objects that may not be there. -/
theorem foundBoth (a b : String) {f : Ref → Ref → Reply × Host} (hf : ∀ r s, (f r s).2.Legible) :
    (match h.find? a, h.find? b with
      | some r, some s => f r s
      | _, _ => (.noHandle, h)).2.Legible := by
  cases h.find? a with
  | none => exact hl
  | some r =>
    cases h.find? b with
    | none => exact hl
    | some s => exact hf r s

/-- A new object that is no code, as the answer. -/
theorem made (as : Option String) {p : Payload} (hp : p.Legible h.image.names)
    (protos : List Ref) :
    ({ h with image := (h.image.alloc p protos).2 }.answerValue as
      (h.image.alloc p protos).1).2.Legible :=
  keep (h := { h with image := _ }) (Image.Legible.alloc hl hp protos) as _

/-- A request about objects some of which may not be there. -/
theorem foundAll (as bs : List String) {f : List Ref → List Ref → Reply × Host}
    (hf : ∀ rs ss, (f rs ss).2.Legible) :
    (match h.findAll? as, h.findAll? bs with
      | some rs, some ss => f rs ss
      | _, _ => (.noHandle, h)).2.Legible := by
  cases h.findAll? as with
  | none => exact hl
  | some rs =>
    cases h.findAll? bs with
    | none => exact hl
    | some ss => exact hf rs ss

/-- **A legible request keeps images legible.** -/
theorem handle (as : Option String) {request : Request} (hr : request.Legible) :
    (h.handle as request).2.Legible := by
  cases request with
  | run text => exact hl.answerRun as fun _ => (legible_parse hl.names text).run hl
  | runSource source =>
    exact hl.answerRun as fun _ => (legible_parseSource hl.names _ source).run hl
  | evaluate text locals => exact hl.found locals fun r => hl.evaluateIn as text r
  | evaluateDraft draft locals => exact hl.found locals fun r => hl.evaluateDraft as hr r
  | collect => exact Image.Legible.collect hl []
  | ownSlot object slot =>
    exact hl.found object fun r =>
      answerOption (h := (h.intern slot).2) (Image.Legible.intern hl slot) as _
  | lookup object slot =>
    exact hl.found object fun r =>
      answerOption (h := (h.intern slot).2) (Image.Legible.intern hl slot) as _
  | setSlot object slot value =>
    exact hl.foundBoth object value fun r v =>
      (Image.Legible.intern hl slot).setSlot r _ v
  | appendProto object proto =>
    exact hl.foundBoth object proto fun r p => Image.Legible.appendProto hl r p
  | same a b => exact hl.foundBoth a b fun _ _ => hl
  | protos object => exact hl.found object fun _ => hl
  | inspect object => exact hl.found object fun r => hl.keep as r
  | number x => exact hl.made as (p := .number x) trivial _
  | string s => exact hl.made as (p := .text s) trivial _
  | boolean b => exact hl.keep as _
  | cloneOf object => exact hl.found object fun r => hl.made as (p := .plain) trivial [r]
  | make draft objects protos =>
    refine hl.foundAll objects protos fun rs ss => ?_
    have hknow := hl.know draft.texts
    exact hknow.made as (hr _ hknow.names (fun s hs => Interner.knows_of_mem _ hs) rs) ss
  | setActivatable object flag =>
    refine hl.found object fun r => ?_
    cases h.image.payload r with
    | block b => exact Image.Legible.setActivatable hl r flag
    | _ => exact hl
  | nameOf text =>
    unfold Host.handle
    dsimp only
    split <;> exact hl
  | drop name => exact Image.Legible.of_eq hl rfl rfl
  | clearOutput => exact Image.Legible.of_eq hl rfl rfl
  | live | output | maxDepth | nameCount => exact hl

/-- The program of a legible request starts with a legible machine. -/
theorem machineOf? {request : Request} (hr : request.Legible)
    (hm : h.machineOf? request = some m) : m.Legible := by
  cases request with
  | run text => exact (legible_parse hl.names text).machine hl hm
  | runSource source => exact (legible_parseSource hl.names _ source).machine hl hm
  | evaluate text locals =>
    obtain ⟨r, -, hm⟩ := Option.bind_eq_some_iff.mp hm
    have hparsed := legible_parse hl.names text
    unfold machineIn? at hm
    dsimp only at hm
    split at hm
    · rename_i c hresult
      cases hm
      exact (hparsed.image hl).start (hparsed.chain c hresult) r
    · cases hm
  | evaluateDraft draft locals =>
    obtain ⟨r, -, rfl⟩ := Option.map_eq_some_iff.mp hm
    have hknow := hl.know draft.texts
    exact Image.Legible.start hknow (hr _ hknow.names fun s hs => Interner.knows_of_mem _ hs) r
  | _ => cases hm

end Legible

end Host

/-! ## §3. Histories. -/

namespace Stage

variable {config : Config} {a b : Stage}

/-- The image of the host is legible, and so are the request and the program that runs. -/
def Legible : Stage → Prop
  | .idle h => h.Legible
  | .running h turn start _ => h.Legible ∧ start.Legible ∧ turn.2.Legible

/-- A stage that a new host can come to if its requests are legible. -/
def ReachedLegibly (config : Config) (a : Stage) : Prop :=
  ReflTransGen (NextBy Request.Legible) (.idle (Host.new config)) a

theorem Legible.image (ha : a.Legible) : a.image.Legible := by
  cases a with
  | idle h => exact ha
  | running h turn start steps => exact (ha.2.1.iterate steps).image

/-- **From one stage to the next.** -/
theorem legible_next (hn : NextBy Request.Legible a b) (ha : a.Legible) : b.Legible := by
  cases hn with
  | answer h as request hr => exact Host.Legible.handle ha as hr
  | start hstart as hr => exact ⟨ha, Host.Legible.machineOf? ha hr hstart, hr⟩
  | step h turn start steps => exact ha
  | finish hdone hsteps h as request => exact Host.Legible.handle ha.1 as ha.2.2

/-- **Every stage that a new host can come to with legible requests is legible.** -/
theorem ReachedLegibly.legible (hv : config.names.Valid) (ha : ReachedLegibly config a) :
    a.Legible := by
  induction ha with
  | refl => exact Image.legible_new hv
  | tail _ hn ih => exact legible_next hn ih

/-! ## §4. The texts of blocks. -/

/-- **The text of a block reads back**, at any stage of any history of a new host, if and only if no
parameter has the empty name; if one has, the text is no program.  It is what the host shows of
the block, and what the block answers when it is asked for its text.  All code is a text first, or
can be written as one. -/
theorem blockText_readsBack_iff (config : Config) (hv : config.names.Valid) {a : Stage}
    (ha : ReachedLegibly config a) {r : Ref} {b : Block} (hb : a.image.payload r = .block b) :
    a.image.display r = Image.blockText a.image.names b
      ∧ (∀ act : Activation, act.target = r → BlockOp.asString.begin a.image act
          = ((a.image.string (a.image.display r)).2,
              .answer (a.image.string (a.image.display r)).1))
      ∧ (b.ReadsBack a.image.names ↔ .empty ∉ b.params)
      ∧ (.empty ∈ b.params → ∃ span,
          (parse a.image.names (a.image.display r)).result = .error ⟨.emptyArgument, span⟩) := by
  have himage := (ha.legible hv).image
  have hlegible : b.Legible a.image.names := by
    have hr := himage.payload r
    rwa [hb] at hr
  have hdisplay : a.image.display r = Image.blockText a.image.names b := by
    unfold Image.display
    rw [hb]
  refine ⟨hdisplay, ?_, hlegible.readsBack_iff himage.names, ?_⟩
  · rintro act rfl
    rw [hdisplay]
    unfold BlockOp.begin
    rw [hb]
  · rw [hdisplay]
    exact hlegible.unreadable himage.names

/-- A method with two parameters, one of them named by a pair of brackets, that a program has made
and the host has kept. -/
theorem blockText_readsBack_iff_method :
    let h := ((Host.new {}).handle (some "m") (.run "method(a, [], a +([1], 2);)")).2
    ∃ r b, h.find? "m" = some r ∧ h.image.payload r = .block b ∧ b.params.length = 2
      ∧ h.image.display r = Image.blockText h.image.names b ∧ b.ReadsBack h.image.names := by
  intro h
  have hmade : ((h.find? "m").bind fun r => (h.image.payload r).code?.map fun b =>
      (b.params.length, b.params.elem .empty)) = some (2, false) := by decide +kernel
  obtain ⟨r, hr, hcode⟩ := Option.bind_eq_some_iff.mp hmade
  obtain ⟨b, hb, hparams⟩ := Option.map_eq_some_iff.mp hcode
  obtain ⟨hlength, hempty⟩ := Prod.mk.inj hparams
  have hblock := Payload.code?_eq_some_iff.mp hb
  have hreached : ReachedLegibly {} (.idle h) :=
    .single (.answer (Host.new {}) (some "m") _ trivial)
  obtain ⟨hdisplay, -, hiff, -⟩ := blockText_readsBack_iff {} Interner.valid_new hreached hblock
  exact ⟨r, b, hr, hblock, hlength, hdisplay, hiff.mpr (by simpa using hempty)⟩

/-- Not every block has a text that reads back: `block((), 1)` shows as a message with nothing
before its first comma. -/
theorem not_forall_blockText_readsBack :
    ¬ ∀ (a : Stage) (r : Ref) (b : Block), ReachedLegibly {} a → a.image.payload r = .block b →
      b.ReadsBack a.image.names := by
  intro hall
  let h := ((Host.new {}).handle (some "b") (.run "block((), 1)")).2
  have hmade : ((h.find? "b").bind fun r => (h.image.payload r).code?.map fun b =>
      (parse h.image.names (Image.blockText h.image.names b)).result.toBool) = some false := by
    decide +kernel
  obtain ⟨r, -, hcode⟩ := Option.bind_eq_some_iff.mp hmade
  obtain ⟨b, hb, herror⟩ := Option.map_eq_some_iff.mp hcode
  have hreached : ReachedLegibly {} (.idle h) :=
    .single (.answer (Host.new {}) (some "b") _ trivial)
  obtain ⟨name, args, span, hresult, -⟩ :=
    hall (.idle h) r b hreached (Payload.code?_eq_some_iff.mp hb)
  -- it should parse, and does not
  rw [show (parse h.image.names (Image.blockText h.image.names b)).result = _ from hresult]
    at herror
  cases herror

end Stage

end Prototalk
