/-
  Prototalk.Proofs.Host.Translation
  ────────────────────────────────
  **THE ORDER OF NAMES CANNOT BE SEEN FROM OUTSIDE.**

  Two hosts that keep the same objects in images that are translations of
  each other answer every request with the same, unless it asks for the index
  of a name or for the number of names.  They stay so whatever texts are
  given names between requests, different ones in each host:

    • `Host.Translates.handle` — one request,
    • `Host.Translates.know` — texts that are given names,
    • `Host.namingOrder_unobservable` — whole sessions.

  Replies are the same (`Reply.Same`) if they are equal but for the code in
  payloads, which a host sees as text.
-/
import Prototalk.Host
import Prototalk.Proofs.Evaluation.Translation
import Prototalk.Proofs.Host.Session

namespace Prototalk

/-! ## §1. The same to look at. -/

/-- What an object is, apart from what it refers to. -/
inductive Kind where
  | plain
  | nil
  | boolean (b : Bool)
  | number (x : Binary64)
  | text (s : String)
  | block
  | native (op : Native)
  | call
  | message
  deriving DecidableEq

/-- The kind of a payload. -/
def Payload.kind : Payload → Kind
  | .plain => .plain
  | .nil => .nil
  | .boolean b => .boolean b
  | .number x => .number x
  | .text s => .text s
  | .block _ => .block
  | .native op => .native op
  | .call _ => .call
  | .message _ => .message

/-- Objects of one kind that are shown alike and are the same among those that the host knows. -/
structure View.Same (v w : View) : Prop where
  kind_eq : w.payload.kind = v.payload.kind
  display_eq : w.display = v.display
  identities_eq : w.identities = v.identities

/-- Blocks that look the same. -/
structure BlockView.Same (v w : BlockView) : Prop where
  isMethod_eq : w.isMethod = v.isMethod
  activatable_eq : w.activatable = v.activatable
  params_eq : w.params = v.params
  body_eq : w.body = v.body
  captured : Option.Rel View.Same v.captured w.captured
  source_eq : w.source = v.source

/-- Calls that look the same. -/
structure CallView.Same (v w : CallView) : Prop where
  sender : v.sender.Same w.sender
  target : v.target.Same w.target
  activated : v.activated.Same w.activated
  message_eq : w.message = v.message

/-- Details that look the same. -/
inductive Details.Same : Details → Details → Prop where
  | equal (x : Details) : Details.Same x x
  | block {v w : BlockView} (h : v.Same w) : Details.Same (.block v) (.block w)
  | call {v w : CallView} (h : v.Same w) : Details.Same (.call v) (.call w)

/-- Objects that look the same, closely. -/
structure Inspection.Same (x y : Inspection) : Prop where
  view : x.view.Same y.view
  debug_eq : y.debug = x.debug
  truthy_eq : y.truthy = x.truthy
  protos_eq : y.protos = x.protos
  details : x.details.Same y.details

/-- Replies that tell the same: equal ones, and those that show objects that look the same. -/
inductive Reply.Same : Reply → Reply → Prop where
  | equal (x : Reply) : Reply.Same x x
  | value {v w : View} (h : v.Same w) (printed : String) :
      Reply.Same (.value v printed) (.value w printed)
  | values {vs ws : List View} (h : List.Forall₂ View.Same vs ws) :
      Reply.Same (.values vs) (.values ws)
  | inspected {x y : Inspection} (h : x.Same y) : Reply.Same (.inspected x) (.inspected y)

/-- Whether the answer is about the table of names itself. -/
def Request.asksForIndex : Request → Bool
  | .nameCount => true
  | .nameOf _ => true
  | _ => false

theorem Payload.Translates.kind_eq {d : Dictionary} {p p' : Payload} (h : p.Translates d p') :
    p'.kind = p.kind := by
  cases h <;> rfl

/-! ## §2. Two hosts. -/

/-- Hosts that keep the same in images that are translations of each other. -/
structure Host.Translates (d : Dictionary) (g h : Host) : Prop where
  image : g.image.Translates d h.image
  kept_eq : h.kept = g.kept
  reported_eq : h.reported = g.reported

/-- The same reply, from hosts that keep the same in images that are translations of each other. -/
def Host.ToldSame (x y : Reply × Host) : Prop := x.1.Same y.1 ∧ ∃ d, x.2.Translates d y.2

namespace Host.Translates

variable {d : Dictionary} {g h : Host} (ht : g.Translates d h)

include ht

theorem told (reply : Reply) : ToldSame (reply, g) (reply, h) := ⟨.equal reply, d, ht⟩

theorem find?_eq (name : String) : h.find? name = g.find? name := by
  rw [find?, find?, ht.kept_eq]

/-- The hosts with other images that are translations of each other. -/
theorem withImage {d' : Dictionary} {i j : Image} (hij : i.Translates d' j) :
    Host.Translates d' { g with image := i } { h with image := j } :=
  ⟨hij, ht.kept_eq, ht.reported_eq⟩

theorem setKept (kept : List (String × Ref)) :
    (g.setKept kept).Translates d (h.setKept kept) :=
  ⟨{ ht.image with held_eq := rfl }, rfl, ht.reported_eq⟩

theorem keep (as : Option String) (r : Ref) : (g.keep as r).Translates d (h.keep as r) := by
  cases as with
  | none => exact ht
  | some name =>
    unfold Host.keep
    dsimp only
    rw [ht.kept_eq]
    exact ht.setKept _

theorem intern (text : String) : (g.intern text).2.Translates (d.intern text) (h.intern text).2 :=
  ht.withImage (ht.image.intern text)

theorem pairs_intern (text : String) :
    (d.intern text).Pairs (g.intern text).1 (h.intern text).1 :=
  ht.image.pairs_intern text

/-- Texts that are given names, other ones in each host. -/
theorem know (xs ys : List String) : (g.know xs).Translates (d.internAll xs ys) (h.know ys) := by
  unfold Host.know
  rw [ht.image.left, ht.image.right]
  exact ht.withImage (ht.image.withNames (d.extends_internAll xs ys))

/-! ### Looking -/

theorem view (r : Ref) : (g.view r).Same (h.view r) := by
  refine ⟨(ht.image.payload r).kind_eq, ht.image.display_eq r, ?_⟩
  show h.identities r = g.identities r
  rw [identities, identities, ht.kept_eq]

theorem details (r : Ref) : (g.details r).Same (h.details r) := by
  have hpayload := ht.image.payload r
  unfold Host.details
  dsimp only
  rw [ht.image.left, ht.image.right]
  generalize g.image.payload r = p, h.image.payload r = p' at hpayload ⊢
  cases hpayload with
  | @block b b' hb =>
    have hbody : b'.body.map (Chain.toSource d.right) = b.body.map (Chain.toSource d.left) := by
      have hrel := hb.body
      generalize b.body = x, b'.body = y at hrel ⊢
      cases hrel with
      | none => rfl
      | some hc => exact congrArg some (Chain.Translates.toSource_eq hc)
    refine .block ⟨hb.isMethod_eq, hb.activatable_eq, map_text_eq hb.params, hbody, ?_,
      hb.blockText_eq⟩
    dsimp only
    rw [hb.captured_eq]
    cases b.captured with
    | none => exact .none
    | some s => exact .some (ht.view s)
  | call hc =>
    dsimp only
    rw [hc.sender_eq, hc.target_eq, hc.activated_eq]
    exact .call ⟨ht.view _, ht.view _, ht.view _, hc.site.message.toSource_eq⟩
  | message hs =>
    dsimp only
    rw [hs.index_eq, hs.siblings_eq]
    exact .equal _
  | _ => exact .equal _

theorem inspect (r : Ref) : (g.inspect r).Same (h.inspect r) where
  view := ht.view r
  debug_eq := ht.image.debugText_eq r
  truthy_eq := (ht.image.payload r).isTruthy_eq
  protos_eq := congrArg List.length (ht.image.objects.protos_eq r)
  details := ht.details r

/-! ### Answering -/

theorem answerValue (as : Option String) (r : Ref) :
    ToldSame (g.answerValue as r) (h.answerValue as r) :=
  ⟨.value ((ht.keep as r).view r) "", d, ht.keep as r⟩

theorem answerOption (as : Option String) (found : Option Ref) :
    ToldSame (g.answerOption as found) (h.answerOption as found) := by
  cases found with
  | none => exact ht.told _
  | some r => exact ht.answerValue as r

/-- A new object, as the answer. -/
theorem answerMade (as : Option String) {x y : Ref × Image} (hmade : Made d x y) :
    ToldSame ({ g with image := x.2 }.answerValue as x.1)
      ({ h with image := y.2 }.answerValue as y.1) := by
  rw [hmade.ref_eq]
  exact (ht.withImage hmade.image).answerValue as x.1

/-- The end of two runs. -/
theorem answerRun (as : Option String) {x y : Option Ran} (hxy : Option.Rel Ran.Translates x y) :
    ToldSame (g.answerRun as x) (h.answerRun as y) := by
  cases hxy with
  | none => exact ht.told _
  | @some x y hxy =>
    obtain ⟨hresult, d', himage⟩ := hxy
    obtain ⟨_, i⟩ := x
    obtain ⟨result, j⟩ := y
    dsimp only at hresult himage
    subst hresult
    -- both have written the same behind the same earlier output
    have hprinted : { h with image := j }.unreported = { g with image := i }.unreported := by
      rw [unreported, unreported, himage.output_eq, ht.reported_eq]
    have hreported : Host.Translates d' (report { g with image := i })
        (report { h with image := j }) := by
      refine ⟨himage, ht.kept_eq, ?_⟩
      show j.output.contents.length = i.output.contents.length
      rw [himage.output_eq]
    unfold Host.answerRun
    dsimp only
    rw [hprinted]
    cases result with
    | ok r => exact ⟨.value ((hreported.keep as r).view r) _, d', hreported.keep as r⟩
    | error e => exact hreported.told _

theorem evaluateIn (as : Option String) (text : String) (locals : Ref) :
    ToldSame (g.evaluateIn as text locals) (h.evaluateIn as text locals) := by
  obtain ⟨d', hext, hparsed⟩ := ht.image.parsed .inline (.ofString text)
  have hknown := ht.withImage (ht.image.withNames hext)
  have hresult := hparsed.result
  unfold Host.evaluateIn parse
  dsimp only
  rw [hparsed.left, hparsed.right]
  generalize (parseSource g.image.names .inline (.ofString text)).result = x,
    (parseSource h.image.names .inline (.ofString text)).result = y at hresult ⊢
  cases hresult with
  | error e => exact hknown.told _
  | ok hc =>
    cases hc with
    | none => exact hknown.told _
    | some hc => exact hknown.answerRun as (hknown.image.evaluate patience hc locals)

/-- Code that the host has put together. -/
theorem evaluateDraft (as : Option String) (draft : Draft Chain) (locals : Ref) :
    ToldSame (g.evaluateDraft as draft locals) (h.evaluateDraft as draft locals) := by
  have hknown := ht.know draft.texts draft.texts
  have hcode := draft.translates_code (d.knows_internAll draft.texts)
  unfold Host.evaluateDraft
  dsimp only
  rw [hknown.image.left, hknown.image.right]
  exact hknown.answerRun as (hknown.image.evaluate patience hcode locals)

/-- An object that the host has put together. -/
theorem make (as : Option String) (draft : Draft Payload) (refs protos : List Ref) :
    ToldSame (g.make as draft refs protos) (h.make as draft refs protos) := by
  have hknown := ht.know draft.texts draft.texts
  have hpayload := draft.translates_payload (d.knows_internAll draft.texts) refs
  unfold Host.make
  dsimp only
  rw [hknown.image.left, hknown.image.right]
  exact hknown.answerMade as (hknown.image.alloc hpayload protos)

/-! ## §3. Requests. -/

/-- A request about one object that may not be there. -/
theorem answerFound (name : String) {f f' : Ref → Reply × Host}
    (hf : ∀ r, ToldSame (f r) (f' r)) :
    ToldSame (match g.find? name with | some r => f r | none => (.noHandle, g))
      (match h.find? name with | some r => f' r | none => (.noHandle, h)) := by
  rw [ht.find?_eq]
  cases g.find? name with
  | some r => exact hf r
  | none => exact ht.told _

/-- A request about two objects that may not be there. -/
theorem answerFoundBoth (a b : String) {f f' : Ref → Ref → Reply × Host}
    (hf : ∀ r s, ToldSame (f r s) (f' r s)) :
    ToldSame
      (match g.find? a, g.find? b with | some r, some s => f r s | _, _ => (.noHandle, g))
      (match h.find? a, h.find? b with | some r, some s => f' r s | _, _ => (.noHandle, h)) := by
  rw [ht.find?_eq, ht.find?_eq]
  cases g.find? a with
  | none => exact ht.told _
  | some r =>
    cases g.find? b with
    | none => exact ht.told _
    | some s => exact hf r s

/-- A request about objects some of which may not be there. -/
theorem answerFoundAll (as bs : List String) {f f' : List Ref → List Ref → Reply × Host}
    (hf : ∀ rs ss, ToldSame (f rs ss) (f' rs ss)) :
    ToldSame
      (match g.findAll? as, g.findAll? bs with
        | some rs, some ss => f rs ss
        | _, _ => (.noHandle, g))
      (match h.findAll? as, h.findAll? bs with
        | some rs, some ss => f' rs ss
        | _, _ => (.noHandle, h)) := by
  rw [findAll?_congr ht.find?_eq, findAll?_congr ht.find?_eq]
  cases g.findAll? as with
  | none => exact ht.told _
  | some rs =>
    cases g.findAll? bs with
    | none => exact ht.told _
    | some ss => exact hf rs ss

/-- **A request that does not ask for an index is answered with the same.** -/
theorem handle (as : Option String) (request : Request) (hindex : request.asksForIndex = false) :
    ToldSame (g.handle as request) (h.handle as request) := by
  have hi := ht.image
  cases request with
  | run text => exact ht.answerRun as (hi.doString patience text)
  | runSource source => exact ht.answerRun as (hi.doSource patience source)
  | evaluate text locals => exact ht.answerFound locals fun r => ht.evaluateIn as text r
  | evaluateDraft draft locals =>
    exact ht.answerFound locals fun r => ht.evaluateDraft as draft r
  | live =>
    show ToldSame (.count _, g) (.count h.image.live, h)
    rw [hi.live_eq]
    exact ht.told _
  | collect =>
    obtain ⟨hcount, hcollected⟩ := hi.collect []
    show ToldSame _ (.count (h.image.collect []).1, { h with image := (h.image.collect []).2 })
    rw [hcount]
    exact (ht.withImage hcollected).told _
  | drop name =>
    show ToldSame _ (.flag (h.kept.lookup name).isSome, h.setKept (h.kept.filter _))
    rw [ht.kept_eq]
    exact (ht.setKept _).told _
  | same a b => exact ht.answerFoundBoth a b fun r s => ht.told _
  | ownSlot object slot =>
    refine ht.answerFound object fun r => ?_
    have hknown := ht.intern slot
    dsimp only
    rw [hknown.image.objects.ownSlot?_eq r (ht.pairs_intern slot)]
    exact hknown.answerOption as _
  | lookup object slot =>
    refine ht.answerFound object fun r => ?_
    have hknown := ht.intern slot
    dsimp only
    rw [hknown.image.lookup?_eq r (ht.pairs_intern slot)]
    exact hknown.answerOption as _
  | setSlot object slot value =>
    refine ht.answerFoundBoth object value fun r v => ?_
    have hknown := ht.intern slot
    exact (hknown.withImage (hknown.image.setSlot r (ht.pairs_intern slot) v)).told _
  | appendProto object proto =>
    exact ht.answerFoundBoth object proto fun r p => (ht.withImage (hi.appendProto r p)).told _
  | protos object =>
    refine ht.answerFound object fun r => ⟨?_, d, ht⟩
    dsimp only
    rw [hi.objects.protos_eq]
    refine .values ?_
    rw [List.forall₂_map_left_iff, List.forall₂_map_right_iff, List.forall₂_same]
    exact fun p _ => ht.view p
  | number x => exact ht.answerMade as (hi.number x)
  | string s => exact ht.answerMade as (hi.string s)
  | boolean b => exact ht.answerValue as _
  | cloneOf object => exact ht.answerFound object fun r => ht.answerMade as (hi.cloneOf r)
  | make draft objects protos =>
    exact ht.answerFoundAll objects protos fun rs ss => ht.make as draft rs ss
  | inspect object =>
    refine ht.answerFound object fun r => ?_
    exact ⟨.inspected ((ht.keep as r).inspect r), d, ht.keep as r⟩
  | setActivatable object flag =>
    refine ht.answerFound object fun r => ?_
    have hpayload := hi.payload r
    generalize g.image.payload r = p, h.image.payload r = p' at hpayload ⊢
    cases hpayload with
    | block hb => exact (ht.withImage (hi.setActivatable r flag)).told _
    | _ => exact ht.told _
  | output =>
    show ToldSame _ (.text h.image.output.contents, h)
    rw [hi.output_eq]
    exact ht.told _
  | clearOutput =>
    show ToldSame _ (.nothing, { h with
      image := { h.image with output := h.image.output.clear }, reported := 0 })
    rw [hi.output_eq]
    exact ⟨.equal _, d, hi.withOutput _, ht.kept_eq, rfl⟩
  | maxDepth =>
    show ToldSame _ (.count h.image.maxDepth, h)
    rw [hi.maxDepth_eq]
    exact ht.told _
  | nameCount => cases hindex
  | nameOf text => cases hindex

/-- Whatever a request asks for, the hosts keep the same. -/
theorem after_handle (as : Option String) (request : Request) :
    ∃ d', (g.handle as request).2.Translates d' (h.handle as request).2 := by
  by_cases hindex : request.asksForIndex = false
  · exact (ht.handle as request hindex).2
  · cases request with
    | nameCount => exact ⟨d, ht⟩
    | nameOf text =>
      unfold Host.handle
      dsimp only
      refine ⟨d, ?_⟩
      split <;> split <;> exact ht
    | _ => exact absurd rfl hindex

end Host.Translates

/-! ## §4. Sessions. -/

namespace Host

/-- Answer requests one after another; before each of them some texts are given names. -/
def sessionKnowing (h : Host) : List (List String × Turn) → List Reply × Host
  | [] => ([], h)
  | (texts, as, request) :: rest =>
      let (reply, h) := (h.know texts).handle as request
      let (replies, h) := h.sessionKnowing rest
      (reply :: replies, h)

/-- A turn, with the texts that each of two hosts is to know before it. -/
structure Round where
  /-- The texts that one host gives names to. -/
  left : List String
  /-- The texts that the other host gives names to. -/
  right : List String
  /-- The turn of both hosts. -/
  turn : Turn

/-- Nothing but the indices of names tells two sessions apart: neither the replies, which show
objects, printed texts, errors with their places, comparisons and numbers of objects, nor what is
kept and written at the end, nor any object. -/
structure SameSession (turns : List Turn) (a b : List Reply × Host) : Prop where
  answered : a.1.length = turns.length ∧ b.1.length = turns.length
  replies : ∀ (k : Nat) (turn : Turn), turns[k]? = some turn → turn.2.asksForIndex = false →
    Option.Rel Reply.Same a.1[k]? b.1[k]?
  kept : b.2.kept = a.2.kept
  views : ∀ r, (a.2.view r).Same (b.2.view r)
  live : b.2.image.live = a.2.image.live
  output : b.2.image.output = a.2.image.output

theorem Translates.sessionKnowing {d : Dictionary} {g h : Host} (ht : g.Translates d h)
    (rounds : List Round) :
    SameSession (rounds.map (·.turn))
      (g.sessionKnowing (rounds.map fun round => (round.left, round.turn)))
      (h.sessionKnowing (rounds.map fun round => (round.right, round.turn))) := by
  induction rounds generalizing d g h with
  | nil =>
    refine ⟨⟨rfl, rfl⟩, fun k turn hturn => ?_, ht.kept_eq, ht.view, ht.image.live_eq,
      ht.image.output_eq⟩
    cases hturn
  | cons round rounds ih =>
    obtain ⟨xs, ys, as, request⟩ := round
    -- the dictionary changes from round to round, with what the hosts are told and with the turn
    have hknown := ht.know xs ys
    obtain ⟨d', hnext⟩ := hknown.after_handle as request
    have hrest := ih hnext
    refine ⟨⟨congrArg (· + 1) hrest.answered.1, congrArg (· + 1) hrest.answered.2⟩,
      fun k turn hturn hindex => ?_, hrest.kept, hrest.views, hrest.live, hrest.output⟩
    cases k with
    | zero =>
      cases hturn
      exact .some (hknown.handle as request hindex).1
    | succ k => exact hrest.replies k turn hturn hindex

theorem image_new (config : Config) : (new config).image = Image.new config := rfl

theorem exists_translates_new (config : Config) (xs ys : List String) :
    ∃ d, (Dictionary.ofTexts xs ys).Extends d
      ∧ (new { config with names := Interner.new.internAll xs }).Translates d
        (new { config with names := Interner.new.internAll ys }) := by
  obtain ⟨d, hext, hnew⟩ := Image.exists_translates_new (.ofTexts xs ys) config
  refine ⟨d, hext, ?_, rfl, rfl⟩
  rw [image_new, image_new]
  exact hnew

/-- **The order of names cannot be seen.**  Two hosts that know different texts from the start, and
that get to know different texts between requests, answer with the same; still a text that is not
empty can have a different name in each. -/
theorem namingOrder_unobservable :
    (∀ (config : Config) (xs ys : List String) (rounds : List Round),
      SameSession (rounds.map (·.turn))
        ((new { config with names := Interner.new.internAll xs }).sessionKnowing
          (rounds.map fun round => (round.left, round.turn)))
        ((new { config with names := Interner.new.internAll ys }).sessionKnowing
          (rounds.map fun round => (round.right, round.turn))))
    ∧ ∀ s ≠ "", ∃ xs ys, ∀ config : Config, ∃ n k, n ≠ k
      ∧ (new { config with names := Interner.new.internAll xs }).image.names.get? s = some n
      ∧ (new { config with names := Interner.new.internAll ys }).image.names.get? s = some k := by
  refine ⟨fun config xs ys rounds => ?_, fun s hs => ?_⟩
  · obtain ⟨d, -, hnew⟩ := exists_translates_new config xs ys
    exact hnew.sessionKnowing rounds
  · obtain ⟨xs, ys, n, k, hne, hn, hk⟩ := Dictionary.exists_names_ne hs
    refine ⟨xs, ys, fun config => ⟨n, k, hne, ?_⟩⟩
    -- a new image learns more names, and none of those it was given changes
    obtain ⟨d, hext, hnew⟩ := exists_translates_new config xs ys
    rw [hnew.image.left, hnew.image.right]
    exact ⟨d.leftValid.get?_eq_some_iff.mpr (hext.left n s hn),
      d.rightValid.get?_eq_some_iff.mpr (hext.right k s hk)⟩

end Host

end Prototalk
