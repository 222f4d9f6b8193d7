/-
  Prototalk.Proofs.Host.Session
  ────────────────────────────────
  **COLLECTIONS CANNOT BE SEEN FROM OUTSIDE.**

  A session is a list of requests, answered one after another.  Two hosts
  are paired if they keep the same objects in twin images; a request keeps
  them paired and gets the same answer from both, unless it asks for a number
  of objects.  So sessions that differ in the threshold of collections only
  cannot be told apart, and every image a session leads to is sound.

    • `Paired.handle` — one request,
    • `Paired.session` — a whole session,
    • `session_eq_of_threshold` — the threshold does not show,
    • `collect_after_session` — a collection is exact at any time.
-/
import Prototalk.Host
import Prototalk.Proofs.Evaluation.Program
import Prototalk.Proofs.Host.Draft
import Prototalk.Proofs.Image.Genesis

namespace Prototalk

open Image (Twins)

/-! ## §1. Sessions. -/

/-- Whether the answer is a number of objects, which depends on when collections run. -/
def Request.countsObjects : Request → Bool
  | .live => true
  | .collect => true
  | _ => false

namespace Host

/-- A request, and the name under which its answer is kept. -/
abbrev Turn := Option String × Request

/-- Answer requests one after another. -/
def session (h : Host) : List Turn → List Reply × Host
  | [] => ([], h)
  | (as, request) :: turns =>
      let (reply, h) := h.handle as request
      let (replies, h) := h.session turns
      (reply :: replies, h)

theorem findAll?_congr {g h : Host} (hfind : ∀ name, h.find? name = g.find? name)
    (names : List String) : h.findAll? names = g.findAll? names := by
  induction names with
  | nil => rfl
  | cons name names ih => rw [findAll?, findAll?, hfind, ih]

/-! ## §2. Paired hosts. -/

/-- Hosts that keep the same in images that are twins on a set of objects. -/
structure Paired (known : Set Ref) (g h : Host) : Prop where
  /-- They keep the same objects under the same names. -/
  kept_eq : h.kept = g.kept
  /-- They have reported the same output. -/
  reported_eq : h.reported = g.reported
  /-- The image holds what is kept. -/
  outside : g.image.held = g.kept.map (·.2)
  /-- The images are twins. -/
  twins : Twins known g.image h.image

/-- The same reply from two hosts that stay paired. -/
def Answered (x y : Reply × Host) : Prop := y.1 = x.1 ∧ ∃ known, Paired known x.2 y.2

namespace Paired

variable {known : Set Ref} {g h : Host} {r : Ref} (hp : Paired known g h)

include hp

theorem answered (reply : Reply) : Answered (reply, g) (reply, h) := ⟨rfl, known, hp⟩

theorem mem_handles_of_mem_kept {name : String} (hr : (name, r) ∈ g.kept) :
    r ∈ g.image.handles := by
  refine List.mem_append_right _ ?_
  rw [hp.outside]
  exact List.mem_map.mpr ⟨(name, r), hr, rfl⟩

theorem mem_of_mem_kept {name : String} (hr : (name, r) ∈ g.kept) : r ∈ known :=
  hp.twins.alike.handled r (hp.mem_handles_of_mem_kept hr)

theorem find?_eq (name : String) : h.find? name = g.find? name := by
  rw [find?, find?, hp.kept_eq]

/-- The objects that a host can name are handles. -/
theorem mem_handles_of_find? {name : String} (hr : g.find? name = some r) :
    r ∈ g.image.handles := by
  unfold find? at hr
  split at hr
  · rename_i s hs
    cases hr
    obtain ⟨before, after, hsplit, _⟩ := List.lookup_eq_some_iff.mp hs
    exact hp.mem_handles_of_mem_kept (hsplit ▸ List.mem_append_right before List.mem_cons_self)
  · obtain ⟨b, _, rfl⟩ := Option.map_eq_some_iff.mp hr
    exact g.image.mem_handles_builtin b

theorem mem_of_find? {name : String} (hr : g.find? name = some r) : r ∈ known :=
  hp.twins.alike.handled r (hp.mem_handles_of_find? hr)

theorem findAll?_eq (names : List String) : h.findAll? names = g.findAll? names :=
  findAll?_congr hp.find?_eq names

theorem mem_handles_of_findAll? {names : List String} {rs : List Ref}
    (hrs : g.findAll? names = some rs) : ∀ r ∈ rs, r ∈ g.image.handles := by
  induction names generalizing rs with
  | nil =>
    cases hrs
    exact List.forall_mem_nil _
  | cons name names ih =>
    unfold findAll? at hrs
    split at hrs
    · rename_i r rs' hr hrs'
      cases hrs
      exact List.forall_mem_cons.mpr ⟨hp.mem_handles_of_find? hr, ih hrs'⟩
    · cases hrs

theorem mem_of_findAll? {names : List String} {rs : List Ref}
    (hrs : g.findAll? names = some rs) : ∀ r ∈ rs, r ∈ known :=
  fun r hr => hp.twins.alike.handled r (hp.mem_handles_of_findAll? hrs r hr)

/-- What a draft refers to is known if the objects it is given are. -/
theorem mem_of_mem_refs_draft {draft : Draft Payload} {names : Interner} {refs : List Ref}
    (hrefs : ∀ r ∈ refs, r ∈ known) (hr : r ∈ (draft.payload names refs).refs) : r ∈ known := by
  rcases List.mem_cons.mp (Draft.mem_of_mem_refs_payload hr) with rfl | hr
  · exact hp.twins.alike.mem_builtin .nil
  · exact hrefs r hr

/-- The hosts with other images that are twins and hold the same. -/
theorem withImage {known' : Set Ref} {i j : Image} (ht : Twins known' i j)
    (hheld : i.held = g.image.held) : Paired known' { g with image := i } { h with image := j } :=
  ⟨hp.kept_eq, hp.reported_eq, hheld.trans hp.outside, ht⟩

theorem setKept {kept : List (String × Ref)} (hkept : ∀ k ∈ kept, k.2 ∈ known) :
    Paired known (g.setKept kept) (h.setKept kept) :=
  ⟨rfl, hp.reported_eq, rfl, hp.twins.hold fun r hr => by
    obtain ⟨k, hk, rfl⟩ := List.mem_map.mp hr
    exact hkept k hk⟩

omit hp in
theorem mem_putKept {name : String} {kept : List (String × Ref)} {k : String × Ref}
    (hk : k ∈ putKept name r kept) : k.2 = r ∨ k ∈ kept := by
  induction kept with
  | nil =>
    rw [List.mem_singleton.mp hk]
    exact Or.inl rfl
  | cons first rest ih =>
    obtain ⟨n, s⟩ := first
    unfold putKept at hk
    split at hk
    · rcases List.mem_cons.mp hk with rfl | hk
      · exact Or.inl rfl
      · exact Or.inr hk
    · split at hk
      · rcases List.mem_cons.mp hk with rfl | hk
        · exact Or.inl rfl
        · exact Or.inr (List.mem_cons_of_mem _ hk)
      · rcases List.mem_cons.mp hk with rfl | hk
        · exact Or.inr List.mem_cons_self
        · exact (ih hk).imp_right (List.mem_cons_of_mem _)

theorem keep (as : Option String) (hr : r ∈ known) :
    Paired known (g.keep as r) (h.keep as r) := by
  cases as with
  | none => exact hp
  | some name =>
    have hkept : ∀ k ∈ putKept name r g.kept, k.2 ∈ known := by
      intro k hk
      rcases mem_putKept hk with rfl | hk
      · exact hr
      · exact hp.mem_of_mem_kept hk
    show Paired known (g.setKept (putKept name r g.kept)) (h.setKept (putKept name r h.kept))
    rw [hp.kept_eq]
    exact hp.setKept hkept

/-- Interning gives the same name and changes only the names. -/
theorem intern (text : String) :
    (h.intern text).1 = (g.intern text).1 ∧ Paired known (g.intern text).2 (h.intern text).2 := by
  have hnames := hp.twins.alike.names_eq
  unfold Host.intern Image.intern
  rw [hnames]
  exact ⟨rfl, hp.withImage (hp.twins.know _) rfl⟩

/-- Naming several texts gives the same names. -/
theorem know (texts : List String) :
    (h.know texts).image.names = (g.know texts).image.names
      ∧ Paired known (g.know texts) (h.know texts) := by
  unfold Host.know
  rw [hp.twins.alike.names_eq]
  exact ⟨rfl, hp.withImage (hp.twins.know _) rfl⟩

/-! ## §3. Looking. -/

theorem view_eq (hr : r ∈ known) : h.view r = g.view r := by
  have ha := hp.twins.alike
  rw [view, view, ha.payload_eq hr, ha.display_eq hr, identities, identities, hp.kept_eq]

theorem details_eq (hr : r ∈ known) : h.details r = g.details r := by
  have ha := hp.twins.alike
  unfold details
  rw [ha.payload_eq hr, ha.names_eq]
  cases hpayload : g.image.payload r with
  | block b =>
    -- the captured locals are known with the block
    have hcaptured : b.captured.map h.view = b.captured.map g.view := by
      refine Option.map_congr fun s hs => hp.view_eq (ha.mem_of_mem_payload_refs hr ?_)
      rw [hpayload]
      simpa [Payload.refs] using hs
    simp only [hcaptured]
  | call c =>
    have hcall : ∀ s ∈ [c.sender, c.target, c.activated], h.view s = g.view s := by
      intro s hs
      refine hp.view_eq (ha.mem_of_mem_payload_refs hr ?_)
      rw [hpayload]
      exact hs
    simp only [hcall c.sender (by simp), hcall c.target (by simp), hcall c.activated (by simp)]
  | _ => rfl

theorem inspect_eq (hr : r ∈ known) : h.inspect r = g.inspect r := by
  have ha := hp.twins.alike
  rw [inspect, inspect, hp.view_eq hr, hp.details_eq hr, Image.debugText, Image.debugText,
    ha.payload_eq hr, ha.objects.protos_eq hr]

/-! ## §4. Answering. -/

theorem answerValue (as : Option String) (hr : r ∈ known) :
    Answered (g.answerValue as r) (h.answerValue as r) := by
  have hkept := hp.keep as hr
  refine ⟨?_, known, hkept⟩
  show Reply.value _ _ = Reply.value _ _
  rw [hkept.view_eq hr]

theorem answerOption (as : Option String) {o : Option Ref} (ho : ∀ r ∈ o, r ∈ known) :
    Answered (g.answerOption as o) (h.answerOption as o) := by
  cases o with
  | none => exact hp.answered _
  | some r => exact hp.answerValue as (ho r rfl)

/-- A new object, as the answer. -/
theorem answerMade (as : Option String) (payload : Payload) (protos : List Ref)
    (hpayload : ∀ r ∈ payload.refs, r ∈ known) (hprotos : ∀ r ∈ protos, r ∈ known) :
    Answered
      ({ g with image := (g.image.alloc payload protos).2 }.answerValue as
        (g.image.alloc payload protos).1)
      ({ h with image := (h.image.alloc payload protos).2 }.answerValue as
        (h.image.alloc payload protos).1) := by
  have hfits : g.image.Fits known [.make payload protos] :=
    ⟨fun r hr => (List.mem_append.mp hr).elim (hpayload r) (hprotos r), trivial⟩
  have hmade := hp.withImage (hp.twins.after hfits) (Image.held_after _ _)
  -- the new object gets the same number in both hosts
  have hsize : (h.image.alloc payload protos).1 = (g.image.alloc payload protos).1 := by
    show (⟨h.image.objects.cells.size⟩ : Ref) = ⟨g.image.objects.cells.size⟩
    rw [hp.twins.alike.objects.size_cells]
  rw [hsize]
  exact hmade.answerValue as (Or.inr rfl)

/-- The end of two runs that are alike. -/
theorem answerRun (as : Option String) {x y : Option Ran}
    (hxy : Option.Rel (Ran.Alike g.image.held) x y) :
    Answered (g.answerRun as x) (h.answerRun as y) := by
  cases hxy with
  | none => exact hp.answered _
  | @some x y hxy =>
    obtain ⟨hresult, hheld, known', ht, hrefs⟩ := hxy
    obtain ⟨_, i⟩ := x
    obtain ⟨result, j⟩ := y
    subst hresult
    have hran := hp.withImage ht hheld
    -- both runs have printed the same, behind the same earlier output
    have hprinted : { h with image := j }.unreported = { g with image := i }.unreported := by
      rw [unreported, unreported, ht.alike.output_eq, hp.reported_eq]
    have hreported :
        Paired known' (report { g with image := i }) (report { h with image := j }) := by
      refine ⟨hp.kept_eq, ?_, hran.outside, ht⟩
      show j.output.contents.length = i.output.contents.length
      rw [ht.alike.output_eq]
    cases result with
    | ok r =>
      have hr : r ∈ known' := hrefs r (by simp [Image.resultRefs])
      have hkept := hreported.keep as hr
      refine ⟨?_, known', hkept⟩
      show Reply.value _ (unreported _) = Reply.value _ (unreported _)
      rw [hprinted, hkept.view_eq hr]
    | error e =>
      refine ⟨?_, known', hreported⟩
      show Reply.failed e (unreported _) = Reply.failed e (unreported _)
      rw [hprinted]

theorem evaluateIn (as : Option String) (text : String) {locals : Ref} (hlocals : locals ∈ known) :
    Answered (g.evaluateIn as text locals) (h.evaluateIn as text locals) := by
  unfold Host.evaluateIn
  rw [hp.twins.alike.names_eq]
  -- the names of the text become known even if it does not parse
  have hknow := hp.withImage (hp.twins.know (parse g.image.names text).names) rfl
  cases hresult : (parse g.image.names text).result with
  | error e => simpa only [hresult] using hknow.answered _
  | ok chain =>
    cases chain with
    | none => simpa only [hresult] using hknow.answered _
    | some chain =>
      simp only [hresult]
      exact hknow.answerRun as (Image.alike_evaluate hknow.twins rfl patience chain hlocals)

/-- Code that the host has put together. -/
theorem evaluateDraft (as : Option String) (draft : Draft Chain) {locals : Ref}
    (hlocals : locals ∈ known) :
    Answered (g.evaluateDraft as draft locals) (h.evaluateDraft as draft locals) := by
  obtain ⟨hnames, hknow⟩ := hp.know draft.texts
  unfold Host.evaluateDraft
  dsimp only
  rw [hnames]
  exact hknow.answerRun as (Image.alike_evaluate hknow.twins rfl patience _ hlocals)

/-- An object that the host has put together. -/
theorem make (as : Option String) (draft : Draft Payload) {refs protos : List Ref}
    (hrefs : ∀ r ∈ refs, r ∈ known) (hprotos : ∀ r ∈ protos, r ∈ known) :
    Answered (g.make as draft refs protos) (h.make as draft refs protos) := by
  obtain ⟨hnames, hknow⟩ := hp.know draft.texts
  unfold Host.make
  dsimp only
  rw [hnames]
  exact hknow.answerMade as _ protos (fun r hr => hp.mem_of_mem_refs_draft hrefs hr) hprotos

/-! ## §5. Requests. -/

/-- A request about one object that may not be there. -/
theorem answerFound (name : String) {f f' : Ref → Reply × Host}
    (hf : ∀ r ∈ known, Answered (f r) (f' r)) :
    Answered (match g.find? name with | some r => f r | none => (.noHandle, g))
      (match h.find? name with | some r => f' r | none => (.noHandle, h)) := by
  rw [hp.find?_eq]
  cases hr : g.find? name with
  | some r => exact hf r (hp.mem_of_find? hr)
  | none => exact hp.answered _

/-- A request about two objects that may not be there. -/
theorem answerFoundBoth (a b : String) {f f' : Ref → Ref → Reply × Host}
    (hf : ∀ r ∈ known, ∀ s ∈ known, Answered (f r s) (f' r s)) :
    Answered
      (match g.find? a, g.find? b with | some r, some s => f r s | _, _ => (.noHandle, g))
      (match h.find? a, h.find? b with | some r, some s => f' r s | _, _ => (.noHandle, h)) := by
  rw [hp.find?_eq, hp.find?_eq]
  cases hr : g.find? a with
  | none => exact hp.answered _
  | some r =>
    cases hs : g.find? b with
    | none => exact hp.answered _
    | some s => exact hf r (hp.mem_of_find? hr) s (hp.mem_of_find? hs)

/-- A request about objects some of which may not be there. -/
theorem answerFoundAll (as bs : List String) {f f' : List Ref → List Ref → Reply × Host}
    (hf : ∀ rs ss, (∀ r ∈ rs, r ∈ known) → (∀ s ∈ ss, s ∈ known) →
      Answered (f rs ss) (f' rs ss)) :
    Answered
      (match g.findAll? as, g.findAll? bs with
        | some rs, some ss => f rs ss
        | _, _ => (.noHandle, g))
      (match h.findAll? as, h.findAll? bs with
        | some rs, some ss => f' rs ss
        | _, _ => (.noHandle, h)) := by
  rw [hp.findAll?_eq, hp.findAll?_eq]
  cases hrs : g.findAll? as with
  | none => exact hp.answered _
  | some rs =>
    cases hss : g.findAll? bs with
    | none => exact hp.answered _
    | some ss => exact hf rs ss (hp.mem_of_findAll? hrs) (hp.mem_of_findAll? hss)

/-- **A request that does not count objects is answered alike.** -/
theorem handle (as : Option String) (request : Request) (hcounts : request.countsObjects = false) :
    Answered (g.handle as request) (h.handle as request) := by
  have ht := hp.twins
  have ha := ht.alike
  cases request with
  | run text => exact hp.answerRun as (Image.alike_doString ht rfl patience text)
  | runSource source => exact hp.answerRun as (Image.alike_doSource ht rfl patience source)
  | evaluate text locals => exact hp.answerFound locals fun r hr => hp.evaluateIn as text hr
  | evaluateDraft draft locals =>
    exact hp.answerFound locals fun r hr => hp.evaluateDraft as draft hr
  -- the two requests that tell a number of objects are left out
  | live => cases hcounts
  | collect => cases hcounts
  | drop name =>
    show Answered (.flag (g.kept.lookup name).isSome, g.setKept _)
      (.flag (h.kept.lookup name).isSome, h.setKept (h.kept.filter _))
    rw [hp.kept_eq]
    refine ⟨rfl, known, hp.setKept fun k hk => hp.mem_of_mem_kept (List.mem_filter.mp hk).1⟩
  | same a b => exact hp.answerFoundBoth a b fun r _ s _ => hp.answered _
  | ownSlot object slot =>
    refine hp.answerFound object fun r hr => ?_
    obtain ⟨hname, hintern⟩ := hp.intern slot
    show Answered
      ((g.intern slot).2.answerOption as
        ((g.intern slot).2.image.objects.ownSlot? r (g.intern slot).1))
      ((h.intern slot).2.answerOption as
        ((h.intern slot).2.image.objects.ownSlot? r (h.intern slot).1))
    rw [hname, hintern.twins.alike.objects.ownSlot?_eq hr]
    exact hintern.answerOption as fun v hv => hintern.twins.alike.objects.mem_of_ownSlot? hr hv
  | lookup object slot =>
    refine hp.answerFound object fun r hr => ?_
    obtain ⟨hname, hintern⟩ := hp.intern slot
    show Answered
      ((g.intern slot).2.answerOption as ((g.intern slot).2.image.lookup? r (g.intern slot).1))
      ((h.intern slot).2.answerOption as ((h.intern slot).2.image.lookup? r (h.intern slot).1))
    rw [hname, hintern.twins.alike.lookup?_eq hr]
    exact hintern.answerOption as fun v hv => hintern.twins.alike.mem_of_lookup? hr hv
  | setSlot object slot value =>
    refine hp.answerFoundBoth object value fun r hr v hv => ?_
    obtain ⟨hname, hintern⟩ := hp.intern slot
    refine ⟨rfl, known, ?_⟩
    show Paired known
      { (g.intern slot).2 with image := (g.intern slot).2.image.setSlot r (g.intern slot).1 v }
      { (h.intern slot).2 with image := (h.intern slot).2.image.setSlot r (h.intern slot).1 v }
    rw [hname]
    exact hintern.withImage (hintern.twins.setSlot hr _ hv) rfl
  | appendProto object proto =>
    refine hp.answerFoundBoth object proto fun r hr p hpr => ⟨rfl, known, ?_⟩
    exact hp.withImage (ht.apply (.appendProto r p) (by simp [Effect.refs, hr, hpr]) rfl) rfl
  | protos object =>
    refine hp.answerFound object fun r hr => ?_
    -- the protos of an object in use are in use
    have hviews :
        (h.image.objects.protos r).map h.view = (g.image.objects.protos r).map g.view := by
      rw [ha.objects.protos_eq hr]
      exact List.map_congr_left fun p hpr => hp.view_eq (ha.objects.mem_of_mem_protos hr hpr)
    rw [hviews]
    exact hp.answered _
  | number x =>
    exact hp.answerMade as _ _ (by simp [Payload.refs]) (by simpa using ha.mem_builtin .number)
  | string s =>
    exact hp.answerMade as _ _ (by simp [Payload.refs]) (by simpa using ha.mem_builtin .string)
  | boolean b =>
    refine hp.answerValue as ?_
    cases b with
    | true => exact ha.mem_builtin .yes
    | false => exact ha.mem_builtin .no
  | cloneOf object =>
    exact hp.answerFound object fun r hr =>
      hp.answerMade as .plain [r] (by simp [Payload.refs]) (by simpa using hr)
  | make draft objects protos =>
    exact hp.answerFoundAll objects protos fun rs ss hrs hss => hp.make as draft hrs hss
  | inspect object =>
    refine hp.answerFound object fun r hr => ?_
    have hkept := hp.keep as hr
    refine ⟨?_, known, hkept⟩
    show Reply.inspected _ = Reply.inspected _
    rw [hkept.inspect_eq hr]
  | setActivatable object flag =>
    refine hp.answerFound object fun r hr => ?_
    rw [ha.payload_eq hr]
    cases g.image.payload r with
    | block b =>
      refine ⟨rfl, known, hp.withImage ?_ rfl⟩
      exact ht.apply (.setActivatable r flag) (by simp [Effect.refs, hr]) rfl
    | _ => exact hp.answered _
  | output =>
    show Answered (.text _, g) (.text h.image.output.contents, h)
    rw [ha.output_eq]
    exact hp.answered _
  | clearOutput =>
    show Answered _ (.nothing, { h with
      image := { h.image with output := h.image.output.clear }, reported := 0 })
    rw [ha.output_eq]
    refine ⟨rfl, known, hp.kept_eq, rfl, hp.outside, ?_⟩
    exact ht.apply (.write g.image.output.clear) (by simp [Effect.refs]) rfl
  | maxDepth =>
    show Answered (.count _, g) (.count h.image.maxDepth, h)
    rw [ha.maxDepth_eq]
    exact hp.answered _
  | nameCount =>
    show Answered (.count _, g) (.count h.image.names.size, h)
    rw [ha.names_eq]
    exact hp.answered _
  | nameOf text =>
    unfold Host.handle
    simp only [ha.names_eq]
    cases g.image.names.get? text <;> exact hp.answered _

/-- Any request leaves hosts paired; what a collection frees makes no difference. -/
theorem after_handle (as : Option String) (request : Request) :
    ∃ known', Paired known' (g.handle as request).2 (h.handle as request).2 := by
  by_cases hcounts : request.countsObjects = false
  · exact (hp.handle as request hcounts).2
  · cases request with
    | live => exact ⟨known, hp⟩
    | collect => exact ⟨_, hp.withImage (hp.twins.collect (by simp)) rfl⟩
    | _ => exact absurd rfl hcounts

/-! ## §6. Sessions in paired hosts. -/

theorem session (turns : List Turn) :
    (∀ (k : Nat) (turn : Turn), turns[k]? = some turn → turn.2.countsObjects = false →
        (h.session turns).1[k]? = (g.session turns).1[k]?)
      ∧ ∃ known', Paired known' (g.session turns).2 (h.session turns).2 := by
  induction turns generalizing known g h with
  | nil => exact ⟨by simp, known, hp⟩
  | cons turn turns ih =>
    obtain ⟨as, request⟩ := turn
    -- the known objects change from turn to turn: a collection forgets, a run learns
    obtain ⟨known', hnext⟩ := hp.after_handle as request
    obtain ⟨hreplies, hlast⟩ := ih hnext
    refine ⟨fun k turn hturn hcounts => ?_, hlast⟩
    cases k with
    | zero =>
      cases hturn
      exact congrArg some (hp.handle as request hcounts).1
    | succ k => exact hreplies k turn hturn hcounts

end Paired

variable (config : Config) (turns : List Turn)

theorem length_replies (h : Host) : (h.session turns).1.length = turns.length := by
  induction turns generalizing h with
  | nil => rfl
  | cons turn turns ih => exact congrArg (· + 1) (ih _)

theorem paired_new (threshold : Nat) :
    ∃ known, Paired known (new config) (new { config with threshold := threshold }) := by
  obtain ⟨known, ht⟩ := Image.twins_new config threshold
  refine ⟨known, rfl, rfl, ?_, ht⟩
  show (Image.new config).held = []
  rw [Image.held_new]

/-- Every image that a session leads to is sound. -/
theorem sound_session : ((new config).session turns).2.image.Sound := by
  obtain ⟨known, hp⟩ := paired_new config config.threshold
  obtain ⟨-, known', hlast⟩ := hp.session turns
  exact hlast.twins.left

/-- What can be seen of two sessions is the same, numbers of objects apart: the replies, the objects
that are kept, and whatever these, the built-in objects and the literals lead to. -/
structure Indistinguishable (turns : List Turn) (a b : List Reply × Host) : Prop where
  answered : a.1.length = turns.length ∧ b.1.length = turns.length
  replies : ∀ (k : Nat) (turn : Turn), turns[k]? = some turn → turn.2.countsObjects = false →
    b.1[k]? = a.1[k]?
  kept : b.2.kept = a.2.kept
  handles : b.2.image.handles = a.2.image.handles
  found : ∀ name, b.2.find? name = a.2.find? name
  held : ∀ name r, a.2.find? name = some r → r ∈ a.2.image.handles
  reaches : ∀ r, b.2.image.objects.Reaches b.2.image.handles r
    ↔ a.2.image.objects.Reaches a.2.image.handles r
  objects : ∀ r, a.2.image.objects.Reaches a.2.image.handles r →
    ∃ o, a.2.image.objects.get? r = some o ∧ b.2.image.objects.get? r = some o

/-- **Collections cannot be seen.**  Two sessions in hosts that differ in the threshold of
collections cannot be told apart. -/
theorem session_eq_of_threshold (threshold : Nat) :
    Indistinguishable turns ((new config).session turns)
      ((new { config with threshold := threshold }).session turns) := by
  obtain ⟨known, hp⟩ := paired_new config threshold
  obtain ⟨hreplies, known', hlast⟩ := hp.session turns
  -- what handles lead to is the same, whatever else the pair has in common
  have hreach := hlast.twins.alike.reach (by simp : ∀ r ∈ ([] : List Ref), r ∈ known')
  refine ⟨⟨length_replies turns _, length_replies turns _⟩, hreplies, hlast.kept_eq,
    hreach.handles_eq, hlast.find?_eq, fun name r hr => hlast.mem_handles_of_find? hr,
    fun r => Set.ext_iff.mp hreach.reach_eq r, fun r hr => ?_⟩
  obtain ⟨o, ho⟩ := Option.isSome_iff_exists.mp (hreach.objects.there r hr)
  exact ⟨o, ho, (hreach.objects.same r hr).trans ho⟩

end Host

/-- A collection condemns the objects that are there and that no handle leads to; what handles lead
to stays as it was, and nothing else is left.  The number given is the difference in live objects,
and a second collection finds nothing.  The references in payloads go to older objects. -/
structure Image.CollectsExactly (image : Image) : Prop where
  condemned : ∀ r, r ∈ image.objects.condemned image.handles
    ↔ ((image.objects.release image.handles).get? r).isSome
      ∧ ¬ image.objects.Reaches image.handles r
  unchanged : ∀ r, image.objects.Reaches image.handles r →
    ∃ o, image.objects.get? r = some o ∧ (image.collect []).2.objects.get? r = some o
  cleared : ∀ r, ¬ image.objects.Reaches image.handles r →
    (image.collect []).2.objects.get? r = none
  live : (image.collect []).2.live = {r | image.objects.Reaches image.handles r}.ncard
  count : (image.collect []).1 + (image.collect []).2.live = image.live
  again : ((image.collect []).2.collect []).1 = 0
  older : ∀ r o, image.objects.get? r = some o → ∀ s ∈ o.payload.refs, s.index < r.index

/-- **A collection is exact**, whatever a session did before it. -/
theorem Host.collect_after_session (config : Config) (turns : List Host.Turn) :
    ((Host.new config).session turns).2.image.CollectsExactly := by
  have hsound : Heap.Sound _ _ := Host.sound_session config turns
  refine ⟨fun r => Heap.mem_condemned hsound, fun r hr => ?_, fun r hr => ?_,
    Heap.live_collect hsound, (Heap.live_eq_collect_add hsound).symm,
    Heap.collect_collect_fst hsound, hsound.older⟩
  · obtain ⟨o, ho⟩ := Option.isSome_iff_exists.mp (hsound.isSome_of_reaches hr)
    exact ⟨o, ho, (Heap.get?_collect_of_reaches hsound hr).trans ho⟩
  · classical
    exact (Heap.get?_collect hsound r).trans (if_neg hr)

end Prototalk
