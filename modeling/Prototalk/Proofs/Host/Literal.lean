/-
  Prototalk.Proofs.Host.Literal
  ────────────────────────────────
  **TWO LITERALS ARE ONE OBJECT IF AND ONLY IF THEY ARE EQUAL.**

  In a history of a new host the table of literals only gathers: from one
  stage to the next (`Stage.Next.gathers`) it keeps its entries, gets at most
  entries for new objects, and goes on telling what its objects are.  A new
  host has no entries, so this holds of every stage.

    • `Host.literals_handle` — requests touch the table only through the
      programs they run,
    • `Stage.Meets.lookup` — what a literal has yielded is in the table ever
      after,
    • `Stage.Makes.new` — what else is made as a number or a string is not
      in the table, and never will be, since it is not new any more.
-/
import Prototalk.Proofs.Evaluation.Literal
import Prototalk.Proofs.Host.Persistence

namespace Prototalk

open Relation (ReflTransGen TransGen)

/-! ## §1. Requests. -/

namespace Host

variable {start : Machine}

theorem literals_keep (h : Host) (as : Option String) (r : Ref) :
    (h.keep as r).image.literals = h.image.literals := by
  cases as <;> rfl

theorem literals_answerOption (h : Host) (as : Option String) (o : Option Ref) :
    (h.answerOption as o).2.image.literals = h.image.literals := by
  cases o with
  | none => rfl
  | some r => exact h.literals_keep as r

/-- What is left of the table is what a run has left, if it has ended. -/
theorem literals_answerRun (h : Host) (as : Option String) (ran : Option Ran) :
    (h.answerRun as ran).2.image.literals
      = ran.elim h.image.literals fun ran => ran.image.literals := by
  cases ran with
  | none => rfl
  | some ran =>
    obtain ⟨result, image⟩ := ran
    cases result with
    | ok r => exact literals_keep _ as r
    | error e => rfl

/-- The table that the end of a machine leaves. -/
def leaves (h : Host) (start? : Option Machine) : List (Constant × Ref) :=
  (start?.bind (Machine.run patience)).elim h.image.literals fun last => last.image.literals

theorem literals_runParsed (h : Host) (as : Option String) (parsed : Parsed) :
    (h.answerRun as (h.image.runParsed patience parsed)).2.image.literals
      = h.leaves (h.image.machineOfParsed? parsed) := by
  rw [literals_answerRun]
  unfold leaves Image.machineOfParsed? Image.runParsed
  cases parsed.result with
  | error e => rfl
  | ok chain =>
    cases chain with
    | none => rfl
    | some chain =>
      dsimp only [Image.runChain, Image.evaluate, Option.bind_some]
      cases Machine.run patience _ with
      | none => rfl
      | some last => exact Image.literals_collectIfDue last.image _

theorem literals_evaluateIn (h : Host) (as : Option String) (text : String) (r : Ref) :
    (h.evaluateIn as text r).2.image.literals = h.leaves (h.machineIn? text r) := by
  unfold leaves machineIn? evaluateIn
  cases hresult : (parse h.image.names text).result with
  | error e =>
    simp only [hresult]
    rfl
  | ok chain =>
    simp only [hresult]
    cases chain with
    | none => rfl
    | some chain =>
      refine (literals_answerRun _ as _).trans ?_
      dsimp only [Image.evaluate, Option.bind_some]
      cases Machine.run patience _ <;> rfl

theorem literals_evaluateDraft (h : Host) (as : Option String) (draft : Draft Chain) (r : Ref) :
    (h.evaluateDraft as draft r).2.image.literals
      = h.leaves (some (h.machineOfDraft draft r)) := by
  refine (literals_answerRun _ as _).trans ?_
  unfold leaves machineOfDraft
  dsimp only [Image.evaluate, Option.bind_some]
  cases Machine.run patience _ <;> rfl

/-- A request about one object that may not be there. -/
theorem literals_found (h : Host) (name : String) {f : Ref → Reply × Host}
    (hf : ∀ r, (f r).2.image.literals = h.image.literals) :
    (match h.find? name with | some r => f r | none => (.noHandle, h)).2.image.literals
      = h.image.literals := by
  cases h.find? name with
  | none => rfl
  | some r => exact hf r

/-- A request about two objects that may not be there. -/
theorem literals_foundBoth (h : Host) (a b : String) {f : Ref → Ref → Reply × Host}
    (hf : ∀ r s, (f r s).2.image.literals = h.image.literals) :
    (match h.find? a, h.find? b with
      | some r, some s => f r s
      | _, _ => (.noHandle, h)).2.image.literals = h.image.literals := by
  cases h.find? a with
  | none => rfl
  | some r =>
    cases h.find? b with
    | none => rfl
    | some s => exact hf r s

/-- A request about objects some of which may not be there. -/
theorem literals_foundAll (h : Host) (as bs : List String)
    {f : List Ref → List Ref → Reply × Host}
    (hf : ∀ rs ss, (f rs ss).2.image.literals = h.image.literals) :
    (match h.findAll? as, h.findAll? bs with
      | some rs, some ss => f rs ss
      | _, _ => (.noHandle, h)).2.image.literals = h.image.literals := by
  cases h.findAll? as with
  | none => rfl
  | some rs =>
    cases h.findAll? bs with
    | none => rfl
    | some ss => exact hf rs ss

/-- **Requests touch the table only through the programs they run.** -/
theorem literals_handle (h : Host) (as : Option String) (request : Request) :
    (h.handle as request).2.image.literals = h.leaves (h.machineOf? request) := by
  cases request with
  | run text => exact h.literals_runParsed as _
  | runSource source => exact h.literals_runParsed as _
  | evaluate text locals =>
    show (match h.find? locals with
      | some r => h.evaluateIn as text r
      | none => (.noHandle, h)).2.image.literals
        = h.leaves ((h.find? locals).bind (h.machineIn? text))
    cases h.find? locals with
    | none => rfl
    | some r => exact h.literals_evaluateIn as text r
  | evaluateDraft draft locals =>
    show (match h.find? locals with
      | some r => h.evaluateDraft as draft r
      | none => (.noHandle, h)).2.image.literals
        = h.leaves ((h.find? locals).map (h.machineOfDraft draft))
    cases h.find? locals with
    | none => rfl
    | some r => exact h.literals_evaluateDraft as draft r
  | ownSlot object slot => exact h.literals_found object fun r => literals_answerOption _ as _
  | lookup object slot => exact h.literals_found object fun r => literals_answerOption _ as _
  | setSlot object slot value => exact h.literals_foundBoth object value fun r v => rfl
  | appendProto object proto => exact h.literals_foundBoth object proto fun r p => rfl
  | same a b => exact h.literals_foundBoth a b fun r s => rfl
  | protos object => exact h.literals_found object fun r => rfl
  | inspect object => exact h.literals_found object fun r => h.literals_keep as r
  | cloneOf object => exact h.literals_found object fun r => literals_keep _ as _
  | make draft objects protos =>
    exact h.literals_foundAll objects protos fun rs ss => literals_keep _ as _
  | setActivatable object flag =>
    refine h.literals_found object fun r => ?_
    cases h.image.payload r <;> rfl
  | number | string | boolean => exact literals_keep _ as _
  | nameOf text =>
    unfold handle
    dsimp only
    split <;> rfl
  | _ => rfl

/-- A program starts with the table as it is. -/
theorem literals_machineOf? {h : Host} {request : Request}
    (hstart : h.machineOf? request = some start) : start.image.literals = h.image.literals := by
  have hparsed {parsed : Parsed} (hstart : h.image.machineOfParsed? parsed = some start) :
      start.image.literals = h.image.literals := by
    unfold Image.machineOfParsed? at hstart
    split at hstart
    · cases hstart
      rfl
    · cases hstart
  cases request with
  | run text => exact hparsed hstart
  | runSource source => exact hparsed hstart
  | evaluate text locals =>
    obtain ⟨r, -, hstart⟩ := Option.bind_eq_some_iff.mp hstart
    unfold machineIn? at hstart
    dsimp only at hstart
    split at hstart
    · cases hstart
      rfl
    · cases hstart
  | evaluateDraft draft locals =>
    obtain ⟨r, -, rfl⟩ := Option.map_eq_some_iff.mp hstart
    rfl
  | _ => cases hstart

namespace Paired

variable {known : Set Ref} {h : Host} {request : Request} (hp : Paired known h h)

include hp

/-- As far as a program has come, it has gathered. -/
theorem gathers_iterate (hstart : h.machineOf? request = some start) (k : Nat) :
    h.image.Gathers (Machine.step^[k] start).image := by
  have hspans := hp.spans_handle none request
  induction k with
  | zero => exact (Image.Notes.same (literals_machineOf? hstart)).gathers (hspans.first _ hstart)
  | succ k ih =>
    have hstep := hspans.steps start k hstart
    rw [Function.iterate_succ_apply'] at hstep ⊢
    exact ih.trans ((Machine.notes_step _).gathers hstep)

/-- The end of a program gathers nothing more. -/
theorem gathers_end (as : Option String) (hstart : h.machineOf? request = some start) {k : Nat}
    (hdone : (Machine.step^[k] start).isDone = true) (hk : k ≤ patience) :
    (Machine.step^[k] start).image.Gathers (h.handle as request).2.image := by
  have hlast := (hp.spans_handle as request).last _ _ hstart hdone hk
  refine Image.Notes.gathers (.same ?_) hlast
  rw [literals_handle, leaves, hstart, Option.bind_some,
    Machine.run_of_isDone_iterate hdone hk]
  rfl

/-- **A request gathers.** -/
theorem gathers_handle (as : Option String) (request : Request) :
    h.image.Gathers (h.handle as request).2.image := by
  have hwhole := (hp.spans_handle as request).whole
  -- without a program that ends there is nothing to note
  cases hstart : h.machineOf? request with
  | none =>
    refine Image.Notes.gathers (.same ?_) hwhole
    rw [literals_handle, leaves, hstart]
    rfl
  | some start =>
    cases hrun : Machine.run patience start with
    | none =>
      refine Image.Notes.gathers (.same ?_) hwhole
      rw [literals_handle, leaves, hstart, Option.bind_some, hrun]
      rfl
    | some last =>
      obtain ⟨hdone, -⟩ := Machine.run_eq_some_iff.mp hrun
      exact (hp.gathers_iterate hstart patience).trans (hp.gathers_end as hstart hdone le_rfl)

end Paired

end Host

/-! ## §2. Histories. -/

namespace Stage

variable {config : Config} {a a' b : Stage} {c d : Constant} {r s v : Ref}

/-- The image of a stage. -/
def image : Stage → Image
  | .idle h => h.image
  | .running _ _ start steps => (Machine.step^[steps] start).image

/-- The program that runs at a stage, as far as it has come. -/
def machine? : Stage → Option Machine
  | .idle _ => none
  | .running _ _ start steps => some (Machine.step^[steps] start)

/-- **From one stage to the next.** -/
theorem Next.gathers (hn : a.Next b) (ha : a.Sound) : a.image.Gathers b.image := by
  have hendures := (hn.endures ha).2
  cases hn with
  | answer h as request =>
    obtain ⟨known, hp⟩ := ha
    exact hp.gathers_handle as request
  | start hstart as =>
    obtain ⟨known, hp⟩ := ha
    exact hp.gathers_iterate hstart 0
  | step h turn start steps =>
    have hnotes := Machine.notes_step (Machine.step^[steps] start)
    rw [← Function.iterate_succ_apply' Machine.step] at hnotes
    exact hnotes.gathers hendures
  | finish hdone hsteps h as request =>
    obtain ⟨⟨known, hp⟩, hstart⟩ := ha
    exact hp.gathers_end as hstart hdone hsteps

/-- **From one stage to any later one.** -/
theorem gathers (hab : ReflTransGen Next a b) (ha : a.Sound) : a.image.Gathers b.image := by
  induction hab with
  | refl => exact .refl _
  | tail hac hn ih => exact ih.trans (hn.gathers (endures hac ha).1)

/-- A stage that a new host can come to. -/
def Reached (config : Config) (a : Stage) : Prop := ReflTransGen Next (.idle (Host.new config)) a

theorem Reached.sound (ha : Reached config a) : a.Sound := (endures ha (sound_new config)).1

theorem Reached.keyed (ha : Reached config a) : a.image.Keyed := by
  refine (gathers ha (sound_new config)).keyed ?_
  -- nothing has been met yet
  have hempty : (Image.new config).literals = [] := rfl
  intro c r hc
  rw [show (Stage.idle (Host.new config)).image.literals = [] from hempty] at hc
  cases hc

/-- What is in use at a stage is there. -/
theorem Sound.index_lt (ha : a.Sound) (hr : r ∈ a.moment.reach) :
    r.index < a.image.objects.cells.size := by
  obtain ⟨b, hn⟩ := a.exists_next
  obtain ⟨o, ho⟩ := Option.isSome_iff_exists.mp ((hn.endures ha).2.there r hr)
  cases a <;> exact Heap.index_lt_of_get? ho

theorem Sound.index_lt_of_lookup (ha : a.Sound) (hr : a.image.literals.lookup c = some r) :
    r.index < a.image.objects.cells.size := by
  refine ha.index_lt (.handle ?_)
  cases a <;> exact List.mem_append_right _ (Image.mem_handles_of_lookup hr)

/-! ## §3. What literals yield. -/

/-- At this stage the literal `c` is evaluated, and yields `r`. -/
def Meets (a : Stage) (c : Constant) (r : Ref) : Prop := ∃ m, a.machine? = some m ∧ m.Meets c r

/-- While a literal is met, a history goes on with a step. -/
theorem Meets.lookup_next (hm : a.Meets c r) (hn : a.Next a') :
    a'.image.literals.lookup c = some r := by
  obtain ⟨m, hmachine, hmeets⟩ := hm
  cases hn with
  | answer => cases hmachine
  | start => cases hmachine
  | step h turn start steps =>
    obtain rfl : Machine.step^[steps] start = m := Option.some.inj hmachine
    have hlookup := hmeets.lookup_step
    rw [← Function.iterate_succ_apply' Machine.step] at hlookup
    exact hlookup
  | @finish start steps hdone hsteps h as request =>
    obtain rfl : Machine.step^[steps] start = m := Option.some.inj hmachine
    obtain ⟨w, hcontrol, -⟩ := hmeets.yields
    -- a program that has ended would go on being what it is
    rw [Machine.step_of_isDone hdone] at hcontrol
    unfold Machine.isDone at hdone
    rw [hcontrol] at hdone
    cases hdone

/-- **What a literal has yielded is in the table ever after.** -/
theorem Meets.lookup (hm : a.Meets c r) (ha : a.Sound) (hab : TransGen Next a b) :
    b.image.literals.lookup c = some r := by
  obtain ⟨a', hn, hab⟩ := TransGen.head'_iff.mp hab
  exact (gathers hab (hn.endures ha).1).kept c r (hm.lookup_next hn)

/-- Literals are one object if and only if they are equal. -/
theorem Meets.eq_iff (ha : Reached config a) (hab : ReflTransGen Next a b) (hr : a.Meets c r)
    (hs : b.Meets d s) : r = s ↔ c = d := by
  -- both are in the table at the stage after the second one
  obtain ⟨b', hn⟩ := b.exists_next
  have hb' : Reached config b' := (ha.trans hab).tail hn
  exact hb'.keyed.eq_iff (hr.lookup ha.sound (.tail' hab hn)) (hs.lookup_next hn)

/-! ## §4. Numbers and strings that are no literals. -/

/-- From one stage to the next, a number or a string `v` is made that is no literal. -/
inductive Makes : Stage → Ref → Stage → Prop where
  /-- The answer of an operation. -/
  | operation {start : Machine} {steps : Nat} {op : Native} {v : Ref}
      (hanswers : (Machine.step^[steps] start).Answers op v) (hop : op.composes = true)
      (h : Host) (turn : Host.Turn) :
      Makes (.running h turn start steps) v (.running h turn start (steps + 1))
  /-- Whatever else a step that meets no literal has as its result and has not found. -/
  | result {start : Machine} {steps : Nat} {c : Constant} {v : Ref}
      (hliteral : (Machine.step^[steps] start).literal? = none)
      (hresult : (Machine.step^[steps + 1] start).control = .value v)
      (hnew : (Machine.step^[steps] start).image.objects.cells.size ≤ v.index)
      (hpayload : (Machine.step^[steps + 1] start).image.payload v = c.payload)
      (h : Host) (turn : Host.Turn) :
      Makes (.running h turn start steps) v (.running h turn start (steps + 1))
  /-- A number that the host asks for. -/
  | number (h : Host) (as : Option String) (x : Binary64) :
      Makes (.idle h) (h.image.number x).1 (.idle (h.handle as (.number x)).2)
  /-- A string that the host asks for. -/
  | string (h : Host) (as : Option String) (s : String) :
      Makes (.idle h) (h.image.string s).1 (.idle (h.handle as (.string s)).2)
  /-- A number or a string that the host has put together. -/
  | draft {h : Host} {objects protos : List String} {rs ss : List Ref}
      (hobjects : h.findAll? objects = some rs) (hprotos : h.findAll? protos = some ss)
      (as : Option String) (texts : List String) (c : Constant) :
      Makes (.idle h) (h.image.alloc c.payload ss).1
        (.idle (h.handle as (.make ⟨texts, c.payload⟩ objects protos)).2)

theorem Makes.next (hm : a.Makes v a') : a.Next a' := by
  cases hm with
  | operation | result => exact .step ..
  | number | string | draft => exact .answer _ _ _ trivial

/-- What is made is new, is a number or a string, and is not in the table. -/
structure New (a : Stage) (v : Ref) (a' : Stage) : Prop where
  le_index : a.image.objects.cells.size ≤ v.index
  index_lt : v.index < a'.image.objects.cells.size
  constant : ∃ c : Constant, a'.image.payload v = c.payload
  literals_eq : a'.image.literals = a.image.literals

theorem new_of_step {h : Host} {turn : Host.Turn} {start : Machine} {steps : Nat}
    (ha : (Stage.running h turn start steps).Sound)
    (hliteral : (Machine.step^[steps] start).literal? = none)
    (hresult : (Machine.step^[steps + 1] start).control = .value v)
    (hnew : (Machine.step^[steps] start).image.objects.cells.size ≤ v.index)
    (hpayload : (Machine.step^[steps + 1] start).image.payload v = c.payload) :
    New (.running h turn start steps) v (.running h turn start (steps + 1)) := by
  have ha' : (Stage.running h turn start (steps + 1)).Sound := (Next.endures (.step ..) ha).1
  refine ⟨hnew, ha'.index_lt (Machine.mem_reach_of_mem_refs (List.mem_append_left _ ?_)),
    ⟨c, hpayload⟩, ?_⟩
  · rw [hresult]
    exact List.mem_singleton.mpr rfl
  · show (Machine.step^[steps + 1] start).image.literals = _
    rw [Function.iterate_succ_apply']
    exact Machine.literals_step hliteral

theorem new_of_alloc (h : Host) (as : Option String) (c : Constant) (protos : List Ref) :
    New (.idle h) (h.image.alloc c.payload protos).1
      (.idle ({ h with image := (h.image.alloc c.payload protos).2 }.answerValue as
        (h.image.alloc c.payload protos).1).2) := by
  let made : Host := { h with image := (h.image.alloc c.payload protos).2 }
  -- keeping an object is no change to it
  have hobjects (r : Ref) : (made.keep as r).image.objects = made.image.objects := by
    cases as <;> rfl
  refine ⟨le_rfl, ?_, ⟨c, ?_⟩, made.literals_keep as _⟩
  · show h.image.objects.cells.size < (made.keep as _).image.objects.cells.size
    rw [hobjects]
    show _ < (h.image.objects.alloc _).2.cells.size
    rw [Heap.size_cells_alloc]
    exact Nat.lt_succ_self _
  · show (made.keep as _).image.objects.payload _ = _
    rw [hobjects]
    exact Image.payload_alloc h.image c.payload protos

theorem Makes.new (hm : a.Makes v a') (ha : a.Sound) : New a v a' := by
  cases hm with
  | operation hanswers hop h turn =>
    obtain ⟨rfl, c, hpayload⟩ := hanswers.of_composes hop
    have hresult := hanswers.yields
    rw [← Function.iterate_succ_apply' Machine.step] at hresult hpayload
    exact new_of_step ha (Machine.literal?_of_operation hanswers.starts) hresult le_rfl hpayload
  | result hliteral hresult hnew hpayload h turn =>
    exact new_of_step ha hliteral hresult hnew hpayload
  | number h as x => exact new_of_alloc h as (.number x.bits) [Builtin.number.ref]
  | string h as s => exact new_of_alloc h as (.text s) [Builtin.string.ref]
  | @draft h objects protos rs ss hobjects hprotos as texts c =>
    have hpayload : Draft.payload ⟨texts, c.payload⟩ (h.know texts).image.names rs = c.payload := by
      cases c <;> rfl
    have hmade : h.handle as (.make ⟨texts, c.payload⟩ objects protos)
        = h.make as ⟨texts, c.payload⟩ rs ss := by
      unfold Host.handle
      dsimp only
      rw [hobjects, hprotos]
    -- the host that knows the texts has the same objects
    have hnew := new_of_alloc (h.know texts) as c ss
    rw [hmade, Host.make]
    dsimp only
    rw [hpayload]
    exact ⟨hnew.le_index, hnew.index_lt, hnew.constant, hnew.literals_eq⟩

/-- **What is made is no literal's object**, be the literal met before or after. -/
theorem Makes.ne (hm : a.Makes v a') (ha : a.Sound) {c : Constant} {r : Ref} {b : Stage}
    (hr : b.Meets c r) (hb : b.Sound) (hab : ReflTransGen Next b a ∨ ReflTransGen Next a' b) :
    r ≠ v := by
  have hnew := hm.new ha
  have ha' : a'.Sound := (hm.next.endures ha).1
  -- the entries that were there by then are for objects that were there before
  have hold (hlookup : a'.image.literals.lookup c = some r) : r ≠ v := by
    rintro rfl
    rw [hnew.literals_eq] at hlookup
    exact Nat.not_lt.mpr hnew.le_index (ha.index_lt_of_lookup hlookup)
  rcases hab with hba | hab
  -- met before, it was in the table by then; met after, it may have got an object newer than `v`
  · exact hold (hr.lookup hb (.tail' hba hm.next))
  · obtain ⟨b', hn⟩ := b.exists_next
    have hlookup := hr.lookup_next hn
    rcases (gathers (hab.tail hn) ha').newer c r hlookup with hlookup | hle
    · exact hold hlookup
    · rintro rfl
      exact Nat.not_lt.mpr hle hnew.index_lt

end Stage

/-! ## §5. The identity of literals. -/

open Stage (Next Reached)

/-- What literals are in the histories of a new host: one stage comes before another if the
history leads from it to the other. -/
structure Host.SharesLiterals (config : Config) : Prop where
  /-- A literal that is next yields an object. -/
  yields : ∀ (a : Stage) (m : Machine) (c : Constant), a.machine? = some m → m.literal? = some c →
    ∃ r, a.Meets c r
  /-- Two literals yield one object if and only if they are equal. -/
  shares : ∀ (a b : Stage) (c d : Constant) (r s : Ref), Reached config a → ReflTransGen Next a b →
    a.Meets c r → b.Meets d s → (r = s ↔ c = d)
  /-- Ever after, the object is what the literal says. -/
  carries : ∀ (a b : Stage) (c : Constant) (r : Ref), Reached config a → a.Meets c r →
    TransGen Next a b → b.image.payload r = c.payload
  /-- Other numbers and strings that are made were not there before. -/
  makes : ∀ (a a' : Stage) (v : Ref), Reached config a → a.Makes v a' →
    a.image.objects.get? v = none ∧ ∃ c : Constant, a'.image.payload v = c.payload
  /-- They are no literal's object, neither of one met before nor of one met after. -/
  apart : ∀ (a a' b : Stage) (c : Constant) (r v : Ref), Reached config a → a.Makes v a' →
    Reached config b → ReflTransGen Next b a ∨ ReflTransGen Next a' b → b.Meets c r → r ≠ v

/-- **Literals have an identity**: in every history of a new host, whatever its requests and their
programs are and whenever it collects. -/
theorem Host.sharesLiterals (config : Config) : Host.SharesLiterals config where
  yields := by
    intro a m c hm hc
    obtain ⟨r, hr⟩ := Machine.exists_meets hc
    exact ⟨r, m, hm, hr⟩
  shares := fun a b c d r s ha hab hr hs => Stage.Meets.eq_iff ha hab hr hs
  carries := by
    intro a b c r ha hr hab
    have hb : Reached config b := ha.trans hab.to_reflTransGen
    exact hb.keyed c r (hr.lookup ha.sound hab)
  makes := by
    intro a a' v ha hm
    have hnew := hm.new ha.sound
    exact ⟨Heap.get?_eq_none_of_size_le hnew.le_index, hnew.constant⟩
  apart := fun a a' b c r v ha hm hb hab hr => hm.ne ha.sound hr hb.sound hab

/-- Two programs with a collection in between get one object for `7` and `7.0`; the number that the
host makes is another one. -/
theorem Host.sharesLiterals_seven :
    let seven : Binary64 := ⟨0x401C000000000000⟩
    let first := Host.new {}
    let second := ((first.handle none (.run "7")).2.handle none .collect).2
    ∃ m n r, first.machineOf? (.run "7") = some m ∧ second.machineOf? (.run "7.0") = some n
      ∧ m.Meets (.number seven.bits) r ∧ n.Meets (.number seven.bits) r
      ∧ r ≠ (second.image.number seven).1 := by
  intro seven first second
  have hshared := sharesLiterals {}
  have hmeets : (first.machineOf? (.run "7")).bind Machine.literal? = some (.number seven.bits) := by
    decide +kernel
  have hmeets' : (second.machineOf? (.run "7.0")).bind Machine.literal?
      = some (.number seven.bits) := by decide +kernel
  have hends : (first.machineOf? (.run "7")).map (fun m => (Machine.step^[2] m).isDone)
      = some true := by decide +kernel
  obtain ⟨m, hm, hliteral⟩ := Option.bind_eq_some_iff.mp hmeets
  obtain ⟨n, hn, hliteral'⟩ := Option.bind_eq_some_iff.mp hmeets'
  have hdone : (Machine.step^[2] m).isDone = true := by
    rw [hm] at hends
    exact Option.some.inj hends
  let a : Stage := .running first (none, .run "7") m 0
  let b : Stage := .running second (none, .run "7.0") n 0
  have ha : Reached {} a := .single (.start hm none trivial)
  -- the literal, the end of the chain, the reply, the collection
  have hbetween : ReflTransGen Next a (.idle second) :=
    (((ReflTransGen.refl.tail (.step first _ m 0)).tail (.step first _ m 1)).tail
      (.finish hdone (by decide) first none _)).tail (.answer _ none .collect trivial)
  have hab : ReflTransGen Next a b := hbetween.tail (.start hn none trivial)
  obtain ⟨r, hr⟩ := hshared.yields a m _ rfl hliteral
  obtain ⟨s, hs⟩ := hshared.yields b n _ rfl hliteral'
  obtain rfl : r = s := (hshared.shares a b _ _ r s ha hab hr hs).mpr rfl
  have hapart : r ≠ (second.image.number seven).1 :=
    hshared.apart _ _ a _ r _ (ha.trans hbetween) (.number second none seven) ha (.inl hbetween) hr
  obtain ⟨m', hm', hr⟩ := hr
  obtain ⟨n', hn', hs⟩ := hs
  cases hm'
  cases hn'
  exact ⟨m, n, r, hm, hn, hr, hs, hapart⟩

end Prototalk
