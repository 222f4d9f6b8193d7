/-
  Prototalk.Proofs.Evaluation.Depth
  ────────────────────────────────
  **RUNS UNDER A LIMIT OF ACTIVATIONS.**

  A run under a limit goes with the run that has none until it is to start an
  activation too many.  From there it can only be left: the stack is unwound
  and the run ends in a stack overflow (`Machine.limited_cases`).  So

    • a run that does not overflow is the same under every greater limit,
    • a run overflows exactly if, without a limit, more activations than the
      limit would be in progress at some time,

  and either way the depth is afterwards what it was before
  (`Image.limitLaw`).
-/
import Prototalk.Evaluation.Program
import Prototalk.Proofs.Evaluation.Endless
import Prototalk.Proofs.Evaluation.Limit

namespace Prototalk

namespace Machine

variable {base n fuel k : Nat} {m last : Machine}

/-! ## §1. Runs. -/

theorem run_of_isDone (hdone : m.isDone = true) (fuel : Nat) : run fuel m = some m := by
  cases fuel <;> rw [run, if_pos hdone]

/-- A run is so many steps, if the machine has ended by then. -/
theorem run_eq_some_iff :
    run fuel m = some last ↔ (step^[fuel] m).isDone = true ∧ step^[fuel] m = last := by
  induction fuel generalizing m with
  | zero =>
    show (if m.isDone then some m else none) = some last ↔ m.isDone = true ∧ m = last
    by_cases hdone : m.isDone = true
    · simp [hdone]
    · simp [hdone]
  | succ fuel ih =>
    by_cases hdone : m.isDone = true
    · rw [run_of_isDone hdone, Function.iterate_fixed (step_of_isDone hdone)]
      simp [hdone]
    · rw [run, if_neg hdone, ih, Function.iterate_succ_apply]

theorem run_eq_none_iff : run fuel m = none ↔ (step^[fuel] m).isDone = false := by
  rw [Option.eq_none_iff_forall_ne_some]
  constructor
  · intro hnone
    by_contra hdone
    exact hnone _ (run_eq_some_iff.mpr ⟨by simpa using hdone, rfl⟩)
  · intro hgoing last hrun
    rw [(run_eq_some_iff.mp hrun).1] at hgoing
    cases hgoing

/-- Wherever the machine has ended, it has ended in the same state. -/
theorem iterate_eq_of_isDone {j k : Nat} (hj : (step^[j] m).isDone = true)
    (hk : (step^[k] m).isDone = true) : step^[j] m = step^[k] m := by
  have hfixed (hdone : (step^[j] m).isDone = true) : step^[k + j] m = step^[j] m := by
    rw [Function.iterate_add_apply, Function.iterate_fixed (step_of_isDone hdone)]
  have hfixed' : step^[j + k] m = step^[k] m := by
    rw [Function.iterate_add_apply, Function.iterate_fixed (step_of_isDone hk)]
  rw [← hfixed hj, Nat.add_comm, hfixed']

/-- A machine that has ended by `k` steps has ended so in any greater number of steps. -/
theorem run_of_isDone_iterate (hdone : (step^[k] m).isDone = true) (hk : k ≤ fuel) :
    run fuel m = some (step^[k] m) := by
  have hlast : step^[fuel] m = step^[k] m := by
    rw [← Nat.sub_add_cancel hk, Function.iterate_add_apply,
      Function.iterate_fixed (step_of_isDone hdone)]
  exact run_eq_some_iff.mpr ⟨by rw [hlast]; exact hdone, hlast⟩

theorem stack_of_isDone (hdone : m.isDone = true) : m.stack = [] := by
  obtain ⟨i, control, stack⟩ := m
  cases stack with
  | nil => rfl
  | cons frame stack => cases control <;> cases hdone

theorem counted_iterate (hm : m.Counted base) (k : Nat) : (step^[k] m).Counted base := by
  induction k with
  | zero => exact hm
  | succ k ih =>
    rw [Function.iterate_succ_apply']
    exact counted_step ih

/-! ## §2. Runs without a limit. -/

/-- Under the limit `n` the next step starts an activation too many. -/
def Full (n : Nat) (m : Machine) : Prop := m.activates = true ∧ n ≤ m.image.depth

theorem counted_free (hm : m.Counted base) (k : Nat) : (freeStep^[k] m).Counted base := by
  induction k with
  | zero => exact hm
  | succ k ih =>
    rw [Function.iterate_succ_apply']
    exact (frees ih).counted

theorem calm_free (hm : m.Counted base) (hcalm : m.control.Calm) (k : Nat) :
    (freeStep^[k] m).control.Calm := by
  induction k with
  | zero => exact hcalm
  | succ k ih =>
    rw [Function.iterate_succ_apply']
    exact (frees (counted_free hm k)).calm ih

/-- As long as no activation is one too many, the limit does not matter. -/
theorem iterate_limited (hm : m.Counted base) (hfree : ∀ j < k, ¬ (freeStep^[j] m).Full n) :
    step^[k] (m.limited n) = (freeStep^[k] m).limited n := by
  induction k with
  | zero => rfl
  | succ k ih =>
    have hbelow : (freeStep^[k] m).activates = true → (freeStep^[k] m).image.depth < n :=
      fun hactivates => by
        by_contra hfull
        exact hfree k (Nat.lt_succ_self k) ⟨hactivates, Nat.not_lt.mp hfull⟩
    rw [Function.iterate_succ_apply', ih fun j hj => hfree j (Nat.lt_succ_of_lt hj),
      (frees (counted_free hm k)).limited n hbelow, Function.iterate_succ_apply']

/-- An activation is one too many as soon as more than `n` are in progress. -/
theorem exists_full_iff (hm : m.Counted 0) (hstart : waiting m.stack = 0) :
    (∃ k, (freeStep^[k] m).Full n) ↔ ∃ k, n < (freeStep^[k] m).inProgress := by
  constructor
  · rintro ⟨k, hactivates, hfull⟩
    refine ⟨k, ?_⟩
    rw [counted_free hm k, Nat.zero_add] at hfull
    rw [inProgress, hactivates]
    exact Nat.lt_succ_of_le hfull
  · intro hmany
    -- the first time there are so many, the last of them is just starting
    obtain ⟨k, hk, hfirst⟩ := Nat.findX hmany
    have hwaiting : waiting (freeStep^[k] m).stack ≤ n := by
      cases k with
      | zero =>
        show waiting m.stack ≤ n
        omega
      | succ k =>
        have hle := (frees (counted_free hm k)).waiting_le
        rw [← Function.iterate_succ_apply' freeStep k m] at hle
        exact Nat.le_trans hle (Nat.not_lt.mp (hfirst k (Nat.lt_succ_self k)))
    refine ⟨k, ?_⟩
    unfold inProgress at hk
    cases hactivates : (freeStep^[k] m).activates with
    | false =>
      rw [hactivates, Bool.toNat_false] at hk
      omega
    | true =>
      refine ⟨hactivates, ?_⟩
      rw [counted_free hm k]
      rw [hactivates, Bool.toNat_true] at hk
      omega

/-! ## §3. Overflows. -/

theorem step_failed (i : Image) (e : EvalError) (frame : Frame) (stack : List Frame) :
    ∃ i' e', step ⟨i, .unwind (.failed e), frame :: stack⟩ = ⟨i', .unwind (.failed e'), stack⟩
      ∧ e'.fault = e.fault := by
  cases frame with
  | send locals receiver result slot site =>
    refine ⟨i, e.withSpanIfMissing site.message.span, rfl, ?_⟩
    unfold EvalError.withSpanIfMissing
    split <;> rfl
  | native a pending => exact ⟨i, e, rfl, rfl⟩
  | bind b param => exact ⟨_, e, rfl, rfl⟩
  | body scope => exact ⟨_, e, rfl, rfl⟩

/-- An error leaves every frame and ends the run. -/
theorem iterate_failed (i : Image) (e : EvalError) (stack : List Frame) :
    ∃ i' e', step^[stack.length] ⟨i, .unwind (.failed e), stack⟩ = ⟨i', .unwind (.failed e'), []⟩
      ∧ e'.fault = e.fault := by
  induction stack generalizing i e with
  | nil => exact ⟨i, e, rfl, rfl⟩
  | cons frame stack ih =>
    obtain ⟨i₁, e₁, hstep, hfault₁⟩ := step_failed i e frame stack
    obtain ⟨i₂, e₂, hrest, hfault₂⟩ := ih i₁ e₁
    refine ⟨i₂, e₂, ?_, hfault₂.trans hfault₁⟩
    rw [List.length_cons, Function.iterate_succ_apply, hstep]
    exact hrest

/-- The run has ended in a stack overflow. -/
def Overflowed (n : Nat) (m : Machine) : Prop :=
  m.isDone = true ∧ ∃ span, m.result = .error ⟨.stackOverflow n, span⟩

/-- **A run under a limit goes with the free run, or it overflows.** -/
theorem limited_cases (hm : m.Counted base) (n : Nat) :
    ((∀ k, ¬ (freeStep^[k] m).Full n)
      ∧ ∀ k, step^[k] (m.limited n) = (freeStep^[k] m).limited n)
    ∨ ((∃ k, (freeStep^[k] m).Full n) ∧ ∃ k, (step^[k] (m.limited n)).Overflowed n) := by
  by_cases hfull : ∃ k, (freeStep^[k] m).Full n
  · refine .inr ⟨hfull, ?_⟩
    classical
    obtain ⟨k, ⟨hactivates, hdepth⟩, hfirst⟩ := Nat.findX hfull
    obtain ⟨stack, -, hstep⟩ := step_limited_full hactivates hdepth
    obtain ⟨i, e, hunwound, hfault⟩ :=
      iterate_failed ((freeStep^[k] m).image.limited n) (.ofFault (.stackOverflow n)) stack
    refine ⟨stack.length + (k + 1), ?_⟩
    rw [Function.iterate_add_apply, Function.iterate_succ_apply', iterate_limited hm hfirst, hstep]
    refine ⟨?_, e.span, ?_⟩
    · exact (congrArg isDone hunwound).trans rfl
    · refine (congrArg result hunwound).trans ?_
      show Except.error e = _
      rw [show e = ⟨e.fault, e.span⟩ from rfl, hfault]
      rfl
  · have hfree : ∀ k, ¬ (freeStep^[k] m).Full n := not_exists.mp hfull
    exact .inl ⟨hfree, fun k => iterate_limited hm fun j _ => hfree j⟩

/-- Without a limit there is no overflow. -/
theorem result_ne_of_calm (hcalm : m.control.Calm) (limit : Nat) (span : Option Span) :
    m.result ≠ .error ⟨.stackOverflow limit, span⟩ := by
  intro hresult
  obtain ⟨i, control, stack⟩ := m
  cases control with
  | walk w => cases hresult
  | value v => cases hresult
  | unwind s =>
    cases s with
    | returning v => cases hresult
    | failed e =>
      have he : e = ⟨.stackOverflow limit, span⟩ := Except.error.inj hresult
      subst he
      cases hcalm

end Machine

/-! ## §4. Calls from outside. -/

/-- A call of an image from outside. -/
inductive EntryPoint where
  /-- Run the program in a text. -/
  | text (text : String)
  /-- Run the program that a source reads. -/
  | source (source : Source)
  /-- Evaluate a chain in an object. -/
  | chain (chain : Chain) (locals : Ref)

namespace Image

/-- What a call comes to. -/
def enter (image : Image) (fuel : Nat) : EntryPoint → Option Ran
  | .text text => image.doString fuel text
  | .source source => image.doSource fuel source
  | .chain chain locals => image.evaluate fuel chain locals

/-- The machine that a program starts, unless it has no messages. -/
def machineOfParsed? (image : Image) (parsed : Parsed) : Option Machine :=
  match parsed.result with
  | .ok (some chain) => some (.start { image with names := parsed.names } chain Builtin.lobby.ref)
  | _ => none

/-- The machine that a call starts. -/
def machineOf? (image : Image) : EntryPoint → Option Machine
  | .text text => image.machineOfParsed? (parse image.names text)
  | .source source => image.machineOfParsed? (parseSource image.names image.lexMode source)
  | .chain chain locals => some (.start image chain locals)

/-- A call starts a machine, and ends with it. -/
structure Runs (image : Image) (entry : EntryPoint) (start : Machine) (finish : Machine → Ran) :
    Prop where
  machine : image.machineOf? entry = some start
  counted : start.Counted image.depth
  stack : start.stack = []
  calm : start.control.Calm
  enter : ∀ n fuel, (image.limited n).enter fuel entry
    = (Machine.run fuel (start.limited n)).map finish
  result : ∀ m, (finish m).result = m.result
  depth : ∀ m, (finish m).image.depth = m.image.depth
  limited : ∀ m n, (finish (m.limited n)).image = (finish m).image.limited n

/-- A call ends without a machine. -/
structure Stays (image : Image) (entry : EntryPoint) (ran : Ran) : Prop where
  machine : image.machineOf? entry = none
  enter : ∀ n fuel, (image.limited n).enter fuel entry = some ⟨ran.result, ran.image.limited n⟩
  result : ∀ limit span, ran.result ≠ .error ⟨.stackOverflow limit, span⟩
  depth : ran.image.depth = image.depth

variable {image : Image} {entry : EntryPoint}

theorem runs_chain (image : Image) (chain : Chain) (locals : Ref) :
    image.Runs (.chain chain locals) (.start image chain locals) fun m => ⟨m.result, m.image⟩ where
  machine := rfl
  counted := rfl
  stack := rfl
  calm := trivial
  enter _ _ := rfl
  result _ := rfl
  depth _ := rfl
  limited _ _ := rfl

/-- A program, parsed in whatever way. -/
theorem stays_or_runs_of_parsed (parsed : Parsed)
    (hmachine : image.machineOf? entry = image.machineOfParsed? parsed)
    (henter : ∀ n fuel, (image.limited n).enter fuel entry
      = (image.limited n).runParsed fuel parsed) :
    (∃ ran, image.Stays entry ran) ∨ ∃ start finish, image.Runs entry start finish := by
  unfold machineOfParsed? at hmachine
  unfold runParsed at henter
  cases hresult : parsed.result with
  | error e =>
    rw [hresult] at hmachine henter
    refine .inl ⟨⟨.error (.ofParseError e), { image with names := parsed.names }⟩, hmachine, henter,
      ?_, rfl⟩
    intro limit span h
    cases h
  | ok chain =>
    rw [hresult] at hmachine henter
    cases chain with
    | none =>
      refine .inl ⟨⟨.ok Builtin.nil.ref, { image with names := parsed.names }⟩, hmachine, henter,
        ?_, rfl⟩
      intro limit span h
      cases h
    | some chain =>
      refine .inr ⟨.start { image with names := parsed.names } chain Builtin.lobby.ref,
        fun m => ⟨m.result, m.image.collectIfDue (resultRefs m.result)⟩, hmachine, rfl, rfl,
        trivial, ?_, fun _ => rfl, fun m => Machine.depth_collectIfDue .., ?_⟩
      · intro n fuel
        rw [henter]
        simp only [runChain, evaluate, Option.map_map]
        rfl
      · intro m n
        show (m.image.limited n).collectIfDue _ = _
        rw [limited, Machine.collectIfDue_counted, limited, Machine.depth_collectIfDue]
        rfl

/-- Every call either ends at once or runs a machine. -/
theorem stays_or_runs (image : Image) (entry : EntryPoint) :
    (∃ ran, image.Stays entry ran) ∨ ∃ start finish, image.Runs entry start finish := by
  cases entry with
  | text text => exact stays_or_runs_of_parsed (parse image.names text) rfl fun _ _ => rfl
  | source source =>
    exact stays_or_runs_of_parsed (parseSource image.names image.lexMode source) rfl fun _ _ => rfl
  | chain chain locals => exact .inr ⟨_, _, runs_chain image chain locals⟩

/-! ## §5. Limits. -/

/-- What the limits `n` and `m` mean to a call. -/
structure LimitLaw (image : Image) (entry : EntryPoint) (n m : Nat) : Prop where
  /-- A call that does not overflow is the same under the greater limit. -/
  same : ∀ fuel ran, (image.limited n).enter fuel entry = some ran →
    (∀ limit span, ran.result ≠ .error ⟨.stackOverflow limit, span⟩) →
      (image.limited m).enter fuel entry = some ⟨ran.result, ran.image.limited m⟩
  /-- So is one that does not end. -/
  endless : (∀ fuel, (image.limited n).enter fuel entry = none) →
    ∀ fuel, (image.limited m).enter fuel entry = none
  /-- It overflows if the run without a limit has more activations in progress at some time. -/
  overflow : (∃ fuel ran span, (image.limited n).enter fuel entry = some ran
      ∧ ran.result = .error ⟨.stackOverflow n, span⟩)
    ↔ ∃ start k, image.machineOf? entry = some start ∧ n < (Machine.freeStep^[k] start).inProgress
  /-- However it ends, no activation is left. -/
  depth : ∀ fuel ran, (image.limited n).enter fuel entry = some ran → ran.image.depth = 0

variable {n m : Nat} {start : Machine} {finish : Machine → Ran}

theorem Stays.limitLaw {ran : Ran} (h : image.Stays entry ran) (hdepth : image.depth = 0)
    (n m : Nat) : image.LimitLaw entry n m := by
  constructor
  · intro fuel ran' hran _
    rw [h.enter] at hran
    cases hran
    exact h.enter m fuel
  · intro hnone
    have hsome := h.enter n 0
    rw [hnone 0] at hsome
    cases hsome
  · constructor
    · rintro ⟨fuel, ran', span, hran, hresult⟩
      rw [h.enter] at hran
      cases hran
      exact absurd hresult (h.result n span)
    · rintro ⟨start, k, hmachine, -⟩
      rw [h.machine] at hmachine
      cases hmachine
  · intro fuel ran' hran
    rw [h.enter] at hran
    cases hran
    exact h.depth.trans hdepth

/-- A call under a limit has ended when its machine has. -/
theorem Runs.enter_eq_some_iff (h : image.Runs entry start finish) {fuel : Nat} {ran : Ran} :
    (image.limited n).enter fuel entry = some ran
      ↔ (Machine.step^[fuel] (start.limited n)).isDone = true
        ∧ finish (Machine.step^[fuel] (start.limited n)) = ran := by
  rw [h.enter, Option.map_eq_some_iff]
  constructor
  · rintro ⟨last, hrun, rfl⟩
    obtain ⟨hdone, rfl⟩ := Machine.run_eq_some_iff.mp hrun
    exact ⟨hdone, rfl⟩
  · rintro ⟨hdone, rfl⟩
    exact ⟨_, Machine.run_eq_some_iff.mpr ⟨hdone, rfl⟩, rfl⟩

theorem Runs.enter_eq_none_iff (h : image.Runs entry start finish) {fuel : Nat} :
    (image.limited n).enter fuel entry = none
      ↔ (Machine.step^[fuel] (start.limited n)).isDone = false := by
  rw [h.enter, Option.map_eq_none_iff, Machine.run_eq_none_iff]

/-- A call whose machine overflows ends so. -/
theorem Runs.result_of_overflowed (h : image.Runs entry start finish) {k fuel : Nat} {ran : Ran}
    (hover : (Machine.step^[k] (start.limited n)).Overflowed n)
    (hran : (image.limited n).enter fuel entry = some ran) :
    ∃ span, ran.result = .error ⟨.stackOverflow n, span⟩ := by
  obtain ⟨hdone, span, hresult⟩ := hover
  obtain ⟨hdone', rfl⟩ := h.enter_eq_some_iff.mp hran
  refine ⟨span, ?_⟩
  rw [h.result, Machine.iterate_eq_of_isDone hdone' hdone]
  exact hresult

/-- A call overflows if its machine, without a limit, comes to an activation too many. -/
theorem Runs.overflows_iff (h : image.Runs entry start finish) (n : Nat) :
    (∃ fuel ran span, (image.limited n).enter fuel entry = some ran
      ∧ ran.result = .error ⟨.stackOverflow n, span⟩)
      ↔ ∃ k, (Machine.freeStep^[k] start).Full n := by
  obtain ⟨hfree, hsame⟩ | ⟨hfull, k, hover⟩ := Machine.limited_cases h.counted n
  · refine iff_of_false ?_ (not_exists.mpr hfree)
    rintro ⟨fuel, ran, span, hran, hresult⟩
    obtain ⟨-, rfl⟩ := h.enter_eq_some_iff.mp hran
    rw [h.result, hsame] at hresult
    exact Machine.result_ne_of_calm (Machine.calm_free h.counted h.calm fuel) n span hresult
  · refine iff_of_true ?_ hfull
    have hran := h.enter_eq_some_iff.mpr ⟨hover.1, rfl⟩
    obtain ⟨span, hresult⟩ := h.result_of_overflowed hover hran
    exact ⟨k, _, span, hran, hresult⟩

theorem Runs.limitLaw (h : image.Runs entry start finish) (hdepth : image.depth = 0)
    (hnm : n ≤ m) : image.LimitLaw entry n m := by
  have hcounted : start.Counted 0 := hdepth ▸ h.counted
  have hwaiting : waiting start.stack = 0 := by
    rw [h.stack]
    rfl
  -- what is not too many for the smaller limit is not too many for the greater one
  have hgreater (hfree : ∀ k, ¬ (Machine.freeStep^[k] start).Full n) (k : Nat) :
      Machine.step^[k] (start.limited m) = (Machine.freeStep^[k] start).limited m :=
    Machine.iterate_limited hcounted fun j _ hfull => hfree j ⟨hfull.1, Nat.le_trans hnm hfull.2⟩
  constructor
  · intro fuel ran hran hclean
    obtain ⟨hfree, hsame⟩ | ⟨-, k, hover⟩ := Machine.limited_cases hcounted n
    · obtain ⟨hdone, rfl⟩ := h.enter_eq_some_iff.mp hran
      rw [hsame] at hdone ⊢
      refine h.enter_eq_some_iff.mpr ⟨?_, ?_⟩
      · rw [hgreater hfree]
        exact hdone
      · rw [hgreater hfree]
        have hresult : (finish ((Machine.freeStep^[fuel] start).limited m)).result
            = (finish ((Machine.freeStep^[fuel] start).limited n)).result := by
          rw [h.result, h.result]
          rfl
        have himage := h.limited (Machine.freeStep^[fuel] start)
        rw [himage n, ← hresult]
        exact congrArg (Ran.mk _) (himage m)
    · obtain ⟨span, hresult⟩ := h.result_of_overflowed hover hran
      exact absurd hresult (hclean n span)
  · intro hnone fuel
    obtain ⟨hfree, hsame⟩ | ⟨-, k, hover⟩ := Machine.limited_cases hcounted n
    · have hgoing := h.enter_eq_none_iff.mp (hnone fuel)
      rw [hsame] at hgoing
      rw [h.enter_eq_none_iff, hgreater hfree]
      exact hgoing
    · have hgoing := h.enter_eq_none_iff.mp (hnone k)
      rw [hover.1] at hgoing
      cases hgoing
  · rw [h.overflows_iff, Machine.exists_full_iff hcounted hwaiting]
    constructor
    · rintro ⟨k, hk⟩
      exact ⟨start, k, h.machine, hk⟩
    · rintro ⟨start', k, hmachine, hk⟩
      rw [h.machine] at hmachine
      cases hmachine
      exact ⟨k, hk⟩
  · intro fuel ran hran
    obtain ⟨hdone, rfl⟩ := h.enter_eq_some_iff.mp hran
    rw [h.depth]
    have hlimited : (start.limited n).Counted 0 := hcounted
    rw [Machine.counted_iterate hlimited fuel, Machine.stack_of_isDone hdone]
    rfl

/-- **Limits of activations.** -/
theorem limitLaw (image : Image) (entry : EntryPoint) (hdepth : image.depth = 0) (hnm : n ≤ m) :
    image.LimitLaw entry n m := by
  obtain ⟨ran, h⟩ | ⟨start, finish, h⟩ := image.stays_or_runs entry
  · exact h.limitLaw hdepth n m
  · exact h.limitLaw hdepth hnm

end Image

end Prototalk
